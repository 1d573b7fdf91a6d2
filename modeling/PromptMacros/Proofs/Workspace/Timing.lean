import PromptMacros.Proofs.Workspace.Rename

/-!
# Time does not matter

When edits are made, how long the analysis waits for another edit, and when it is asked for, decides nothing but when the report
is current. `timeless` is what is left of a workspace without all that: the actions about time leave it as it is
(`timeless_perform_of_untimed_eq_none`), and every other action answers, and does to it, what it would without time
(`perform_timeless`). So two runs of the same actions at any times have the same outcomes (`outcomes_eq_of_untimed_eq`). A
renaming needs the report for this, and has it current because it starts with a flush.
-/

namespace PromptMacros

/-- An action without its time; nothing when the action is about time alone. -/
def Action.untimed : Action → Option Action
  | .poll _ | .flush | .settle | .analyze => none
  | .edit id content _ => some (.edit id content 0)
  | a => some a

/-- What an action answers, and the documents, the order and the selection behind it. -/
structure Outcome where
  answer : Answer
  documents : DocumentSet
  order : List String
  selectedDocument : Option String
  selectedVariable : Option String

namespace Workspace

/-- The workspace with no delay, with nothing waiting and with a current report. -/
def timeless (w : Workspace) : Workspace :=
  analyzed { w with config := { w.config with debounceMs := 0 }, debounce := { delay := 0 } }

/-- An answer, and what the workspace shows behind it. -/
def outcome (w : Workspace) (answer : Answer) : Outcome :=
  ⟨answer, w.documents, w.order, w.selectedDocument, w.selectedVariable⟩

/-- The outcomes of the actions of a run that are not about time alone. -/
def outcomes (w : Workspace) : List Action → List Outcome
  | [] => []
  | a :: actions =>
    let (answer, v) := w.perform a
    if a.untimed.isSome then v.outcome answer :: v.outcomes actions else v.outcomes actions

/-- Two operations give the same result and workspaces that are the same without time. -/
def Alike {α : Type} (r s : α × Workspace) : Prop :=
  r.1 = s.1 ∧ r.2.timeless = s.2.timeless

/-! ## Helpers: operations that do alike -/

section Helpers

variable {α : Type} {w : Workspace}

theorem settled_timeless (w : Workspace) : w.timeless.Settled :=
  fun _ => rfl

theorem timeless_flush (w : Workspace) : w.flush.2.timeless = w.timeless := by
  rw [flush_eq]
  rfl

theorem Alike.of {r s : α × Workspace} (h : Alike r s) (f : α → Answer) : Alike (Answer.of f r) (Answer.of f s) :=
  ⟨congrArg f h.1, h.2⟩

theorem Alike.ofResult {r s : Except Error α × Workspace} (h : Alike r s) (f : α → Answer) :
    Alike (Answer.ofResult f r) (Answer.ofResult f s) := by
  obtain ⟨r, v⟩ := r
  obtain ⟨s, u⟩ := s
  obtain ⟨hrs, hvu⟩ := h
  obtain rfl : r = s := hrs
  cases r with
  | ok a => exact ⟨rfl, hvu⟩
  | error e => exact ⟨rfl, hvu⟩

theorem alike_reorder (order : Option (List String)) : Alike (w.reorder order) (w.timeless.reorder order) := by
  cases order <;> exact ⟨rfl, rfl⟩

theorem alike_withDocument {id : String} {f g : Document → α × Workspace} (h : ∀ doc, Alike (f doc) (g doc)) :
    Alike (w.withDocument id f) (w.timeless.withDocument id g) := by
  cases hd : w.documents.get? id with
  | none =>
    have hd' : w.timeless.documents.get? id = none := hd
    rw [withDocument_eq_of_get?_eq_none f hd, withDocument_eq_of_get?_eq_none g hd']
    exact ⟨rfl, rfl⟩
  | some doc =>
    have hd' : w.timeless.documents.get? id = some doc := hd
    rw [withDocument, withDocument, hd, hd']
    exact ⟨congrArg Except.ok (h doc).1, (h doc).2⟩

theorem alike_addToOrder (id : String) : Alike (w.addToOrder id) (w.timeless.addToOrder id) := by
  unfold addToOrder
  change Alike _ (if w.documents.contains id = false then _ else if w.isInOrder id = true then _ else _)
  split
  · exact ⟨rfl, rfl⟩
  · split <;> exact ⟨rfl, rfl⟩

theorem alike_remove (id : String) : Alike (w.remove id) (w.timeless.remove id) := by
  have ht : w.timeless.documents = w.documents := rfl
  unfold remove
  rw [ht]
  cases w.documents.get? id with
  | none => exact ⟨rfl, rfl⟩
  | some doc => exact ⟨rfl, rfl⟩

theorem alike_dropRemovable {v : Workspace} (h : w.timeless = v.timeless) (ids : List String) :
    Alike (w.dropRemovable ids) (v.dropRemovable ids) := by
  induction ids generalizing w v with
  | nil => exact ⟨rfl, h⟩
  | cons id ids ih =>
    have hr : w.timeless.isRemovable id = v.timeless.isRemovable id := by rw [h]
    have hd : (w.timeless.dropDocument id).timeless = (v.timeless.dropDocument id).timeless := by rw [h]
    change w.isRemovable id = v.isRemovable id at hr
    change (w.dropDocument id).timeless = (v.dropDocument id).timeless at hd
    unfold dropRemovable
    rw [hr]
    split
    · obtain ⟨h1, h2⟩ := ih hd
      exact ⟨congrArg (id :: ·) h1, h2⟩
    · exact ih h

theorem alike_removeMany (ids : List String) : Alike (w.removeMany ids) (w.timeless.removeMany ids) := by
  obtain ⟨h1, h2⟩ := alike_dropRemovable (w := w) (v := w.timeless) rfl ids
  refine ⟨h1, ?_⟩
  change (if (w.dropRemovable ids).1.isEmpty then (w.dropRemovable ids).2
      else (w.dropRemovable ids).2.analyzed).timeless =
    (if (w.timeless.dropRemovable ids).1.isEmpty then (w.timeless.dropRemovable ids).2
      else (w.timeless.dropRemovable ids).2.analyzed).timeless
  rw [h1]
  split <;> exact h2

/-- A renaming does alike without time: the flush at its start lets it see the report of the documents as they are. -/
theorem alike_rename (h : w.Settled) (old new : String) : Alike (w.rename old new) (w.timeless.rename old new) := by
  have ht : w.timeless.knows = w.knows := rfl
  cases hn : checkNewName w.knows old new with
  | error e =>
    rw [h.rename_of_error hn, (settled_timeless w).rename_of_error (ht ▸ hn)]
    exact ⟨rfl, timeless_flush w⟩
  | ok name =>
    by_cases hname : name = old
    · subst hname
      rw [h.rename_of_same hn, (settled_timeless w).rename_of_same (ht ▸ hn)]
      exact ⟨rfl, timeless_flush w⟩
    · rw [h.rename_of_ok hn hname, (settled_timeless w).rename_of_ok (ht ▸ hn) hname]
      refine ⟨rfl, ?_⟩
      unfold withRenamed
      rw [flush_eq w]
      rfl

end Helpers

/-! ## One action -/

variable {w v : Workspace}

/-- An action about time alone leaves the rest of the workspace as it is. -/
theorem timeless_perform_of_untimed_eq_none {a : Action} (ha : a.untimed = none) :
    (w.perform a).2.timeless = w.timeless := by
  cases a with
  | poll now =>
    change (w.poll now).2.timeless = _
    unfold poll
    dsimp only
    split <;> rfl
  | flush => exact timeless_flush w
  | settle =>
    change w.settle.2.timeless = _
    rw [settle_eq_flush, timeless_flush]
  | analyze => rfl
  | _ => cases ha

/-- Any other action answers, and does to the rest of the workspace, what it would without time. -/
theorem perform_timeless (h : w.Settled) {a b : Action} (ha : a.untimed = some b) :
    Alike (w.perform a) (w.timeless.perform b) := by
  cases a with
  | poll _ | flush | settle | analyze => cases ha
  | edit id content now =>
    obtain rfl := Option.some.inj ha
    refine Alike.ofResult (alike_withDocument fun _ => ?_) _
    exact ⟨rfl, rfl⟩
  | setOrder _ | insert _ | create _ | selectDocument _ | clearSelection =>
    obtain rfl := Option.some.inj ha
    exact ⟨rfl, rfl⟩
  | moveToTop _ | moveToBottom _ | hide _ =>
    obtain rfl := Option.some.inj ha
    exact (alike_reorder _).of _
  | addToOrder id =>
    obtain rfl := Option.some.inj ha
    exact (alike_addToOrder id).ofResult _
  | duplicate _ _ | toggle _ | setName _ _ | setRole _ _ =>
    obtain rfl := Option.some.inj ha
    refine Alike.ofResult (alike_withDocument fun _ => ?_) _
    exact ⟨rfl, rfl⟩
  | remove id =>
    obtain rfl := Option.some.inj ha
    exact (alike_remove id).of _
  | removeMany ids =>
    obtain rfl := Option.some.inj ha
    exact (alike_removeMany ids).of _
  | setEnabled id enabled =>
    obtain rfl := Option.some.inj ha
    refine Alike.ofResult (alike_withDocument fun doc => ?_) _
    split <;> exact ⟨rfl, rfl⟩
  | rename old new =>
    obtain rfl := Option.some.inj ha
    exact (alike_rename h old new).ofResult _
  | selectVariable name =>
    obtain rfl := Option.some.inj ha
    refine ⟨rfl, ?_⟩
    change (w.selectVariable name).timeless = (w.timeless.selectVariable name).timeless
    unfold selectVariable
    split <;> rfl

/-- Two workspaces that are the same without time answer alike, and stay the same, when one performs an action at any time
and the other performs it without its time. -/
theorem alike_perform (hw : w.Settled) (hv : v.Settled) (h : w.timeless = v.timeless) {a b : Action}
    (ha : a.untimed = some b) : Alike (w.perform a) (v.perform b) := by
  have hb : b.untimed = some b := by
    cases a <;> cases ha <;> rfl
  have h1 := perform_timeless hw ha
  have h2 := perform_timeless hv hb
  rw [h] at h1
  exact ⟨h1.1.trans h2.1.symm, h1.2.trans h2.2.symm⟩

/-! ## Runs -/

/-- A run has the outcomes of the run without the actions about time alone, and ends with the same but for time. -/
theorem outcomes_eq_untimed (hw : w.Settled) (hv : v.Settled) (h : w.timeless = v.timeless) (actions : List Action) :
    w.outcomes actions = v.outcomes (actions.filterMap Action.untimed) ∧
      (w.performAll actions).2.timeless = (v.performAll (actions.filterMap Action.untimed)).2.timeless := by
  -- Both workspaces vary: an action about time alone moves the first and leaves the second where it is.
  induction actions generalizing w v with
  | nil => exact ⟨rfl, h⟩
  | cons a actions ih =>
    cases ha : a.untimed with
    | none =>
      rw [List.filterMap_cons_none ha]
      obtain ⟨h1, h2⟩ := ih (hw.perform a) hv ((timeless_perform_of_untimed_eq_none ha).trans h)
      refine ⟨?_, h2⟩
      rw [← h1, outcomes, ha]
      rfl
    | some b =>
      have hb : b.untimed = some b := by
        cases a <;> cases ha <;> rfl
      rw [List.filterMap_cons_some ha]
      obtain ⟨hans, htime⟩ := alike_perform hw hv h ha
      obtain ⟨h1, h2⟩ := ih (hw.perform a) (hv.perform b) htime
      have hshow : (w.perform a).2.outcome (w.perform a).1 = (v.perform b).2.outcome (v.perform b).1 := by
        change (w.perform a).2.timeless.outcome (w.perform a).1 = (v.perform b).2.timeless.outcome (v.perform b).1
        rw [hans, htime]
      refine ⟨?_, h2⟩
      rw [outcomes, outcomes, ha, hb]
      exact congrArg₂ List.cons hshow h1

theorem Settled.performAll (h : w.Settled) (actions : List Action) : (w.performAll actions).2.Settled := by
  induction actions generalizing w with
  | nil => exact h
  | cons a actions ih => exact ih (h.perform a)

/-- Two runs from the same parts perform the same actions, each at its own times, with its own delay, and asking for the
analysis when it likes. The actions answer the same, with the same documents, order and selection behind each, and a flush at
the end leaves the same report. -/
theorem outcomes_eq_of_untimed_eq (config : Config) (delay : Nat) (documents : DocumentSet) (order : List String)
    {as bs : List Action} (h : as.filterMap Action.untimed = bs.filterMap Action.untimed) :
    let w := ofParts config documents order
    let v := ofParts { config with debounceMs := delay } documents order
    w.outcomes as = v.outcomes bs ∧ (w.performAll as).2.flush.2.report = (v.performAll bs).2.flush.2.report := by
  intro w v
  have hw : w.Settled := fun _ => rfl
  have hv : v.Settled := fun _ => rfl
  obtain ⟨hout, htime⟩ := outcomes_eq_untimed hw hw rfl as
  obtain ⟨hout', htime'⟩ := outcomes_eq_untimed hv hw rfl bs
  rw [h] at hout htime
  refine ⟨hout.trans hout'.symm, ?_⟩
  have hreport : (w.performAll as).2.timeless.report = (v.performAll bs).2.timeless.report := by
    rw [htime, htime']
  rw [(hw.performAll as).report_flush, (hv.performAll bs).report_flush]
  exact hreport

/-- One run waits for an edit and polls too early, the other has no delay and polls in time; a renaming is refused in both,
since the edit has taken the name. -/
theorem outcomes_eq_of_untimed_eq_refused :
    let documents := DocumentSet.ofList [.ofContent "a" "\x7b\x7bsetvar::x::1\x7d\x7d"]
    let edited := "\x7b\x7bsetvar::x::1\x7d\x7d\x7b\x7bsetvar::y::2\x7d\x7d"
    let as := [.edit "a" edited 7, .poll 8, .rename "x" "y"]
    let bs := [.analyze, .edit "a" edited 0, .poll 0, .flush, .rename "x" "y", .settle]
    let w := ofParts {} documents ["a"]
    let v := ofParts { debounceMs := 0 } documents ["a"]
    as.filterMap Action.untimed = bs.filterMap Action.untimed ∧
      (w.performAll as).1 = [.done, .flag false, .refused (.nameTaken "y")] ∧
      w.outcomes as = v.outcomes bs ∧ (w.performAll as).2.flush.2.report = (v.performAll bs).2.flush.2.report :=
  ⟨by decide, by decide +kernel, outcomes_eq_of_untimed_eq {} 0 _ ["a"] (by decide)⟩

end Workspace

end PromptMacros
