import Mathlib.Data.List.Induction
import PromptMacros.Proofs.Analysis.LastWrite
import PromptMacros.Proofs.Workspace.Reachable

/-!
# When edits are analyzed

Whether edits wait, and when a poll analyzes them, is told by what has happened so far (`debounced_performAll`): the last edit
counts of those that no poll, flush or renaming took. An event moves the deadline when it is a successful edit, clears it when
it takes the edits that wait, and else leaves it alone (`debounce_perform`). So between two analyses for edits there is an edit
(`exists_edit_between`), and a burst of edits is analyzed once.
-/

namespace PromptMacros

/-- An action that was performed, and what it answered. -/
abbrev Event := Action × Answer

namespace Event

/-- The time of an edit that was not refused. -/
def edit? : Event → Option Nat
  | (.edit _ _ now, .done) => some now
  | _ => none

/-- Whether no edit waits any more: behind a poll that ran the analysis, a flush, and a renaming, refused or not. -/
def takes : Event → Bool
  | (.poll _, .flag true) | (.flush, _) | (.settle, _) | (.rename _ _, _) => true
  | _ => false

/-- Whether the event ran the analysis for which edits waited, and said so. -/
def fires : Event → Bool
  | (.poll _, .flag true) | (.flush, .flag true) | (.settle, .flag true) => true
  | _ => false

end Event

/-- The debounce behind an event. -/
def Debounce.after (d : Debounce) (e : Event) : Debounce :=
  match e.edit? with
  | some time => d.schedule time
  | none => if e.takes then d.clear else d

/-- An edit was made at this time, and no event behind it took it. -/
def Outstanding (events : List Event) (time : Nat) : Prop :=
  ∃ before e after, events = before ++ e :: after ∧ e.edit? = some time ∧ ∀ x ∈ after, x.takes = false

/-- An edit was made at this time, no event behind it took it, and no edit was made behind it. -/
def LastOutstanding (events : List Event) (time : Nat) : Prop :=
  ∃ before e after, events = before ++ e :: after ∧ e.edit? = some time ∧
    ∀ x ∈ after, x.takes = false ∧ x.edit? = none

/-! ## Outstanding edits -/

section Outstanding

variable {events : List Event} {e : Event} {time : Nat}

/-- An edit takes nothing. -/
theorem Event.takes_eq_false_of_edit? (h : e.edit? = some time) : e.takes = false := by
  unfold edit? at h
  split at h
  · rfl
  · cases h

/-- An event that runs the analysis for edits takes them. -/
theorem Event.takes_of_fires (h : e.fires = true) : e.takes = true := by
  unfold fires at h
  split at h
  · rfl
  · rfl
  · rfl
  · cases h

theorem not_lastOutstanding_nil : ¬LastOutstanding [] time := by
  rintro ⟨before, e, after, h, -⟩
  simp at h

/-- An edit behind other events is the last that is outstanding; an event that neither edits nor takes leaves the last one. -/
theorem lastOutstanding_concat_iff :
    LastOutstanding (events ++ [e]) time ↔
      e.edit? = some time ∨ e.edit? = none ∧ e.takes = false ∧ LastOutstanding events time := by
  rw [LastOutstanding, exists_last_concat_iff, and_comm (a := e.takes = false), and_assoc]
  rfl

/-- Of outstanding edits one is the last. -/
theorem exists_lastOutstanding_iff : (∃ time, LastOutstanding events time) ↔ ∃ time, Outstanding events time := by
  constructor
  · rintro ⟨time, before, e, after, h, he, hafter⟩
    exact ⟨time, before, e, after, h, he, fun x hx => (hafter x hx).1⟩
  · rintro ⟨time, before, e, after, rfl, he, hafter⟩
    induction after using List.reverseRecOn with
    | nil => exact ⟨time, before, e, [], rfl, he, by simp⟩
    | append_singleton after x ih =>
      have hx : x.takes = false := hafter x (by simp)
      have hconcat : before ++ e :: (after ++ [x]) = (before ++ e :: after) ++ [x] := by simp
      rw [hconcat]
      cases hedit : x.edit? with
      | some time' => exact ⟨time', lastOutstanding_concat_iff.mpr (Or.inl hedit)⟩
      | none =>
        obtain ⟨time', hlast⟩ := ih fun y hy => hafter y (by simp [hy])
        exact ⟨time', lastOutstanding_concat_iff.mpr (Or.inr ⟨hedit, hx, hlast⟩)⟩

/-- Edits outstanding behind an event that takes were made behind it. -/
theorem Outstanding.of_takes {before after : List Event} (h : Outstanding (before ++ e :: after) time)
    (he : e.takes = true) : ∃ x ∈ after, x.edit? = some time := by
  obtain ⟨pre, x, post, heq, hx, hpost⟩ := h
  have hne : e ≠ x := by
    rintro rfl
    rw [Event.takes_eq_false_of_edit? hx] at he
    cases he
  have hnot : e ∉ post := by
    intro hmem
    rw [hpost e hmem] at he
    cases he
  rcases List.append_eq_append_iff.mp heq with ⟨mid, -, hmid⟩ | ⟨mid, -, hmid⟩
  · rcases List.cons_eq_append_iff.mp hmid with ⟨-, h⟩ | ⟨mid, -, rfl⟩
    · exact absurd (List.cons.inj h).1.symm hne
    · exact ⟨x, by simp, hx⟩
  · rcases List.cons_eq_append_iff.mp hmid with ⟨-, h⟩ | ⟨mid, -, rfl⟩
    · exact absurd (List.cons.inj h).1 hne
    · exact absurd (by simp) hnot

end Outstanding

namespace Workspace

variable {w : Workspace}

/-! ## One event -/

/-- Behind a flush nothing waits. -/
theorem debounce_flush (w : Workspace) : w.flush.2.debounce = w.debounce.clear := by
  unfold flush
  dsimp only
  split
  · rfl
  · next hp =>
    have hnone : w.debounce.deadline = none := by simpa [Debounce.take, Debounce.isPending] using hp
    rw [Debounce.clear, ← hnone]

/-- Behind a renaming nothing waits, whether the new name was good or not. -/
theorem debounce_rename (w : Workspace) (old new : String) : (w.rename old new).2.debounce = w.debounce.clear :=
  rename_induction (P := fun v => v.debounce = w.debounce.clear) (debounce_flush w)
    fun _ _ => ⟨debounce_flush w, fun _ => debounce_flush w⟩

theorem debounce_withDocument {α : Type} {id : String} {f : Document → α × Workspace}
    (hf : ∀ doc, (f doc).2.debounce = w.debounce) : (w.withDocument id f).2.debounce = w.debounce :=
  withDocument_induction (P := fun v => v.debounce = w.debounce) rfl hf

theorem debounce_reorder (order : Option (List String)) : (w.reorder order).2.debounce = w.debounce := by
  cases order <;> rfl

theorem debounce_dropRemovable (ids : List String) : (w.dropRemovable ids).2.debounce = w.debounce :=
  dropRemovable_induction (P := fun v => v.debounce = w.debounce) rfl (fun _ _ hv => hv) ids

/-- An edit moves the deadline unless it is refused. -/
theorem debounce_edit (w : Workspace) (id content : String) (now : Nat) :
    (w.perform (.edit id content now)).2.debounce =
      w.debounce.after (.edit id content now, (w.perform (.edit id content now)).1) := by
  cases hd : w.documents.get? id with
  | none => simp [perform, edit, withDocument, hd, Answer.ofResult, Debounce.after, Event.edit?, Event.takes]
  | some doc => simp [perform, edit, withDocument, hd, Answer.ofResult, Debounce.after, Event.edit?]

/-- A poll takes the edits that wait if it runs the analysis. -/
theorem debounce_poll (w : Workspace) (now : Nat) :
    (w.perform (.poll now)).2.debounce = w.debounce.after (.poll now, (w.perform (.poll now)).1) := by
  change (w.poll now).2.debounce = w.debounce.after (.poll now, .flag (w.poll now).1)
  unfold poll Debounce.fire
  dsimp only
  split
  · rfl
  · rfl

/-- A successful edit moves the deadline, an event that takes the edits clears it, and any other event leaves it alone. -/
theorem debounce_perform (w : Workspace) (a : Action) :
    (w.perform a).2.debounce = w.debounce.after (a, (w.perform a).1) := by
  cases a with
  | edit id content now => exact debounce_edit w id content now
  | poll now => exact debounce_poll w now
  | flush => exact debounce_flush w
  | settle =>
    change w.settle.2.debounce = w.debounce.clear
    rw [settle_eq_flush, debounce_flush]
  | rename old new =>
    simp only [perform, snd_ofResult]
    exact debounce_rename w old new
  | setOrder _ | insert _ | create _ | analyze | selectDocument _ | clearSelection => rfl
  | moveToTop _ | moveToBottom _ | hide _ => exact debounce_reorder _
  | addToOrder id =>
    simp only [perform, snd_ofResult, addToOrder]
    split
    · rfl
    · split <;> rfl
  | remove id =>
    simp only [perform, snd_of, remove]
    split <;> rfl
  | removeMany ids =>
    have h : (w.dropRemovable ids).2.debounce = w.debounce := debounce_dropRemovable ids
    simp only [perform, snd_of, removeMany]
    split <;> exact h
  | duplicate _ _ | toggle _ | setName _ _ | setRole _ _ =>
    simp only [perform, snd_ofResult]
    exact debounce_withDocument fun _ => rfl
  | setEnabled id enabled =>
    simp only [perform, snd_ofResult]
    refine debounce_withDocument fun doc => ?_
    split <;> rfl
  | selectVariable name =>
    simp only [perform, selectVariable]
    split <;> rfl

/-- A poll runs the analysis when the deadline has come. -/
theorem fst_poll (w : Workspace) (now : Nat) : (w.poll now).1 = true ↔ ∃ t, w.debounce.deadline = some t ∧ t ≤ now := by
  have h : (w.poll now).1 = w.debounce.deadline.any fun t => t ≤ now := by
    unfold poll Debounce.fire
    dsimp only
    split
    · next hfire => exact hfire.symm
    · next hfire => exact ((Bool.not_eq_true _).mp hfire).symm
  rw [h, Option.any_eq_true]
  simp

/-- A flush runs the analysis when edits wait. -/
theorem fst_flush (w : Workspace) : w.flush.1 = w.debounce.isPending := by
  unfold flush
  dsimp only
  split
  · next h => exact h.symm
  · next h => exact ((Bool.not_eq_true _).mp h).symm

/-- The analysis for edits runs only when edits wait. -/
theorem isPending_of_fires {a : Action} (h : Event.fires (a, (w.perform a).1) = true) : w.debounce.isPending = true := by
  cases a with
  | poll now =>
    have hfired : (w.poll now).1 = true := by
      cases hp : (w.poll now).1 with
      | true => rfl
      | false => simp [perform, Answer.of, hp, Event.fires] at h
    obtain ⟨t, ht, -⟩ := (fst_poll w now).mp hfired
    simp [Debounce.isPending, ht]
  | flush =>
    cases hp : w.debounce.isPending with
    | true => rfl
    | false => simp [perform, Answer.of, fst_flush, hp, Event.fires] at h
  | settle =>
    cases hp : w.debounce.isPending with
    | true => rfl
    | false => simp [perform, Answer.of, settle_eq_flush, fst_flush, hp, Event.fires] at h
  | _ => cases h

/-! ## Runs -/

/-- The actions of a run with their answers. -/
def history (w : Workspace) (actions : List Action) : List Event :=
  actions.zip (w.performAll actions).1

theorem history_cons (w : Workspace) (a : Action) (actions : List Action) :
    w.history (a :: actions) = (a, (w.perform a).1) :: (w.perform a).2.history actions := rfl

theorem performAll_concat (w : Workspace) (actions : List Action) (a : Action) :
    (w.performAll (actions ++ [a])).2 = ((w.performAll actions).2.perform a).2 := by
  induction actions generalizing w with
  | nil => rfl
  | cons b actions ih => exact ih (w.perform b).2

theorem history_concat (w : Workspace) (actions : List Action) (a : Action) :
    w.history (actions ++ [a]) = w.history actions ++ [(a, ((w.performAll actions).2.perform a).1)] := by
  induction actions generalizing w with
  | nil => rfl
  | cons b actions ih => exact congrArg _ (ih (w.perform b).2)

/-- An event of a run is an action performed behind the run of those before it. -/
theorem exists_of_history_eq {actions : List Action} {before after : List Event} {e : Event}
    (h : w.history actions = before ++ e :: after) :
    ∃ first a, w.history first = before ∧ e = (a, ((w.performAll first).2.perform a).1) := by
  induction before generalizing w actions with
  | nil =>
    cases actions with
    | nil => cases h
    | cons a actions =>
      rw [history_cons] at h
      exact ⟨[], a, rfl, (List.cons.inj h).1.symm⟩
  | cons x before ih =>
    cases actions with
    | nil => cases h
    | cons b actions =>
      rw [history_cons] at h
      obtain ⟨hx, hrest⟩ := List.cons.inj h
      obtain ⟨first, a, hfirst, he⟩ := ih hrest
      exact ⟨b :: first, a, by rw [history_cons, hfirst, hx], he⟩

/-- No action changes the delay. -/
theorem delay_performAll (w : Workspace) (actions : List Action) :
    (w.performAll actions).2.debounce.delay = w.debounce.delay := by
  induction actions generalizing w with
  | nil => rfl
  | cons a actions ih =>
    refine (ih (w.perform a).2).trans ?_
    rw [debounce_perform]
    unfold Debounce.after
    split
    · rfl
    · split <;> rfl

/-- Behind a run the deadline is the delay after the last edit that is outstanding. -/
theorem deadline_performAll_iff (hw : w.debounce.deadline = none) (actions : List Action) (deadline : Nat) :
    (w.performAll actions).2.debounce.deadline = some deadline ↔
      ∃ time, LastOutstanding (w.history actions) time ∧ time + w.debounce.delay = deadline := by
  induction actions using List.reverseRecOn with
  | nil =>
    have hnone : (w.performAll []).2.debounce.deadline = none := hw
    rw [hnone]
    constructor
    · intro h
      cases h
    · rintro ⟨time, h, -⟩
      exact absurd h not_lastOutstanding_nil
  | append_singleton actions a ih =>
    have hdelay := delay_performAll w actions
    rw [performAll_concat, history_concat, debounce_perform]
    simp only [lastOutstanding_concat_iff]
    generalize (a, ((w.performAll actions).2.perform a).1) = e
    unfold Debounce.after
    cases hedit : Event.edit? e with
    | some time =>
      simp [Debounce.schedule, hdelay]
    | none =>
      cases htakes : Event.takes e with
      | true => simp [Debounce.clear]
      | false => simpa using ih

/-- Behind a run edits wait exactly when an edit is outstanding. -/
theorem isPending_performAll_iff (hw : w.debounce.deadline = none) (actions : List Action) :
    (w.performAll actions).2.debounce.isPending = true ↔ ∃ time, Outstanding (w.history actions) time := by
  rw [← exists_lastOutstanding_iff, Debounce.isPending, Option.isSome_iff_exists]
  simp only [deadline_performAll_iff hw]
  constructor
  · rintro ⟨deadline, time, h, -⟩
    exact ⟨time, h⟩
  · rintro ⟨time, h⟩
    exact ⟨_, time, h, rfl⟩

/-- Between two analyses for edits there is an edit. -/
theorem exists_edit_between (hw : w.debounce.deadline = none) {actions : List Action} {before between after : List Event}
    {e e' : Event} (h : w.history actions = before ++ e :: between ++ e' :: after) (he : e.fires = true)
    (he' : e'.fires = true) : ∃ x ∈ between, x.edit?.isSome := by
  obtain ⟨first, a, hfirst, rfl⟩ := exists_of_history_eq h
  obtain ⟨time, hout⟩ := (isPending_performAll_iff hw first).mp (isPending_of_fires he')
  rw [hfirst] at hout
  obtain ⟨x, hx, hedit⟩ := hout.of_takes (Event.takes_of_fires he)
  exact ⟨x, hx, by rw [hedit]; rfl⟩

/-- Which edits wait in a workspace behind these events, and when they are analyzed. -/
structure Debounced (events : List Event) (delay : Nat) (w : Workspace) : Prop where
  /-- Edits wait exactly when one is outstanding. -/
  pending_iff : w.status = .pending ↔ ∃ time, Outstanding events time
  /-- A poll analyzes edits exactly when the delay after the last of them is over. -/
  poll_iff : ∀ now, (w.poll now).1 = true ↔ ∃ time, LastOutstanding events time ∧ time + delay ≤ now
  /-- A flush analyzes edits exactly when one is outstanding. -/
  flush_iff : w.flush.1 = true ↔ ∃ time, Outstanding events time
  /-- An action that makes no edit and takes none leaves the deadline, or its absence, alone. -/
  kept : ∀ a, Event.edit? (a, (w.perform a).1) = none → Event.takes (a, (w.perform a).1) = false →
    (w.perform a).2.debounce = w.debounce
  /-- Between two analyses for edits there is an edit. -/
  separated : ∀ before e between e' after, events = before ++ e :: between ++ e' :: after → e.fires = true →
    e'.fires = true → ∃ x ∈ between, x.edit?.isSome

/-- In every run edits wait from the first one until a poll, a flush or a renaming takes them, a poll takes them when the delay
after the last one is over, and nothing else moves the deadline. -/
theorem debounced_performAll (hw : Start w) (actions : List Action) :
    Debounced (w.history actions) w.config.debounceMs (w.performAll actions).2 := by
  have hdeadline : w.debounce.deadline = none := by
    obtain ⟨config, documents, order, -, rfl⟩ := hw.exists_parts
    rfl
  have hdelay : w.debounce.delay = w.config.debounceMs := by
    obtain ⟨config, documents, order, -, rfl⟩ := hw.exists_parts
    rfl
  have hpending := isPending_performAll_iff hdeadline actions
  refine ⟨?_, ?_, ?_, ?_, fun _ _ _ _ _ h => exists_edit_between hdeadline h⟩
  · rw [← hpending]
    unfold status
    split <;> simp_all
  · intro now
    rw [fst_poll]
    simp only [deadline_performAll_iff hdeadline, hdelay]
    constructor
    · rintro ⟨deadline, ⟨time, h, rfl⟩, hnow⟩
      exact ⟨time, h, hnow⟩
    · rintro ⟨time, h, hnow⟩
      exact ⟨_, ⟨time, h, rfl⟩, hnow⟩
  · rw [fst_flush]
    exact hpending
  · intro a hedit htakes
    rw [debounce_perform, Debounce.after, hedit, htakes]
    rfl

/-- After a burst of edits the last one counts, though an earlier one has a later time. An edit of a document that is not there
does not count, nor does a document disabled meanwhile, and a poll comes too early. Then a renaming takes the edits, though it is
refused. -/
theorem debounced_performAll_burst :
    let w := ofParts {} (.ofList [.ofContent "a" ""]) ["a"]
    let burst := [.edit "a" "1" 500, .edit "a" "2" 100, .edit "ghost" "3" 900, .toggle "a", .poll 399]
    let v := (w.performAll burst).2
    Start w ∧ Debounced (w.history burst) w.config.debounceMs v ∧ v.status = .pending ∧ (v.poll 399).1 = false ∧
      (v.poll 400).1 = true ∧ (v.perform (.rename "x" "y")).1 = .refused (.unknownVariable "x") ∧
      (v.perform (.rename "x" "y")).2.status = .idle := by
  intro w burst v
  have hw : Start w := .parts {} ["a"] (DocumentSet.indexed_ofList _)
  exact ⟨hw, debounced_performAll hw burst, by decide +kernel, by decide +kernel, by decide +kernel, by decide +kernel,
    by decide +kernel⟩

end Workspace

end PromptMacros
