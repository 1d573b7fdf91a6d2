import PromptMacros.Proofs.Analysis.Records
import PromptMacros.Proofs.Workspace.Rename

/-!
# What is refused, and what a refusal leaves

An action on a document is refused exactly when no document has its id, and then leaves the workspace as it is
(`perform_of_needed?`). A renaming is refused for the first of five causes that holds (`checkNewName_eq_error_iff`). It looks
for them in the documents as they are, not in a report that edits may have outrun, so a renaming refused has done what a flush
does and no more (`Settled.leftFlushed_of_refused`).
-/

namespace PromptMacros

open Text

/-- The error is that of the first cause that holds. -/
def FirstError : List (Prop × Error) → Error → Prop
  | [], _ => False
  | (cause, error) :: causes, e => (cause ∧ e = error) ∨ (¬cause ∧ FirstError causes e)

/-- There is an error exactly when a cause holds. -/
theorem exists_firstError_iff {causes : List (Prop × Error)} : (∃ e, FirstError causes e) ↔ ∃ c ∈ causes, c.1 := by
  induction causes with
  | nil => simp [FirstError]
  | cons c causes ih =>
    obtain ⟨cause, error⟩ := c
    rw [List.exists_mem_cons_iff, ← ih]
    by_cases hc : cause
    · exact iff_of_true ⟨error, Or.inl ⟨hc, rfl⟩⟩ (Or.inl hc)
    · simp only [FirstError, hc, false_and, not_false_eq_true, true_and, false_or]

/-- Why the variable `old` cannot be called by this name, the cause that counts first before the others; `known` tells the
variables there are. -/
def renamingCauses (known : String → Prop) (old name : String) : List (Prop × Error) := [
  (¬known old, .unknownVariable old),
  (name = "", .emptyName),
  (∃ c ∈ name.toList, isBlank c = true, .blankInName name),
  (∃ c ∈ name.toList, c = ':' ∨ c = '{' ∨ c = '}', .reservedInName name),
  (name ≠ old ∧ known name, .nameTaken name)]

/-- A check before others fails with its error, or they fail with theirs. -/
theorem ite_error_eq_error_iff {α : Type} {p : Prop} [Decidable p] {error e : Error} {r : Except Error α} :
    (if p then .error error else r) = .error e ↔ (p ∧ e = error) ∨ (¬p ∧ r = .error e) := by
  by_cases hp : p
  · simp [hp, eq_comm]
  · simp [hp]

/-- A new name is refused for the first cause that holds. -/
theorem checkNewName_eq_error_iff {known : String → Bool} {old new : String} {e : Error} :
    checkNewName known old new = .error e ↔
      FirstError (renamingCauses (fun name => known name = true) old (String.ofList (trim new.toList))) e := by
  unfold checkNewName
  dsimp only
  generalize String.ofList (trim new.toList) = name
  have hblank : name.toList.any isBlank = true ↔ ∃ c ∈ name.toList, isBlank c = true := List.any_eq_true
  have hreserved : name.toList.any isReserved = true ↔ ∃ c ∈ name.toList, c = ':' ∨ c = '{' ∨ c = '}' := by
    rw [List.any_eq_true]
    exact exists_congr fun c => and_congr_right fun _ => by simp [isReserved, or_assoc]
  simp only [ite_error_eq_error_iff, hblank, hreserved, renamingCauses, FirstError, Bool.not_eq_true, reduceCtorEq]

/-- The document that an action cannot do without. -/
def Action.needed? : Action → Option String
  | .addToOrder id | .duplicate id _ | .toggle id | .setEnabled id _ | .setName id _ | .setRole id _ | .edit id _ _ => some id
  | .setOrder _ | .moveToTop _ | .moveToBottom _ | .hide _ | .insert _ | .create _ | .remove _ | .removeMany _ | .poll _
  | .flush | .settle | .analyze | .rename _ _ | .selectDocument _ | .selectVariable _ | .clearSelection => none

namespace Workspace

/-- Everything in `v` is as a flush of `w` leaves it: no edit waits, the report is that of the documents as they are, and the
rest is as it was. -/
structure LeftFlushed (w v : Workspace) : Prop where
  eq_flush : v = w.flush.2
  documents : v.documents = w.documents
  order : v.order = w.order
  config : v.config = w.config
  selectedDocument : v.selectedDocument = w.selectedDocument
  selectedVariable : v.selectedVariable = w.selectedVariable
  status : v.status = .idle
  report : v.report = analyze w.documents.provider w.order

variable {w : Workspace}

/-! ## Actions on a document -/

/-- An operation on a document is refused when the document is not there, and leaves the workspace as it is; else it is not
refused. -/
theorem ofResult_withDocument_cases {α : Type} {f : α → Answer} (hf : ∀ x e, f x ≠ .refused e) (id : String)
    (g : Document → α × Workspace) :
    (w.documents.get? id = none ∧ Answer.ofResult f (w.withDocument id g) = (.refused (.unknownDocument id), w)) ∨
      (w.documents.get? id ≠ none ∧ ∀ e, (Answer.ofResult f (w.withDocument id g)).1 ≠ .refused e) := by
  cases hd : w.documents.get? id with
  | none => exact Or.inl ⟨rfl, by rw [withDocument_eq_of_get?_eq_none g hd]; rfl⟩
  | some doc => exact Or.inr ⟨Option.some_ne_none doc, by rw [withDocument, hd]; exact hf _⟩

/-- The index leads nowhere from an id exactly when no document is found under it. -/
theorem contains_eq_false_iff (h : w.documents.Indexed) {id : String} :
    w.documents.contains id = false ↔ w.documents.get? id = none := by
  rw [h.contains_eq_isSome_get?, Option.isSome_eq_false_iff, Option.isNone_iff_eq_none]

/-- An action on a document is refused when the document is not there, and leaves the workspace as it is; else it is not
refused. -/
theorem perform_of_needed? (h : w.documents.Indexed) {a : Action} {id : String} (ha : a.needed? = some id) :
    (w.documents.get? id = none ∧ w.perform a = (.refused (.unknownDocument id), w)) ∨
      (w.documents.get? id ≠ none ∧ ∀ e, (w.perform a).1 ≠ .refused e) := by
  cases a with
  | addToOrder needed =>
    obtain rfl : needed = id := Option.some.inj ha
    rw [perform, addToOrder, ← contains_eq_false_iff h]
    by_cases hd : w.documents.contains needed = false
    · exact Or.inl ⟨hd, by rw [if_pos hd]; rfl⟩
    · refine Or.inr ⟨mt (contains_eq_false_iff h).mpr hd, fun e => ?_⟩
      rw [if_neg hd]
      split <;> exact Answer.noConfusion
  | duplicate _ _ | toggle _ | setEnabled _ _ | setName _ _ | setRole _ _ | edit _ _ _ =>
    obtain rfl := Option.some.inj ha
    exact ofResult_withDocument_cases (fun _ _ => Answer.noConfusion) _ _
  | setOrder _ | moveToTop _ | moveToBottom _ | hide _ | insert _ | create _ | remove _ | removeMany _ | poll _ | flush
  | settle | analyze | rename _ _ | selectDocument _ | selectVariable _ | clearSelection => cases ha

/-! ## Renaming -/

/-- A flush leaves what is said of it. -/
theorem Settled.leftFlushed_flush (h : w.Settled) : LeftFlushed w w.flush.2 where
  eq_flush := rfl
  documents := documents_flush w
  order := order_flush w
  config := config_flush w
  selectedDocument := selectedDocument_flush w
  selectedVariable := selectedVariable_flush w
  status := by
    unfold status
    rcases flush_cases w with ⟨-, -, hd⟩ | ⟨hp, hf⟩
    · rw [Debounce.isPending, hd]
      rfl
    · rw [hf, hp]
      rfl
  report := h.report_flush

/-- A renaming is refused exactly when the new name is, checked against the variables of the documents as they are. -/
theorem Settled.rename_eq_error_iff (h : w.Settled) {old new : String} {e : Error} :
    (w.rename old new).1 = .error e ↔ checkNewName w.knows old new = .error e := by
  cases hn : checkNewName w.knows old new with
  | error e' =>
    rw [h.rename_of_error hn]
    simp only [Except.error.injEq]
  | ok name =>
    by_cases hname : name = old
    · subst hname
      rw [h.rename_of_same hn]
      exact iff_of_false nofun nofun
    · rw [h.rename_of_ok hn hname]
      exact iff_of_false nofun nofun

/-- A renaming that is refused has done what a flush does. -/
theorem Settled.leftFlushed_of_refused (h : w.Settled) {old new : String} {e : Error} (he : (w.rename old new).1 = .error e) :
    LeftFlushed w (w.rename old new).2 := by
  rw [h.rename_of_error (h.rename_eq_error_iff.mp he)]
  exact h.leftFlushed_flush

/-- In every reachable workspace an action on a document is refused exactly when no document has its id, and then nothing
changes; and a renaming is refused exactly when one of the causes holds in the documents as they are, with the error of the
first, and then it has done what a flush does. -/
theorem refused_intact (hw : w.Reachable) :
    (∀ a id, a.needed? = some id →
      ((∃ e, (w.perform a).1 = .refused e) ↔ ∀ d ∈ w.documents.toList, d.id ≠ id) ∧
      ∀ e, (w.perform a).1 = .refused e → e = .unknownDocument id ∧ (w.perform a).2 = w) ∧
    ∀ old new,
      let causes := renamingCauses (fun name => name ∈ (analyze w.documents.provider w.order).variableNames) old
        (String.ofList (trim new.toList))
      ((∃ e, (w.rename old new).1 = .error e) ↔ ∃ c ∈ causes, c.1) ∧
      (∀ e, (w.rename old new).1 = .error e ↔ FirstError causes e) ∧
      ∀ e, (w.rename old new).1 = .error e → LeftFlushed w (w.rename old new).2 := by
  refine ⟨fun a id ha => ?_, fun old new => ?_⟩
  · rw [← hw.indexed.get?_eq_none_iff]
    rcases perform_of_needed? hw.indexed ha with ⟨hd, hp⟩ | ⟨hd, hp⟩
    · rw [hp]
      refine ⟨iff_of_true ⟨_, rfl⟩ hd, fun e he => ⟨?_, rfl⟩⟩
      exact (Answer.refused.inj he).symm
    · exact ⟨iff_of_false (fun ⟨e, he⟩ => hp e he) hd, fun e he => absurd he (hp e)⟩
  · intro causes
    have hknown : (fun name => name ∈ (analyze w.documents.provider w.order).variableNames) =
        fun name => w.knows name = true := funext fun name => propext (mem_variableNames_iff_knows _)
    have herror : ∀ e, (w.rename old new).1 = .error e ↔ FirstError causes e := by
      intro e
      rw [hw.settled.rename_eq_error_iff, checkNewName_eq_error_iff, ← hknown]
    exact ⟨(exists_congr herror).trans exists_firstError_iff, herror, fun e => hw.settled.leftFlushed_of_refused⟩

/-- An edit that waits has replaced `x` by `y`. The report still has `x`, but the renaming of it to `y` is refused because
there is no `x` any more, and not because `y` is taken; and no document has the id of the flag. -/
theorem refused_intact_waiting :
    let w := ((ofParts {} (.ofList [.ofContent "a" "\x7b\x7bsetvar::x::1\x7d\x7d"]) ["a"]).perform
      (.edit "a" "\x7b\x7bsetvar::y::1\x7d\x7d" 5)).2
    w.Reachable ∧ w.status = .pending ∧ w.report.knows "x" = true ∧
      (w.rename "x" "y").1 = .error (.unknownVariable "x") ∧ LeftFlushed w (w.rename "x" "y").2 ∧
      (w.perform (.toggle "b")).1 = .refused (.unknownDocument "b") ∧ (w.perform (.toggle "b")).2 = w := by
  intro w
  have hw : w.Reachable := .perform _ (.start (.parts _ _ (DocumentSet.indexed_ofList _))) trivial
  have hr : (w.rename "x" "y").1 = .error (.unknownVariable "x") := by decide +kernel
  have ht : (w.perform (.toggle "b")).1 = .refused (.unknownDocument "b") := by decide +kernel
  exact ⟨hw, by decide +kernel, by decide +kernel, hr, ((refused_intact hw).2 "x" "y").2.2 _ hr, ht,
    (((refused_intact hw).1 (.toggle "b") "b" rfl).2 _ ht).2⟩

end Workspace

end PromptMacros
