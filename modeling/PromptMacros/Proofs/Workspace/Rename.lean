import PromptMacros.Proofs.Workspace.Reachable

/-!
# What a renaming does to a workspace

A renaming starts with a flush, so in a settled workspace it checks the new name against the variables of the documents as they
are (`knows`). A name refused, and the old name again, leave the workspace as the flush did; any other name leaves
`withRenamed`.
-/

namespace PromptMacros.Workspace

/-- Whether an analysis of the documents as they are finds a variable. -/
def knows (w : Workspace) (name : String) : Bool :=
  (analyze w.documents.provider w.order).knows name

/-- The workspace after a flush with the variable `old` called `name` in all documents, analyzed. -/
def withRenamed (w : Workspace) (old name : String) : Workspace :=
  analyzed { w.flush.2 with
    documents := (renameIn w.documents old name).2
    selectedVariable := if w.selectedVariable = some old then some name else w.selectedVariable }

variable {w : Workspace} {old new : String}

/-- A renaming checks the new name against the variables of the documents as they are. -/
theorem Settled.knows_flush (h : w.Settled) : w.flush.2.report.knows = w.knows := by
  rw [h.report_flush]
  rfl

theorem selectedDocument_flush (w : Workspace) : w.flush.2.selectedDocument = w.selectedDocument := by
  rw [flush_eq]

theorem selectedVariable_flush (w : Workspace) : w.flush.2.selectedVariable = w.selectedVariable := by
  rw [flush_eq]

theorem config_flush (w : Workspace) : w.flush.2.config = w.config := by
  rw [flush_eq]

/-- A name refused leaves the workspace as the flush did. -/
theorem Settled.rename_of_error (h : w.Settled) {e : Error} (he : checkNewName w.knows old new = .error e) :
    w.rename old new = (.error e, w.flush.2) := by
  unfold rename
  dsimp only
  rw [h.knows_flush, he]

/-- The old name again leaves the workspace as the flush did. -/
theorem Settled.rename_of_same (h : w.Settled) (hn : checkNewName w.knows old new = .ok old) :
    w.rename old new = (.ok ⟨old, old, 0, []⟩, w.flush.2) := by
  unfold rename
  dsimp only
  rw [h.knows_flush, hn]
  exact if_pos rfl

/-- A good name that is not the old one is written in all documents. -/
theorem Settled.rename_of_ok (h : w.Settled) {name : String} (hn : checkNewName w.knows old new = .ok name)
    (hne : name ≠ old) : w.rename old new = (.ok (renameIn w.documents old name).1, w.withRenamed old name) := by
  unfold rename
  dsimp only
  rw [h.knows_flush, hn]
  dsimp only
  rw [if_neg hne, documents_flush]
  unfold withRenamed
  by_cases hs : w.selectedVariable = some old
  · have hs' : w.flush.2.selectedVariable = some old := (selectedVariable_flush w).trans hs
    rw [if_pos hs]
    exact congrArg (Prod.mk _) (if_pos hs')
  · have hs' : ¬w.flush.2.selectedVariable = some old := fun h => hs ((selectedVariable_flush w).symm.trans h)
    rw [if_neg hs, ← selectedVariable_flush w]
    exact congrArg (Prod.mk _) (if_neg hs')

/-- A renaming that succeeds found the new name good. It was the old name, and nothing more happened than a flush, or another,
which was written in all documents. -/
theorem Settled.rename_cases (h : w.Settled) {result : Renaming} (hr : (w.rename old new).1 = .ok result) :
    checkNewName w.knows old new = .ok result.newName ∧
      ((result.newName = old ∧ result = ⟨old, old, 0, []⟩ ∧ (w.rename old new).2 = w.flush.2) ∨
        (result.newName ≠ old ∧ result = (renameIn w.documents old result.newName).1 ∧
          (w.rename old new).2 = w.withRenamed old result.newName)) := by
  cases hn : checkNewName w.knows old new with
  | error e =>
    rw [h.rename_of_error hn] at hr
    cases hr
  | ok name =>
    by_cases hname : name = old
    · subst hname
      rw [h.rename_of_same hn] at hr ⊢
      obtain rfl := Except.ok.inj hr
      exact ⟨rfl, Or.inl ⟨rfl, rfl, rfl⟩⟩
    · rw [h.rename_of_ok hn hname] at hr ⊢
      obtain rfl := Except.ok.inj hr
      exact ⟨rfl, Or.inr ⟨hname, rfl, rfl⟩⟩

end PromptMacros.Workspace
