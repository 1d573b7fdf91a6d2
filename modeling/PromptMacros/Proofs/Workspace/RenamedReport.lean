import PromptMacros.Proofs.Rename.Report
import PromptMacros.Proofs.Workspace.Rename

/-!
# The report after a renaming

A renaming that succeeds under another name leaves the report that the analysis of the documents had, with the variable
renamed in it (`report_rename`): the same macros see the same values, and the record and the final value of the variable
stand under the new name.
-/

namespace PromptMacros

/-- Looking a document up after a change of all documents. -/
theorem DocumentSet.get?_map (s : DocumentSet) (f : Document → Document) (id : String) :
    (s.map f).get? id = (s.get? id).map fun d => { f d with id := d.id } := by
  unfold get? map
  rw [Option.map_bind]
  refine Option.bind_congr ?_
  intro i _
  simp

namespace Workspace

/-- The documents of a renaming are those before it, each renamed. -/
theorem provider_renameIn (documents : DocumentSet) (old new : String) :
    (renameIn documents old new).2.provider = documents.provider.renamed old new :=
  funext fun id => documents.get?_map _ id

/-- The report of a workspace with a variable renamed is that of its documents, each renamed. -/
theorem report_withRenamed (w : Workspace) (old new : String) :
    (w.withRenamed old new).report = analyze (w.documents.provider.renamed old new) w.order := by
  rw [← provider_renameIn, ← order_flush]
  rfl

/-- A renaming that succeeds under a name other than the old one takes the trimmed new name and leaves the report of the
documents before it with the variable renamed. -/
theorem report_rename {w : Workspace} (hw : w.Reachable) {old new : String} {result : Renaming}
    (hr : (w.rename old new).1 = .ok result) (hne : result.newName ≠ old) :
    result.newName.toList = Text.trim new.toList ∧
      (analyze w.documents.provider w.order).RenamedTo old result.newName (w.rename old new).2.report := by
  obtain ⟨hcheck, ⟨hold, -⟩ | ⟨-, -, hv⟩⟩ := hw.settled.rename_cases hr
  · exact absurd hold hne
  obtain ⟨htrim, hknown, -, -, -, hunknown⟩ := checkNewName_eq_ok_iff.mp hcheck
  refine ⟨htrim, ?_⟩
  rw [hv, report_withRenamed]
  exact analyze_renamed (.of_check hcheck) hknown (hunknown.resolve_left hne)

/-- The name stands twice in one macro and once in a value, and moves a macro behind it. -/
theorem report_rename_moved :
    let w := ofParts {} (.ofList [.ofContent "a" "\x7b\x7b setvar::x::x \x7d\x7d\x7b\x7bgetvar::x\x7d\x7d",
      .ofContent "b" "\x7b\x7bgetvar::x\x7d\x7d\x7b\x7bgetvar::q\x7d\x7d"]) ["b", "a", "b"]
    let v := (w.rename "x" " total ").2
    w.Reachable ∧ (w.rename "x" " total ").1 = .ok ⟨"x", "total", 3, ["a", "b"]⟩ ∧
      "total".toList = Text.trim " total ".toList ∧
      (analyze w.documents.provider w.order).RenamedTo "x" "total" v.report := by
  intro w v
  have hw : w.Reachable := .start (.parts _ _ (DocumentSet.indexed_ofList _))
  have hr : (w.rename "x" " total ").1 = .ok ⟨"x", "total", 3, ["a", "b"]⟩ := by decide +kernel
  exact ⟨hw, hr, report_rename hw hr (by decide)⟩

end Workspace

end PromptMacros
