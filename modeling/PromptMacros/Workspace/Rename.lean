import PromptMacros.Rename.InText
import PromptMacros.Rename.NewName
import PromptMacros.Workspace.Editing

/-!
# Renaming a variable

A variable is renamed in all documents, also in those that do not run. Edits that wait are analyzed first, so the new name
is checked against the variables of the documents as they are; a name refused changes no document.
-/

namespace PromptMacros

/-- What a renaming did. -/
structure Renaming where
  oldName : String
  newName : String
  /-- The number of macros in which the name was replaced. -/
  replaced : Nat
  /-- The ids of the documents whose text changed. -/
  documents : List String
  deriving DecidableEq, Repr

namespace Workspace

/-- Writes a new name for a variable in all documents: what that did, and the documents. -/
def renameIn (documents : DocumentSet) (old new : String) : Renaming × DocumentSet :=
  let counts := documents.toList.map fun d => (d.id, (TextRenaming.ofText d.content old new).count)
  let result : Renaming := {
    oldName := old
    newName := new
    replaced := counts.foldr (fun entry n => entry.2 + n) 0
    documents := (counts.filter fun entry => entry.2 ≠ 0).map (·.1) }
  (result, documents.map fun d => { d with content := (TextRenaming.ofText d.content old new).text })

/-- Renames a variable; what that did, or why it was refused. -/
def rename (old new : String) (w : Workspace) : Except Error Renaming × Workspace :=
  let w := w.flush.2
  match checkNewName w.report.knows old new with
  | .error e => (.error e, w)
  | .ok name =>
    if name = old then (.ok ⟨old, name, 0, []⟩, w)
    else
      let (result, documents) := renameIn w.documents old name
      let w := analyzed { w with documents := documents }
      (.ok result, if w.selectedVariable = some old then { w with selectedVariable := some name } else w)

end Workspace

end PromptMacros
