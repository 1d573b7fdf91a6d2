import PromptMacros.Config.Basic
import PromptMacros.Json.Basic
import PromptMacros.Json.Record

/-!
# Settings in JSON

Settings as JSON writes and reads them; any of them may be left out.
-/

namespace PromptMacros.Config

/-- The settings in the order in which they are written. -/
def keys : List String :=
  ["debounce_ms", "copy_suffix", "new_document_name", "new_document_note", "protect_structural"]

/-- Settings as JSON. -/
def toJson (c : Config) : Json :=
  .object [("debounce_ms", .number (.integer c.debounceMs)), ("copy_suffix", .string c.copySuffix),
    ("new_document_name", .string c.newDocumentName), ("new_document_note", .string c.newDocumentNote),
    ("protect_structural", .bool c.protectStructural)]

/-- The settings that a JSON text stands for, if it stands for settings. -/
def ofJsonText? (text : String) : Option Config := do
  let standard : Config := {}
  let tree ← Json.Tree.ofText? text
  let [debounceMs, copySuffix, newDocumentName, newDocumentNote, protectStructural] ← tree.record? keys | none
  pure {
    debounceMs := ← Json.Tree.readOr standard.debounceMs Json.Tree.readWord? debounceMs
    copySuffix := ← Json.Tree.readOr standard.copySuffix Json.Tree.readText? copySuffix
    newDocumentName := ← Json.Tree.readOr standard.newDocumentName Json.Tree.readText? newDocumentName
    newDocumentNote := ← Json.Tree.readOr standard.newDocumentNote Json.Tree.readText? newDocumentNote
    protectStructural := ← Json.Tree.readOr standard.protectStructural Json.Tree.readBool? protectStructural }

end PromptMacros.Config
