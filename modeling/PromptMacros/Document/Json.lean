import PromptMacros.Document.Basic
import PromptMacros.Json.Basic
import PromptMacros.Json.Record

/-!
# Documents in JSON

Documents as JSON writes and reads them. Only the id has to be written; a name left out is empty.
-/

namespace PromptMacros.Document

/-- The fields of a document, in the order in which they are written. -/
def keys : List String :=
  ["id", "name", "content", "enabled", "role", "marker", "system_prompt"]

/-- A document as JSON. -/
def toJson (d : Document) : Json :=
  .object [("id", .string d.id), ("name", .string d.name), ("content", .string d.content), ("enabled", .bool d.enabled),
    ("role", .string d.role), ("marker", .bool d.marker), ("system_prompt", .bool d.systemPrompt)]

/-- The document that a JSON text stands for, if it stands for one. -/
def ofJsonText? (text : String) : Option Document := do
  let tree ← Json.Tree.ofText? text
  let [some id, name, content, enabled, role, marker, systemPrompt] ← tree.record? keys | none
  pure {
    id := ← id.readText?
    name := ← Json.Tree.readOr "" Json.Tree.readText? name
    content := ← Json.Tree.readOr "" Json.Tree.readText? content
    enabled := ← Json.Tree.readOr true Json.Tree.readBool? enabled
    role := ← Json.Tree.readOr defaultRole Json.Tree.readText? role
    marker := ← Json.Tree.readOr false Json.Tree.readBool? marker
    systemPrompt := ← Json.Tree.readOr false Json.Tree.readBool? systemPrompt }

end PromptMacros.Document
