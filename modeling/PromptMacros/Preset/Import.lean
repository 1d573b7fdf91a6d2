import PromptMacros.Json.Reader
import PromptMacros.Preset.Basic
import PromptMacros.Workspace.Basic

/-!
# Importing presets

The documents of a preset and the order in which they run. Each prompt with an id is a document, and of several with one
id the last counts, in the place of the first. The documents that the order lists come first, and the listing enables or
disables them; the others follow by their injection order. A preset without an order runs every prompt that is not
disabled.
-/

namespace PromptMacros.Preset

/-- The document that a prompt describes; nothing when it has no id. -/
def documentOf? (prompt : Json) : Option Document := do
  let id ← promptId? prompt
  pure {
    id := id
    name := (textOf? prompt "name").getD id
    content := (textOf? prompt "content").getD ""
    enabled := (boolOf? prompt "enabled").getD true
    role := (textOf? prompt "role").getD Document.defaultRole
    marker := (boolOf? prompt "marker").getD false
    systemPrompt := (boolOf? prompt "system_prompt").getD false }

/-- The documents that prompts describe. -/
def documentsOf (prompts : List Json) : DocumentSet :=
  DocumentSet.ofList (prompts.filterMap documentOf?)

/-- The injection orders of documents, each that of the last prompt with the id. -/
def injectionOrders (prompts : List Json) : Std.ExtTreeMap String Int :=
  prompts.foldl (fun injection prompt =>
    match promptId? prompt with
    | none => injection
    | some id => injection.insert id (injectionOrder prompt)) ∅

/-- What an order lists: the id of a document, and whether it is enabled. -/
def listingOf? (documents : DocumentSet) (entry : Json) : Option (String × Bool) := do
  let id ← textOf? entry "identifier"
  guard (documents.contains id)
  pure (id, (boolOf? entry "enabled").getD true)

/-- Whether the first of two documents that no order lists may come first: by injection order, then the documents of the
system before others, then by name. -/
def comesFirst (injection : String → Int) (a b : Document) : Bool :=
  ((compare (injection a.id) (injection b.id)).then
    ((compare (!a.systemPrompt) (!b.systemPrompt)).then (compare a.name b.name))).isLE

/-- The documents enabled and disabled as listed, of several listings by the last. -/
def enableListed (documents : DocumentSet) (listings : List (String × Bool)) : DocumentSet :=
  listings.foldl (fun s (id, enabled) => s.modify id fun d => { d with enabled := enabled }) documents

/-- The documents listed, in their order, and then the others. -/
def orderListed (injection : String → Int) (documents : DocumentSet) (ids : List String) : List String :=
  let others := documents.toList.filter fun d => !ids.contains d.id
  ids ++ (others.mergeSort (comesFirst injection)).map Document.id

/-- The order of a preset that lists none: the prompts not disabled, by injection order. -/
def defaultOrder (prompts : List Json) : List String :=
  let enabled := prompts.filter fun prompt => boolOf? prompt "enabled" ≠ some false
  let sorted := enabled.mergeSort fun a b => injectionOrder a ≤ injectionOrder b
  Order.firsts (sorted.filterMap promptId?)

/-- The documents of a preset and the order in which they run. -/
def contents (p : Preset) : DocumentSet × List String :=
  let documents := documentsOf p.prompts
  match p.listed? with
  | none => (documents, defaultOrder p.prompts)
  | some entries =>
    let listings := entries.filterMap (listingOf? documents)
    let documents := enableListed documents listings
    let injection := injectionOrders p.prompts
    (documents, orderListed (fun id => injection.getD id 0) documents (Order.firsts (listings.map (·.1))))

/-- The preset that a JSON value is, if it is an object. -/
def ofJson? (value : Json) : Except Error Preset :=
  match value.asObject? with
  | none => .error (.preset .notObject)
  | some fields => .ok ⟨fields⟩

/-- The preset that a JSON text is. -/
def parse (text : String) : Except Error Preset :=
  match Json.read? text with
  | none => .error (.preset .notJson)
  | some value => ofJson? value

/-- A workspace with the documents of a preset. -/
def workspace (p : Preset) (config : Config) : Workspace :=
  let (documents, order) := p.contents
  Workspace.ofParts config documents order

/-- The preset that a JSON text is, and a workspace with its documents. -/
def load (text : String) (config : Config) : Except Error (Preset × Workspace) :=
  (parse text).map fun p => (p, p.workspace config)

end PromptMacros.Preset
