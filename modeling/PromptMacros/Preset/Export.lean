import PromptMacros.Document.Set
import PromptMacros.Json.Printer
import PromptMacros.Preset.Basic

/-!
# Exporting presets

A preset with the prompts and the order that documents now have. A prompt keeps the fields that documents do not have, and
a preset keeps everything but its prompts and the order that counts. What is written is what import reads.
-/

namespace PromptMacros.Preset

/-- A prompt that describes a document, with the other fields it had. -/
def describe (prompt : Fields) (d : Document) : Fields :=
  (((((((prompt.insert "identifier" (.string d.id)).insert "name" (.string d.name)).insert "content"
    (.string d.content)).insert "role" (.string d.role)).insert "enabled" (.bool d.enabled)).insert "system_prompt"
    (.bool d.systemPrompt)).insert "marker" (.bool d.marker))

/-- The prompt of a document: the last one with its id, which now describes it. -/
def promptFor (p : Preset) (d : Document) : Json :=
  .object (describe (((p.prompt? d.id).bind Json.asObject?).getD []) d)

/-- What an order says of a document. -/
def listing (d : Document) : Json :=
  .object [("enabled", .bool d.enabled), ("identifier", .string d.id)]

/-- The order of the default character. -/
def defaultOrderEntry (order : List Json) : Json :=
  .object [("character_id", .number (.integer defaultCharacter)), ("order", .list order)]

/-- The orders with this one as the order that counts: in its place when that is an object, and else as a new order of the
default character at the end. -/
def setChosen (entries : List Json) (order : List Json) : List Json :=
  match (chosenIndex? entries).bind fun i => (entries[i]?.bind Json.asObject?).map fun fields => (i, fields) with
  | some (i, fields) => entries.set i (.object (fields.insert "order" (.list order)))
  | none => entries ++ [defaultOrderEntry order]

/-- The fields of the preset with these documents, of which those listed run in this order. -/
def exportFields (p : Preset) (documents : DocumentSet) (order : List String) : Fields :=
  let listings := (order.filterMap documents.get?).map listing
  let orders := match p.orders? with
    | some entries => setChosen entries listings
    | none => [defaultOrderEntry listings]
  (p.fields.insert "prompts" (.list (documents.toList.map p.promptFor))).insert "prompt_order" (.list orders)

/-- The preset with these documents, as JSON. -/
def toJson (p : Preset) (documents : DocumentSet) (order : List String) : Json :=
  .object (p.exportFields documents order)

/-- The text of the preset with these documents. -/
def exportText (p : Preset) (documents : DocumentSet) (order : List String) : String :=
  (p.toJson documents order).pretty

end PromptMacros.Preset
