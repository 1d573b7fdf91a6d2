import PromptMacros.Json.Basic

/-!
# Presets

A preset is a JSON object with a list of prompts and, for each of several characters, an order in which prompts run. What
a prompt is called, and which of the orders counts, is read here; import and export both go by it. Whatever else a preset
holds is carried along.
-/

namespace PromptMacros

/-- A preset: the fields of a JSON object. -/
structure Preset where
  fields : Fields := []

namespace Preset

/-- The character whose order counts before that of any other. -/
def defaultCharacter : Int := 100001

/-- The text of a field of a prompt. -/
def textOf? (prompt : Json) (key : String) : Option String :=
  (prompt.get? key).bind Json.asString?

/-- The truth value of a field of a prompt. -/
def boolOf? (prompt : Json) (key : String) : Option Bool :=
  (prompt.get? key).bind Json.asBool?

/-- The id of a prompt: its identifier, or else its name; an empty text is none. -/
def promptId? (prompt : Json) : Option String :=
  ["identifier", "name"].findSome? fun key => (textOf? prompt key).filter (· ≠ "")

/-- The place of a prompt among prompts that no order lists: a whole number of 64 bits with a sign, or else zero. -/
def injectionOrder (prompt : Json) : Int :=
  (((prompt.get? "injection_order").bind Json.asInteger?).filter (· < Int.pow 2 63)).getD 0

/-- The prompts of a preset. -/
def prompts (p : Preset) : List Json :=
  ((p.fields.get? "prompts").bind Json.asList?).getD []

/-- The last prompt with this id. -/
def prompt? (p : Preset) (id : String) : Option Json :=
  p.prompts.reverse.find? fun prompt => promptId? prompt = some id

/-- Whether an order is that of the default character. -/
def isDefaultOrder (entry : Json) : Bool :=
  (entry.get? "character_id").bind Json.asInteger? = some defaultCharacter

/-- The place of the order that counts: the first of the default character, or else the first of all. -/
def chosenIndex? (entries : List Json) : Option Nat :=
  (entries.findIdx? isDefaultOrder).or (if entries.isEmpty then none else some 0)

/-- The orders of a preset, one for each of several characters. -/
def orders? (p : Preset) : Option (List Json) :=
  (p.fields.get? "prompt_order").bind Json.asList?

/-- What the order that counts lists, if there is one. -/
def listed? (p : Preset) : Option (List Json) := do
  let entries ← p.orders?
  let entry ← (chosenIndex? entries).bind fun i => entries[i]?
  (entry.get? "order").bind Json.asList?

end Preset

end PromptMacros
