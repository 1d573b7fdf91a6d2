import PromptMacros.Json.Basic
import PromptMacros.Json.Tree

/-!
# Read JSON

The value of a JSON text. A text has none when a number in it is too far from zero, when half of an escaped character
stands alone, or when more than 127 lists and objects are nested. Of several fields of one name the last counts, and
fields are sorted by name.
-/

namespace PromptMacros.Json

/-- How many lists and objects may be nested. -/
def maxDepth : Nat := 127

mutual

/-- The value of a tree in which at most `room` lists and objects are nested. -/
def ofTree? (room : Nat) : Tree → Option Json
  | .null => some null
  | .bool b => some (bool b)
  | .number n => (Number.ofNumeral? n).map number
  | .string units => (TextUnit.text? units).map string
  | .list items =>
    match room with
    | 0 => none
    | room + 1 => (ofTrees? room items).map list
  | .object fields =>
    match room with
    | 0 => none
    | room + 1 => (ofNamedTrees? room fields).map fun fields => object (Fields.ofList fields)

/-- The values of the items of a list. -/
def ofTrees? (room : Nat) : List Tree → Option (List Json)
  | [] => some []
  | item :: items => do
    let value ← ofTree? room item
    let values ← ofTrees? room items
    pure (value :: values)

/-- The values of the fields of an object, as they are written. -/
def ofNamedTrees? (room : Nat) : List (List TextUnit × Tree) → Option (List (String × Json))
  | [] => some []
  | (key, item) :: fields => do
    let key ← TextUnit.text? key
    let value ← ofTree? room item
    let values ← ofNamedTrees? room fields
    pure ((key, value) :: values)

end

/-- The value of a JSON text; nothing when the text is not JSON or has no value. -/
def read? (text : String) : Option Json :=
  (Tree.ofText? text).bind (ofTree? maxDepth)

end PromptMacros.Json
