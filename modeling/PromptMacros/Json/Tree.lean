import PromptMacros.Json.Lexeme

/-!
# JSON trees

A JSON text as it is written: numbers and strings are not yet given a value, and an object may have a field more than
once. `Tree.ofText?` reads the lexemes one by one with a stack of the lists and objects that are still open, so its depth
is bounded by nothing but the text. Reading a list or an object is reading its items in turn
(`Progress.run_append`).
-/

namespace PromptMacros.Json

/-- A JSON text as it is written. -/
inductive Tree
  | null
  | bool (b : Bool)
  | number (n : Numeral)
  | string (units : List TextUnit)
  | list (items : List Tree)
  | object (fields : List (List TextUnit × Tree))
  deriving Repr, Inhabited

/-- A list or object that is still open: what it has so far, the latest first, and for an object the name of the field
whose value is being read. -/
inductive Frame
  | list (items : List Tree)
  | object (fields : List (List TextUnit × Tree)) (key : List TextUnit)

/-- How far the reading has come; `above` are the lists and objects still open, the innermost first. -/
inductive Progress
  /-- A value comes next. -/
  | value (above : List Frame)
  /-- A list was opened. -/
  | openedList (above : List Frame)
  /-- An object was opened. -/
  | openedObject (above : List Frame)
  /-- The name of a further field of an object comes next. -/
  | name (above : List Frame) (fields : List (List TextUnit × Tree))
  /-- The colon behind the name of a field comes next. -/
  | colon (above : List Frame) (fields : List (List TextUnit × Tree)) (key : List TextUnit)
  /-- A value is complete. -/
  | complete (above : List Frame) (tree : Tree)

namespace Progress

/-- Reading a lexeme where a value may start. -/
def startValue (above : List Frame) : Lexeme → Option Progress
  | .null => some (complete above .null)
  | .bool b => some (complete above (.bool b))
  | .number n => some (complete above (.number n))
  | .string units => some (complete above (.string units))
  | .openList => some (openedList above)
  | .openObject => some (openedObject above)
  | .closeList | .closeObject | .comma | .colon => none

/-- Reading a lexeme behind a complete value. -/
def endValue (above : List Frame) (tree : Tree) (l : Lexeme) : Option Progress :=
  match above, l with
  | .list items :: above, .comma => some (value (.list (tree :: items) :: above))
  | .list items :: above, .closeList => some (complete above (.list (tree :: items).reverse))
  | .object fields key :: above, .comma => some (name above ((key, tree) :: fields))
  | .object fields key :: above, .closeObject => some (complete above (.object ((key, tree) :: fields).reverse))
  | _, _ => none

/-- Reading the next lexeme; nothing when it may not stand here. -/
def step (p : Progress) (l : Lexeme) : Option Progress :=
  match p, l with
  | value above, l => startValue above l
  | openedList above, .closeList => some (complete above (.list []))
  | openedList above, l => startValue (.list [] :: above) l
  | openedObject above, .closeObject => some (complete above (.object []))
  | openedObject above, .string key => some (colon above [] key)
  | openedObject _, _ => none
  | name above fields, .string key => some (colon above fields key)
  | name _ _, _ => none
  | colon above fields key, .colon => some (value (.object fields key :: above))
  | colon _ _ _, _ => none
  | complete above tree, l => endValue above tree l

/-- Reading lexemes in turn. -/
def run (p : Progress) (ls : List Lexeme) : Option Progress :=
  ls.foldlM step p

/-- Reading one row of lexemes and then another is reading the two as one row. -/
theorem run_append (p : Progress) (xs ys : List Lexeme) : p.run (xs ++ ys) = (p.run xs).bind fun q => q.run ys :=
  List.foldlM_append

/-- The tree that is read when nothing is open any more. -/
def tree? : Progress → Option Tree
  | complete [] tree => some tree
  | _ => none

end Progress

namespace Tree

/-- The tree of a JSON text; nothing when the text is not JSON. -/
def ofText? (text : String) : Option Tree := do
  let lexemes ← Lexeme.ofText? text.toList
  let progress ← (Progress.value []).run lexemes
  progress.tree?

end Tree

end PromptMacros.Json
