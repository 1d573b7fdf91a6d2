import PromptMacros.Json.Basic

/-!
# Written JSON

JSON values as text, on one line without blanks (`Json.compact`) or over lines with two spaces for each level
(`Json.pretty`). Fields are written in the order in which the object lists them. In a text only quotes, backslashes and
control characters are escaped.
-/

namespace PromptMacros.Json

/-- A character as it is written in a text. -/
def escaped (c : Char) : List Char :=
  match c with
  | '"' => ['\\', '"']
  | '\\' => ['\\', '\\']
  | '\x08' => ['\\', 'b']
  | '\x0c' => ['\\', 'f']
  | '\n' => ['\\', 'n']
  | '\r' => ['\\', 'r']
  | '\t' => ['\\', 't']
  | c =>
    if c.toNat < 0x20 then
      ['\\', 'u', '0', '0', Nat.digitChar (c.toNat / 16), Nat.digitChar (c.toNat % 16)]
    else [c]

/-- A text as it is written. -/
def stringText (s : String) : List Char :=
  '"' :: s.toList.flatMap escaped ++ ['"']

/-- A truth value as it is written. -/
def boolText (b : Bool) : List Char :=
  if b then ['t', 'r', 'u', 'e'] else ['f', 'a', 'l', 's', 'e']

mutual

/-- The characters of a value on one line. -/
def compactText : Json → List Char
  | null => ['n', 'u', 'l', 'l']
  | bool b => boolText b
  | number n => n.text.toList
  | string s => stringText s
  | list [] => ['[', ']']
  | list (item :: items) => '[' :: compactText item ++ compactItems items
  | object [] => ['{', '}']
  | object ((key, value) :: fields) => '{' :: stringText key ++ ':' :: compactText value ++ compactFields fields

/-- The characters of the further items of a list, and its end. -/
def compactItems : List Json → List Char
  | [] => [']']
  | item :: items => ',' :: compactText item ++ compactItems items

/-- The characters of the further fields of an object, and its end. -/
def compactFields : List (String × Json) → List Char
  | [] => ['}']
  | (key, value) :: fields => ',' :: stringText key ++ ':' :: compactText value ++ compactFields fields

end

/-- A new line at a level. -/
def newLine (level : Nat) : List Char :=
  '\n' :: List.replicate (2 * level) ' '

mutual

/-- The characters of a value over lines, when its first line stands at this level. -/
def prettyText (level : Nat) : Json → List Char
  | null => ['n', 'u', 'l', 'l']
  | bool b => boolText b
  | number n => n.text.toList
  | string s => stringText s
  | list [] => ['[', ']']
  | list (item :: items) =>
    '[' :: newLine (level + 1) ++ prettyText (level + 1) item ++ prettyItems level items
  | object [] => ['{', '}']
  | object ((key, value) :: fields) =>
    '{' :: newLine (level + 1) ++ stringText key ++ ':' :: ' ' :: prettyText (level + 1) value ++
      prettyFields level fields

/-- The characters of the further items of a list at this level, and its end. -/
def prettyItems (level : Nat) : List Json → List Char
  | [] => newLine level ++ [']']
  | item :: items => ',' :: newLine (level + 1) ++ prettyText (level + 1) item ++ prettyItems level items

/-- The characters of the further fields of an object at this level, and its end. -/
def prettyFields (level : Nat) : List (String × Json) → List Char
  | [] => newLine level ++ ['}']
  | (key, value) :: fields =>
    ',' :: newLine (level + 1) ++ stringText key ++ ':' :: ' ' :: prettyText (level + 1) value ++
      prettyFields level fields

end

/-- A value on one line. -/
def compact (value : Json) : String :=
  String.ofList (compactText value)

/-- A value over lines. -/
def pretty (value : Json) : String :=
  String.ofList (prettyText 0 value)

end PromptMacros.Json
