import PromptMacros.Text.Blank
import PromptMacros.Text.Pair

/-!
# Kinds of macros

What the body of a macro says: a comment, a variable set, a variable read, or anything else. `classify` tries them in
this order, so a body that starts with `//` is a comment whatever follows, and only a body that starts with `setvar::` or
`getvar::` to the letter sets or reads a variable. The separator `::` cannot be escaped.
-/

namespace PromptMacros

open Text

/-- What a macro does. -/
inductive Kind
  /-- A comment, which does nothing. -/
  | comment
  /-- Sets a variable; a name or value that is absent or blank is `none`. -/
  | setVar (name value : Option String)
  /-- Reads a variable; the name is empty when nothing but white space follows the keyword. -/
  | getVar (name : String)
  /-- Any other macro: its first segment and the segments after it. -/
  | other (tag : String) (params : List String)
  deriving DecidableEq, Repr

namespace Kind

/-- What a comment starts with. -/
def commentMark : List Char := ['/', '/']

/-- What a macro that sets a variable starts with. -/
def setKeyword : List Char := ['s', 'e', 't', 'v', 'a', 'r', ':', ':']

/-- What a macro that reads a variable starts with. -/
def getKeyword : List Char := ['g', 'e', 't', 'v', 'a', 'r', ':', ':']

/-- The tag of a macro whose first segment is blank. -/
def unknownTag : String := "unknown"

/-- A segment without white space at its ends; nothing when it is blank. -/
def nonBlank? (segment : List Char) : Option String :=
  let trimmed := trim segment
  if trimmed = [] then none else some (String.ofList trimmed)

/-- The kind of the macro that has this body. -/
def classify (body : List Char) : Kind :=
  if (after? commentMark body).isSome then .comment
  else if let some rest := after? setKeyword body then
    let parts := segments rest
    .setVar (parts[0]?.bind nonBlank?) (parts[1]?.bind nonBlank?)
  else if let some rest := after? getKeyword body then
    .getVar (String.ofList (trim rest))
  else
    let parts := segments body
    .other ((parts.head?.bind nonBlank?).getD unknownTag) (parts.tail.map fun p => String.ofList (trim p))

/-- The tag under which the kind is known. -/
def tag : Kind → String
  | comment => "comment"
  | setVar _ _ => "setvar"
  | getVar _ => "getvar"
  | other tag _ => tag

/-- The variable set or read; a read without a name names no variable. -/
def varName? : Kind → Option String
  | setVar name _ => name
  | getVar name => if name = "" then none else some name
  | comment | other _ _ => none

/-- The value that a macro sets a variable to. -/
def value? : Kind → Option String
  | setVar _ value => value
  | comment | getVar _ | other _ _ => none

/-- The segments after the tag of a macro that is no comment and neither sets nor reads a variable. -/
def params : Kind → List String
  | other _ params => params
  | comment | setVar _ _ | getVar _ => []

/-- Whether the kind sets a variable, named or not. -/
def isSetVar : Kind → Bool
  | setVar _ _ => true
  | comment | getVar _ | other _ _ => false

/-- Whether the kind reads a variable, named or not. -/
def isGetVar : Kind → Bool
  | getVar _ => true
  | comment | setVar _ _ | other _ _ => false

/-- Only a macro that reads a variable reads one. -/
theorem isGetVar_iff {k : Kind} : k.isGetVar = true ↔ ∃ name, k = .getVar name := by
  cases k <;> simp [isGetVar]

/-- A segment that is not blank yields its trimmed text, which is not empty. -/
theorem nonBlank?_eq_some_iff {segment : List Char} {s : String} :
    nonBlank? segment = some s ↔ s.toList = trim segment ∧ s ≠ "" := by
  simp only [nonBlank?]
  split
  · next h => simp [h]
  · next h =>
    constructor
    · intro hs
      cases hs
      refine ⟨String.toList_ofList, fun he => h ?_⟩
      rw [← @String.toList_ofList (trim segment), he]
      rfl
    · rintro ⟨hs, -⟩
      rw [← hs, String.ofList_toList]

end Kind

end PromptMacros
