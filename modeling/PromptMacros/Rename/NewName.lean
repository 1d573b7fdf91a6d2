import PromptMacros.Error
import PromptMacros.Text.Blank

/-!
# New names for variables

What a variable may be called. A name is taken without the white space at its ends; it must not be empty, hold white space
or a character that delimits macros or their parts, or belong to another variable. A variable may keep its name if that
is a possible name at all. The checks run in the order in which they are listed in `checkNewName`, and the first that
fails gives the error.
-/

namespace PromptMacros

open Text

/-- The characters that delimit macros and their parts. -/
def isReserved (c : Char) : Bool :=
  c = ':' || c = '{' || c = '}'

/-- The name that the variable `old` gets when it is to be called `new`, or why it cannot be called that; `known` tells
the variables there are. -/
def checkNewName (known : String → Bool) (old new : String) : Except Error String :=
  let name := String.ofList (trim new.toList)
  if known old = false then .error (.unknownVariable old)
  else if name = "" then .error .emptyName
  else if name.toList.any isBlank then .error (.blankInName name)
  else if name.toList.any isReserved then .error (.reservedInName name)
  else if name ≠ old ∧ known name then .error (.nameTaken name)
  else .ok name

/-- A name that passes is the trimmed one, has a character, and has none that is white space or reserved; and no other
variable has it. -/
theorem checkNewName_eq_ok_iff {known : String → Bool} {old new name : String} :
    checkNewName known old new = .ok name ↔
      name.toList = trim new.toList ∧ known old = true ∧ name ≠ "" ∧ (∀ c ∈ name.toList, isBlank c = false) ∧
        (∀ c ∈ name.toList, isReserved c = false) ∧ (name = old ∨ known name = false) := by
  have hname : name.toList = trim new.toList ↔ String.ofList (trim new.toList) = name :=
    ⟨fun h => by rw [← h, String.ofList_toList], fun h => by rw [← h, String.toList_ofList]⟩
  have hany : ∀ p : Char → Bool, (∀ c ∈ name.toList, p c = false) ↔ name.toList.any p = false := fun p => by simp
  rw [hname, hany, hany]
  simp only [checkNewName]
  generalize String.ofList (trim new.toList) = n
  grind

end PromptMacros
