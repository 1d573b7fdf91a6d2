import PromptMacros.Text.Hidden

/-!
# Quoted text

A text as a message quotes it: between double quotes, with a backslash before quotes and backslashes, and hidden
characters written so that they can be seen. Only the space and visible characters stand for themselves
(`quotedChar_eq_singleton_iff`).
-/

namespace PromptMacros.Text

/-- A character as a quoted text shows it. -/
def quotedChar (c : Char) : List Char :=
  match c with
  | '\x00' => ['\\', '0']
  | '\t' => ['\\', 't']
  | '\n' => ['\\', 'n']
  | '\r' => ['\\', 'r']
  | '"' => ['\\', '"']
  | '\\' => ['\\', '\\']
  | c => if isHidden c then '\\' :: 'u' :: '{' :: Nat.toDigits 16 c.toNat ++ ['}'] else [c]

/-- A text between double quotes. -/
def quoted (text : String) : String :=
  String.ofList ('"' :: text.toList.flatMap quotedChar ++ ['"'])

/-- A character stands for itself in quotes exactly when it is visible and neither a quote nor a backslash. -/
theorem quotedChar_eq_singleton_iff {c : Char} :
    quotedChar c = [c] ↔ isHidden c = false ∧ c ≠ '"' ∧ c ≠ '\\' := by
  have h0 : isHidden '\x00' = true := by decide
  have ht : isHidden '\t' = true := by decide
  have hn : isHidden '\n' = true := by decide
  have hr : isHidden '\r' = true := by decide
  unfold quotedChar
  split <;> simp_all

end PromptMacros.Text
