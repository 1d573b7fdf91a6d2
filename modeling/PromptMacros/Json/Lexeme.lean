import PromptMacros.Decimal.Numeral
import PromptMacros.Text.Pair

/-!
# JSON lexemes

A JSON text as a row of brackets, commas, colons, names, numerals and strings, with white space between them. Each lexeme
takes at least one character (`Lexeme.length_of_read?_eq_some`), so `Lexeme.ofText?` reaches the end of the text or meets
something that is no lexeme. An escape may stand for half a character; a string is decoded only where its text is asked
for (`TextUnit.decode?`).
-/

namespace PromptMacros.Json

open Text

/-- What one place of a string stands for: a character, or one of the two halves that together escape a character. -/
inductive TextUnit
  | char (c : Char)
  | surrogate (code : Nat)
  deriving DecidableEq, Repr

namespace TextUnit

/-- The unit with this 16-bit code. -/
def ofCode (code : Nat) : TextUnit :=
  if 0xD800 ≤ code ∧ code ≤ 0xDFFF then surrogate code else char (Char.ofNat code)

/-- The character whose two halves these are; nothing when they are not the first and the second half of one. -/
def joined? (high low : Nat) : Option Char :=
  if high ≤ 0xDBFF ∧ 0xDC00 ≤ low then some (Char.ofNat (0x10000 + (high - 0xD800) * 0x400 + (low - 0xDC00)))
  else none

/-- The characters of a string; nothing when a half stands alone. -/
def decode? : List TextUnit → Option (List Char)
  | [] => some []
  | char c :: units => (decode? units).map (c :: ·)
  | surrogate high :: surrogate low :: units => do
    let c ← joined? high low
    let cs ← decode? units
    pure (c :: cs)
  | surrogate _ :: _ => none

/-- The text of a string; nothing when a half stands alone. -/
def text? (units : List TextUnit) : Option String :=
  (decode? units).map String.ofList

end TextUnit

/-- A lexeme of a JSON text. -/
inductive Lexeme
  | openList
  | closeList
  | openObject
  | closeObject
  | comma
  | colon
  | null
  | bool (b : Bool)
  | number (n : Numeral)
  | string (units : List TextUnit)
  deriving DecidableEq, Repr

namespace Lexeme

/-- The characters that count as white space between lexemes. -/
def isSpace (c : Char) : Bool :=
  c = ' ' || c = '\t' || c = '\n' || c = '\r'

/-- The number that a hexadecimal digit stands for. -/
def hexValue? (c : Char) : Option Nat :=
  if '0' ≤ c ∧ c ≤ '9' then some (c.toNat - '0'.toNat)
  else if 'a' ≤ c ∧ c ≤ 'f' then some (c.toNat - 'a'.toNat + 10)
  else if 'A' ≤ c ∧ c ≤ 'F' then some (c.toNat - 'A'.toNat + 10)
  else none

/-- The code that four hexadecimal digits stand for. -/
def hexCode? (a b c d : Char) : Option Nat := do
  pure (((← hexValue? a) * 16 + (← hexValue? b)) * 256 + (← hexValue? c) * 16 + (← hexValue? d))

/-- The character that a letter behind a backslash stands for. -/
def shortEscape? : Char → Option Char
  | '"' => some '"'
  | '\\' => some '\\'
  | '/' => some '/'
  | 'b' => some '\x08'
  | 'f' => some '\x0c'
  | 'n' => some '\n'
  | 'r' => some '\r'
  | 't' => some '\t'
  | _ => none

/-- The rest of a string behind its opening quote, and the text behind its closing quote. -/
def readString? : List Char → Option (List TextUnit × List Char)
  | [] => none
  | '"' :: cs => some ([], cs)
  | '\\' :: 'u' :: a :: b :: c :: d :: cs => do
    let code ← hexCode? a b c d
    let (units, rest) ← readString? cs
    pure (TextUnit.ofCode code :: units, rest)
  | '\\' :: letter :: cs => do
    let c ← shortEscape? letter
    let (units, rest) ← readString? cs
    pure (.char c :: units, rest)
  | c :: cs =>
    if 0x20 ≤ c.toNat ∧ c ≠ '\\' then do
      let (units, rest) ← readString? cs
      pure (.char c :: units, rest)
    else none

/-- The digits that a text starts with, and the text behind them. -/
def readDigits (cs : List Char) : List Nat × List Char :=
  ((cs.takeWhile Char.isDigit).map fun c => c.toNat - '0'.toNat, cs.dropWhile Char.isDigit)

/-- Digits, of which there must be one at least, and the text behind them. -/
def readDigits? (cs : List Char) : Option (List Nat × List Char) :=
  let found := readDigits cs
  if found.1 = [] then none else some found

/-- The digits before the point: a zero, or digits that do not start with a zero. -/
def readWhole? (cs : List Char) : Option (List Nat × List Char) := do
  let found ← readDigits? cs
  guard (found.1 = [0] ∨ found.1.head? ≠ some 0)
  pure found

/-- The point and the digits behind it, if there is a point. -/
def readFraction? : List Char → Option (Option (List Nat) × List Char)
  | '.' :: cs => (readDigits? cs).map fun (digits, rest) => (some digits, rest)
  | cs => some (none, cs)

/-- The number that digits stand for. -/
def digitsValue (digits : List Nat) : Nat :=
  digits.foldl (fun value digit => 10 * value + digit) 0

/-- The power of ten, if one is written. -/
def readPower? : List Char → Option (Option Int × List Char)
  | [] => some (none, [])
  | c :: cs =>
    if c = 'e' ∨ c = 'E' then
      match cs with
      | '-' :: cs => (readDigits? cs).map fun (digits, rest) => (some (-(digitsValue digits : Int)), rest)
      | '+' :: cs => (readDigits? cs).map fun (digits, rest) => (some (digitsValue digits : Int), rest)
      | cs => (readDigits? cs).map fun (digits, rest) => (some (digitsValue digits : Int), rest)
    else some (none, c :: cs)

/-- A numeral without its sign, and the text behind it. -/
def readUnsigned? (negative : Bool) (cs : List Char) : Option (Numeral × List Char) := do
  let (whole, cs) ← readWhole? cs
  let (fraction, cs) ← readFraction? cs
  let (power, cs) ← readPower? cs
  pure (⟨negative, whole, fraction, power⟩, cs)

/-- A numeral and the text behind it. -/
def readNumeral? : List Char → Option (Numeral × List Char)
  | '-' :: cs => readUnsigned? true cs
  | cs => readUnsigned? false cs

/-- A name and the text behind it. -/
def readName? (cs : List Char) : Option (Lexeme × List Char) :=
  ((after? ['n', 'u', 'l', 'l'] cs).map fun rest => (null, rest)) <|>
    ((after? ['t', 'r', 'u', 'e'] cs).map fun rest => (bool true, rest)) <|>
    ((after? ['f', 'a', 'l', 's', 'e'] cs).map fun rest => (bool false, rest))

/-- The lexeme that a text starts with, and the text behind it. -/
def read? : List Char → Option (Lexeme × List Char)
  | [] => none
  | '[' :: cs => some (openList, cs)
  | ']' :: cs => some (closeList, cs)
  | '{' :: cs => some (openObject, cs)
  | '}' :: cs => some (closeObject, cs)
  | ',' :: cs => some (comma, cs)
  | ':' :: cs => some (colon, cs)
  | '"' :: cs => (readString? cs).map fun (units, rest) => (string units, rest)
  | c :: cs =>
    if c = '-' ∨ c.isDigit then (readNumeral? (c :: cs)).map fun (n, rest) => (number n, rest)
    else readName? (c :: cs)

/-- What follows a string is shorter than what followed its opening quote. -/
theorem length_of_readString?_eq_some {cs rest : List Char} {units : List TextUnit}
    (h : readString? cs = some (units, rest)) : rest.length < cs.length := by
  fun_induction readString? cs generalizing units with
  | case1 => cases h
  | case2 cs => cases h; simp
  | case3 a b c d cs ih =>
    obtain ⟨code, -, h⟩ := Option.bind_eq_some_iff.mp h
    obtain ⟨⟨us, r⟩, hr, h⟩ := Option.bind_eq_some_iff.mp h
    cases h
    have := ih hr
    simp only [List.length_cons]
    omega
  | case4 letter cs _ ih =>
    obtain ⟨c, -, h⟩ := Option.bind_eq_some_iff.mp h
    obtain ⟨⟨us, r⟩, hr, h⟩ := Option.bind_eq_some_iff.mp h
    cases h
    have := ih hr
    simp only [List.length_cons]
    omega
  | case5 c cs _ _ _ _ ih =>
    obtain ⟨⟨us, r⟩, hr, h⟩ := Option.bind_eq_some_iff.mp h
    cases h
    have := ih hr
    simp only [List.length_cons]
    omega
  | case6 => cases h

/-- What follows the digits of a text is no longer than the text, and shorter when there are digits. -/
theorem length_readDigits (cs : List Char) :
    (readDigits cs).2.length + (readDigits cs).1.length = cs.length := by
  have h := congrArg List.length (List.takeWhile_append_dropWhile (p := Char.isDigit) (l := cs))
  simp only [List.length_append] at h
  simp only [readDigits, List.length_map]
  omega

/-- What follows at least one digit is shorter than the text. -/
theorem length_of_readDigits?_eq_some {cs rest : List Char} {digits : List Nat}
    (h : readDigits? cs = some (digits, rest)) : rest.length < cs.length := by
  have hlen := length_readDigits cs
  simp only [readDigits?] at h
  split at h
  · cases h
  · next hne =>
    have hpos := List.length_pos_iff.mpr hne
    rw [Option.some.inj h] at hlen hpos
    simp only at hlen hpos
    omega

/-- What follows the digits before the point is shorter than the text. -/
theorem length_of_readWhole?_eq_some {cs rest : List Char} {digits : List Nat}
    (h : readWhole? cs = some (digits, rest)) : rest.length < cs.length := by
  obtain ⟨found, hf, h⟩ := Option.bind_eq_some_iff.mp h
  obtain ⟨-, -, h⟩ := Option.bind_eq_some_iff.mp h
  obtain rfl := Option.some.inj h
  exact length_of_readDigits?_eq_some hf

/-- What follows the digits behind the point is no longer than the text. -/
theorem length_of_readFraction?_eq_some {cs rest : List Char} {digits : Option (List Nat)}
    (h : readFraction? cs = some (digits, rest)) : rest.length ≤ cs.length := by
  unfold readFraction? at h
  split at h
  · obtain ⟨⟨ds, r⟩, hr, h⟩ := Option.map_eq_some_iff.mp h
    cases h
    have := length_of_readDigits?_eq_some hr
    simp only [List.length_cons]
    omega
  · cases h
    exact Nat.le_refl _

/-- What follows the power of ten is no longer than the text. -/
theorem length_of_readPower?_eq_some {cs rest : List Char} {power : Option Int}
    (h : readPower? cs = some (power, rest)) : rest.length ≤ cs.length := by
  unfold readPower? at h
  split at h
  · cases h
    exact Nat.le_refl _
  · split at h
    · split at h <;>
      · obtain ⟨⟨ds, r⟩, hr, h⟩ := Option.map_eq_some_iff.mp h
        cases h
        have := length_of_readDigits?_eq_some hr
        simp only [List.length_cons] at *
        omega
    · cases h
      exact Nat.le_refl _

/-- What follows a numeral is shorter than the text. -/
theorem length_of_readNumeral?_eq_some {cs rest : List Char} {n : Numeral}
    (h : readNumeral? cs = some (n, rest)) : rest.length < cs.length := by
  have unsigned : ∀ negative cs, readUnsigned? negative cs = some (n, rest) → rest.length < cs.length := by
    intro negative cs h
    obtain ⟨⟨whole, cs₁⟩, h₁, h⟩ := Option.bind_eq_some_iff.mp h
    obtain ⟨⟨fraction, cs₂⟩, h₂, h⟩ := Option.bind_eq_some_iff.mp h
    obtain ⟨⟨power, cs₃⟩, h₃, h⟩ := Option.bind_eq_some_iff.mp h
    cases h
    have := length_of_readWhole?_eq_some h₁
    have := length_of_readFraction?_eq_some h₂
    have := length_of_readPower?_eq_some h₃
    omega
  unfold readNumeral? at h
  split at h
  · have := unsigned _ _ h
    simp only [List.length_cons]
    omega
  · exact unsigned _ _ h

/-- What follows a name is shorter than the text. -/
theorem length_of_readName?_eq_some {cs rest : List Char} {l : Lexeme} (h : readName? cs = some (l, rest)) :
    rest.length < cs.length := by
  simp only [readName?, Option.orElse_eq_orElse, Option.orElse_eq_or, Option.or_eq_some_iff, Option.map_eq_some_iff,
    Option.map_eq_none_iff] at h
  rcases h with ⟨r, hr, h⟩ | ⟨-, ⟨r, hr, h⟩ | ⟨-, ⟨r, hr, h⟩⟩⟩ <;> cases h <;> rw [after?_eq_some_iff.mp hr] <;> simp <;>
    omega

/-- What follows a lexeme is shorter than the text. -/
theorem length_of_read?_eq_some {cs rest : List Char} {l : Lexeme} (h : read? cs = some (l, rest)) :
    rest.length < cs.length := by
  unfold read? at h
  split at h
  any_goals (cases h; done)
  any_goals (cases h; exact Nat.lt_succ_self _)
  · obtain ⟨⟨us, r⟩, hr, h⟩ := Option.map_eq_some_iff.mp h
    cases h
    exact Nat.lt_succ_of_lt (length_of_readString?_eq_some hr)
  · split at h
    · obtain ⟨⟨n, r⟩, hr, h⟩ := Option.map_eq_some_iff.mp h
      cases h
      exact length_of_readNumeral?_eq_some hr
    · exact length_of_readName?_eq_some h

/-- The text from its first character that is no white space on. -/
def skipSpace (cs : List Char) : List Char :=
  cs.dropWhile isSpace

/-- Skipping white space does not lengthen a text. -/
theorem length_skipSpace_le (cs : List Char) : (skipSpace cs).length ≤ cs.length :=
  (List.dropWhile_sublist isSpace).length_le

/-- The lexemes of a text; nothing when something else stands in it. -/
def ofText? (cs : List Char) : Option (List Lexeme) :=
  if skipSpace cs = [] then some []
  else
    match _h : read? (skipSpace cs) with
    | none => none
    | some (l, rest) => (ofText? rest).map (l :: ·)
termination_by cs.length
decreasing_by exact Nat.lt_of_lt_of_le (length_of_read?_eq_some _h) (length_skipSpace_le cs)

end Lexeme

end PromptMacros.Json
