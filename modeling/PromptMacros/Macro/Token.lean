import PromptMacros.Text.Blank
import PromptMacros.Text.Bytes
import PromptMacros.Text.Pair

/-!
# Macro tokens

A macro stands in a text as `{{ body }}`: its body runs from the doubled opening brace to the first doubled
closing brace behind it, over line ends too. A `Scanner` walks over a text from left to right and finds one macro a step.
An opening that no closing follows ends the walk, since every later opening would need that same closing. A spent scanner
stays spent (`next?_spent`), and each macro found shortens what is left (`length_rest_of_next?_eq_some`), so
`Scanner.tokens` reaches the end.
-/

namespace PromptMacros

open Text

/-- One macro as it stands in a text. -/
structure Token where
  /-- The whole macro with its braces. -/
  full : List Char
  /-- The body between the braces, without white space at its ends. -/
  inner : List Char
  /-- Where the macro stands in the text, in bytes. -/
  range : ByteRange
  deriving DecidableEq, Repr

/-- The byte position of the opening braces. -/
def Token.offset (t : Token) : Nat :=
  t.range.start

/-- A macro with the given body: the body between doubled braces. -/
def braced (body : List Char) : List Char :=
  '{' :: '{' :: body ++ ['}', '}']

/-- The token of the macro with the given body whose opening braces stand at `offset`. -/
def Token.ofBody (offset : Nat) (body : List Char) : Token where
  full := braced body
  inner := trim body
  range := ⟨offset, offset + byteLength (braced body)⟩

/-- The text that precedes the first macro, the body of that macro, and the text that follows it. -/
def cutMacro (cs : List Char) : Option (List Char × List Char × List Char) := do
  let (gap, opened) ← cutPair '{' cs
  let (body, rest) ← cutPair '}' opened
  pure (gap, body, rest)

/-- The text around the first macro and the macro make up the text. -/
theorem eq_of_cutMacro_eq_some {cs gap body rest : List Char} (h : cutMacro cs = some (gap, body, rest)) :
    cs = gap ++ braced body ++ rest := by
  obtain ⟨⟨g, opened⟩, hg, h⟩ := Option.bind_eq_some_iff.mp h
  obtain ⟨⟨b, r⟩, hb, h⟩ := Option.bind_eq_some_iff.mp h
  obtain ⟨rfl, rfl, rfl⟩ : g = gap ∧ b = body ∧ r = rest := by simpa using h
  rw [eq_of_cutPair_eq_some hg, eq_of_cutPair_eq_some hb]
  simp [braced]

/-- What follows the first macro is shorter than the text. -/
theorem length_of_cutMacro_eq_some {cs gap body rest : List Char} (h : cutMacro cs = some (gap, body, rest)) :
    rest.length < cs.length := by
  rw [eq_of_cutMacro_eq_some h]
  simp [braced]
  omega

/-- A walk over a text: the byte position reached, and the text from there on. -/
structure Scanner where
  offset : Nat
  rest : List Char
  deriving DecidableEq, Repr

namespace Scanner

/-- A scanner at the start of a text. -/
def ofText (cs : List Char) : Scanner :=
  ⟨0, cs⟩

/-- The scanner at the end of its text. -/
def spent (s : Scanner) : Scanner :=
  ⟨s.offset + byteLength s.rest, []⟩

/-- The next macro, if there is one, and the scanner behind it, or else at the end of the text. -/
def next? (s : Scanner) : Option Token × Scanner :=
  match cutMacro s.rest with
  | none => (none, s.spent)
  | some (gap, body, rest) =>
    let token := Token.ofBody (s.offset + byteLength gap) body
    (some token, ⟨token.range.stop, rest⟩)

/-- A macro found leaves less text to walk over. -/
theorem length_rest_of_next?_eq_some {s s' : Scanner} {t : Token} (h : s.next? = (some t, s')) :
    s'.rest.length < s.rest.length := by
  unfold next? at h
  split at h
  · simp at h
  · next hcut =>
    obtain ⟨-, rfl⟩ := Prod.mk.inj h
    exact length_of_cutMacro_eq_some hcut

/-- A scanner at the end of its text finds nothing and stays there. -/
@[simp] theorem next?_spent (s : Scanner) : s.spent.next? = (none, s.spent) := by
  simp [next?, spent, cutMacro, cutPair]

/-- A scanner that finds nothing is at the end of its text. -/
theorem eq_spent_of_next?_eq_none {s s' : Scanner} (h : s.next? = (none, s')) : s' = s.spent := by
  unfold next? at h
  split at h
  · exact (Prod.mk.inj h).2.symm
  · simp at h

/-- The macros from here to the end of the text, and the scanner that finds no more. -/
def drain (s : Scanner) : List Token × Scanner :=
  match _h : s.next? with
  | (none, s') => ([], s')
  | (some t, s') =>
    let (tokens, last) := s'.drain
    (t :: tokens, last)
termination_by s.rest.length
decreasing_by exact length_rest_of_next?_eq_some _h

/-- The macros from here to the end of the text. -/
def tokens (s : Scanner) : List Token :=
  s.drain.1

/-- A scanner that finds nothing has no macros before it. -/
theorem tokens_of_next?_eq_none {s s' : Scanner} (h : s.next? = (none, s')) : s.tokens = [] := by
  rw [tokens, drain]
  split
  · rfl
  · next h' => rw [h] at h'; cases (Prod.mk.inj h').1

/-- The macros before a scanner are the one it finds and those that the scanner behind it has before it. -/
theorem tokens_of_next?_eq_some {s s' : Scanner} {t : Token} (h : s.next? = (some t, s')) :
    s.tokens = t :: s'.tokens := by
  rw [tokens, drain]
  split
  · next h' => rw [h] at h'; cases (Prod.mk.inj h').1
  · next h' =>
    rw [h] at h'
    obtain ⟨ht, rfl⟩ := Prod.mk.inj h'
    cases ht
    rfl

end Scanner

/-- The macros of a text, from left to right. -/
def Token.ofText (cs : List Char) : List Token :=
  (Scanner.ofText cs).tokens

end PromptMacros
