import PromptMacros.Macro.Token

/-!
# The layout of a text

A text is a sequence of pieces, each a stretch of plain text and then a macro, and a tail without macros. The layout of a
text loses nothing of it (`Layout.text_ofText`), and its macros are those a scanner finds, at the same byte positions
(`Layout.tokens_ofText`). A text is changed macro by macro on its layout.
-/

namespace PromptMacros

open Text

/-- A stretch of plain text and the body of the macro that follows it. -/
structure Piece where
  gap : List Char
  body : List Char
  deriving DecidableEq, Repr

/-- The macro of a piece with its braces. -/
def Piece.full (p : Piece) : List Char :=
  braced p.body

/-- The characters of a piece. -/
def Piece.text (p : Piece) : List Char :=
  p.gap ++ p.full

/-- Each piece with the byte position of its macro, when the first piece starts at `offset`. -/
def Piece.located (offset : Nat) : List Piece → List (Nat × Piece)
  | [] => []
  | p :: ps => (offset + byteLength p.gap, p) :: located (offset + byteLength p.text) ps

/-- A text as pieces that each end in a macro, and a tail. -/
structure Layout where
  pieces : List Piece
  tail : List Char
  deriving DecidableEq, Repr

namespace Layout

/-- The characters of a layout. -/
def text (l : Layout) : List Char :=
  l.pieces.flatMap Piece.text ++ l.tail

/-- The layout of a text: each macro closes at the first doubled brace behind its opening. -/
def ofText (cs : List Char) : Layout :=
  match _h : cutMacro cs with
  | none => ⟨[], cs⟩
  | some (gap, body, rest) =>
    let l := ofText rest
    ⟨⟨gap, body⟩ :: l.pieces, l.tail⟩
termination_by cs.length
decreasing_by exact length_of_cutMacro_eq_some _h

/-- A text without macros is all tail. -/
theorem ofText_of_cutMacro_eq_none {cs : List Char} (h : cutMacro cs = none) : ofText cs = ⟨[], cs⟩ := by
  rw [ofText]
  split
  · rfl
  · next h' => rw [h] at h'; cases h'

/-- The layout of a text with a macro starts with that macro. -/
theorem ofText_of_cutMacro_eq_some {cs gap body rest : List Char} (h : cutMacro cs = some (gap, body, rest)) :
    ofText cs = ⟨⟨gap, body⟩ :: (ofText rest).pieces, (ofText rest).tail⟩ := by
  rw [ofText]
  split
  · next h' => rw [h] at h'; cases h'
  · next h' =>
    rw [h] at h'
    obtain ⟨rfl, rfl, rfl⟩ : gap = _ ∧ body = _ ∧ rest = _ := by simpa using h'
    rfl

/-- The layout of a text has the characters of the text. -/
@[simp] theorem text_ofText (cs : List Char) : (ofText cs).text = cs := by
  fun_induction ofText cs with
  | case1 => rfl
  | case2 cs gap body rest h l ih =>
    rw [eq_of_cutMacro_eq_some h, List.append_assoc, ← ih]
    simp [text, l, Piece.text, Piece.full]

/-- The macros of a layout at their byte positions. -/
def tokens (l : Layout) : List Token :=
  (Piece.located 0 l.pieces).map fun (offset, p) => Token.ofBody offset p.body

/-- From any position on, a scanner finds the macros of the layout of what it has left. -/
theorem tokens_eq_located (offset : Nat) (cs : List Char) :
    (Scanner.mk offset cs).tokens =
      (Piece.located offset (ofText cs).pieces).map fun (offset, p) => Token.ofBody offset p.body := by
  fun_induction ofText cs generalizing offset with
  | case1 cs h => exact Scanner.tokens_of_next?_eq_none (by simp only [Scanner.next?, h]; rfl)
  | case2 cs gap body rest h l ih =>
    have hnext : (Scanner.mk offset cs).next? = (some (Token.ofBody (offset + byteLength gap) body),
        ⟨offset + byteLength (Piece.text ⟨gap, body⟩), rest⟩) := by
      simp [Scanner.next?, h, Token.ofBody, Piece.text, Piece.full, Nat.add_assoc]
    rw [Scanner.tokens_of_next?_eq_some hnext, ih]
    rfl

/-- The macros of the layout of a text are the macros of the text. -/
theorem tokens_ofText (cs : List Char) : (ofText cs).tokens = Token.ofText cs :=
  (tokens_eq_located 0 cs).symm

end Layout

end PromptMacros
