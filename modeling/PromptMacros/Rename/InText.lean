import PromptMacros.Macro.NameSite

/-!
# Renaming a variable in a text

Renaming writes the new name over the old one in every macro that sets or reads the variable, and keeps the rest of the
text to the character (`renamedText_eq_self`: all of it when no macro names the variable). The places are found one by one
with `Piece.site?`; `TextRenaming.splice?` replaces ranges of bytes in a text without looking at what they hold.
-/

namespace PromptMacros

open Text

/-- A range of bytes, counted from another start. -/
def ByteRange.shift (offset : Nat) (r : ByteRange) : ByteRange :=
  ⟨offset + r.start, offset + r.stop⟩

/-- A piece with the variable `old` called `new`. -/
def Piece.renamedText (old : String) (new : List Char) (p : Piece) : List Char :=
  match p.site? old with
  | none => p.text
  | some s => p.gap ++ s.renamed new

namespace Layout

/-- The characters of a layout with the variable `old` called `new`. -/
def renamedText (old : String) (new : List Char) (l : Layout) : List Char :=
  l.pieces.flatMap (Piece.renamedText old new) ++ l.tail

/-- Where the macros of a layout name the variable, in bytes. -/
def nameRanges (old : String) (l : Layout) : List ByteRange :=
  (Piece.located 0 l.pieces).filterMap fun (offset, p) => (p.site? old).map fun s => s.range.shift offset

/-- A layout in which no macro names the variable keeps its characters. -/
theorem renamedText_eq_self {old : String} {new : List Char} {l : Layout} (h : ∀ p ∈ l.pieces, p.site? old = none) :
    l.renamedText old new = l.text := by
  have hp : ∀ p ∈ l.pieces, p.renamedText old new = p.text := fun p hp => by simp [Piece.renamedText, h p hp]
  rw [renamedText, text, List.flatMap_def, List.flatMap_def, List.map_congr_left hp]

end Layout

/-- A text in which a variable was renamed, and where in the text before the name was replaced. -/
structure TextRenaming where
  text : String
  sites : List ByteRange
  deriving DecidableEq, Repr

namespace TextRenaming

/-- The number of macros in which the name was replaced. -/
def count (r : TextRenaming) : Nat :=
  r.sites.length

/-- A text with the variable `old` called `new`. -/
def ofText (text old new : String) : TextRenaming :=
  let layout := Layout.ofText text.toList
  ⟨String.ofList (layout.renamedText old new.toList), layout.nameRanges old⟩

/-- A text with another text in place of each of these ranges, when they follow each other and lie between characters;
`position` is where the text starts. -/
def splice? (new : List Char) (position : Nat) (cs : List Char) : List ByteRange → Option (List Char)
  | [] => some cs
  | r :: rs => do
    guard (position ≤ r.start ∧ r.start ≤ r.stop)
    let (kept, cs) ← cutAt (r.start - position) cs
    let (_, cs) ← cutAt (r.stop - r.start) cs
    let rest ← splice? new r.stop cs rs
    pure (kept ++ new ++ rest)

end TextRenaming

end PromptMacros
