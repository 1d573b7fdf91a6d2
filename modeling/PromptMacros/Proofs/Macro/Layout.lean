import PromptMacros.Macro.Basic
import PromptMacros.Macro.Layout
import PromptMacros.Proofs.Text.Pair

/-!
# Layouts and the macros of a text

A layout is well-formed when each macro of it opens at the first doubled brace and closes at the first doubled brace behind
that, and no macro is left in its tail. The layout of a text is well-formed (`wellFormed_ofText`) and the only well-formed
one with its characters (`WellFormed.ofText_text`). The macros of a document are the pieces of its layout, one by one
(`kinds_ofContent`), and stand at increasing positions (`pairwise_offset_ofContent`).
-/

namespace PromptMacros

open Text

/-- The macro of a piece opens and closes at the first places where it can. -/
structure Piece.Tight (p : Piece) : Prop where
  gap : cutPair '{' (p.gap ++ ['{']) = none
  body : cutPair '}' (p.body ++ ['}']) = none

/-- The first macro of a text is the one of a tight piece at its start. -/
theorem cutMacro_eq_some_iff {cs gap body rest : List Char} :
    cutMacro cs = some (gap, body, rest) ↔ cs = Piece.text ⟨gap, body⟩ ++ rest ∧ Piece.Tight ⟨gap, body⟩ := by
  constructor
  · intro h
    refine ⟨eq_of_cutMacro_eq_some h, ?_⟩
    obtain ⟨⟨g, opened⟩, hg, h⟩ := Option.bind_eq_some_iff.mp h
    obtain ⟨⟨b, r⟩, hb, h⟩ := Option.bind_eq_some_iff.mp h
    obtain ⟨rfl, rfl, rfl⟩ : g = gap ∧ b = body ∧ r = rest := by simpa using h
    exact ⟨cutPair_snoc_eq_none hg, cutPair_snoc_eq_none hb⟩
  · rintro ⟨rfl, hgap, hbody⟩
    have htext : Piece.text ⟨gap, body⟩ ++ rest = gap ++ '{' :: '{' :: (body ++ '}' :: '}' :: rest) := by
      simp [Piece.text, Piece.full, braced]
    rw [cutMacro, htext, cutPair_append_of_eq_none hgap]
    simp only [Option.bind_eq_bind, Option.bind_some, cutPair_append_of_eq_none hbody, Option.pure_def]

namespace Layout

/-- Every macro of a layout opens and closes at the first places where it can, and its tail has no macro. -/
structure WellFormed (l : Layout) : Prop where
  pieces : ∀ p ∈ l.pieces, p.Tight
  tail : cutMacro l.tail = none

/-- The layout of a text is well-formed. -/
theorem wellFormed_ofText (cs : List Char) : (ofText cs).WellFormed := by
  fun_induction ofText cs with
  | case1 cs h => exact ⟨by simp, h⟩
  | case2 cs gap body rest h l ih =>
    exact ⟨List.forall_mem_cons.mpr ⟨(cutMacro_eq_some_iff.mp h).2, ih.pieces⟩, ih.tail⟩

/-- A well-formed layout is the layout of its text. -/
theorem WellFormed.ofText_text {l : Layout} (h : l.WellFormed) : ofText l.text = l := by
  obtain ⟨pieces, tail⟩ := l
  induction pieces with
  | nil => exact ofText_of_cutMacro_eq_none h.tail
  | cons p pieces ih =>
    obtain ⟨hp, hpieces⟩ := List.forall_mem_cons.mp h.pieces
    have htext : text ⟨p :: pieces, tail⟩ = p.text ++ text ⟨pieces, tail⟩ := by simp [text]
    rw [htext, ofText_of_cutMacro_eq_some (cutMacro_eq_some_iff.mpr ⟨rfl, hp⟩), ih ⟨hpieces, h.tail⟩]

/-- Only a text without macros has no pieces. -/
theorem pieces_ofText_eq_nil_iff {cs : List Char} : (ofText cs).pieces = [] ↔ cutMacro cs = none := by
  cases h : cutMacro cs with
  | none => rw [ofText_of_cutMacro_eq_none h, iff_of_true rfl rfl]
  | some cut =>
    obtain ⟨gap, body, rest⟩ := cut
    simp [ofText_of_cutMacro_eq_some h]

end Layout

/-! ## Positions -/

/-- The braces of a macro are two bytes before its body and two behind it. -/
theorem byteLength_braced (body : List Char) : byteLength (braced body) = 2 + byteLength body + 2 := by
  rw [braced, byteLength_append, byteLength_cons, byteLength_cons, ← Nat.add_assoc]
  rfl

namespace Piece

/-- Locating pieces keeps them and their order. -/
theorem map_snd_located (offset : Nat) (ps : List Piece) : (located offset ps).map Prod.snd = ps := by
  induction ps generalizing offset with
  | nil => rfl
  | cons p ps ih => rw [located, List.map_cons, ih]

/-- No macro stands before the start. -/
theorem le_of_mem_located {offset : Nat} {ps : List Piece} {entry : Nat × Piece} (h : entry ∈ located offset ps) :
    offset ≤ entry.1 := by
  induction ps generalizing offset with
  | nil => cases h
  | cons p ps ih =>
    rcases List.mem_cons.mp h with rfl | h
    · exact Nat.le_add_right ..
    · exact Nat.le_of_add_right_le (ih h)

/-- Later macros stand at later positions. -/
theorem pairwise_located (offset : Nat) (ps : List Piece) :
    (located offset ps).Pairwise fun a b => a.1 < b.1 := by
  induction ps generalizing offset with
  | nil => exact .nil
  | cons p ps ih =>
    refine List.pairwise_cons.mpr ⟨fun entry h => ?_, ih _⟩
    have hle := le_of_mem_located h
    have hlen : byteLength p.gap < byteLength p.text := by
      have := Char.utf8Size_pos '{'
      simp [text, full, braced]
      omega
    omega

end Piece

/-! ## The macros of a document -/

namespace Macro

/-- The macros of a document are the pieces of its layout at their positions. -/
theorem ofContent_eq_map (document content : String) :
    ofContent document content =
      (Piece.located 0 (Layout.ofText content.toList).pieces).map fun (offset, p) =>
        ofToken document (Token.ofBody offset p.body) := by
  rw [ofContent, ← Layout.tokens_ofText, Layout.tokens, List.map_map]
  rfl

/-- The kinds of the macros of a document are those of the pieces of its layout. -/
theorem kinds_ofContent (document content : String) :
    (ofContent document content).map kind =
      (Layout.ofText content.toList).pieces.map fun p => Kind.classify (trim p.body) := by
  rw [ofContent_eq_map, ← Piece.map_snd_located 0 (Layout.ofText content.toList).pieces, List.map_map, List.map_map,
    Piece.map_snd_located]
  rfl

/-- The variable names of a text are those that the macros of a document with this text have. -/
theorem mem_variableNames_iff_exists (document : String) {content name : String} :
    name ∈ variableNames content ↔ ∃ m ∈ ofContent document content, m.varName? = some name := by
  rw [mem_variableNames_iff]
  simp only [ofContent, List.mem_map, exists_exists_and_eq_and]
  rfl

/-- Later macros of a document stand at later positions. -/
theorem pairwise_offset_ofContent (document content : String) :
    (ofContent document content).Pairwise fun a b => a.id.offset < b.id.offset := by
  rw [ofContent_eq_map, List.pairwise_map]
  exact Piece.pairwise_located 0 _

end Macro

end PromptMacros
