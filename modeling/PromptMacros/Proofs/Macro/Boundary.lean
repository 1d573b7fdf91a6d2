import PromptMacros.Proofs.Macro.Layout

/-!
# Texts cut behind a macro

A text that is cut where one of its macros ends falls into two texts with layouts of their own: the pieces up to the cut, with
nothing behind them, and the pieces and the tail that follow (`exists_ofText_append`). So scanning the text finds what scanning the
first part finds, and then what scanning the second finds, with the bytes of the first before it (`Token.ofText_append`); and the
macros of a document with the whole text are those of two documents with the parts (`Macro.ofContent_append`).
-/

namespace PromptMacros

open Text

/-- A text may be cut between its parts: the first is empty, or ends where a macro of the text ends. -/
def Token.Boundary (before after : List Char) : Prop :=
  before = [] ∨ ∃ t ∈ Token.ofText (before ++ after), t.range.stop = byteLength before

instance (before after : List Char) : Decidable (Token.Boundary before after) :=
  inferInstanceAs (Decidable (_ ∨ ∃ t ∈ _, _))

/-- The token with `n` bytes more before it. -/
def Token.moved (n : Nat) (t : Token) : Token :=
  { t with range := ⟨n + t.range.start, n + t.range.stop⟩ }

theorem Token.moved_ofBody (n offset : Nat) (body : List Char) : (ofBody offset body).moved n = ofBody (n + offset) body := by
  simp [moved, ofBody, Nat.add_assoc]

/-- The macro of another document, with `n` bytes more before it. -/
def Macro.movedTo (document : String) (n : Nat) (m : Macro) : Macro :=
  { m with id := ⟨document, n + m.id.offset⟩, range := ⟨n + m.range.start, n + m.range.stop⟩ }

namespace Piece

/-! ## Places of pieces -/

/-- Behind some pieces others stand where they would behind the characters of those. -/
theorem located_append (offset : Nat) (ps qs : List Piece) :
    located offset (ps ++ qs) = located offset ps ++ located (offset + byteLength (ps.flatMap text)) qs := by
  induction ps generalizing offset with
  | nil => rfl
  | cons p ps ih => simp [located, ih, Nat.add_assoc]

/-- Pieces that start later stand later, all by as much. -/
theorem located_add (n offset : Nat) (ps : List Piece) :
    located (n + offset) ps = (located offset ps).map fun entry => (n + entry.1, entry.2) := by
  induction ps generalizing offset with
  | nil => rfl
  | cons p ps ih => simp [located, ← ih, Nat.add_assoc]

/-- The macro of a piece ends behind the characters of the pieces up to its own. -/
theorem exists_append_of_mem_located {offset : Nat} {ps : List Piece} {entry : Nat × Piece} (h : entry ∈ located offset ps) :
    ∃ front back, ps = front ++ back ∧ entry.1 + byteLength entry.2.full = offset + byteLength (front.flatMap text) := by
  induction ps generalizing offset with
  | nil => cases h
  | cons p ps ih =>
    rcases List.mem_cons.mp h with rfl | h
    · exact ⟨[p], ps, rfl, by simp [text, Nat.add_assoc]⟩
    · obtain ⟨front, back, rfl, hstop⟩ := ih h
      exact ⟨p :: front, back, rfl, by simp [hstop, Nat.add_assoc]⟩

end Piece

/-! ## Parts of a text -/

/-- The layout of a text that is cut behind a macro is that of its first part, which has no tail, and behind it that of the
second. -/
theorem Layout.exists_ofText_append {xs ys : List Char} (h : Token.Boundary xs ys) :
    ∃ ps qs tail, ofText xs = ⟨ps, []⟩ ∧ ofText ys = ⟨qs, tail⟩ ∧ ofText (xs ++ ys) = ⟨ps ++ qs, tail⟩ ∧
      ps.flatMap Piece.text = xs := by
  -- The pieces up to the cut have as many bytes as the first part.
  obtain ⟨ps, qs, hpieces, hlength⟩ : ∃ ps qs, (ofText (xs ++ ys)).pieces = ps ++ qs ∧
      byteLength (ps.flatMap Piece.text) = byteLength xs := by
    rcases h with rfl | ⟨t, ht, hstop⟩
    · exact ⟨[], _, rfl, rfl⟩
    · rw [← tokens_ofText, tokens] at ht
      obtain ⟨entry, hentry, rfl⟩ := List.mem_map.mp ht
      obtain ⟨ps, qs, hpieces, hend⟩ := Piece.exists_append_of_mem_located hentry
      rw [Nat.zero_add] at hend
      exact ⟨ps, qs, hpieces, hend.symm.trans hstop⟩
  have hwhole : ofText (xs ++ ys) = ⟨ps ++ qs, (ofText (xs ++ ys)).tail⟩ := by rw [← hpieces]
  have hwell := wellFormed_ofText (xs ++ ys)
  have htext := text_ofText (xs ++ ys)
  generalize (ofText (xs ++ ys)).tail = tail at hwhole
  rw [hwhole] at hwell htext
  rw [text, List.flatMap_append, List.append_assoc] at htext
  obtain ⟨hfirst, hsecond⟩ := append_inj_of_byteLength_eq htext hlength
  refine ⟨ps, qs, tail, ?_, ?_, hwhole, hfirst⟩
  · have hps : WellFormed ⟨ps, []⟩ := ⟨fun p hp => hwell.pieces p (List.mem_append_left qs hp), rfl⟩
    have htext : text ⟨ps, []⟩ = xs := (List.append_nil _).trans hfirst
    rw [← htext, hps.ofText_text]
  · have hqs : WellFormed ⟨qs, tail⟩ := ⟨fun p hp => hwell.pieces p (List.mem_append_right ps hp), hwell.tail⟩
    have htext : text ⟨qs, tail⟩ = ys := hsecond
    rw [← htext, hqs.ofText_text]

/-- The macros of a text that is cut behind a macro are those of its parts, with the first part before those of the second. -/
theorem Token.ofText_append {xs ys : List Char} (h : Boundary xs ys) :
    ofText (xs ++ ys) = ofText xs ++ (ofText ys).map (moved (byteLength xs)) := by
  obtain ⟨ps, qs, tail, hfirst, hsecond, hwhole, htext⟩ := Layout.exists_ofText_append h
  have hmoved : Piece.located (0 + byteLength xs) qs =
      (Piece.located 0 qs).map fun entry => (byteLength xs + entry.1, entry.2) := by
    rw [Nat.zero_add]
    exact Piece.located_add (byteLength xs) 0 qs
  simp only [← Layout.tokens_ofText, Layout.tokens, hfirst, hsecond, hwhole, Piece.located_append, htext, hmoved, List.map_append,
    List.map_map, Function.comp_def, Token.moved_ofBody]

/-- The macros of a document whose content is cut behind a macro are those of documents with the parts. -/
theorem Macro.ofContent_append {first second : String} (h : Token.Boundary first.toList second.toList) (x y z : String) :
    ofContent x (first ++ second) =
      (ofContent y first).map (movedTo x 0) ++ (ofContent z second).map (movedTo x (byteLength first.toList)) := by
  rw [ofContent, String.toList_append, Token.ofText_append h, List.map_append, ofContent, ofContent, List.map_map, List.map_map,
    List.map_map]
  refine congrArg (· ++ _) (List.map_congr_left fun t _ => ?_)
  simp [ofToken, movedTo, Token.offset]

end PromptMacros
