import Mathlib.Logic.Function.Iterate
import PromptMacros.Proofs.Macro.Layout

/-!
# The leftmost decomposition of a text

A layout is leftmost when each macro of it opens and closes at the first place where it can, and no place of its tail that
opens a macro has one behind it that closes it; these are the well-formed layouts (`leftmost_iff_wellFormed`). A text has
exactly one leftmost layout. The calls of a scanner find the macros of this layout, one a call, and nothing from then on
(`Scanner.call?_next?`), and a document has the same macros, with increasing identities (`existsUnique_leftmost_reported`).
-/

namespace PromptMacros

open Text

/-! ## Leftmost layouts -/

/-- Every macro of a layout opens and closes at the first place where it can, and its tail has no macro. -/
structure Layout.Leftmost (l : Layout) : Prop where
  opens : ∀ p ∈ l.pieces, FirstPairAt '{' (p.gap ++ ['{', '{']) p.gap.length
  closes : ∀ p ∈ l.pieces, FirstPairAt '}' (p.body ++ ['}', '}']) p.body.length
  tail : ¬∃ i j, i + 2 ≤ j ∧ PairAt '{' l.tail i ∧ PairAt '}' l.tail j

/-- A text has no macro exactly when nowhere in it closing braces stand behind opening ones. -/
theorem cutMacro_eq_none_iff {cs : List Char} :
    cutMacro cs = none ↔ ¬∃ i j, i + 2 ≤ j ∧ PairAt '{' cs i ∧ PairAt '}' cs j := by
  rw [← exists_cutPair_iff, cutMacro]
  cases hopen : cutPair '{' cs with
  | none => simp
  | some cut =>
    obtain ⟨gap, opened⟩ := cut
    cases hclose : cutPair '}' opened <;> simp [hclose]

/-- The leftmost layouts are the well-formed ones. -/
theorem Layout.leftmost_iff_wellFormed {l : Layout} : l.Leftmost ↔ l.WellFormed := by
  constructor
  · intro h
    exact ⟨fun p hp => ⟨firstPairAt_iff.mp (h.opens p hp), firstPairAt_iff.mp (h.closes p hp)⟩,
      cutMacro_eq_none_iff.mpr h.tail⟩
  · intro h
    exact ⟨fun p hp => firstPairAt_iff.mpr (h.pieces p hp).gap, fun p hp => firstPairAt_iff.mpr (h.pieces p hp).body,
      cutMacro_eq_none_iff.mp h.tail⟩

/-! ## Calls of a scanner -/

namespace Scanner

/-- A macro as a scanner yields it to a loop, without its range. -/
structure Item where
  full : List Char
  inner : List Char
  offset : Nat
  deriving DecidableEq, Repr

/-- The next macro without its range, and the scanner behind it. -/
def nextItem? (s : Scanner) : Option Item × Scanner :=
  let (token?, s') := s.next?
  (token?.map fun t => ⟨t.full, t.inner, t.offset⟩, s')

/-- What the call with this number finds, when every call goes on where the one before it stopped. -/
def call? {α : Type} (next : Scanner → Option α × Scanner) (s : Scanner) (i : Nat) : Option α :=
  (next ((fun s => (next s).2)^[i] s)).1

variable {α : Type} {next : Scanner → Option α × Scanner}

theorem call?_zero (s : Scanner) : call? next s 0 = (next s).1 := rfl

theorem call?_succ (s : Scanner) (i : Nat) : call? next s (i + 1) = call? next (next s).2 i := rfl

/-- The calls of a scanner find its macros, one after another, and then nothing. -/
theorem call?_next? (s : Scanner) (i : Nat) : call? next? s i = s.tokens[i]? := by
  induction i generalizing s with
  | zero =>
    rw [call?_zero]
    cases hnext : s.next? with
    | mk token? s' =>
      cases token? with
      | none => rw [tokens_of_next?_eq_none hnext]; rfl
      | some t => rw [tokens_of_next?_eq_some hnext]; rfl
  | succ i ih =>
    rw [call?_succ, ih]
    cases hnext : s.next? with
    | mk token? s' =>
      cases token? with
      | none =>
        rw [eq_spent_of_next?_eq_none hnext, tokens_of_next?_eq_none (next?_spent s), tokens_of_next?_eq_none hnext]
        rfl
      | some t => rw [tokens_of_next?_eq_some hnext]; rfl

/-- A loop over a scanner gets the macros that the calls of the scanner find. -/
theorem call?_nextItem? (s : Scanner) (i : Nat) :
    call? nextItem? s i = (call? next? s i).map fun t => ⟨t.full, t.inner, t.offset⟩ := by
  induction i generalizing s with
  | zero => rfl
  | succ i ih => exact ih s.next?.2

end Scanner

/-! ## The walk over a text -/

/-- The pieces of a list are located behind those before them. -/
theorem Piece.getElem?_located (offset : Nat) (ps : List Piece) (i : Nat) :
    (located offset ps)[i]? =
      ps[i]?.map fun p => (offset + byteLength ((ps.take i).flatMap text ++ p.gap), p) := by
  induction ps generalizing offset i with
  | nil => rfl
  | cons p ps ih =>
    cases i with
    | zero => rfl
    | succ i =>
      rw [located, List.getElem?_cons_succ, List.getElem?_cons_succ, ih]
      simp [Nat.add_assoc]

/-- The characters of a layout are those before a piece, its macro and those behind it. -/
theorem Layout.text_eq_of_getElem? {l : Layout} {i : Nat} {p : Piece} (h : l.pieces[i]? = some p) :
    l.text = ((l.pieces.take i).flatMap Piece.text ++ p.gap) ++ p.full ++
      ((l.pieces.drop (i + 1)).flatMap Piece.text ++ l.tail) := by
  obtain ⟨hi, rfl⟩ := List.getElem?_eq_some_iff.mp h
  have hsplit : l.pieces.flatMap Piece.text =
      (l.pieces.take i).flatMap Piece.text ++ (l.pieces[i].text ++ (l.pieces.drop (i + 1)).flatMap Piece.text) := by
    conv_lhs => rw [← List.take_append_drop i l.pieces, List.drop_eq_getElem_cons hi]
    rw [List.flatMap_append, List.flatMap_cons]
  rw [text, hsplit]
  simp [Piece.text]

/-- The token reports the macro of this piece of the layout as it stands in the text, with the bytes where it stands. -/
structure Token.IsTokenOf (t : Token) (l : Layout) (i : Nat) (p : Piece) : Prop where
  full : t.full = braced p.body
  inner : t.inner = trim p.body
  start : t.range.start = byteLength ((l.pieces.take i).flatMap Piece.text ++ p.gap)
  stop : t.range.stop = byteLength ((l.pieces.take i).flatMap Piece.text ++ p.gap ++ braced p.body)
  slice : slice? l.text t.range = some t.full
  offset : t.offset = t.range.start

/-- The macros of a layout stand in its text where its pieces do. -/
theorem Layout.exists_isTokenOf {l : Layout} {i : Nat} {p : Piece} (h : l.pieces[i]? = some p) :
    ∃ t, l.tokens[i]? = some t ∧ t.IsTokenOf l i p := by
  have hstart : 0 + byteLength ((l.pieces.take i).flatMap Piece.text ++ p.gap) =
      byteLength ((l.pieces.take i).flatMap Piece.text ++ p.gap) := Nat.zero_add _
  refine ⟨Token.ofBody (byteLength ((l.pieces.take i).flatMap Piece.text ++ p.gap)) p.body, ?_, rfl, rfl, rfl, ?_, ?_, rfl⟩
  · rw [tokens, List.getElem?_map, Piece.getElem?_located, h, Option.map_some, hstart]
    rfl
  · exact (byteLength_append _ (braced p.body)).symm
  · rw [text_eq_of_getElem? h]
    exact slice?_append ..

/-- A layout has as many macros as pieces. -/
theorem Layout.length_tokens (l : Layout) : l.tokens.length = l.pieces.length := by
  have hlocated := congrArg List.length (Piece.map_snd_located 0 l.pieces)
  rw [List.length_map] at hlocated
  rw [tokens, List.length_map, hlocated]

/-- Later macros of a document have greater identities. -/
theorem Macro.pairwise_id_ofContent (document content : String) :
    (ofContent document content).Pairwise fun a b => compare a.id b.id = .lt := by
  refine (pairwise_offset_ofContent document content).imp_of_mem ?_
  intro a b ha hb h
  change (compare a.id.document b.id.document).then (compare a.id.offset b.id.offset) = .lt
  rw [document_of_mem_ofContent ha, document_of_mem_ofContent hb, Std.ReflOrd.compare_self]
  exact Nat.compare_eq_lt.mpr h

/-- What a scanner and a document report of a text with this layout. -/
structure Layout.Reported (l : Layout) (content : String) (tokens : List Token) : Prop where
  /-- There is one macro for each piece of the layout. -/
  length : tokens.length = l.pieces.length
  token : ∀ i p, l.pieces[i]? = some p → ∃ t : Token, tokens[i]? = some t ∧ t.IsTokenOf l i p
  /-- The calls of a scanner find the macros one by one, and then nothing for ever. -/
  calls : ∀ i, Scanner.call? Scanner.next? (Scanner.ofText content.toList) i = tokens[i]?
  /-- A loop over a scanner gets the same macros. -/
  items : ∀ i, Scanner.call? Scanner.nextItem? (Scanner.ofText content.toList) i =
    tokens[i]?.map fun t => ⟨t.full, t.inner, t.offset⟩
  /-- A document with this content has the same macros. -/
  macros : ∀ document, Macro.ofContent document content = tokens.map fun t =>
    { id := ⟨document, t.offset⟩, full := String.ofList t.full, inner := String.ofList t.inner, range := t.range,
      kind := Kind.classify t.inner }
  /-- The identities of its macros increase, so no two are equal. -/
  increasing : ∀ document, (Macro.ofContent document content).Pairwise fun a b => compare a.id b.id = .lt
  distinct : ∀ document, ((Macro.ofContent document content).map Macro.id).Nodup

/-- The macros reported of a text are those of its layout. -/
theorem Layout.reported_ofText (content : String) :
    (ofText content.toList).Reported content (Token.ofText content.toList) := by
  have hcalls : ∀ i, Scanner.call? Scanner.next? (Scanner.ofText content.toList) i = (Token.ofText content.toList)[i]? :=
    Scanner.call?_next? _
  refine ⟨?_, fun i p hp => ?_, hcalls, fun i => ?_, fun document => rfl, fun document => ?_, fun document => ?_⟩
  · rw [← tokens_ofText, length_tokens]
  · rw [← tokens_ofText]
    exact exists_isTokenOf hp
  · rw [Scanner.call?_nextItem?, hcalls]
  · exact Macro.pairwise_id_ofContent document content
  · refine List.pairwise_map.mpr ((Macro.pairwise_offset_ofContent document content).imp ?_)
    intro a b h hid
    exact Nat.ne_of_lt h (congrArg MacroId.offset hid)

/-- A text has one leftmost layout, and the macros reported of the text are those of this layout. -/
theorem existsUnique_leftmost_reported (content : String) :
    ∃ l : Layout, (l.text = content.toList ∧ l.Leftmost) ∧
      (∀ l' : Layout, l'.text = content.toList → l'.Leftmost → l' = l) ∧
      l.Reported content (Token.ofText content.toList) := by
  refine ⟨Layout.ofText content.toList, ⟨Layout.text_ofText _, ?_⟩, ?_, Layout.reported_ofText content⟩
  · exact Layout.leftmost_iff_wellFormed.mpr (Layout.wellFormed_ofText _)
  · intro l htext hl
    rw [← htext, (Layout.leftmost_iff_wellFormed.mp hl).ofText_text]

end PromptMacros
