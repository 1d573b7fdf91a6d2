import PromptMacros.Proofs.Macro.Decomposition
import PromptMacros.Proofs.Text.Utf8

/-!
# Scanning bytes

The macros of a text are looked for among its bytes, by the bytes of the braces, and taken out of the text between the
positions found (`ByteScan.next?`, `MacroBounds.token?`). Since the bytes of braces stand in no other character, a walk over
the bytes of a text stays among them and finds the pieces of its layout (`walk?_utf8`). The bounds found lie in the text, in
their order, and none of them cuts a character (`within_of_mem_macroBounds`, `pairwise_macroBounds`); between them stand the
macros of the text (`map_token?_macroBounds`).
-/

namespace PromptMacros

open Text

/-- Where a macro stands in a text: its opening braces, its body, the end of its body and its own end. -/
structure MacroBounds where
  opening : Nat
  bodyStart : Nat
  bodyEnd : Nat
  stop : Nat
  deriving DecidableEq, Repr

namespace MacroBounds

/-- The range of the macro. -/
def full (b : MacroBounds) : ByteRange :=
  ⟨b.opening, b.stop⟩

/-- The range of its body. -/
def body (b : MacroBounds) : ByteRange :=
  ⟨b.bodyStart, b.bodyEnd⟩

/-- The bounds of the macro with the given body whose opening braces stand at `opening`. -/
def ofBody (opening : Nat) (body : List Char) : MacroBounds :=
  ⟨opening, opening + 2, opening + 2 + byteLength body, opening + 2 + byteLength body + 2⟩

/-- The macro between these bounds of a text; nothing when it cannot be taken out of the text. -/
def token? (text : String) (b : MacroBounds) : Option Token := do
  let full ← slice? text.toList b.full
  let body ← slice? text.toList b.body
  pure ⟨full, trim body, b.full⟩

end MacroBounds

namespace ByteScan

/-- The bytes from a position on; nothing when the position is beyond their end. -/
def bytesFrom? (bytes : List UInt8) (position : Nat) : Option (List UInt8) :=
  if position ≤ bytes.length then some (bytes.drop position) else none

/-- The bounds of the next macro from a position on, if there is one, and the position behind it, or else at the end of the bytes;
nothing when bytes beyond the end had to be looked at. -/
def next? (bytes : List UInt8) (position : Nat) : Option (Option MacroBounds × Nat) :=
  if bytes.length ≤ position then some (none, position)
  else do
    let rest ← bytesFrom? bytes position
    match findPair '{'.toUInt8 rest with
    | none => pure (none, bytes.length)
    | some gap =>
      let opening := position + gap
      let opened ← bytesFrom? bytes (opening + 2)
      match findPair '}'.toUInt8 opened with
      | none => pure (none, bytes.length)
      | some body =>
        let stop := opening + 2 + body + 2
        pure (some ⟨opening, opening + 2, opening + 2 + body, stop⟩, stop)

/-- A macro is found before the end of the bytes, and the walk goes on behind it. -/
theorem lt_of_next?_eq_some {bytes : List UInt8} {position position' : Nat} {b : MacroBounds}
    (h : next? bytes position = some (some b, position')) : position < bytes.length ∧ position < position' := by
  unfold next? at h
  split at h
  · cases h
  · next hlt =>
    refine ⟨Nat.lt_of_not_le hlt, ?_⟩
    obtain ⟨rest, -, h⟩ := Option.bind_eq_some_iff.mp h
    split at h
    · cases h
    · obtain ⟨opened, -, h⟩ := Option.bind_eq_some_iff.mp h
      split at h
      · cases h
      · obtain ⟨-, rfl⟩ := Prod.mk.inj (Option.some.inj h)
        omega

/-- The bounds of the macros from a position on; nothing when bytes beyond the end had to be looked at. -/
def walk? (bytes : List UInt8) (position : Nat) : Option (List MacroBounds) :=
  match _h : next? bytes position with
  | none => none
  | some (none, _) => some []
  | some (some b, position') => (walk? bytes position').map (b :: ·)
termination_by bytes.length - position
decreasing_by
  have := lt_of_next?_eq_some _h
  omega

/-! ## The pieces of a layout -/

/-- The bytes from the end of the first part of a text on are those of the rest. -/
theorem bytesFrom?_utf8_append (before cs : List Char) :
    bytesFrom? (utf8 (before ++ cs)) (byteLength before) = some (utf8 cs) := by
  have hle : byteLength before ≤ (utf8 (before ++ cs)).length := by
    rw [length_utf8, byteLength_append]
    exact Nat.le_add_right ..
  rw [bytesFrom?, if_pos hle, drop_utf8_append]

/-- The bytes behind opening braces are those of the text behind them. -/
theorem bytesFrom?_of_cutPair {cs gap opened : List Char} (h : cutPair '{' cs = some (gap, opened)) (before : List Char) :
    bytesFrom? (utf8 (before ++ cs)) (byteLength before + byteLength gap + 2) = some (utf8 opened) := by
  have htext : before ++ cs = (before ++ gap ++ ['{', '{']) ++ opened := by
    rw [eq_of_cutPair_eq_some h]
    simp
  have hlength : byteLength before + byteLength gap + 2 = byteLength (before ++ gap ++ ['{', '{']) := by
    rw [byteLength_append, byteLength_append]
    rfl
  rw [htext, hlength, bytesFrom?_utf8_append]

/-- No macro is found where none is left. -/
theorem next?_of_cutMacro_eq_none {cs : List Char} (h : cutMacro cs = none) (before : List Char) :
    next? (utf8 (before ++ cs)) (byteLength before) = some (none, byteLength (before ++ cs)) := by
  unfold next?
  rw [length_utf8]
  split
  · next hle =>
    rw [byteLength_append] at hle
    have hcs : byteLength cs = 0 := by omega
    rw [byteLength_append, hcs, Nat.add_zero]
  · rw [bytesFrom?_utf8_append]
    simp only [Option.bind_eq_bind, Option.bind_some]
    rw [findPair_utf8 (by decide)]
    cases hopen : cutPair '{' cs with
    | none => rfl
    | some cut =>
      obtain ⟨gap, opened⟩ := cut
      have hclose : cutPair '}' opened = none := by
        cases hclose : cutPair '}' opened with
        | none => rfl
        | some cut => simp [cutMacro, hopen, hclose] at h
      simp only [Option.map_some]
      rw [bytesFrom?_of_cutPair hopen, Option.bind_some, findPair_utf8 (by decide), hclose]
      rfl

/-- The first macro that is left is found, and the walk goes on behind it. -/
theorem next?_of_cutMacro_eq_some {cs gap body rest : List Char} (h : cutMacro cs = some (gap, body, rest))
    (before : List Char) :
    next? (utf8 (before ++ cs)) (byteLength before) =
      some (some (.ofBody (byteLength before + byteLength gap) body), byteLength (before ++ Piece.text ⟨gap, body⟩)) := by
  obtain ⟨⟨g, opened⟩, hopen, h⟩ := Option.bind_eq_some_iff.mp h
  obtain ⟨⟨b, r⟩, hclose, h⟩ := Option.bind_eq_some_iff.mp h
  obtain ⟨rfl, rfl, rfl⟩ : g = gap ∧ b = body ∧ r = rest := by simpa using h
  have hlt : ¬byteLength (before ++ cs) ≤ byteLength before := by
    have := Char.utf8Size_pos '{'
    rw [eq_of_cutPair_eq_some hopen]
    simp
    omega
  have hstop : byteLength (before ++ Piece.text ⟨g, b⟩) = byteLength before + byteLength g + 2 + byteLength b + 2 := by
    rw [Piece.text, Piece.full, byteLength_append, byteLength_append, byteLength_braced]
    dsimp only
    omega
  unfold next?
  rw [length_utf8, if_neg hlt, bytesFrom?_utf8_append]
  simp only [Option.bind_eq_bind, Option.bind_some]
  rw [findPair_utf8 (by decide), hopen]
  simp only [Option.map_some]
  rw [bytesFrom?_of_cutPair hopen, Option.bind_some, findPair_utf8 (by decide), hclose, hstop]
  rfl

/-- Where nothing more is found the walk ends. -/
theorem walk?_of_next?_eq_none {bytes : List UInt8} {position position' : Nat}
    (h : next? bytes position = some (none, position')) : walk? bytes position = some [] := by
  rw [walk?]
  split
  · next h' => rw [h] at h'; cases h'
  · rfl
  · next h' => rw [h] at h'; cases h'

/-- The macros of a walk are the next one and those found behind it. -/
theorem walk?_of_next?_eq_some {bytes : List UInt8} {position position' : Nat} {b : MacroBounds}
    (h : next? bytes position = some (some b, position')) :
    walk? bytes position = (walk? bytes position').map (b :: ·) := by
  rw [walk?]
  split
  · next h' => rw [h] at h'; cases h'
  · next h' => rw [h] at h'; cases h'
  · next h' =>
    rw [h] at h'
    cases h'
    rfl

/-- A walk over the bytes of a text finds the macros of the layout of what it has left. -/
theorem walk?_utf8_append (before cs : List Char) :
    walk? (utf8 (before ++ cs)) (byteLength before) =
      some ((Piece.located (byteLength before) (Layout.ofText cs).pieces).map fun (offset, p) => .ofBody offset p.body) := by
  fun_induction Layout.ofText cs generalizing before with
  | case1 cs h => exact walk?_of_next?_eq_none (next?_of_cutMacro_eq_none h before)
  | case2 cs gap body rest h l ih =>
    have htext : before ++ cs = (before ++ Piece.text ⟨gap, body⟩) ++ rest := by
      rw [eq_of_cutMacro_eq_some h, ← List.append_assoc]
      rfl
    rw [walk?_of_next?_eq_some (next?_of_cutMacro_eq_some h before), htext, ih, byteLength_append]
    rfl

end ByteScan

/-! ## The macros of a text -/

/-- A piece of a layout stands in its text where it is located. -/
theorem Layout.text_eq_of_mem_located {l : Layout} {entry : Nat × Piece} (h : entry ∈ Piece.located 0 l.pieces) :
    ∃ before after, l.text = before ++ entry.2.full ++ after ∧ entry.1 = byteLength before := by
  obtain ⟨i, hi⟩ := List.mem_iff_getElem?.mp h
  rw [Piece.getElem?_located] at hi
  obtain ⟨p, hp, rfl⟩ := Option.map_eq_some_iff.mp hi
  exact ⟨_, _, text_eq_of_getElem? hp, Nat.zero_add _⟩

/-- A macro of a layout ends before the next one opens. -/
theorem Piece.pairwise_located_stop (offset : Nat) (ps : List Piece) :
    (located offset ps).Pairwise fun a b => a.1 + byteLength a.2.full ≤ b.1 := by
  induction ps generalizing offset with
  | nil => exact .nil
  | cons p ps ih =>
    refine List.pairwise_cons.mpr ⟨fun entry h => ?_, ih _⟩
    have hle := le_of_mem_located h
    rw [text, byteLength_append] at hle
    dsimp only
    omega

namespace MacroBounds

/-- The bounds of a macro lie in a text, in their order, and none of them cuts a character. -/
structure Within (text : String) (b : MacroBounds) : Prop where
  full : Sliceable text b.full
  body : Sliceable text b.body
  opens : b.opening < b.bodyStart
  closes : b.bodyEnd < b.stop
  inside : b.stop ≤ text.utf8ByteSize

variable {text : String} {before body after : List Char}

/-- The range of the body of a macro in a text. -/
theorem body_ofBody (htext : text.toList = before ++ braced body ++ after) :
    text.toList = (before ++ ['{', '{']) ++ body ++ (['}', '}'] ++ after) ∧
      (ofBody (byteLength before) body).body =
        ⟨byteLength (before ++ ['{', '{']), byteLength (before ++ ['{', '{']) + byteLength body⟩ := by
  rw [htext, byteLength_append]
  exact ⟨by simp [braced], rfl⟩

/-- The range of a macro in a text. -/
theorem full_ofBody (offset : Nat) (body : List Char) :
    (ofBody offset body).full = ⟨offset, offset + byteLength (braced body)⟩ := by
  rw [byteLength_braced, ← Nat.add_assoc, ← Nat.add_assoc]
  rfl

/-- The bounds of a macro that stands in a text lie in the text. -/
theorem within_ofBody (htext : text.toList = before ++ braced body ++ after) :
    (ofBody (byteLength before) body).Within text := by
  have hfull : Sliceable text (ofBody (byteLength before) body).full :=
    Sliceable.iff_exists_append.mpr ⟨_, _, _, htext, full_ofBody ..⟩
  exact {
    full := hfull
    body := Sliceable.iff_exists_append.mpr ⟨_, _, _, body_ofBody htext⟩
    opens := Nat.lt_add_of_pos_right (by decide)
    closes := Nat.lt_add_of_pos_right (by decide)
    inside := hfull.le_utf8ByteSize }

/-- A macro is taken out of a text between its bounds. -/
theorem token?_ofBody (htext : text.toList = before ++ braced body ++ after) :
    (ofBody (byteLength before) body).token? text = some (Token.ofBody (byteLength before) body) := by
  have hfull : slice? text.toList (ofBody (byteLength before) body).full = some (braced body) :=
    slice?_eq_some_iff.mpr ⟨_, _, htext, full_ofBody ..⟩
  have hbody : slice? text.toList (ofBody (byteLength before) body).body = some body :=
    slice?_eq_some_iff.mpr ⟨_, _, body_ofBody htext⟩
  rw [token?, hfull, hbody, full_ofBody]
  rfl

end MacroBounds

/-- The bounds of the macros of a text. -/
def macroBounds (text : String) : List MacroBounds :=
  (Piece.located 0 (Layout.ofText text.toList).pieces).map fun (offset, p) => .ofBody offset p.body

/-- A walk over the bytes of a text finds the bounds of its macros. -/
theorem walk?_utf8 (text : String) : ByteScan.walk? (utf8 text.toList) 0 = some (macroBounds text) :=
  ByteScan.walk?_utf8_append [] text.toList

/-- The bounds of a macro of a text are those of a body that stands in it. -/
theorem exists_append_of_mem_macroBounds {text : String} {b : MacroBounds} (h : b ∈ macroBounds text) :
    ∃ before body after, text.toList = before ++ braced body ++ after ∧ b = .ofBody (byteLength before) body := by
  obtain ⟨⟨offset, p⟩, hentry, rfl⟩ := List.mem_map.mp h
  obtain ⟨before, after, htext, rfl⟩ := Layout.text_eq_of_mem_located hentry
  rw [Layout.text_ofText] at htext
  exact ⟨before, p.body, after, htext, rfl⟩

/-- Between the bounds stand the macros of the text. -/
theorem map_token?_macroBounds (text : String) :
    (macroBounds text).map (MacroBounds.token? text) = (Token.ofText text.toList).map some := by
  rw [← Layout.tokens_ofText, Layout.tokens, macroBounds, List.map_map, List.map_map]
  refine List.map_congr_left fun entry hentry => ?_
  obtain ⟨before, after, htext, hbefore⟩ := Layout.text_eq_of_mem_located hentry
  rw [Layout.text_ofText] at htext
  obtain ⟨offset, p⟩ := entry
  obtain rfl := hbefore
  exact MacroBounds.token?_ofBody htext

/-- The bounds of a macro of a text lie in the text. -/
theorem within_of_mem_macroBounds {text : String} {b : MacroBounds} (h : b ∈ macroBounds text) : b.Within text := by
  obtain ⟨before, body, after, htext, rfl⟩ := exists_append_of_mem_macroBounds h
  exact MacroBounds.within_ofBody htext

/-- A macro of a text ends before the next one opens. -/
theorem pairwise_macroBounds (text : String) : (macroBounds text).Pairwise fun b b' => b.stop ≤ b'.opening := by
  rw [macroBounds, List.pairwise_map]
  refine (Piece.pairwise_located_stop 0 _).imp fun {entry entry'} h => ?_
  have hstop := congrArg ByteRange.stop (MacroBounds.full_ofBody entry.1 entry.2.body)
  exact Nat.le_trans (Nat.le_of_eq hstop) h

end PromptMacros
