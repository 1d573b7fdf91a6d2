import Mathlib.Data.List.Basic
import PromptMacros.Text.Bytes
import PromptMacros.Text.Pair

/-!
# The bytes of a text

A text in memory is the bytes of its characters one after another (`utf8`). A position is a boundary of the text when no
character is cut there, which shows in the byte that stands there (`String.Pos.Raw.isValid_iff_isUTF8FirstByte`); by the
characters it is the length of what stands before it (`isValid_iff_exists_append`). A range can be taken out of a text exactly
when its ends are boundaries in their order (`isSome_slice?_iff`), and its bytes are those of the characters in it
(`sliceBytes?_eq_map`). An ASCII character is one byte, which stands in no other character; so it is found doubled among the
bytes where it is found doubled among the characters (`findPair_utf8`).
-/

namespace PromptMacros.Text

/-! ## Bytes -/

/-- The bytes of a text in UTF-8. -/
def utf8 (cs : List Char) : List UInt8 :=
  cs.flatMap String.utf8EncodeChar

@[simp] theorem utf8_nil : utf8 [] = [] := rfl

@[simp] theorem utf8_cons (c : Char) (cs : List Char) : utf8 (c :: cs) = String.utf8EncodeChar c ++ utf8 cs :=
  List.flatMap_cons

@[simp] theorem utf8_append (xs ys : List Char) : utf8 (xs ++ ys) = utf8 xs ++ utf8 ys :=
  List.flatMap_append

/-- There are as many bytes as the characters are long. -/
@[simp] theorem length_utf8 (cs : List Char) : (utf8 cs).length = byteLength cs := by
  induction cs with
  | nil => rfl
  | cons c cs ih => rw [utf8_cons, List.length_append, String.length_utf8EncodeChar, ih, byteLength_cons]

/-- The bytes of a text are those in which it is stored. -/
theorem toByteArray_utf8 (text : String) : (utf8 text.toList).toByteArray = text.toByteArray :=
  String.utf8Encode_toList

/-- The bytes of characters are valid UTF-8. -/
theorem isValidUTF8_utf8 (cs : List Char) : (utf8 cs).toByteArray.IsValidUTF8 :=
  ByteArray.isValidUTF8_utf8Encode

/-- Dropping the bytes of the first part of a text leaves those of the rest. -/
theorem drop_utf8_append (before after : List Char) : (utf8 (before ++ after)).drop (byteLength before) = utf8 after := by
  rw [utf8_append, ← length_utf8, List.drop_left]

/-- The length of a text is the number of its bytes. -/
theorem byteLength_toList (text : String) : byteLength text.toList = text.utf8ByteSize := by
  rw [← length_utf8, ← String.size_toByteArray, ← toByteArray_utf8, List.size_toByteArray]

/-! ## Boundaries -/

/-- A position is a boundary of a text exactly when it is the length of what stands before it. -/
theorem isValid_iff_exists_append {text : String} {n : Nat} :
    (⟨n⟩ : String.Pos.Raw).IsValid text ↔ ∃ before after, text.toList = before ++ after ∧ n = byteLength before := by
  rw [String.Pos.Raw.isValid_iff_exists_append]
  constructor
  · rintro ⟨before, after, rfl, hn⟩
    refine ⟨before.toList, after.toList, String.toList_append, ?_⟩
    rw [byteLength_toList]
    exact congrArg String.Pos.Raw.byteIdx hn
  · rintro ⟨before, after, htext, rfl⟩
    refine ⟨String.ofList before, String.ofList after, ?_, ?_⟩
    · rw [← String.ofList_append, ← htext, String.ofList_toList]
    · rw [String.Pos.Raw.ext_iff, String.byteIdx_rawEndPos, ← byteLength_toList, String.toList_ofList]

/-- The ends of the range are boundaries of the text, in their order. -/
structure Sliceable (text : String) (r : ByteRange) : Prop where
  ordered : r.start ≤ r.stop
  start : (⟨r.start⟩ : String.Pos.Raw).IsValid text
  stop : (⟨r.stop⟩ : String.Pos.Raw).IsValid text

namespace Sliceable

variable {text : String} {r : ByteRange}

/-- A range that can be taken out of a text ends in the text. -/
theorem le_utf8ByteSize (h : Sliceable text r) : r.stop ≤ text.utf8ByteSize :=
  h.stop.le_utf8ByteSize

/-- A range can be taken out of a text exactly when it is that of a middle part. -/
theorem iff_exists_append : Sliceable text r ↔ ∃ before part after, text.toList = before ++ part ++ after ∧
    r = ⟨byteLength before, byteLength before + byteLength part⟩ := by
  constructor
  · rintro ⟨hordered, hstart, hstop⟩
    obtain ⟨before, rest, htext, hbefore⟩ := isValid_iff_exists_append.mp hstart
    obtain ⟨most, after, htext', hmost⟩ := isValid_iff_exists_append.mp hstop
    -- The shorter of two first parts of the text is a first part of the other.
    obtain ⟨part, rfl⟩ : before <+: most := by
      rcases List.prefix_or_prefix_of_prefix ⟨rest, htext.symm⟩ ⟨after, htext'.symm⟩ with h | ⟨part, rfl⟩
      · exact h
      · rw [byteLength_append] at hbefore
        have hpart : byteLength part = 0 := by omega
        obtain rfl := byteLength_eq_zero.mp hpart
        exact ⟨[], by simp⟩
    rw [byteLength_append] at hmost
    exact ⟨before, part, after, htext', ByteRange.mk.injEq .. ▸ ⟨hbefore, hmost⟩⟩
  · rintro ⟨before, part, after, htext, rfl⟩
    refine ⟨Nat.le_add_right .., isValid_iff_exists_append.mpr ⟨before, part ++ after, ?_, rfl⟩,
      isValid_iff_exists_append.mpr ⟨before ++ part, after, htext, (byteLength_append ..).symm⟩⟩
    rw [htext, List.append_assoc]

/-- The range of a middle part of a text can be taken out of it. -/
theorem of_append {before part after : List Char} (h : text.toList = before ++ part ++ after) :
    Sliceable text ⟨byteLength before, byteLength (before ++ part)⟩ :=
  iff_exists_append.mpr ⟨before, part, after, h, by rw [byteLength_append]⟩

instance : Decidable (Sliceable text r) :=
  decidable_of_iff (r.start ≤ r.stop ∧ (⟨r.start⟩ : String.Pos.Raw).IsValid text ∧ (⟨r.stop⟩ : String.Pos.Raw).IsValid text)
    ⟨fun h => ⟨h.1, h.2.1, h.2.2⟩, fun h => ⟨h.ordered, h.start, h.stop⟩⟩

end Sliceable

/-! ## Slices -/

/-- A slice is a middle part of the text. -/
theorem slice?_eq_some_iff {cs part : List Char} {r : ByteRange} : slice? cs r = some part ↔
    ∃ before after, cs = before ++ part ++ after ∧ r = ⟨byteLength before, byteLength before + byteLength part⟩ := by
  constructor
  · intro h
    obtain ⟨u, hguard, h⟩ := Option.bind_eq_some_iff.mp h
    obtain ⟨⟨before, rest⟩, hbefore, h⟩ := Option.bind_eq_some_iff.mp h
    obtain ⟨⟨part', after⟩, hpart, h⟩ := Option.bind_eq_some_iff.mp h
    obtain rfl := Option.some.inj h
    obtain ⟨rfl, hstart⟩ := cutAt_eq_some_iff.mp hbefore
    obtain ⟨rfl, hlength⟩ := cutAt_eq_some_iff.mp hpart
    have hordered : r.start ≤ r.stop := by
      by_contra hle
      rw [guard, if_neg hle] at hguard
      cases hguard
    refine ⟨before, after, (List.append_assoc ..).symm, ?_⟩
    obtain ⟨start, stop⟩ := r
    dsimp only at hstart hlength hordered
    rw [ByteRange.mk.injEq]
    omega
  · rintro ⟨before, after, rfl, rfl⟩
    exact slice?_append before part after

/-- A range can be taken out of a text exactly when its ends are boundaries in their order. -/
theorem isSome_slice?_iff {text : String} {r : ByteRange} : (slice? text.toList r).isSome ↔ Sliceable text r := by
  rw [Sliceable.iff_exists_append, Option.isSome_iff_exists]
  constructor
  · rintro ⟨part, h⟩
    obtain ⟨before, after, h⟩ := slice?_eq_some_iff.mp h
    exact ⟨before, part, after, h⟩
  · rintro ⟨before, part, after, h⟩
    exact ⟨part, slice?_eq_some_iff.mpr ⟨before, after, h⟩⟩

/-- The bytes of a text in a range; nothing when the ends of the range are not boundaries in their order. -/
def sliceBytes? (text : String) (r : ByteRange) : Option (List UInt8) :=
  if Sliceable text r then some (((utf8 text.toList).drop r.start).take (r.stop - r.start)) else none

/-- The bytes in a range are those of the characters in it. -/
theorem sliceBytes?_eq_map (text : String) (r : ByteRange) : sliceBytes? text r = (slice? text.toList r).map utf8 := by
  unfold sliceBytes?
  split
  · next h =>
    obtain ⟨part, hpart⟩ := Option.isSome_iff_exists.mp (isSome_slice?_iff.mpr h)
    obtain ⟨before, after, htext, rfl⟩ := slice?_eq_some_iff.mp hpart
    rw [hpart, Option.map_some, htext, List.append_assoc, drop_utf8_append, utf8_append, Nat.add_sub_cancel_left,
      ← length_utf8, List.take_left]
  · next h =>
    rw [← isSome_slice?_iff, Option.not_isSome_iff_eq_none] at h
    rw [h, Option.map_none]

/-- The bytes of a middle part of a text stand between the lengths of what is before its start and before its end. -/
theorem sliceBytes?_of_append {text : String} {before part after : List Char} (h : text.toList = before ++ part ++ after) :
    sliceBytes? text ⟨byteLength before, byteLength (before ++ part)⟩ = some (utf8 part) := by
  rw [sliceBytes?_eq_map, byteLength_append, h, slice?_append, Option.map_some]

/-! ## Doubled bytes -/

/-- The first position at which a byte stands twice in a row. -/
def findPair (b : UInt8) : List UInt8 → Option Nat
  | [] => none
  | a :: bytes => if a = b ∧ bytes.head? = some b then some 0 else (findPair b bytes).map (· + 1)

/-- A byte is not found doubled before its first occurrence. -/
theorem findPair_append_of_not_mem {b : UInt8} {front : List UInt8} (h : b ∉ front) (bytes : List UInt8) :
    findPair b (front ++ bytes) = (findPair b bytes).map (· + front.length) := by
  induction front with
  | nil => simp
  | cons a front ih =>
    obtain ⟨hne, hfront⟩ := List.ne_and_not_mem_of_not_mem_cons h
    rw [List.cons_append, findPair, if_neg fun hfound => hne hfound.1.symm, ih hfront, Option.map_map]
    rfl

/-- The bytes of a character that is not ASCII are none of ASCII. -/
theorem le_toNat_of_mem_utf8EncodeChar {a : Char} (ha : 128 ≤ a.toNat) {b : UInt8} (hb : b ∈ String.utf8EncodeChar a) :
    128 ≤ b.toNat := by
  have hbyte : ∀ n, 128 ≤ n → n < 256 → 128 ≤ (UInt8.ofNat n).toNat := by
    intro n hn hlt
    rwa [UInt8.toNat_ofNat_of_lt' hlt]
  have hlong : ¬a.val.toNat ≤ 127 := Nat.not_le_of_lt ha
  unfold String.utf8EncodeChar at hb
  dsimp only at hb
  rw [if_neg hlong] at hb
  -- Each byte is a mark of the place in the character and some bits of its number.
  split at hb
  · simp only [List.mem_cons, List.not_mem_nil, or_false] at hb
    rcases hb with rfl | rfl <;> exact hbyte _ (by omega) (by omega)
  · split at hb
    · simp only [List.mem_cons, List.not_mem_nil, or_false] at hb
      rcases hb with rfl | rfl | rfl <;> exact hbyte _ (by omega) (by omega)
    · simp only [List.mem_cons, List.not_mem_nil, or_false] at hb
      rcases hb with rfl | rfl | rfl | rfl <;> exact hbyte _ (by omega) (by omega)

/-- An ASCII character is one byte. -/
theorem utf8EncodeChar_of_lt {c : Char} (hc : c.toNat < 128) : String.utf8EncodeChar c = [c.toUInt8] := by
  have hsize : c.utf8Size = 1 := Char.utf8Size_eq_one_iff.mpr (Nat.le_of_lt_succ hc)
  exact String.utf8EncodeChar_eq_singleton hsize

/-- The byte of an ASCII character stands in no other character. -/
theorem mem_utf8EncodeChar_iff {c a : Char} (hc : c.toNat < 128) : c.toUInt8 ∈ String.utf8EncodeChar a ↔ a = c := by
  have hnat : ∀ {c : Char}, c.toNat < 128 → c.toUInt8.toNat = c.toNat := by
    intro c hc
    exact Nat.mod_eq_of_lt (Nat.lt_trans hc (by decide))
  constructor
  · intro h
    by_cases ha : a.toNat < 128
    · rw [utf8EncodeChar_of_lt ha, List.mem_singleton] at h
      have heq := congrArg UInt8.toNat h
      rw [hnat hc, hnat ha] at heq
      exact (Char.toNat_inj.mp heq).symm
    · have hle := le_toNat_of_mem_utf8EncodeChar (Nat.le_of_not_lt ha) h
      rw [hnat hc] at hle
      omega
  · rintro rfl
    rw [utf8EncodeChar_of_lt hc]
    exact List.mem_singleton_self _

/-- A text starts with an ASCII character exactly when its bytes start with the byte of the character. -/
theorem head?_utf8_eq_some_iff {c : Char} (hc : c.toNat < 128) {cs : List Char} :
    (utf8 cs).head? = some c.toUInt8 ↔ cs.head? = some c := by
  cases cs with
  | nil => simp
  | cons a cs =>
    rw [utf8_cons, List.head?_append_of_ne_nil _ String.utf8EncodeChar_ne_nil, List.head?_cons, Option.some_inj]
    constructor
    · exact fun h => (mem_utf8EncodeChar_iff hc).mp (List.mem_of_mem_head? h)
    · rintro rfl
      rw [utf8EncodeChar_of_lt hc, List.head?_cons]

/-- An ASCII character stands doubled among the bytes of a text where it stands doubled among the characters. -/
theorem findPair_utf8 {c : Char} (hc : c.toNat < 128) (cs : List Char) :
    findPair c.toUInt8 (utf8 cs) = (cutPair c cs).map fun cut => byteLength cut.1 := by
  induction cs with
  | nil => rfl
  | cons a cs ih =>
    -- Behind the first character the place is further on by its bytes.
    have hlater : ((cutPair c cs).map fun cut => (a :: cut.1, cut.2)).map (fun cut => byteLength cut.1) =
        (findPair c.toUInt8 (utf8 cs)).map (· + a.utf8Size) := by
      rw [ih, Option.map_map, Option.map_map]
      exact congrArg (Option.map · _) (funext fun cut => Nat.add_comm ..)
    rw [utf8_cons, cutPair]
    by_cases ha : a = c
    · subst ha
      rw [utf8EncodeChar_of_lt hc, List.singleton_append, findPair]
      by_cases hhead : cs.head? = some a
      · rw [if_pos ⟨rfl, (head?_utf8_eq_some_iff hc).mpr hhead⟩, if_pos ⟨rfl, hhead⟩]
        rfl
      · rw [if_neg fun hpair => hhead ((head?_utf8_eq_some_iff hc).mp hpair.2), if_neg fun hpair => hhead hpair.2]
        refine Eq.trans ?_ hlater.symm
        rw [← String.length_utf8EncodeChar, utf8EncodeChar_of_lt hc]
        rfl
    · rw [if_neg fun hpair => ha hpair.1, findPair_append_of_not_mem (mt (mem_utf8EncodeChar_iff hc).mp ha),
        String.length_utf8EncodeChar]
      exact hlater.symm

end PromptMacros.Text
