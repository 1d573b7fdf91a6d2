/-!
# Byte positions

Lengths and positions in a text are counted in UTF-8 bytes. `cutAt` cuts a text at a byte position and fails beyond the
end and within a character; a position is a boundary of a text exactly when it is the length of what stands before it
(`cutAt_eq_some_iff`). `slice?` takes a range of bytes out of a text.
-/

namespace PromptMacros

/-- A range of byte positions; `stop` is the first position after it. -/
structure ByteRange where
  start : Nat
  stop : Nat
  deriving DecidableEq, Repr

namespace Text

/-- The length of a text in UTF-8 bytes. -/
def byteLength (cs : List Char) : Nat :=
  cs.foldr (fun c n => c.utf8Size + n) 0

@[simp] theorem byteLength_nil : byteLength [] = 0 := rfl

@[simp] theorem byteLength_cons (c : Char) (cs : List Char) : byteLength (c :: cs) = c.utf8Size + byteLength cs :=
  rfl

@[simp] theorem byteLength_append (xs ys : List Char) : byteLength (xs ++ ys) = byteLength xs + byteLength ys := by
  induction xs with
  | nil => simp
  | cons c cs ih => simp [ih, Nat.add_assoc]

/-- Only the empty text has no bytes. -/
theorem byteLength_eq_zero {cs : List Char} : byteLength cs = 0 ↔ cs = [] := by
  cases cs with
  | nil => simp
  | cons c cs => have := c.utf8Size_pos; simp; omega

/-- The two parts of a text before and after a byte position; nothing when the position is beyond the end or within a
character. -/
def cutAt : Nat → List Char → Option (List Char × List Char)
  | 0, cs => some ([], cs)
  | _ + 1, [] => none
  | n + 1, c :: cs =>
    if c.utf8Size ≤ n + 1 then
      (cutAt (n + 1 - c.utf8Size) cs).map fun (before, after) => (c :: before, after)
    else none

/-- Cutting at the length of the first part of a text gives back its two parts. -/
@[simp] theorem cutAt_append (before after : List Char) :
    cutAt (byteLength before) (before ++ after) = some (before, after) := by
  induction before with
  | nil => simp [cutAt]
  | cons c cs ih =>
    have hpos := c.utf8Size_pos
    obtain ⟨n, hn⟩ : ∃ n, byteLength (c :: cs) = n + 1 := ⟨byteLength (c :: cs) - 1, by simp; omega⟩
    have hsub : n + 1 - c.utf8Size = byteLength cs := by simp at hn; omega
    rw [hn, List.cons_append, cutAt, if_pos (by simp at hn; omega), hsub, ih]
    rfl

/-- A cut succeeds exactly at the length of its first part, and its parts make up the text. -/
theorem cutAt_eq_some_iff {n : Nat} {cs before after : List Char} :
    cutAt n cs = some (before, after) ↔ cs = before ++ after ∧ n = byteLength before := by
  constructor
  · intro h
    induction cs generalizing n before with
    | nil =>
      cases n with
      | zero => simp [cutAt] at h; simp [h]
      | succ n => simp [cutAt] at h
    | cons c cs ih =>
      cases n with
      | zero => simp [cutAt] at h; simp [h]
      | succ n =>
        rw [cutAt] at h
        split at h
        · obtain ⟨⟨b, a⟩, hba, heq⟩ := Option.map_eq_some_iff.mp h
          obtain ⟨rfl, rfl⟩ := Prod.mk.inj heq
          obtain ⟨rfl, hn⟩ := ih hba
          exact ⟨rfl, by simp; omega⟩
        · cases h
  · rintro ⟨rfl, rfl⟩
    exact cutAt_append before after

/-- Two cuts of a text with as many bytes before them are one cut. -/
theorem append_inj_of_byteLength_eq {xs xs' ys ys' : List Char} (h : xs ++ ys = xs' ++ ys')
    (hlength : byteLength xs = byteLength xs') : xs = xs' ∧ ys = ys' := by
  have hcut := cutAt_append xs ys
  rw [h, hlength, cutAt_append] at hcut
  obtain ⟨hxs, hys⟩ := Prod.mk.inj (Option.some.inj hcut)
  exact ⟨hxs.symm, hys.symm⟩

/-- The part of a text in a range of bytes; nothing when the range is backward, leaves the text or cuts a character. -/
def slice? (cs : List Char) (range : ByteRange) : Option (List Char) := do
  guard (range.start ≤ range.stop)
  let (_, after) ← cutAt range.start cs
  let (part, _) ← cutAt (range.stop - range.start) after
  pure part

/-- The middle of three parts of a text is its slice from the end of the first part to the start of the last. -/
@[simp] theorem slice?_append (before part after : List Char) :
    slice? (before ++ part ++ after) ⟨byteLength before, byteLength before + byteLength part⟩ = some part := by
  have hguard : (guard (byteLength before ≤ byteLength before + byteLength part) : Option Unit) = some () :=
    if_pos (Nat.le_add_right ..)
  unfold slice?
  rw [hguard]
  simp

end Text

end PromptMacros
