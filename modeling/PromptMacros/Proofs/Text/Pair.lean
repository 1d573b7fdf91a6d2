import Mathlib.Data.List.Basic
import PromptMacros.Text.Pair

/-!
# Doubled characters and changes between them

A character is doubled in the parts of a text or where they meet, and nowhere else (`cutPair_append_eq_none_iff`). So a
stretch of a text may be replaced by another that does not have the character, and the character is doubled nowhere new
(`cutPair_replace_eq_none`). A cut is at the first place where the character is doubled (`firstPairAt_iff`), so what is left of the
text has every place where another one is doubled behind some such place (`exists_cutPair_iff`).
-/

namespace PromptMacros.Text

variable {c : Char}

/-- A character is doubled in one of two parts, or where they meet. -/
theorem cutPair_append_eq_none_iff {xs ys : List Char} :
    cutPair c (xs ++ ys) = none ↔
      cutPair c xs = none ∧ cutPair c ys = none ∧ ¬(xs.getLast? = some c ∧ ys.head? = some c) := by
  induction xs with
  | nil => simp [cutPair]
  | cons a xs ih =>
    rw [List.cons_append, cutPair, cutPair.eq_2]
    cases xs with
    | nil => by_cases h : a = c ∧ ys.head? = some c <;> simp [h, cutPair]
    | cons b xs =>
      rw [List.cons_append, List.head?_cons, List.head?_cons, List.getLast?_cons_cons]
      by_cases h : a = c ∧ some b = some c
      · simp [h]
      · rw [if_neg h, if_neg h, Option.map_eq_none_iff, Option.map_eq_none_iff]
        exact ih

/-- A character that a text does not have is doubled nowhere in it, nor with one more of it behind. -/
theorem cutPair_concat_eq_none {cs : List Char} (h : c ∉ cs) : cutPair c (cs ++ [c]) = none := by
  induction cs with
  | nil => simp [cutPair]
  | cons a cs ih =>
    rw [List.mem_cons, not_or] at h
    rw [List.cons_append, cutPair, if_neg fun hc => h.1 hc.1.symm, ih h.2]
    rfl

theorem cutPair_eq_none_of_not_mem {cs : List Char} (h : c ∉ cs) : cutPair c cs = none :=
  (cutPair_append_eq_none_iff.mp (cutPair_concat_eq_none h)).1

/-- A character that a stretch of a text does not have is doubled before the stretch, behind it, or nowhere. -/
theorem cutPair_around_eq_none_iff {xs mid ys : List Char} (hne : mid ≠ []) (h : c ∉ mid) :
    cutPair c (xs ++ mid ++ ys) = none ↔ cutPair c xs = none ∧ cutPair c ys = none := by
  have hhead : mid.head? ≠ some c := fun hc => h (List.mem_of_mem_head? hc)
  have hlast : mid.getLast? ≠ some c := fun hc => h (List.mem_of_mem_getLast? hc)
  rw [cutPair_append_eq_none_iff, cutPair_append_eq_none_iff, List.getLast?_append_of_ne_nil _ hne]
  simp [hhead, hlast, cutPair_eq_none_of_not_mem h]

/-- A stretch replaced by another without the character leaves the character doubled nowhere, if it was doubled nowhere. -/
theorem cutPair_replace_eq_none {xs old new ys : List Char} (hne : new ≠ []) (hc : c ∉ new)
    (h : cutPair c (xs ++ old ++ ys) = none) : cutPair c (xs ++ new ++ ys) = none := by
  obtain ⟨hxs, hys, -⟩ := cutPair_append_eq_none_iff.mp h
  rw [cutPair_around_eq_none_iff hne hc]
  exact ⟨(cutPair_append_eq_none_iff.mp hxs).1, hys⟩

/-- A text is cut where a part at its start can be cut. -/
theorem cutPair_append_of_eq_some {xs before after : List Char} (h : cutPair c xs = some (before, after)) (ys : List Char) :
    cutPair c (xs ++ ys) = some (before, after ++ ys) := by
  rw [eq_of_cutPair_eq_some h, List.append_assoc]
  exact cutPair_append_of_eq_none (cutPair_snoc_eq_none h) (after ++ ys)

/-! ## Places -/

/-- The character stands twice in a row from this place on. -/
def PairAt (c : Char) (cs : List Char) (i : Nat) : Prop :=
  cs[i]? = some c ∧ cs[i + 1]? = some c

/-- The character stands twice in a row from this place on and from no place before it. -/
def FirstPairAt (c : Char) (cs : List Char) (i : Nat) : Prop :=
  PairAt c cs i ∧ ∀ j, PairAt c cs j → i ≤ j

theorem pairAt_zero {a : Char} {cs : List Char} : PairAt c (a :: cs) 0 ↔ a = c ∧ cs.head? = some c := by
  simp [PairAt, List.head?_eq_getElem?]

theorem pairAt_succ {a : Char} {cs : List Char} {i : Nat} : PairAt c (a :: cs) (i + 1) ↔ PairAt c cs i := by
  simp [PairAt]

/-- A place in the first part of a text is a place of the text, if the part goes on behind it. -/
theorem pairAt_append_left {xs ys : List Char} {i : Nat} (h : i + 1 < xs.length) :
    PairAt c (xs ++ ys) i ↔ PairAt c xs i := by
  rw [PairAt, PairAt, List.getElem?_append_left h, List.getElem?_append_left (Nat.lt_of_succ_lt h)]

/-- A place in the second part of a text is a place of the text behind the first part. -/
theorem pairAt_append_right {xs ys : List Char} {i : Nat} : PairAt c (xs ++ ys) (xs.length + i) ↔ PairAt c ys i := by
  rw [PairAt, PairAt, Nat.add_assoc, List.getElem?_append_right (Nat.le_add_right ..),
    List.getElem?_append_right (Nat.le_add_right ..), Nat.add_sub_cancel_left, Nat.add_sub_cancel_left]

/-- A text cannot be cut exactly when the character is doubled at no place of it. -/
theorem cutPair_eq_none_iff_forall_not_pairAt {cs : List Char} : cutPair c cs = none ↔ ∀ i, ¬PairAt c cs i := by
  induction cs with
  | nil => simp [cutPair, PairAt]
  | cons a cs ih =>
    rw [cutPair]
    constructor
    · intro h i
      split at h
      · cases h
      · next hc =>
        cases i with
        | zero => exact fun hi => hc (pairAt_zero.mp hi)
        | succ i => exact fun hi => ih.mp (Option.map_eq_none_iff.mp h) i (pairAt_succ.mp hi)
    · intro h
      rw [if_neg fun hc => h 0 (pairAt_zero.mpr hc), Option.map_eq_none_iff]
      exact ih.mpr fun i hi => h (i + 1) (pairAt_succ.mpr hi)

/-- Behind a part that cannot be cut, even with one more of the character, is where the character is first doubled. -/
theorem le_of_pairAt {before after : List Char} (h : cutPair c (before ++ [c]) = none) {i : Nat}
    (hi : PairAt c (before ++ c :: after) i) : before.length ≤ i := by
  by_contra hlt
  rw [← List.singleton_append, ← List.append_assoc, pairAt_append_left (by simp; omega)] at hi
  exact cutPair_eq_none_iff_forall_not_pairAt.mp h i hi

/-- A text is first cut behind a part exactly when the part cannot be cut, even with one more of the character. -/
theorem firstPairAt_iff {before after : List Char} :
    FirstPairAt c (before ++ c :: c :: after) before.length ↔ cutPair c (before ++ [c]) = none := by
  constructor
  · rintro ⟨-, hfirst⟩
    refine cutPair_eq_none_iff_forall_not_pairAt.mpr fun i hi => ?_
    have hlt : i + 1 < (before ++ [c]).length := (List.getElem?_eq_some_iff.mp hi.2).1
    have hle : before.length ≤ i := by
      refine hfirst i ?_
      rw [← List.singleton_append, ← List.append_assoc, pairAt_append_left hlt]
      exact hi
    simp at hlt
    omega
  · intro h
    refine ⟨?_, fun i hi => le_of_pairAt h hi⟩
    rw [← Nat.add_zero before.length, pairAt_append_right]
    exact pairAt_zero.mpr ⟨rfl, rfl⟩

/-- One character is doubled, and another behind it, exactly when a text can be cut at the one and what is left at the other. -/
theorem exists_cutPair_iff {c d : Char} {cs : List Char} :
    (∃ before after, cutPair c cs = some (before, after) ∧ cutPair d after ≠ none) ↔
      ∃ i j, i + 2 ≤ j ∧ PairAt c cs i ∧ PairAt d cs j := by
  have hsplit : ∀ before after : List Char, before ++ c :: c :: after = (before ++ [c, c]) ++ after := by simp
  constructor
  · rintro ⟨before, after, hcut, hd⟩
    obtain ⟨rfl, hbefore⟩ := cutPair_eq_some_iff.mp hcut
    obtain ⟨k, hk⟩ : ∃ k, PairAt d after k := by
      rw [ne_eq, cutPair_eq_none_iff_forall_not_pairAt] at hd
      simpa using hd
    refine ⟨before.length, (before ++ [c, c]).length + k, by simp, (firstPairAt_iff.mpr hbefore).1, ?_⟩
    rw [hsplit, pairAt_append_right]
    exact hk
  · rintro ⟨i, j, hij, hi, hj⟩
    cases hcut : cutPair c cs with
    | none => exact absurd hi (cutPair_eq_none_iff_forall_not_pairAt.mp hcut i)
    | some cut =>
      obtain ⟨before, after⟩ := cut
      obtain ⟨rfl, hbefore⟩ := cutPair_eq_some_iff.mp hcut
      have hle : before.length ≤ i := le_of_pairAt hbefore hi
      -- The other is doubled behind the first place of the one too, so in what is left.
      obtain ⟨k, rfl⟩ : ∃ k, j = (before ++ [c, c]).length + k := ⟨j - (before ++ [c, c]).length, by simp; omega⟩
      rw [hsplit, pairAt_append_right] at hj
      exact ⟨before, after, rfl, fun hnone => cutPair_eq_none_iff_forall_not_pairAt.mp hnone k hj⟩

end PromptMacros.Text
