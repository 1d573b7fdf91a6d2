/-!
# Doubled characters

Macros are delimited, and their parts separated, by a character that stands twice in a row. `cutPair` cuts a text at the
first such place: the two parts make up the text and no earlier cut is possible (`cutPair_eq_some_iff`), and there is
none exactly when the character stands nowhere twice in a row (`cutPair_eq_none_iff`). `segments` cuts at every `::`.
-/

namespace PromptMacros.Text

/-- The parts of a text before and after the first place where the character stands twice in a row. -/
def cutPair (c : Char) : List Char → Option (List Char × List Char)
  | [] => none
  | a :: cs =>
    if a = c ∧ cs.head? = some c then some ([], cs.tail)
    else (cutPair c cs).map fun (before, after) => (a :: before, after)

/-- The two parts with the doubled character between them make up the text. -/
theorem eq_of_cutPair_eq_some {c : Char} {cs before after : List Char} (h : cutPair c cs = some (before, after)) :
    cs = before ++ c :: c :: after := by
  induction cs generalizing before with
  | nil => cases h
  | cons a cs ih =>
    rw [cutPair] at h
    split at h
    · next hc =>
      obtain ⟨rfl, hc⟩ := hc
      obtain ⟨rfl, rfl⟩ := Prod.mk.inj (Option.some.inj h)
      cases cs with
      | nil => cases hc
      | cons b cs => cases Option.some.inj hc; rfl
    · obtain ⟨⟨b, r⟩, hb, heq⟩ := Option.map_eq_some_iff.mp h
      obtain ⟨rfl, rfl⟩ := Prod.mk.inj heq
      rw [ih hb]
      rfl

/-- What follows the cut is at least two characters shorter than the text. -/
theorem length_of_cutPair_eq_some {c : Char} {cs before after : List Char} (h : cutPair c cs = some (before, after)) :
    after.length + 2 ≤ cs.length := by
  rw [eq_of_cutPair_eq_some h]
  simp

/-- A text in which the character stands nowhere twice in a row cannot be cut. -/
theorem cutPair_eq_none_iff {c : Char} {cs : List Char} : cutPair c cs = none ↔ ¬ [c, c] <:+: cs := by
  constructor
  · rintro h ⟨xs, ys, rfl⟩
    induction xs with
    | nil => simp [cutPair] at h
    | cons a xs ih =>
      simp only [List.cons_append, cutPair] at h
      split at h
      · cases h
      · exact ih (Option.map_eq_none_iff.mp h)
  · intro h
    cases hcut : cutPair c cs with
    | none => rfl
    | some p => exact absurd ⟨p.1, p.2, by simp [eq_of_cutPair_eq_some hcut]⟩ h

/-- The cut is the first one: the part before it, with one more of the character, cannot be cut. -/
theorem cutPair_snoc_eq_none {c : Char} {cs before after : List Char} (h : cutPair c cs = some (before, after)) :
    cutPair c (before ++ [c]) = none := by
  induction cs generalizing before with
  | nil => cases h
  | cons a cs ih =>
    rw [cutPair] at h
    split at h
    · obtain ⟨rfl, rfl⟩ := Prod.mk.inj (Option.some.inj h)
      simp [cutPair]
    · next hc =>
      obtain ⟨⟨b, r⟩, hb, heq⟩ := Option.map_eq_some_iff.mp h
      obtain ⟨rfl, rfl⟩ := Prod.mk.inj heq
      rw [List.cons_append, cutPair, ih hb, if_neg]
      · rfl
      · rintro ⟨rfl, hhead⟩
        refine hc ⟨rfl, ?_⟩
        rw [eq_of_cutPair_eq_some hb]
        cases b with
        | nil => rfl
        | cons x xs => exact hhead

/-- A part that cannot be cut, even with one more of the character, is what a cut behind it gives back. -/
theorem cutPair_append_of_eq_none {c : Char} {before : List Char} (h : cutPair c (before ++ [c]) = none)
    (after : List Char) : cutPair c (before ++ c :: c :: after) = some (before, after) := by
  induction before with
  | nil => simp [cutPair]
  | cons a cs ih =>
    rw [List.cons_append, cutPair] at h ⊢
    split at h
    · cases h
    · next hc =>
      rw [if_neg, ih (Option.map_eq_none_iff.mp h)]
      · rfl
      · rintro ⟨rfl, hhead⟩
        refine hc ⟨rfl, ?_⟩
        cases cs with
        | nil => rfl
        | cons x xs => exact hhead

/-- A cut succeeds with two parts exactly when they make up the text and no earlier cut is possible. -/
theorem cutPair_eq_some_iff {c : Char} {cs before after : List Char} :
    cutPair c cs = some (before, after) ↔ cs = before ++ c :: c :: after ∧ cutPair c (before ++ [c]) = none :=
  ⟨fun h => ⟨eq_of_cutPair_eq_some h, cutPair_snoc_eq_none h⟩, fun h => h.1 ▸ cutPair_append_of_eq_none h.2 after⟩

/-- The parts of a text between the places where `::` stands, from left to right. -/
def segments (cs : List Char) : List (List Char) :=
  match _h : cutPair ':' cs with
  | none => [cs]
  | some (first, rest) => first :: segments rest
termination_by cs.length
decreasing_by exact Nat.lt_of_lt_of_le (by omega) (length_of_cutPair_eq_some _h)

/-- A text without `::` is its only segment. -/
theorem segments_of_cutPair_eq_none {cs : List Char} (h : cutPair ':' cs = none) : segments cs = [cs] := by
  rw [segments]
  split
  · rfl
  · next h' => rw [h] at h'; cases h'

/-- The first segment of a text ends where the first `::` stands. -/
theorem segments_of_cutPair_eq_some {cs first rest : List Char} (h : cutPair ':' cs = some (first, rest)) :
    segments cs = first :: segments rest := by
  rw [segments]
  split
  · next h' => rw [h] at h'; cases h'
  · next h' =>
    rw [h] at h'
    obtain ⟨rfl, rfl⟩ := Prod.mk.inj (Option.some.inj h')
    rfl

/-- What follows `lead` in a text that starts with it. -/
def after? : (lead cs : List Char) → Option (List Char)
  | [], cs => some cs
  | _ :: _, [] => none
  | a :: lead, c :: cs => if a = c then after? lead cs else none

/-- A text starts with `lead` exactly when `after?` finds what follows it. -/
theorem after?_eq_some_iff {lead cs rest : List Char} : after? lead cs = some rest ↔ cs = lead ++ rest := by
  induction lead generalizing cs with
  | nil => simp [after?, eq_comm]
  | cons a lead ih =>
    cases cs with
    | nil => simp [after?]
    | cons c cs =>
      rw [after?]
      split
      · next h => simp [ih, h]
      · next h => simp [Ne.symm h]

end PromptMacros.Text
