import Mathlib.Data.List.TakeWhile
import PromptMacros.Text.Blank

/-!
# Names between white space

A text that is neither empty nor blank at its ends (`Trimmed`) is what trimming gives back of it with white space around it
(`trim_append`), and every text is its trimmed text with white space around it (`exists_trim_append`).
-/

namespace PromptMacros.Text

/-- Nothing but white space. -/
def Blanks (cs : List Char) : Prop :=
  ∀ c ∈ cs, isBlank c = true

/-- At least one character, and no white space at the ends. -/
structure Trimmed (cs : List Char) : Prop where
  ne_nil : cs ≠ []
  head : ∀ c ∈ cs.head?, isBlank c = false
  last : ∀ c ∈ cs.getLast?, isBlank c = false

theorem Blanks.nil : Blanks [] :=
  fun _ hc => nomatch hc

/-- A character that is no white space is not in a text of nothing but white space. -/
theorem Blanks.not_mem {cs : List Char} (h : Blanks cs) {c : Char} (hc : isBlank c = false) : c ∉ cs := by
  intro hm
  rw [h c hm] at hc
  cases hc

theorem Blanks.append {xs ys : List Char} (hx : Blanks xs) (hy : Blanks ys) : Blanks (xs ++ ys) := by
  intro c hc
  rcases List.mem_append.mp hc with hc | hc
  · exact hx c hc
  · exact hy c hc

/-- A text without any white space that is not empty has none at its ends. -/
theorem Trimmed.of_forall {cs : List Char} (hne : cs ≠ []) (h : ∀ c ∈ cs, isBlank c = false) : Trimmed cs :=
  ⟨hne, fun c hc => h c (List.mem_of_mem_head? hc), fun c hc => h c (List.mem_of_mem_getLast? hc)⟩

/-- A trimmed text, another, and whatever stands between them make up a trimmed text. -/
theorem Trimmed.append {xs ys : List Char} (hx : Trimmed xs) (hy : Trimmed ys) (mid : List Char) :
    Trimmed (xs ++ mid ++ ys) := by
  obtain ⟨a, as, rfl⟩ := List.exists_cons_of_ne_nil hx.ne_nil
  obtain ⟨bs, b, rfl⟩ : ∃ bs b, ys = bs ++ [b] := by
    rcases List.eq_nil_or_concat ys with h | ⟨bs, b, h⟩
    · exact absurd h hy.ne_nil
    · exact ⟨bs, b, h.trans List.concat_eq_append⟩
  refine ⟨by simp, hx.head, fun c hc => hy.last c ?_⟩
  rw [← List.append_assoc, List.getLast?_concat] at hc
  rw [List.getLast?_concat]
  exact hc

/-! ## White space at the start -/

section Start

variable {pad cs : List Char}

/-- The white space before a text that begins with none is what is taken off its start. -/
theorem takeWhile_append (hp : Blanks pad) (h : ∀ c ∈ cs.head?, isBlank c = false) :
    (pad ++ cs).takeWhile isBlank = pad := by
  rw [List.takeWhile_append_of_pos hp]
  cases cs with
  | nil => simp
  | cons c cs => simp [h c rfl]

/-- Trimming the start leaves a text that begins with no white space. -/
theorem trimStart_append (hp : Blanks pad) (h : ∀ c ∈ cs.head?, isBlank c = false) : trimStart (pad ++ cs) = cs := by
  rw [trimStart, List.dropWhile_append_of_pos hp]
  exact trimStart_eq_self h

end Start

/-! ## White space at the end -/

/-- Trimming the end takes nothing from what ends with a character that is no white space. -/
theorem trimEnd_append_cons {c : Char} (hc : isBlank c = false) (xs ys : List Char) :
    trimEnd (xs ++ c :: ys) = xs ++ c :: trimEnd ys := by
  unfold trimEnd
  rw [List.reverse_append, List.reverse_cons, List.append_assoc, List.dropWhile_append]
  split
  · next h =>
    rw [List.isEmpty_iff.mp h]
    simp [hc]
  · simp

/-- Trimming the end of nothing but white space leaves nothing. -/
theorem Blanks.trimEnd_eq_nil {cs : List Char} (h : Blanks cs) : trimEnd cs = [] := by
  rw [trimEnd, List.reverse_eq_nil_iff, List.dropWhile_eq_nil_iff]
  exact fun c hc => h c (List.mem_reverse.mp hc)

/-- Trimming the end leaves a text that ends with no white space. -/
theorem trimEnd_append {cs trail : List Char} (h : ∀ c ∈ cs.getLast?, isBlank c = false) (ht : Blanks trail) :
    trimEnd (cs ++ trail) = cs := by
  rcases List.eq_nil_or_concat cs with rfl | ⟨cs, c, rfl⟩
  · exact ht.trimEnd_eq_nil
  · have hc : isBlank c = false := h c (by simp)
    rw [List.concat_eq_append, List.append_assoc, List.singleton_append, trimEnd_append_cons hc, ht.trimEnd_eq_nil]

/-! ## White space around a text -/

/-- White space around a trimmed text is all that trimming takes. -/
theorem Trimmed.trim_append {lead cs trail : List Char} (h : Trimmed cs) (hl : Blanks lead) (ht : Blanks trail) :
    trim (lead ++ cs ++ trail) = cs := by
  have hhead : ∀ c ∈ (cs ++ trail).head?, isBlank c = false := by
    obtain ⟨a, as, rfl⟩ := List.exists_cons_of_ne_nil h.ne_nil
    exact h.head
  rw [trim, List.append_assoc, trimStart_append hl hhead, trimEnd_append h.last ht]

/-- Trimming leaves a trimmed text as it is. -/
theorem Trimmed.trim_eq_self {cs : List Char} (h : Trimmed cs) : trim cs = cs := by
  have htrim := h.trim_append .nil .nil
  rwa [List.nil_append, List.append_nil] at htrim

/-- A text is its trimmed text with white space around it. -/
theorem exists_trim_append (cs : List Char) :
    ∃ lead trail, Blanks lead ∧ Blanks trail ∧ lead ++ trim cs ++ trail = cs := by
  obtain ⟨trail, htrail, hb⟩ := exists_trimEnd_append (trimStart cs)
  refine ⟨cs.takeWhile isBlank, trail, fun c hc => List.all_eq_true.mp List.all_takeWhile c hc, hb, ?_⟩
  rw [List.append_assoc, trim, htrail, takeWhile_append_trimStart]

/-- What trimming leaves has no white space at its ends. -/
theorem trimmed_trim {cs : List Char} (h : trim cs ≠ []) : Trimmed (trim cs) := by
  refine ⟨h, ?_, ?_⟩
  · rw [trim, ← trimStart_trimEnd_eq_self not_blank_of_mem_head?_trimStart]
    exact not_blank_of_mem_head?_trimStart
  · intro c hc
    rw [trim, trimEnd, List.getLast?_reverse] at hc
    exact not_blank_of_mem_head?_trimStart c hc

end PromptMacros.Text
