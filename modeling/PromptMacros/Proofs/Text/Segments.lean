import PromptMacros.Proofs.Text.Blank
import PromptMacros.Proofs.Text.Pair

/-!
# Segments between white space

The segments of a text are stretches of it in which `::` does not stand (`infix_of_mem_segments`,
`cutPair_eq_none_of_mem_segments`). White space at the ends of the text is white space at the ends of its first and last segment
(`map_trim_segments_trim`). Texts written between spaces, with `::` before each but the first, are the trimmed segments of what
they make up (`map_trim_segments_listed`).
-/

namespace PromptMacros.Text

/-! ## White space at the ends -/

/-- Trimming leaves nothing of white space. -/
theorem Blanks.trim_eq_nil {cs : List Char} (h : Blanks cs) : trim cs = [] := by
  have hstart : trimStart (cs ++ []) = [] := trimStart_append h (by simp)
  rw [List.append_nil] at hstart
  rw [trim, hstart]
  rfl

/-- White space around a text is trimmed off with that of the text. -/
theorem trim_append {lead trail : List Char} (hl : Blanks lead) (ht : Blanks trail) (cs : List Char) :
    trim (lead ++ cs ++ trail) = trim cs := by
  obtain ⟨front, back, hf, hb, hcs⟩ := exists_trim_append cs
  have hassoc : lead ++ cs ++ trail = (lead ++ front) ++ trim cs ++ (back ++ trail) := by
    conv_lhs => rw [← hcs]
    simp only [List.append_assoc]
  by_cases h : trim cs = []
  · have hblank : Blanks (lead ++ cs ++ trail) := by
      rw [hassoc, h, List.append_nil]
      exact (hl.append hf).append (hb.append ht)
    rw [hblank.trim_eq_nil, h]
  · rw [hassoc, (trimmed_trim h).trim_append (hl.append hf) (hb.append ht)]

/-- Trimming takes what trimming the end takes first. -/
theorem trim_trimEnd (cs : List Char) : trim (trimEnd cs) = trim cs := by
  obtain ⟨trail, htrail, hb⟩ := exists_trimEnd_append cs
  have h := trim_append .nil hb (trimEnd cs)
  rw [List.nil_append, htrail] at h
  exact h.symm

/-- What trimming leaves stands in the text. -/
theorem trim_isInfix (cs : List Char) : trim cs <:+: cs := by
  obtain ⟨lead, trail, -, -, h⟩ := exists_trim_append cs
  exact ⟨lead, trail, h⟩

/-- A stretch of a text in which a character is doubled nowhere has it doubled nowhere. -/
theorem cutPair_eq_none_of_isInfix {c : Char} {xs ys : List Char} (h : xs <:+: ys) (hy : cutPair c ys = none) :
    cutPair c xs = none :=
  cutPair_eq_none_iff.mpr fun hx => cutPair_eq_none_iff.mp hy (hx.trans h)

/-! ## Segments -/

/-- A segment of a text stands in the text. -/
theorem infix_of_mem_segments {cs p : List Char} (h : p ∈ segments cs) : p <:+: cs := by
  fun_induction segments cs with
  | case1 cs hcut =>
    obtain rfl := List.mem_singleton.mp h
    exact List.infix_rfl
  | case2 cs first rest hcut ih =>
    rw [eq_of_cutPair_eq_some hcut]
    rcases List.mem_cons.mp h with rfl | h
    · exact (List.prefix_append _ _).isInfix
    · refine (ih h).trans (List.IsSuffix.isInfix ⟨first ++ [':', ':'], ?_⟩)
      simp

/-- No `::` stands in a segment. -/
theorem cutPair_eq_none_of_mem_segments {cs p : List Char} (h : p ∈ segments cs) : cutPair ':' p = none := by
  fun_induction segments cs with
  | case1 cs hcut => rwa [List.mem_singleton.mp h]
  | case2 cs first rest hcut ih =>
    rcases List.mem_cons.mp h with rfl | h
    · exact (cutPair_append_eq_none_iff.mp (cutPair_snoc_eq_none hcut)).1
    · exact ih h

/-- A text starts with its first segment. -/
theorem prefix_of_mem_head?_segments {cs p : List Char} (h : p ∈ (segments cs).head?) : p <+: cs := by
  cases hcut : cutPair ':' cs with
  | none =>
    rw [segments_of_cutPair_eq_none hcut] at h
    obtain rfl := Option.some.inj h
    exact List.prefix_rfl
  | some cut =>
    rw [segments_of_cutPair_eq_some hcut] at h
    obtain rfl := Option.some.inj h
    rw [eq_of_cutPair_eq_some hcut]
    exact List.prefix_append _ _

/-- White space at the end of a text is at the end of its last segment. -/
theorem map_trim_segments_trimEnd (cs : List Char) :
    (segments (trimEnd cs)).map trim = (segments cs).map trim := by
  fun_induction segments cs with
  | case1 cs hcut =>
    obtain ⟨trail, htrail, -⟩ := exists_trimEnd_append cs
    have hnone := cutPair_eq_none_of_isInfix (List.IsPrefix.isInfix ⟨trail, htrail⟩) hcut
    rw [segments_of_cutPair_eq_none hnone, List.map_singleton, List.map_singleton, trim_trimEnd]
  | case2 cs first rest hcut ih =>
    have hcolon : isBlank ':' = false := by decide
    have htrim : trimEnd cs = first ++ ':' :: ':' :: trimEnd rest := by
      rw [eq_of_cutPair_eq_some hcut, trimEnd_append_cons hcolon, ← List.nil_append (':' :: rest),
        trimEnd_append_cons hcolon, List.nil_append]
    rw [htrim, segments_of_cutPair_eq_some (cutPair_append_of_eq_none (cutPair_snoc_eq_none hcut) _), List.map_cons,
      List.map_cons, ih]

/-- White space at the start of a text is at the start of its first segment. -/
theorem map_trim_segments_append {pad : List Char} (hp : Blanks pad) (cs : List Char) :
    (segments (pad ++ cs)).map trim = (segments cs).map trim := by
  have htrim : ∀ cs, trim (pad ++ cs) = trim cs := by
    intro cs
    have h := trim_append hp .nil cs
    rwa [List.append_nil] at h
  have hcolon : ':' ∉ pad := hp.not_mem (by decide)
  have hlast : pad.getLast? ≠ some ':' := fun h => hcolon (List.mem_of_mem_getLast? h)
  have hnone : ∀ cs, cutPair ':' cs = none → cutPair ':' (pad ++ cs) = none := fun cs h =>
    cutPair_append_eq_none_iff.mpr ⟨cutPair_eq_none_of_not_mem hcolon, h, fun hc => hlast hc.1⟩
  cases hcut : cutPair ':' cs with
  | none =>
    rw [segments_of_cutPair_eq_none hcut, segments_of_cutPair_eq_none (hnone cs hcut), List.map_singleton, List.map_singleton,
      htrim]
  | some cut =>
    obtain ⟨first, rest⟩ := cut
    have hpad : cutPair ':' (pad ++ cs) = some (pad ++ first, rest) := by
      rw [eq_of_cutPair_eq_some hcut, ← List.append_assoc]
      refine cutPair_append_of_eq_none ?_ rest
      rw [List.append_assoc]
      exact hnone _ (cutPair_snoc_eq_none hcut)
    rw [segments_of_cutPair_eq_some hcut, segments_of_cutPair_eq_some hpad, List.map_cons, List.map_cons, htrim]

/-- Trimming a text trims nothing but its segments. -/
theorem map_trim_segments_trim (cs : List Char) : (segments (trim cs)).map trim = (segments cs).map trim := by
  have hblank : Blanks (cs.takeWhile isBlank) := fun c hc => List.all_eq_true.mp List.all_takeWhile c hc
  rw [trim, map_trim_segments_trimEnd, ← map_trim_segments_append hblank, takeWhile_append_trimStart]

/-! ## Texts between spaces -/

/-- A text between two spaces. -/
def padded (cs : List Char) : List Char :=
  ' ' :: cs ++ [' ']

/-- Texts between spaces, each with `::` before it. -/
def listed (parts : List (List Char)) : List Char :=
  parts.flatMap fun p => ':' :: ':' :: padded p

theorem blanks_space : Blanks [' '] := by
  intro c hc
  rw [List.mem_singleton.mp hc]
  decide

theorem trim_padded (cs : List Char) : trim (padded cs) = trim cs :=
  trim_append blanks_space blanks_space cs

section Doubled

variable {c : Char} {cs ys : List Char}

/-- A character that is no space is doubled between the spaces, behind them, or nowhere. -/
theorem cutPair_padded_append_eq_none_iff (h : c ≠ ' ') :
    cutPair c (padded cs ++ ys) = none ↔ cutPair c cs = none ∧ cutPair c ys = none := by
  have hspace : c ∉ [' '] := by simpa using h
  have hnone : cutPair c [' '] = none := cutPair_eq_none_of_not_mem hspace
  have hcut : cutPair c ([' '] ++ cs) = none ↔ cutPair c cs = none := by
    rw [cutPair_append_eq_none_iff, hnone]
    simp [h.symm]
  rw [padded, ← List.singleton_append, cutPair_around_eq_none_iff (by simp) hspace, hcut]

/-- A character that is no space and no colon is doubled in one of the texts listed, behind them, or nowhere. -/
theorem cutPair_listed_append_eq_none_iff (hspace : c ≠ ' ') (hcolon : c ≠ ':') {parts : List (List Char)} :
    cutPair c (listed parts ++ ys) = none ↔ (∀ p ∈ parts, cutPair c p = none) ∧ cutPair c ys = none := by
  induction parts with
  | nil => simp [listed]
  | cons p parts ih =>
    have hcolons : c ∉ [':', ':'] := by simpa using hcolon
    have htext : listed (p :: parts) ++ ys = [] ++ [':', ':'] ++ (padded p ++ (listed parts ++ ys)) := by simp [listed]
    rw [htext, cutPair_around_eq_none_iff (by simp) hcolons, cutPair_padded_append_eq_none_iff hspace, ih,
      List.forall_mem_cons, and_assoc]
    simp [cutPair]

end Doubled

/-- Texts without `::` that are written between spaces, with `::` before each but the first, are segments. -/
theorem segments_listed {first : List Char} {parts : List (List Char)} (h : ∀ p ∈ first :: parts, cutPair ':' p = none) :
    segments (padded first ++ listed parts) = (first :: parts).map padded := by
  induction parts generalizing first with
  | nil =>
    have hcut : cutPair ':' (padded first ++ []) = none :=
      (cutPair_padded_append_eq_none_iff (by decide)).mpr ⟨h first (by simp), rfl⟩
    rw [listed, List.flatMap_nil, segments_of_cutPair_eq_none hcut, List.append_nil]
    rfl
  | cons p parts ih =>
    obtain ⟨hfirst, hparts⟩ := List.forall_mem_cons.mp h
    have hpadded : cutPair ':' (padded first ++ [':']) = none :=
      (cutPair_padded_append_eq_none_iff (by decide)).mpr ⟨hfirst, by simp [cutPair]⟩
    have hcut : cutPair ':' (padded first ++ listed (p :: parts)) = some (padded first, padded p ++ listed parts) :=
      cutPair_append_of_eq_none hpadded _
    rw [segments_of_cutPair_eq_some hcut, ih hparts, ← List.map_cons]

/-- Trimmed texts without `::` are what is left of such segments when they are trimmed. -/
theorem map_trim_segments_listed {first : List Char} {parts : List (List Char)}
    (hcut : ∀ p ∈ first :: parts, cutPair ':' p = none) (htrim : ∀ p ∈ first :: parts, trim p = p) :
    (segments (padded first ++ listed parts)).map trim = first :: parts := by
  rw [segments_listed hcut, List.map_map]
  exact (List.map_congr_left fun p hp => (trim_padded p).trans (htrim p hp)).trans (List.map_id _)

end PromptMacros.Text
