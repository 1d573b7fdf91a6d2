/-!
# White space

Which characters are white space (the Unicode property `White_Space`), and texts trimmed of them. A text is its blank
start followed by what `trimStart` leaves of it (`takeWhile_append_trimStart`), and likewise at the end
(`exists_trimEnd_append`); trimming a trimmed text changes nothing (`trim_trim`).
-/

namespace PromptMacros.Text

/-- The characters with the Unicode property `White_Space`. -/
def isBlank (c : Char) : Bool :=
  let n := c.toNat
  (0x09 ≤ n && n ≤ 0x0D) || n == 0x20 || n == 0x85 || n == 0xA0 || n == 0x1680 || (0x2000 ≤ n && n ≤ 0x200A) ||
    n == 0x2028 || n == 0x2029 || n == 0x202F || n == 0x205F || n == 0x3000

/-- Every character that is white space among the ASCII characters is white space here. -/
theorem isBlank_of_isWhitespace {c : Char} (h : c.isWhitespace = true) : isBlank c = true := by
  simp only [Char.isWhitespace, Bool.or_eq_true, decide_eq_true_eq] at h
  rcases h with ((rfl | rfl) | rfl) | rfl <;> decide

/-- A text without the white space it starts with. -/
def trimStart (cs : List Char) : List Char :=
  cs.dropWhile isBlank

/-- A text without the white space it ends with. -/
def trimEnd (cs : List Char) : List Char :=
  (cs.reverse.dropWhile isBlank).reverse

/-- A text without the white space at its two ends. -/
def trim (cs : List Char) : List Char :=
  trimEnd (trimStart cs)

/-- A text is its white space at the start and the rest. -/
theorem takeWhile_append_trimStart (cs : List Char) : cs.takeWhile isBlank ++ trimStart cs = cs :=
  List.takeWhile_append_dropWhile

/-- A text is what trimming its end leaves, and then white space only. -/
theorem exists_trimEnd_append (cs : List Char) : ∃ bs, trimEnd cs ++ bs = cs ∧ ∀ b ∈ bs, isBlank b = true := by
  refine ⟨(cs.reverse.takeWhile isBlank).reverse, ?_, fun b hb => ?_⟩
  · rw [trimEnd, ← List.reverse_append, List.takeWhile_append_dropWhile, List.reverse_reverse]
  · exact List.all_eq_true.mp List.all_takeWhile b (List.mem_reverse.mp hb)

/-- What remains after trimming the start begins with no white space. -/
theorem not_blank_of_mem_head?_trimStart {cs : List Char} : ∀ c ∈ (trimStart cs).head?, isBlank c = false := by
  intro c hc
  have h := List.head?_dropWhile_not isBlank cs
  rw [trimStart] at hc
  rw [Option.mem_def.mp hc] at h
  exact h

/-- Trimming the start of a text that begins with no white space changes nothing. -/
theorem trimStart_eq_self {cs : List Char} (h : ∀ c ∈ cs.head?, isBlank c = false) : trimStart cs = cs := by
  cases cs with
  | nil => rfl
  | cons c cs => simp [trimStart, h c rfl]

/-- Trimming the end is trimming the start of the reversed text. -/
theorem reverse_trimEnd (cs : List Char) : (trimEnd cs).reverse = trimStart cs.reverse := by
  simp [trimEnd, trimStart]

/-- Trimming the end twice is trimming it once. -/
theorem trimEnd_trimEnd (cs : List Char) : trimEnd (trimEnd cs) = trimEnd cs := by
  have h : trimStart (trimStart cs.reverse) = trimStart cs.reverse :=
    trimStart_eq_self not_blank_of_mem_head?_trimStart
  rw [← reverse_trimEnd, ← reverse_trimEnd] at h
  exact List.reverse_inj.mp h

/-- Trimming the end leaves no white space at the start where there was none. -/
theorem trimStart_trimEnd_eq_self {cs : List Char} (h : ∀ c ∈ cs.head?, isBlank c = false) :
    trimStart (trimEnd cs) = trimEnd cs := by
  refine trimStart_eq_self fun c hc => h c ?_
  obtain ⟨bs, hbs, -⟩ := exists_trimEnd_append cs
  rw [← hbs, List.head?_append, Option.mem_def.mp hc]
  rfl

/-- Trimming twice is trimming once. -/
theorem trim_trim (cs : List Char) : trim (trim cs) = trim cs := by
  rw [trim, trim, trimStart_trimEnd_eq_self not_blank_of_mem_head?_trimStart, trimEnd_trimEnd]

end PromptMacros.Text
