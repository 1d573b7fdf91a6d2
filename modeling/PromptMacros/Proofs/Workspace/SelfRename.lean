import PromptMacros.Proofs.Workspace.Refusal

/-!
# Renaming a variable to its own name

The characters of a new name are checked before it is compared with the old one, and they may be fewer than those that a macro
may name its variable with. So a known variable keeps its name exactly when the name is one that could be given anew
(`rename_self`); a name with white space or a delimiter in it is refused also for the variable that has it
(`rename_self_refused`). In either case the renaming has done what a flush does and no more.
-/

namespace PromptMacros

open Text

/-- The own name of a known variable passes when its characters may stand in a new name, and is refused for the white space in
it before the delimiters. -/
theorem checkNewName_self {known : String → Bool} {name : String} (hknown : known name = true) (ht : Trimmed name.toList) :
    checkNewName known name name =
      if name.toList.any isBlank then .error (.blankInName name)
      else if name.toList.any isReserved then .error (.reservedInName name)
      else .ok name := by
  have htrim : String.ofList (trim name.toList) = name := by rw [ht.trim_eq_self, String.ofList_toList]
  have hne : name ≠ "" := by
    rintro rfl
    exact ht.ne_nil rfl
  unfold checkNewName
  dsimp only
  rw [htrim, if_neg (by simp [hknown]), if_neg hne]
  simp only [ne_eq, not_true_eq_false, false_and, if_false]

namespace Workspace

variable {w : Workspace} {name : String}

/-- Renaming a known variable to its own name does what a flush does, whether it is refused or not. -/
theorem Settled.rename_self_eq (h : w.Settled) (hknown : w.knows name = true) :
    w.rename name name =
      (if name.toList.any isBlank then .error (.blankInName name)
        else if name.toList.any isReserved then .error (.reservedInName name)
        else .ok ⟨name, name, 0, []⟩, w.flush.2) := by
  have hcheck := checkNewName_self hknown (trimmed_of_knows hknown)
  by_cases hb : name.toList.any isBlank
  · rw [if_pos hb] at hcheck ⊢
    exact h.rename_of_error hcheck
  · rw [if_neg hb] at hcheck ⊢
    by_cases hr : name.toList.any isReserved
    · rw [if_pos hr] at hcheck ⊢
      exact h.rename_of_error hcheck
    · rw [if_neg hr] at hcheck ⊢
      exact h.rename_of_same hcheck

/-- In every reachable workspace, renaming a known variable to its own name does what a flush does and no more. It succeeds
exactly when the name could be given anew; else it is refused for the white space in the name, or for the delimiters when there
is none. -/
theorem rename_self (hw : w.Reachable) (hname : name ∈ (analyze w.documents.provider w.order).variableNames) :
    LeftFlushed w (w.rename name name).2 ∧
      ((w.rename name name).1 = .ok ⟨name, name, 0, []⟩ ↔ ValidName name) ∧
      ((w.rename name name).1 = .error (.blankInName name) ↔ ∃ c ∈ name.toList, isBlank c = true) ∧
      ((w.rename name name).1 = .error (.reservedInName name) ↔
        (∀ c ∈ name.toList, isBlank c = false) ∧ ∃ c ∈ name.toList, isReserved c = true) := by
  have hknown : w.knows name = true := (mem_variableNames_iff_knows _).mp hname
  have hne : name ≠ "" := ne_empty_of_knows hknown
  have hblank : (∃ c ∈ name.toList, isBlank c = true) ↔ name.toList.any isBlank = true := List.any_eq_true.symm
  have hreserved : (∃ c ∈ name.toList, isReserved c = true) ↔ name.toList.any isReserved = true := List.any_eq_true.symm
  have hclear : (∀ c ∈ name.toList, isBlank c = false) ↔ name.toList.any isBlank = false := by simp
  rw [hw.settled.rename_self_eq hknown, validName_iff, hblank, hreserved, hclear]
  refine ⟨hw.settled.leftFlushed_flush, ?_⟩
  dsimp only
  cases name.toList.any isBlank <;> cases name.toList.any isReserved <;> simp [hne]

/-- A name that could be given anew is kept, also while an edit waits. -/
theorem rename_self_waiting :
    let w := ((ofParts {} (.ofList [.ofContent "a" "\x7b\x7bsetvar::x::1\x7d\x7d"]) ["a"]).perform
      (.edit "a" "\x7b\x7bgetvar:: größe \x7d\x7d" 5)).2
    w.Reachable ∧ "größe" ∈ (analyze w.documents.provider w.order).variableNames ∧
      LeftFlushed w (w.rename "größe" "größe").2 ∧ (w.rename "größe" "größe").1 = .ok ⟨"größe", "größe", 0, []⟩ := by
  intro w
  have hw : w.Reachable := .perform _ (.start (.parts _ _ (DocumentSet.indexed_ofList _))) trivial
  have hname : "größe" ∈ (analyze w.documents.provider w.order).variableNames := by decide +kernel
  obtain ⟨hflushed, hok, -, -⟩ := rename_self hw hname
  exact ⟨hw, hname, hflushed, hok.mpr (by decide +kernel)⟩

/-- Two variables that cannot be renamed to their own names: a macro may read a variable with a space in its name, and set one
with a single colon. -/
theorem rename_self_refused :
    let w := ofParts {} (.ofList [.ofContent "a" "\x7b\x7bgetvar::a b\x7d\x7d\x7b\x7bsetvar::x:y::1\x7d\x7d"]) ["a"]
    w.Reachable ∧ (analyze w.documents.provider w.order).variableNames = ["a b", "x:y"] ∧
      (w.rename "a b" "a b").1 = .error (.blankInName "a b") ∧
      (w.rename "x:y" "x:y").1 = .error (.reservedInName "x:y") :=
  ⟨.start (.parts _ _ (DocumentSet.indexed_ofList _)), by decide +kernel, by decide +kernel, by decide +kernel⟩

end Workspace

end PromptMacros
