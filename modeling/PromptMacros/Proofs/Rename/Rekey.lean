import Mathlib.Data.List.Sort
import PromptMacros.Proofs.Analysis.Usage
import PromptMacros.Proofs.Rename.InText

/-!
# Renaming a key

A map by variables in which a variable is renamed (`rekey`): what stands under the old name stands under the new one, and the
rest stays. Where the new name is in nobody's way, inserting commutes with renaming (`rekey_insert`), and the names in a report
of which something holds are the old ones with the new name for the old, sorted again (`namesWhere_rekey`).
-/

namespace PromptMacros

variable {α : Type} {old new : String}

/-- The map with what stands under `old` put under `new`. -/
def rekey (old new : String) (t : Std.ExtTreeMap String α) : Std.ExtTreeMap String α :=
  match t[old]? with
  | none => t
  | some v => (t.erase old).insert new v

variable {t : Std.ExtTreeMap String α}

/-- Putting something under a name leaves what stands under another. -/
theorem getElem?_insert_of_ne {x y : String} (h : x ≠ y) (v : α) : (t.insert x v)[y]? = t[y]? := by
  rw [Std.ExtTreeMap.getElem?_insert, if_neg (mt Std.LawfulEqOrd.compare_eq_iff_eq.mp h)]

/-- A map after renaming a key, key by key. -/
theorem getElem?_rekey (hnew : t[new]? = none) (key : String) :
    (rekey old new t)[key]? = if key = new then t[old]? else if key = old then none else t[key]? := by
  unfold rekey
  cases hold : t[old]? with
  | none =>
    dsimp only
    by_cases hkn : key = new
    · rw [if_pos hkn, hkn, hnew]
    · by_cases hko : key = old
      · rw [if_neg hkn, if_pos hko, hko, hold]
      · rw [if_neg hkn, if_neg hko]
  | some v =>
    rw [Std.ExtTreeMap.getElem?_insert, Std.ExtTreeMap.getElem?_erase]
    simp only [Std.LawfulEqOrd.compare_eq_iff_eq, eq_comm (b := key)]

/-- What stands under a name stands under its renamed name afterwards. -/
theorem getElem?_rekey_substitute (hnew : t[new]? = none) {key : String} (hkey : key ≠ new) :
    (rekey old new t)[substitute old new key]? = t[key]? := by
  rw [getElem?_rekey hnew]
  unfold substitute
  by_cases h : key = old
  · rw [if_pos h, if_pos rfl, h]
  · rw [if_neg h, if_neg hkey, if_neg h]

/-- Inserting under a name and renaming is renaming and inserting under the renamed name. -/
theorem rekey_insert (hnew : t[new]? = none) {key : String} (hkey : key ≠ new) (v : α) :
    rekey old new (t.insert key v) = (rekey old new t).insert (substitute old new key) v := by
  have hnew' : (t.insert key v)[new]? = none := (getElem?_insert_of_ne hkey v).trans hnew
  refine Std.ExtTreeMap.ext_getElem? ?_
  intro k
  rw [getElem?_rekey hnew', Std.ExtTreeMap.getElem?_insert, Std.ExtTreeMap.getElem?_insert,
    Std.ExtTreeMap.getElem?_insert, getElem?_rekey hnew]
  simp only [Std.LawfulEqOrd.compare_eq_iff_eq, substitute]
  grind

/-! ## The names of which something holds -/

/-- A name that is not the new one has a renamed name of its own. -/
theorem substitute_inj {x y : String} (hx : x ≠ new) (hy : y ≠ new) :
    substitute old new x = substitute old new y ↔ x = y := by
  unfold substitute
  grind

/-- A strictly increasing list is each list without repeats that has the same members, sorted. -/
theorem eq_mergeSort_of_mem_iff {xs ys : List String} (hxs : xs.Pairwise (· < ·)) (hys : ys.Nodup)
    (h : ∀ x, x ∈ xs ↔ x ∈ ys) : xs = ys.mergeSort := by
  have hperm : xs.Perm ys.mergeSort :=
    ((List.perm_ext_iff_of_nodup (hxs.imp String.ne_of_lt) hys).mpr h).trans (List.mergeSort_perm ys _).symm
  have hle : xs.Pairwise (· ≤ ·) := hxs.imp fun h => String.not_lt.mp (String.lt_asymm h)
  have hsorted : ys.mergeSort.Pairwise fun a b => decide (a ≤ b) = true := by
    refine List.pairwise_mergeSort (fun a b c => ?_) (fun a b => ?_) ys
    · simpa using String.le_trans
    · simpa using String.le_total a b
  exact hperm.eq_of_pairwise (fun a b _ _ => String.le_antisymm) hle (hsorted.imp of_decide_eq_true)

/-- With a variable renamed the same names have the property, with the new one for the old, and sorted again. -/
theorem namesWhere_rekey {usage : Std.ExtTreeMap String Variable} (hnew : usage[new]? = none) (p : Variable → Bool) :
    Report.namesWhere (rekey old new usage) p =
      ((Report.namesWhere usage p).map (substitute old new)).mergeSort := by
  have hmem : ∀ x ∈ Report.namesWhere usage p, x ≠ new := by
    rintro x hx rfl
    obtain ⟨v, hv, -⟩ := mem_namesWhere_iff.mp hx
    rw [hnew] at hv
    cases hv
  have hnodup : ((Report.namesWhere usage p).map (substitute old new)).Nodup := by
    refine List.Nodup.map_on (fun x hx y hy hxy => ?_) (pairwise_namesWhere usage p).nodup
    exact (substitute_inj (hmem x hx) (hmem y hy)).mp hxy
  refine eq_mergeSort_of_mem_iff (pairwise_namesWhere _ p) hnodup ?_
  intro x
  rw [List.mem_map, mem_namesWhere_iff]
  constructor
  · rintro ⟨v, hv, hp⟩
    -- What stands under the new name afterwards stood under the old one.
    rw [getElem?_rekey hnew] at hv
    by_cases hx : x = new
    · rw [if_pos hx] at hv
      exact ⟨old, mem_namesWhere_iff.mpr ⟨v, hv, hp⟩, (if_pos rfl).trans hx.symm⟩
    · by_cases hxo : x = old
      · rw [if_neg hx, if_pos hxo] at hv
        cases hv
      · rw [if_neg hx, if_neg hxo] at hv
        exact ⟨x, mem_namesWhere_iff.mpr ⟨v, hv, hp⟩, if_neg hxo⟩
  · rintro ⟨y, hy, rfl⟩
    rw [getElem?_rekey_substitute hnew (hmem y hy)]
    exact mem_namesWhere_iff.mp hy

end PromptMacros
