import PromptMacros.Proofs.Preset.Documents
import PromptMacros.Proofs.Preset.Listed

/-!
# Orders of presets that list none

A preset that lists no documents runs the prompts that are not disabled. Several of them may go by one id, which then runs where
the first of those with the least injection order stands (`Leads`). The ids run by the least injection order and, where two have
the same, by where these prompts stand (`RunsBefore`). That settles the order (`defaultOrder_iff`), which comes about by sorting
the prompts with their places (`pairwise_runningSorted`) and keeping the first of each id (`pairwise_firsts_filterMap`).
-/

namespace PromptMacros

/-! ## Helpers: the first ones of a sorted list -/

section Firsts

variable {α : Type} {R : α → α → Prop} {l : List α} {a b : α}

/-- The member found in a sorted list stands before every other one that could be found. -/
theorem eq_or_rel_of_find? {q : α → Bool} (h : l.Pairwise R) (ha : l.find? q = some a) (hb : b ∈ l) (hq : q b = true) :
    b = a ∨ R a b := by
  obtain ⟨-, before, after, rfl, hbefore⟩ := List.find?_eq_some_iff_append.mp ha
  obtain ⟨-, hafter, -⟩ := List.pairwise_append.mp h
  rcases List.mem_append.mp hb with hb | hb
  · have hnot := hbefore b hb
    rw [hq] at hnot
    cases hnot
  · rcases List.mem_cons.mp hb with rfl | hb
    · exact Or.inl rfl
    · exact Or.inr (List.rel_of_pairwise_cons hafter hb)

/-- The ids of a sorted list come in the order of the first members that have them. -/
theorem pairwise_firsts_filterMap (f : α → Option String) (h : l.Pairwise R) :
    (Order.firsts (l.filterMap f)).Pairwise fun x y =>
      ∃ a b, l.find? (fun c => f c = some x) = some a ∧ l.find? (fun c => f c = some y) = some b ∧ R a b := by
  induction l with
  | nil => exact .nil
  | cons a l ih =>
    obtain ⟨ha, hl⟩ := List.pairwise_cons.mp h
    -- An id that the head does not have is found in the tail.
    have htail : ∀ x, f a ≠ some x → (a :: l).find? (fun c => f c = some x) = l.find? fun c => f c = some x :=
      fun x hx => List.find?_cons_of_neg (by simpa using hx)
    cases hfa : f a with
    | none =>
      rw [List.filterMap_cons_none hfa]
      refine (ih hl).imp fun {x y} hxy => ?_
      rwa [htail x (by simp [hfa]), htail y (by simp [hfa])]
    | some x₀ =>
      have hother : ∀ x ∈ (Order.firsts (l.filterMap f)).filter (· ≠ x₀),
          (a :: l).find? (fun c => f c = some x) = l.find? fun c => f c = some x := by
        intro x hx
        have hne : x ≠ x₀ := of_decide_eq_true (List.mem_filter.mp hx).2
        exact htail x (by simpa [hfa] using Ne.symm hne)
      rw [List.filterMap_cons_some hfa, Order.firsts, List.pairwise_cons]
      constructor
      · intro y hy
        obtain ⟨c, hc, hfc⟩ := List.mem_filterMap.mp (Order.mem_firsts.mp (List.mem_filter.mp hy).1)
        have hfound : (l.find? fun c => f c = some y).isSome := List.find?_isSome.mpr ⟨c, hc, decide_eq_true hfc⟩
        obtain ⟨b, hb⟩ := Option.isSome_iff_exists.mp hfound
        refine ⟨a, b, List.find?_cons_of_pos (decide_eq_true hfa), ?_, ha b (List.mem_of_find?_eq_some hb)⟩
        rw [hother y hy, hb]
      · refine ((ih hl).filter _).imp_of_mem fun {x y} hx hy hxy => ?_
        rwa [hother x hx, hother y hy]

end Firsts

namespace Preset

/-- A prompt runs under an id when no order lists documents. -/
def Runs (prompt : Json) (id : String) : Prop :=
  GoesBy prompt id ∧ enables prompt = true

/-- Of the prompts that run under an id the least injection order is this one, and the first that has it stands here. -/
structure Leads (p : Preset) (id : String) (n : Int) (i : Nat) : Prop where
  found : ∃ prompt, p.prompts[i]? = some prompt ∧ Runs prompt id ∧ injectionOrder prompt = n
  least : ∀ j prompt, p.prompts[j]? = some prompt → Runs prompt id →
    n < injectionOrder prompt ∨ n = injectionOrder prompt ∧ i ≤ j

/-- One id runs before another: by the least injection orders of their prompts, and by where these stand if they have the
same. -/
def RunsBefore (p : Preset) (a b : String) : Prop :=
  ∃ m i n j, p.Leads a m i ∧ p.Leads b n j ∧ (m < n ∨ m = n ∧ i < j)

/-- The ids run in this order when no order lists documents. -/
structure DefaultOrder (p : Preset) (order : List String) : Prop where
  nodup : order.Nodup
  mem_iff : ∀ id, id ∈ order ↔ ∃ prompt ∈ p.prompts, Runs prompt id
  sorted : order.Pairwise p.RunsBefore

variable {p : Preset} {order order' : List String} {id a b : String} {m n : Int} {i j : Nat}

/-! ## One order at most -/

/-- An id is led by one prompt. -/
theorem Leads.unique (h : p.Leads id m i) (h' : p.Leads id n j) : m = n ∧ i = j := by
  obtain ⟨prompt, hi, hruns, rfl⟩ := h.found
  obtain ⟨prompt', hj, hruns', rfl⟩ := h'.found
  have hle := h.least j prompt' hj hruns'
  have hge := h'.least i prompt hi hruns
  omega

/-- No two ids run before each other. -/
theorem RunsBefore.asymm (hab : p.RunsBefore a b) : ¬p.RunsBefore b a := by
  rintro ⟨n', j', m', i', hb', ha', hba⟩
  obtain ⟨m, i, n, j, ha, hb, hab⟩ := hab
  have hm := ha.unique ha'
  have hn := hb.unique hb'
  omega

/-- The prompts of a preset settle the order. -/
theorem DefaultOrder.eq (h : p.DefaultOrder order) (h' : p.DefaultOrder order') : order = order' := by
  have hperm : order.Perm order' :=
    (List.perm_ext_iff_of_nodup h.nodup h'.nodup).mpr fun id => (h.mem_iff id).trans (h'.mem_iff id).symm
  exact hperm.eq_of_pairwise (fun _ _ _ _ hab hba => absurd hba hab.asymm) h.sorted h'.sorted

/-! ## The order of import -/

/-- The prompts that run, with their places. -/
def running (p : Preset) : List (Json × Nat) :=
  p.prompts.zipIdx.filter fun entry => enables entry.1

/-- The prompts that run, sorted by their injection orders. -/
def runningSorted (p : Preset) : List (Json × Nat) :=
  p.running.mergeSort fun x y => injectionOrder x.1 ≤ injectionOrder y.1

theorem mem_running {entry : Json × Nat} : entry ∈ p.running ↔ p.prompts[entry.2]? = some entry.1 ∧ enables entry.1 = true := by
  rw [running, List.mem_filter, List.mem_zipIdx_iff_getElem?]

theorem mem_runningSorted {entry : Json × Nat} :
    entry ∈ p.runningSorted ↔ p.prompts[entry.2]? = some entry.1 ∧ enables entry.1 = true := by
  rw [runningSorted, List.mem_mergeSort, mem_running]

/-- The places of the prompts that run go up. -/
theorem pairwise_running (p : Preset) : p.running.Pairwise fun x y => x.2 < y.2 := by
  have hplaces : (p.prompts.zipIdx.map Prod.snd).Pairwise (· < ·) := by
    rw [List.zipIdx_map_snd]
    exact List.pairwise_lt_range'
  exact (List.pairwise_map.mp hplaces).filter _

/-- Sorted prompts stand by injection order, and as in the preset where two have the same. -/
theorem pairwise_runningSorted (p : Preset) :
    p.runningSorted.Pairwise fun x y =>
      injectionOrder x.1 < injectionOrder y.1 ∨ injectionOrder x.1 = injectionOrder y.1 ∧ x.2 < y.2 := by
  have hnodup : p.running.Nodup := by
    refine p.pairwise_running.imp fun {x y} hlt => ?_
    rintro rfl
    exact Nat.lt_irrefl _ hlt
  have hstable : p.runningSorted.Pairwise fun x y => decide (injectionOrder x.1 ≤ injectionOrder y.1) = true ∧
      (decide (injectionOrder y.1 ≤ injectionOrder x.1) = true → [x, y].Sublist p.running) :=
    pairwise_mergeSort_stable
      (fun _ _ _ hab hbc => decide_eq_true (Int.le_trans (of_decide_eq_true hab) (of_decide_eq_true hbc)))
      (fun x y => by simpa using Int.le_total (injectionOrder x.1) (injectionOrder y.1)) hnodup
  refine hstable.imp fun {x y} h => ?_
  have hle : injectionOrder x.1 ≤ injectionOrder y.1 := of_decide_eq_true h.1
  rcases Int.lt_or_eq_of_le hle with hlt | heq
  · exact Or.inl hlt
  · have hsub := h.2 (decide_eq_true (Int.le_of_eq heq.symm))
    exact Or.inr ⟨heq, List.pairwise_iff_forall_sublist.mp p.pairwise_running hsub⟩

/-- Import keeps the first of each id among the sorted prompts. -/
theorem defaultOrder_eq (p : Preset) :
    defaultOrder p.prompts = Order.firsts (p.runningSorted.filterMap fun entry => promptId? entry.1) := by
  have henables : (fun prompt => decide (boolOf? prompt "enabled" ≠ some false)) = enables := by
    funext prompt
    unfold enables
    cases boolOf? prompt "enabled" with
    | none => rfl
    | some flag => cases flag <;> rfl
  have hrunning : p.prompts.filter enables = p.running.map Prod.fst := by
    conv => lhs; rw [← List.zipIdx_map_fst 0 p.prompts, List.filter_map]
    rfl
  have hsorted : p.runningSorted.map Prod.fst =
      (p.prompts.filter enables).mergeSort fun x y => injectionOrder x ≤ injectionOrder y := by
    rw [hrunning]
    exact List.map_mergeSort fun _ _ _ _ => rfl
  rw [defaultOrder, henables, ← hsorted, List.filterMap_map]
  rfl

/-- The prompt found for an id among the sorted ones leads the others. -/
theorem leads_of_find? {entry : Json × Nat} (h : p.runningSorted.find? (fun x => promptId? x.1 = some id) = some entry) :
    p.Leads id (injectionOrder entry.1) entry.2 := by
  obtain ⟨hfound, henables⟩ := mem_runningSorted.mp (List.mem_of_find?_eq_some h)
  have hid : promptId? entry.1 = some id :=
    of_decide_eq_true (List.find?_some (p := fun x : Json × Nat => decide (promptId? x.1 = some id)) h)
  refine ⟨⟨entry.1, hfound, ⟨promptId?_eq_some_iff.mp hid, henables⟩, rfl⟩, fun j prompt hj hruns => ?_⟩
  have hmem : (prompt, j) ∈ p.runningSorted := mem_runningSorted.mpr ⟨hj, hruns.2⟩
  rcases eq_or_rel_of_find? p.pairwise_runningSorted h hmem (decide_eq_true (promptId?_eq_some_iff.mpr hruns.1)) with rfl | hlt
  · exact Or.inr ⟨rfl, Nat.le_refl _⟩
  · exact hlt.imp_right fun hlt => ⟨hlt.1, Nat.le_of_lt hlt.2⟩

/-- Import runs the ids in their order. -/
theorem defaultOrder_defaultOrder (p : Preset) : p.DefaultOrder (defaultOrder p.prompts) := by
  rw [defaultOrder_eq]
  refine ⟨Order.nodup_firsts _, fun id => ?_, ?_⟩
  · rw [Order.mem_firsts, List.mem_filterMap]
    constructor
    · rintro ⟨⟨prompt, i⟩, hmem, hid⟩
      obtain ⟨hi, henables⟩ := mem_runningSorted.mp hmem
      exact ⟨prompt, List.mem_of_getElem? hi, promptId?_eq_some_iff.mp hid, henables⟩
    · rintro ⟨prompt, hprompt, hgoes, henables⟩
      obtain ⟨i, hi⟩ := List.getElem?_of_mem hprompt
      exact ⟨(prompt, i), mem_runningSorted.mpr ⟨hi, henables⟩, promptId?_eq_some_iff.mpr hgoes⟩
  · refine (pairwise_firsts_filterMap _ p.pairwise_runningSorted).imp fun {a b} h => ?_
    obtain ⟨x, y, hx, hy, hlt⟩ := h
    exact ⟨_, _, _, _, leads_of_find? hx, leads_of_find? hy, hlt⟩

/-- The order of import is the only one in which the ids run. -/
theorem defaultOrder_iff : p.DefaultOrder order ↔ order = defaultOrder p.prompts := by
  constructor
  · intro h
    exact h.eq p.defaultOrder_defaultOrder
  · rintro rfl
    exact p.defaultOrder_defaultOrder

end Preset

end PromptMacros
