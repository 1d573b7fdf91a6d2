import Mathlib.Data.List.Nodup
import PromptMacros.Proofs.Preset.Export

/-!
# Orders that list some documents first

Where an order lists documents, import takes them in this order and the other documents behind them, sorted by three keys and at
last as they stand in the set (`Precedes`). No two documents precede each other, so the documents listed settle the whole order
(`ListedFirst.eq`), and every document stands in it once (`ListedFirst.complete`). Sorting comes to this because it leaves what
it may (`pairwise_mergeSort_stable`).
-/

namespace PromptMacros

/-! ## Helpers: sorting keeps the order of a list -/

section Sorting

variable {α : Type} {a b : α} {l : List α}

/-- Of two members of a list one comes first. -/
theorem pair_sublist_or (ha : a ∈ l) (hb : b ∈ l) (hne : a ≠ b) : [a, b].Sublist l ∨ [b, a].Sublist l := by
  induction l with
  | nil => cases ha
  | cons x l ih =>
    rcases List.mem_cons.mp ha with rfl | hal
    · have hbl : b ∈ l := (List.mem_cons.mp hb).resolve_left (Ne.symm hne)
      exact Or.inl (List.cons_sublist_cons.mpr (List.singleton_sublist.mpr hbl))
    · rcases List.mem_cons.mp hb with rfl | hbl
      · exact Or.inr (List.cons_sublist_cons.mpr (List.singleton_sublist.mpr hal))
      · exact (ih hal hbl).imp (List.Sublist.cons x) (List.Sublist.cons x)

/-- In a list without repetitions, only one of two members comes first. -/
theorem not_pair_sublist_of_nodup (hl : l.Nodup) (h : [a, b].Sublist l) : ¬[b, a].Sublist l := by
  induction l with
  | nil => cases h
  | cons x l ih =>
    obtain ⟨hx, hl⟩ := List.nodup_cons.mp hl
    intro h'
    cases h with
    | cons _ h =>
      cases h' with
      | cons _ h' => exact ih hl h h'
      | cons_cons _ h' => exact hx (h.subset (by simp))
    | cons_cons _ h =>
      cases h' with
      | cons _ h' => exact hx (h'.subset (by simp))
      | cons_cons _ h' => exact hx (List.singleton_sublist.mp h)

/-- Sorting leaves members that may stand either way in the order of the list. -/
theorem pairwise_mergeSort_stable {le : α → α → Bool}
    (trans : ∀ a b c, le a b = true → le b c = true → le a c = true) (total : ∀ a b, (le a b || le b a) = true)
    (hl : l.Nodup) :
    (l.mergeSort le).Pairwise fun a b => le a b = true ∧ (le b a = true → [a, b].Sublist l) := by
  have hsorted : (l.mergeSort le).Pairwise fun a b => le a b = true := List.pairwise_mergeSort trans total l
  have hnodup : (l.mergeSort le).Nodup := (List.mergeSort_perm l le).nodup_iff.mpr hl
  refine List.pairwise_iff_forall_sublist.mpr fun {a b} hab => ?_
  refine ⟨List.pairwise_iff_forall_sublist.mp hsorted hab, fun hba => ?_⟩
  have ha : a ∈ l := (List.mergeSort_perm l le).mem_iff.mp (hab.subset (by simp))
  have hb : b ∈ l := (List.mergeSort_perm l le).mem_iff.mp (hab.subset (by simp))
  have hne : a ≠ b := List.pairwise_iff_forall_sublist.mp hnodup hab
  refine (pair_sublist_or ha hb hne).resolve_right fun h => ?_
  exact not_pair_sublist_of_nodup hnodup hab (List.pair_sublist_mergeSort trans total hba h)

end Sorting

namespace Preset

/-! ## Documents that no order lists -/

section Others

variable {injection : String → Int} {a b : Document}

/-- One of two documents may come first by injection order, then if it is the system's, then by name. -/
theorem comesFirst_iff :
    comesFirst injection a b = true ↔ injection a.id < injection b.id ∨ injection a.id = injection b.id ∧
      (a.systemPrompt = true ∧ b.systemPrompt = false ∨ a.systemPrompt = b.systemPrompt ∧
        (a.name < b.name ∨ a.name = b.name)) := by
  have hname : (compare a.name b.name).isLE = true ↔ a.name < b.name ∨ a.name = b.name := by
    rw [Ordering.isLE_iff_eq_lt_or_eq_eq, Std.LawfulEqOrd.compare_eq_iff_eq]
    exact or_congr_left compareOfLessAndEq_eq_lt
  have hsystem : compare (!a.systemPrompt) (!b.systemPrompt) = .lt ↔ a.systemPrompt = true ∧ b.systemPrompt = false := by
    cases a.systemPrompt <;> cases b.systemPrompt <;> decide
  rw [comesFirst, Ordering.isLE_then_iff_or, Ordering.isLE_then_iff_or, hname, hsystem, Int.compare_eq_lt,
    Std.LawfulEqOrd.compare_eq_iff_eq, Std.LawfulEqOrd.compare_eq_iff_eq, Bool.not_inj_iff]

/-- How two documents that no order lists compare: by three keys in turn. -/
def ranking (injection : String → Int) : Document → Document → Ordering :=
  compareLex (compareOn fun d => injection d.id) (compareLex (compareOn fun d => !d.systemPrompt) (compareOn Document.name))

instance (injection : String → Int) : Std.TransCmp (ranking injection) :=
  inferInstanceAs (Std.TransCmp (compareLex _ (compareLex _ _)))

theorem comesFirst_eq_ranking : comesFirst injection a b = (ranking injection a b).isLE := rfl

theorem comesFirst_trans (injection : String → Int) (a b c : Document) (hab : comesFirst injection a b = true)
    (hbc : comesFirst injection b c = true) : comesFirst injection a c = true := by
  rw [comesFirst_eq_ranking] at *
  exact Std.TransCmp.isLE_trans hab hbc

theorem comesFirst_total (injection : String → Int) (a b : Document) :
    (comesFirst injection a b || comesFirst injection b a) = true := by
  have hswap : ranking injection a b = (ranking injection b a).swap := Std.OrientedCmp.eq_swap
  rw [comesFirst_eq_ranking, comesFirst_eq_ranking, hswap]
  cases ranking injection b a <;> rfl

end Others

/-- The first of two documents comes before the second among those that no order lists: by the injection orders that the
preset has for them, then the system's before others, then by name, and at last as in the set. -/
def Precedes (p : Preset) (documents : DocumentSet) (a b : Document) : Prop :=
  p.injectionOf a.id < p.injectionOf b.id ∨ p.injectionOf a.id = p.injectionOf b.id ∧
    (a.systemPrompt = true ∧ b.systemPrompt = false ∨ a.systemPrompt = b.systemPrompt ∧
      (a.name < b.name ∨ a.name = b.name ∧ [a, b].Sublist documents.toList))

/-- No two documents come before each other. -/
theorem Precedes.asymm {p : Preset} {documents : DocumentSet} {a b : Document} (h : documents.Indexed)
    (hab : p.Precedes documents a b) : ¬p.Precedes documents b a := by
  intro hba
  obtain hlt | ⟨heq, hab⟩ := hab
  · rcases hba with hlt' | ⟨heq, -⟩ <;> omega
  have hba := (hba.resolve_left (by omega)).2
  obtain ⟨ha, hb⟩ | ⟨hsystem, hab⟩ := hab
  · simp [ha, hb] at hba
  have hba := (hba.resolve_left (by simp [hsystem])).2
  obtain hlt | ⟨hname, hab⟩ := hab
  · rcases hba with hlt' | ⟨hname, -⟩
    · exact String.lt_asymm hlt hlt'
    · exact String.lt_irrefl _ (hname ▸ hlt)
  have hba := (hba.resolve_left fun hlt => String.lt_irrefl _ (hname ▸ hlt)).2
  exact not_pair_sublist_of_nodup h.nodup_ids.of_map hab hba

/-- Documents can stand only one way when each comes before the ones behind it. -/
theorem eq_of_pairwise_precedes {p : Preset} {documents : DocumentSet} {l l' : List Document} (h : documents.Indexed)
    (hperm : l.Perm l') (hl : l.Pairwise (p.Precedes documents)) (hl' : l'.Pairwise (p.Precedes documents)) : l = l' :=
  hperm.eq_of_pairwise (fun _ _ _ _ hab hba => absurd hba (hab.asymm h)) hl hl'

/-- The others that sorting gives are in the order that their keys ask for. -/
theorem pairwise_precedes_mergeSort {p : Preset} {documents : DocumentSet} {injection : String → Int} {others : List Document}
    (hsub : others.Sublist documents.toList) (hnodup : others.Nodup)
    (hinjection : ∀ d ∈ documents.toList, injection d.id = p.injectionOf d.id) :
    (others.mergeSort (comesFirst injection)).Pairwise (p.Precedes documents) := by
  have hsorted := pairwise_mergeSort_stable (comesFirst_trans injection) (comesFirst_total injection) hnodup
  refine hsorted.imp_of_mem fun {a b} ha hb h => ?_
  have ha := hinjection a (hsub.subset ((List.mergeSort_perm _ _).mem_iff.mp ha))
  have hb := hinjection b (hsub.subset ((List.mergeSort_perm _ _).mem_iff.mp hb))
  obtain ⟨hab, hties⟩ := h
  rw [comesFirst_iff, ha, hb] at hab hties
  rcases hab with hlt | ⟨heq, hsystem | ⟨hsystem, hname | hname⟩⟩
  · exact Or.inl hlt
  · exact Or.inr ⟨heq, Or.inl hsystem⟩
  · exact Or.inr ⟨heq, Or.inr ⟨hsystem, Or.inl hname⟩⟩
  · have hba := hties (Or.inr ⟨heq.symm, Or.inr ⟨hsystem.symm, Or.inr hname.symm⟩⟩)
    exact Or.inr ⟨heq, Or.inr ⟨hsystem, Or.inr ⟨hname, hba.trans hsub⟩⟩⟩

/-- The order starts with the ids listed that lead to documents, each where it is first listed, and goes on with the other
documents, sorted. -/
def ListedFirst (p : Preset) (documents : DocumentSet) (listed order : List String) : Prop :=
  ∃ others : List Document, order = Order.firsts (listed.filter documents.contains) ++ others.map Document.id ∧
    others.Perm (documents.toList.filter fun d => d.id ∉ listed) ∧ others.Pairwise (p.Precedes documents)

section Listed

variable {p : Preset} {documents : DocumentSet} {listed order order' : List String}

/-- Import puts the documents listed first. -/
theorem listedFirst_orderListed (h : documents.Indexed) {injection : String → Int}
    (hinjection : ∀ d ∈ documents.toList, injection d.id = p.injectionOf d.id) (listed : List String) :
    p.ListedFirst documents listed
      (orderListed injection documents (Order.firsts (listed.filter documents.contains))) := by
  have hothers : (documents.toList.filter fun d => !(Order.firsts (listed.filter documents.contains)).contains d.id) =
      documents.toList.filter fun d => d.id ∉ listed := by
    refine List.filter_congr fun d hd => ?_
    have hin : documents.contains d.id = true := h.contains_iff.mpr ⟨d, hd, rfl⟩
    simp [hin]
  refine ⟨_, rfl, ?_, ?_⟩
  · rw [← hothers]
    exact List.mergeSort_perm ..
  · exact pairwise_precedes_mergeSort List.filter_sublist (h.nodup_ids.of_map.filter _) hinjection

/-- The documents listed settle the order. -/
theorem ListedFirst.eq (h : documents.Indexed) (ho : p.ListedFirst documents listed order)
    (ho' : p.ListedFirst documents listed order') : order = order' := by
  obtain ⟨others, rfl, hperm, hsorted⟩ := ho
  obtain ⟨others', rfl, hperm', hsorted'⟩ := ho'
  rw [eq_of_pairwise_precedes h (hperm.trans hperm'.symm) hsorted hsorted']

/-- Nothing stands behind the documents listed when all are listed. -/
theorem ListedFirst.eq_of_listed (ho : p.ListedFirst documents listed order) (hall : ∀ d ∈ documents.toList, d.id ∈ listed) :
    order = Order.firsts (listed.filter documents.contains) := by
  obtain ⟨others, rfl, hperm, -⟩ := ho
  have hnone : (documents.toList.filter fun d => d.id ∉ listed) = [] := by simpa using hall
  rw [hnone, List.perm_nil] at hperm
  rw [hperm, List.map_nil, List.append_nil]

/-- The order has every document once, and nothing else. -/
theorem ListedFirst.complete (h : documents.Indexed) (ho : p.ListedFirst documents listed order) :
    order.Nodup ∧ ∀ id, id ∈ order ↔ documents.contains id = true := by
  obtain ⟨others, rfl, hperm, -⟩ := ho
  have hmem : ∀ id, id ∈ others.map Document.id ↔ id ∉ listed ∧ documents.contains id = true := by
    intro id
    rw [(hperm.map Document.id).mem_iff, h.contains_iff]
    simp only [List.mem_map, List.mem_filter, decide_eq_true_eq]
    constructor
    · rintro ⟨d, ⟨hd, hout⟩, rfl⟩
      exact ⟨hout, d, hd, rfl⟩
    · rintro ⟨hout, d, hd, rfl⟩
      exact ⟨d, ⟨hd, hout⟩, rfl⟩
  constructor
  · refine List.nodup_append.mpr ⟨Order.nodup_firsts _, ?_, ?_⟩
    · rw [(hperm.map Document.id).nodup_iff]
      exact (List.filter_sublist.map Document.id).nodup h.nodup_ids
    · rintro id hfirst id' hother rfl
      rw [Order.mem_firsts, List.mem_filter] at hfirst
      exact ((hmem id).mp hother).1 hfirst.1
  · intro id
    rw [List.mem_append, Order.mem_firsts, List.mem_filter, hmem, ← or_and_right]
    exact and_iff_right (Classical.em _)

/-- The order is a permutation of the ids. -/
theorem ListedFirst.perm (h : documents.Indexed) (ho : p.ListedFirst documents listed order) :
    order.Perm (documents.toList.map Document.id) := by
  obtain ⟨hnodup, hmem⟩ := ho.complete h
  refine (List.perm_ext_iff_of_nodup hnodup h.nodup_ids).mpr fun id => ?_
  rw [hmem, h.contains_iff, List.mem_map]

end Listed

end Preset

end PromptMacros
