import PromptMacros.Document.Set
import PromptMacros.Order

/-!
# The index of a document set

In a set whose index is right (`DocumentSet.Indexed`) no two documents have one id, and looking an id up finds the document
that has it (`Indexed.get?_eq_find?`). Every operation keeps the index right, and does to the list of documents what its
description says: insertion replaces in place or appends (`Indexed.toList_insert`), removal leaves the others in their
order (`Indexed.toList_remove`).
-/

namespace PromptMacros.DocumentSet

/-- The index leads from each id to the position of a document with that id, and from no other id anywhere. -/
def Indexed (s : DocumentSet) : Prop :=
  ∀ id i, s.index[id]? = some i ↔ (s.docs[i]?).map Document.id = some id

/-- The index of the set without documents is right. -/
theorem indexed_empty : Indexed ∅ := by
  intro id i
  change (∅ : Std.ExtTreeMap String Nat)[id]? = some i ↔ (#[] : Array Document)[i]?.map Document.id = some id
  simp

/-- Insertion answers with the document that had the id. -/
theorem fst_insert (s : DocumentSet) (doc : Document) : (s.insert doc).1 = s.get? doc.id := by
  unfold insert get?
  cases s.index[doc.id]? <;> rfl

/-- Removal answers with the document that had the id. -/
theorem fst_remove (s : DocumentSet) (id : String) : (s.remove id).1 = s.get? id := by
  unfold remove get?
  cases s.index[id]? <;> rfl

namespace Indexed

variable {s : DocumentSet} {doc : Document}

/-- An id leads to a position within the set. -/
theorem lt_size (h : s.Indexed) {id : String} {i : Nat} (hi : s.index[id]? = some i) : i < s.docs.size := by
  have := (h id i).mp hi
  rw [Option.map_eq_some_iff] at this
  obtain ⟨d, hd, -⟩ := this
  exact (Array.getElem?_eq_some_iff.mp hd).1

/-- Documents at different positions have different ids. -/
theorem position_unique (h : s.Indexed) {i j : Nat} {d e : Document} (hd : s.docs[i]? = some d)
    (he : s.docs[j]? = some e) (hid : d.id = e.id) : i = j := by
  have hi := (h d.id i).mpr (by simp [hd])
  have hj := (h d.id j).mpr (by simp [he, hid])
  exact Option.some.inj (hi.symm.trans hj)

/-- Looking an id up finds the document at its position. -/
theorem get?_eq_some_iff (h : s.Indexed) {id : String} {d : Document} :
    s.get? id = some d ↔ d ∈ s.toList ∧ d.id = id := by
  constructor
  · intro hd
    obtain ⟨i, hi, hget⟩ := Option.bind_eq_some_iff.mp hd
    have hid := (h id i).mp hi
    rw [hget] at hid
    exact ⟨Array.mem_toList_iff.mpr (Array.mem_of_getElem? hget), Option.some.inj hid⟩
  · rintro ⟨hd, rfl⟩
    obtain ⟨i, hi⟩ := Array.getElem?_of_mem (Array.mem_toList_iff.mp hd)
    exact Option.bind_eq_some_iff.mpr ⟨i, (h d.id i).mpr (by simp [hi]), hi⟩

/-- No id is repeated. -/
theorem nodup_ids (h : s.Indexed) : (s.toList.map Document.id).Nodup := by
  rw [List.nodup_iff_pairwise_ne, List.pairwise_iff_getElem]
  intro i j hi hj hij heq
  simp only [List.length_map] at hi hj
  simp only [List.getElem_map] at heq
  have hi' : i < s.docs.size := hi
  have hj' : j < s.docs.size := hj
  have := h.position_unique (Array.getElem?_eq_getElem hi') (Array.getElem?_eq_getElem hj') heq
  omega

/-- Looking an id up finds the first document of the list that has it. -/
theorem get?_eq_find? (h : s.Indexed) (id : String) : s.get? id = s.toList.find? fun d => d.id = id := by
  cases hget : s.get? id with
  | none =>
    symm
    rw [List.find?_eq_none]
    intro d hd hid
    have := h.get?_eq_some_iff.mpr ⟨hd, of_decide_eq_true hid⟩
    rw [hget] at this
    cases this
  | some d =>
    obtain ⟨hd, hid⟩ := h.get?_eq_some_iff.mp hget
    cases hfind : s.toList.find? fun d => d.id = id with
    | none => exact absurd (decide_eq_true hid) (List.find?_eq_none.mp hfind d hd)
    | some e =>
      have hpe := List.find?_some hfind
      have he := h.get?_eq_some_iff.mpr ⟨List.mem_of_find?_eq_some hfind, of_decide_eq_true hpe⟩
      rw [hget] at he
      exact he

/-- No document is found under an id exactly when none has it. -/
theorem get?_eq_none_iff (h : s.Indexed) {id : String} : s.get? id = none ↔ ∀ d ∈ s.toList, d.id ≠ id := by
  rw [h.get?_eq_find?, List.find?_eq_none]
  simp only [decide_eq_true_eq, ne_eq]

/-- An id is contained exactly when a document has it. -/
theorem contains_iff (h : s.Indexed) {id : String} : s.contains id = true ↔ ∃ d ∈ s.toList, d.id = id := by
  rw [contains, Std.ExtTreeMap.contains_eq_isSome_getElem?, Option.isSome_iff_exists]
  constructor
  · rintro ⟨i, hi⟩
    obtain ⟨d, hd, hid⟩ := Option.map_eq_some_iff.mp ((h id i).mp hi)
    exact ⟨d, Array.mem_toList_iff.mpr (Array.mem_of_getElem? hd), hid⟩
  · rintro ⟨d, hd, hid⟩
    obtain ⟨i, hi⟩ := Array.getElem?_of_mem (Array.mem_toList_iff.mp hd)
    exact ⟨i, (h id i).mpr (by simp [hi, hid])⟩

/-- An id is contained exactly when a document is found under it. -/
theorem contains_eq_isSome_get? (h : s.Indexed) (id : String) : s.contains id = (s.get? id).isSome := by
  rw [Bool.eq_iff_iff, h.contains_iff, Option.isSome_iff_exists]
  simp only [h.get?_eq_some_iff]

/-- Inserting a document with a new id puts it at the end. -/
theorem insert_of_none (hi : s.index[doc.id]? = none) :
    s.insert doc = (none, ⟨s.docs.push doc, s.index.insert doc.id s.docs.size⟩) := by
  rw [DocumentSet.insert, hi]

/-- Inserting a document with an id that is there puts it into the place of the document with that id. -/
theorem insert_of_some {i : Nat} (hi : s.index[doc.id]? = some i) :
    s.insert doc = (s.docs[i]?, { s with docs := s.docs.setIfInBounds i doc }) := by
  rw [DocumentSet.insert, hi]

/-- Insertion keeps the index right. -/
theorem insert (h : s.Indexed) (doc : Document) : (s.insert doc).2.Indexed := by
  cases hi : s.index[doc.id]? with
  | none =>
    rw [insert_of_none hi]
    intro id i
    simp only [Std.ExtTreeMap.getElem?_insert, Array.getElem?_push]
    split
    · next heq =>
      obtain rfl := Std.LawfulEqOrd.eq_of_compare heq
      constructor
      · intro hs
        obtain rfl := Option.some.inj hs
        simp
      · intro hs
        split at hs
        · next he => rw [he]
        · have := (h doc.id i).mpr hs
          rw [hi] at this
          cases this
    · next hne =>
      rw [h id i]
      split
      · next he =>
        subst he
        simp only [Array.getElem?_size, Option.map_none, Option.map_some, Option.some.injEq, reduceCtorEq, false_iff]
        rintro rfl
        simp at hne
      · rfl
  | some j =>
    rw [insert_of_some hi]
    intro id i
    have hj := h.lt_size hi
    simp only [Array.getElem?_setIfInBounds]
    split
    · next he =>
      subst he
      rw [h id j, (h doc.id j).mp hi]
      rfl
    · exact h id i

/-- Insertion replaces the document with the same id in its place, or appends. -/
theorem toList_insert (h : s.Indexed) (doc : Document) :
    (s.insert doc).2.toList =
      if s.contains doc.id then s.toList.map fun d => if d.id = doc.id then doc else d else s.toList ++ [doc] := by
  rw [contains, Std.ExtTreeMap.contains_eq_isSome_getElem?]
  cases hi : s.index[doc.id]? with
  | none =>
    rw [insert_of_none hi]
    simp [toList]
  | some j =>
    rw [insert_of_some hi]
    simp only [toList, Array.toList_setIfInBounds, Option.isSome_some, if_true]
    apply List.ext_getElem?
    intro i
    rw [List.getElem?_set, List.getElem?_map]
    have hj := h.lt_size hi
    obtain ⟨e, he, heid⟩ := Option.map_eq_some_iff.mp ((h doc.id j).mp hi)
    split
    · next hij =>
      subst hij
      simp [hj, heid, Array.getElem?_eq_some_iff.mp he |>.2]
    · next hij =>
      cases hd : s.docs.toList[i]? with
      | none => rfl
      | some d =>
        simp only [Option.map_some, Option.some.injEq]
        rw [if_neg]
        intro hid
        rw [Array.getElem?_toList] at hd
        exact hij (h.position_unique he hd (heid.trans hid.symm))

/-- After an insertion the documents are the new one and those with other ids. -/
theorem mem_toList_insert (h : s.Indexed) {d : Document} :
    d ∈ (s.insert doc).2.toList ↔ d = doc ∨ d ∈ s.toList ∧ d.id ≠ doc.id := by
  rw [h.toList_insert]
  split
  · next hin =>
    rw [List.mem_map]
    constructor
    · rintro ⟨e, he, rfl⟩
      split
      · exact Or.inl rfl
      · next hne => exact Or.inr ⟨he, hne⟩
    · rintro (rfl | ⟨hd, hne⟩)
      · obtain ⟨e, he, hid⟩ := h.contains_iff.mp hin
        exact ⟨e, he, if_pos hid⟩
      · exact ⟨d, hd, if_neg hne⟩
  · next hout =>
    have hother : d ∈ s.toList → d.id ≠ doc.id := fun hd hid => hout (h.contains_iff.mpr ⟨d, hd, hid⟩)
    rw [List.mem_append, List.mem_singleton, or_comm]
    exact or_congr_right ⟨fun hd => ⟨hd, hother hd⟩, And.left⟩

/-- After an insertion the document is found under its id, and the others under theirs. -/
theorem get?_insert (h : s.Indexed) (doc : Document) (id : String) :
    (s.insert doc).2.get? id = if doc.id = id then some doc else s.get? id := by
  refine Option.ext fun d => ?_
  rw [(h.insert doc).get?_eq_some_iff, h.mem_toList_insert]
  split
  · next hid =>
    subst hid
    constructor
    · rintro ⟨rfl | ⟨-, hne⟩, hid⟩
      · rfl
      · exact absurd hid hne
    · intro hd
      obtain rfl := Option.some.inj hd
      exact ⟨Or.inl rfl, rfl⟩
  · next hne =>
    rw [h.get?_eq_some_iff]
    constructor
    · rintro ⟨rfl | ⟨hd, -⟩, hid⟩
      · exact absurd hid hne
      · exact ⟨hd, hid⟩
    · rintro ⟨hd, rfl⟩
      exact ⟨Or.inr ⟨hd, Ne.symm hne⟩, rfl⟩

/-- Removing an id that no document has does nothing. -/
theorem remove_of_none {id : String} (hi : s.index[id]? = none) : s.remove id = (none, s) := by
  rw [DocumentSet.remove, hi]

/-- Removing an id takes the document at its position out and moves those behind it up. -/
theorem remove_of_some {id : String} {i : Nat} (hi : s.index[id]? = some i) :
    s.remove id = (s.docs[i]?,
      ⟨s.docs.eraseIdxIfInBounds i, (s.index.erase id).map fun _ j => if i < j then j - 1 else j⟩) := by
  rw [DocumentSet.remove, hi]

/-- Removal keeps the index right. -/
theorem remove (h : s.Indexed) (id : String) : (s.remove id).2.Indexed := by
  cases hi : s.index[id]? with
  | none => rw [remove_of_none hi]; exact h
  | some i =>
    rw [remove_of_some hi]
    intro name k
    have hlt := h.lt_size hi
    have hat := (h id i).mp hi
    simp only [Std.ExtTreeMap.getElem?_map, Std.ExtTreeMap.getElem?_erase, Array.eraseIdxIfInBounds, dif_pos hlt,
      Array.getElem?_eraseIdx, Option.map_eq_some_iff]
    constructor
    · rintro ⟨j, hj, hk⟩
      split at hj
      · cases hj
      · next hne =>
        obtain ⟨d, hd, hid⟩ := Option.map_eq_some_iff.mp ((h name j).mp hj)
        refine ⟨d, ?_, hid⟩
        have hji : j ≠ i := by
          rintro rfl
          rw [hd] at hat
          exact hne (by rw [Std.LawfulEqOrd.compare_eq_iff_eq]; exact (Option.some.inj hat).symm.trans hid)
        split at hk
        · next hlt' => rw [if_neg (by omega), show k + 1 = j by omega, hd]
        · next hge => rw [if_pos (by omega), show k = j by omega, hd]
    · rintro ⟨d, hd, hid⟩
      have hname : ∀ j, s.docs[j]? = some d → j ≠ i → ¬compare id name = .eq := by
        intro j hj hji heq
        rw [Std.LawfulEqOrd.compare_eq_iff_eq] at heq
        have h₁ := (h name j).mpr (by rw [hj, Option.map_some, hid])
        rw [← heq, hi] at h₁
        exact hji (Option.some.inj h₁).symm
      split at hd
      · next hk =>
        refine ⟨k, ?_, by rw [if_neg (by omega)]⟩
        rw [if_neg (hname k hd (by omega))]
        exact (h name k).mpr (by rw [hd, Option.map_some, hid])
      · next hk =>
        refine ⟨k + 1, ?_, by rw [if_pos (by omega)]; rfl⟩
        rw [if_neg (hname (k + 1) hd (by omega))]
        exact (h name (k + 1)).mpr (by rw [hd, Option.map_some, hid])

/-- Removal leaves the other documents, in their order. -/
theorem toList_remove (h : s.Indexed) (id : String) :
    (s.remove id).2.toList = s.toList.filter fun d => d.id ≠ id := by
  cases hi : s.index[id]? with
  | none =>
    rw [remove_of_none hi, List.filter_eq_self.mpr]
    intro d hd
    obtain ⟨i, hget⟩ := Array.getElem?_of_mem (Array.mem_toList_iff.mp hd)
    refine decide_eq_true fun hid => ?_
    have := (h id i).mpr (by simp [hget, hid])
    rw [hi] at this
    cases this
  | some i =>
    rw [remove_of_some hi]
    have hlt : i < s.docs.toList.length := h.lt_size hi
    have hnd := h.nodup_ids
    have hid : s.docs.toList[i].id = id := by
      have := (h id i).mp hi
      rw [Array.getElem?_eq_getElem (h.lt_size hi)] at this
      exact Option.some.inj this
    have hsplit : s.docs.toList = s.docs.toList.take i ++ s.docs.toList[i] :: s.docs.toList.drop (i + 1) := by
      rw [← List.drop_eq_getElem_cons hlt, List.take_append_drop]
    have hkeep : ∀ d ∈ s.docs.toList.take i ++ s.docs.toList.drop (i + 1), d.id ≠ id := by
      intro d hd hdid
      rw [toList, hsplit, List.map_append, List.map_cons, List.nodup_append] at hnd
      obtain ⟨-, hnd, hne⟩ := hnd
      rcases List.mem_append.mp hd with hd | hd
      · exact hne _ (List.mem_map_of_mem hd) _ List.mem_cons_self (hdid.trans hid.symm)
      · exact (List.nodup_cons.mp hnd).1 (List.mem_map.mpr ⟨d, hd, hdid.trans hid.symm⟩)
    have hlist : (s.docs.eraseIdxIfInBounds i).toList = s.docs.toList.take i ++ s.docs.toList.drop (i + 1) := by
      rw [Array.eraseIdxIfInBounds, dif_pos (h.lt_size hi), Array.toList_eraseIdx, List.eraseIdx_eq_take_drop_succ]
    rw [toList, hlist, toList]
    conv => rhs; rw [hsplit]
    have hout : ¬decide (s.docs.toList[i].id ≠ id) = true := fun hne => absurd hid (of_decide_eq_true hne)
    rw [List.filter_append, List.filter_cons, if_neg hout, ← List.filter_append]
    exact (List.filter_eq_self.mpr fun d hd => decide_eq_true (hkeep d hd)).symm

/-- After a removal nothing is found under the id, and the others are found under theirs. -/
theorem get?_remove (h : s.Indexed) (id other : String) :
    (s.remove id).2.get? other = if other = id then none else s.get? other := by
  refine Option.ext fun d => ?_
  rw [(h.remove id).get?_eq_some_iff, h.toList_remove, List.mem_filter, decide_eq_true_eq]
  split
  · next hid =>
    subst hid
    simp
  · next hne =>
    rw [h.get?_eq_some_iff]
    constructor
    · rintro ⟨⟨hd, -⟩, hid⟩
      exact ⟨hd, hid⟩
    · rintro ⟨hd, rfl⟩
      exact ⟨⟨hd, hne⟩, rfl⟩

/-- Changing fields of a document keeps the index right. -/
theorem modify (h : s.Indexed) (id : String) (f : Document → Document) : (s.modify id f).Indexed := by
  cases hi : s.index[id]? with
  | none => rw [DocumentSet.modify, hi]; exact h
  | some i =>
    rw [DocumentSet.modify, hi]
    intro name k
    rw [h name k]
    simp only [Array.getElem?_modify]
    split
    · cases s.docs[k]? <;> rfl
    · rfl

/-- Changing fields of a document changes the document with the id and no other. -/
theorem toList_modify (h : s.Indexed) (id : String) (f : Document → Document) :
    (s.modify id f).toList = s.toList.map fun d => if d.id = id then { f d with id := d.id } else d := by
  apply List.ext_getElem?
  intro k
  have hk : s.toList[k]? = s.docs[k]? := Array.getElem?_toList
  rw [List.getElem?_map, hk]
  cases hi : s.index[id]? with
  | none =>
    rw [DocumentSet.modify, hi]
    change s.docs.toList[k]? = _
    rw [Array.getElem?_toList]
    cases hd : s.docs[k]? with
    | none => rfl
    | some d =>
      rw [Option.map_some, if_neg]
      intro hid
      have := (h id k).mpr (by rw [hd, Option.map_some, hid])
      rw [hi] at this
      cases this
  | some i =>
    rw [DocumentSet.modify, hi]
    change (s.docs.modify i _).toList[k]? = _
    rw [Array.getElem?_toList, Array.getElem?_modify]
    cases hd : s.docs[k]? with
    | none => split <;> rfl
    | some d =>
      have hid : d.id = id ↔ i = k := by
        constructor
        · intro hid
          have := (h id k).mpr (by rw [hd, Option.map_some, hid])
          rw [hi] at this
          exact Option.some.inj this
        · rintro rfl
          have := (h id i).mp hi
          rw [hd] at this
          exact Option.some.inj this
      simp only [Option.map_some, hid]
      split <;> rfl

/-- Changing fields of all documents keeps the index right. -/
theorem map (h : s.Indexed) (f : Document → Document) : (s.map f).Indexed := by
  intro name k
  change s.index[name]? = some k ↔ _
  rw [h name k]
  simp only [DocumentSet.map, Array.getElem?_map]
  cases s.docs[k]? <;> rfl

/-- Two sets with the same documents in the same order are the same set. -/
theorem eq_of_toList_eq {t : DocumentSet} (h : s.Indexed) (ht : t.Indexed) (heq : s.toList = t.toList) : s = t := by
  obtain ⟨docs, index⟩ := s
  obtain ⟨docs', index'⟩ := t
  obtain rfl : docs = docs' := Array.toList_inj.mp heq
  obtain rfl : index = index' := by
    refine Std.ExtTreeMap.ext_getElem? fun id => Option.ext fun i => ?_
    exact (h id i).trans (ht id i).symm
  rfl

/-- A change that would keep the document as it is keeps the set as it is. -/
theorem modify_eq_self (h : s.Indexed) {id : String} {f : Document → Document}
    (hf : ∀ d, s.get? id = some d → { f d with id := d.id } = d) : s.modify id f = s := by
  refine (h.modify id f).eq_of_toList_eq h ?_
  rw [h.toList_modify]
  refine (List.map_congr_left fun d hd => ?_).trans (List.map_id _)
  split
  · next hid => exact hf d (h.get?_eq_some_iff.mpr ⟨hd, hid⟩)
  · rfl

end Indexed

/-- The set of the documents of a list has its index right. -/
theorem indexed_ofList (docs : List Document) : (ofList docs).Indexed := by
  have go : ∀ (docs : List Document) (s : DocumentSet), s.Indexed →
      (docs.foldl (fun s d => (s.insert d).2) s).Indexed := by
    intro docs
    induction docs with
    | nil => exact fun s h => h
    | cons d docs ih => exact fun s h => ih _ (h.insert d)
  exact go docs empty indexed_empty

/-- The set of a list with a document more is the set of the list with the document put in. -/
theorem ofList_concat (docs : List Document) (d : Document) : ofList (docs ++ [d]) = ((ofList docs).insert d).2 := by
  rw [ofList, List.foldl_append]
  rfl

/-- Under an id the set of a list has the last document of the list with the id. -/
theorem get?_ofList (docs : List Document) (id : String) :
    (ofList docs).get? id = docs.reverse.find? fun d => d.id = id := by
  suffices h : ∀ rdocs : List Document, (ofList rdocs.reverse).get? id = rdocs.find? fun d => d.id = id by
    rw [← h docs.reverse, List.reverse_reverse]
  intro rdocs
  induction rdocs with
  | nil => exact (indexed_ofList []).get?_eq_find? id
  | cons d rdocs ih =>
    rw [List.reverse_cons, ofList_concat, (indexed_ofList _).get?_insert, ih, List.find?_cons]
    by_cases hid : d.id = id <;> simp [hid]

/-- The documents of the set of a list have the places of the first ones with their ids. -/
theorem map_id_toList_ofList (docs : List Document) :
    (ofList docs).toList.map Document.id = Order.firsts (docs.map Document.id) := by
  suffices h : ∀ rdocs : List Document,
      (ofList rdocs.reverse).toList.map Document.id = Order.firsts (rdocs.reverse.map Document.id) by
    rw [← List.reverse_reverse docs]
    exact h docs.reverse
  intro rdocs
  induction rdocs with
  | nil => rfl
  | cons d rdocs ih =>
    have hin : (ofList rdocs.reverse).contains d.id = true ↔ d.id ∈ rdocs.reverse.map Document.id := by
      rw [(indexed_ofList _).contains_iff, ← Order.mem_firsts, ← ih, List.mem_map]
    rw [List.reverse_cons, ofList_concat, (indexed_ofList _).toList_insert, List.map_append, List.map_singleton,
      Order.firsts_concat]
    by_cases hd : d.id ∈ rdocs.reverse.map Document.id
    · rw [if_pos (hin.mpr hd), if_pos hd, ← ih, List.map_map]
      refine List.map_congr_left fun e _ => ?_
      rw [Function.comp_apply]
      split
      · next hid => exact hid.symm
      · rfl
    · rw [if_neg (mt hin.mp hd), if_neg hd, List.map_append, List.map_singleton, ih]

/-- The set of the documents of a list in which no id is repeated has the documents of the list in their order. -/
theorem toList_ofList {docs : List Document} (h : (docs.map Document.id).Nodup) : (ofList docs).toList = docs := by
  have go : ∀ (docs : List Document) (s : DocumentSet), s.Indexed → ((s.toList ++ docs).map Document.id).Nodup →
      (docs.foldl (fun s d => (s.insert d).2) s).toList = s.toList ++ docs := by
    intro docs
    induction docs with
    | nil => exact fun s _ _ => (List.append_nil _).symm
    | cons d docs ih =>
      intro s hs hnd
      have hnew : ¬s.contains d.id = true := by
        rw [hs.contains_iff]
        rintro ⟨e, he, hid⟩
        rw [List.map_append, List.map_cons, List.nodup_append] at hnd
        exact hnd.2.2 _ (List.mem_map_of_mem he) _ List.mem_cons_self hid
      have hlist : (s.insert d).2.toList = s.toList ++ [d] := by rw [hs.toList_insert, if_neg hnew]
      have hcons : s.toList ++ d :: docs = (s.insert d).2.toList ++ docs := by simp [hlist]
      rw [hcons] at hnd ⊢
      exact ih _ (hs.insert d) hnd
  exact go docs empty indexed_empty h

/-- A set is the set of its documents. -/
theorem Indexed.ofList_toList {s : DocumentSet} (h : s.Indexed) : ofList s.toList = s :=
  (indexed_ofList _).eq_of_toList_eq h (toList_ofList h.nodup_ids)

end PromptMacros.DocumentSet
