import Mathlib.Data.List.Forall2
import PromptMacros.Document.Index
import PromptMacros.Proofs.Analysis.Flow

/-!
# Document sets that differ in contents

Two sets are the same but for the contents of some documents (`SameBut`) when they have the same ids in the same places, with
the same flags, and differ in content at most under the ids given. With no id given, an analysis cannot tell them apart
(`SameBut.agreeOn`). Changes in place stay within this: a name or a role is not looked at (`sameBut_modify`), and a new content
concerns the one document only (`Indexed.sameBut_modify_content`). A document that is added is not looked at by an order that
does not list it (`Indexed.agreeOn_insert`).
-/

namespace PromptMacros

/-- Two documents have one id and one flag, and one content too unless the id is among those `edited`. -/
structure Document.SameBut (edited : List String) (d e : Document) : Prop where
  id : d.id = e.id
  enabled : d.enabled = e.enabled
  content : e.id ∉ edited → d.content = e.content

theorem Document.SameBut.refl (edited : List String) (d : Document) : d.SameBut edited d :=
  ⟨rfl, rfl, fun _ => rfl⟩

theorem Document.SameBut.trans {a b : List String} {d e f : Document} (h : d.SameBut a e) (h' : e.SameBut b f) :
    d.SameBut (b ++ a) f := by
  refine ⟨h.id.trans h'.id, h.enabled.trans h'.enabled, ?_⟩
  intro hf
  rw [List.mem_append, not_or] at hf
  exact (h.content (h'.id ▸ hf.2)).trans (h'.content hf.1)

/-- Documents that are the same throughout have one essence. -/
theorem Document.SameBut.essence_eq {d e : Document} (h : d.SameBut [] e) : d.essence = e.essence :=
  Document.essence_eq_iff.mpr ⟨h.id, h.enabled, h.content List.not_mem_nil⟩

namespace DocumentSet

/-- Two sets have the same ids in the same places with the same flags, and the same contents but under the ids `edited`. -/
structure SameBut (edited : List String) (s t : DocumentSet) : Prop where
  index : s.index = t.index
  docs : List.Forall₂ (Document.SameBut edited) s.toList t.toList

namespace SameBut

variable {edited : List String} {s t : DocumentSet}

theorem refl (edited : List String) (s : DocumentSet) : SameBut edited s s :=
  ⟨rfl, List.forall₂_same.mpr fun d _ => .refl edited d⟩

theorem trans {a b : List String} {u : DocumentSet} (h : SameBut a s t) (h' : SameBut b t u) : SameBut (b ++ a) s u := by
  refine ⟨h.index.trans h'.index, ?_⟩
  have hlen := h.docs.length_eq.trans h'.docs.length_eq
  refine List.forall₂_of_length_eq_of_get hlen ?_
  intro i hi hi'
  have hit : i < t.toList.length := h.docs.length_eq ▸ hi
  exact (h.docs.get hi hit).trans (h'.docs.get hit hi')

/-- At every place the documents are the same but for what is `edited`, or neither set has one there. -/
theorem getElem? (h : SameBut edited s t) (i : Nat) :
    (s.docs[i]? = none ∧ t.docs[i]? = none) ∨
      ∃ d e, s.docs[i]? = some d ∧ t.docs[i]? = some e ∧ d.SameBut edited e := by
  rw [← Array.getElem?_toList, ← Array.getElem?_toList]
  change (s.toList[i]? = none ∧ t.toList[i]? = none) ∨ ∃ d e, s.toList[i]? = some d ∧ t.toList[i]? = some e ∧ _
  by_cases hi : i < s.toList.length
  · have hit : i < t.toList.length := h.docs.length_eq ▸ hi
    exact Or.inr ⟨_, _, List.getElem?_eq_getElem hi, List.getElem?_eq_getElem hit, h.docs.get hi hit⟩
  · have hit : ¬i < t.toList.length := h.docs.length_eq ▸ hi
    exact Or.inl ⟨List.getElem?_eq_none (Nat.le_of_not_lt hi), List.getElem?_eq_none (Nat.le_of_not_lt hit)⟩

/-- The index of one is right when that of the other is. -/
theorem indexed (h : SameBut edited s t) (ht : t.Indexed) : s.Indexed := by
  intro id i
  rw [h.index, ht id i]
  rcases h.getElem? i with ⟨hs, ht⟩ | ⟨d, e, hs, ht, hde⟩
  · rw [hs, ht]
  · rw [hs, ht, Option.map_some, Option.map_some, hde.id]

/-- Sets that are the same throughout agree on every order. -/
theorem agreeOn (h : SameBut [] s t) (order : List String) : Provider.AgreeOn order s.provider t.provider := by
  intro id _
  change (s.get? id).map _ = (t.get? id).map _
  rw [get?, get?, h.index]
  cases t.index[id]? with
  | none => rfl
  | some i =>
    change s.docs[i]?.map _ = t.docs[i]?.map _
    rcases h.getElem? i with ⟨hs, ht⟩ | ⟨d, e, hs, ht, hde⟩
    · rw [hs, ht]
    · rw [hs, ht, Option.map_some, Option.map_some, hde.essence_eq]

end SameBut

/-- A change that keeps flags and contents leaves a set the same throughout. -/
theorem sameBut_modify (s : DocumentSet) (id : String) {f : Document → Document}
    (hf : ∀ d, (f d).enabled = d.enabled ∧ (f d).content = d.content) : SameBut [] s (s.modify id f) := by
  unfold modify
  split
  · next i _ =>
    refine ⟨rfl, ?_⟩
    change List.Forall₂ _ s.docs.toList (s.docs.modify i _).toList
    rw [Array.toList_modify]
    refine List.forall₂_of_length_eq_of_get (List.length_modify ..).symm ?_
    intro j hj hj'
    simp only [List.get_eq_getElem, List.getElem_modify]
    split
    · exact ⟨rfl, (hf _).1.symm, fun _ => (hf _).2.symm⟩
    · exact .refl [] _
  · exact .refl [] s

/-- A new content for a document leaves a set the same but for the content under its id. -/
theorem Indexed.sameBut_modify_content {s : DocumentSet} (h : s.Indexed) (id content : String) :
    SameBut [id] s (s.modify id fun d => { d with content := content }) := by
  refine ⟨?_, ?_⟩
  · unfold DocumentSet.modify
    split <;> rfl
  · rw [h.toList_modify, List.forall₂_map_right_iff, List.forall₂_same]
    intro d _
    split
    · next hd => exact ⟨rfl, rfl, fun hn => absurd (List.mem_singleton.mpr hd) hn⟩
    · exact .refl [id] d

/-- An order that does not list a document does not tell whether a set has it. -/
theorem Indexed.agreeOn_insert {s : DocumentSet} (h : s.Indexed) {doc : Document} {order : List String}
    (hdoc : doc.id ∉ order) : Provider.AgreeOn order (s.insert doc).2.provider s.provider := by
  intro id hid
  have hne : doc.id ≠ id := fun he => hdoc (he ▸ hid)
  change ((s.insert doc).2.get? id).map _ = (s.get? id).map _
  rw [h.get?_insert, if_neg hne]

end DocumentSet

end PromptMacros
