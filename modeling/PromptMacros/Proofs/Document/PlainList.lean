import PromptMacros.Document.Index

/-!
# Document sets as plain lists

What a document set does through its index, a plain list of documents does by searching from its front. A change of a plain list
(`DocumentList.change`) cuts the list at the first document with the id and puts the parts together again. A set goes along
with its list in every change (`Indexed.change_agrees`), and so in every run of changes: the answers are the same, and the set
agrees with the list in all that can be asked of it (`agrees_runChanges`).
-/

namespace PromptMacros

/-- A change of a collection of documents. -/
inductive DocumentChange
  /-- Puts a document in. -/
  | insert (doc : Document)
  /-- Takes the document with this id out. -/
  | remove (id : String)
  /-- Changes fields of the document with this id, which keeps its id. -/
  | modify (id : String) (f : Document → Document)
  /-- Changes fields of all documents, which keep their ids. No two have one id, so `f` may do something else to each. -/
  | modifyAll (f : Document → Document)

/-- Makes changes in turn: the document that each replaced or removed, and what is there after them. -/
def runChanges {σ : Type} (change : σ → DocumentChange → Option Document × σ) (s : σ) :
    List DocumentChange → List (Option Document) × σ
  | [] => ([], s)
  | c :: cs =>
    let (answer, s) := change s c
    let (answers, s) := runChanges change s cs
    (answer :: answers, s)

/-! ## Plain lists -/

namespace DocumentList

/-- The documents before the first one with this id, that one, and the documents behind it. -/
def cut? (id : String) : List Document → Option (List Document × Document × List Document)
  | [] => none
  | d :: docs => if d.id = id then some ([], d, docs) else (cut? id docs).map fun (before, e, after) => (d :: before, e, after)

/-- Makes a change in a plain list: the document replaced or removed, if there was one, and the list. -/
def change (docs : List Document) : DocumentChange → Option Document × List Document
  | .insert doc =>
    match cut? doc.id docs with
    | none => (none, docs ++ [doc])
    | some (before, old, after) => (some old, before ++ doc :: after)
  | .remove id =>
    match cut? id docs with
    | none => (none, docs)
    | some (before, old, after) => (some old, before ++ after)
  | .modify id f =>
    match cut? id docs with
    | none => (none, docs)
    | some (before, old, after) => (none, before ++ { f old with id := old.id } :: after)
  | .modifyAll f => (none, docs.map fun d => { f d with id := d.id })

/-- Documents put into an empty list in turn. -/
def collect (docs : List Document) : List Document :=
  (runChanges change [] (docs.map .insert)).2

/-- A list in which no id is repeated has no document with an id, or one between others with other ids. -/
theorem cut?_cases {docs : List Document} (h : (docs.map Document.id).Nodup) (id : String) :
    (cut? id docs = none ∧ ∀ d ∈ docs, d.id ≠ id) ∨
      ∃ before d after, cut? id docs = some (before, d, after) ∧ docs = before ++ d :: after ∧ d.id = id ∧
        (∀ e ∈ before, e.id ≠ id) ∧ ∀ e ∈ after, e.id ≠ id := by
  induction docs with
  | nil => exact Or.inl ⟨rfl, by simp⟩
  | cons d docs ih =>
    rw [List.map_cons, List.nodup_cons] at h
    by_cases hd : d.id = id
    · refine Or.inr ⟨[], d, docs, if_pos hd, rfl, hd, by simp, ?_⟩
      intro e he heid
      exact h.1 (List.mem_map.mpr ⟨e, he, heid.trans hd.symm⟩)
    · rcases ih h.2 with ⟨hcut, hnone⟩ | ⟨before, e, after, hcut, rfl, he, hbefore, hafter⟩
      · exact Or.inl ⟨by rw [cut?, if_neg hd, hcut]; rfl, List.forall_mem_cons.mpr ⟨hd, hnone⟩⟩
      · exact Or.inr ⟨d :: before, e, after, by rw [cut?, if_neg hd, hcut]; rfl, rfl, he,
          List.forall_mem_cons.mpr ⟨hd, hbefore⟩, hafter⟩

section Others

variable {id : String} {docs : List Document}

/-- A change of the document with an id leaves the documents with other ids. -/
theorem map_eq_self {f : Document → Document} (h : ∀ d ∈ docs, d.id ≠ id) :
    (docs.map fun d => if d.id = id then f d else d) = docs :=
  (List.map_congr_left fun d hd => if_neg (h d hd)).trans (List.map_id _)

/-- Taking the documents with an id out leaves the documents with other ids. -/
theorem filter_eq_self (h : ∀ d ∈ docs, d.id ≠ id) : docs.filter (fun d => d.id ≠ id) = docs :=
  List.filter_eq_self.mpr fun d hd => decide_eq_true (h d hd)

end Others

end DocumentList

/-! ## Sets -/

namespace DocumentSet

/-- Makes a change in a set: the document replaced or removed, if there was one, and the set. -/
def change (s : DocumentSet) : DocumentChange → Option Document × DocumentSet
  | .insert doc => s.insert doc
  | .remove id => s.remove id
  | .modify id f => (none, s.modify id f)
  | .modifyAll f => (none, s.map f)

/-- The set keeps its index, and answers what the plain list answers. -/
structure Agrees (s : DocumentSet) (docs : List Document) : Prop where
  /-- The index leads to places of the set only, and an id to a document that has it. -/
  inBounds : ∀ id i, s.index[id]? = some i → ∃ h : i < s.docs.size, s.docs[i].id = id
  /-- The index leads to every document. -/
  covers : ∀ i, (h : i < s.docs.size) → s.index[s.docs[i].id]? = some i
  toList : s.toList = docs
  get? : ∀ id, s.get? id = docs.find? fun d => d.id = id
  contains : ∀ id, s.contains id = docs.any fun d => d.id = id
  size : s.size = docs.length
  isEmpty : s.isEmpty = docs.isEmpty

/-- Two sets are equal when they have the same documents in the same order. -/
theorem beq_iff_toList_eq {s t : DocumentSet} : (s == t) = true ↔ s.toList = t.toList := by
  change (s.docs == t.docs) = true ↔ s.docs.toList = t.docs.toList
  rw [beq_iff_eq, Array.toList_inj]

namespace Indexed

variable {s : DocumentSet}

/-- A set whose index is right agrees with its list. -/
theorem agrees (h : s.Indexed) : s.Agrees s.toList where
  inBounds id i hi := by
    have hlt := h.lt_size hi
    have hid := (h id i).mp hi
    rw [Array.getElem?_eq_getElem hlt] at hid
    exact ⟨hlt, Option.some.inj hid⟩
  covers i hi := (h _ i).mpr (by rw [Array.getElem?_eq_getElem hi]; rfl)
  toList := rfl
  get? := h.get?_eq_find?
  contains id := by
    rw [Bool.eq_iff_iff, h.contains_iff, List.any_eq_true]
    simp only [decide_eq_true_eq]
  size := (Array.length_toList).symm
  isEmpty := (Array.isEmpty_toList).symm

/-- Every change keeps the index right. -/
theorem change (h : s.Indexed) (c : DocumentChange) : (s.change c).2.Indexed := by
  cases c with
  | insert doc => exact h.insert doc
  | remove id => exact h.remove id
  | modify id f => exact h.modify id f
  | modifyAll f => exact h.map f

/-- Looking an id up finds the document at which the list is cut. -/
theorem get?_of_split (h : s.Indexed) {before after : List Document} {d : Document}
    (hs : s.toList = before ++ d :: after) : s.get? d.id = some d :=
  h.get?_eq_some_iff.mpr ⟨by simp [hs], rfl⟩

/-- Insertion in a set does what it does in the list of the documents. -/
theorem insert_agrees (h : s.Indexed) (doc : Document) :
    (s.insert doc).1 = (DocumentList.change s.toList (.insert doc)).1 ∧
      (s.insert doc).2.toList = (DocumentList.change s.toList (.insert doc)).2 := by
  rw [fst_insert, h.toList_insert, DocumentList.change]
  rcases DocumentList.cut?_cases h.nodup_ids doc.id with ⟨hcut, hnone⟩ | ⟨before, d, after, hcut, hs, hd, hbefore, hafter⟩
  · have hnew : ¬s.contains doc.id = true := by
      intro hc
      obtain ⟨d, hd, hid⟩ := h.contains_iff.mp hc
      exact hnone d hd hid
    rw [hcut, h.get?_eq_none_iff.mpr hnone, if_neg hnew]
    exact ⟨rfl, rfl⟩
  · have hold : s.contains doc.id = true := h.contains_iff.mpr ⟨d, by simp [hs], hd⟩
    rw [hcut, ← hd, h.get?_of_split hs, hd, if_pos hold, hs, List.map_append, List.map_cons, if_pos hd,
      DocumentList.map_eq_self hbefore, DocumentList.map_eq_self hafter]
    exact ⟨rfl, rfl⟩

/-- Removal from a set does what it does in the list of the documents. -/
theorem remove_agrees (h : s.Indexed) (id : String) :
    (s.remove id).1 = (DocumentList.change s.toList (.remove id)).1 ∧
      (s.remove id).2.toList = (DocumentList.change s.toList (.remove id)).2 := by
  rw [fst_remove, h.toList_remove, DocumentList.change]
  rcases DocumentList.cut?_cases h.nodup_ids id with ⟨hcut, hnone⟩ | ⟨before, d, after, hcut, hs, hd, hbefore, hafter⟩
  · rw [hcut, h.get?_eq_none_iff.mpr hnone, DocumentList.filter_eq_self hnone]
    exact ⟨rfl, rfl⟩
  · have hout : ¬decide (d.id ≠ id) = true := fun hne => of_decide_eq_true hne hd
    rw [hcut, ← hd, h.get?_of_split hs, hd, hs, List.filter_append, List.filter_cons, if_neg hout,
      DocumentList.filter_eq_self hbefore, DocumentList.filter_eq_self hafter]
    exact ⟨rfl, rfl⟩

/-- Changing fields of a document in a set changes them in the list of the documents. -/
theorem modify_agrees (h : s.Indexed) (id : String) (f : Document → Document) :
    none = (DocumentList.change s.toList (.modify id f)).1 ∧
      (s.modify id f).toList = (DocumentList.change s.toList (.modify id f)).2 := by
  rw [h.toList_modify, DocumentList.change]
  rcases DocumentList.cut?_cases h.nodup_ids id with ⟨hcut, hnone⟩ | ⟨before, d, after, hcut, hs, hd, hbefore, hafter⟩
  · rw [hcut, DocumentList.map_eq_self hnone]
    exact ⟨rfl, rfl⟩
  · rw [hcut, hs, List.map_append, List.map_cons, if_pos hd, DocumentList.map_eq_self hbefore,
      DocumentList.map_eq_self hafter]
    exact ⟨rfl, rfl⟩

/-- A set makes every change that the list of its documents makes, and gives the same answer. -/
theorem change_agrees (h : s.Indexed) (c : DocumentChange) :
    (s.change c).1 = (DocumentList.change s.toList c).1 ∧ (s.change c).2.toList = (DocumentList.change s.toList c).2 := by
  cases c with
  | insert doc => exact h.insert_agrees doc
  | remove id => exact h.remove_agrees id
  | modify id f => exact h.modify_agrees id f
  | modifyAll f => exact ⟨rfl, toList_map s f⟩

/-- A set makes every run of changes that the list of its documents makes, and gives the same answers. -/
theorem runChanges_agrees (h : s.Indexed) (changes : List DocumentChange) :
    (runChanges DocumentSet.change s changes).1 = (runChanges DocumentList.change s.toList changes).1 ∧
      (runChanges DocumentSet.change s changes).2.toList = (runChanges DocumentList.change s.toList changes).2 ∧
      (runChanges DocumentSet.change s changes).2.Indexed := by
  induction changes generalizing s with
  | nil => exact ⟨rfl, rfl, h⟩
  | cons c changes ih =>
    -- The rest runs in the list that the first change has left, which is that of the set.
    obtain ⟨hanswer, hlist⟩ := h.change_agrees c
    obtain ⟨hanswers, hlists, hindexed⟩ := ih (h.change c)
    rw [hlist] at hanswers hlists
    refine ⟨?_, hlists, hindexed⟩
    rw [runChanges, runChanges]
    exact List.cons_eq_cons.mpr ⟨hanswer, hanswers⟩

end Indexed

/-- The set of the documents of a list is what inserting them in turn makes of the empty set. -/
theorem ofList_eq_runChanges (docs : List Document) :
    ofList docs = (runChanges change ∅ (docs.map .insert)).2 := by
  have go : ∀ (docs : List Document) (s : DocumentSet),
      docs.foldl (fun s d => (s.insert d).2) s = (runChanges change s (docs.map .insert)).2 := by
    intro docs
    induction docs with
    | nil => exact fun s => rfl
    | cons d docs ih => exact fun s => ih _
  exact go docs ∅

/-- The documents of a list, collected in a set, are those collected in a plain list. -/
theorem toList_ofList_eq_collect (docs : List Document) : (ofList docs).toList = DocumentList.collect docs := by
  rw [ofList_eq_runChanges]
  exact (indexed_empty.runChanges_agrees _).2.1

/-- Whatever documents a set is made of, none included, and whatever changes are made in it: the answers are those of a plain
list, the set agrees with the list after them, and two such sets are equal when their lists are. -/
theorem agrees_runChanges (docs : List Document) (changes : List DocumentChange) :
    (runChanges change (ofList docs) changes).1 = (runChanges DocumentList.change (DocumentList.collect docs) changes).1 ∧
    (runChanges change (ofList docs) changes).2.Agrees
      (runChanges DocumentList.change (DocumentList.collect docs) changes).2 ∧
    ∀ docs' changes', ((runChanges change (ofList docs) changes).2 == (runChanges change (ofList docs') changes').2) = true ↔
      (runChanges DocumentList.change (DocumentList.collect docs) changes).2 =
        (runChanges DocumentList.change (DocumentList.collect docs') changes').2 := by
  obtain ⟨hanswers, hlist, hindexed⟩ := (indexed_ofList docs).runChanges_agrees changes
  rw [toList_ofList_eq_collect] at hanswers hlist
  refine ⟨hanswers, ?_, ?_⟩
  · have hagrees := hindexed.agrees
    rwa [hlist] at hagrees
  · intro docs' changes'
    have hlist' := ((indexed_ofList docs').runChanges_agrees changes').2.1
    rw [toList_ofList_eq_collect] at hlist'
    rw [beq_iff_toList_eq, hlist, hlist']

end DocumentSet

end PromptMacros
