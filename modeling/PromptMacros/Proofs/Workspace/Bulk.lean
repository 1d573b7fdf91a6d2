import PromptMacros.Proofs.Workspace.Reachable

/-!
# Removal in bulk

A removal in bulk is the removal of one document after another (`removeMany_eq_removeEach`). Taking a document out looks at the
documents, the order and the selection, never at the report (`dropRemovable_with_report`), so of all the analyses that the single
removals run only the last one shows. The ids of the documents taken are those of the list that are removable before anything is
removed, each at its first place (`fst_dropRemovable`): a document that was taken is not there when its id comes again.
-/

namespace PromptMacros.Workspace

/-- Removes documents one by one, each with an analysis. An id without a document at its turn is passed over, and so is a protected
document; the ids for which a document was removed. -/
def removeEach (w : Workspace) : List String → List String × Workspace
  | [] => ([], w)
  | id :: ids =>
    match w.documents.get? id with
    | none => w.removeEach ids
    | some doc =>
      if w.config.protectStructural && doc.isStructural then w.removeEach ids
      else
        let (document, v) := w.remove id
        let (removed, v) := v.removeEach ids
        (if document.isSome then id :: removed else removed, v)

variable {w : Workspace}

/-! ## One analysis for all -/

/-- What is taken out does not depend on the report, which stays as it is. -/
theorem dropRemovable_with_report (w : Workspace) (report : Report) (ids : List String) :
    dropRemovable { w with report := report } ids =
      ((w.dropRemovable ids).1, { (w.dropRemovable ids).2 with report := report }) := by
  induction ids generalizing w with
  | nil => rfl
  | cons id ids ih =>
    unfold dropRemovable
    change (if w.isRemovable id then _ else _) = _
    split
    · change (id :: (dropRemovable { w.dropDocument id with report := report } ids).1,
        (dropRemovable { w.dropDocument id with report := report } ids).2) = _
      rw [ih]
    · exact ih w

/-- Removing documents one by one is removing the first if it is removable, and then the others. -/
theorem removeEach_cons (id : String) (ids : List String) :
    w.removeEach (id :: ids) =
      if w.isRemovable id then
        (id :: ((w.dropDocument id).analyzed.removeEach ids).1, ((w.dropDocument id).analyzed.removeEach ids).2)
      else w.removeEach ids := by
  rw [removeEach, isRemovable, remove]
  cases w.documents.get? id with
  | none => rfl
  | some doc =>
    dsimp only [Option.any_some]
    by_cases hprotected : (w.config.protectStructural && doc.isStructural) = true
    · rw [if_pos hprotected, if_neg (by simp [hprotected])]
    · rw [if_neg hprotected]
      exact (if_pos (by simp [hprotected])).symm

/-- A removal in bulk from an analyzed workspace analyzes what is left, whether it takes documents out or not. -/
theorem removeMany_analyzed (w : Workspace) (ids : List String) :
    w.analyzed.removeMany ids = ((w.dropRemovable ids).1, (w.dropRemovable ids).2.analyzed) := by
  have hdrop : w.analyzed.dropRemovable ids =
      ((w.dropRemovable ids).1, { (w.dropRemovable ids).2 with report := w.analyzed.report }) :=
    dropRemovable_with_report w _ ids
  rw [removeMany, hdrop]
  dsimp only
  split
  · next hempty =>
    -- With nothing taken out the report is still that of the first analysis, which is of what is left.
    rw [dropRemovable_eq_self (List.isEmpty_iff.mp hempty)]
    rfl
  · rfl

/-- A removal in bulk is the removal of one document after another. -/
theorem removeMany_eq (w : Workspace) (ids : List String) : w.removeMany ids = w.removeEach ids := by
  induction ids generalizing w with
  | nil => rfl
  | cons id ids ih =>
    rw [removeEach_cons, ← ih, ← ih, removeMany_analyzed]
    split
    · next hid =>
      rw [removeMany, dropRemovable, if_pos hid]
      rfl
    · next hid => rw [removeMany, dropRemovable, if_neg hid, removeMany]

/-! ## What is taken out -/

/-- After a document was taken out it is not removable, and the others are if they were. -/
theorem isRemovable_dropDocument (h : w.documents.Indexed) (id other : String) :
    (w.dropDocument id).isRemovable other = (other ≠ id && w.isRemovable other) := by
  change ((w.documents.remove id).2.get? other).any _ = _
  rw [h.get?_remove]
  by_cases hid : other = id <;> simp [hid, isRemovable, dropDocument]

/-- The ids of the documents taken out are the removable ones of the list, each at its first place. -/
theorem fst_dropRemovable (h : w.documents.Indexed) (ids : List String) :
    (w.dropRemovable ids).1 = (Order.firsts ids).filter fun id => w.isRemovable id := by
  induction ids generalizing w with
  | nil => rfl
  | cons id ids ih =>
    rw [dropRemovable, Order.firsts, List.filter_cons, List.filter_filter]
    split
    · change id :: ((w.dropDocument id).dropRemovable ids).1 = _
      rw [ih (indexed_dropDocument h id)]
      simp only [isRemovable_dropDocument h, Bool.and_comm]
    · next hid =>
      rw [ih h]
      refine List.filter_congr fun other _ => ?_
      by_cases hother : other = id
      · subst hother
        simp [hid]
      · simp [hother]

/-- The documents left are those whose ids were not taken. -/
theorem documents_dropRemovable (h : w.documents.Indexed) (ids : List String) :
    (w.dropRemovable ids).2.documents.toList = w.documents.toList.filter fun d => d.id ∉ (w.dropRemovable ids).1 := by
  induction ids generalizing w with
  | nil => simp [dropRemovable]
  | cons id ids ih =>
    rw [dropRemovable]
    split
    · change ((w.dropDocument id).dropRemovable ids).2.documents.toList = _
      rw [ih (indexed_dropDocument h id)]
      change ((w.documents.remove id).2.toList.filter _) = _
      rw [h.toList_remove, List.filter_filter]
      simp [Bool.and_comm]
    · exact ih h

/-- The order left is that without the ids that were taken. -/
theorem order_dropRemovable (w : Workspace) (ids : List String) :
    (w.dropRemovable ids).2.order = Order.withoutAll (w.dropRemovable ids).1 w.order := by
  induction ids generalizing w with
  | nil => exact (Order.withoutAll_nil w.order).symm
  | cons id ids ih =>
    rw [dropRemovable]
    split
    · change ((w.dropDocument id).dropRemovable ids).2.order = _
      rw [ih]
      change Order.withoutAll _ (Order.without id w.order) = _
      rw [Order.without, Order.withoutAll, Order.withoutAll, List.filter_filter]
      simp [Bool.and_comm]
    · exact ih w

theorem fst_removeMany (w : Workspace) (ids : List String) : (w.removeMany ids).1 = (w.dropRemovable ids).1 :=
  rfl

theorem documents_removeMany (w : Workspace) (ids : List String) :
    (w.removeMany ids).2.documents = (w.dropRemovable ids).2.documents := by
  unfold removeMany
  dsimp only
  split <;> rfl

/-- No id is told twice. -/
theorem nodup_removeMany (h : w.documents.Indexed) (ids : List String) : (w.removeMany ids).1.Nodup := by
  rw [fst_removeMany, fst_dropRemovable h]
  exact (Order.nodup_firsts ids).filter _

/-- A protected document is not removed, and is there afterwards. -/
theorem mem_removeMany_of_isStructural (h : w.documents.Indexed) (hprotect : w.config.protectStructural = true) {d : Document}
    (hd : d ∈ w.documents.toList) (hstructural : d.isStructural = true) (ids : List String) :
    d.id ∉ (w.removeMany ids).1 ∧ d ∈ (w.removeMany ids).2.documents.toList := by
  have hget : w.documents.get? d.id = some d := h.get?_eq_some_iff.mpr ⟨hd, rfl⟩
  have hout : d.id ∉ (w.removeMany ids).1 := by
    rw [fst_removeMany, fst_dropRemovable h, List.mem_filter]
    simp [isRemovable, hget, hprotect, hstructural]
  refine ⟨hout, ?_⟩
  rw [documents_removeMany, documents_dropRemovable h, List.mem_filter]
  exact ⟨hd, decide_eq_true hout⟩

/-- In every reachable workspace a removal in bulk leaves what the removal of one document after another leaves, and tells the ids
for which one was removed, none of them twice. Under protection a structural document is never removed. -/
theorem removeMany_eq_removeEach (hw : w.Reachable) (ids : List String) :
    w.removeMany ids = w.removeEach ids ∧ (w.removeMany ids).1.Nodup ∧
      (w.config.protectStructural = true → ∀ d ∈ w.documents.toList, d.isStructural = true →
        d.id ∉ (w.removeMany ids).1 ∧ d ∈ (w.removeMany ids).2.documents.toList) :=
  ⟨removeMany_eq w ids, nodup_removeMany hw.indexed ids,
    fun hprotect _ hd hstructural => mem_removeMany_of_isStructural hw.indexed hprotect hd hstructural ids⟩

/-- An edit waits, and its document is selected. The list names that document twice, an id without a document, a protected one and
one that does not run. -/
theorem removeMany_eq_removeEach_pending :
    let marker := { Document.ofContent "m" "\x7b\x7bgetvar::x\x7d\x7d" with marker := true }
    let documents := DocumentSet.ofList
      [.ofContent "a" "\x7b\x7bsetvar::x::1\x7d\x7d", marker, .ofContent "b" "", .ofContent "c" ""]
    let w := ((ofParts { protectStructural := true } documents ["a", "m", "ghost", "b"]).performAll
      [.edit "a" "\x7b\x7bsetvar::y::2\x7d\x7d" 5, .selectDocument "a"]).2
    let ids := ["c", "a", "ghost", "m", "a"]
    Reachable w ∧ w.status = .pending ∧ w.removeMany ids = w.removeEach ids ∧ (w.removeMany ids).1 = ["c", "a"] ∧
      (w.removeMany ids).2.order = ["m", "ghost", "b"] ∧ (w.removeMany ids).2.selectedDocument = none ∧
      marker ∈ (w.removeMany ids).2.documents.toList := by
  intro marker documents w ids
  have hstart : Reachable (ofParts { protectStructural := true } documents ["a", "m", "ghost", "b"]) :=
    .start (.parts _ _ (DocumentSet.indexed_ofList _))
  have hw : Reachable w := hstart.performAll ⟨trivial, trivial, trivial⟩
  obtain ⟨hsame, -, hprotected⟩ := removeMany_eq_removeEach hw ids
  exact ⟨hw, by decide +kernel, hsame, by decide +kernel, by decide +kernel, by decide +kernel,
    (hprotected (by decide +kernel) marker (by decide +kernel) rfl).2⟩

end PromptMacros.Workspace
