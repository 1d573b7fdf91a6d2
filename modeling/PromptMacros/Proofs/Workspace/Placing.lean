import PromptMacros.Proofs.Workspace.Coherence

/-!
# Where actions put documents

Whatever an action makes of the order (`orderAfter`), it leaves every id but its targets where it was among the others
(`withoutAll_perform`), unless it takes another order altogether. What puts a new document in puts it right behind the selected one
(`putBehindSelected_orderWith`), where no id is repeated and so behind the only place that the selected one has. Together with what
moving and copying do this is what an editor may rely on (`orderly_of_reachable`).
-/

namespace PromptMacros

/-- The ids that an action moves, takes out of the order, or puts into it. -/
def Action.targets : Action → List String
  | .moveToTop id | .moveToBottom id | .addToOrder id | .hide id | .remove id => [id]
  | .insert doc => [doc.id]
  | .create fresh | .duplicate _ fresh => [fresh]
  | .removeMany ids => ids
  | _ => []

namespace Workspace

/-- An order is that of the workspace with an id right behind the selected document if that one is in the order, and else with the
id first. -/
structure PutBehindSelected (w : Workspace) (id : String) (order : List String) : Prop where
  behind : ∀ anchor before after, w.selectedDocument = some anchor → w.order = before ++ anchor :: after →
    order = before ++ anchor :: id :: after
  first : (∀ anchor, w.selectedDocument = some anchor → anchor ∉ w.order) → order = id :: w.order

/-- An order is that of the workspace with an id right behind another if that one is in the order, and else with the id last. -/
structure PutBehind (w : Workspace) (anchor id : String) (order : List String) : Prop where
  behind : ∀ before after, w.order = before ++ anchor :: after → order = before ++ anchor :: id :: after
  last : anchor ∉ w.order → order = w.order ++ [id]

/-- Actions put documents where they should, leave the others in place, and tell whether the order is another. -/
structure Orderly (w : Workspace) : Prop where
  /-- No action but one that takes another order changes the order of any ids but its targets. -/
  bystanders : ∀ a : Action, (∀ given, a ≠ .setOrder given) →
    Order.withoutAll a.targets (w.perform a).2.order = Order.withoutAll a.targets w.order
  added : ∀ id, w.documents.contains id = true → id ∉ w.order → w.PutBehindSelected id (w.addToOrder id).2.order
  inserted : ∀ doc, w.documents.contains doc.id = false → doc.id ∉ w.order → w.PutBehindSelected doc.id (w.insert doc).order
  created : ∀ fresh, (Action.create fresh).UnusedIn w → w.PutBehindSelected fresh (w.create fresh).order
  copied : ∀ id fresh, w.documents.contains id = true → w.PutBehind id fresh (w.duplicate id fresh).2.order
  /-- A document whose id is known, or in the order already, is not put into it. -/
  known : ∀ doc, w.documents.contains doc.id = true ∨ doc.id ∈ w.order → (w.insert doc).order = w.order
  first : ∀ id ∈ w.order, (w.moveToTop id).2.order.head? = some id
  last : ∀ id ∈ w.order, (w.moveToBottom id).2.order.getLast? = some id
  moveToTop_iff : ∀ id, (w.moveToTop id).1 = true ↔ (w.moveToTop id).2.order ≠ w.order
  moveToBottom_iff : ∀ id, (w.moveToBottom id).1 = true ↔ (w.moveToBottom id).2.order ≠ w.order
  addToOrder_iff : ∀ id, (w.addToOrder id).1 = .ok true ↔ (w.addToOrder id).2.order ≠ w.order
  hide_iff : ∀ id, (w.hide id).1 = true ↔ (w.hide id).2.order ≠ w.order

variable {w : Workspace} {id : String}

/-! ## Bystanders -/

/-- An id put behind the selected document leaves the others where they were. -/
theorem without_orderWith (id : String) (w : Workspace) : Order.without id (w.orderWith id) = Order.without id w.order := by
  obtain ⟨before, after, horder, hwith⟩ := exists_orderWith id w
  rw [hwith, horder, Order.without_middle]

/-- Another order, taken under a condition, leaves the others where they were when that one does. -/
theorem without_ite {c : Prop} [Decidable c] {order : List String} (h : Order.without id order = Order.without id w.order) :
    Order.without id (if c then order else w.order) = Order.without id w.order := by
  split
  · exact h
  · rfl

/-- Another order, if there is one, leaves the others where they were when that one does. -/
theorem without_getD {order : Option (List String)} (h : ∀ o, order = some o → Order.without id o = Order.without id w.order) :
    Order.without id (order.getD w.order) = Order.without id w.order := by
  cases order with
  | none => rfl
  | some o => exact h o rfl

/-- A copy put behind its original, or last, leaves the others where they were. -/
theorem without_copied (id fresh : String) (w : Workspace) :
    Order.without fresh ((Order.insertAfter? id fresh w.order).getD (w.order ++ [fresh])) = Order.without fresh w.order := by
  cases h : Order.insertAfter? id fresh w.order with
  | none => exact (Order.without_middle fresh w.order []).trans (congrArg _ (List.append_nil _))
  | some order => exact Order.without_insertAfter? h

/-- Only what is listed for removal is removed. -/
theorem removeMany_subset (h : w.documents.Indexed) (ids : List String) : (w.removeMany ids).1 ⊆ ids := by
  intro id hid
  rw [fst_removeMany, fst_dropRemovable h] at hid
  exact Order.mem_firsts.mp (List.mem_filter.mp hid).1

/-- No action but one that takes another order changes the order of any ids but its targets. -/
theorem withoutAll_perform (h : w.documents.Indexed) {a : Action} (ha : ∀ given, a ≠ .setOrder given) :
    Order.withoutAll a.targets (w.perform a).2.order = Order.withoutAll a.targets w.order := by
  have hone : ∀ {id : String} {order : List String}, Order.without id order = Order.without id w.order →
      Order.withoutAll [id] order = Order.withoutAll [id] w.order := by
    intro id order h
    rwa [Order.withoutAll_singleton, Order.withoutAll_singleton]
  rw [order_perform]
  cases a with
  | setOrder given => exact absurd rfl (ha given)
  | moveToTop id => exact hone (without_getD fun _ => Order.without_toTop?)
  | moveToBottom id => exact hone (without_getD fun _ => Order.without_toBottom?)
  | addToOrder id => exact hone (without_ite (without_orderWith id w))
  | hide id => exact hone (Order.without_without id w.order)
  | insert doc => exact hone (without_ite (without_orderWith doc.id w))
  | create fresh => exact hone (without_ite (without_orderWith fresh w))
  | duplicate id fresh => exact hone (without_ite (without_copied id fresh w))
  | remove id => exact hone (without_ite (Order.without_without id w.order))
  | removeMany ids => exact Order.withoutAll_withoutAll (removeMany_subset h ids) w.order
  | toggle _ | setEnabled _ _ | setName _ _ | setRole _ _ | edit _ _ _ | poll _ | flush | settle | analyze | rename _ _
  | selectDocument _ | selectVariable _ | clearSelection => rfl

/-! ## Newcomers -/

/-- In an order without repeats an id is put right behind the selected document. -/
theorem putBehindSelected_orderWith (h : w.order.Nodup) (id : String) : w.PutBehindSelected id (w.orderWith id) := by
  constructor
  · intro anchor before after hselected horder
    rw [orderWith, hselected, horder, Option.bind_some, Order.insertAfter?_of_nodup (horder ▸ h)]
    rfl
  · intro hselected
    cases hanchor : w.selectedDocument with
    | none => rw [orderWith, hanchor]; rfl
    | some anchor =>
      rw [orderWith, hanchor, Option.bind_some, Order.insertAfter?_of_not_mem (hselected anchor hanchor)]
      rfl

/-- A new document is put right behind the selected one. -/
theorem putBehindSelected_orderWithNew (h : w.order.Nodup) (hd : w.documents.get? id = none) (hid : id ∉ w.order) :
    w.PutBehindSelected id (w.orderWithNew id) := by
  rw [orderWithNew, if_pos (by simp [hd, isInOrder, hid])]
  exact putBehindSelected_orderWith h id

/-- A document that is known or runs already is not put in. -/
theorem orderWithNew_eq_self (h : (w.documents.get? id).isSome ∨ id ∈ w.order) : w.orderWithNew id = w.order := by
  refine if_neg ?_
  rcases h with hd | hid
  · simp [Option.isSome_iff_ne_none.mp hd]
  · simp [isInOrder, hid]

theorem order_addToOrder_of_not_mem (hd : w.documents.contains id = true) (hid : id ∉ w.order) :
    (w.addToOrder id).2.order = w.orderWith id := by
  rw [order_addToOrder, if_pos (by simp [hd, isInOrder, hid])]

/-- In an order without repeats a copy is put right behind its original. -/
theorem putBehind_duplicate (h : w.order.Nodup) (hd : (w.documents.get? id).isSome) (fresh : String) :
    w.PutBehind id fresh (w.duplicate id fresh).2.order := by
  rw [order_duplicate, if_pos hd]
  constructor
  · intro before after horder
    rw [horder, Order.insertAfter?_of_nodup (horder ▸ h)]
    rfl
  · intro hid
    rw [Order.insertAfter?_of_not_mem hid]
    rfl

/-! ## What is told -/

/-- Taking another order, if there is one, tells that the order changed when every other one is different. -/
theorem fst_reorder_iff {order : Option (List String)} (h : ∀ o, order = some o → o ≠ w.order) :
    (w.reorder order).1 = true ↔ (w.reorder order).2.order ≠ w.order := by
  cases order with
  | none => exact ⟨fun h => absurd h Bool.false_ne_true, fun h => absurd rfl h⟩
  | some o => exact ⟨fun _ => h o rfl, fun _ => rfl⟩

/-- An order with an id put in is another. -/
theorem orderWith_ne (id : String) (w : Workspace) : w.orderWith id ≠ w.order := by
  intro h
  have hlength := (perm_orderWith id w).length_eq
  rw [h, List.length_cons] at hlength
  omega

theorem fst_addToOrder_iff (id : String) : (w.addToOrder id).1 = .ok true ↔ (w.addToOrder id).2.order ≠ w.order := by
  unfold addToOrder
  split
  · simp
  · split
    · simp
    · exact ⟨fun _ => orderWith_ne id w, fun _ => rfl⟩

theorem fst_hide_iff (id : String) : (w.hide id).1 = true ↔ (w.hide id).2.order ≠ w.order := by
  refine fst_reorder_iff fun order horder hsame => ?_
  split at horder
  · next hid =>
    obtain rfl := Option.some.inj horder
    have hmem : id ∈ w.order := by simpa [isInOrder] using hid
    rw [← hsame] at hmem
    simp [Order.without] at hmem
  · cases horder

/-! ## Every workspace -/

/-- In every reachable workspace actions put documents where they should, leave the others in place, and tell whether the order is
another. -/
theorem orderly_of_reachable (hw : w.Reachable) : w.Orderly where
  bystanders _ ha := withoutAll_perform hw.indexed ha
  added id hd hid := by
    rw [order_addToOrder_of_not_mem hd hid]
    exact putBehindSelected_orderWith hw.nodup_order id
  inserted doc hd hid := by
    rw [hw.indexed.contains_eq_isSome_get?, Option.isSome_eq_false_iff, Option.isNone_iff_eq_none] at hd
    rw [order_insert]
    exact putBehindSelected_orderWithNew hw.nodup_order hd hid
  created fresh hfresh := by
    obtain ⟨hd, hid⟩ := hfresh
    rw [hw.indexed.contains_eq_isSome_get?, Option.isSome_eq_false_iff, Option.isNone_iff_eq_none] at hd
    change w.PutBehindSelected fresh (w.insert _).order
    rw [order_insert]
    exact putBehindSelected_orderWithNew hw.nodup_order hd hid
  copied id fresh hd := putBehind_duplicate hw.nodup_order (hw.indexed.contains_eq_isSome_get? id ▸ hd) fresh
  known doc h := by
    rw [hw.indexed.contains_eq_isSome_get?] at h
    rw [order_insert, orderWithNew_eq_self h]
  first id hid := by
    rw [moveToTop, order_reorder]
    exact Order.head?_toTop? hid
  last id hid := by
    rw [moveToBottom, order_reorder]
    exact Order.getLast?_toBottom? hid
  moveToTop_iff _ := fst_reorder_iff fun _ => Order.ne_of_toTop?
  moveToBottom_iff _ := fst_reorder_iff fun _ => Order.ne_of_toBottom?
  addToOrder_iff := fst_addToOrder_iff
  hide_iff := fst_hide_iff

/-- The order lists an id without a document, and the selected document is hidden; then it is selected last, and what is put in
comes to stand behind it. -/
theorem orderly_of_reachable_leftover :
    let documents := DocumentSet.ofList [.ofContent "a" "", .ofContent "b" "", .ofContent "c" ""]
    let w := ((ofParts {} documents ["a", "ghost", "b"]).performAll [.selectDocument "a", .hide "a"]).2
    let v := (w.performAll [.addToOrder "a", .moveToBottom "a"]).2
    Reachable w ∧ w.Orderly ∧ w.selectedDocument = some "a" ∧ w.order = ["ghost", "b"] ∧
      (w.addToOrder "c").2.order = ["c", "ghost", "b"] ∧ (w.duplicate "a" "d").2.order = ["ghost", "b", "d"] ∧
      Reachable v ∧ v.Orderly ∧ v.order = ["ghost", "b", "a"] ∧ (v.addToOrder "c").2.order = ["ghost", "b", "a", "c"] ∧
      (v.insert (.ofContent "ghost" "")).order = ["ghost", "b", "a"] ∧
      (v.duplicate "b" "d").2.order = ["ghost", "b", "d", "a"] := by
  intro documents w v
  have hstart : Reachable (ofParts {} documents ["a", "ghost", "b"]) := .start (.parts _ _ (DocumentSet.indexed_ofList _))
  have hw : Reachable w := hstart.performAll ⟨trivial, trivial, trivial⟩
  have hv : Reachable v := hw.performAll ⟨trivial, trivial, trivial⟩
  exact ⟨hw, orderly_of_reachable hw, by decide +kernel, by decide +kernel, by decide +kernel, by decide +kernel,
    hv, orderly_of_reachable hv, by decide +kernel, by decide +kernel, by decide +kernel, by decide +kernel⟩

end Workspace

end PromptMacros
