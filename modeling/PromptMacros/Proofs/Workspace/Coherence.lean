import PromptMacros.Proofs.Workspace.Bulk
import PromptMacros.Proofs.Workspace.Selection

/-!
# What holds of every workspace

In every workspace that an editor can reach, the order repeats no id, each id has one document at most and leads to it, and a
document or a variable with a name is selected, never both (`coherent_of_reachable`). The order is the part that many actions
change; `orderAfter` says what each makes of it. Each does one of four things to it (`orderEffect`): it takes the first ids of
another list, moves ids, drops ids, or puts in one that was not there. An id is put in unchecked only when a document is copied, so
this needs the id of the copy to be unused.
-/

namespace PromptMacros.Workspace

/-- The order with the id of a document put in, unless there was one with this id or the id is in the order. -/
def orderWithNew (id : String) (w : Workspace) : List String :=
  if (w.documents.get? id).isNone && !w.isInOrder id then w.orderWith id else w.order

/-- What an action makes of the order. -/
def orderAfter (w : Workspace) : Action → List String
  | .setOrder given => Order.firsts given
  | .moveToTop id => (Order.toTop? id w.order).getD w.order
  | .moveToBottom id => (Order.toBottom? id w.order).getD w.order
  | .addToOrder id => if w.documents.contains id && !w.isInOrder id then w.orderWith id else w.order
  | .hide id => Order.without id w.order
  | .insert doc => w.orderWithNew doc.id
  | .create fresh => w.orderWithNew fresh
  | .duplicate id fresh =>
    if (w.documents.get? id).isSome then (Order.insertAfter? id fresh w.order).getD (w.order ++ [fresh]) else w.order
  | .remove id => if (w.documents.get? id).isSome then Order.without id w.order else w.order
  | .removeMany ids => Order.withoutAll (w.removeMany ids).1 w.order
  | _ => w.order

/-- What an action does to the order. -/
inductive OrderEffect (w : Workspace) (a : Action) (order : List String) : Prop
  | taken (given : List String) (ha : a = .setOrder given) (h : order = Order.firsts given)
  | moved (h : order.Perm w.order)
  | thinned (h : order.Sublist w.order)
  | grown (id : String) (hid : id ∉ w.order) (h : order.Perm (id :: w.order))

/-- The order, the documents and the selection of a workspace are what an editor may rely on. -/
structure Coherent (w : Workspace) : Prop where
  /-- The order repeats no id. -/
  nodup_order : w.order.Nodup
  /-- No two documents have one id. -/
  nodup_ids : (w.documents.toList.map Document.id).Nodup
  /-- An id leads to the document that has it. -/
  document?_eq_some_iff : ∀ id d, w.document? id = some d ↔ d ∈ w.documents.toList ∧ d.id = id
  /-- A document or a variable is selected, not both. -/
  selected_one : w.selectedDocument = none ∨ w.selectedVariable = none
  /-- A selected variable has a name. -/
  selectedVariable_ne : w.selectedVariable ≠ some ""

variable {w : Workspace} {a : Action}

/-! ## The order -/

/-- An action that leaves the order as it is. -/
theorem OrderEffect.of_eq {order : List String} (h : order = w.order) : OrderEffect w a order :=
  .thinned (h ▸ List.Sublist.refl w.order)

/-- None of the four things repeats an id. -/
theorem OrderEffect.nodup {order : List String} (h : OrderEffect w a order) (hw : w.order.Nodup) : order.Nodup := by
  cases h with
  | taken given _ h =>
    rw [h]
    exact Order.nodup_firsts given
  | moved h => exact h.nodup_iff.mpr hw
  | thinned h => exact h.nodup hw
  | grown id hid h => exact h.nodup_iff.mpr (List.nodup_cons.mpr ⟨hid, hw⟩)

/-- An id put behind the selected document is put in at one place of the order. -/
theorem exists_orderWith (id : String) (w : Workspace) :
    ∃ before after, w.order = before ++ after ∧ w.orderWith id = before ++ id :: after := by
  unfold orderWith
  cases h : w.selectedDocument.bind fun anchor => Order.insertAfter? anchor id w.order with
  | none => exact ⟨[], w.order, rfl, rfl⟩
  | some order =>
    obtain ⟨anchor, -, h⟩ := Option.bind_eq_some_iff.mp h
    obtain ⟨before, after, -, horder, rfl⟩ := Order.insertAfter?_eq_some_iff.mp h
    exact ⟨before ++ [anchor], after, by simp [horder], by simp⟩

/-- The order with an id put behind the selected document has that id more. -/
theorem perm_orderWith (id : String) (w : Workspace) : (w.orderWith id).Perm (id :: w.order) := by
  obtain ⟨before, after, horder, hwith⟩ := exists_orderWith id w
  rw [horder, hwith]
  exact List.perm_middle

/-- A renaming leaves the order as it is. -/
theorem order_rename (w : Workspace) (old new : String) : (w.rename old new).2.order = w.order :=
  rename_induction (P := fun v => v.order = w.order) (order_flush w) fun _ _ => ⟨order_flush w, fun _ => order_flush w⟩

theorem order_reorder (w : Workspace) (order : Option (List String)) : (w.reorder order).2.order = order.getD w.order := by
  cases order <;> rfl

/-- What is done to a document with this order as its outcome is done when the document is there. -/
theorem order_withDocument {α : Type} {id : String} {f : Document → α × Workspace} {order : List String}
    (h : ∀ doc, (f doc).2.order = order) :
    (w.withDocument id f).2.order = if (w.documents.get? id).isSome then order else w.order := by
  unfold withDocument
  cases w.documents.get? id with
  | none => rfl
  | some doc => exact h doc

/-- What is done to a document and not to the order leaves the order as it is, done or refused. -/
theorem order_withDocument_self {α : Type} {id : String} {f : Document → α × Workspace}
    (h : ∀ doc, (f doc).2.order = w.order) : (w.withDocument id f).2.order = w.order :=
  (order_withDocument h).trans (ite_self _)

theorem order_insert (w : Workspace) (doc : Document) : (w.insert doc).order = w.orderWithNew doc.id := by
  change (if (w.documents.insert doc).1.isNone && !w.isInOrder doc.id then w.orderWith doc.id else w.order) = _
  rw [DocumentSet.fst_insert]
  rfl

theorem order_addToOrder (w : Workspace) (id : String) :
    (w.addToOrder id).2.order = if w.documents.contains id && !w.isInOrder id then w.orderWith id else w.order := by
  unfold addToOrder
  cases w.documents.contains id <;> cases w.isInOrder id <;> rfl

theorem order_hide (w : Workspace) (id : String) : (w.hide id).2.order = Order.without id w.order := by
  rw [hide, order_reorder]
  split
  · rfl
  · next hid => exact (Order.without_eq_self (by simpa [isInOrder] using hid)).symm

theorem order_duplicate (w : Workspace) (id fresh : String) :
    (w.duplicate id fresh).2.order =
      if (w.documents.get? id).isSome then (Order.insertAfter? id fresh w.order).getD (w.order ++ [fresh]) else w.order :=
  order_withDocument fun _ => rfl

theorem order_remove (w : Workspace) (id : String) :
    (w.remove id).2.order = if (w.documents.get? id).isSome then Order.without id w.order else w.order := by
  unfold remove
  cases w.documents.get? id <;> rfl

theorem order_removeMany (w : Workspace) (ids : List String) :
    (w.removeMany ids).2.order = Order.withoutAll (w.removeMany ids).1 w.order := by
  rw [fst_removeMany, ← order_dropRemovable, removeMany]
  dsimp only
  split <;> rfl

/-- After every action the order is what the action makes of it. -/
theorem order_perform (w : Workspace) (a : Action) : (w.perform a).2.order = w.orderAfter a := by
  cases a with
  | setOrder _ | analyze | selectDocument _ | clearSelection => rfl
  | moveToTop id => exact order_reorder ..
  | moveToBottom id => exact order_reorder ..
  | addToOrder id => exact (congrArg order (snd_ofResult ..)).trans (order_addToOrder w id)
  | hide id => exact order_hide w id
  | insert doc => exact order_insert w doc
  | create fresh => exact order_insert w _
  | duplicate id fresh => exact (congrArg order (snd_ofResult ..)).trans (order_duplicate w id fresh)
  | remove id => exact order_remove w id
  | removeMany ids => exact order_removeMany w ids
  | toggle _ | setName _ _ | setRole _ _ | edit _ _ _ =>
    exact (congrArg order (snd_ofResult ..)).trans (order_withDocument_self fun _ => rfl)
  | setEnabled id enabled =>
    refine (congrArg order (snd_ofResult ..)).trans (order_withDocument_self fun doc => ?_)
    split <;> rfl
  | poll now =>
    simp only [perform, snd_of, poll]
    split <;> rfl
  | flush => exact order_flush w
  | settle => exact (congrArg (·.2.order) (settle_eq_flush w)).trans (order_flush w)
  | rename old new => exact (congrArg order (snd_ofResult ..)).trans (order_rename w old new)
  | selectVariable name =>
    simp only [perform, selectVariable]
    split <;> rfl

/-- An action that takes another order, if there is one. -/
theorem OrderEffect.of_getD {order : Option (List String)} (h : ∀ o, order = some o → OrderEffect w a o) :
    OrderEffect w a (order.getD w.order) := by
  cases order with
  | none => exact .of_eq rfl
  | some o => exact h o rfl

/-- An action that takes another order under a condition. -/
theorem OrderEffect.of_ite {c : Prop} [Decidable c] {order : List String} (h : c → OrderEffect w a order) :
    OrderEffect w a (if c then order else w.order) := by
  split
  · next hc => exact h hc
  · exact .of_eq rfl

/-- An id is put in only when it is not in the order, whatever else is asked of it. -/
theorem OrderEffect.of_put (c : Bool) (id : String) :
    OrderEffect w a (if c && !w.isInOrder id then w.orderWith id else w.order) :=
  .of_ite fun h => .grown id (by simpa [isInOrder] using (Bool.and_eq_true_iff.mp h).2) (perm_orderWith id w)

/-- Whatever an action is, it takes the first ids of another order, or moves ids, or drops some, or puts a new one in. -/
theorem orderEffect (ha : a.UnusedIn w) : OrderEffect w a (w.perform a).2.order := by
  rw [order_perform]
  cases a with
  | setOrder given => exact .taken given rfl rfl
  | moveToTop id => exact .of_getD fun _ h => .moved (Order.perm_of_toTop? h)
  | moveToBottom id => exact .of_getD fun _ h => .moved (Order.perm_of_toBottom? h)
  | addToOrder id => exact .of_put _ id
  | hide id => exact .thinned List.filter_sublist
  | insert doc => exact .of_put _ doc.id
  | create fresh => exact .of_put _ fresh
  | duplicate id fresh =>
    refine .of_ite fun _ => .grown fresh ha.2 ?_
    cases h : Order.insertAfter? id fresh w.order with
    | none => exact List.perm_append_singleton fresh w.order
    | some order => exact Order.perm_of_insertAfter? h
  | remove id => exact .of_ite fun _ => .thinned List.filter_sublist
  | removeMany ids => exact .thinned List.filter_sublist
  | toggle _ | setEnabled _ _ | setName _ _ | setRole _ _ | edit _ _ _ | poll _ | flush | settle | analyze | rename _ _
  | selectDocument _ | selectVariable _ | clearSelection => exact .of_eq rfl

theorem Start.nodup_order (h : Start w) : w.order.Nodup := by
  obtain ⟨config, documents, order, -, rfl⟩ := h.exists_parts
  exact Order.nodup_firsts order

theorem Reachable.nodup_order (h : Reachable w) : w.order.Nodup := by
  induction h with
  | start h => exact h.nodup_order
  | perform a _ ha ih => exact (orderEffect ha).nodup ih

/-! ## Every workspace -/

/-- In every reachable workspace the order repeats no id, each id leads to the one document that has it, and a document or a
variable with a name is selected, or nothing. -/
theorem coherent_of_reachable (h : Reachable w) : Coherent w := by
  have hs := h.selectsOne
  exact ⟨h.nodup_order, h.indexed.nodup_ids, fun _ _ => h.indexed.get?_eq_some_iff, hs.one, hs.named⟩

/-- The order given repeats an id and lists one without a document. The document is added later, another one is copied, which
selects the copy, and a variable that is selected instead is renamed in all of them. -/
theorem coherent_of_reachable_leftover :
    let w := ofParts {} (.ofList [.ofContent "a" "\x7b\x7bsetvar::x::1\x7d\x7d"]) ["a", "ghost", "a"]
    let actions := [.insert (.ofContent "ghost" "\x7b\x7bgetvar::x\x7d\x7d"), .duplicate "a" "b", .selectVariable "x",
      .rename "x" " y "]
    let v := (w.performAll actions).2
    Reachable v ∧ v.order = ["a", "b", "ghost"] ∧ v.selectedVariable = some "y" ∧ v.selectedDocument = none ∧
      Coherent v := by
  intro w actions v
  have hw : Reachable w := .start (.parts {} ["a", "ghost", "a"] (DocumentSet.indexed_ofList _))
  have hv : Reachable v := hw.performAll ⟨trivial, ⟨by decide +kernel, by decide +kernel⟩, trivial, trivial, trivial⟩
  exact ⟨hv, by decide +kernel, by decide +kernel, by decide +kernel, coherent_of_reachable hv⟩

end PromptMacros.Workspace
