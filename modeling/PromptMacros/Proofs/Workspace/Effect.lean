import PromptMacros.Proofs.Document.Agreement
import PromptMacros.Workspace.Action

/-!
# What actions do to the report

An action does one of three things to the report (`effect`): it runs an analysis and leaves the report current; or it changes
nothing that an analysis looks at; or it gives a document another text and leaves a deadline. `analyzes` tells which actions
run an analysis, and `editedBy` which document an action edits.
-/

namespace PromptMacros.Workspace

/-- The report is that of an analysis of the documents and the order as they are. -/
def Current (w : Workspace) : Prop :=
  w.report = analyze w.documents.provider w.order

/-- Whether a renaming finds the new name good and different from the old one. -/
def renames (w : Workspace) (old new : String) : Bool :=
  match checkNewName w.flush.2.report.knows old new with
  | .ok name => name ≠ old
  | .error _ => false

/-- Whether an action runs an analysis. -/
def analyzes (w : Workspace) : Action → Bool
  | .setOrder _ | .insert _ | .create _ | .analyze => true
  | .moveToTop id => (Order.toTop? id w.order).isSome
  | .moveToBottom id => (Order.toBottom? id w.order).isSome
  | .addToOrder id => w.documents.contains id && !w.isInOrder id
  | .hide id => w.isInOrder id
  | .duplicate id _ | .remove id | .toggle id => (w.documents.get? id).isSome
  | .removeMany ids => !(w.dropRemovable ids).1.isEmpty
  | .setEnabled id enabled => (w.documents.get? id).any fun doc => doc.enabled ≠ enabled
  | .poll now => (w.debounce.fire now).1
  | .flush | .settle => w.debounce.isPending
  | .rename old new => w.debounce.isPending || w.renames old new
  | .setName _ _ | .setRole _ _ | .edit _ _ _ | .selectDocument _ | .selectVariable _ | .clearSelection => false

/-- The id of the document to which an action gives another text, if it does. -/
def editedBy (w : Workspace) : Action → List String
  | .edit id _ _ => if (w.documents.get? id).isSome then [id] else []
  | _ => []

/-- Of two workspaces, the second has the report, the order and the deadline of the first, and documents in which an
analysis sees the same. -/
structure Quiet (w v : Workspace) : Prop where
  report : v.report = w.report
  order : v.order = w.order
  debounce : v.debounce = w.debounce
  documents : w.documents.SameBut [] v.documents

theorem Quiet.refl (w : Workspace) : Quiet w w :=
  ⟨rfl, rfl, rfl, .refl [] w.documents⟩

/-- What an action does to the report and to the documents that the report is about. -/
inductive Effect (w : Workspace) (a : Action) : Prop
  | analyzed (h : w.analyzes a = true) (hc : (w.perform a).2.Current)
  | quiet (h : w.analyzes a = false) (hb : w.editedBy a = []) (hq : Quiet w (w.perform a).2)
  | edited (id content : String) (now : Nat) (ha : a = .edit id content now) (hid : (w.documents.get? id).isSome)
      (hw : (w.perform a).2 = { w with
        documents := w.documents.modify id fun d => { d with content := content }
        debounce := w.debounce.schedule now })

/-! ## Helpers: one lemma for each way of doing things -/

section Helpers

variable {w : Workspace} {a : Action}

@[simp] theorem snd_of {α : Type} (f : α → Answer) (r : α × Workspace) : (Answer.of f r).2 = r.2 := rfl

@[simp] theorem snd_ofResult {α : Type} (f : α → Answer) (r : Except Error α × Workspace) :
    (Answer.ofResult f r).2 = r.2 := by
  unfold Answer.ofResult
  split <;> rfl

/-- An action that leaves the workspace as it is. -/
theorem Effect.of_eq (h : w.analyzes a = false) (hb : w.editedBy a = []) (hw : (w.perform a).2 = w) : Effect w a :=
  .quiet h hb (by rw [hw]; exact .refl w)

/-- An action that takes another order, if there is one. -/
theorem Effect.of_reorder {order : Option (List String)} (h : w.analyzes a = order.isSome) (hb : w.editedBy a = [])
    (hw : (w.perform a).2 = (w.reorder order).2) : Effect w a := by
  cases order with
  | none => exact .of_eq h hb hw
  | some order => exact .analyzed h (by rw [hw]; rfl)

/-- An action on a document, refused when the document is not there. -/
theorem Effect.of_withDocument {α : Type} {id : String} {f : Document → α × Workspace}
    (hw : (w.perform a).2 = (w.withDocument id f).2)
    (hnone : w.documents.get? id = none → w.analyzes a = false ∧ w.editedBy a = [])
    (hsome : ∀ doc, w.documents.get? id = some doc → (w.perform a).2 = (f doc).2 → Effect w a) : Effect w a := by
  cases hd : w.documents.get? id with
  | none =>
    obtain ⟨h, hb⟩ := hnone hd
    exact .of_eq h hb (by rw [hw, withDocument_eq_of_get?_eq_none f hd])
  | some doc => exact hsome doc hd (by rw [hw, withDocument, hd])

/-- A flush leaves the report current when edits wait, and does nothing when none do. -/
theorem flush_cases (w : Workspace) :
    (w.debounce.isPending = true ∧ w.flush.2.Current ∧ w.flush.2.debounce.deadline = none) ∨
      (w.debounce.isPending = false ∧ w.flush = (false, w)) := by
  unfold flush
  cases h : w.debounce.isPending with
  | true => exact Or.inl ⟨rfl, by simp [Debounce.take, h]; rfl, by simp [Debounce.take, h]; rfl⟩
  | false => exact Or.inr ⟨rfl, by simp [Debounce.take, h]⟩

/-- A removal in bulk that takes no document leaves the workspace as it is. -/
theorem dropRemovable_eq_self {ids : List String} (h : (w.dropRemovable ids).1 = []) : (w.dropRemovable ids).2 = w := by
  induction ids with
  | nil => rfl
  | cons id ids ih =>
    unfold dropRemovable at h ⊢
    split at h
    · cases h
    · next hr =>
      rw [if_neg hr]
      exact ih h

end Helpers

/-! ## Every action -/

/-- A renaming leaves the report current when it ran an analysis, and else does nothing. -/
theorem effect_rename (w : Workspace) (old new : String) : Effect w (.rename old new) := by
  have hw : (w.perform (.rename old new)).2 = (w.rename old new).2 := snd_ofResult ..
  have hr : w.renames old new = false → (w.rename old new).2 = w.flush.2 := by
    intro h
    unfold renames at h
    unfold rename
    split at h
    · next name hname => simp only [hname]; rw [if_pos (by simpa using h)]
    · next e he => simp only [he]
  have hc : w.renames old new = true → (w.rename old new).2.Current := by
    intro h
    unfold renames at h
    unfold rename
    split at h
    · next name hname =>
      simp only [hname]
      rw [if_neg (by simpa using h)]
      dsimp only
      split <;> rfl
    · cases h
  cases hren : w.renames old new with
  | true => exact .analyzed (by simp [analyzes, hren]) (by rw [hw]; exact hc hren)
  | false =>
    rcases flush_cases w with ⟨hp, hcur, -⟩ | ⟨hp, hf⟩
    · exact .analyzed (by simp [analyzes, hp]) (by rw [hw, hr hren]; exact hcur)
    · exact .of_eq (by simp [analyzes, hp, hren]) rfl (by rw [hw, hr hren, hf])

/-- Whatever an action is, it leaves the report current, or changes nothing that an analysis looks at, or edits a text. -/
theorem effect (w : Workspace) (a : Action) : Effect w a := by
  cases a with
  | setOrder order => exact .analyzed rfl rfl
  | moveToTop id => exact .of_reorder rfl rfl rfl
  | moveToBottom id => exact .of_reorder rfl rfl rfl
  | addToOrder id =>
    have hw : (w.perform (.addToOrder id)).2 = (w.addToOrder id).2 := snd_ofResult ..
    by_cases hd : w.documents.contains id = false
    · exact .of_eq (by simp [analyzes, hd]) rfl (by rw [hw, addToOrder, if_pos hd])
    by_cases ho : w.isInOrder id = true
    · exact .of_eq (by simp [analyzes, ho]) rfl (by rw [hw, addToOrder, if_neg hd, if_pos ho])
    · exact .analyzed (by simp_all [analyzes]) (by rw [hw, addToOrder, if_neg hd, if_neg ho]; rfl)
  | hide id =>
    refine .of_reorder ?_ rfl rfl
    change w.isInOrder id = _
    split <;> simp_all
  | insert doc => exact .analyzed rfl rfl
  | create fresh => exact .analyzed rfl rfl
  | duplicate id fresh =>
    refine .of_withDocument (snd_ofResult ..) (fun hd => ⟨by simp [analyzes, hd], rfl⟩) fun doc hd hw => ?_
    exact .analyzed (by simp [analyzes, hd]) (by rw [hw]; rfl)
  | remove id =>
    have hw : (w.perform (.remove id)).2 = (w.remove id).2 := rfl
    cases hd : w.documents.get? id with
    | none => exact .of_eq (by simp [analyzes, hd]) rfl (by rw [hw, remove, hd])
    | some doc => exact .analyzed (by simp [analyzes, hd]) (by rw [hw, remove, hd]; rfl)
  | removeMany ids =>
    have hw : (w.perform (.removeMany ids)).2 = if (w.dropRemovable ids).1.isEmpty then (w.dropRemovable ids).2
      else (w.dropRemovable ids).2.analyzed := rfl
    cases hr : (w.dropRemovable ids).1.isEmpty with
    | true =>
      rw [hr, if_pos rfl, dropRemovable_eq_self (List.isEmpty_iff.mp hr)] at hw
      exact .of_eq (by simp [analyzes, hr]) rfl hw
    | false =>
      rw [hr, if_neg Bool.false_ne_true] at hw
      exact .analyzed (by simp [analyzes, hr]) (by rw [hw]; rfl)
  | toggle id =>
    refine .of_withDocument (snd_ofResult ..) (fun hd => ⟨by simp [analyzes, hd], rfl⟩) fun doc hd hw => ?_
    exact .analyzed (by simp [analyzes, hd]) (by rw [hw]; rfl)
  | setEnabled id enabled =>
    refine .of_withDocument (snd_ofResult ..) (fun hd => ⟨by simp [analyzes, hd], rfl⟩) fun doc hd hw => ?_
    by_cases he : doc.enabled = enabled
    · exact .of_eq (by simp [analyzes, hd, he]) rfl (by rw [hw, if_pos he])
    · exact .analyzed (by simp [analyzes, hd, he]) (by rw [hw, if_neg he]; rfl)
  | setName id name =>
    refine .of_withDocument (snd_ofResult ..) (fun _ => ⟨rfl, rfl⟩) fun doc hd hw => ?_
    refine .quiet rfl rfl ?_
    rw [hw]
    exact ⟨rfl, rfl, rfl, DocumentSet.sameBut_modify _ _ fun _ => ⟨rfl, rfl⟩⟩
  | setRole id role =>
    refine .of_withDocument (snd_ofResult ..) (fun _ => ⟨rfl, rfl⟩) fun doc hd hw => ?_
    refine .quiet rfl rfl ?_
    rw [hw]
    exact ⟨rfl, rfl, rfl, DocumentSet.sameBut_modify _ _ fun _ => ⟨rfl, rfl⟩⟩
  | edit id content now =>
    refine .of_withDocument (snd_ofResult ..) (fun hd => ⟨rfl, by simp [editedBy, hd]⟩) fun doc hd hw => ?_
    exact .edited id content now rfl (by simp [hd]) hw
  | poll now =>
    have hw : (w.perform (.poll now)).2 = (w.poll now).2 := rfl
    cases hf : (w.debounce.fire now).1 with
    | true => exact .analyzed hf (by rw [hw, poll]; simp only [hf]; rfl)
    | false => exact .of_eq hf rfl (by rw [hw, poll]; simp only [hf]; rfl)
  | flush =>
    have hw : (w.perform .flush).2 = w.flush.2 := rfl
    rcases flush_cases w with ⟨hp, hc, -⟩ | ⟨hp, hf⟩
    · exact .analyzed hp (hw ▸ hc)
    · exact .of_eq hp rfl (by rw [hw, hf])
  | settle =>
    have hw : (w.perform .settle).2 = w.flush.2 := congrArg Prod.snd (settle_eq_flush w)
    rcases flush_cases w with ⟨hp, hc, -⟩ | ⟨hp, hf⟩
    · exact .analyzed hp (hw ▸ hc)
    · exact .of_eq hp rfl (by rw [hw, hf])
  | analyze => exact .analyzed rfl rfl
  | rename old new => exact effect_rename w old new
  | selectDocument id => exact .quiet rfl rfl ⟨rfl, rfl, rfl, .refl [] w.documents⟩
  | selectVariable name =>
    refine .quiet rfl rfl ?_
    change Quiet w (w.selectVariable name)
    unfold selectVariable
    split
    · exact .refl w
    · exact ⟨rfl, rfl, rfl, .refl [] w.documents⟩
  | clearSelection => exact .quiet rfl rfl ⟨rfl, rfl, rfl, .refl [] w.documents⟩

end PromptMacros.Workspace
