import PromptMacros.Proofs.Workspace.Rename

/-!
# What is selected

The selected document and the selected variable are two fields, which the actions write one by one. An action leaves both as they
are, takes the selection off a document, selects a document or a variable in place of the other, selects a variable by its new
name, or selects nothing (`selectionChange`). A renaming writes the variable alone; that no document is selected then is what held
before, because the variable was. So in every workspace that an editor can reach a document or a variable with a name is selected,
never both (`Reachable.selectsOne`).
-/

namespace PromptMacros.Workspace

/-- A document or a variable is selected, not both, and a selected variable has a name. -/
structure SelectsOne (w : Workspace) : Prop where
  one : w.selectedDocument = none ∨ w.selectedVariable = none
  named : w.selectedVariable ≠ some ""

/-- What an action makes of the selection of `w`. -/
inductive SelectionChange (w v : Workspace) : Prop
  | kept (hd : v.selectedDocument = w.selectedDocument) (hv : v.selectedVariable = w.selectedVariable)
  | dropped (hd : v.selectedDocument = none) (hv : v.selectedVariable = w.selectedVariable)
  | toDocument (id : String) (hd : v.selectedDocument = some id) (hv : v.selectedVariable = none)
  | toVariable (name : String) (hname : name ≠ "") (hd : v.selectedDocument = none) (hv : v.selectedVariable = some name)
  | renamed (old name : String) (hold : w.selectedVariable = some old) (hname : name ≠ "")
      (hd : v.selectedDocument = w.selectedDocument) (hv : v.selectedVariable = some name)
  | cleared (hd : v.selectedDocument = none) (hv : v.selectedVariable = none)

variable {w v : Workspace}

/-! ## What the parts of actions do -/

theorem SelectionChange.refl (w : Workspace) : SelectionChange w w :=
  .kept rfl rfl

/-- What does not touch a selected variable, and may take the selection off a document. -/
theorem SelectionChange.of_or (hd : v.selectedDocument = w.selectedDocument ∨ v.selectedDocument = none)
    (hv : v.selectedVariable = w.selectedVariable) : SelectionChange w v := by
  rcases hd with hd | hd
  · exact .kept hd hv
  · exact .dropped hd hv

theorem selectionChange_reorder (w : Workspace) (order : Option (List String)) : SelectionChange w (w.reorder order).2 := by
  cases order <;> exact .kept rfl rfl

theorem selectionChange_flush (w : Workspace) : SelectionChange w w.flush.2 :=
  .kept (selectedDocument_flush w) (selectedVariable_flush w)

/-- Taking a document out leaves the selected document as it is, or takes the selection off it. -/
theorem selectedDocument_dropDocument (w : Workspace) (id : String) :
    (w.dropDocument id).selectedDocument = w.selectedDocument ∨ (w.dropDocument id).selectedDocument = none :=
  (ite_eq_or_eq _ none w.selectedDocument).symm

/-- Taking documents out may take the selection off a document, and leaves a selected variable as it is. -/
theorem selection_dropRemovable (w : Workspace) (ids : List String) :
    ((w.dropRemovable ids).2.selectedDocument = w.selectedDocument ∨ (w.dropRemovable ids).2.selectedDocument = none) ∧
      (w.dropRemovable ids).2.selectedVariable = w.selectedVariable := by
  refine dropRemovable_induction
    (P := fun v => (v.selectedDocument = w.selectedDocument ∨ v.selectedDocument = none) ∧
      v.selectedVariable = w.selectedVariable) ⟨Or.inl rfl, rfl⟩ (fun v id hv => ⟨?_, hv.2⟩) ids
  rcases selectedDocument_dropDocument v id with hd | hd
  · rw [hd]
    exact hv.1
  · exact Or.inr hd

/-- A renaming selects a selected variable by its new name, which was found good and so is not empty. -/
theorem selectionChange_rename (w : Workspace) (old new : String) : SelectionChange w (w.rename old new).2 := by
  refine rename_induction (P := SelectionChange w) (selectionChange_flush w) fun name hname => ⟨?_, fun hold => ?_⟩
  · exact .kept (selectedDocument_flush w) (selectedVariable_flush w)
  · have hne : name ≠ "" := (checkNewName_eq_ok_iff.mp hname).2.2.1
    exact .renamed old name ((selectedVariable_flush w).symm.trans hold) hne (selectedDocument_flush w) rfl

/-! ## Every action -/

/-- Whatever an action is, it does one of six things to the selection. -/
theorem selectionChange (w : Workspace) (a : Action) : SelectionChange w (w.perform a).2 := by
  cases a with
  | setOrder _ | insert _ | analyze => exact .kept rfl rfl
  | moveToTop _ | moveToBottom _ | hide _ => exact selectionChange_reorder w _
  | create fresh => exact .toDocument fresh rfl rfl
  | selectDocument id => exact .toDocument id rfl rfl
  | clearSelection => exact .cleared rfl rfl
  | addToOrder id =>
    simp only [perform, snd_ofResult, addToOrder]
    split
    · exact .refl w
    · split <;> exact .kept rfl rfl
  | duplicate id fresh =>
    simp only [perform, snd_ofResult]
    exact withDocument_induction (P := SelectionChange w) (.refl w) fun _ => .toDocument fresh rfl rfl
  | remove id =>
    simp only [perform, snd_of, remove]
    split
    · exact .refl w
    · exact .of_or (selectedDocument_dropDocument w id) rfl
  | removeMany ids =>
    obtain ⟨hd, hv⟩ := selection_dropRemovable w ids
    simp only [perform, snd_of, removeMany]
    split <;> exact .of_or hd hv
  | toggle _ | setName _ _ | setRole _ _ | edit _ _ _ =>
    simp only [perform, snd_ofResult]
    exact withDocument_induction (P := SelectionChange w) (.refl w) fun _ => .kept rfl rfl
  | setEnabled id enabled =>
    simp only [perform, snd_ofResult]
    refine withDocument_induction (P := SelectionChange w) (.refl w) fun doc => ?_
    split <;> exact .kept rfl rfl
  | poll now =>
    simp only [perform, snd_of, poll]
    split <;> exact .kept rfl rfl
  | flush => exact selectionChange_flush w
  | settle =>
    simp only [perform, snd_of, settle_eq_flush]
    exact selectionChange_flush w
  | rename old new =>
    simp only [perform, snd_ofResult]
    exact selectionChange_rename w old new
  | selectVariable name =>
    simp only [perform, selectVariable]
    split
    · exact .refl w
    · next hname => exact .toVariable name hname rfl rfl

/-- None of the six things selects a second thing beside the first, or a variable without a name. -/
theorem SelectionChange.selectsOne (h : SelectionChange w v) (hw : w.SelectsOne) : v.SelectsOne := by
  cases h with
  | kept hd hv =>
    refine ⟨?_, hv ▸ hw.named⟩
    rw [hd, hv]
    exact hw.one
  | dropped hd hv => exact ⟨Or.inl hd, hv ▸ hw.named⟩
  | toDocument id hd hv => exact ⟨Or.inr hv, hv ▸ nofun⟩
  | toVariable name hname hd hv => exact ⟨Or.inl hd, hv ▸ mt Option.some.inj hname⟩
  | renamed old name hold hname hd hv =>
    -- The field of the document is not written; it is empty because the variable was selected.
    have hnone : w.selectedDocument = none := hw.one.resolve_right (hold ▸ Option.some_ne_none old)
    exact ⟨Or.inl (hd.trans hnone), hv ▸ mt Option.some.inj hname⟩
  | cleared hd hv => exact ⟨Or.inl hd, hv ▸ nofun⟩

/-- An editor starts with nothing selected. -/
theorem Start.selectsOne (h : Start w) : w.SelectsOne := by
  obtain ⟨config, documents, order, -, rfl⟩ := h.exists_parts
  exact ⟨Or.inl rfl, nofun⟩

/-- In every reachable workspace a document or a variable with a name is selected, or nothing. -/
theorem Reachable.selectsOne (h : Reachable w) : w.SelectsOne := by
  induction h with
  | start h => exact h.selectsOne
  | perform a _ _ ih => exact (selectionChange _ a).selectsOne ih

end PromptMacros.Workspace
