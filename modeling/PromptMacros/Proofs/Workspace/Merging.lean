import PromptMacros.Proofs.Workspace.RenamedReport

/-!
# When a renaming merges variables

A renaming writes the new name in all documents, but checks it against the variables of the documents that run. So it keeps
different variables different exactly when no document outside the order has the new name already
(`keepsApart_rename_iff`); otherwise the variable becomes one with the variable of that name (`not_keepsApart_rename`).
-/

namespace PromptMacros

/-- Two names become one only when one of them is the old name and the other the new one. -/
theorem substitute_eq_substitute_iff {old new x y : String} (h : x ≠ y) :
    substitute old new x = substitute old new y ↔ (x = old ∧ y = new) ∨ (x = new ∧ y = old) := by
  unfold substitute
  grind

namespace Workspace

/-- The variable that a macro names: the macro in place `k` of the document with this id, in the order or not. -/
def nameAt? (w : Workspace) (id : String) (k : Nat) : Option String :=
  (w.documents.provider.macrosOf id)[k]?.bind Macro.varName?

/-- Any two macros that name different variables in `w` name different ones in `v`, each in its place. -/
def KeepsApart (w v : Workspace) : Prop :=
  ∀ (i j : String) (k l : Nat) (x y : String), w.nameAt? i k = some x → w.nameAt? j l = some y → x ≠ y →
    ∃ x' y', v.nameAt? i k = some x' ∧ v.nameAt? j l = some y' ∧ x' ≠ y'

variable {w : Workspace} {old new : String}

/-- Nothing is merged when the documents stay. -/
theorem keepsApart_of_documents_eq {v : Workspace} (h : v.documents = w.documents) : w.KeepsApart v := by
  intro i j k l x y hx hy hxy
  have hname : v.nameAt? = w.nameAt? := by
    unfold nameAt?
    rw [h]
  exact ⟨x, y, hname ▸ hx, hname ▸ hy, hxy⟩

/-- A renaming renames what each macro names. -/
theorem nameAt?_withRenamed (hold : old ≠ "") (hnew : ValidName new) (id : String) (k : Nat) :
    (w.withRenamed old new).nameAt? id k = (w.nameAt? id k).map (substitute old new) := by
  have hnames : ∀ macros : List Macro, macros[k]?.bind Macro.varName? = (macros.map Macro.kind)[k]?.bind Kind.varName? := by
    intro macros
    rw [List.getElem?_map, Option.bind_map]
    rfl
  have hprovider : (w.withRenamed old new).documents.provider = w.documents.provider.renamed old new :=
    provider_renameIn w.documents old new
  unfold nameAt?
  rw [hprovider, hnames, Provider.kinds_macrosOf_renamed hold hnew, List.getElem?_map, Option.bind_map, Option.map_bind]
  exact Option.bind_congr fun m _ => Kind.varName?_mapName_substitute hold hnew.ne_empty m.kind

/-- A document names a variable in some place exactly when one of its macros names it. -/
theorem exists_nameAt?_iff {id name : String} :
    (∃ k, w.nameAt? id k = some name) ↔ ∃ m ∈ w.documents.provider.macrosOf id, m.varName? = some name := by
  constructor
  · rintro ⟨k, hk⟩
    obtain ⟨m, hm, hname⟩ := Option.bind_eq_some_iff.mp hk
    exact ⟨m, List.mem_of_getElem? hm, hname⟩
  · rintro ⟨m, hm, hname⟩
    obtain ⟨k, hk⟩ := List.mem_iff_getElem?.mp hm
    exact ⟨k, Option.bind_eq_some_iff.mpr ⟨m, hk, hname⟩⟩

/-- A variable is known exactly when a document that runs names it. -/
theorem knows_iff {name : String} : w.knows name = true ↔ ∃ id ∈ w.order, ∃ k, w.nameAt? id k = some name := by
  unfold knows
  rw [knows_analyze_iff]
  exact exists_congr fun id => and_congr_right fun _ => exists_nameAt?_iff.symm

/-- A document of the set names the variable names of its text. -/
theorem exists_nameAt?_iff_variableNames (hi : w.documents.Indexed) {d : Document} (hd : d ∈ w.documents.toList)
    {name : String} : (∃ k, w.nameAt? d.id k = some name) ↔ name ∈ variableNames d.content := by
  have hget : w.documents.provider d.id = some d := hi.get?_eq_some_iff.mpr ⟨hd, rfl⟩
  rw [exists_nameAt?_iff, Macro.mem_variableNames_iff_exists d.id, Provider.macrosOf, hget]

/-- Only a document of the set names a variable. -/
theorem exists_document_of_nameAt? (hi : w.documents.Indexed) {id name : String} {k : Nat}
    (h : w.nameAt? id k = some name) : ∃ d ∈ w.documents.toList, d.id = id ∧ name ∈ variableNames d.content := by
  obtain ⟨m, hm, -⟩ := exists_nameAt?_iff.mp ⟨k, h⟩
  obtain ⟨d, hget⟩ := Option.isSome_iff_exists.mp (Provider.isSome_of_mem_macrosOf hm)
  obtain ⟨hd, rfl⟩ := hi.get?_eq_some_iff.mp hget
  exact ⟨d, hd, rfl, (exists_nameAt?_iff_variableNames hi hd).mp ⟨k, h⟩⟩

/-- Writing a new name that is not known keeps variables apart exactly when no document at all names it. -/
theorem keepsApart_withRenamed_iff (hi : w.documents.Indexed) (hnew : ValidName new) (hne : new ≠ old)
    (hknown : w.knows old = true) (hunknown : w.knows new = false) :
    w.KeepsApart (w.withRenamed old new) ↔
      ∀ d ∈ w.documents.toList, d.id ∉ w.order → new ∉ variableNames d.content := by
  have hold : old ≠ "" := ne_empty_of_knows hknown
  constructor
  · intro h d hd _ hname
    obtain ⟨i, -, k, hk⟩ := knows_iff.mp hknown
    obtain ⟨l, hl⟩ := (exists_nameAt?_iff_variableNames hi hd).mpr hname
    obtain ⟨x, y, hx, hy, hxy⟩ := h i d.id k l old new hk hl hne.symm
    rw [nameAt?_withRenamed hold hnew, hk] at hx
    rw [nameAt?_withRenamed hold hnew, hl] at hy
    refine hxy ?_
    rw [← Option.some.inj hx, ← Option.some.inj hy, substitute_eq_substitute_iff hne.symm]
    exact Or.inl ⟨rfl, rfl⟩
  · intro h i j k l x y hx hy hxy
    -- A document that names the new name would run, and the name would be known, or be one that `h` excludes.
    have hnone : ∀ (id : String) (k : Nat), w.nameAt? id k ≠ some new := by
      intro id k hk
      obtain ⟨d, hd, rfl, hname⟩ := exists_document_of_nameAt? hi hk
      by_cases hid : d.id ∈ w.order
      · rw [knows_iff.mpr ⟨d.id, hid, k, hk⟩] at hunknown
        cases hunknown
      · exact h d hd hid hname
    refine ⟨_, _, (nameAt?_withRenamed hold hnew i k).trans (congrArg _ hx),
      (nameAt?_withRenamed hold hnew j l).trans (congrArg _ hy), fun he => ?_⟩
    rcases (substitute_eq_substitute_iff hxy).mp he with ⟨-, rfl⟩ | ⟨rfl, -⟩
    · exact hnone j l hy
    · exact hnone i k hx

/-- A renaming that succeeds keeps different variables different exactly when the name stays or no document outside the order
has the new name. -/
theorem keepsApart_rename_iff {w : Workspace} (hw : w.Reachable) {old new : String} {result : Renaming}
    (hr : (w.rename old new).1 = .ok result) :
    w.KeepsApart (w.rename old new).2 ↔
      result.newName = old ∨ ∀ d ∈ w.documents.toList, d.id ∉ w.order → result.newName ∉ variableNames d.content := by
  obtain ⟨hcheck, ⟨hold, -, hv⟩ | ⟨hne, -, hv⟩⟩ := hw.settled.rename_cases hr
  · have hdocs : (w.rename old new).2.documents = w.documents := by rw [hv, documents_flush]
    exact iff_of_true (keepsApart_of_documents_eq hdocs) (Or.inl hold)
  · obtain ⟨-, hknown, -, -, -, hunknown⟩ := checkNewName_eq_ok_iff.mp hcheck
    rw [hv, keepsApart_withRenamed_iff hw.indexed (.of_check hcheck) hne hknown (hunknown.resolve_left hne)]
    exact (or_iff_right hne).symm

/-- The document outside the order has neither name, so the variables stay apart. -/
theorem keepsApart_rename_iff_unused :
    let w := ofParts {} (.ofList [.ofContent "a" "{{setvar::x::1}}{{getvar::z}}",
      .ofContent "b" "{{getvar::z}}"]) ["a"]
    w.Reachable ∧ (w.rename "x" "y").1 = .ok ⟨"x", "y", 1, ["a"]⟩ ∧ w.KeepsApart (w.rename "x" "y").2 := by
  intro w
  have hw : w.Reachable := .start (.parts _ _ (DocumentSet.indexed_ofList _))
  have hr : (w.rename "x" "y").1 = .ok ⟨"x", "y", 1, ["a"]⟩ := by decide +kernel
  exact ⟨hw, hr, (keepsApart_rename_iff hw hr).mpr (Or.inr (by decide +kernel))⟩

/-- The document outside the order sets `y`, so that `x`, renamed to it, becomes the same variable. -/
theorem not_keepsApart_rename :
    let w := ofParts {} (.ofList [.ofContent "a" "{{setvar::x::1}}",
      .ofContent "b" "{{setvar::y::2}}"]) ["a"]
    w.Reachable ∧ (w.rename "x" "y").1 = .ok ⟨"x", "y", 1, ["a"]⟩ ∧ ¬w.KeepsApart (w.rename "x" "y").2 := by
  intro w
  refine ⟨.start (.parts _ _ (DocumentSet.indexed_ofList _)), by decide +kernel, ?_⟩
  intro h
  obtain ⟨x, y, hx, hy, hxy⟩ := h "a" "b" 0 0 "x" "y" (by decide +kernel) (by decide +kernel) (by decide)
  have ha : (w.rename "x" "y").2.nameAt? "a" 0 = some "y" := by decide +kernel
  have hb : (w.rename "x" "y").2.nameAt? "b" 0 = some "y" := by decide +kernel
  exact hxy (Option.some.inj (hx.symm.trans (ha.trans (hb.symm.trans hy))))

end Workspace

end PromptMacros
