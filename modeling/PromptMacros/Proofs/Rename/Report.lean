import Mathlib.Data.List.Forall2
import PromptMacros.Proofs.Analysis.Usage
import PromptMacros.Proofs.Rename.Rekey

/-!
# The report on renamed documents

Renaming a variable in the documents of an analysis gives it a renamed report: the macros stand in the same places of their
documents, only at other positions (`Paired`), and running a macro and its renamed one keeps two simulations that differ by
the renaming alike (`Simulation.Renamed.step`), as long as no macro names the new name. So the reports differ by the renaming
and by the positions only.
-/

namespace PromptMacros

variable {old new : String}

/-- A document with the variable `old` called `new`. -/
def Document.renamed (old new : String) (d : Document) : Document :=
  { d with content := (TextRenaming.ofText d.content old new).text }

namespace Provider

/-- The documents with the variable `old` called `new`. -/
def renamed (old new : String) (provider : Provider) : Provider :=
  fun id => (provider id).map (Document.renamed old new)

variable {provider : Provider}

/-- The macros of a renamed document are of the kinds of those of the document, with the new name for the old. -/
theorem kinds_macrosOf_renamed (hold : old ≠ "") (hnew : ValidName new) (provider : Provider) (id : String) :
    ((provider.renamed old new).macrosOf id).map Macro.kind =
      (provider.macrosOf id).map fun m => m.kind.mapName (substitute old new) := by
  unfold macrosOf renamed
  cases provider id with
  | none => rfl
  | some d => exact TextRenaming.kinds_ofText hold hnew id d.content

/-- A renamed document has as many macros. -/
theorem length_macrosOf_renamed (hold : old ≠ "") (hnew : ValidName new) (provider : Provider) (id : String) :
    ((provider.renamed old new).macrosOf id).length = (provider.macrosOf id).length := by
  have h := congrArg List.length (kinds_macrosOf_renamed hold hnew provider id)
  simpa only [List.length_map] using h

/-- A renamed macro is of the kind of the macro in its place, with the new name for the old. -/
theorem kind_of_getElem?_renamed (hold : old ≠ "") (hnew : ValidName new) {id : String} {k : Nat} {m m' : Macro}
    (hm : (provider.macrosOf id)[k]? = some m) (hm' : ((provider.renamed old new).macrosOf id)[k]? = some m') :
    m'.kind = m.kind.mapName (substitute old new) := by
  have h := congrArg (fun kinds => kinds[k]?) (kinds_macrosOf_renamed hold hnew provider id)
  simpa only [List.getElem?_map, hm, hm', Option.map_some, Option.some.injEq] using h

/-- Two identities stand for macros in one place of a document, before and after the renaming. -/
def Paired (old new : String) (provider : Provider) (a b : MacroId) : Prop :=
  ∃ (id : String) (k : Nat) (m m' : Macro), (provider.macrosOf id)[k]? = some m ∧
    ((provider.renamed old new).macrosOf id)[k]? = some m' ∧ m.id = a ∧ m'.id = b

/-- A macro stays in its document. -/
theorem Paired.document_eq {a b : MacroId} (h : Paired old new provider a b) : b.document = a.document := by
  obtain ⟨id, k, m, m', hm, hm', rfl, rfl⟩ := h
  rw [document_of_mem_macrosOf (List.mem_of_getElem? hm), document_of_mem_macrosOf (List.mem_of_getElem? hm')]

/-- A place has one identity before and one after the renaming. -/
theorem Paired.eq_iff {a b c d : MacroId} (h : Paired old new provider a b) (h' : Paired old new provider c d) :
    a = c ↔ b = d := by
  obtain ⟨i, j, m, m', hm, hm', rfl, rfl⟩ := h
  obtain ⟨i', k, n, n', hn, hn', rfl, rfl⟩ := h'
  constructor
  · intro he
    obtain ⟨rfl, rfl⟩ := place_unique hm hn he
    rw [hm'] at hn'
    rw [Option.some.inj hn']
  · intro he
    obtain ⟨rfl, rfl⟩ := place_unique hm' hn' he
    rw [hm] at hn
    rw [Option.some.inj hn]

end Provider

/-! ## Running renamed macros -/

namespace Simulation

/-- Two simulations differ by the renaming and the positions only, and the first knows nothing of the new name. -/
structure Renamed (old new : String) (provider : Provider) (s s' : Simulation) : Prop where
  snapshots : ∀ a b, provider.Paired old new a b → s'.snapshots[b]? = s.snapshots[a]?
  state : s'.state = rekey old new s.state
  usage : s'.usage = rekey old new s.usage
  state_new : s.state[new]? = none
  usage_new : s.usage[new]? = none

/-- Nothing was run yet. -/
theorem Renamed.empty (old new : String) (provider : Provider) : Renamed old new provider {} {} := by
  have hrekey : ∀ {α : Type}, rekey old new (∅ : Std.ExtTreeMap String α) = ∅ := by
    intro α
    unfold rekey
    rw [Std.ExtTreeMap.getElem?_empty]
  exact ⟨fun _ _ _ => rfl, hrekey.symm, hrekey.symm, Std.ExtTreeMap.getElem?_empty, Std.ExtTreeMap.getElem?_empty⟩

variable {provider : Provider} {s s' : Simulation} {x : String}

/-- A variable has the value under its renamed name. -/
theorem Renamed.value? (h : Renamed old new provider s s') (hx : x ≠ new) :
    s'.value? (substitute old new x) = s.value? x := by
  unfold Simulation.value?
  rw [h.state, getElem?_rekey_substitute h.state_new hx]

/-- A use is noted under the renamed name. -/
theorem Renamed.note (h : Renamed old new provider s s') (hx : x ≠ new) (f : Variable → Variable) :
    Renamed old new provider (s.note x f) (s'.note (substitute old new x) f) := by
  have hused : s'.usage.getD (substitute old new x) {} = s.usage.getD x {} := by
    rw [Std.ExtTreeMap.getD_eq_getD_getElem?, Std.ExtTreeMap.getD_eq_getD_getElem?, h.usage,
      getElem?_rekey_substitute h.usage_new hx]
  refine ⟨h.snapshots, h.state, ?_, h.state_new, (getElem?_insert_of_ne hx _).trans h.usage_new⟩
  unfold Simulation.note
  dsimp only
  rw [hused, h.usage, rekey_insert h.usage_new hx]

/-- Setting a variable and its renamed one. -/
theorem Renamed.set (h : Renamed old new provider s s') {d d' : Document} (hid : d'.id = d.id)
    (hen : d'.enabled = d.enabled) (hx : x ≠ new) (value : Option String) :
    Renamed old new provider (s.set d x value) (s'.set d' (substitute old new x) value) := by
  have hnote := h.note hx fun v => v.define ⟨d.id, d.enabled⟩
  unfold Simulation.set
  dsimp only
  rw [hid, hen]
  split
  · refine ⟨hnote.snapshots, ?_, hnote.usage, (getElem?_insert_of_ne hx _).trans h.state_new, hnote.usage_new⟩
    dsimp only
    rw [h.state, rekey_insert h.state_new hx]
  · exact hnote

/-- Reading a variable and its renamed one, in macros that stand in one place. -/
theorem Renamed.get (h : Renamed old new provider s s') {d d' : Document} (hid : d'.id = d.id)
    (hen : d'.enabled = d.enabled) (hx : x ≠ new) (hblank : substitute old new x = "" ↔ x = "") {a b : MacroId}
    (hab : provider.Paired old new a b) :
    Renamed old new provider (s.get d a x) (s'.get d' b (substitute old new x)) := by
  have hnoted : Renamed old new provider (if x = "" then s else s.note x fun v => v.reference ⟨d.id, d.enabled⟩)
      (if x = "" then s' else s'.note (substitute old new x) fun v => v.reference ⟨d.id, d.enabled⟩) := by
    split
    · exact h
    · exact h.note hx _
  unfold Simulation.get
  dsimp only
  rw [hid, hen]
  simp only [hblank]
  refine ⟨fun c e hce => ?_, hnoted.state, hnoted.usage, hnoted.state_new, hnoted.usage_new⟩
  simp only [Std.ExtTreeMap.getElem?_insert, Std.LawfulEqOrd.compare_eq_iff_eq, h.value? hx, h.snapshots c e hce,
    hab.eq_iff hce]

/-- A macro and its renamed one, in one place of a document. -/
theorem Renamed.run (h : Renamed old new provider s s') (hold : old ≠ "") (hne : new ≠ "") {d d' : Document}
    (hid : d'.id = d.id) (hen : d'.enabled = d.enabled) {m m' : Macro} (hm : m.varName? ≠ some new)
    (hkind : m'.kind = m.kind.mapName (substitute old new)) (hmm : provider.Paired old new m.id m'.id) :
    Renamed old new provider (s.run d m) (s'.run d' m') := by
  unfold Simulation.run Macro.varName? at *
  cases hk : m.kind with
  | comment => rw [hkind, hk]; exact h
  | other tag params => rw [hkind, hk]; exact h
  | setVar name value =>
    cases name with
    | none => rw [hkind, hk]; exact h
    | some name =>
      have hx : name ≠ new := fun he => hm (by rw [hk, he, Kind.varName?])
      rw [hkind, hk]
      exact h.set hid hen hx value
  | getVar name =>
    have hx : name ≠ new := fun he => hm (by rw [hk, he, Kind.varName?, if_neg hne])
    rw [hkind, hk]
    exact h.get hid hen hx (substitute_eq_empty_iff hold hne) hmm

/-- A macro and its renamed one, in one place of a document that may be there or not. -/
theorem Renamed.step (h : Renamed old new provider s s') (hold : old ≠ "") (hne : new ≠ "") {m m' : Macro}
    (hm : m.varName? ≠ some new) (hkind : m'.kind = m.kind.mapName (substitute old new))
    (hmm : provider.Paired old new m.id m'.id) :
    Renamed old new provider (step provider s m) (step (provider.renamed old new) s' m') := by
  unfold Simulation.step Provider.renamed
  rw [hmm.document_eq]
  cases provider m.id.document with
  | none => exact h
  | some d => exact h.run hold hne rfl rfl hm hkind hmm

end Simulation

section Run

variable {provider : Provider}

/-- Two macros stand in one place of a document, before and after the renaming, and the new name is not yet in use. -/
structure RenamedMacro (old new : String) (provider : Provider) (m m' : Macro) : Prop where
  fresh : m.varName? ≠ some new
  kind : m'.kind = m.kind.mapName (substitute old new)
  paired : provider.Paired old new m.id m'.id

/-- Flows of macros that differ by the renaming keep two simulations so. -/
theorem Simulation.Renamed.simulateFrom {s s' : Simulation} (h : Renamed old new provider s s') (hold : old ≠ "")
    (hne : new ≠ "") {macros macros' : List Macro} (hm : List.Forall₂ (RenamedMacro old new provider) macros macros') :
    Renamed old new provider (PromptMacros.simulateFrom provider s macros)
      (PromptMacros.simulateFrom (provider.renamed old new) s' macros') := by
  induction hm generalizing s s' with
  | nil => exact h
  | cons hm _ ih => exact ih (h.step hold hne hm.fresh hm.kind hm.paired)

/-- The macros of a document and of the renamed document stand in the same places. -/
theorem forall₂_macrosOf (hold : old ≠ "") (hnew : ValidName new) {id : String}
    (hfresh : ∀ m ∈ provider.macrosOf id, m.varName? ≠ some new) :
    List.Forall₂ (RenamedMacro old new provider) (provider.macrosOf id) ((provider.renamed old new).macrosOf id) := by
  refine List.forall₂_of_length_eq_of_get (Provider.length_macrosOf_renamed hold hnew provider id).symm ?_
  intro k hk hk'
  have hm := List.getElem?_eq_getElem hk
  have hm' := List.getElem?_eq_getElem hk'
  exact ⟨hfresh _ (List.getElem_mem hk), Provider.kind_of_getElem?_renamed hold hnew hm hm', id, k, _, _, hm, hm', rfl, rfl⟩

/-- The flows of an order stand in the same places of their documents. -/
theorem forall₂_flow (hold : old ≠ "") (hnew : ValidName new) {order : List String}
    (hfresh : ∀ id ∈ order, ∀ m ∈ provider.macrosOf id, m.varName? ≠ some new) :
    List.Forall₂ (RenamedMacro old new provider) (order.flatMap provider.macrosOf)
      (order.flatMap (provider.renamed old new).macrosOf) := by
  induction order with
  | nil => exact .nil
  | cons id order ih =>
    obtain ⟨hid, horder⟩ := List.forall_mem_cons.mp hfresh
    exact List.rel_append (forall₂_macrosOf hold hnew hid) (ih horder)

end Run

/-! ## Reports -/

/-- `r'` is what `r` becomes when the variable `old` is called `new`, a name that `r` does not know. -/
structure Report.RenamedTo (old new : String) (r r' : Report) : Prop where
  known : r.knows old = true
  unknown : r.knows new = false
  /-- Each document has as many macros; each of them is the one in its place with the new name for the old, and it sees what
  that one saw. -/
  macros : ∀ id, List.Forall₂ (fun m m' => m'.kind = m.kind.mapName (substitute old new) ∧
    r'.snapshots[m'.id]? = r.snapshots[m.id]?) (r.macrosOf id) (r'.macrosOf id)
  usage : r'.usage = rekey old new r.usage
  finalState : r'.finalState = rekey old new r.finalState
  unresolved : r'.unresolved = (r.unresolved.map (substitute old new)).mergeSort

/-- Renaming a known variable to a valid name that is not known renames it in the report. -/
theorem analyze_renamed {provider : Provider} {order : List String} (hnew : ValidName new)
    (hknown : (analyze provider order).knows old = true) (hunknown : (analyze provider order).knows new = false) :
    (analyze provider order).RenamedTo old new (analyze (provider.renamed old new) order) := by
  have hold : old ≠ "" := ne_empty_of_knows hknown
  have hfresh : ∀ id ∈ order, ∀ m ∈ provider.macrosOf id, m.varName? ≠ some new := by
    intro id hid m hm hname
    rw [knows_analyze_iff.mpr ⟨id, hid, m, hm, hname⟩] at hunknown
    cases hunknown
  have hsim : Simulation.Renamed old new provider
      (simulate provider (flow order (ParsedMacros.ofOrder provider order)))
      (simulate (provider.renamed old new) (flow order (ParsedMacros.ofOrder (provider.renamed old new) order))) := by
    rw [flow_ofOrder, flow_ofOrder]
    exact (Simulation.Renamed.empty old new provider).simulateFrom hold hnew.ne_empty (forall₂_flow hold hnew hfresh)
  refine ⟨hknown, hunknown, fun id => ?_, hsim.usage, hsim.state, ?_⟩
  · rw [macrosOf_analyze, macrosOf_analyze]
    split
    · next hid =>
      exact (forall₂_macrosOf hold hnew (hfresh id hid)).imp fun m m' hm => ⟨hm.kind, hsim.snapshots _ _ hm.paired⟩
    · exact .nil
  · change Report.namesWhere _ _ = _
    rw [hsim.usage]
    exact namesWhere_rekey hsim.usage_new Variable.isUnresolved

end PromptMacros
