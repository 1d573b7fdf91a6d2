import PromptMacros.Proofs.Analysis.LastWrite
import PromptMacros.Proofs.Analysis.Records

/-!
# What a flow writes

What a flow writes to a variable does not depend on what stood there before (`written`). Running a flow lays what it writes over
what was there (`getElem?_state_simulateFrom`), so what two flows write in turn is what the second writes, or else the first
(`written_append`). What a macro sees is what the documents before its own and the macros before it wrote
(`getElem?_snapshots_analyze`); so the macros of a document see the same in two orders in which the documents before it wrote the
same to the variables that it reads (`getElem?_snapshots_analyze_congr`). Behind two orders that wrote the same, whatever follows
goes on in the same way (`getElem?_snapshots_analyze_behind`, `finalState_analyze_behind`), so a stretch of an order may be replaced
by one that writes the same (`getElem?_snapshots_analyze_around`).
-/

namespace PromptMacros

/-- What a flow writes to a variable: the value last written to it, or none, if the flow writes it at all. -/
def written (provider : Provider) (macros : List Macro) (name : String) : Option (Option String) :=
  (simulate provider macros).state[name]?

variable {provider p q : Provider} {macros : List Macro} {name : String}

/-! ## One flow after another -/

/-- Running a flow lays what it writes over what was there. -/
theorem getElem?_state_simulateFrom (s : Simulation) (macros : List Macro) (name : String) :
    (simulateFrom provider s macros).state[name]? = (written provider macros name).or s.state[name]? := by
  -- From the end of the flow: the last macro decides, or else those before it, whatever the flow started from.
  unfold written simulate
  induction macros using List.reverseRecOn with
  | nil => simp [simulateFrom]
  | append_singleton macros m ih =>
    rw [simulateFrom_append, simulateFrom_append]
    change (Simulation.step provider _ m).state[name]? = (Simulation.step provider _ m).state[name]?.or _
    by_cases hm : ∃ v, m.Writes provider name v
    · obtain ⟨v, hv⟩ := hm
      rw [Simulation.getElem?_state_step_of_writes hv, Simulation.getElem?_state_step_of_writes hv, Option.some_or]
    · have hm' := not_exists.mp hm
      rw [Simulation.getElem?_state_step_of_not_writes hm', Simulation.getElem?_state_step_of_not_writes hm', ih]

/-- Of two flows the second has the last word. -/
theorem written_append (xs ys : List Macro) :
    written provider (xs ++ ys) name = (written provider ys name).or (written provider xs name) := by
  rw [written, simulate, simulateFrom_append, getElem?_state_simulateFrom]
  rfl

/-- A flow writes nothing to a variable exactly when none of its macros does. -/
theorem written_eq_none_iff : written provider macros name = none ↔ ∀ m ∈ macros, ∀ v, ¬m.Writes provider name v := by
  have hwrite : (∃ v, written provider macros name = some v) ↔ ∃ m ∈ macros, ∃ v, m.Writes provider name v :=
    (exists_congr fun v => getElem?_state_simulate).trans exists_lastWrite_iff
  rw [Option.eq_none_iff_forall_ne_some, ← not_exists, hwrite]
  simp

/-- Flows of macros that write alike, one by one, write the same. -/
theorem written_map {f : Macro → Macro} (h : ∀ m ∈ macros, ∀ v, (f m).Writes q name v ↔ m.Writes p name v) :
    written q (macros.map f) name = written p macros name := by
  induction macros using List.reverseRecOn with
  | nil => rfl
  | append_singleton macros m ih =>
    have hm : ∀ v, (f m).Writes q name v ↔ m.Writes p name v := h m (by simp)
    rw [List.map_append, List.map_singleton, written_append, written_append, ih fun x hx => h x (by simp [hx])]
    congr 1
    by_cases hw : ∃ v, m.Writes p name v
    · obtain ⟨v, hv⟩ := hw
      exact (Simulation.getElem?_state_step_of_writes ((hm v).mpr hv) {}).trans
        (Simulation.getElem?_state_step_of_writes hv {}).symm
    · have hw' : ∀ v, ¬m.Writes p name v := not_exists.mp hw
      exact (Simulation.getElem?_state_step_of_not_writes (fun v => mt (hm v).mp (hw' v)) {}).trans
        (Simulation.getElem?_state_step_of_not_writes hw' {}).symm

/-- Flows of macros that are of one kind, one by one, in documents with one flag, write the same. -/
theorem written_map_of_kind_eq {f : Macro → Macro} (hkind : ∀ m ∈ macros, (f m).kind = m.kind)
    (hflag : ∀ m ∈ macros, (q (f m).id.document).map Document.enabled = (p m.id.document).map Document.enabled) :
    written q (macros.map f) name = written p macros name := by
  refine written_map fun m hm v => ?_
  rw [Macro.Writes, Macro.Writes, hkind m hm, ← Option.map_eq_some_iff, ← Option.map_eq_some_iff, hflag m hm]

/-- Stores in which the macros of a flow write alike are written the same. -/
theorem written_congr (h : ∀ m ∈ macros, ∀ v, m.Writes q name v ↔ m.Writes p name v) :
    written q macros name = written p macros name := by
  have hmap := written_map (f := id) h
  rwa [List.map_id] at hmap

/-- A macro that writes a variable sets it. -/
theorem Macro.Writes.uses {m : Macro} {value : Option String} (h : m.Writes provider name value) :
    m.uses .definition name = true := by
  simp [Macro.uses, Macro.varName?, Kind.isSetVar, Kind.varName?, h.1]

/-- A document that is disabled, or has no macro that sets the variable, writes nothing to it. -/
theorem written_macrosOf_eq_none {x : String}
    (h : (provider x).map Document.enabled = some true → ∀ m ∈ provider.macrosOf x, m.uses .definition name = false) :
    written provider (provider.macrosOf x) name = none := by
  refine written_eq_none_iff.mpr fun m hm value hw => ?_
  have huse := hw.uses
  obtain ⟨-, d, hd, hen⟩ := hw
  rw [Provider.document_of_mem_macrosOf hm] at hd
  rw [h (by rw [hd, Option.map_some, hen]) m hm] at huse
  cases huse

/-! ## What the macros of a document see -/

section Seen

variable {before after before' after' : List String} {x : String}

/-- The values at the end of an analysis are those that the flow writes. -/
theorem getElem?_finalState_analyze (provider : Provider) (order : List String) (name : String) :
    (analyze provider order).finalState[name]? = written provider (order.flatMap provider.macrosOf) name := by
  rw [analyze_eq]
  rfl

/-- A macro that reads a variable sees what the documents before its own and the macros before it in its document wrote. -/
theorem getElem?_snapshots_analyze (h : (before ++ x :: after).Nodup) {xs ys : List Macro} {m : Macro}
    (hm : provider.macrosOf x = xs ++ m :: ys) (hkind : m.kind = .getVar name) :
    (analyze provider (before ++ x :: after)).snapshots[m.id]? =
      some ((written provider (before.flatMap provider.macrosOf ++ xs) name).join) := by
  have hmem : m ∈ provider.macrosOf x := by simp [hm]
  have hflow : (before ++ x :: after).flatMap provider.macrosOf =
      (before.flatMap provider.macrosOf ++ xs) ++ m :: (ys ++ after.flatMap provider.macrosOf) := by
    simp [hm]
  have hlater : ∀ y ∈ ys ++ after.flatMap provider.macrosOf, y.id ≠ m.id := by
    intro y hy hid
    rcases List.mem_append.mp hy with hy | hy
    · have hlt := provider.pairwise_offset_macrosOf x
      rw [hm] at hlt
      have := (List.pairwise_cons.mp (List.pairwise_append.mp hlt).2.1).1 y hy
      rw [hid] at this
      exact Nat.lt_irrefl _ this
    · obtain ⟨other, hother, hy⟩ := List.mem_flatMap.mp hy
      have hx : other = x := by
        rw [← Provider.document_of_mem_macrosOf hy, hid, Provider.document_of_mem_macrosOf hmem]
      exact (List.nodup_cons.mp (List.nodup_append.mp h).2.1).1 (hx ▸ hother)
  have hsome : (provider m.id.document).isSome := by
    rw [Provider.document_of_mem_macrosOf hmem]
    exact Provider.isSome_of_mem_macrosOf hmem
  rw [analyze_eq, hflow]
  exact getElem?_snapshots_simulate hsome hkind hlater

/-- Snapshots are taken at the macros that read a variable in the documents of the order, and nowhere else. -/
theorem mem_snapshots_analyze_iff {order : List String} {id : MacroId} :
    id ∈ (analyze provider order).snapshots ↔
      id.document ∈ order ∧ ∃ m ∈ provider.macrosOf id.document, m.kind.isGetVar = true ∧ m.id = id := by
  rw [(reflects_analyze provider order).read]
  constructor
  · rintro ⟨m, hm, hget, rfl⟩
    obtain ⟨x, hx, hm⟩ := List.mem_flatMap.mp hm
    rw [Provider.document_of_mem_macrosOf hm]
    exact ⟨hx, m, hm, hget, rfl⟩
  · rintro ⟨hid, m, hm, hget, hmid⟩
    exact ⟨m, List.mem_flatMap.mpr ⟨_, hid, hm⟩, hget, hmid⟩

/-- A report has a snapshot exactly where a document of the order has a macro that reads a variable. -/
theorem hasSnapshot_analyze_iff {order : List String} {id : MacroId} :
    (analyze provider order).hasSnapshot id = true ↔
      id.document ∈ order ∧ ∃ m ∈ provider.macrosOf id.document, m.kind.isGetVar = true ∧ m.id = id :=
  Std.ExtTreeMap.contains_iff_mem.trans mem_snapshots_analyze_iff

/-- There is no snapshot in a document that the order does not list. -/
theorem getElem?_snapshots_analyze_of_not_mem {order : List String} {id : MacroId} (h : id.document ∉ order) :
    (analyze provider order).snapshots[id]? = none :=
  Std.ExtTreeMap.getElem?_eq_none fun hid => h (mem_snapshots_analyze_iff.mp hid).1

/-- The macros of a document see the same in two orders in which the documents before it wrote the same to what it reads. -/
theorem getElem?_snapshots_analyze_congr (h : (before ++ x :: after).Nodup) (h' : (before' ++ x :: after').Nodup)
    (hw : ∀ m ∈ provider.macrosOf x, ∀ name, m.kind = .getVar name →
      written provider (before'.flatMap provider.macrosOf) name = written provider (before.flatMap provider.macrosOf) name)
    {id : MacroId} (hid : id.document = x) :
    (analyze provider (before' ++ x :: after')).snapshots[id]? =
      (analyze provider (before ++ x :: after)).snapshots[id]? := by
  by_cases hm : ∃ m ∈ provider.macrosOf x, m.kind.isGetVar = true ∧ m.id = id
  · obtain ⟨m, hm, hget, rfl⟩ := hm
    obtain ⟨name, hkind⟩ := Kind.isGetVar_iff.mp hget
    obtain ⟨xs, ys, hsplit⟩ := List.append_of_mem hm
    rw [getElem?_snapshots_analyze h hsplit hkind, getElem?_snapshots_analyze h' hsplit hkind, written_append,
      written_append, hw m hm name hkind]
  · have hnone : ∀ order, (analyze provider order).snapshots[id]? = none :=
      fun order => Std.ExtTreeMap.getElem?_eq_none fun hx => hm (hid ▸ (mem_snapshots_analyze_iff.mp hx).2)
    rw [hnone, hnone]

/-! ## What comes behind -/

variable {front front' : List String}

/-- Behind two orders that wrote the same, the same documents write the same. -/
theorem written_flatMap_append (hw : ∀ name, written provider (front'.flatMap provider.macrosOf) name =
      written provider (front.flatMap provider.macrosOf) name) (after : List String) (name : String) :
    written provider ((front' ++ after).flatMap provider.macrosOf) name =
      written provider ((front ++ after).flatMap provider.macrosOf) name := by
  rw [List.flatMap_append, List.flatMap_append, written_append, written_append, hw]

/-- Behind two orders that wrote the same, the same documents see the same. -/
theorem getElem?_snapshots_analyze_behind (h : (front ++ after).Nodup) (h' : (front' ++ after).Nodup)
    (hw : ∀ name, written provider (front'.flatMap provider.macrosOf) name =
      written provider (front.flatMap provider.macrosOf) name)
    {id : MacroId} (hid : id.document ∈ after) :
    (analyze provider (front' ++ after)).snapshots[id]? = (analyze provider (front ++ after)).snapshots[id]? := by
  obtain ⟨xs, ys, rfl⟩ := List.append_of_mem hid
  rw [← List.append_assoc] at h h'
  rw [← List.append_assoc, ← List.append_assoc]
  exact getElem?_snapshots_analyze_congr h h' (fun _ _ name _ => written_flatMap_append hw xs name) rfl

/-- When one stretch of an order is replaced by another and the same is written up to its end, all others see the same. -/
theorem getElem?_snapshots_analyze_around {mid mid' : List String} (h : (before ++ mid ++ after).Nodup)
    (h' : (before ++ mid' ++ after).Nodup)
    (hw : ∀ name, written provider ((before ++ mid').flatMap provider.macrosOf) name =
      written provider ((before ++ mid).flatMap provider.macrosOf) name)
    {id : MacroId} (hid : id.document ∉ mid) (hid' : id.document ∉ mid') :
    (analyze provider (before ++ mid' ++ after)).snapshots[id]? = (analyze provider (before ++ mid ++ after)).snapshots[id]? := by
  by_cases hafter : id.document ∈ after
  · exact getElem?_snapshots_analyze_behind h h' hw hafter
  by_cases hbefore : id.document ∈ before
  · rw [List.append_assoc] at h h' ⊢
    rw [List.append_assoc, getElem?_snapshots_analyze_append h hbefore, getElem?_snapshots_analyze_append h' hbefore]
  · have hnot : ∀ mid, id.document ∉ mid → id.document ∉ before ++ mid ++ after := fun mid hmid => by
      simp [hbefore, hmid, hafter]
    rw [getElem?_snapshots_analyze_of_not_mem (hnot mid hid), getElem?_snapshots_analyze_of_not_mem (hnot mid' hid')]

/-- Behind two orders that wrote the same, the same documents leave the same values at the end. -/
theorem finalState_analyze_behind (hw : ∀ name, written provider (front'.flatMap provider.macrosOf) name =
      written provider (front.flatMap provider.macrosOf) name) (after : List String) :
    (analyze provider (front' ++ after)).finalState = (analyze provider (front ++ after)).finalState := by
  refine Std.ExtTreeMap.ext_getElem? ?_
  intro name
  rw [getElem?_finalState_analyze, getElem?_finalState_analyze, written_flatMap_append hw]

end Seen

end PromptMacros
