import Mathlib.Data.List.Induction
import PromptMacros.Proofs.Analysis.Usage

/-!
# Last writes

What an analysis says of values, without running anything. A macro writes a variable when it sets it and its document is
enabled (`Macro.Writes`); the last macro of a flow that does so tells the value at the end (`getElem?_state_simulate`), and the
last one before a macro that reads the variable tells what that macro sees (`Sees`). A report reflects its flow in this way
(`reflects_analyze`): every macro that reads a variable has a snapshot, and one that runs more than once keeps the snapshot of
the last time.
-/

namespace PromptMacros

/-- In a list with one member more, a member with `p` behind which all have `q` is that member, or one of the list before it, and
then that member has `q` too. -/
theorem exists_last_concat_iff {α : Type} {p q : α → Prop} {l : List α} {a : α} :
    (∃ before x after, l ++ [a] = before ++ x :: after ∧ p x ∧ ∀ y ∈ after, q y) ↔
      p a ∨ q a ∧ ∃ before x after, l = before ++ x :: after ∧ p x ∧ ∀ y ∈ after, q y := by
  constructor
  · rintro ⟨before, x, after, h, hx, hafter⟩
    rcases List.eq_nil_or_concat after with rfl | ⟨after, y, rfl⟩
    · obtain ⟨rfl, ha⟩ := List.append_inj' h rfl
      obtain rfl := List.singleton_inj.mp ha
      exact Or.inl hx
    · rw [List.concat_eq_append, ← List.cons_append, ← List.append_assoc] at h
      obtain ⟨rfl, ha⟩ := List.append_inj' h rfl
      obtain rfl := List.singleton_inj.mp ha
      refine Or.inr ⟨hafter a (by simp), before, x, after, rfl, hx, ?_⟩
      intro y hy
      exact hafter y (by simp [hy])
  · rintro (ha | ⟨ha, before, x, after, rfl, hx, hafter⟩)
    · exact ⟨l, a, [], rfl, ha, by simp⟩
    · refine ⟨before, x, after ++ [a], by simp, hx, ?_⟩
      intro y hy
      rcases List.mem_append.mp hy with hy | hy
      · exact hafter y hy
      · rw [List.mem_singleton.mp hy]
        exact ha

/-- The macro sets the variable to this value, or to none, and its document is there and enabled. -/
def Macro.Writes (provider : Provider) (name : String) (value : Option String) (m : Macro) : Prop :=
  m.kind = .setVar (some name) value ∧ ∃ d, provider m.id.document = some d ∧ d.enabled = true

/-- The last macro of the flow that writes the variable writes this value, or none. -/
def LastWrite (provider : Provider) (macros : List Macro) (name : String) (value : Option String) : Prop :=
  ∃ before m after, macros = before ++ m :: after ∧ m.Writes provider name value ∧
    ∀ w ∈ after, ∀ v, ¬w.Writes provider name v

/-- What a macro that reads the variable behind this flow sees: what was last written to it, or nothing when nothing was. -/
inductive Sees (provider : Provider) (macros : List Macro) (name : String) : Option String → Prop
  | written {value : Option String} (h : LastWrite provider macros name value) : Sees provider macros name value
  | unwritten (h : ∀ m ∈ macros, ∀ v, ¬m.Writes provider name v) : Sees provider macros name none

variable {provider : Provider} {macros : List Macro} {m : Macro} {name : String} {value : Option String}

/-- A macro writes one value. -/
theorem Macro.Writes.value_eq {v : Option String} (h : m.Writes provider name value) (h' : m.Writes provider name v) :
    v = value := by
  have heq := h'.1.symm.trans h.1
  cases heq
  rfl

/-- A macro of a document writes no variable with an empty name. -/
theorem Macro.not_writes_empty {order : List String} (hm : m ∈ order.flatMap provider.macrosOf) :
    ¬m.Writes provider "" value := by
  rintro ⟨hkind, -⟩
  obtain ⟨id, -, hm⟩ := List.mem_flatMap.mp hm
  obtain ⟨body, hbody⟩ := Provider.kind_of_mem_macrosOf hm
  have hname : (Kind.classify body).varName? = some "" := by rw [← hbody, hkind, Kind.varName?]
  exact Kind.ne_empty_of_varName?_classify hname rfl

/-- Where nothing was written, nothing is seen. -/
theorem Sees.eq_none (h : Sees provider macros name value) (hw : ∀ m ∈ macros, ∀ v, ¬m.Writes provider name v) :
    value = none := by
  cases h with
  | unwritten _ => rfl
  | written h =>
    obtain ⟨before, m, after, rfl, hm, -⟩ := h
    exact absurd hm (hw m (by simp) value)

/-! ## Last writes of a longer flow -/

/-- A macro behind a flow is the last to write what it writes, and leaves the other last writes as they are. -/
theorem lastWrite_concat_iff :
    LastWrite provider (macros ++ [m]) name value ↔
      m.Writes provider name value ∨ (∀ v, ¬m.Writes provider name v) ∧ LastWrite provider macros name value :=
  exists_last_concat_iff

/-- There is a last write exactly when there is a write. -/
theorem exists_lastWrite_iff :
    (∃ v, LastWrite provider macros name v) ↔ ∃ m ∈ macros, ∃ v, m.Writes provider name v := by
  constructor
  · rintro ⟨v, before, m, after, rfl, hm, -⟩
    exact ⟨m, by simp, v, hm⟩
  · rintro ⟨w, hw, v, hv⟩
    induction macros using List.reverseRecOn with
    | nil => cases hw
    | append_singleton macros m ih =>
      by_cases hm : ∃ v, m.Writes provider name v
      · obtain ⟨v, hv⟩ := hm
        exact ⟨v, lastWrite_concat_iff.mpr (Or.inl hv)⟩
      · rcases List.mem_append.mp hw with hw | hw
        · obtain ⟨v, hv⟩ := ih hw
          exact ⟨v, lastWrite_concat_iff.mpr (Or.inr ⟨not_exists.mp hm, hv⟩)⟩
        · rw [List.mem_singleton.mp hw] at hv
          exact absurd ⟨v, hv⟩ hm

/-! ## The values of the variables -/

namespace Simulation

/-- A macro that writes a variable gives it the value. -/
theorem getElem?_state_step_of_writes (h : m.Writes provider name value) (s : Simulation) :
    (step provider s m).state[name]? = some value := by
  obtain ⟨hkind, d, hd, hen⟩ := h
  unfold step
  rw [hd]
  simp [run, hkind, set, hen]

/-- A macro that does not write a variable leaves the value of it. -/
theorem getElem?_state_step_of_not_writes (h : ∀ v, ¬m.Writes provider name v) (s : Simulation) :
    (step provider s m).state[name]? = s.state[name]? := by
  unfold step
  split
  · rfl
  · next d hd =>
    unfold run
    split
    · next x v hkind =>
      unfold set
      dsimp only
      split
      · next hen =>
        have hx : x ≠ name := fun he => h v ⟨he ▸ hkind, d, hd, hen⟩
        exact (Std.ExtTreeMap.getElem?_insert ..).trans (if_neg (mt Std.LawfulEqOrd.compare_eq_iff_eq.mp hx))
      · rfl
    · next x hkind =>
      unfold get
      dsimp only
      split <;> rfl
    all_goals rfl

end Simulation

theorem simulate_concat (provider : Provider) (macros : List Macro) (m : Macro) :
    simulate provider (macros ++ [m]) = Simulation.step provider (simulate provider macros) m :=
  simulateFrom_append ..

/-- The variables written in a flow have the values last written to them, and no other variable is set. -/
theorem getElem?_state_simulate :
    (simulate provider macros).state[name]? = some value ↔ LastWrite provider macros name value := by
  induction macros using List.reverseRecOn with
  | nil =>
    constructor
    · intro h
      cases Std.ExtTreeMap.getElem?_empty.symm.trans h
    · rintro ⟨before, m, after, h, -⟩
      simp at h
  | append_singleton macros m ih =>
    rw [simulate_concat, lastWrite_concat_iff]
    by_cases hm : ∃ v, m.Writes provider name v
    · obtain ⟨v, hv⟩ := hm
      rw [Simulation.getElem?_state_step_of_writes hv]
      constructor
      · intro h
        obtain rfl := Option.some.inj h
        exact Or.inl hv
      · rintro (h | ⟨h, -⟩)
        · rw [h.value_eq hv]
        · exact absurd hv (h v)
    · have hm' := not_exists.mp hm
      rw [Simulation.getElem?_state_step_of_not_writes hm', ih]
      constructor
      · exact fun h => Or.inr ⟨hm', h⟩
      · rintro (h | ⟨-, h⟩)
        · exact absurd h (hm' value)
        · exact h

/-- What stands for a variable behind a flow is what a macro that reads it there sees. -/
theorem sees_value? (provider : Provider) (macros : List Macro) (name : String) :
    Sees provider macros name ((simulate provider macros).value? name) := by
  unfold Simulation.value?
  cases h : (simulate provider macros).state[name]? with
  | none =>
    refine .unwritten ?_
    intro m hm v hv
    obtain ⟨w, hw⟩ := exists_lastWrite_iff.mpr ⟨m, hm, v, hv⟩
    rw [getElem?_state_simulate.mpr hw] at h
    cases h
  | some v => exact .written (getElem?_state_simulate.mp h)

/-! ## Snapshots -/

namespace Simulation

variable {id : MacroId}

/-- A macro takes a snapshot when it reads a variable and its document is there. -/
theorem mem_snapshots_step (s : Simulation) :
    id ∈ (step provider s m).snapshots ↔
      ((provider m.id.document).isSome ∧ m.kind.isGetVar = true ∧ m.id = id) ∨ id ∈ s.snapshots := by
  unfold step
  cases provider m.id.document with
  | none => simp
  | some d =>
    unfold run
    cases hkind : m.kind with
    | setVar x v =>
      cases x with
      | none => simp [Kind.isGetVar]
      | some x =>
        have hsnap : (s.set d x v).snapshots = s.snapshots := by
          unfold set
          dsimp only
          split <;> rfl
        simp [hsnap, Kind.isGetVar]
    | getVar x => simp [get, Kind.isGetVar, Std.ExtTreeMap.mem_insert]
    | comment | other _ _ => simp [Kind.isGetVar]

/-- A macro that reads a variable takes a snapshot of what stands for it. -/
theorem getElem?_snapshots_step (hm : (provider m.id.document).isSome) (hkind : m.kind = .getVar name) (s : Simulation) :
    (step provider s m).snapshots[m.id]? = some (s.value? name) := by
  obtain ⟨d, hd⟩ := Option.isSome_iff_exists.mp hm
  unfold step
  rw [hd]
  simp [run, hkind, get]

/-- A macro leaves the snapshots of others. -/
theorem getElem?_snapshots_step_of_ne (h : m.id ≠ id) (s : Simulation) :
    (step provider s m).snapshots[id]? = s.snapshots[id]? := by
  unfold step
  split
  · rfl
  · unfold run
    split
    · unfold set
      dsimp only
      split <;> rfl
    · exact (Std.ExtTreeMap.getElem?_insert ..).trans (if_neg (mt Std.LawfulEqOrd.compare_eq_iff_eq.mp h))
    all_goals rfl

end Simulation

/-- A flow takes snapshots at the macros that read a variable, where their documents are there. -/
theorem mem_snapshots_simulateFrom (s : Simulation) {id : MacroId} :
    id ∈ (simulateFrom provider s macros).snapshots ↔
      (∃ m ∈ macros, (provider m.id.document).isSome ∧ m.kind.isGetVar = true ∧ m.id = id) ∨ id ∈ s.snapshots := by
  induction macros generalizing s with
  | nil => simp [simulateFrom]
  | cons m macros ih =>
    change id ∈ (simulateFrom provider (Simulation.step provider s m) macros).snapshots ↔ _
    rw [ih, Simulation.mem_snapshots_step]
    simp only [List.mem_cons, or_and_right, exists_or, exists_eq_left, or_assoc, or_left_comm]

/-- A flow leaves the snapshots of macros that it does not have. -/
theorem getElem?_snapshots_simulateFrom_of_forall_ne {id : MacroId} (h : ∀ m ∈ macros, m.id ≠ id) (s : Simulation) :
    (simulateFrom provider s macros).snapshots[id]? = s.snapshots[id]? := by
  induction macros generalizing s with
  | nil => rfl
  | cons m macros ih =>
    obtain ⟨hm, hmacros⟩ := List.forall_mem_cons.mp h
    change (simulateFrom provider (Simulation.step provider s m) macros).snapshots[id]? = _
    rw [ih hmacros, Simulation.getElem?_snapshots_step_of_ne hm]

/-- A macro that reads a variable and runs for the last time keeps the snapshot of what stands for the variable then. -/
theorem getElem?_snapshots_simulate {before after : List Macro} (hm : (provider m.id.document).isSome)
    (hkind : m.kind = .getVar name) (hafter : ∀ x ∈ after, x.id ≠ m.id) :
    (simulate provider (before ++ m :: after)).snapshots[m.id]? = some ((simulate provider before).value? name) := by
  have hrun : simulate provider (before ++ m :: after) =
      simulateFrom provider (Simulation.step provider (simulate provider before) m) after := by
    rw [simulate, simulateFrom_append]
    rfl
  rw [hrun, getElem?_snapshots_simulateFrom_of_forall_ne hafter, Simulation.getElem?_snapshots_step hm hkind]

/-- What the macros of a document see is settled when the document has run: an order that goes on without it leaves it. -/
theorem getElem?_snapshots_analyze_append {order others : List String} (h : (order ++ others).Nodup) {id : MacroId}
    (hid : id.document ∈ order) :
    (analyze provider (order ++ others)).snapshots[id]? = (analyze provider order).snapshots[id]? := by
  have hother : ∀ m ∈ others.flatMap provider.macrosOf, m.id ≠ id := by
    rintro m hm rfl
    obtain ⟨other, hother, hm⟩ := List.mem_flatMap.mp hm
    rw [Provider.document_of_mem_macrosOf hm] at hid
    exact (List.nodup_append.mp h).2.2 _ hid _ hother rfl
  rw [analyze_eq, analyze_eq, List.flatMap_append]
  change (simulate provider _).snapshots[id]? = (simulate provider _).snapshots[id]?
  rw [simulate, simulateFrom_append, getElem?_snapshots_simulateFrom_of_forall_ne hother]
  rfl

/-! ## Reports -/

/-- The report tells what the macros of this flow, run in turn, read and write. -/
structure Report.Reflects (provider : Provider) (macros : List Macro) (r : Report) : Prop where
  /-- Snapshots are taken at the macros that read a variable, whether they name one or not, and nowhere else. -/
  read : ∀ id, id ∈ r.snapshots ↔ ∃ m ∈ macros, m.kind.isGetVar = true ∧ m.id = id
  /-- The snapshot of a macro that reads a variable is what it sees where it runs for the last time. Without a name it sees
  nothing. -/
  seen : ∀ before m after name, macros = before ++ m :: after → m ∉ after → m.kind = .getVar name →
    ∃ value, r.snapshots[m.id]? = some value ∧ Sees provider before name value ∧ (name = "" → value = none)
  /-- The variables written have a final value, or none, and no other variable is there. -/
  written : ∀ name, name ∈ r.finalState ↔ ∃ m ∈ macros, ∃ value, m.Writes provider name value
  /-- The final value of a variable is the one last written. -/
  final : ∀ name value, r.finalState[name]? = some value ↔ LastWrite provider macros name value

/-- The report of an order reflects the macros of its documents, one document after another. -/
theorem reflects_analyze (provider : Provider) (order : List String) :
    (analyze provider order).Reflects provider (order.flatMap provider.macrosOf) := by
  have hsome : ∀ m ∈ order.flatMap provider.macrosOf, (provider m.id.document).isSome := by
    intro m hm
    obtain ⟨id, -, hm⟩ := List.mem_flatMap.mp hm
    rw [Provider.document_of_mem_macrosOf hm]
    exact Provider.isSome_of_mem_macrosOf hm
  have hsnapshots : (analyze provider order).snapshots = (simulate provider (order.flatMap provider.macrosOf)).snapshots := by
    rw [analyze_eq]
    rfl
  have hfinal : (analyze provider order).finalState = (simulate provider (order.flatMap provider.macrosOf)).state := by
    rw [analyze_eq]
    rfl
  refine ⟨fun id => ?_, fun before m after name hflow hlast hkind => ?_, fun name => ?_, fun name value => ?_⟩
  · rw [hsnapshots, simulate, mem_snapshots_simulateFrom]
    constructor
    · rintro (⟨m, hm, -, hget, hid⟩ | h)
      · exact ⟨m, hm, hget, hid⟩
      · simp at h
    · rintro ⟨m, hm, hget, hid⟩
      exact Or.inl ⟨m, hm, hsome m hm, hget, hid⟩
  · have hmem : m ∈ order.flatMap provider.macrosOf := by simp [hflow]
    have hafter : ∀ x ∈ after, x.id ≠ m.id := by
      intro x hx hid
      have hxm : x ∈ order.flatMap provider.macrosOf := by simp [hflow, hx]
      exact hlast (Provider.eq_of_id_eq hxm hmem hid ▸ hx)
    have hsees := sees_value? provider before name
    refine ⟨_, ?_, hsees, ?_⟩
    · rw [hsnapshots, hflow]
      exact getElem?_snapshots_simulate (hsome m hmem) hkind hafter
    · rintro rfl
      refine hsees.eq_none ?_
      intro x hx v
      have hxm : x ∈ order.flatMap provider.macrosOf := by simp [hflow, hx]
      exact Macro.not_writes_empty hxm
  · rw [hfinal, Std.ExtTreeMap.mem_iff_isSome_getElem?, Option.isSome_iff_exists, ← exists_lastWrite_iff]
    exact exists_congr fun v => getElem?_state_simulate
  · rw [hfinal]
    exact getElem?_state_simulate

/-- A document runs twice, with a disabled one between: the second time it reads what it wrote the first time. -/
theorem reflects_analyze_again :
    let provider := Provider.ofList [.ofContent "a" "\x7b\x7bgetvar::x\x7d\x7d\x7b\x7bsetvar::x::1\x7d\x7d",
      { Document.ofContent "b" "\x7b\x7bsetvar::x::2\x7d\x7d" with enabled := false }]
    let flow := ["a", "ghost", "b", "a"].flatMap provider.macrosOf
    let m := Macro.ofToken "a" (Token.ofBody 0 "getvar::x".toList)
    flow = flow.take 3 ++ m :: flow.drop 4 ∧ m ∉ flow.drop 4 ∧ m.kind = .getVar "x" ∧
      ∃ value, (analyze provider ["a", "ghost", "b", "a"]).snapshots[m.id]? = some value ∧
        Sees provider (flow.take 3) "x" value ∧ ("x" = "" → value = none) := by
  intro provider flow m
  have hflow : flow = flow.take 3 ++ m :: flow.drop 4 := by decide +kernel
  have hlast : m ∉ flow.drop 4 := by decide +kernel
  have hkind : m.kind = .getVar "x" := by decide +kernel
  exact ⟨hflow, hlast, hkind, (reflects_analyze provider _).seen _ _ _ _ hflow hlast hkind⟩

end PromptMacros
