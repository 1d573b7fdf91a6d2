import PromptMacros.Proofs.Analysis.Flow
import PromptMacros.Proofs.Macro.Naming

/-!
# Which variables a report knows

Running a macro makes the variable known that it sets or reads, and no other (`mem_usage_run`), whether its document is
enabled or not. So a report knows exactly the variables that the macros of its documents name (`knows_analyze_iff`). The names
of which something holds are listed in increasing order (`pairwise_namesWhere`).
-/

namespace PromptMacros

namespace Simulation

variable {name : String}

theorem mem_usage_note {s : Simulation} {x : String} {f : Variable → Variable} :
    name ∈ (s.note x f).usage ↔ x = name ∨ name ∈ s.usage := by
  change name ∈ s.usage.insert x _ ↔ _
  rw [Std.ExtTreeMap.mem_insert, Std.LawfulEqOrd.compare_eq_iff_eq]

/-- Running a macro makes known the variable that it names. -/
theorem mem_usage_run (s : Simulation) (doc : Document) (m : Macro) :
    name ∈ (s.run doc m).usage ↔ m.varName? = some name ∨ name ∈ s.usage := by
  unfold run Macro.varName?
  split
  · next x value hkind =>
    have husage : (s.set doc x value).usage = (s.note x fun v => v.define ⟨doc.id, doc.enabled⟩).usage := by
      unfold set
      dsimp only
      split <;> rfl
    rw [husage, mem_usage_note, hkind, Kind.varName?, Option.some.injEq]
  · next x hkind =>
    rw [hkind, Kind.varName?]
    by_cases hx : x = ""
    · simp [get, hx]
    · have husage : (s.get doc m.id x).usage = (s.note x fun v => v.reference ⟨doc.id, doc.enabled⟩).usage := by
        simp [get, hx]
      rw [husage, mem_usage_note, if_neg hx, Option.some.injEq]
  all_goals
    next hkind => simp [hkind, Kind.varName?]

/-- A step makes known the variable that the macro names, if its document is there. -/
theorem mem_usage_step (provider : Provider) (s : Simulation) (m : Macro) :
    name ∈ (step provider s m).usage ↔
      ((provider m.id.document).isSome ∧ m.varName? = some name) ∨ name ∈ s.usage := by
  unfold step
  cases provider m.id.document with
  | none => simp
  | some doc => simp [mem_usage_run]

end Simulation

/-- Running a flow makes known the variables that its macros name, where their documents are there. -/
theorem mem_usage_simulateFrom (provider : Provider) (s : Simulation) (macros : List Macro) {name : String} :
    name ∈ (simulateFrom provider s macros).usage ↔
      (∃ m ∈ macros, (provider m.id.document).isSome ∧ m.varName? = some name) ∨ name ∈ s.usage := by
  induction macros generalizing s with
  | nil => simp [simulateFrom]
  | cons m macros ih =>
    change name ∈ (simulateFrom provider (Simulation.step provider s m) macros).usage ↔ _
    rw [ih, Simulation.mem_usage_step]
    simp only [List.mem_cons, or_and_right, exists_or, exists_eq_left, or_assoc, or_left_comm]

/-- A report knows exactly the variables that the macros of its documents set or read. -/
theorem knows_analyze_iff {provider : Provider} {order : List String} {name : String} :
    (analyze provider order).knows name = true ↔
      ∃ id ∈ order, ∃ m ∈ provider.macrosOf id, m.varName? = some name := by
  change (simulateFrom provider {} (flow order (ParsedMacros.ofOrder provider order))).usage.contains name = true ↔ _
  rw [Std.ExtTreeMap.contains_iff_mem, mem_usage_simulateFrom, flow_ofOrder]
  constructor
  · rintro (⟨m, hm, -, hname⟩ | h)
    · obtain ⟨id, hid, hm⟩ := List.mem_flatMap.mp hm
      exact ⟨id, hid, m, hm, hname⟩
    · simp at h
  · rintro ⟨id, hid, m, hm, hname⟩
    refine Or.inl ⟨m, List.mem_flatMap.mpr ⟨id, hid, hm⟩, ?_, hname⟩
    rw [Provider.document_of_mem_macrosOf hm]
    exact Provider.isSome_of_mem_macrosOf hm

/-- Macros name variables without the white space around their names, so a report knows names without it only. -/
theorem trimmed_of_knows {provider : Provider} {order : List String} {name : String}
    (h : (analyze provider order).knows name = true) : Text.Trimmed name.toList := by
  obtain ⟨id, -, m, hm, hname⟩ := knows_analyze_iff.mp h
  obtain ⟨t, hkind⟩ := Provider.kind_of_mem_macrosOf hm
  rw [Macro.varName?, hkind] at hname
  exact Kind.trimmed_of_varName?_classify hname

/-- No macro names the empty name, so no report knows it. -/
theorem ne_empty_of_knows {provider : Provider} {order : List String} {name : String}
    (h : (analyze provider order).knows name = true) : name ≠ "" := by
  rintro rfl
  exact (trimmed_of_knows h).ne_nil rfl

/-- The names that a report lists are those that it knows. -/
theorem mem_variableNames_iff_knows {name : String} (r : Report) : name ∈ r.variableNames ↔ r.knows name = true := by
  rw [Report.variableNames, Std.ExtTreeMap.mem_keys, Report.knows, Std.ExtTreeMap.contains_iff_mem]

/-- Reports with the same names know the same names. -/
theorem Report.knows_eq_of_variableNames_eq {r r' : Report} (h : r'.variableNames = r.variableNames) (name : String) :
    r'.knows name = r.knows name := by
  rw [Bool.eq_iff_iff, ← mem_variableNames_iff_knows, ← mem_variableNames_iff_knows, h]

/-! ## The names of which something holds -/

/-- A name is among those of which the predicate holds exactly when it stands for a variable with the property. -/
theorem mem_namesWhere_iff {usage : Std.ExtTreeMap String Variable} {p : Variable → Bool} {name : String} :
    name ∈ Report.namesWhere usage p ↔ ∃ v, usage[name]? = some v ∧ p v = true := by
  simp [Report.namesWhere, Std.ExtTreeMap.mem_toList_iff_getElem?_eq_some]

/-- The names of which the predicate holds are strictly increasing. -/
theorem pairwise_namesWhere (usage : Std.ExtTreeMap String Variable) (p : Variable → Bool) :
    (Report.namesWhere usage p).Pairwise (· < ·) := by
  unfold Report.namesWhere
  rw [List.pairwise_map]
  refine (Std.ExtTreeMap.ordered_keys_toList.sublist List.filter_sublist).imp ?_
  intro a b h
  exact compareOfLessAndEq_eq_lt.mp h

/-- The names of a report are strictly increasing. -/
theorem Report.pairwise_variableNames (r : Report) : r.variableNames.Pairwise (· < ·) := by
  refine Std.ExtTreeMap.ordered_keys.imp ?_
  intro a b h
  exact compareOfLessAndEq_eq_lt.mp h

/-- Two strictly increasing lists with the same members are the same. -/
theorem eq_of_pairwise_lt {xs ys : List String} (hxs : xs.Pairwise (· < ·)) (hys : ys.Pairwise (· < ·))
    (h : ∀ x, x ∈ xs ↔ x ∈ ys) : xs = ys := by
  have hperm : xs.Perm ys :=
    (List.perm_ext_iff_of_nodup (hxs.imp String.ne_of_lt) (hys.imp String.ne_of_lt)).mpr h
  exact hperm.eq_of_pairwise (fun _ _ _ _ hab hba => absurd hba (String.lt_asymm hab)) hxs hys

end PromptMacros
