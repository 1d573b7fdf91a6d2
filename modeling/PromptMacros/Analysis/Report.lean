import PromptMacros.Analysis.Simulation

/-!
# The report of an analysis

What an analysis says about an order of documents: their macros, where each variable is used and whether it is resolved,
what each macro that reads a variable sees, and the values at the end. A report depends on nothing but the provider and
the order. How many variables are unreferenced is counted apart from listing them, and comes to the same (`Report.counts_eq`).
-/

namespace PromptMacros

/-- How many variables are read but not set, and how many are set but not read. -/
structure VariableCounts where
  unresolved : Nat
  unreferenced : Nat
  deriving DecidableEq, Repr

/-- The report of an analysis. -/
structure Report where
  /-- The macros of each document of the order. -/
  macros : ParsedMacros := ∅
  /-- Where each variable is used. -/
  usage : Std.ExtTreeMap String Variable := ∅
  /-- The variables that are read but nowhere set, sorted. -/
  unresolved : List String := []
  /-- The value seen by each macro that reads a variable. -/
  snapshots : Std.ExtTreeMap MacroId (Option String) := ∅
  /-- The value of each variable at the end. -/
  finalState : Std.ExtTreeMap String (Option String) := ∅

namespace Report

/-- The names of the variables of which the predicate holds, sorted. -/
def namesWhere (usage : Std.ExtTreeMap String Variable) (p : Variable → Bool) : List String :=
  (usage.toList.filter fun entry => p entry.2).map (·.1)

/-- The report on parsed macros and what running them brought about. -/
def ofSimulation (parsed : ParsedMacros) (s : Simulation) : Report where
  macros := parsed
  usage := s.usage
  unresolved := namesWhere s.usage Variable.isUnresolved
  snapshots := s.snapshots
  finalState := s.state

/-- Where a variable is used. -/
def variableNamed? (r : Report) (name : String) : Option Variable :=
  r.usage[name]?

/-- Whether a variable is used. -/
def knows (r : Report) (name : String) : Bool :=
  r.usage.contains name

/-- The names of all variables, sorted. -/
def variableNames (r : Report) : List String :=
  r.usage.keys

/-- Whether a variable is read but nowhere set. -/
def isUnresolved (r : Report) (name : String) : Bool :=
  r.unresolved.contains name

/-- The variables that are set but nowhere read, sorted. -/
def unreferenced (r : Report) : List String :=
  namesWhere r.usage Variable.isUnreferenced

/-- How many variables are unresolved, by the names listed, and how many unreferenced, by the records. -/
def counts (r : Report) : VariableCounts where
  unresolved := r.unresolved.length
  unreferenced := ((r.usage.toList.map (·.2)).filter Variable.isUnreferenced).length

/-- The unreferenced variables counted are those that are listed. -/
theorem counts_eq (r : Report) : r.counts = ⟨r.unresolved.length, r.unreferenced.length⟩ := by
  rw [counts, unreferenced, namesWhere, List.filter_map, List.length_map, List.length_map]
  rfl

/-- The value seen by a macro that reads a variable; nothing when there was none, or no such macro. -/
def snapshot? (r : Report) (id : MacroId) : Option String :=
  r.snapshots[id]?.join

/-- Whether a macro that reads a variable has this identity. -/
def hasSnapshot (r : Report) (id : MacroId) : Bool :=
  r.snapshots.contains id

/-- The macros of a document. -/
def macrosOf (r : Report) (document : String) : List Macro :=
  r.macros.getD document []

end Report

/-- Parses the documents of an order and runs their macros. -/
def analyze (provider : Provider) (order : List String) : Report :=
  let parsed := ParsedMacros.ofOrder provider order
  Report.ofSimulation parsed (simulate provider (flow order parsed))

end PromptMacros
