import PromptMacros.Analysis.Flow
import PromptMacros.Analysis.Variable

/-!
# Running the macros

One walk over a flow of macros keeps the value of each variable, takes a snapshot at each macro that reads one, and notes
where each variable is used. A macro sets its variable only when its document is enabled; a macro whose document is gone
does nothing. Running one flow and then another is running the two as one (`simulateFrom_append`).
-/

namespace PromptMacros

/-- What running a flow of macros has brought about. -/
structure Simulation where
  /-- The value seen by each macro that reads a variable, or `none` where the variable has none. -/
  snapshots : Std.ExtTreeMap MacroId (Option String) := ∅
  /-- The value of each variable set so far; a variable set without a value has none. -/
  state : Std.ExtTreeMap String (Option String) := ∅
  /-- Where each variable is used. -/
  usage : Std.ExtTreeMap String Variable := ∅

namespace Simulation

/-- The value of a variable, if it has been set to one. -/
def value? (s : Simulation) (name : String) : Option String :=
  s.state[name]?.join

/-- Changes where a variable is used. -/
def note (s : Simulation) (name : String) (f : Variable → Variable) : Simulation :=
  { s with usage := s.usage.insert name (f (s.usage.getD name {})) }

/-- Runs a macro that sets a variable in this document. -/
def set (s : Simulation) (doc : Document) (name : String) (value : Option String) : Simulation :=
  let noted := s.note name fun v => v.define ⟨doc.id, doc.enabled⟩
  if doc.enabled then { noted with state := s.state.insert name value } else noted

/-- Runs a macro that reads a variable in this document. -/
def get (s : Simulation) (doc : Document) (id : MacroId) (name : String) : Simulation :=
  let noted := if name = "" then s else s.note name fun v => v.reference ⟨doc.id, doc.enabled⟩
  { noted with snapshots := s.snapshots.insert id (s.value? name) }

/-- Runs a macro of a document. -/
def run (s : Simulation) (doc : Document) (m : Macro) : Simulation :=
  match m.kind with
  | .setVar (some name) value => s.set doc name value
  | .getVar name => s.get doc m.id name
  | .setVar none _ | .comment | .other _ _ => s

/-- Runs a macro if its document is there. -/
def step (provider : Provider) (s : Simulation) (m : Macro) : Simulation :=
  match provider m.id.document with
  | none => s
  | some doc => s.run doc m

end Simulation

/-- Runs a flow of macros after another. -/
def simulateFrom (provider : Provider) (s : Simulation) (macros : List Macro) : Simulation :=
  macros.foldl (Simulation.step provider) s

/-- Runs a flow of macros. -/
def simulate (provider : Provider) (macros : List Macro) : Simulation :=
  simulateFrom provider {} macros

/-- Running a flow and then another is running the two as one. -/
theorem simulateFrom_append (provider : Provider) (s : Simulation) (xs ys : List Macro) :
    simulateFrom provider s (xs ++ ys) = simulateFrom provider (simulateFrom provider s xs) ys :=
  List.foldl_append

end PromptMacros
