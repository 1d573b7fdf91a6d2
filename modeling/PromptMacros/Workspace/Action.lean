import PromptMacros.Workspace.Rename

/-!
# Actions

Everything an editor can do to a workspace, as data, and what it answers. What a workspace can become is what actions in
turn make of it (`Workspace.performAll`).
-/

namespace PromptMacros

/-- Something an editor does to a workspace. The ids of new documents and the times of edits are given with it. -/
inductive Action
  | setOrder (order : List String)
  | moveToTop (id : String)
  | moveToBottom (id : String)
  | addToOrder (id : String)
  | hide (id : String)
  | insert (doc : Document)
  | create (fresh : String)
  | duplicate (id fresh : String)
  | remove (id : String)
  | removeMany (ids : List String)
  | toggle (id : String)
  | setEnabled (id : String) (enabled : Bool)
  | setName (id name : String)
  | setRole (id role : String)
  | edit (id content : String) (now : Nat)
  | poll (now : Nat)
  | flush
  | settle
  | analyze
  | rename (old new : String)
  | selectDocument (id : String)
  | selectVariable (name : String)
  | clearSelection
  deriving DecidableEq, Repr

/-- What an action answers. -/
inductive Answer
  /-- The action has nothing to say. -/
  | done
  /-- Whether the action did something, or what a flag is now. -/
  | flag (b : Bool)
  /-- The id of a new document. -/
  | id (id : String)
  /-- The ids of the documents removed. -/
  | ids (ids : List String)
  /-- The document removed, if there was one. -/
  | document (doc : Option Document)
  /-- What a renaming did. -/
  | renamed (result : Renaming)
  /-- The action was refused. -/
  | refused (error : Error)
  deriving DecidableEq, Repr

namespace Answer

/-- The answer of an operation that is never refused. -/
def of {α : Type} (f : α → Answer) (result : α × Workspace) : Answer × Workspace :=
  (f result.1, result.2)

/-- The answer of an operation that may be refused. -/
def ofResult {α : Type} (f : α → Answer) (result : Except Error α × Workspace) : Answer × Workspace :=
  match result.1 with
  | .ok a => (f a, result.2)
  | .error e => (refused e, result.2)

end Answer

namespace Workspace

/-- Performs an action: its answer, and the workspace after it. -/
def perform (w : Workspace) : Action → Answer × Workspace
  | .setOrder order => (.done, w.setOrder order)
  | .moveToTop id => Answer.of .flag (w.moveToTop id)
  | .moveToBottom id => Answer.of .flag (w.moveToBottom id)
  | .addToOrder id => Answer.ofResult .flag (w.addToOrder id)
  | .hide id => Answer.of .flag (w.hide id)
  | .insert doc => (.done, w.insert doc)
  | .create fresh => (.id fresh, w.create fresh)
  | .duplicate id fresh => Answer.ofResult .id (w.duplicate id fresh)
  | .remove id => Answer.of .document (w.remove id)
  | .removeMany ids => Answer.of .ids (w.removeMany ids)
  | .toggle id => Answer.ofResult .flag (w.toggle id)
  | .setEnabled id enabled => Answer.ofResult (fun _ => .done) (w.setEnabled id enabled)
  | .setName id name => Answer.ofResult (fun _ => .done) (w.setName id name)
  | .setRole id role => Answer.ofResult (fun _ => .done) (w.setRole id role)
  | .edit id content now => Answer.ofResult (fun _ => .done) (w.edit id content now)
  | .poll now => Answer.of .flag (w.poll now)
  | .flush => Answer.of .flag w.flush
  | .settle => Answer.of .flag w.settle
  | .analyze => (.done, w.analyzed)
  | .rename old new => Answer.ofResult .renamed (w.rename old new)
  | .selectDocument id => (.done, w.selectDocument id)
  | .selectVariable name => (.done, w.selectVariable name)
  | .clearSelection => (.done, w.clearSelection)

/-- Performs actions in turn: their answers, and the workspace after them. -/
def performAll (w : Workspace) : List Action → List Answer × Workspace
  | [] => ([], w)
  | action :: actions =>
    let (answer, w) := w.perform action
    let (answers, w) := w.performAll actions
    (answer :: answers, w)

end Workspace

end PromptMacros
