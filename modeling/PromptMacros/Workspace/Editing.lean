import PromptMacros.Workspace.Documents

/-!
# Editing texts

The text of a document changes at once, but the analysis of the change waits for the debounce: it runs when it is polled at
the deadline or later, or when it is flushed. With nothing waiting, neither does anything (`poll_eq_of_deadline_eq_none`,
`flush_eq_of_deadline_eq_none`).
-/

namespace PromptMacros.Workspace

/-- Gives a document another text at this time; the analysis waits for the debounce. -/
def edit (id content : String) (now : Nat) (w : Workspace) : Except Error Unit × Workspace :=
  w.withDocument id fun _ =>
    ((), { w with
      documents := w.documents.modify id fun d => { d with content := content }
      debounce := w.debounce.schedule now })

/-- Runs the analysis for which edits wait, if its deadline has come; whether it ran. -/
def poll (now : Nat) (w : Workspace) : Bool × Workspace :=
  let (fired, debounce) := w.debounce.fire now
  if fired then (true, analyzed { w with debounce := debounce }) else (false, w)

/-- Runs the analysis for which edits wait, if any do; whether it ran. -/
def flush (w : Workspace) : Bool × Workspace :=
  let (taken, debounce) := w.debounce.take
  if taken then (true, analyzed { w with debounce := debounce }) else (false, w)

/-- Waits for the deadline of the edits, if any wait, and runs the analysis; whether it ran. -/
def settle (w : Workspace) : Bool × Workspace :=
  match w.debounce.deadline with
  | none => (false, w)
  | some deadline => w.poll deadline

/-- With no deadline a poll does nothing. -/
theorem poll_eq_of_deadline_eq_none {w : Workspace} (h : w.debounce.deadline = none) (now : Nat) :
    w.poll now = (false, w) := by
  simp [poll, Debounce.fire, h]

/-- With no deadline a flush does nothing. -/
theorem flush_eq_of_deadline_eq_none {w : Workspace} (h : w.debounce.deadline = none) : w.flush = (false, w) := by
  simp [flush, Debounce.take, Debounce.isPending, h]

/-- Waiting for the deadline does what a flush does. -/
theorem settle_eq_flush (w : Workspace) : w.settle = w.flush := by
  cases h : w.debounce.deadline with
  | none => simp [settle, h, flush_eq_of_deadline_eq_none h]
  | some t => simp [settle, h, poll, Debounce.fire, flush, Debounce.take, Debounce.isPending]

end PromptMacros.Workspace
