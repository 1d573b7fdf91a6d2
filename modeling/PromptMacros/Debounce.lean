/-!
# Waiting for the last edit

A debounce lets something happen once, a while after the last of several edits. Each edit moves the deadline to the delay
after itself; what waits may happen at the deadline or later, and not again before another edit. Times are natural
numbers in any unit.
-/

namespace PromptMacros

/-- A delay, and the time at which what waits may happen, if something waits. -/
structure Debounce where
  delay : Nat
  deadline : Option Nat := none
  deriving DecidableEq, Repr, Inhabited

namespace Debounce

/-- Whether something waits. -/
def isPending (d : Debounce) : Bool :=
  d.deadline.isSome

/-- Moves the deadline to the delay after this time. -/
def schedule (d : Debounce) (now : Nat) : Debounce :=
  { d with deadline := some (now + d.delay) }

/-- Nothing waits any more. -/
def clear (d : Debounce) : Debounce :=
  { d with deadline := none }

/-- Whether what waits may happen at this time; if so, nothing waits any more. -/
def fire (d : Debounce) (now : Nat) : Bool × Debounce :=
  if d.deadline.any fun t => t ≤ now then (true, d.clear) else (false, d)

/-- Whether something waits; nothing waits any more. -/
def take (d : Debounce) : Bool × Debounce :=
  (d.isPending, d.clear)

end Debounce

end PromptMacros
