import Polling.Act
import Polling.Value.Order

/-!
# Schedulers

A scheduler calls an execution back after a delay. The built-in one uses the timers of an event loop,
either of one given to it or of the one that is running; a caller may bring its own.
-/

namespace Polling

/-- Calls executions back after a delay. -/
inductive Scheduler (σ : Type) where
  /-- The timers of an event loop. Was the loop given, or is the running one meant? -/
  | timers (given : Bool)
  /-- The caller's own: how to schedule a call to an execution, and how to cancel one. -/
  | custom (schedule : RunId → Number → Code σ HandleId) (cancel : HandleId → Code σ Unit)

namespace Scheduler

/-- A delay as the timers of a loop take it, if there is one: below zero it is refused, and it has to
fit into a double. -/
def span (loopThere : Bool) (delay : Value) : Act σ Binary64 := do
  let d ← Act.lift (delay.nonNegative .negativeDelay)
  if !loopThere then Act.fail Misuse.noRunningLoop.fault
  else
    match d.toReal? with
    | none => Act.fail Misuse.integerTooLarge.fault
    | some x =>
      Act.note (.scheduling (Number.layout.fixed 2 x))
      return x

/-- Cancel what a scheduler of the caller's has scheduled, by its number. The timers of a loop have no
numbers. -/
def cancel : Scheduler σ → HandleId → Code σ Unit
  | .timers _, _ => pure ()
  | .custom _ cancel, id => cancel id

/-- What holds of doing nothing, and of the code with which a scheduler of the caller's cancels, holds of
cancelling. -/
theorem cancel_cases {P : Code σ Unit → Prop} {s : Scheduler σ} {id : HandleId} (nothing : P (pure ()))
    (own : ∀ schedule cancel, s = .custom schedule cancel → P (cancel id)) : P (s.cancel id) := by
  cases s with
  | timers given => exact nothing
  | custom schedule cancel => exact own schedule cancel rfl

/-- The form of a scheduler inside other text. -/
def shown : Scheduler σ → String
  | .timers given => "EventLoopScheduler(loop=" ++ (if given then "<loop>" else "None") ++ ")"
  | .custom _ _ => "<scheduler>"

end Scheduler

end Polling
