import Polling.Waiter

/-!
# Blocking waits

A blocking wait polls, evaluates the outcome, and sleeps before the next attempt, until a transition
ends it. Ordinary faults of the operation are outcomes; any other fault, and any fault of the other
code it calls, leaves the wait as it is.

A signal, if one is given, is looked at only where the wait would sleep: it cuts that sleep short and
fails the wait.

The attempts are counted down from the limit, which is what makes the definition terminate. The
evaluation of the last attempt never asks for another one.
-/

namespace Polling

/-- Something that can interrupt a wait while it sleeps. -/
structure Signal (σ : Type) where
  isSet : σ → Bool
  /-- Sleep for a delay or until the signal is set; is it set? -/
  wait : Number → Code σ Bool

/-- All that a blocking wait depends on. -/
structure Blocking (σ : Type) where
  waiter : Waiter σ
  clock : σ → Binary64
  sleep : Number → Code σ Unit
  signal : Option (Signal σ) := none
  /-- The operation, told which of its calls this is, from one on. -/
  operation : Nat → Code σ Value

namespace Blocking

/-- The hooks of the waiter on the clock of the wait. -/
def notifier (b : Blocking σ) : Notifier σ := b.waiter.notifier fun s => .real (b.clock s)

/-- Run the operation for an attempt; every attempt before it has called the operation once. Ordinary
faults become outcomes. -/
def poll (b : Blocking σ) (attempt : Nat) : Act σ Outcome := do
  match ← Act.outcomeOf (Act.call (.polled attempt) (b.operation attempt)) with
  | .ok v => return .returned v
  | .error e => if e.isOrdinary then return .raised e else Act.fail e

/-- Report a failure to the log and the hooks. -/
def giveUp (b : Blocking σ) (started : Value) (attempt : Nat) (f : Failure) :
    Act σ Conclusion := do
  Act.note (.failed attempt f.reason)
  b.notifier.failure (.int attempt) (some f.fault) started
  return .failure f

/-- Sleep for a delay. Was the sleep cut short? -/
def pause (b : Blocking σ) (delay : Number) : Act σ Bool :=
  match b.signal with
  | none => do
    Act.call (.slept delay) (b.sleep delay)
    return false
  | some signal => do
    if ← Act.read signal.isSet then return true
    else Act.call (.watched delay) (signal.wait delay)

/-- One attempt and, if the wait goes on, the sleep behind it. The conclusion, if there is one. -/
def round (b : Blocking σ) (started : Value) (attempt : Nat) : Act σ (Option Conclusion) := do
  b.notifier.attempt (.int attempt)
  Act.note (.executing attempt b.waiter.strategy.limit)
  let outcome ← b.poll attempt
  match ← evaluate b.waiter.acceptors b.waiter.strategy outcome (.int attempt) with
  | .succeed r =>
    b.notifier.success (.int attempt) r started
    return some (.success r)
  | .fail f => return some (← b.giveUp started attempt f)
  | .retry delay =>
    b.notifier.retry (.int attempt) (.number delay) outcome.value outcome.fault?
    if ← b.pause delay then
      return some (← b.giveUp started attempt ⟨.interrupted attempt, .int attempt, none⟩)
    else return none

/-- Attempts from a given one on, with so many left. With none left the limit is reached; evaluation
says so before this does. -/
def rounds (b : Blocking σ) (started : Value) : (left attempt : Nat) → Act σ Conclusion
  | 0, attempt => return .failure ⟨.exhausted b.waiter.strategy.limit, .int attempt, none⟩
  | left + 1, attempt => do
    match ← b.round started attempt with
    | some conclusion => return conclusion
    | none => b.rounds started left (attempt + 1)

/-- Wait until a transition ends the wait. -/
def run (b : Blocking σ) : Act σ Conclusion := do
  let started ← Act.read b.clock
  b.rounds (.real started) b.waiter.strategy.limit 1

end Blocking

end Polling
