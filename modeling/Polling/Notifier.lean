import Polling.Act

/-!
# Hooks

A caller may install hooks that are told how a wait goes. `Notifier` calls the ones that are there,
tells each the attempt limit, and reads the clock for the hooks that report the end of a wait, but
only if they are installed.
-/

namespace Polling

/-- The caller's hooks; each may be absent. -/
structure Hooks (σ : Type) where
  onAttempt : Option (AttemptInfo → Code σ Unit) := none
  onRetry : Option (RetryInfo → Code σ Unit) := none
  onSuccess : Option (SuccessInfo → Code σ Unit) := none
  onFailure : Option (FailureInfo → Code σ Unit) := none

/-- Hooks with what they are told in every call. -/
structure Notifier (σ : Type) where
  hooks : Hooks σ
  limit : Value
  clock : σ → Value

namespace Notifier

/-- The time since the beginning of a wait. -/
def elapsed (n : Notifier σ) (started : Value) : Act σ Value := do
  let now ← Act.read n.clock
  Act.lift (now.sub started)

/-- Tell that a poll is about to run. -/
def attempt (n : Notifier σ) (attempt : Value) : Act σ Unit :=
  match n.hooks.onAttempt with
  | none => pure ()
  | some hook =>
    let info : AttemptInfo := ⟨attempt, n.limit⟩
    Act.call (.notice (.attempt info)) (hook info)

/-- Tell that the wait goes on after a delay. -/
def retry (n : Notifier σ) (attempt delay value : Value) (fault : Option Fault) : Act σ Unit :=
  match n.hooks.onRetry with
  | none => pure ()
  | some hook =>
    let info : RetryInfo := ⟨attempt, n.limit, delay, value, fault⟩
    Act.call (.notice (.retry info)) (hook info)

/-- Tell that the wait has succeeded. -/
def success (n : Notifier σ) (attempt : Value) (response : Response) (started : Value) :
    Act σ Unit :=
  match n.hooks.onSuccess with
  | none => pure ()
  | some hook => do
    let info : SuccessInfo := ⟨attempt, n.limit, response, ← n.elapsed started⟩
    Act.call (.notice (.success info)) (hook info)

/-- Tell that the wait has failed. -/
def failure (n : Notifier σ) (attempt : Value) (fault : Option Fault) (started : Value) :
    Act σ Unit :=
  match n.hooks.onFailure with
  | none => pure ()
  | some hook => do
    let info : FailureInfo := ⟨attempt, n.limit, fault, ← n.elapsed started⟩
    Act.call (.notice (.failure info)) (hook info)

end Notifier

end Polling
