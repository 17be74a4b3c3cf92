import Polling.Notifier
import Polling.Scenario.Bench

/-!
# Hooks for trying out waits

Each hook marks that it was called and then does the deeds that are set for it, in order. A fault
raised by a deed ends the hook.
-/

namespace Polling.Scenario

/-- The four hooks. -/
inductive HookName where
  | attempt
  | retry
  | success
  | failure
deriving DecidableEq, Repr

/-- What a hook does besides being called. -/
inductive Deed where
  | raises (e : Fault)
  /-- Set the signal of a blocking wait. -/
  | setsSignal
  /-- Cancel the promise of the execution, if the caller holds it already. -/
  | cancels
deriving Repr

/-- A deed for one hook, at one attempt or at all. -/
structure Action where
  hook : HookName
  attempt : Option Value := none
  deed : Deed
deriving Repr

namespace Action

/-- Is the action meant for a call of a hook? -/
def isFor (a : Action) (hook : HookName) (attempt : Value) : Bool :=
  a.hook == hook && (match a.attempt with
    | none => true
    | some n => n.equals attempt)

/-- Do a deed. -/
def perform (a : Action) : Code Bench Unit :=
  match a.deed with
  | .raises e => Bench.raise e
  | .setsSignal => Code.change fun b => { b with signalSet := true }
  | .cancels => do
    let run ← Bench.serving
    if (← Code.read (·.held)).contains run then Code.ask (.cancel run) else pure ()

end Action

/-- The code of a hook. -/
def hookCode (actions : List Action) (hook : HookName) (attempt : Value) (n : Notice) :
    Code Bench Unit := do
  Bench.mark (.notice n)
  (actions.filter (·.isFor hook attempt)).forM Action.perform

/-- Hooks that do the given deeds; only the named ones are installed. -/
def hooks (installed : List HookName) (actions : List Action) : Hooks Bench where
  onAttempt := wanted .attempt fun info => hookCode actions .attempt info.attempt (.attempt info)
  onRetry := wanted .retry fun info => hookCode actions .retry info.attempt (.retry info)
  onSuccess := wanted .success fun info => hookCode actions .success info.attempt (.success info)
  onFailure := wanted .failure fun info => hookCode actions .failure info.attempt (.failure info)
where
  /-- A hook, if it is installed. -/
  wanted {α : Type} (name : HookName) (hook : α) : Option α :=
    if installed.contains name then some hook else none

/-- The names of the hooks that are installed. -/
def installedHooks (h : Hooks σ) : List HookName :=
  [(HookName.attempt, h.onAttempt.isSome), (.retry, h.onRetry.isSome),
   (.success, h.onSuccess.isSome), (.failure, h.onFailure.isSome)].filterMap
    fun (name, there) => if there then some name else none

end Polling.Scenario
