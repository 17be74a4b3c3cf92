import Polling.Acceptor.Basic
import Polling.Strategy

/-!
# From an outcome to the next step

`evaluate` turns the outcome of an attempt into what the wait does next: end with a response, end
with a failure, or wait a delay and poll again. A value that no acceptor matches counts as not ready
yet; a fault that no acceptor matches ends the wait. The backoff is asked only when another attempt
is left.

Blocking and asynchronous waits share this function and differ in how they carry out its answer.
-/

namespace Polling

/-- What a wait does after an attempt. -/
inductive Transition where
  | succeed (response : Response)
  | fail (failure : Failure)
  | retry (delay : Number)
deriving Repr

/-- Poll again if an attempt is left. -/
def retryOrExhaust (strategy : Strategy σ) (o : Outcome) (attempt : Value) :
    Act σ Transition := do
  if ← Act.lift (attempt.ge (.int strategy.limit)) then
    Act.note (.exhausted strategy.limit)
    return .fail (.after o attempt (.exhausted strategy.limit))
  else
    let delay ← strategy.backoff.nextDelay attempt
    match delay.twoPlaces? with
    | none => Act.fail Misuse.integerTooLarge.fault
    | some shown =>
      Act.note (.retrying attempt strategy.limit shown)
      return .retry delay

/-- The transition after an attempt with an outcome. -/
def evaluate (acceptors : List (Acceptor σ)) (strategy : Strategy σ) (o : Outcome)
    (attempt : Value) : Act σ Transition := do
  match ← decide acceptors o, o with
  | some .success, _ => return .succeed (← Act.lift (Response.ofOutcome o attempt))
  | some .failure, _ => return .fail (.after o attempt .rejected)
  | some .retry, _ => retryOrExhaust strategy o attempt
  | none, .raised e => return .fail (.after o attempt (.unmatched e))
  | none, .returned _ => retryOrExhaust strategy o attempt

/-! ## The flat form -/

/-- A transition as three parts of which any may be absent. -/
structure FlatTransition where
  response : Option Response := none
  failure : Option Fault := none
  delay : Option Value := none
deriving Repr

namespace FlatTransition

/-- A wait ends unless there is a delay. -/
def isTerminal (t : FlatTransition) : Bool := t.delay.isNone

/-- Flat transitions are equal if their parts are; only delays and responses can be. -/
def equals (a b : FlatTransition) : Bool :=
  both Response.equals a.response b.response && both (fun _ _ => false) a.failure b.failure &&
    both Value.equals a.delay b.delay
where
  /-- Both absent, or both there and equal. -/
  both {α : Type} (same : α → α → Bool) : Option α → Option α → Bool
    | none, none => true
    | some x, some y => same x y
    | _, _ => false

/-- The form of a flat transition inside other text. -/
def shown (t : FlatTransition) : String :=
  "Transition(response=" ++ ((t.response.map Response.shown).getD "None") ++ ", error=" ++
    ((t.failure.map Fault.shown).getD "None") ++ ", delay=" ++
    ((t.delay.map Value.shown).getD "None") ++ ")"

end FlatTransition

/-- The flat form of a transition has exactly one part. -/
def Transition.flat : Transition → FlatTransition
  | .succeed r => { response := some r }
  | .fail f => { failure := some f.fault }
  | .retry d => { delay := some (.number d) }

end Polling
