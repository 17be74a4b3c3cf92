import Polling.Outcome
import Polling.Value.Order

/-!
# How a wait ends

A wait ends with a `Response`, which holds the outcome that was accepted and the number of attempts
made, or with a `Failure`, which names its reason. `Conclusion` is either.
-/

namespace Polling

/-- The accepted outcome and the attempts it took, a number that is not below one. -/
structure Response where
  outcome : Outcome
  attempts : Number
deriving Repr, Inhabited

namespace Response

/-- The response to an accepted outcome. -/
def ofOutcome (o : Outcome) (attempts : Value) : Except Misuse Response := do
  let (n, one) ← attempts.ordered "<" (.int 1)
  if n.lt one then .error (.tooFewAttempts n) else .ok ⟨o, n⟩

/-- A positive number of attempts is never refused. -/
@[simp] theorem ofOutcome_int (o : Outcome) {n : Int} (h : 1 ≤ n) :
    ofOutcome o (.int n) = .ok ⟨o, .int n⟩ := by
  have not_below : ¬ n < 1 := by omega
  simp [ofOutcome, Value.ordered, bind, Except.bind, not_below]

/-- A response from its parts. -/
def make (value : Value) (fault : Option Fault) (attempts : Value) : Except Misuse Response :=
  match Outcome.make value fault with
  | .ok o => ofOutcome o attempts
  | .error _ => .error .responseHasBoth

/-- Was the wait ended by an accepted fault? -/
def hasFault (r : Response) : Bool := r.outcome.isFailure

/-- Responses are equal if their outcomes and their numbers of attempts are. -/
def equals (a b : Response) : Bool := a.outcome.equals b.outcome && a.attempts.same b.attempts

/-- The form of a response inside other text. -/
def shown (r : Response) : String :=
  "WaiterResponse(" ++ r.outcome.shownParts ++ ", attempts_executed=" ++ r.attempts.text ++ ")"

end Response

/-- Why a wait ends without success. -/
inductive Reason where
  /-- An acceptor matched and named failure. -/
  | rejected
  /-- The poll raised a fault that no acceptor matched. -/
  | unmatched (fault : Fault)
  /-- The attempt limit was reached. -/
  | exhausted (limit : Nat)
  /-- The wait between two attempts was cut short. -/
  | interrupted (attempt : Nat)
deriving Repr

/-- A wait that ended without success: why, after how many attempts, and the fault behind it. -/
structure Failure where
  reason : Reason
  attempts : Value
  cause : Option Fault
deriving Repr

namespace Reason

/-- The kind of fault that reports a reason. -/
def kind : Reason → FaultKind
  | .rejected => .acceptorFailure
  | .unmatched _ => .unmatchedFailure
  | .exhausted _ => .retriesExhausted
  | .interrupted _ => .interrupted

/-- The attempt limit, where a reason is about it. -/
def limit? : Reason → Option Nat
  | .exhausted limit => some limit
  | _ => none

/-- The wording of a reason. -/
def message : Reason → String
  | .rejected => "A waiter acceptor was matched and transitioned the waiter to failure state"
  | .unmatched e => "An exception was thrown and did not match any waiter acceptor: " ++ e.shown
  | .exhausted limit => s!"Waiter has exceeded max retry attempts: {limit}"
  | .interrupted attempt => s!"The waiter was interrupted after {attempt} attempts"

end Reason

namespace Failure

/-- A failure after an outcome, whose fault is behind it. -/
def after (o : Outcome) (attempts : Value) (reason : Reason) : Failure :=
  ⟨reason, attempts, o.fault?⟩

/-- The fault that reports a failure. -/
def fault (f : Failure) : Fault :=
  .waiting f.reason.kind (.string f.reason.message) f.attempts (f.reason.limit?.map (.int ·)) f.cause

end Failure

/-- How a wait ends. -/
inductive Conclusion where
  | success (response : Response)
  | failure (failure : Failure)
deriving Repr

end Polling
