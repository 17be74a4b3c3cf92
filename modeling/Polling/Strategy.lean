import Polling.Backoff.Basic

/-!
# Polling strategies

A strategy couples the number of attempts a wait may make with the backoff between them. The limit
is a whole number that is at least one.
-/

namespace Polling

/-- How many attempts to make and how long to wait between them. -/
structure Strategy (σ : Type) where
  limit : Nat
  backoff : Backoff σ
  limit_pos : 1 ≤ limit

namespace Strategy

/-- A strategy from its parts. That a part is missing is noticed before anything else. -/
def make (limit : Value) (backoff : Option (Backoff σ)) : Except Misuse (Strategy σ) :=
  match limit, backoff with
  | .null, _ => .error .limitMissing
  | _, none => .error .backoffMissing
  | .int n, some b =>
    if h : 1 ≤ n.toNat then .ok ⟨n.toNat, b, h⟩ else .error (.limitTooSmall n)
  | v, some _ => .error (.limitNotInteger v.typeName)

/-- The form of a strategy inside other text. -/
def shown (s : Strategy σ) : String :=
  s!"PollingStrategy(max_attempts={s.limit}, backoff_strategy={s.backoff.shown})"

end Strategy

end Polling
