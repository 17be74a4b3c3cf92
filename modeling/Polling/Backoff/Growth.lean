import Polling.Value.Order

/-!
# Growth of delays

A growth says by what factor the base delay is multiplied after the `n`-th attempt, for `n` at least
one. A caller may bring growths of its own.

The Fibonacci numbers are computed by walking up a pair of neighbours.
-/

namespace Polling

/-- The pair of neighbouring Fibonacci numbers that lies `steps` above the given pair. -/
def fibonacciWalk : Nat → Int × Int → Int × Int
  | 0, pair => pair
  | steps + 1, (previous, current) => fibonacciWalk steps (current, previous + current)

/-- The `n`-th Fibonacci number, the first and the second being one; zero up to index zero. -/
def fibonacci (n : Int) : Int :=
  let (_, current) := fibonacciWalk (n.toNat - 1) (0, 1)
  if 0 < n then current else 0

/-- A law of growth, with the name of the strategy that it makes. -/
structure Growth where
  name : String
  factor : Number → Except Misuse Number

namespace Growth

/-- Delays in proportion to the attempts made. -/
def linear : Growth := ⟨"LinearBackoff", pure⟩

/-- Two to the power of a number less one, for a number that is at least one. -/
def doublings : Number → Except Misuse Number
  | .flag _ => .ok (.int 1)
  | .int n => .ok (.int (Int.pow 2 (n - 1).toNat))
  | .real x =>
    match Binary64.two.power? (x.sub Binary64.one) with
    | some y => .ok (.real y)
    | none => .error .powerTooLarge

/-- Delays that double after every attempt. -/
def exponential : Growth := ⟨"ExponentialBackoff", doublings⟩

/-- The Fibonacci number at an index; a double is no index. -/
def fibonacciAt (n : Number) : Except Misuse Number :=
  match n with
  | .flag b => .ok (.int (Polling.fibonacci (if b then 1 else 0)))
  | .int n => .ok (.int (Polling.fibonacci n))
  | .real _ => .error (.notCountable "float")

/-- The Fibonacci number for a value, zero for numbers below zero. -/
def fibonacciOf (v : Value) : Except Misuse Number := do
  fibonacciAt (← v.atLeast 0)

/-- Delays that grow along the Fibonacci numbers. -/
def fibonacci : Growth := ⟨"FibonacciBackoff", fibonacciAt⟩

/-- The square of a number. -/
def square : Number → Except Misuse Number
  | .flag b => .ok (.int (if b then 1 else 0))
  | .int n => .ok (.int (n * n))
  | .real x =>
    match x.power? Binary64.two with
    | some y => .ok (.real y)
    | none => .error .powerTooLarge

end Growth

end Polling
