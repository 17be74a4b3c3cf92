import Polling.Act
import Polling.Backoff.Growth

/-!
# Backoff

A backoff says how long to wait after the `n`-th attempt. The built-in ones wait a constant delay or
a base delay multiplied by a growth and cut off at an optional cap; a caller may bring its own, or,
by mistake, something that is no backoff at all, which shows when it is first asked.

Parameters are checked when a backoff is made. The checks reject numbers below zero, so a delay that
is not a number passes them.
-/

namespace Polling

/-- The same delay after every attempt. -/
structure Constant where
  delay : Number
  delay_ok : delay.lt (.int 0) = false

namespace Constant

/-- A constant delay, refused below zero. -/
def make (delay : Value) : Except Misuse Constant :=
  match delay with
  | .number d =>
    match h : d.lt (.int 0) with
    | true => .error (.negativeDelay d)
    | false => .ok ⟨d, h⟩
  | other => .error (.unordered "<" other.typeName "int")

end Constant

/-- A base delay multiplied by a growth, with an optional cap. -/
structure Capped where
  growth : Growth
  base : Number
  cap : Option Number
  base_ok : base.lt (.int 0) = false
  cap_ok : ∀ c, cap = some c → c.le (.int 0) = false

namespace Capped

/-- A capped delay: the base is refused below zero, the cap unless above zero. -/
def make (growth : Growth) (base cap : Value) : Except Misuse Capped :=
  match base with
  | .number b =>
    match hb : b.lt (.int 0) with
    | true => .error (.negativeBase b)
    | false =>
      match cap with
      | .null => .ok ⟨growth, b, none, hb, by simp⟩
      | .number c =>
        match hc : c.le (.int 0) with
        | true => .error (.capNotPositive c)
        | false => .ok ⟨growth, b, some c, hb, by simp [hc]⟩
      | other => .error (.unordered "<=" other.typeName "int")
  | other => .error (.unordered "<" other.typeName "int")

/-- A delay cut off at a cap, if there is one. -/
def cutOff (cap : Option Number) (d : Number) : Number :=
  match cap with
  | none => d
  | some c => d.min c

/-- The delay after an attempt: the base times the growth, cut off at the cap. Attempts below the
first count as the first. -/
def delay (c : Capped) (attempt : Value) : Except Misuse Number := do
  let n ← attempt.atLeast 1
  let factor ← c.growth.factor n
  match c.base.mul? factor with
  | some d => return cutOff c.cap d
  | none => .error .integerTooLarge

/-- The form of a capped delay inside other text. -/
def shown (c : Capped) : String :=
  c.growth.name ++ "(base_delay=" ++ c.base.text ++ ", max_delay=" ++
    ((c.cap.map Number.text).getD "None") ++ ")"

end Capped

/-- How long to wait between attempts. -/
inductive Backoff (σ : Type) where
  | constant (c : Constant)
  | capped (c : Capped)
  /-- The caller's own, with the text that shows it. -/
  | custom (text : String) (calculate : Value → Code σ Value)
  /-- Something that is no backoff. -/
  | foreign (v : Value)

namespace Backoff

/-- The delay after an attempt. -/
def calculate : Backoff σ → Value → Code σ Value
  | .constant c, _ => pure (.number c.delay)
  | .capped c, attempt => Code.lift (return .number (← c.delay attempt))
  | .custom _ f, attempt => f attempt
  | .foreign v, _ => Code.lift (.error (.noCalculate v.typeName))

/-- The form of a backoff inside other text. -/
def shown : Backoff σ → String
  | .constant c => "ConstantBackoff(delay=" ++ c.delay.text ++ ")"
  | .capped c => c.shown
  | .custom text _ => text
  | .foreign v => v.shown

/-- Ask for the delay after an attempt and refuse one below zero. -/
def nextDelay (b : Backoff σ) (attempt : Value) : Act σ Number := do
  let delay ← Act.call (.asked attempt) (b.calculate attempt)
  Act.lift (delay.nonNegative .negativeBackoff)

end Backoff

end Polling
