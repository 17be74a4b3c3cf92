import Polling.Fault.Misuse

/-!
# Whole numbers from values

A flag or an integer is a whole number, a double loses what is behind the point, and a text is read.
Nothing else can be made a whole number. As with reading, a whole number is written only up to a
number of digits.
-/

namespace Polling

/-- The whole number that a double has before its point. -/
def Binary64.toWhole (x : Binary64) : Except Misuse Int :=
  match x.truncate? with
  | some n => .ok n
  | none => .error (if x = .nan then .noWholePart else .endlessWholePart)

/-- The whole number of a number. -/
def Number.toWhole : Number → Except Misuse Int
  | .flag b => .ok (if b then 1 else 0)
  | .int n => .ok n
  | .real x => x.toWhole

/-- The whole number of a value. -/
def Value.toWhole : Value → Except Misuse Int
  | .number n => n.toWhole
  | .string s => (Text.readWhole s).mapError fun
    | .malformed => .notANumeral s
    | .tooLong digits => .tooManyDigits (some digits)
  | v => .error (.notNumeric v.typeName)

/-- A value that can be written: an integer with too many digits is refused. -/
def Value.writable : Value → Except Misuse Value
  | .int n =>
    if n.natAbs < Nat.pow 10 Text.digitLimit then .ok (.int n) else .error (.tooManyDigits none)
  | v => .ok v

end Polling
