import Polling.Number.Logarithm
import Polling.Number.Exponential

/-!
# Powers of doubles

`base ^ exponent` is the exponential of `exponent * log base`. The logarithm and the product are
carried with a rest, so that the power is off by little more than half of its last bit. It is not
always the double nearest to the true power: `1.1439 ^ 2` lies one last bit below the rounded
product.
-/

namespace Polling

namespace Binary64

/-- The power of a finite base, given as units that make at least one, to a finite exponent. -/
def powerOfUnits? (units : Nat) (exponent : Binary64) : Option Binary64 :=
  let (log, rest) := Logarithm.ofUnits units
  let product := exponent.mul log
  match product with
  | .finite _ n =>
    Exponential.ofUnits? n (exponent.mulAdd rest (exponent.mulAdd log product.neg))
  | _ => none

/-- The power of a base that is at least one to an exponent that is not negative; `none` where
finite numbers have a power past the finite range. -/
def power? (base exponent : Binary64) : Option Binary64 :=
  if exponent.isZero || base = .one then some .one
  else
    match base, exponent with
    | .nan, _ => some .nan
    | _, .nan => some .nan
    | .finite _ units, .finite _ _ => powerOfUnits? units exponent
    | _, _ => some (.infinite false)

/-- The power to zero is one, of every base. -/
theorem power?_of_isZero (base : Binary64) {exponent : Binary64} (h : exponent.isZero = true) :
    base.power? exponent = some .one := by
  simp [power?, h]

/-- One is one to every power. -/
@[simp] theorem one_power? (exponent : Binary64) : power? .one exponent = some .one := by
  simp [power?]

end Binary64

end Polling
