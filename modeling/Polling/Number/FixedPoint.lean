import Polling.Number.Binary64

/-!
# Roots of two and logarithms in fixed point

A real number in fixed point is the whole number of units `2 ^ -bits` next to it. With far more bits
than a double keeps, such a number tells which double is nearest to the real one.

* `rootOfTwo`: two to the power of a fraction, which is read bit by bit, each set bit contributing
  the matching repeated square root of two;
* `logarithm`: the natural logarithm of a quotient, by
  `log (p / q) = 2 * (y + y ^ 3 / 3 + y ^ 5 / 5 + ...)` for `y = (p - q) / (p + q)`.
-/

namespace Polling

namespace FixedPoint

/-- The bits behind the binary point. -/
def bits : Nat := 192

/-- One. -/
def one : Nat := Nat.pow 2 bits

/-- The largest `r` below `2 ^ places` with `r * r ≤ n`, found from the highest bit down, on top of
the bits in `found`. -/
def rootBelow (n : Nat) : (places found : Nat) → Nat
  | 0, found => found
  | places + 1, found =>
    let trial := found + Nat.pow 2 places
    rootBelow n places (if trial * trial ≤ n then trial else found)

/-- `product` times `root` to the power `fraction / 2 ^ places`. -/
def timesRoots (fraction : Nat) : (places root product : Nat) → Nat
  | 0, _, product => product
  | places + 1, root, product =>
    let next := rootBelow (root * one) (bits + 2) 0
    timesRoots fraction places next
      (if fraction.testBit places then product * next / one else product)

/-- Two to the power `fraction / 2 ^ places`, for a fraction below one. -/
def rootOfTwo (fraction places : Nat) : Nat := timesRoots fraction places (2 * one) one

/-- So many terms of `1 / n + s / (n + 2) + s ^ 2 / (n + 4) + ...`. -/
def oddSeries (s : Int) : (terms n : Nat) → Int
  | 0, _ => 0
  | terms + 1, n => (one : Int) / n + s * oddSeries s terms (n + 2) / one

/-- The natural logarithm of `p / q`. For quotients up to two, either way, the terms that are left
out do not count. -/
def logarithm (p q : Nat) : Int :=
  let y : Int := ((p : Int) - q) * one / (p + q)
  2 * (y * oddSeries (y * y / one) 64 1) / one

/-- The double nearest to a number. -/
def toDouble (n : Int) : Binary64 :=
  .ofUnits (decide (n < 0)) (n.natAbs * Binary64.unitsPerOne) one

/-- The number that a double is, for one without bits beyond the last unit. -/
def ofDouble : Binary64 → Int
  | .finite s u => Binary64.signed s (u * one / Binary64.unitsPerOne)
  | _ => 0

/-- The nearest number that has only so many bits behind the binary point. -/
def coarse (places : Nat) (n : Int) : Int :=
  let unit := Nat.pow 2 (bits - places)
  Binary64.signed (decide (n < 0)) (nearestEven n.natAbs unit * unit)

/-- A number as the sum of one with so many bits behind the binary point and a rest, in doubles. -/
def split (places : Nat) (n : Int) : Binary64 × Binary64 :=
  let high := coarse places n
  (toDouble high, toDouble (n - high))

end FixedPoint

end Polling
