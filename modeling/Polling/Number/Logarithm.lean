import Polling.Number.FixedPoint

/-!
# Logarithms with a rest

The natural logarithm of a double, as a double and a rest: their sum has some fifteen bits more than
one double has.

A number is brought to `2 ^ k * z` with `z` between `start` and its double. This range of `z` falls
into 128 parts, and each has a number `c` next to its middle whose inverse has few bits. Then
`log z = log c + log (1 + r)` with the small `r = z / c - 1`, which a double holds exactly. For the
last logarithm there is a polynomial.

Operations on doubles are carried out one by one, so that this is the result to the last bit.
-/

namespace Polling

namespace Logarithm

/-- Where the range begins, about 0.7057, as a whole number of units `2 ^ -53`; as one of units
`2 ^ -52` the same number is the double of that, where the range ends. -/
def start : Nat := 0x169555 * Nat.pow 2 32

/-- One of the parts of the range. -/
structure Part where
  /-- One over the number next to the middle. -/
  inverse : Binary64
  /-- The logarithm of that number, and a rest. -/
  log : Binary64 × Binary64

/-- How many bits a logarithm has behind the binary point before the rest. -/
def logPlaces : Nat := 43

/-- The part with a number. The parts up to one are half as wide as those after it. -/
def part (i : Nat) : Part :=
  let middle := start + i * Nat.pow 2 45 + Nat.pow 2 44
  let (middle, places) :=
    if start + i * Nat.pow 2 45 < Nat.pow 2 53 then (middle, 7)
    else (Nat.pow 2 52 + (middle - Nat.pow 2 53), 8)
  let inverse := nearestEven (Nat.pow 2 60) middle
  { inverse := .dyadic false inverse places
    log := FixedPoint.split logPlaces (FixedPoint.logarithm (Nat.pow 2 places) inverse) }

/-- The logarithm of two, and a rest. -/
def ofTwo : Binary64 × Binary64 := FixedPoint.split logPlaces (FixedPoint.logarithm 2 1)

/-- The polynomial for `log (1 + r) - r + r ^ 2 / 2`, divided by `- r ^ 3 / 2`, where `half` is
`- r ^ 2 / 2`. -/
def tail (r half : Binary64) : Binary64 :=
  let c1 := .dyadic true 0x15555555555560 53
  let c2 := .dyadic false 0x10000000000006 53
  let c3 := .dyadic false 0x1999999959554e 53
  let c4 := .dyadic true 0x1555555529a47a 53
  let c5 := .dyadic true 0x12495b9b4845e9 52
  let c6 := .dyadic false 0x10002b8b263fc3 52
  half.mulAdd (half.mulAdd (r.mulAdd c6 c5) (r.mulAdd c4 c3)) (r.mulAdd c2 c1)

/-- The logarithm of `2 ^ k * z`, and a rest, from the part in which `z` lies. -/
def fromPart (k : Int) (z : Binary64) (p : Part) : Binary64 × Binary64 :=
  let k := FixedPoint.toDouble (k * FixedPoint.one)
  let r := z.mulAdd p.inverse (.neg .one)
  let base := k.mulAdd ofTwo.1 p.log.1
  let first := base.add r
  let lost1 := k.mulAdd ofTwo.2 p.log.2
  let lost2 := (base.sub first).add r
  let halved := r.mul (.dyadic true 1 1)
  let half := r.mul halved
  let second := first.add half
  let lost3 := halved.mulAdd r half.neg
  let lost4 := (first.sub second).add half
  let rest := (r.mul half).mulAdd (tail r half) (((lost1.add lost2).add lost3).add lost4)
  let log := second.add rest
  (log, (second.sub log).add rest)

/-- The logarithm of a number of units that make at least one, and a rest. -/
def ofUnits (units : Nat) : Binary64 × Binary64 :=
  let exponent := units.log2 - 1074
  let significand := units / Nat.pow 2 (units.log2 - 52)
  if start ≤ significand then
    fromPart (exponent + 1) (.dyadic false significand 53)
      (part ((significand - start) / Nat.pow 2 45))
  else
    fromPart exponent (.dyadic false significand 52)
      (part ((significand + Nat.pow 2 52 - start) / Nat.pow 2 45))

end Logarithm

end Polling
