import Polling.Number.FixedPoint

/-!
# Exponentials of a sum

The exponential of a double and a much smaller one, as a double.

A number is `n * (log 2 / 128) + r`, for the whole number `n` that leaves the smallest `r`. Then its
exponential is that of `r` times a power of two times one of the 128 roots `2 ^ (i / 128)`, and for
the exponential of `r` there is a polynomial.

Operations on doubles are carried out one by one, so that this is the result to the last bit.
-/

namespace Polling

namespace Exponential

/-- One of the roots `2 ^ (i / 128)`. -/
structure Root where
  /-- The double nearest to it. -/
  nearest : Binary64
  /-- How far it lies above that double, as a part of that double. -/
  excess : Binary64

/-- The root with a number. -/
def root (i : Nat) : Root :=
  let exact := FixedPoint.rootOfTwo i 7
  let nearest := FixedPoint.toDouble exact
  let above : Int := exact - FixedPoint.ofDouble nearest
  { nearest
    excess := FixedPoint.toDouble (above * FixedPoint.one / FixedPoint.ofDouble nearest) }

/-- The distance between the logarithms of neighbouring roots, and a rest. -/
def stride : Binary64 × Binary64 := FixedPoint.split 44 (FixedPoint.logarithm 2 1 / 128)

/-- How many such distances make one: a double, in units. -/
def stridesPerOne : Nat :=
  Binary64.roundUnits (128 * FixedPoint.one * Binary64.unitsPerOne)
    (FixedPoint.logarithm 2 1).toNat

/-- The number of distances nearest to so many units. -/
def strides (units : Nat) : Nat :=
  nearestEven (units * stridesPerOne) (Binary64.unitsPerOne * Binary64.unitsPerOne)

/-- The polynomial `exp r - 1` for a root, increased by what the root has in excess. -/
def above (r : Binary64) (p : Root) : Binary64 :=
  let c2 := .dyadic false 0x1ffffffffffdbd 54
  let c3 := .dyadic false 0x1555555555543c 55
  let c4 := .dyadic false 0x155555cf172b91 57
  let c5 := .dyadic false 0x11111167a4d017 59
  let square := r.mul r
  (r.mulAdd c5 c4).mulAdd (square.mul square)
    ((r.mulAdd c3 c2).mulAdd square (p.excess.add r))

/-- The exponential of a number of units and a small rest, `none` past the finite range. -/
def ofUnits? (units : Nat) (rest : Binary64) : Option Binary64 :=
  if 1024 * Binary64.unitsPerOne ≤ units then none
  else
    let n := strides units
    let p := root (n % 128)
    let count := FixedPoint.toDouble (n * FixedPoint.one)
    let reduced := count.mulAdd stride.2.neg (count.mulAdd stride.1.neg (.finite false units))
    match (above (rest.add reduced) p).mulAdd p.nearest p.nearest with
    | .finite _ scaled =>
      let result := scaled * Nat.pow 2 (n / 128)
      if result < Binary64.unitLimit then some (.finite false result) else none
    | _ => none

end Exponential

end Polling
