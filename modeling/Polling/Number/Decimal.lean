import Polling.Number.Binary64

/-!
# Doubles in decimal

Three conversions, all in exact integer arithmetic.

* `shortest` finds the fewest decimal digits that still round to the given double, and of those the
  nearest to it.
* `fixed` writes a double with a set number of places, the exact value rounded once, a tie going to
  the even last digit.
* `ofText?` reads a decimal and rounds it once.

How the digits are laid out as text is a separate decision, taken by `Layout`.
-/

namespace Polling

namespace Decimal

/-- The decimal digits of a natural number, most significant first. -/
def digits (n : Nat) : List Char := Nat.toDigits 10 n

/-- A quotient equal to `10 ^ e`: its numerator and denominator. -/
def tenPower (e : Int) : Nat × Nat := (Nat.pow 10 e.toNat, Nat.pow 10 (-e).toNat)

/-- The exponent of the leading decimal digit of `num / den`, for a positive quotient. -/
def leading (num den : Nat) : Int :=
  if den ≤ num then ((digits (num / den)).length : Int) - 1
  else
    let inverse := (den + num - 1) / num
    if inverse ≤ 1 then 0 else -((digits (inverse - 1)).length : Int)

/-- The reals that round to a double of `units` units, as an interval of quarter units, and whether
its ends belong to it. A power of two has a nearer neighbour below than above. -/
structure Reach where
  low : Nat
  high : Nat
  closed : Bool

/-- The interval of reals that round to a positive double. -/
def reach (units : Nat) : Reach :=
  let above := Binary64.spacing units
  let below := if units == Nat.pow 2 units.log2 && 1 < above then above / 2 else above
  { low := 4 * units - 2 * below
    high := 4 * units + 2 * above
    closed := units / above % 2 == 0 }

/-- Does `c * 10 ^ e` lie in the interval? -/
def Reach.contains (r : Reach) (c : Nat) (e : Int) : Bool :=
  let (up, down) := tenPower e
  let point := 4 * c * up * Binary64.unitsPerOne
  if r.closed then r.low * down ≤ point && point ≤ r.high * down
  else r.low * down < point && point < r.high * down

/-- The nearer of `c` and `c + 1` to a positive double on the grid `10 ^ e`; a tie goes to the even
one. -/
def nearer (units c : Nat) (e : Int) : Nat :=
  let (up, down) := tenPower e
  let middle := (2 * c + 1) * up * Binary64.unitsPerOne
  let value := 2 * units * down
  if value < middle then c else if middle < value then c + 1 else c + c % 2

/-- The point of the grid `10 ^ e` that rounds to the double, if one of its two neighbours on the
grid does. -/
def onGrid? (units : Nat) (r : Reach) (e : Int) : Option (Nat × Int) :=
  let (up, down) := tenPower e
  let c := units * down / (up * Binary64.unitsPerOne)
  match r.contains c e, r.contains (c + 1) e with
  | true, true => some (nearer units c e, e)
  | true, false => some (c, e)
  | false, true => some (c + 1, e)
  | false, false => none

/-- Seventeen digits always identify a double. -/
def enoughDigits : Nat := 17

/-- The decimal `c * 10 ^ e` with the fewest digits that rounds to a positive double: grids are tried
from the coarsest. -/
def shortest (units : Nat) : Nat × Int :=
  let top := leading units Binary64.unitsPerOne
  let r := reach units
  ((List.range enoughDigits).findSome? fun (k : Nat) => onGrid? units r (top - (k : Nat))).getD (0, 0)

/-- The digits of a decimal without the zeros at its end, and the exponent of its first digit. -/
def normalized (c : Nat) (e : Int) : List Char × Int :=
  let all := digits c
  ((all.reverse.dropWhile (· == '0')).reverse, e + all.length - 1)

end Decimal

/-- How the digits of a double become text. -/
structure Layout where
  /-- The least exponent of a leading digit that is written without an exponent. -/
  leastPlain : Int
  /-- The greatest such exponent. -/
  greatestPlain : Int
  /-- The digits an exponent has at least. -/
  exponentWidth : Nat
  infinity : String
  notANumber : String

namespace Layout

/-- Zeros in front up to a width. -/
def padded (width : Nat) (ds : List Char) : List Char :=
  List.replicate (width - ds.length) '0' ++ ds

/-- Digits with the point after the first `before` of them; a bare point gets a zero on each side. -/
def plain (ds : List Char) (before : Int) : List Char :=
  if before ≤ 0 then '0' :: '.' :: (List.replicate (-before).toNat '0' ++ ds)
  else
    let n := before.toNat
    let whole := ds.take n ++ List.replicate (n - ds.length) '0'
    let rest := ds.drop n
    whole ++ '.' :: (if rest.isEmpty then ['0'] else rest)

/-- Digits with an exponent: one digit, the others behind a point, the exponent with its sign. -/
def scientific (layout : Layout) (ds : List Char) (exponent : Int) : List Char :=
  let mantissa := match ds with
    | [] => ['0']
    | [d] => [d]
    | d :: rest => d :: '.' :: rest
  let mark := if exponent < 0 then '-' else '+'
  mantissa ++ 'e' :: mark :: padded layout.exponentWidth (Decimal.digits exponent.natAbs)

/-- The text of a double with the fewest digits. -/
def text (layout : Layout) : Binary64 → String
  | .nan => layout.notANumber
  | .infinite negative => (if negative then "-" else "") ++ layout.infinity
  | .finite negative units =>
    let (c, e) := if units = 0 then (0, 0) else Decimal.shortest units
    let (ds, exponent) := Decimal.normalized c e
    let body :=
      if units = 0 then ['0', '.', '0']
      else if layout.leastPlain ≤ exponent ∧ exponent ≤ layout.greatestPlain then
        plain ds (exponent + 1)
      else layout.scientific ds exponent
    String.ofList (if negative then '-' :: body else body)

/-- The text of a double with exactly `places` digits behind the point, for `places` at least one. -/
def fixed (layout : Layout) (places : Nat) : Binary64 → String
  | .nan => layout.notANumber
  | .infinite negative => (if negative then "-" else "") ++ layout.infinity
  | .finite negative units =>
    let scaled := nearestEven (units * Nat.pow 10 places) Binary64.unitsPerOne
    let ds := padded (places + 1) (Decimal.digits scaled)
    let cut := ds.length - places
    let body := ds.take cut ++ '.' :: ds.drop cut
    String.ofList (if negative then '-' :: body else body)

end Layout

namespace Decimal

/-- The value of a run of decimal digits and what follows it. -/
def readDigits (cs : List Char) : List Char × List Char :=
  (cs.takeWhile Char.isDigit, cs.dropWhile Char.isDigit)

/-- The natural number that a run of digits denotes. -/
def valueOf (ds : List Char) : Nat :=
  ds.foldl (fun n d => 10 * n + (d.toNat - '0'.toNat)) 0

/-- An exponent mark with its signed digits, or nothing. -/
def readExponent? : List Char → Option Int
  | [] => some 0
  | 'e' :: '-' :: ds => if !ds.isEmpty && ds.all Char.isDigit then some (-(valueOf ds : Int)) else none
  | 'e' :: '+' :: ds => if !ds.isEmpty && ds.all Char.isDigit then some (valueOf ds) else none
  | 'e' :: ds => if !ds.isEmpty && ds.all Char.isDigit then some (valueOf ds) else none
  | _ => none

/-- Digits, perhaps a point and more digits, perhaps an exponent: a coefficient and a power of ten. -/
def readUnsigned? (cs : List Char) : Option (Nat × Int) :=
  let (whole, rest) := readDigits cs
  let (places, rest) := match rest with
    | '.' :: r => readDigits r
    | r => ([], r)
  if (whole ++ places).isEmpty then none
  else do
    let e ← readExponent? rest
    return (valueOf (whole ++ places), e - places.length)

/-- The double nearest to a decimal written in digits, or the text of an infinity or of
not-a-number. Capital letters count as small ones. -/
def ofText? (layout : Layout) (text : String) : Option Binary64 :=
  let (negative, cs) := match text.toList.map Char.toLower with
    | '-' :: cs => (true, cs)
    | '+' :: cs => (false, cs)
    | cs => (false, cs)
  if cs = layout.notANumber.toList then some .nan
  else if cs = layout.infinity.toList then some (.infinite negative)
  else do
    let (c, e) ← readUnsigned? cs
    let (up, down) := tenPower e
    return .ofUnits negative (c * up * Binary64.unitsPerOne) down

end Decimal

end Polling
