import Polling.Number.Decimal
import Polling.Number.Power

/-!
# Numbers

A number is a flag, an integer or a double. A flag counts as zero or one wherever a number is asked
for. Integers are exact and unbounded; where an integer meets a double, arithmetic happens in
doubles, after the integer is converted, which fails past the finite range; a comparison never
converts and is always exact.

* `lt`, `le`, `same`, `min`, `max`: comparisons; `lt_eq_places` says that they are those of places;
* `Number.mul?`, `Number.sub?`: arithmetic, `none` where a conversion fails;
* `Number.text`, `Number.twoPlaces?`: how numbers are written.
-/

namespace Polling

/-- A flag, an exact integer or a double. -/
inductive Number where
  | flag (b : Bool)
  | int (n : Int)
  | real (x : Binary64)
deriving DecidableEq, Repr, Inhabited

namespace Number

/-- The whole number that a flag or an integer stands for. -/
def whole? : Number → Option Int
  | .flag b => some (if b then 1 else 0)
  | .int n => some n
  | .real _ => none

/-- Does an integer fit in 64 bits with a sign? -/
def fitsWord (n : Int) : Bool := -Int.pow 2 63 ≤ n && n < Int.pow 2 63

/-- The place of a number among the integers counted in units of the finest double. -/
def place? : Number → Option Extended
  | .flag b => some (.exactly (if b then Binary64.unitsPerOne else 0))
  | .int n => some (.exactly (Binary64.unitsPerOne * n))
  | .real x => x.place?

/-- A relation of two numbers: whole numbers are compared as they are, others by their places. A
number without a place stands in no relation. -/
def related (onWhole : Int → Int → Bool) (onPlaces : Extended → Extended → Bool) (a b : Number) :
    Bool :=
  match a.whole?, b.whole? with
  | some m, some n => onWhole m n
  | _, _ =>
    match a.place?, b.place? with
    | some x, some y => onPlaces x y
    | _, _ => false

/-- Is `a` below `b`? False whenever either is not a number. -/
def lt : Number → Number → Bool := related (fun m n => m < n) Extended.lt

/-- Is `a` at most `b`? False whenever either is not a number. -/
def le : Number → Number → Bool := related (fun m n => m ≤ n) fun x y => !y.lt x

/-- Do two numbers have the same value? False whenever either is not a number. -/
def same : Number → Number → Bool := related (· == ·) (· == ·)

theorem place?_of_whole? {a : Number} {m : Int} (h : a.whole? = some m) :
    a.place? = some (.exactly (Binary64.unitsPerOne * m)) := by
  cases a with
  | flag b =>
    cases b with
    | true =>
      obtain rfl : 1 = m := Option.some.inj h
      rw [Int.mul_one]
      rfl
    | false =>
      obtain rfl : 0 = m := Option.some.inj h
      rw [Int.mul_zero]
      rfl
  | int n =>
    obtain rfl : n = m := Option.some.inj h
    rfl
  | real x => exact nomatch h

/-- Whole numbers are ordered as their places are. -/
theorem lt_eq_places (a b : Number) :
    a.lt b = match a.place?, b.place? with
      | some x, some y => x.lt y
      | _, _ => false := by
  have unit_pos : (0 : Int) < Binary64.unitsPerOne := Int.natCast_pos.2 Binary64.unitsPerOne_pos
  rw [lt, related]
  split
  · next m n ha hb =>
    rw [place?_of_whole? ha, place?_of_whole? hb]
    exact decide_eq_decide.2 (Int.mul_lt_mul_left unit_pos).symm
  · rfl

@[simp] theorem int_lt_int (m n : Int) : lt (.int m) (.int n) = decide (m < n) := rfl

@[simp] theorem int_le_int (m n : Int) : le (.int m) (.int n) = decide (m ≤ n) := rfl

@[simp] theorem int_same_int (m n : Int) : same (.int m) (.int n) = (m == n) := rfl

/-- The first number unless the second is smaller. -/
def min (a b : Number) : Number := if b.lt a then b else a

/-- The first number unless the second is greater. -/
def max (a b : Number) : Number := if a.lt b then b else a

/-- Zero and not-a-flag-raised read as false, every other number as true. -/
def truthy : Number → Bool
  | .flag b => b
  | .int n => n != 0
  | .real x => !x.isZero

/-- The nearest double, or `none` for an integer past the finite range. -/
def toReal? : Number → Option Binary64
  | .flag b => Binary64.ofInt? (if b then 1 else 0)
  | .int n => Binary64.ofInt? n
  | .real x => some x

/-- Arithmetic by an operation on integers and one on doubles: integers stay exact, and a double on
either side converts the other. -/
def arith? (onInts : Int → Int → Int) (onReals : Binary64 → Binary64 → Binary64)
    (a b : Number) : Option Number :=
  match a.whole?, b.whole? with
  | some m, some n => some (.int (onInts m n))
  | _, _ => do return .real (onReals (← a.toReal?) (← b.toReal?))

/-- The product. -/
def mul? : Number → Number → Option Number := arith? (· * ·) Binary64.mul

/-- The difference. -/
def sub? : Number → Number → Option Number := arith? (· - ·) Binary64.sub

/-- The layout of doubles: plain from `0.0001` to below `10 ^ 16`, otherwise with an exponent of at
least two digits. -/
def layout : Layout where
  leastPlain := -4
  greatestPlain := 15
  exponentWidth := 2
  infinity := "inf"
  notANumber := "nan"

/-- The text of an integer. -/
def intText (n : Int) : String :=
  String.ofList ((if n < 0 then ['-'] else []) ++ Decimal.digits n.natAbs)

/-- The text of a number. -/
def text : Number → String
  | .flag b => if b then "True" else "False"
  | .int n => intText n
  | .real x => layout.text x

/-- The text of a number with two places, an integer being converted first. -/
def twoPlaces? (n : Number) : Option String := n.toReal?.map (layout.fixed 2)

end Number

end Polling
