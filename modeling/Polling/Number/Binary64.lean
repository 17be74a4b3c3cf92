import Polling.Number.Rounding

/-!
# Double-precision numbers, exactly

A finite double is a whole number of *units*, one unit being the least positive double `2 ^ -1074`.
Arithmetic is done on units without error and rounded once at the end, so every operation is its
exact result correctly rounded, and comparison is comparison of integers.

The sign is kept apart from the magnitude, because zero has two signs.
-/

namespace Polling

/-- A double: a signed whole number of units `2 ^ -1074`, an infinity, or not a number. -/
inductive Binary64 where
  | finite (negative : Bool) (units : Nat)
  | infinite (negative : Bool)
  | nan
deriving DecidableEq, Repr, Inhabited

/-- An integer, or a point below or above all of them. -/
inductive Extended where
  | bottom
  | exactly (n : Int)
  | top
deriving DecidableEq, Repr

namespace Extended

/-- The strict order: `bottom`, the integers, `top`. -/
def lt : Extended → Extended → Bool
  | .top, _ => false
  | _, .bottom => false
  | .bottom, _ => true
  | _, .top => true
  | .exactly a, .exactly b => decide (a < b)

@[simp] theorem lt_exactly (a b : Int) : lt (.exactly a) (.exactly b) = decide (a < b) := rfl

theorem lt_irrefl (a : Extended) : lt a a = false := by
  cases a <;> simp [lt]

theorem lt_asymm {a b : Extended} (h : lt a b = true) : lt b a = false := by
  cases a <;> cases b <;> simp_all [lt]
  omega

theorem lt_trans {a b c : Extended} (hab : lt a b = true) (hbc : lt b c = true) :
    lt a c = true := by
  cases a <;> cases b <;> cases c <;> simp_all [lt]
  omega

end Extended

namespace Binary64

/-- The number one, in units. -/
def unitsPerOne : Nat := Nat.pow 2 1074

theorem unitsPerOne_pos : 0 < unitsPerOne := by
  unfold unitsPerOne
  apply Nat.pow_pos
  exact Nat.two_pos

/-- Where the finite range ends: `2 ^ 1024`, in units. -/
def unitLimit : Nat := Nat.pow 2 2098

/-- The distance between neighbouring doubles at `whole` units: 53 significant bits are kept. -/
def spacing (whole : Nat) : Nat := Nat.pow 2 (whole.log2 + 1 - 53)

/-- The quotient `num / den`, a number of units, rounded to 53 significant bits. -/
def roundUnits (num den : Nat) : Nat :=
  let step := spacing (num / den)
  nearestEven num (den * step) * step

/-- The double nearest to `num / den` units, with the sign `negative`; past the finite range it is
an infinity. -/
def ofUnits (negative : Bool) (num den : Nat) : Binary64 :=
  let units := roundUnits num den
  if units < unitLimit then .finite negative units else .infinite negative

/-- Zero. -/
def zero : Binary64 := .finite false 0

/-- One. -/
def one : Binary64 := .finite false unitsPerOne

/-- Two. -/
def two : Binary64 := .finite false (2 * unitsPerOne)

/-- The double nearest to an integer, or `none` where it lies past the finite range. -/
def ofInt? (n : Int) : Option Binary64 :=
  match ofUnits (decide (n < 0)) (unitsPerOne * n.natAbs) 1 with
  | .finite s u => some (.finite s u)
  | _ => none

/-- A finite magnitude with its sign, as an integer number of units. -/
def signed (negative : Bool) (units : Nat) : Int :=
  if negative then -(units : Int) else units

/-- The place of a double among the integers counted in units; `none` for not-a-number, which has
no place. -/
def place? : Binary64 → Option Extended
  | .finite s u => some (.exactly (signed s u))
  | .infinite true => some .bottom
  | .infinite false => some .top
  | .nan => none

/-- The integer next to a finite double on the way to zero. -/
def truncate? : Binary64 → Option Int
  | .finite s u => some (signed s (u / unitsPerOne))
  | _ => none

/-- A zero of either sign. -/
def isZero : Binary64 → Bool
  | .finite _ u => u == 0
  | _ => false

/-- The opposite. -/
def neg : Binary64 → Binary64
  | .finite s u => .finite (!s) u
  | .infinite s => .infinite (!s)
  | .nan => .nan

/-- The rounded sum. An exact zero is negative only if both terms are. -/
def add : Binary64 → Binary64 → Binary64
  | .finite s u, .finite t v =>
    let sum := signed s u + signed t v
    if sum = 0 then .finite (s && t) 0 else ofUnits (decide (sum < 0)) sum.natAbs 1
  | .infinite s, .infinite t => if s = t then .infinite s else .nan
  | .infinite s, .finite _ _ => .infinite s
  | .finite _ _, .infinite t => .infinite t
  | _, _ => .nan

/-- The rounded difference. -/
def sub (a b : Binary64) : Binary64 := a.add b.neg

/-- The rounded product. Zero times an infinity is not a number. -/
def mul : Binary64 → Binary64 → Binary64
  | .finite s u, .finite t v => ofUnits (s != t) (u * v) unitsPerOne
  | .infinite s, .infinite t => .infinite (s != t)
  | .infinite s, .finite t v => if v = 0 then .nan else .infinite (s != t)
  | .finite s u, .infinite t => if u = 0 then .nan else .infinite (s != t)
  | _, _ => .nan

/-- The product of the first two, increased by the third and then rounded, once. -/
def mulAdd : Binary64 → Binary64 → Binary64 → Binary64
  | .finite s u, .finite t v, .finite w x =>
    let sum := signed (s != t) (u * v) + signed w (x * unitsPerOne)
    if sum = 0 then .finite ((s != t) && w) 0
    else ofUnits (decide (sum < 0)) sum.natAbs unitsPerOne
  | a, b, c => (a.mul b).add c

/-- The double with so many bits behind the binary point, whose digits are a whole number. -/
def dyadic (negative : Bool) (digits places : Nat) : Binary64 :=
  ofUnits negative (digits * unitsPerOne) (Nat.pow 2 places)

/-- Is `a` below `b`? False whenever either is not a number. -/
def lt (a b : Binary64) : Bool :=
  match a.place?, b.place? with
  | some x, some y => x.lt y
  | _, _ => false

/-- Is `a` at most `b`? False whenever either is not a number. -/
def le (a b : Binary64) : Bool :=
  match a.place?, b.place? with
  | some x, some y => !y.lt x
  | _, _ => false

/-! ## Small facts -/

@[simp] theorem neg_neg (a : Binary64) : a.neg.neg = a := by
  cases a <;> simp [neg]

@[simp] theorem lt_nan (a : Binary64) : lt a .nan = false := by
  cases h : a.place? <;> simp [lt, place?]

@[simp] theorem nan_lt (a : Binary64) : lt .nan a = false := by
  simp [lt, place?]

end Binary64

end Polling
