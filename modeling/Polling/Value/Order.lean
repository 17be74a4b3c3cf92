import Polling.Fault.Misuse

/-!
# Comparing, subtracting and looking up values

Only numbers have an order and a difference. Asking for either with anything else is a misuse that
names the types of both sides in the order in which they were asked about. Everything but a list and
a dictionary can be a key of a dictionary.
-/

namespace Polling.Value

/-- The numbers on both sides of a comparison. -/
def ordered (sign : String) (a b : Value) : Except Misuse (Number × Number) :=
  match a, b with
  | .number m, .number n => .ok (m, n)
  | a, b => .error (.unordered sign a.typeName b.typeName)

/-- `a < b`. -/
def lt (a b : Value) : Except Misuse Bool := do
  let (m, n) ← ordered "<" a b
  return m.lt n

/-- `a <= b`. -/
def le (a b : Value) : Except Misuse Bool := do
  let (m, n) ← ordered "<=" a b
  return m.le n

/-- `a >= b`. -/
def ge (a b : Value) : Except Misuse Bool := do
  let (m, n) ← ordered ">=" a b
  return n.le m

/-- The greater of a value and an integer; the value unless the integer is greater. -/
def atLeast (a : Value) (n : Int) : Except Misuse Number := do
  let (m, k) ← (ordered ">" (.int n) a)
  return k.max m

/-- The difference of two values. -/
def sub (a b : Value) : Except Misuse Value :=
  match a, b with
  | .number m, .number n =>
    match m.sub? n with
    | some d => .ok (.number d)
    | none => .error .integerTooLarge
  | a, b => .error (.noDifference a.typeName b.typeName)

/-- A number that is not below zero, or `refuse` with it. -/
def nonNegative (refuse : Number → Misuse) (a : Value) : Except Misuse Number := do
  let (m, zero) ← ordered "<" a (.int 0)
  if m.lt zero then .error (refuse m) else .ok m

/-- Can the value be a key? -/
def isHashable : Value → Bool
  | .list _ => false
  | .dict _ => false
  | _ => true

/-- Refuse what cannot be a key. -/
def checkKey (key : Value) : Except Misuse Unit :=
  if key.isHashable then .ok () else .error (.notHashable key.typeName)

/-- The value under a key of a dictionary, or nothing. -/
def lookUp (key : Value) (entries : List (Value × Value)) : Except Misuse (Option Value) := do
  key.checkKey
  return find? key entries

/-- An entry of a dictionary, if its key can be one. -/
def entry (key value : Value) : Except Misuse (Value × Value) := do
  key.checkKey
  return (key, value)

end Polling.Value
