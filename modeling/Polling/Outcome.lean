import Polling.Fault.Misuse

/-!
# Outcomes of a poll

A poll either returns a value or raises a fault. `Outcome.payload` is what it leaves behind in either
case, the object that acceptors look at. A poll that goes on after the call may also be cancelled,
which is no outcome: `Ending` is how such a poll ends.
-/

namespace Polling

/-- Something handed to code or given back by it: a value or a fault. -/
inductive Object where
  | value (v : Value)
  | fault (e : Fault)
deriving Repr, Inhabited

namespace Object

/-- A value reads as itself, a fault as true. -/
def truthy : Object → Bool
  | .value v => v.truthy
  | .fault _ => true

/-- The form of an object on its own. -/
def display : Object → String
  | .value v => v.display
  | .fault e => e.text

end Object

/-- The result of one poll. -/
inductive Outcome where
  | returned (value : Value)
  | raised (fault : Fault)
deriving Repr, Inhabited

namespace Outcome

/-- The value that was returned; nothing if a fault was raised. -/
def value : Outcome → Value
  | .returned v => v
  | .raised _ => .null

/-- The fault that was raised, if one was. -/
def fault? : Outcome → Option Fault
  | .returned _ => none
  | .raised e => some e

/-- Was a fault raised? -/
def isFailure : Outcome → Bool
  | .returned _ => false
  | .raised _ => true

/-- What the poll left behind. -/
def payload : Outcome → Object
  | .returned v => .value v
  | .raised e => .fault e

/-- An outcome from its two parts, of which at most one may be present. -/
def make (value : Value) (fault : Option Fault) : Except Misuse Outcome :=
  match value, fault with
  | v, none => .ok (.returned v)
  | .null, some e => .ok (.raised e)
  | _, some _ => .error .outcomeHasBoth

/-- Outcomes are equal if they returned equal values; a raised fault equals no other. -/
def equals : Outcome → Outcome → Bool
  | .returned a, .returned b => a.equals b
  | _, _ => false

/-- The two parts of an outcome, each under its name. -/
def shownParts (o : Outcome) : String :=
  "value=" ++ o.value.shown ++ ", exception=" ++ ((o.fault?.map Fault.shown).getD "None")

/-- The form of an outcome inside other text. -/
def shown (o : Outcome) : String := "Outcome(" ++ o.shownParts ++ ")"

@[simp] theorem isFailure_iff_fault? (o : Outcome) : o.fault?.isSome = o.isFailure := by
  cases o <;> rfl

end Outcome

/-- How a running poll ends. -/
inductive Ending where
  | value (v : Value)
  | fault (e : Fault)
  /-- Somebody cancelled it. -/
  | cancelled
deriving Repr

end Polling
