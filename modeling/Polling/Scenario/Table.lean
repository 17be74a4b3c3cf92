import Polling.Backoff.Basic
import Polling.Scenario.Bench

/-!
# Backoffs for trying out waits

A table gives the delay after each attempt, its last entry serving all further ones; an entry may be
a fault. `quadratic` is a growth that this library does not come with.
-/

namespace Polling.Scenario

/-- Delays that grow with the square of the attempts made. -/
def quadratic : Growth := ⟨"PowerBackoff", Growth.square⟩

/-- The entry of a table at a place. -/
def entryAt (table : List (Except Fault Value)) (place : Int) : Except Fault Value :=
  match itemAt? table place with
  | some entry => entry
  | none =>
    .error (if Number.fitsWord place then .withText .index "list index out of range"
      else Misuse.placeTooFar.fault)

/-- The entry of a table for an attempt. -/
def tableEntry (table : List (Except Fault Value)) (attempt : Value) : Except Fault Value :=
  let last : Number := .int ((table.length : Int) - 1)
  match attempt.sub (.int 1) with
  | .error m => .error m.fault
  | .ok v =>
    match v.number?.map fun n => n.min last with
    | some (Number.int i) => entryAt table i
    | _ => .error (.withText .wrongType "list indices must be integers or slices, not float")

/-- A backoff that reads its delays from a table. -/
def tableBackoff (table : List (Except Fault Value)) : Backoff Bench :=
  .custom "TableBackoff()" fun attempt => do
    Bench.mark (.table attempt)
    Code.onState fun b => (tableEntry table attempt, b)

end Polling.Scenario
