import Polling.Acceptor.Web
import Polling.Fault.Construct
import Polling.Scenario.Bench
import Polling.Value.Whole

/-!
# Predicates for trying out acceptors

A predicate looks at what a poll left and answers with an object. It marks that it was called, and
some predicates answer by how often they have been called.

A test given to an acceptor may also be a kind of fault or another type, a group of them, or
something that cannot be called; only acceptors of faults make a pattern of kinds and groups,
elsewhere the test is called as it is. Calling a type makes an object of it.
-/

namespace Polling.Scenario

/-- A rule for answering. Its values are made when it needs them, which may fail. -/
inductive Predicate where
  /-- Always the same. -/
  | const (v : Except Fault Value)
  /-- Is it equal to a value? -/
  | equal (v : Except Fault Value)
  /-- The object itself. -/
  | itself
  /-- Is it a dictionary with this value under a key? -/
  | field (key v : Except Fault Value)
  /-- Is it a number that is not below a value? -/
  | atLeast (v : Except Fault Value)
  /-- Does its text contain a text? -/
  | contains (part : Except Fault Value)
  /-- True on the calls with these numbers. -/
  | onCalls (numbers : Except Fault (List Value))
  | raising (e : Fault)

namespace Predicate

/-- A truth value as an object. -/
def truth (b : Bool) : Object := .value (.flag b)

/-- Is an object equal to a value? A fault never is. -/
def isEqual (x : Object) (v : Value) : Bool :=
  match x with
  | .value w => w.equals v
  | .fault _ => false

/-- Does the text of an object contain a text? -/
def holdsText (x : Object) : Value → Except Misuse Bool
  | .string part => .ok (Text.holds x.display.toList part.toList)
  | v => .error (.notAPart v.typeName)

/-- The answer of a predicate on its `n`-th call. -/
def answer (p : Predicate) (n : Nat) (x : Object) : Except Fault Object :=
  match p, x with
  | .const v, _ => v.map .value
  | .equal v, x => v.map fun v => truth (isEqual x v)
  | .itself, x => .ok x
  | .field key v, .value (.dict entries) => do
    let found ← ((← key).lookUp entries).mapError Misuse.fault
    return truth ((found.getD .null).equals (← v))
  | .field _ _, _ => .ok (truth false)
  | .atLeast v, .value (.number m) => do
    return truth (← ((Value.number m).ge (← v)).mapError Misuse.fault)
  | .atLeast _, _ => .ok (truth false)
  | .contains part, x => do
    return truth (← (holdsText x (← part)).mapError Misuse.fault)
  | .onCalls numbers, _ => numbers.map fun numbers => truth (numbers.any (Value.equals (.int n)))
  | .raising e, _ => .error e

end Predicate

/-- A test given to an acceptor. -/
inductive Test where
  /-- A predicate with the place of its acceptor and a number of its own. -/
  | predicate (label id : Nat) (p : Predicate)
  | kinds (p : KindPattern)
  /-- A list of kinds, which is not a group. -/
  | kindList
  /-- A value, which cannot be called. -/
  | value (v : Value)

namespace Test

/-- Code that cannot be called. -/
def uncallable (typeName : String) : Matcher Bench := fun _ =>
  Code.lift (.error (.notCallable typeName))

/-- The whole number of an object; a fault has none. -/
def wholeOf : Object → Except Misuse Int
  | .value v => v.toWhole
  | .fault e => .error (.notNumeric e.kind.name)

/-- Calling a type with an object: whole numbers and texts are made of it, and faults about it. -/
def construct (type : FaultKind) (x : Object) : Except Misuse Object :=
  if type = .wholeNumber then (wholeOf x).map fun n => .value (.int n)
  else if type = .text then .ok (.value (.string x.display))
  else (FaultRequest.make { kind := type, args := [.string x.display] }).map .fault

/-- A test as something to call. -/
def called : Test → Matcher Bench
  | .predicate label id p => fun x => do
    Bench.mark (.predicate label)
    let n ← Bench.countCall id
    Code.onState fun b => (p.answer n x, b)
  | .kinds (.kind type) => fun x => Code.lift (construct type x)
  | .kinds (.group _) => uncallable "tuple"
  | .kinds (.other v) => uncallable v.typeName
  | .kindList => uncallable "list"
  | .value v => uncallable v.typeName

/-- A test of faults. -/
def ofFaults : Test → FaultTest Bench
  | .kinds p => .kinds p
  | t => .code t.called

end Test

end Polling.Scenario
