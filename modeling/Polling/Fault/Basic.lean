import Polling.Fault.Kind
import Polling.Value.Printer

/-!
# Faults

A fault is what an operation or any code of the caller's raises instead of returning. Besides its
kind it keeps the values it was raised with. Faults of the operating system keep the number and the
wording of a reason and the things concerned. Faults of polling itself keep a message, the number of
attempts made, sometimes the attempt limit, and the fault that led to them.
-/

namespace Polling

/-- A raised fault. -/
inductive Fault where
  /-- A fault with the values it was raised with. -/
  | plain (kind : FaultKind) (args : List Value)
  /-- The operating system refused something, for a reason with a number and a wording. Further values
  may come with it, or up to two things concerned. -/
  | system (kind : FaultKind) (number reason : Value) (further concerned : List Value)
  /-- A web response reported an error by its status code. -/
  | status (args : List Value) (code : Int)
  /-- A wait ended without success. -/
  | waiting (kind : FaultKind) (message attempts : Value) (limit : Option Value)
      (cause : Option Fault)
deriving Repr, Inhabited

namespace Fault

/-- The kind of a fault. -/
def kind : Fault → FaultKind
  | .plain k _ => k
  | .system k _ _ _ _ => k
  | .status _ _ => .httpStatus
  | .waiting k _ _ _ _ => k

/-- The values a fault was raised with. -/
def args : Fault → List Value
  | .plain _ as => as
  | .system _ number reason further _ => number :: reason :: further
  | .status as _ => as
  | .waiting _ message _ _ _ => [message]

/-- Is the fault of a kind, or of a specialisation of it? -/
def isA (e : Fault) (k : FaultKind) : Bool := e.kind.isA k

/-- Faults that are judged and handled; the others are requests to stop and pass through. -/
def isOrdinary (e : Fault) : Bool := e.isA .ordinary

/-- A stop request that leaves an event loop instead of being reported by it. -/
def stopsLoop (e : Fault) : Bool := e.isA .keyboardInterrupt || e.isA .systemExit

/-- A fault as it is shown inside other text: its kind and its values. -/
def shown (e : Fault) : String :=
  e.kind.name ++ "(" ++ ", ".intercalate (e.args.map Value.shown) ++ ")"

/-- What a fault of the operating system concerns, behind its reason. -/
def concerning : List Value → String
  | [] => ""
  | vs => ": " ++ " -> ".intercalate (vs.map Value.shown)

/-- A fault on its own: the value it was raised with, several of them in brackets. A missing key is
shown in quotes. A fault of the operating system gives its reason and what it concerns. -/
def text (e : Fault) : String :=
  match e with
  | .system _ number reason _ concerned =>
    "[Errno " ++ number.display ++ "] " ++ reason.display ++ concerning concerned
  | _ =>
    match e.args with
    | [] => ""
    | [v] => if e.isA .key then v.shown else v.display
    | vs => "(" ++ ", ".intercalate (vs.map Value.shown) ++ ")"

/-- A fault raised with one text. -/
def withText (k : FaultKind) (message : String) : Fault := .plain k [.string message]

end Fault

end Polling
