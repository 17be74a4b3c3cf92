import Polling.Fault.System

/-!
# Making faults from their arguments

A caller makes a fault by naming its kind and giving arguments by place and by name. Faults of
polling take a message and optionally the number of attempts, and the one about the limit takes the
limit too; faults of web requests take a message, and a status error the response it is about.
Arguments that do not fit are a misuse. What is given by name is looked at first, then the number of
arguments, then what is missing.
-/

namespace Polling

/-- A request for a fault. -/
structure FaultRequest where
  kind : FaultKind
  args : List Value := []
  /-- Arguments given by name. -/
  named : List (String × Value) := []
  /-- The status code of the response that a status error is about. -/
  status : Option Int := none

namespace FaultRequest

/-- The parameters of a constructor, how many of them are required, and what it takes only by
name. -/
structure Signature where
  owner : String
  parameters : List String
  required : Nat
  namedOnly : List String := []

/-- The parameters of the constructor for a kind; most kinds take anything. -/
def signature? (kind : FaultKind) : Option Signature :=
  if kind.isA .retriesExhausted then
    some ⟨"RetriesExhaustedError", ["message", "max_attempts", "attempts"], 2, []⟩
  else if kind.isA .wait then some ⟨"WaiterError", ["message", "attempts"], 1, []⟩
  else if kind.isA .httpStatus then
    some ⟨"HTTPStatusError", ["message"], 1, ["request", "response"]⟩
  else if kind.isA .request then some ⟨"RequestError", ["message"], 1, []⟩
  else if kind.isA .http then some ⟨"HTTPError", ["message"], 1, []⟩
  else if kind.isA .invalidAddress then some ⟨"InvalidURL", ["message"], 1, []⟩
  else none

/-- What a request gives by name only: a status error's response comes with what it answers. -/
def namedOnlyGiven (s : Signature) (status : Option Int) : List String :=
  if status.isSome then s.namedOnly else []

/-- The value for each parameter, if one is given. -/
def bind (s : Signature) (r : FaultRequest) : Except Misuse (List (Option Value)) := do
  for (name, _) in r.named do
    match s.parameters.findIdx? (· == name) with
    | none => throw (.argumentUnknown s.owner name)
    | some place => if place < r.args.length then throw (.argumentTwice s.owner name)
  if s.parameters.length < r.args.length then
    throw (.argumentsSurplus s.owner (s.required + 1) (s.parameters.length + 1)
      (r.args.length + 1) (namedOnlyGiven s r.status).length)
  let given := s.parameters.zipIdx.map fun (name, place) =>
    r.args[place]? <|> (r.named.find? (·.1 == name)).map (·.2)
  let missing := (s.parameters.zip given).take s.required |>.filter (·.2.isNone)
  if !missing.isEmpty then throw (.argumentsMissing s.owner (missing.map (·.1)))
  return given

/-- The fault that a request asks for. -/
def make (r : FaultRequest) : Except Misuse Fault :=
  match signature? r.kind with
  | none =>
    if r.kind.isA .system then Fault.ofSystem r.kind r.args else .ok (.plain r.kind r.args)
  | some s => do
    let given ← bind s r
    let message := (given.head?.bind id).getD .null
    if r.kind.isA .retriesExhausted then
      return .waiting r.kind message ((given[2]?.bind id).getD .null) (given[1]?.bind id) none
    else if r.kind.isA .wait then
      return .waiting r.kind message ((given[1]?.bind id).getD .null) none none
    else if r.kind.isA .httpStatus then
      match r.status with
      | some code => return .status [message] code
      | none => throw (.namedMissing s.owner s.namedOnly)
    else return .plain r.kind [message]

end FaultRequest

end Polling
