import Polling.Acceptor.Kinds

/-!
# Acceptors for web requests

Responses are accepted by their status code, which has to be among the codes given; of the values
only a real response has one. Status errors are accepted by the code of their response, or all of
them if no code is given, and faults of the transport by their kind.
-/

namespace Polling

namespace Acceptor

/-- Is a status code among the codes given? -/
def hasCode (codes : List Value) (status : Int) : Bool := codes.any (Value.equals (.int status))

/-- A test for responses with one of the codes. -/
def statusMatcher (codes : List Value) : Matcher σ
  | .value (.response status) => pure (.value (.flag (hasCode codes status)))
  | _ => pure (.value (.flag false))

/-- An acceptor of responses by status code; at least one code is needed. -/
def onStatus (verdict : Verdict) (codes : List Value) : Except Misuse (Acceptor σ) :=
  if codes.isEmpty then .error .noStatusCodes else .ok (.onValue verdict (statusMatcher codes))

/-- A test for status errors with one of the codes, or for all of them if there is no code. -/
def statusErrorMatcher (codes : List Value) : Matcher σ
  | .fault (.status _ code) => pure (.value (.flag (codes.isEmpty || hasCode codes code)))
  | _ => pure (.value (.flag false))

/-- Poll again after a status error. -/
def retryOnStatusError (codes : List Value) : Acceptor σ :=
  .onFault .retry (statusErrorMatcher codes)

/-- Poll again after a fault of the transport. -/
def retryOnTransportError : Acceptor σ := .onFaultTest .retry (.kinds (.kind .transport))

end Acceptor

/-- A sort of acceptor for web requests. -/
inductive WebRule where
  /-- By the status code of a response. -/
  | status (verdict : Verdict)
  /-- By the status code that a status error reports. -/
  | statusError
  /-- By the kind of a fault of the transport. -/
  | transportError
deriving DecidableEq, Repr

/-- The acceptor of a sort with codes; faults of the transport have none. -/
def WebRule.acceptor (r : WebRule) (codes : List Value) : Except Misuse (Acceptor σ) :=
  match r with
  | .status verdict => Acceptor.onStatus verdict codes
  | .statusError => .ok (.retryOnStatusError codes)
  | .transportError =>
    if codes.isEmpty then .ok .retryOnTransportError
    else .error (.takesNoArguments "retry_on_transport_error" codes.length)

end Polling
