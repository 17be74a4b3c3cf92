import Polling.Act

/-!
# Acceptors

An acceptor examines either the values or the faults of polls and names the verdict to reach when its
matcher accepts one. A list of acceptors is asked in order and the first match decides.

* `Acceptor.accepts`: an acceptor for the other sort of outcome does not match, and its matcher is
  not called;
* `decide`: the verdict of the first acceptor that matches, if one does.
-/

namespace Polling

/-- Which outcomes an acceptor examines. -/
inductive Subject where
  | value
  | fault
deriving DecidableEq, Repr, Inhabited

namespace Subject

/-- The word for a subject in a configuration. -/
def word : Subject → String
  | .value => "value"
  | .fault => "exception"

/-- The subject a word stands for. -/
def ofWord (given : Value) : Except Misuse Subject :=
  match given with
  | .string "value" => .ok .value
  | .string "exception" => .ok .fault
  | v => .error (.notASubject v)

/-- Does the outcome belong to the subject? -/
def fits : Subject → Outcome → Bool
  | .value, .returned _ => true
  | .fault, .raised _ => true
  | _, _ => false

end Subject

/-- A test of the caller's. Its answer is read as a truth value. -/
abbrev Matcher (σ : Type) := Object → Code σ Object

/-- A matcher for one sort of outcome, with the verdict it stands for. -/
structure Acceptor (σ : Type) where
  verdict : Verdict
  subject : Subject
  matcher : Matcher σ

namespace Acceptor

/-- An acceptor of values. -/
def onValue (verdict : Verdict) (m : Matcher σ) : Acceptor σ := ⟨verdict, .value, m⟩

/-- An acceptor of faults. -/
def onFault (verdict : Verdict) (m : Matcher σ) : Acceptor σ := ⟨verdict, .fault, m⟩

/-- Does the acceptor at a position of its list match an outcome? -/
def accepts (a : Acceptor σ) (position : Nat) (o : Outcome) : Act σ Bool :=
  if a.subject.fits o then do
    let answer ← Act.call (.examined position o.payload) (a.matcher o.payload)
    return answer.truthy
  else return false

/-- What an acceptor says and examines. -/
def described (a : Acceptor σ) : String := a.verdict.word ++ "/" ++ a.subject.word

end Acceptor

/-- The verdict of the first acceptor that matches, the list starting at a position. -/
def decideFrom (position : Nat) : List (Acceptor σ) → Outcome → Act σ (Option Verdict)
  | [], _ => do
    Act.note .unmatched
    return none
  | a :: rest, o => do
    if ← a.accepts position o then
      Act.note (.matched a.verdict)
      return some a.verdict
    else decideFrom (position + 1) rest o

/-- The verdict of the first acceptor that matches an outcome, or nothing if none does. -/
def decide (acceptors : List (Acceptor σ)) (o : Outcome) : Act σ (Option Verdict) :=
  decideFrom 0 acceptors o

end Polling
