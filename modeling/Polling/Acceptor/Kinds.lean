import Polling.Acceptor.Basic

/-!
# Acceptors by the kind of a fault

Faults are often accepted by their kind: by one kind or by any of several, given as a nested group.
A group is looked through from left to right, its own groups in their turn, and the first kind that
the fault is of settles the match; an entry that is no kind is noticed only when it is reached.

* `KindPattern.accepts`: the look-up in a nested group;
* `KindPattern.flatten`: the entries of a group in the order in which they are looked at.
-/

namespace Polling

/-- A kind, a group of patterns, or something that is neither. -/
inductive KindPattern where
  | kind (k : FaultKind)
  | group (patterns : List KindPattern)
  | other (v : Value)
deriving Repr

/-- The kind of an object. A value has a kind of its own, which is no kind of fault. -/
def Object.kind : Object → FaultKind
  | .value v => .ofType v.typeName
  | .fault e => e.kind

namespace KindPattern

mutual

/-- Does a kind of fault match a pattern? Reaching something that is no kind is a misuse. -/
def accepts (found : FaultKind) : KindPattern → Except Misuse Bool
  | .kind k => .ok (found.isA k)
  | .group ps => anyAccepts found ps
  | .other _ => .error .notAKind

/-- Does a kind of fault match one of several patterns? They are tried in order up to the first
match. -/
def anyAccepts (found : FaultKind) : List KindPattern → Except Misuse Bool
  | [] => .ok false
  | p :: ps =>
    match accepts found p with
    | .ok false => anyAccepts found ps
    | settled => settled

end

mutual

/-- The entries of a pattern from left to right; an entry that is no kind is `none`. -/
def flatten : KindPattern → List (Option FaultKind)
  | .kind k => [some k]
  | .group ps => flattenAll ps
  | .other _ => [none]

/-- The entries of several patterns from left to right. -/
def flattenAll : List KindPattern → List (Option FaultKind)
  | [] => []
  | p :: ps => flatten p ++ flattenAll ps

end

/-- The matcher for a pattern. -/
def matcher (p : KindPattern) : Matcher σ := fun found =>
  Code.lift (return .value (.flag (← accepts found.kind p)))

end KindPattern

/-- What a caller gives as a test of faults: code, or a pattern of kinds. -/
inductive FaultTest (σ : Type) where
  | code (m : Matcher σ)
  | kinds (p : KindPattern)

/-- The matcher that a test of faults stands for. -/
def FaultTest.asMatcher : FaultTest σ → Matcher σ
  | .code m => m
  | .kinds p => p.matcher

/-- An acceptor of faults by code or by kind. -/
def Acceptor.onFaultTest (verdict : Verdict) (t : FaultTest σ) : Acceptor σ :=
  .onFault verdict t.asMatcher

end Polling
