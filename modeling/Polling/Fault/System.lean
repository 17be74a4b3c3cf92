import Polling.Fault.Misuse

/-!
# Faults of the operating system

The operating system gives a reason for what it refuses, by a number and a wording. The general kind
of such faults gives way to the kind that the number stands for. A fault that names what it concerns,
one thing or two, keeps it apart from its arguments.
-/

namespace Polling

namespace FaultKind

/-- The kind of fault that reports a reason by its number. -/
def ofReason : Int → FaultKind
  | 1 | 13 => permission
  | 2 => fileNotFound
  | 3 => processLookup
  | 4 => interruptedCall
  | 10 => childProcess
  | 11 | 114 | 115 => blocking
  | 17 => fileExists
  | 20 => notDirectory
  | 21 => isDirectory
  | 32 | 108 => brokenPipe
  | 103 => connectionAborted
  | 104 => connectionReset
  | 110 => timeout
  | 111 => connectionRefused
  | _ => system

/-- The kind that a fault asked for by a kind has once the number of its reason is known. -/
def refined (asked : FaultKind) (number : Value) : FaultKind :=
  if asked = system then ((number.number?.bind Number.whole?).map ofReason).getD system else asked

end FaultKind

namespace Fault

/-- Check a count of what was written before a call would have blocked. -/
def checkCount (n : Number) : Except Misuse Unit :=
  match n.whole? with
  | none => .error (.notCountable (Value.number n).typeName)
  | some count => if Number.fitsWord count then .ok () else .error .countTooLarge

/-- A fault of the operating system from its arguments. Of two to five of them, the first two are the
reason, and the third and the fifth are what it concerns. A call that would have blocked may have a
count in the third place, which concerns nothing. -/
def ofSystem (asked : FaultKind) (args : List Value) : Except Misuse Fault :=
  match args with
  | number :: reason :: further =>
    if 3 < further.length then .ok (.plain asked args)
    else
      let kind := asked.refined number
      match further with
      | [] | .null :: _ => .ok (.system kind number reason further [])
      | first :: rest =>
        match kind.isA .blocking, first.number? with
        | true, some n => do
          checkCount n
          return .system kind number reason further []
        | _, _ => .ok (.system kind number reason [] (first :: (rest.drop 1).filter (!·.isNull)))
  | _ => .ok (.plain asked args)

end Fault

end Polling
