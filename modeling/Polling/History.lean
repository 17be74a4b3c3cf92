import Polling.Response

/-!
# What a wait does, as a history

A wait keeps a record of everything it does, in order: each call of code supplied by the caller, with
its arguments, and each note it writes to the log. A wait on an event loop also enters what it is
called back for, the end of a poll and the end of a delay, and the handles that it is left.
`Event.note?` picks out the lines of the log, and `Event.delay?` what is spent between attempts.
-/

namespace Polling

/-- What an operation leaves running, by a number of the caller's choosing. -/
abbrev PollId := Nat

/-- The number by which a scheduler of the caller's knows something it has scheduled. -/
abbrev HandleId := Nat

/-- What a wait keeps to cancel a scheduled attempt. -/
inductive Handle where
  /-- A timer of the loop. -/
  | timer
  /-- A handle of the caller's scheduler. -/
  | custom (id : HandleId)
deriving DecidableEq, Repr

/-- What an acceptor that matches says about the wait. -/
inductive Verdict where
  /-- The awaited state is reached. -/
  | success
  /-- It is not reached yet. -/
  | retry
  /-- It will never be reached. -/
  | failure
deriving DecidableEq, Repr, Inhabited

namespace Verdict

/-- The name of a verdict in the log. -/
def name : Verdict → String
  | .success => "SUCCESS"
  | .retry => "RETRY"
  | .failure => "FAILURE"

/-- The word for a verdict in a configuration. -/
def word : Verdict → String
  | .success => "success"
  | .retry => "retry"
  | .failure => "failure"

/-- The verdict a word stands for. -/
def ofWord (given : Value) : Except Misuse Verdict :=
  match given with
  | .string "success" => .ok .success
  | .string "retry" => .ok .retry
  | .string "failure" => .ok .failure
  | v => .error (.notAVerdict v)

end Verdict

/-- Told before a poll. -/
structure AttemptInfo where
  attempt : Value
  limit : Value
deriving Repr

/-- Told after a poll that did not end the wait: the delay before the next one and what the poll
left. -/
structure RetryInfo where
  attempt : Value
  limit : Value
  delay : Value
  value : Value
  fault : Option Fault
deriving Repr

/-- Told when the wait succeeds, with the time since it began. -/
structure SuccessInfo where
  attempt : Value
  limit : Value
  response : Response
  elapsed : Value
deriving Repr

/-- Told when the wait fails: the fault that reports it, if there is one, and the time since the wait
began. -/
structure FailureInfo where
  attempt : Value
  limit : Value
  fault : Option Fault
  elapsed : Value
deriving Repr

/-- A call of one of the caller's hooks. -/
inductive Notice where
  | attempt (info : AttemptInfo)
  | retry (info : RetryInfo)
  | success (info : SuccessInfo)
  | failure (info : FailureInfo)
deriving Repr

/-- A line of the log. -/
inductive Note where
  | executing (attempt limit : Nat)
  | matched (verdict : Verdict)
  | unmatched
  | exhausted (limit : Nat)
  /-- The delay is given as it is written. -/
  | retrying (attempt : Value) (limit : Nat) (delay : String)
  | failed (attempt : Nat) (reason : Reason)
  /-- The delay is given as it is written. -/
  | scheduling (delay : String)
  | notScheduling
  | skipping
  | ignoring (attempt : Nat)
  | pollCancelled (attempt : Nat)
  | cancelled (attempt : Nat)
deriving Repr

/-- The wording of a line of the log. -/
def Note.text : Note → String
  | .executing attempt limit => s!"Executing attempt {attempt}/{limit}"
  | .matched verdict => s!"Outcome matched acceptor with state {verdict.name}"
  | .unmatched => "Outcome did not match any acceptor"
  | .exhausted limit => s!"Waiter exhausted its {limit} attempts"
  | .retrying attempt limit delay =>
    s!"Attempt {attempt.display}/{limit} not accepted, retrying in {delay}s"
  | .failed attempt reason => s!"Waiter failed after {attempt} attempts: {reason.message}"
  | .scheduling delay => s!"Scheduling callback in {delay}s"
  | .notScheduling => "Not scheduling next attempt: waiter already completed"
  | .skipping => "Skipping scheduled attempt: waiter already completed"
  | .ignoring attempt => s!"Ignoring result of attempt {attempt}: waiter already completed"
  | .pollCancelled attempt => s!"Attempt {attempt} was cancelled, cancelling the waiter"
  | .cancelled attempt => s!"Waiter cancelled after {attempt} attempts"

/-- An entry of a history. -/
inductive Event where
  /-- A line is written to the log. -/
  | note (note : Note)
  /-- A hook is called. -/
  | notice (notice : Notice)
  /-- The operation is called for an attempt. -/
  | polled (attempt : Nat)
  /-- The matcher at a position of the list of acceptors is called. -/
  | examined (position : Nat) (payload : Object)
  /-- The backoff is asked for the delay after an attempt. -/
  | asked (attempt : Value)
  /-- The wait sleeps. -/
  | slept (delay : Number)
  /-- The wait sleeps unless a signal cuts it short. -/
  | watched (delay : Number)
  /-- The next attempt is handed to a scheduler. -/
  | scheduled (delay : Number)
  /-- The scheduler has left a handle for the attempt handed to it. -/
  | held (handle : Handle)
  /-- The scheduler calls back. -/
  | fired
  /-- A poll that the wait has watched is over. -/
  | ended (ending : Ending)
  /-- A scheduled attempt is cancelled by its handle. -/
  | withdrawn (handle : Handle)
  /-- A poll is told to stop. -/
  | stopped (poll : PollId)
deriving Repr

namespace Event

/-- The line of the log that an entry is. -/
def note? : Event → Option Note
  | .note n => some n
  | _ => none

/-- The delay that an entry spends, by whatever means, before the next attempt. -/
def delay? : Event → Option Number
  | .slept d => some d
  | .watched d => some d
  | .scheduled d => some d
  | _ => none

end Event

/-- The lines that a history writes to the log. -/
def logOf (history : List Event) : List String := (history.filterMap Event.note?).map Note.text

end Polling
