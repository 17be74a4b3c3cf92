import Polling.EventLoop
import Polling.Execution

/-!
# Asynchronous executions on one loop

A session is an event loop with the executions that were started on it. It runs their callbacks,
carries out the orders they leave and the requests of the caller's code, and keeps a journal of what
each execution did.

A poll ends once. An execution that watches it is called back through the queue, also if the poll had
ended before.

A fault that leaves a callback does not stop the loop, except that a stop request breaks the current
turn off. The session keeps both sorts.
-/

namespace Polling

/-- What the loop of a session runs. -/
inductive Callback where
  /-- Something the caller put on the loop, or a timer of the loop's own. -/
  | errand (e : Errand)
  | attempt (run : RunId)
  | pollEnded (run : RunId) (ending : Ending)
  | settled (run : RunId)
deriving Repr

/-- Executions on an event loop. -/
structure Session (σ : Type) where
  loop : EventLoop Callback
  caller : Caller σ
  /-- The executions in the order of starting. -/
  runs : List Execution := []
  ended : List (PollId × Ending) := []
  watched : List (PollId × RunId) := []
  /-- What happened, and in which execution. -/
  journal : List (RunId × Event) := []
  /-- Stop requests that left the loop. -/
  escaped : List Fault := []
  /-- Other faults that left a callback. -/
  unhandled : List Fault := []

namespace Session

/-- Queue a callback. -/
def soon (s : Session σ) (k : Callback) : Session σ := { s with loop := s.loop.soon k }

/-- Enter an event into the journal of an execution. -/
def enter (s : Session σ) (run : RunId) (e : Event) : Session σ :=
  { s with journal := s.journal ++ [(run, e)] }

/-- The delay of an execution is over: its next attempt is queued. Nothing calls back an execution that
was not started. -/
def fire (s : Session σ) (run : RunId) : Session σ :=
  if run < s.runs.length then (s.enter run .fired).soon (.attempt run) else s

/-- How a poll has ended, if it has. -/
def ending? (s : Session σ) (poll : PollId) : Option Ending :=
  (s.ended.find? (·.1 == poll)).map (·.2)

/-- A poll ends, unless it has ended before. Whoever watches it is called back. -/
def finish (s : Session σ) (poll : PollId) (ending : Ending) : Session σ :=
  match s.ending? poll with
  | some _ => s
  | none =>
    let watchers := s.watched.filter (·.1 == poll)
    watchers.foldl (fun s (_, run) => s.soon (.pollEnded run ending))
      { s with
        ended := s.ended ++ [(poll, ending)]
        watched := s.watched.filter (·.1 != poll) }

/-- An execution is called back when a poll has ended. -/
def watch (s : Session σ) (run : RunId) (poll : PollId) : Session σ :=
  match s.ending? poll with
  | some ending => s.soon (.pollEnded run ending)
  | none => { s with watched := s.watched ++ [(poll, run)] }

/-- Cancel the promise of an execution. Was it still pending? -/
def cancel (s : Session σ) (run : RunId) : Bool × Session σ :=
  match s.runs[run]? with
  | some x =>
    if x.promise.isSettled then (false, s)
    else
      (true, { s with runs := s.runs.set run { x with promise := .cancelled } }.soon (.settled run))
  | none => (false, s)

/-- Is a callback this errand? -/
def isErrand (e : Errand) : Callback → Bool
  | .errand e' => e == e'
  | _ => false

/-- Carry out a request. -/
def answer (s : Session σ) : Request → Session σ
  | .cancel run => (s.cancel run).2
  | .fire run => s.fire run
  | .finish poll ending => s.finish poll ending
  | .soon e => s.soon (.errand e)
  | .later delay e => { s with loop := s.loop.later delay (.errand e) }
  | .drop e => { s with loop := s.loop.drop (isErrand e) }

/-- Carry out an order of an execution. -/
def obey (s : Session σ) (run : RunId) : Order → Session σ
  | .settled => s.soon (.settled run)
  | .watch poll => s.watch run poll
  | .timer delay => { s with loop := s.loop.later delay (.errand (.fire run)) }
  | .stopTimer => { s with loop := s.loop.drop (isErrand (.fire run)) }
  | .request r => s.answer r

/-- Run code of the caller's that serves an execution, and carry out what it asks for. -/
def serve (s : Session σ) (run : RunId) (c : Code σ α) : Except Fault α × Session σ :=
  let (result, caller) := c { s.caller with serving := run }
  (result, caller.requests.foldl answer { s with caller := { caller with requests := [] } })

/-- Run a callback of an execution, and carry out its orders. -/
def step (s : Session σ) (run : RunId) (body : Step σ Unit) : Except Fault Unit × Session σ :=
  match s.runs[run]? with
  | none => (.ok (), s)
  | some execution =>
    let world : World σ := { caller := { s.caller with serving := run } }
    let (result, frame) := body { world, execution }
    let s := { s with
      caller := frame.world.caller
      runs := s.runs.set run frame.execution
      journal := s.journal ++ frame.world.history.map (run, ·) }
    (result, frame.orders.foldl (obey · run) s)

/-- Keep a fault that left a callback. -/
def report (s : Session σ) (e : Fault) : Session σ :=
  if e.stopsLoop then { s with escaped := s.escaped ++ [e], loop := s.loop.breakOff }
  else { s with unhandled := s.unhandled ++ [e] }

/-- Run a callback and keep the fault that leaves it, if one does. -/
def perform (a : Asynchronous σ) (k : Callback) (s : Session σ) : Session σ :=
  let (result, s) : Except Fault Unit × Session σ :=
    match k with
    | .errand (.fire run) => (.ok (), s.fire run)
    | .errand (.resume poll) => s.serve 0 (a.resume poll)
    | .errand (.wake poll) => s.serve 0 (a.wake poll)
    | .attempt run => s.step run (a.attempt run s.loop.time)
    | .pollEnded run ending =>
      (s.enter run (.ended ending)).step run (a.pollEnded run s.loop.time ending)
    | .settled run => s.step run a.settled
  match result with
  | .ok () => s
  | .error e => s.report e

/-- A session as the host of its loop. -/
def host (a : Asynchronous σ) : Host (Session σ) Callback where
  loop s := s.loop
  withLoop s loop := { s with loop }
  perform := perform a

/-- Start an execution: its first attempt runs at once. A fault that leaves it goes to the starter,
who then has no promise. -/
def start (a : Asynchronous σ) (s : Session σ) : Except Fault Unit × Session σ :=
  let run := s.runs.length
  let fresh : Execution := { started := .real s.loop.time }
  { s with runs := s.runs ++ [fresh] }.step run (a.attempt run s.loop.time)

/-- Start an execution with no loop running, which is refused. -/
def startOutside (s : Session σ) : Except Fault Unit × Session σ :=
  (.error Misuse.noRunningLoop.fault, s)

end Session

end Polling
