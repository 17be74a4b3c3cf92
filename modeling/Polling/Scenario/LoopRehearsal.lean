import Polling.Session
import Polling.Scenario.Deferral
import Polling.Scenario.Poll

/-!
# Rehearsing asynchronous executions

A rehearsal on a loop goes move by move: start an execution, let time pass, cancel, fire a kept call,
complete a promise. After each move the loop runs until nothing is ready, and a report tells what the
move led to: in each execution started so far, in the log, and on the loop.
-/

namespace Polling.Scenario

/-- A move of a rehearsal. Executions are meant by the order of their starting; places below zero
count from the latest. -/
inductive Move where
  | start (script : List Cue)
  /-- Start with no loop running. -/
  | startOutside (script : List Cue)
  | advance (span : Binary64)
  | cancel (part : Int)
  /-- Fire a kept call; places below zero count from the latest. -/
  | fire (place : Int)
  /-- Complete the promise that an operation of an execution left, by its place among them. The
  ending is made when it is needed, which may fail. -/
  | complete (part place : Int) (ending : Except Fault Ending)

/-- What a move answers. -/
inductive Reply where
  /-- The execution runs; is its promise settled already? -/
  | started (settled : Bool)
  /-- The execution could not be started. -/
  | refused (e : Fault)
  | silent
  /-- Something was completed. -/
  | completed
  /-- Was there something to cancel? -/
  | cancelled (done : Bool)
  /-- The promise was complete before. -/
  | already (ending : Ending)
  /-- What was meant is not there. -/
  | missing

/-- A rehearsal on a loop. -/
structure LoopRehearsal where
  session : Session Bench
  /-- The execution behind each start, if it came to one. -/
  parts : List (Option RunId) := []

/-- What one execution did in a move. -/
structure PartReport where
  /-- The promise, if somebody holds it. -/
  promise : Option Promise
  /-- How often the operation has been called since the start. -/
  calls : Nat
  marks : List Mark

/-- What a move led to. -/
structure MoveReport where
  reply : Reply
  escaped : List Fault
  unhandled : List Fault
  time : Binary64
  log : List String
  parts : List PartReport
  kept : List Kept

namespace LoopRehearsal

/-- A rehearsal that begins at a time. -/
def begin (time : Binary64) : LoopRehearsal :=
  { session := { loop := { time }, caller := { state := {} } } }

/-- How many callbacks a settling loop may run at most: each attempt takes a handful, and no
execution makes more attempts than the limit allows and calls are fired. -/
def bound (w : Waiter Bench) (r : LoopRehearsal) : Nat :=
  16 * (w.strategy.limit + 2) * (r.parts.length + 1) + 64

/-- Run what is ready. -/
def settle (w : Waiter Bench) (r : LoopRehearsal) : LoopRehearsal :=
  { r with session := (Session.host (asynchronous w)).settle (bound w r) r.session }

/-- Change the bench. -/
def onBench (r : LoopRehearsal) (f : Bench → Bench) : LoopRehearsal :=
  { r with session := { r.session with caller :=
    { r.session.caller with state := f r.session.caller.state } } }

/-- The bench. -/
def bench (r : LoopRehearsal) : Bench := r.session.caller.state

/-- The execution of a part, if it came to one. -/
def runOf (r : LoopRehearsal) (part : Int) : Option RunId := (itemAt? r.parts part).bind id

/-- The execution of a part, if somebody holds its promise. -/
def heldRun (r : LoopRehearsal) (part : Int) : Option RunId :=
  (r.runOf part).filter r.bench.held.contains

/-- Start an execution. Its promise is held only if it could be started. -/
def start (w : Waiter Bench) (script : List Cue) (r : LoopRehearsal) : Reply × LoopRehearsal :=
  let run := r.session.runs.length
  let r := r.onBench fun b => { b with scripts := (run, script) :: b.scripts }
  let (result, session) := Session.start (asynchronous w) r.session
  let r := { r with session, parts := r.parts ++ [some run] }
  match result with
  | .error e => (.refused e, r)
  | .ok () =>
    (.started ((session.runs[run]?).any (·.promise.isSettled)),
      r.onBench fun b => { b with held := run :: b.held })

/-- Complete a promise that an operation left. An ending that cannot be made, or that a promise
cannot carry, breaks the rehearsal off. -/
def complete (part place : Int) (ending : Except Fault Ending) (r : LoopRehearsal) :
    Except Fault (Reply × LoopRehearsal) :=
  match (r.runOf part).bind fun run => r.bench.promised? run place with
  | none => .ok (.missing, r)
  | some p =>
    match r.session.ending? p, ending with
    | some _, .ok .cancelled => .ok (.cancelled false, r)
    | some before, _ => .ok (.already before, r)
    | none, .error e => .error e
    | none, .ok .cancelled => .ok (.cancelled true, finished p .cancelled)
    | none, .ok (.value v) => .ok (.completed, finished p (.value v))
    | none, .ok (.fault e) =>
      match Promise.ofFault e with
      | .ok _ => .ok (.completed, finished p (.fault e))
      | .error m => .error m.fault
where
  /-- A poll ends. -/
  finished (p : PollId) (ending : Ending) : LoopRehearsal :=
    { r with session := (r.session.serve 0 (Bench.finish p ending)).2 }

/-- Make a move and let the loop settle. -/
def move (w : Waiter Bench) (m : Move) (r : LoopRehearsal) : Except Fault (Reply × LoopRehearsal) :=
  match m with
  | .start script =>
    let (reply, r) := r.start w script
    .ok (reply, r.settle w)
  | .startOutside _ =>
    match r.session.startOutside with
    | (.error e, session) => .ok (.refused e, { r with session, parts := r.parts ++ [none] })
    | (.ok (), session) => .ok (.silent, { r with session, parts := r.parts ++ [none] })
  | .advance span =>
    .ok (.silent, { r with session :=
      (Session.host (asynchronous w)).advance (bound w r) span r.session })
  | .cancel part =>
    match r.heldRun part with
    | none => .ok (.missing, r)
    | some run =>
      let (done, session) := r.session.cancel run
      .ok (.cancelled done, { r with session }.settle w)
  | .fire place =>
    match itemAt? r.bench.kept place with
    | none => .ok (.missing, r)
    | some k => .ok (.silent, { r with session := r.session.answer (.fire k.run) }.settle w)
  | .complete part place ending => do
    let (reply, r) ← r.complete part place ending
    return (reply, r.settle w)

/-- How often the operation of an execution was called. -/
def callsOf (b : Bench) (run : RunId) : Nat :=
  (b.marks.filter fun | (r, .call _) => r == run | _ => false).length

/-- What an execution did since the bench was as `before`. -/
def partReport (before : Bench) (r : LoopRehearsal) (part : Option RunId) : PartReport :=
  match part with
  | none => ⟨none, 0, []⟩
  | some run =>
    { promise :=
        if r.bench.held.contains run then (r.session.runs[run]?).map (·.promise) else none
      calls := callsOf r.bench run
      marks := ((r.bench.marks.drop before.marks.length).filter (·.1 == run)).map (·.2) }

/-- What a move led to, from the rehearsal before it and after it. -/
def report (reply : Reply) (before after : LoopRehearsal) : MoveReport :=
  let s := after.session
  { reply
    escaped := s.escaped.drop before.session.escaped.length
    unhandled := s.unhandled.drop before.session.unhandled.length
    time := s.loop.time
    log := logOf ((s.journal.drop before.session.journal.length).map (·.2))
    parts := after.parts.map (partReport before.bench after)
    kept := after.bench.kept }

/-- Make moves one after the other and report what each led to. A move is put together when it is to
be made; if that fails, the rehearsal is broken off. -/
def steps (w : Waiter Bench) (r : LoopRehearsal) :
    List (Except Fault Move) → Except Fault (List MoveReport)
  | [] => .ok []
  | m :: rest => do
    let (reply, after) ← r.move w (← m)
    return report reply r after :: (← steps w after rest)

end LoopRehearsal

end Polling.Scenario
