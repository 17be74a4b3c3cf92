import Polling.Execution
import Polling.Scenario.Bench
import Polling.Value.Order

/-!
# Polls that go on after the call

An operation on an event loop leaves a poll running. The polls of a bench follow a plan: a body that
may sleep on the loop, a value that is there at once, or a promise that somebody completes.

A body goes on only when the loop lets it, so a poll that is asked to stop before its first turn
never begins. One that is asked while it sleeps learns of it in its next turn and may ignore it.
-/

namespace Polling.Scenario

namespace Bench

/-- Change how far a poll has come. -/
def setStage (p : PollId) (stage : Stage) : Code Bench Unit :=
  Code.change fun b => { b with polls := b.polls.modify p ({ · with stage }) }

/-- A poll ends. -/
def finish (p : PollId) (ending : Ending) : Code Bench Unit := do
  setStage p .done
  Code.ask (.finish p ending)

/-- A poll is queued to go on. -/
def goOn (p : PollId) : Code Bench Unit := do
  setStage p .queued
  Code.ask (.soon (.resume p))

/-- A body comes to its end. The end of an iteration is reported as another fault, and a stop
request also leaves the turn in which it is raised. -/
def endBody (p : PollId) : BodyEnd → Code Bench Unit
  | .returns v => finish p (.value v)
  | .cancels => finish p .cancelled
  | .raises e =>
    if e.isA .cancelled then finish p .cancelled
    else if e.isA .stopIteration then
      finish p (.fault (.withText .runtime "coroutine raised StopIteration"))
    else do
      finish p (.fault e)
      if e.stopsLoop then raise e else pure ()

/-- How long a value asks to sleep, nothing meaning a sleep that only lets others go first. -/
def sleepSpan? (v : Value) : Except Misuse (Option Binary64) := do
  if ← v.le (.int 0) then return none
  else
    match v.number?.bind Number.toReal? with
    | some span => return some span
    | none => .error .integerTooLarge

/-- A body begins: it sleeps, or comes to its end. What is no length of a sleep ends it. -/
def beginBody (p : PollId) (sleep : Option Value) (ending : BodyEnd) : Code Bench Unit :=
  match sleep.map sleepSpan? with
  | none => endBody p ending
  | some (.error m) => endBody p (.raises m.fault)
  | some (.ok none) => goOn p
  | some (.ok (some span)) => do
    setStage p .sleeping
    Code.ask (.later span (.wake p))

/-- Let a poll go on. -/
def resume (p : PollId) : Code Bench Unit := do
  match ← Code.read (·.polls[p]?) with
  | none => pure ()
  | some r =>
    match r.stage, r.plan with
    | .done, _ => pure ()
    | _, .promise => pure ()
    | _, .immediate v => finish p (if r.stopped then .cancelled else .value v)
    | .unstarted, .body sleep _ ending =>
      if r.stopped then finish p .cancelled
      else do
        markFor r.run (.body r.call)
        beginBody p sleep ending
    | _, .body _ swallows ending =>
      if r.stopped then do
        Code.ask (.drop (.wake p))
        markFor r.run (.bodyCancelled r.call)
        if swallows then endBody p ending else finish p .cancelled
      else endBody p ending

/-- The sleep of a poll is over. -/
def wake (p : PollId) : Code Bench Unit := do
  match ← Code.read (·.polls[p]?) with
  | none => pure ()
  | some r => if r.stage = .sleeping then goOn p else pure ()

/-- Ask a poll to stop. A promise is cancelled at once. -/
def stop (p : PollId) : Code Bench Unit := do
  match ← Code.read (·.polls[p]?) with
  | none => pure ()
  | some r =>
    match r.plan, r.stage with
    | _, .done => pure ()
    | .promise, _ => finish p .cancelled
    | _, stage => do
      Code.change fun b => { b with polls := b.polls.modify p ({ · with stopped := true }) }
      if stage = .sleeping then goOn p else pure ()

/-- Leave a poll running. -/
def leave (r : Running) : Code Bench PollId :=
  Code.onState fun b => (.ok b.polls.length, { b with polls := b.polls ++ [r] })

/-- The script of an execution. -/
def script (b : Bench) (run : RunId) : List Cue :=
  ((b.scripts.find? (·.1 == run)).map (·.2)).getD []

/-- The operation that follows the script of its execution. -/
def operation (run : RunId) (n : Nat) : Code Bench Launch := do
  markFor run (.call n)
  match cue (← Code.read (·.script run)) n with
  | none | some .unfit => return .unfit
  | some (.raises e) => raise e
  | some (.completed v) =>
    let p ← leave { run, call := n, plan := .immediate v }
    finish p (.value v)
    return .poll p
  | some (.leaves plan) =>
    let p ← leave { run, call := n, plan }
    match plan with
    | .promise => pure ()
    | _ => Code.ask (.soon (.resume p))
    return .poll p

/-- The poll of an execution that is a promise, by its place among them. -/
def promised? (b : Bench) (run : RunId) (place : Int) : Option PollId :=
  (itemAt? (b.polls.zipIdx.filter fun (r, _) =>
    r.run == run && (match r.plan with | .promise => true | _ => false)) place).map (·.2)

end Bench

/-- Asynchronous executions of a waiter on a bench. -/
def asynchronous (w : Waiter Bench) : Asynchronous Bench where
  waiter := w
  operation := Bench.operation
  cancelPoll := Bench.stop
  resume := Bench.resume
  wake := Bench.wake

end Polling.Scenario
