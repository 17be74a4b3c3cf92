import Polling.EventLoop
import Polling.Scheduler
import Polling.Scenario.Bench

/-!
# Trying out the timers of a loop

Alarms are set on an event loop through its scheduler, with the loop running or not, and taken back
through their handles. Each alarm has a number, and the loop notes which one rang and when.
-/

namespace Polling.Scenario

/-- A loop with alarms. -/
structure Alarms where
  loop : EventLoop Nat := { time := .zero }
  /-- Was the loop given to the scheduler, or is the running one meant? -/
  given : Bool
  /-- How often an alarm was asked for. -/
  asked : Nat := 0
  /-- The alarms that were set, each with whether it was taken back. -/
  handles : List (Nat × Bool) := []
  /-- The alarms that rang, each with its time. -/
  rung : List (Nat × Binary64) := []

/-- What can be done with alarms. -/
inductive AlarmMove where
  /-- Set an alarm with the loop running or not. The delay is made when it is needed, which may
  fail. -/
  | set (running : Bool) (delay : Except Fault Value)
  /-- Take an alarm back. -/
  | takeBack (handle : Nat)
  | advance (span : Binary64)

/-- What a move led to. -/
structure AlarmReport where
  /-- For which time an alarm was set. -/
  set : Option (Except Fault Binary64)
  time : Binary64
  rung : List (Nat × Binary64)
  log : List String
  handles : List Bool

namespace Alarms

/-- An alarm rings. -/
def ring (alarm : Nat) (a : Alarms) : Alarms :=
  { a with rung := a.rung ++ [(alarm, a.loop.time)] }

/-- Alarms as the host of their loop. -/
def host : Host Alarms Nat where
  loop a := a.loop
  withLoop a loop := { a with loop }
  perform := ring

/-- No more alarms can ring than were asked for. -/
def bound (a : Alarms) : Nat := a.asked + 1

/-- Begin a turn of the loop. An alarm that is set with the loop running is set in one. -/
def beginTurn (a : Alarms) : Alarms := { a with loop := a.loop.nextTurn }

/-- Run what is ready. -/
def settle (a : Alarms) : Alarms := host.settle a.bound a

/-- Set an alarm. -/
def set (running : Bool) (delay : Except Fault Value) (a : Alarms) :
    Except Fault Binary64 × List String × Alarms :=
  let seen := observe {} (Act.given delay (Scheduler.span (running || a.given)))
  let alarm := a.asked
  let a := { a with asked := alarm + 1 }
  match seen.result with
  | .error e => (.error e, seen.log, a)
  | .ok span =>
    (.ok (a.loop.time.add span), seen.log,
      { a with loop := a.loop.later span alarm, handles := a.handles ++ [(alarm, false)] })

/-- Take an alarm back. -/
def takeBack (handle : Nat) (a : Alarms) : Alarms :=
  match a.handles[handle]? with
  | none => a
  | some (alarm, _) =>
    { a with
      loop := a.loop.drop (· == alarm)
      handles := a.handles.set handle (alarm, true) }

/-- Make a move and report what it led to. -/
def step (before : Alarms) (m : AlarmMove) : AlarmReport × Alarms :=
  let (set, log, after) : Option (Except Fault Binary64) × List String × Alarms :=
    match m with
    | .set running delay =>
      let (due, log, a) := (if running then before.beginTurn else before).set running delay
      (some due, log, if running then a.settle else a)
    | .takeBack handle => (none, [], before.takeBack handle)
    | .advance span => (none, [], host.advance before.bound span before)
  ({ set, log
     time := after.loop.time
     rung := after.rung.drop before.rung.length
     handles := after.handles.map (·.2) }, after)

/-- Make moves one after the other. -/
def steps (a : Alarms) : List AlarmMove → List AlarmReport
  | [] => []
  | m :: rest =>
    let (report, after) := a.step m
    report :: steps after rest

/-- The scheduler that sets the alarms. -/
def scheduler (a : Alarms) : Scheduler Bench := .timers a.given

end Alarms

end Polling.Scenario
