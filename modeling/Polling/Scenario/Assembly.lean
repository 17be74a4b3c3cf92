import Polling.Builder
import Polling.Scenario.Rehearsal

/-!
# Assembling waiters and probing them

A workshop is used step by step; a probe rehearses one of its waiters with the clock standing still.
-/

namespace Polling.Scenario

/-- A step of the assembly. -/
inductive AssemblyStep where
  /-- Make a list, if one is given, and set the acceptors to it. Afterwards some more are put behind
  the others in the list, which may raise. -/
  | acceptors (list : Option (List (Acceptor Bench))) (afterwards : Option Fault)
    (appended : List (Acceptor Bench) := [])
  | add (a : Acceptor Bench)
  | strategy (whole : Option (Strategy Bench)) (limit : Value) (backoff : Option (Backoff Bench))
  | scheduler (s : Option (Scheduler Bench))
  | hooks (h : Option (Hooks Bench))
  | build
  /-- Make a waiter without the builder. -/
  | direct (strategy : Option (Strategy Bench)) (acceptors : List (Acceptor Bench))
  /-- Rehearse a waiter; places below zero count from the latest. The script is made when the waiter
  has been found, which may fail. -/
  | probe (waiter : Int) (script : Except Fault (List Line))

/-- What a step answers. -/
inductive AssemblyReply where
  /-- The builder is there for the next step. -/
  | chained
  /-- A waiter was made, by its place among the waiters. -/
  | built (place : Nat)
  | probed (seen : Observation Conclusion)
  | refused (e : Fault)

/-- A workshop and the bench on which its waiters are rehearsed. -/
structure Assembly where
  workshop : Workshop Bench := .fresh
  bench : Bench := {}

namespace Assembly

/-- The builder as it can be seen. -/
def builder (a : Assembly) : Configuration Bench := a.workshop.gathered

/-- The waiters made so far. -/
def waiters (a : Assembly) : List (Waiter Bench) := a.workshop.waiters

/-- Do a call in the workshop. -/
def call (a : Assembly) (c : Workshop.Call Bench) : AssemblyReply × Assembly :=
  let (reply, workshop) := a.workshop.step c
  let reply := match reply with
    | .done => .chained
    | .made number => .built number
    | .refused e => .refused e
  (reply, { a with workshop })

/-- Set the acceptors to a new list and go on with the list, unless that raises. -/
def handOver (a : Assembly) (items appended : List (Acceptor Bench)) (afterwards : Option Fault) :
    AssemblyReply × Assembly :=
  let number := a.workshop.lists.length
  let (reply, a) := (a.call (.list items)).2.call (.acceptors (.list number))
  match afterwards with
  | some e => (.refused e, a)
  | none => (reply, (a.call (.change number (items ++ appended))).2)

/-- Rehearse a waiter by its place. -/
def rehearse (a : Assembly) (waiter : Int) (script : Except Fault (List Line)) :
    AssemblyReply × Assembly :=
  match itemAt? a.waiters waiter, script with
  | none, _ => (.refused Workshop.noSuch, a)
  | some _, .error e => (.refused e, a)
  | some w, .ok script =>
    let seen := ({ still := true } : Setting).rehearse w script a.bench
    (.probed seen, { a with bench := seen.bench })

/-- Do a step. -/
def step (a : Assembly) : AssemblyStep → AssemblyReply × Assembly
  | .acceptors none _ _ => a.call (.acceptors (.barren Value.null.typeName))
  | .acceptors (some items) afterwards appended => a.handOver items appended afterwards
  | .add acceptor => a.call (.add acceptor)
  | .strategy whole limit backoff => a.call (.strategy whole limit backoff)
  | .scheduler s => a.call (.scheduler s)
  | .hooks h => a.call (.hooks h)
  | .build => a.call .build
  | .direct strategy acceptors => a.call (.direct strategy (.source acceptors none))
  | .probe waiter script => a.rehearse waiter script

/-- Do steps one after the other; a step that could not be put together counts as refused. -/
def steps (a : Assembly) : List (Except Fault AssemblyStep) → List (AssemblyReply × Assembly)
  | [] => []
  | .error e :: rest => (.refused e, a) :: steps a rest
  | .ok s :: rest =>
    let (reply, after) := a.step s
    (reply, after) :: steps after rest

end Assembly

end Polling.Scenario
