import Polling.Act

/-!
# The bench on which waits are tried out

A bench stands in for everything a wait meets outside this library: the clock, the sleep, a signal,
predicates that count their calls, the polls that an operation leaves running, and schedulers. Each
stand-in leaves a mark when it is used. The bench is the caller's state; the modules beside this one
add the stand-ins, as code on it.
-/

namespace Polling.Scenario

/-- What a stand-in saw when it was used. -/
inductive Mark where
  /-- A hook was called. -/
  | notice (n : Notice)
  /-- The predicate of an acceptor was called. -/
  | predicate (label : Nat)
  /-- A table of delays was asked. -/
  | table (attempt : Value)
  /-- The operation was called. -/
  | call (n : Nat)
  | sleep (delay : Number)
  | wait (delay : Number) (interrupted : Bool)
  | schedule (delay : Number)
  /-- The body of a poll began. -/
  | body (n : Nat)
  /-- The body of a poll was cancelled while it slept. -/
  | bodyCancelled (n : Nat)
deriving Repr

/-- How the body of a poll ends. -/
inductive BodyEnd where
  | returns (v : Value)
  | raises (e : Fault)
  /-- It cancels itself. -/
  | cancels
deriving Repr

/-- What an operation leaves running. -/
inductive Plan where
  /-- A body that may sleep before it ends, and may ignore being cancelled while it sleeps. -/
  | body (sleep : Option Value) (swallows : Bool) (ending : BodyEnd)
  /-- Something that has its value when it is first waited for. -/
  | immediate (v : Value)
  /-- A promise that somebody else completes. -/
  | promise
deriving Repr

/-- How far a running poll has come. -/
inductive Stage where
  | unstarted
  /-- Its own timer is running. -/
  | sleeping
  /-- It is queued to go on. -/
  | queued
  | done
deriving DecidableEq, Repr

/-- A poll that an operation left running. -/
structure Running where
  run : RunId
  call : Nat
  plan : Plan
  stage : Stage := .unstarted
  /-- Was it asked to stop? -/
  stopped : Bool := false
deriving Repr

/-- One call of an operation on an event loop. -/
inductive Cue where
  | leaves (p : Plan)
  /-- The value is there already. -/
  | completed (v : Value)
  | raises (e : Fault)
  /-- Something that nobody can wait for. -/
  | unfit
deriving Repr

/-- A delay kept by a scheduler that fires by hand. -/
structure Kept where
  run : RunId
  delay : Number
  cancels : Nat := 0
deriving Repr

/-- Stand-ins and their state. -/
structure Bench where
  clock : Binary64 := .zero
  /-- The marks left so far, each with the execution it belongs to. -/
  marks : List (RunId × Mark) := []
  /-- How often each predicate has been called. -/
  predicateCalls : List (Nat × Nat) := []
  sleeps : Nat := 0
  signalSet : Bool := false
  signalWaits : Nat := 0
  /-- The scripts of the executions on the loop. -/
  scripts : List (RunId × List Cue) := []
  /-- The executions whose promise the caller holds. -/
  held : List RunId := []
  polls : List Running := []
  kept : List Kept := []

namespace Bench

/-- Leave a mark for an execution. -/
def markFor (run : RunId) (m : Mark) : Code Bench Unit :=
  Code.change fun b => { b with marks := b.marks ++ [(run, m)] }

/-- The execution that is being served. -/
def serving : Code Bench RunId := fun c => (.ok c.serving, c)

/-- Leave a mark for the execution that is being served. -/
def mark (m : Mark) : Code Bench Unit := do
  markFor (← serving) m

/-- The number of the next call of a predicate, which is counted. -/
def countCall (predicate : Nat) : Code Bench Nat :=
  Code.onState fun b =>
    let n := ((b.predicateCalls.find? (·.1 == predicate)).map (·.2)).getD 0 + 1
    (.ok n, { b with
      predicateCalls := (predicate, n) :: b.predicateCalls.filter (·.1 != predicate) })

/-- Move the clock on. -/
def pass (span : Binary64) : Code Bench Unit :=
  Code.change fun b => { b with clock := b.clock.add span }

/-- Remove the marks. -/
def swept (b : Bench) : Bench := { b with marks := [] }

/-- Raise a fault. -/
def raise (e : Fault) : Code Bench α := Code.onState fun b => (.error e, b)

end Bench

/-- What doing something on a bench led to. -/
structure Observation (α : Type) where
  result : Except Fault α
  marks : List Mark
  log : List String
  bench : Bench

/-- Do something on a bench without an event loop and see what happens. -/
def observe (b : Bench) (a : Act Bench α) : Observation α :=
  let (result, w) := a { caller := { state := b.swept } }
  { result
    marks := w.caller.state.marks.map (·.2)
    log := logOf w.history
    bench := w.caller.state.swept }

/-- Do several things on a bench, one after the other. -/
def observeEach (b : Bench) : List (Act Bench α) → List (Observation α)
  | [] => []
  | a :: rest =>
    let seen := observe b a
    seen :: observeEach seen.bench rest

/-- An entry of a script: the `n`-th one, counted from one, and the last one from then on. -/
def cue (script : List α) (n : Nat) : Option α := script[min n script.length - 1]?

/-- The place of an item of a list, places below zero being counted from the end. -/
def placeIn (items : List α) (place : Int) : Option Nat :=
  let i := if place < 0 then place + items.length else place
  if 0 ≤ i ∧ i < items.length then some i.toNat else none

/-- The item of a list at a place, places below zero being counted from the end. -/
def itemAt? (items : List α) (place : Int) : Option α := (placeIn items place).bind (items[·]?)

end Polling.Scenario
