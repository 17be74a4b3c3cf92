import Polling.Blocking
import Polling.Scenario.Hook

/-!
# Rehearsing blocking waits

A script says how each call of the operation ends. Sleeping moves the clock of the bench, so no time
passes.
-/

namespace Polling.Scenario

/-- One call of an operation. Values are made during the call, which may fail. -/
structure Line where
  result : Except Fault Value
  /-- How long the call takes. -/
  cost : Option (Except Fault Value) := none
  setsSignal : Bool := false

/-- When the signal sets itself. -/
structure SignalPlan where
  /-- Is it set from the beginning? -/
  set : Bool := false
  /-- It is set by the waits with these numbers. -/
  setByWaits : List Nat := []

/-- The surroundings of a rehearsal. -/
structure Setting where
  /-- Sleeps that raise, by their number. -/
  sleepFaults : List (Nat × Fault) := []
  signal : Option SignalPlan := none
  /-- Does the clock that the hooks read stand still at zero? -/
  still : Bool := false

namespace Setting

/-- Let a delay pass on the clock. -/
def passDelay (delay : Number) : Code Bench Unit :=
  match delay.toReal? with
  | some span => Bench.pass span
  | none => Code.lift (.error .integerTooLarge)

/-- Let a call take its time. -/
def passCost : Option (Except Fault Value) → Code Bench Unit
  | none => pure ()
  | some (.error e) => Bench.raise e
  | some (.ok (.number span)) => passDelay span
  | some (.ok v) => Code.lift (.error (.noIncrease (Value.real .zero).typeName v.typeName))

/-- The operation that follows a script. -/
def operation (script : List Line) (n : Nat) : Code Bench Value := do
  Bench.mark (.call n)
  match cue script n with
  | none => pure .null
  | some line =>
    passCost line.cost
    if line.setsSignal then Code.change fun b => { b with signalSet := true } else pure ()
    Code.onState fun b => (line.result, b)

/-- Sleep on the clock of the bench. -/
def sleep (s : Setting) (delay : Number) : Code Bench Unit := do
  Bench.mark (.sleep delay)
  Code.change fun b => { b with sleeps := b.sleeps + 1 }
  let n ← Code.read (·.sleeps)
  match s.sleepFaults.find? (·.1 == n) with
  | some (_, e) => Bench.raise e
  | none => passDelay delay

/-- Sleep unless the signal is set, or is to be set by this very wait. -/
def waitSignal (plan : SignalPlan) (delay : Number) : Code Bench Bool := do
  Code.change fun b =>
    let waits := b.signalWaits + 1
    { b with signalWaits := waits, signalSet := b.signalSet || plan.setByWaits.contains waits }
  let set ← Code.read (·.signalSet)
  Bench.mark (.wait delay set)
  if set then return true
  else
    passDelay delay
    return false

/-- A blocking wait that follows a script in a setting. -/
def wait (s : Setting) (w : Waiter Bench) (script : List Line) : Blocking Bench where
  waiter := w
  clock b := if s.still then .zero else b.clock
  sleep := s.sleep
  signal := s.signal.map fun plan => { isSet := (·.signalSet), wait := waitSignal plan }
  operation := operation script

/-- A bench with the clock at a time and the signal as it is in the beginning. -/
def bench (s : Setting) (clock : Binary64) : Bench :=
  { clock, signalSet := s.signal.any (·.set) }

/-- Rehearse a wait on a bench. -/
def rehearse (s : Setting) (w : Waiter Bench) (script : List Line) (b : Bench) :
    Observation Conclusion :=
  observe b (s.wait w script).run

/-- Rehearse waits on a bench, one after the other. -/
def rehearseEach (s : Setting) (w : Waiter Bench) (b : Bench) (scripts : List (List Line)) :
    List (Observation Conclusion) :=
  observeEach b (scripts.map fun script => (s.wait w script).run)

end Setting

/-- How often the operation was called. -/
def callCount (marks : List Mark) : Nat :=
  (marks.filter fun | .call _ => true | _ => false).length

end Polling.Scenario
