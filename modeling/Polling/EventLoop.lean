import Polling.Heap
import Polling.Number.Binary64

/-!
# An event loop on a virtual clock

An event loop runs callbacks one at a time. Callbacks wait in a queue, first in, first out, or behind
a timer. The queue is worked off in turns: a turn takes what is queued when it begins, followed by
the timers that are due, and callbacks queued meanwhile belong to the next turn.

Timers lie in a heap, and only the first one is ever looked at. A timer that is taken back stays where
it is until it comes first. A time that is not a number does not lie ahead, so a timer with such a
time is due as soon as it comes first.

The clock moves only when it is told to. `Host.settle` runs everything that can run without the clock
moving; `Host.advance` moves the clock from one due timer to the next up to a target.
-/

namespace Polling

/-- A callback and the time from which on it may run. -/
structure Timer (κ : Type) where
  due : Binary64
  callback : κ
  /-- Was it taken back? -/
  dropped : Bool := false
deriving Repr

/-- Is a timer due earlier than another? -/
def Timer.before (t u : Timer κ) : Bool := t.due.lt u.due

/-- An event loop with callbacks of a type. -/
structure EventLoop (κ : Type) where
  time : Binary64
  /-- What is left of the current turn. -/
  turn : List κ := []
  /-- Queued for the next turn. -/
  queue : List κ := []
  /-- A heap. -/
  timers : List (Timer κ) := []
deriving Repr

namespace EventLoop

/-- Queue a callback. -/
def soon (l : EventLoop κ) (k : κ) : EventLoop κ := { l with queue := l.queue ++ [k] }

/-- Run a callback from a time on. -/
def schedule (l : EventLoop κ) (due : Binary64) (k : κ) : EventLoop κ :=
  { l with timers := Heap.push Timer.before { due, callback := k } l.timers }

/-- Run a callback after a delay. -/
def later (l : EventLoop κ) (delay : Binary64) (k : κ) : EventLoop κ :=
  l.schedule (l.time.add delay) k

/-- Take callbacks back, wherever they wait. -/
def drop (l : EventLoop κ) (p : κ → Bool) : EventLoop κ :=
  { l with
    turn := l.turn.filter (!p ·)
    queue := l.queue.filter (!p ·)
    timers := l.timers.map fun t => if p t.callback then { t with dropped := true } else t }

/-- The timers without those in front that were taken back. -/
def liveTimers (l : EventLoop κ) : List (Timer κ) :=
  (Heap.takeWhile Timer.before (·.dropped) l.timers).2

/-- The due timers, and the heap of the others. -/
def dueTimers (l : EventLoop κ) : List (Timer κ) × List (Timer κ) :=
  Heap.takeWhile Timer.before (fun t => !l.time.lt t.due) l.liveTimers

/-- Begin a turn: what is queued, followed by the due timers. -/
def nextTurn (l : EventLoop κ) : EventLoop κ :=
  let (due, timers) := l.dueTimers
  { l with
    turn := l.turn ++ l.queue ++ (due.filter (!·.dropped)).map (·.callback)
    queue := []
    timers }

/-- Break a turn off: what is left of it is queued in front. -/
def breakOff (l : EventLoop κ) : EventLoop κ :=
  { l with turn := [], queue := l.turn ++ l.queue }

/-- Take the callback that comes next in the turn. -/
def takeFromTurn (l : EventLoop κ) : Option κ × EventLoop κ :=
  match l.turn with
  | k :: rest => (some k, { l with turn := rest })
  | [] => (none, l)

/-- Take the callback to run next, beginning a turn if the current one is over. -/
def take (l : EventLoop κ) : Option κ × EventLoop κ :=
  if l.turn.isEmpty then l.nextTurn.takeFromTurn else l.takeFromTurn

/-- The time of the first timer, if it lies at a target or before it. -/
def nextDue? (l : EventLoop κ) (target : Binary64) : Option Binary64 :=
  (l.liveTimers.head?.map (·.due)).filter (·.le target)

/-- Set the clock. -/
def moveTo (l : EventLoop κ) (time : Binary64) : EventLoop κ := { l with time }

end EventLoop

/-- A state that holds an event loop and knows what its callbacks do. -/
structure Host (S κ : Type) where
  loop : S → EventLoop κ
  withLoop : S → EventLoop κ → S
  perform : κ → S → S

namespace Host

/-- Run callbacks until none is ready, but no more than `bound` of them. -/
def settle (h : Host S κ) : (bound : Nat) → S → S
  | 0, s => s
  | bound + 1, s =>
    match (h.loop s).take with
    | (none, l) => h.withLoop s l
    | (some k, l) => h.settle bound (h.perform k (h.withLoop s l))

/-- Move the clock to a target by way of the timers that are due until then, settling at each. -/
def advanceFrom (h : Host S κ) (bound : Nat) (target : Binary64) : (stops : Nat) → S → S
  | 0, s => s
  | stops + 1, s =>
    match (h.loop s).nextDue? target with
    | none => h.withLoop s ((h.loop s).moveTo target)
    | some due =>
      h.advanceFrom bound target stops
        (h.settle bound (h.withLoop s ((h.loop s).moveTo due)))

/-- Settle, then move the clock on by a time span. -/
def advance (h : Host S κ) (bound : Nat) (span : Binary64) (s : S) : S :=
  let target := (h.loop s).time.add span
  h.advanceFrom bound target bound (h.settle bound s)

end Host

end Polling
