import Polling.Waiter

/-!
# One asynchronous execution

An asynchronous execution never blocks. It is a set of callbacks on an event loop: one runs an
attempt, one takes the result of a poll, one cleans up after the promise has been settled. Each runs
to its end before another begins, reads and changes the state of the execution, calls the caller's
code, and leaves orders for the loop.

Its promise is settled once. What the caller's code asks of the loop is looked at as soon as that code
has returned, so that a promise cancelled by a hook is seen by everything that follows the hook.

An ordinary fault of the caller's code rejects the promise and ends the callback. A fault that is not
ordinary leaves the callback, whatever state the execution is in. So does the refusal of a promise
that is to carry the end of an iteration, which no promise can; it stays pending then.
-/

namespace Polling

/-- The result of an execution. -/
inductive Promise where
  | pending
  /-- The wait has come to its end. -/
  | concluded (c : Conclusion)
  /-- A fault of the caller's ended it. -/
  | rejected (e : Fault)
  | cancelled
deriving Repr

namespace Promise

/-- Is the result there? -/
def isSettled : Promise → Bool
  | .pending => false
  | _ => true

/-- The promise that carries a fault. The end of an iteration cannot be carried. -/
def ofFault (e : Fault) : Except Misuse Promise :=
  if e.isA .stopIteration then .error .endOfIteration else .ok (.rejected e)

end Promise

/-- What an operation gives when it is called. -/
inductive Launch where
  /-- A poll is running. -/
  | poll (id : PollId)
  /-- Something that nobody can wait for. -/
  | unfit
deriving Repr

/-- The state of one execution. -/
structure Execution where
  started : Value
  attempt : Nat := 0
  /-- How often the operation has been called. An attempt may have ended before its call, by a fault
  that the promise does not carry. -/
  calls : Nat := 0
  promise : Promise := .pending
  handle : Option Handle := none
  poll : Option PollId := none
deriving Repr

/-- What an execution asks of the loop. -/
inductive Order where
  /-- The promise has been settled. -/
  | settled
  /-- Call back when a poll has ended. -/
  | watch (poll : PollId)
  /-- Call back after a delay. -/
  | timer (delay : Binary64)
  /-- Take that back. -/
  | stopTimer
  /-- Something that the caller's code asked for. -/
  | request (r : Request)
deriving Repr

/-- All that asynchronous executions depend on. -/
structure Asynchronous (σ : Type) where
  waiter : Waiter σ
  /-- The operation of an execution, told which of its calls this is, from one on. -/
  operation : RunId → Nat → Code σ Launch
  /-- Ask a poll to stop. -/
  cancelPoll : PollId → Code σ Unit
  /-- Let a poll go on. -/
  resume : PollId → Code σ Unit
  /-- A poll's own delay is over. -/
  wake : PollId → Code σ Unit

/-- What a callback of an execution works on. -/
structure Frame (σ : Type) where
  world : World σ
  execution : Execution
  orders : List Order := []

/-- A part of a callback. -/
abbrev Step (σ : Type) := ExceptT Fault (StateM (Frame σ))

namespace Frame

/-- Leave an order. -/
def order (f : Frame σ) (o : Order) : Frame σ := { f with orders := f.orders ++ [o] }

/-- The frame after an entry. -/
def enter (f : Frame σ) (e : Event) : Frame σ :=
  { f with world := { f.world with history := f.world.history ++ [e] } }

/-- Settle the promise, unless it is settled already. -/
def settle (f : Frame σ) (p : Promise) : Frame σ :=
  if f.execution.promise.isSettled then f
  else { f with execution := { f.execution with promise := p } }.order .settled

/-- Carry out a request, if it is to cancel this very execution, or pass it on. -/
def absorbOne (f : Frame σ) (r : Request) : Frame σ :=
  match r with
  | .cancel run =>
    if run = f.world.caller.serving then f.settle .cancelled else f.order (.request r)
  | _ => f.order (.request r)

/-- Look at everything the caller's code has asked for. -/
def absorb (f : Frame σ) : Frame σ :=
  let requests := f.world.caller.requests
  requests.foldl absorbOne
    { f with world := { f.world with caller := { f.world.caller with requests := [] } } }

end Frame

namespace Step

/-- Read the state of the execution. -/
def read (g : Execution → α) : Step σ α := fun f => (.ok (g f.execution), f)

/-- Change the state of the execution. -/
def change (g : Execution → Execution) : Step σ Unit :=
  fun f => (.ok (), { f with execution := g f.execution })

/-- Leave an order for the loop. -/
def order (o : Order) : Step σ Unit := fun f => (.ok (), f.order o)

/-- Enter an event into the history. -/
def enter (e : Event) : Step σ Unit := fun f => (.ok (), f.enter e)

/-- Keep the handle of the attempt that was handed to the scheduler. -/
def hold (h : Handle) : Step σ Unit := do
  change ({ · with handle := some h })
  enter (.held h)

/-- Take the timer of the loop back. -/
def takeBack : Step σ Unit := do
  enter (.withdrawn .timer)
  order .stopTimer

/-- Settle the promise, unless it is settled already. -/
def settle (p : Promise) : Step σ Unit := fun f => (.ok (), f.settle p)

/-- Reject the promise with a fault, unless it is settled already. A fault that it cannot carry is
refused, and the refusal is raised. -/
def reject (e : Fault) : Step σ Unit :=
  fun f =>
    if f.execution.promise.isSettled then (.ok (), f)
    else
      match Promise.ofFault e with
      | .ok p => (.ok (), f.settle p)
      | .error m => (.error m.fault, f)

/-- Do something, look at what the caller's code asked for meanwhile, and report how it went. -/
def trying (a : Act σ α) : Step σ (Except Fault α) :=
  fun f =>
    let (result, world) := a f.world
    (.ok result, { f with world }.absorb)

/-- Do something that cannot fail. -/
def act (a : Act σ Unit) : Step σ Unit := do
  match ← trying a with
  | .ok () => return ()
  | .error e => throw e

/-- Do something and go on with its result. An ordinary fault rejects the promise instead, and
nothing follows. -/
def guarding (a : Act σ α) (next : α → Step σ Unit) : Step σ Unit := do
  match ← trying a with
  | .ok x => next x
  | .error e => if e.isOrdinary then reject e else throw e

/-! ## What a part of a callback does to its frame -/

@[simp] theorem pure_apply (x : α) (f : Frame σ) : (pure x : Step σ α) f = (.ok x, f) := rfl

theorem bind_apply (a : Step σ α) (g : α → Step σ β) (f : Frame σ) :
    (a >>= g) f = match a f with
      | (.ok x, f) => g x f
      | (.error e, f) => (.error e, f) := by
  show (ExceptT.bindCont g (a f).1) (a f).2 = _
  rcases a f with ⟨_ | _, _⟩ <;> rfl

@[simp] theorem read_apply (g : Execution → α) (f : Frame σ) :
    read g f = (.ok (g f.execution), f) := rfl

@[simp] theorem change_apply (g : Execution → Execution) (f : Frame σ) :
    change g f = (.ok (), { f with execution := g f.execution }) := rfl

@[simp] theorem order_apply (o : Order) (f : Frame σ) : order o f = (.ok (), f.order o) := rfl

@[simp] theorem enter_apply (e : Event) (f : Frame σ) : enter e f = (.ok (), f.enter e) := rfl

@[simp] theorem takeBack_apply (f : Frame σ) :
    takeBack f = (.ok (), (f.enter (.withdrawn .timer)).order .stopTimer) := rfl

@[simp] theorem settle_apply (p : Promise) (f : Frame σ) : settle p f = (.ok (), f.settle p) := rfl

/-- A promise that is settled stays as it is when it is to be rejected. -/
theorem reject_of_isSettled (e : Fault) {f : Frame σ} (h : f.execution.promise.isSettled = true) :
    reject e f = (.ok (), f) := by
  simp [reject, h]

@[simp] theorem trying_apply (a : Act σ α) (f : Frame σ) :
    trying a f = (.ok (a f.world).1, { f with world := (a f.world).2 }.absorb) := rfl

end Step

namespace Asynchronous

/-- The hooks of the waiter, told the time of the loop. -/
def notifier (a : Asynchronous σ) (now : Binary64) : Notifier σ :=
  a.waiter.notifier fun _ => .real now

/-- The scheduler of the waiter; without one, the timers of the running loop. -/
def scheduler (a : Asynchronous σ) : Scheduler σ := a.waiter.scheduler.getD (.timers true)

/-- Hand the next attempt to the scheduler. -/
def schedule (a : Asynchronous σ) (run : RunId) (delay : Number) : Step σ Unit := do
  if (← Step.read (·.promise)).isSettled then Step.act (Act.note .notScheduling)
  else
    match a.scheduler with
    | .timers _ =>
      Step.guarding (do Act.record (.scheduled delay); Scheduler.span true (.number delay))
        fun d => do
          Step.order (.timer d)
          Step.hold .timer
    | .custom schedule _ =>
      Step.guarding (Act.call (.scheduled delay) (schedule run delay)) fun id =>
        Step.hold (.custom id)

/-- Evaluate the outcome of the current attempt and act on the transition. -/
def conclude (a : Asynchronous σ) (run : RunId) (now : Binary64) (o : Outcome) : Step σ Unit := do
  let attempt ← Step.read (·.attempt)
  let started ← Step.read (·.started)
  Step.guarding (evaluate a.waiter.acceptors a.waiter.strategy o (.int attempt)) fun
    | .succeed r =>
      Step.guarding ((a.notifier now).success (.int attempt) r started) fun _ =>
        Step.settle (.concluded (.success r))
    | .fail f => do
      Step.act (Act.note (.failed attempt f.reason))
      Step.guarding ((a.notifier now).failure (.int attempt) (some f.fault) started) fun _ =>
        Step.settle (.concluded (.failure f))
    | .retry delay =>
      Step.guarding
        ((a.notifier now).retry (.int attempt) (.number delay) o.value o.fault?) fun _ =>
          a.schedule run delay

/-- Call the operation for the current attempt and watch the poll. A fault of the call itself is an
outcome. -/
def launch (a : Asynchronous σ) (run : RunId) (now : Binary64) (attempt : Nat) : Step σ Unit := do
  Step.change fun x => { x with calls := x.calls + 1 }
  let call ← Step.read (·.calls)
  match ← Step.trying (Act.call (.polled attempt) (a.operation run call)) with
  | .ok (.poll id) =>
    Step.change ({ · with poll := some id })
    Step.order (.watch id)
  | .ok .unfit => a.conclude run now (.raised Misuse.notAwaitable.fault)
  | .error e => if e.isOrdinary then a.conclude run now (.raised e) else throw e

/-- The callback that runs an attempt. -/
def attempt (a : Asynchronous σ) (run : RunId) (now : Binary64) : Step σ Unit := do
  Step.change ({ · with handle := none })
  if (← Step.read (·.promise)).isSettled then Step.act (Act.note .skipping)
  else
    Step.change fun x => { x with attempt := x.attempt + 1 }
    let attempt ← Step.read (·.attempt)
    Step.guarding ((a.notifier now).attempt (.int attempt)) fun _ => do
      Step.act (Act.note (.executing attempt a.waiter.strategy.limit))
      a.launch run now attempt

/-- The callback that takes the result of a poll. A poll that somebody cancelled cancels the
promise; one that ended with a fault that is not ordinary rejects it. -/
def pollEnded (a : Asynchronous σ) (run : RunId) (now : Binary64) (ending : Ending) :
    Step σ Unit := do
  Step.change ({ · with poll := none })
  let attempt ← Step.read (·.attempt)
  if (← Step.read (·.promise)).isSettled then Step.act (Act.note (.ignoring attempt))
  else
    match ending with
    | .cancelled => do
      Step.act (Act.note (.pollCancelled attempt))
      Step.settle .cancelled
    | .value v => a.conclude run now (.returned v)
    | .fault e =>
      if e.isOrdinary then a.conclude run now (.raised e) else Step.reject e

/-- Cancel a scheduled attempt by its handle. -/
def cancelHandle (a : Asynchronous σ) : Handle → Step σ Unit
  | .timer => Step.takeBack
  | .custom id => Step.act (Act.call (.withdrawn (.custom id)) (a.scheduler.cancel id))

/-- Cancel the attempt that is scheduled, if one is. -/
def withdraw (a : Asynchronous σ) : Step σ Unit := do
  match ← Step.read (·.handle) with
  | some h =>
    a.cancelHandle h
    Step.change ({ · with handle := none })
  | none => pure ()

/-- Cancel the poll that is under way, if one is. -/
def stop (a : Asynchronous σ) : Step σ Unit := do
  match ← Step.read (·.poll) with
  | some id =>
    Step.act (Act.call (.stopped id) (a.cancelPoll id))
    Step.change ({ · with poll := none })
  | none => pure ()

/-- The callback that follows the settling of the promise: after a cancellation, what is still under
way is cancelled too. -/
def settled (a : Asynchronous σ) : Step σ Unit := do
  match ← Step.read (·.promise) with
  | .cancelled =>
    Step.act (Act.note (.cancelled (← Step.read (·.attempt))))
    a.withdraw
    a.stop
  | _ => pure ()

end Asynchronous

end Polling
