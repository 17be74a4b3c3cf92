import Polling.Proofs.Course
import Polling.Proofs.Judging

/-!
# What the callbacks of an execution do

`Asynchronous.judge` is the part of a callback that evaluates an outcome and tells the hooks, and
`Asynchronous.follow` the part that acts on the result; `conclude_apply` says that together they are
`Asynchronous.conclude`. With one lemma for each part, every callback gets a lemma that says all it can
do: `attempt_attempts`, `pollEnded_takes` and `settled_tidies`.
-/

namespace Polling

namespace Asynchronous

variable (a : Asynchronous σ) (run : RunId) (now : Binary64)

/-- Evaluate the outcome of an attempt and tell the hooks. The conclusion that the wait has come to, or
the delay after which it goes on. -/
def judge (o : Outcome) (attempt : Nat) (started : Value) : Step σ (Conclusion ⊕ Number) := do
  let t ← Step.perform (evaluate a.waiter.acceptors a.waiter.strategy o (.int attempt))
  Step.perform ((a.notifier now).tell o attempt started t)
  return t.next

/-- Act on the result of judging: settle the promise, or schedule the next attempt. -/
def follow : Conclusion ⊕ Number → Step σ Unit
  | .inl c => Step.settle (.concluded c)
  | .inr delay => a.schedule run delay

/-- Concluding is judging and then acting on the result. A fault raised in judging is refused. -/
theorem conclude_apply (o : Outcome) (f : Frame σ) :
    a.conclude run now o f = match a.judge now o f.execution.attempt f.execution.started f with
      | (.ok next, f') => a.follow run next f'
      | (.error e, f') => Step.refuse e f' := by
  simp only [conclude, judge, Step.bind_apply, Step.read_apply, Step.guarding_apply,
    Step.act_eq_perform]
  rcases h : Step.perform (evaluate a.waiter.acceptors a.waiter.strategy o
    (.int f.execution.attempt)) f with ⟨e | t, f'⟩
  · rfl
  · cases t with
    | succeed r =>
      simp only [Step.guarding_apply, Notifier.tell]
      rcases Step.perform ((a.notifier now).success (.int f.execution.attempt) r
        f.execution.started) f' with ⟨e | ⟨⟩, f''⟩ <;> rfl
    | fail r =>
      simp only [Step.bind_apply, Step.guarding_apply, Notifier.tell,
        Step.perform_note _ (Step.requests_of_perform h), Step.perform_note_bind]
      rcases Step.perform ((a.notifier now).failure (.int f.execution.attempt) (some r.fault)
        f.execution.started) (f'.enter _) with ⟨e | ⟨⟩, f''⟩ <;> rfl
    | retry delay =>
      simp only [Step.guarding_apply, Notifier.tell]
      rcases Step.perform ((a.notifier now).retry (.int f.execution.attempt) (.number delay) o.value
        o.fault?) f' with ⟨e | ⟨⟩, f''⟩ <;> rfl

/-- Judging enters nothing but quiet entries, and a delay that comes of it comes of an evaluation. -/
theorem judge_serves (o : Outcome) (n : Nat) (started : Value) (f : Frame σ) :
    ∃ es, Frame.Serves f (a.judge now o n started f).2 es ∧ Quiet es ∧
      ∀ d, (a.judge now o n started f).1 = .ok (.inr d) →
        ∃ E q, es = E ++ q ∧ a.Evaluates o n d E ∧ Quiet q := by
  obtain ⟨E, evaluated, quiet⟩ := Step.perform_serves (evaluate_enters (fun _ _ => rfl) (fun _ _ => rfl)
    (fun _ => rfl) a.waiter.acceptors a.waiter.strategy o (.int n) rfl) f
  simp only [judge, Step.bind_apply]
  rcases hE : Step.perform (evaluate a.waiter.acceptors a.waiter.strategy o (.int n)) f
    with ⟨e | t, f'⟩
  · rw [hE] at evaluated
    exact ⟨E, evaluated, quiet, by simp⟩
  · rw [hE] at evaluated
    obtain ⟨q, told, quiet'⟩ := Step.perform_serves (Notifier.tell_enters (fun _ _ => rfl)
      (fun _ => rfl) (a.notifier now) o n started t) f'
    rcases hq : Step.perform ((a.notifier now).tell o n started t) f' with ⟨e | ⟨⟩, f''⟩
    · rw [hq] at told
      simp only [hq]
      exact ⟨E ++ q, evaluated.trans told, quiet_append quiet quiet', by simp⟩
    · rw [hq] at told
      simp only [hq]
      refine ⟨E ++ q, evaluated.trans told, quiet_append quiet quiet', ?_⟩
      intro d hd
      obtain rfl := Transition.next_eq_inr (Except.ok.inj hd)
      obtain ⟨os, evolves⟩ := evaluated.evolves
      -- the delay is that of the evaluation, which began in the world of the frame
      have result := (Prod.mk.inj hE).1
      have history := evolves.history
      rw [← (Prod.mk.inj hE).2, Frame.absorb_history] at history
      exact ⟨E, q, rfl, ⟨f.world, _, Prod.ext result rfl, history⟩, quiet'⟩

/-- Judging raises what the caller's code raises, or a misuse. -/
theorem judge_raisesOnly {Q : Fault → Prop} (misuse : ∀ m : Misuse, Q m.fault)
    (h : a.waiter.RaisesOnly Q) {o : Outcome} {n : Nat} {started : Value} {f : Frame σ} {e : Fault}
    (he : (a.judge now o n started f).1 = .error e) : Q e := by
  simp only [judge, Step.bind_apply] at he
  rcases hE : Step.perform (evaluate a.waiter.acceptors a.waiter.strategy o (.int n)) f
    with ⟨e' | t, f'⟩
  · rw [hE] at he
    obtain rfl := Except.error.inj he
    exact evaluate_raisesOnly misuse h o _ f.world e' (Prod.mk.inj hE).1
  · rw [hE] at he
    rcases hq : Step.perform ((a.notifier now).tell o n started t) f' with ⟨e' | ⟨⟩, f''⟩
    · simp only [hq] at he
      obtain rfl := Except.error.inj he
      exact Notifier.tell_raisesOnly h.hooks (Notifier.elapsed_raisesOnly misuse started) o n t
        f'.world e' (Prod.mk.inj hq).1
    · simp only [hq] at he
      exact nomatch he

/-! ## Scheduling -/

/-- Ask the scheduler to call back after a delay. The handle that it leaves, and the orders for a timer
of the loop. -/
def request (delay : Number) : Act σ (Handle × List Order) :=
  match a.scheduler with
  | .timers _ => do
    let d ← Scheduler.span true (.number delay)
    return (.timer, [.timer d])
  | .custom schedule _ => do
    let id ← Act.code (schedule run delay)
    return (.custom id, [])

/-- Enter a delay and ask the scheduler to call back after it. -/
def handOver (delay : Number) : Act σ (Handle × List Order) := do
  Act.record (.scheduled delay)
  a.request run delay

/-- While the promise is pending, the next attempt is handed over; a fault raised in doing so is
refused. -/
theorem schedule_apply (delay : Number) {f : Frame σ}
    (h : f.execution.promise.isSettled = false) :
    a.schedule run delay f = match Step.perform (a.handOver run delay) f with
      | (.ok (handle, os), f') => (.ok (), f'.hold handle os)
      | (.error e, f') => Step.refuse e f' := by
  simp only [schedule, Step.bind_apply, Step.read_apply, h, Bool.false_eq_true, if_false]
  unfold handOver request
  cases a.scheduler with
  | timers given =>
    simp only [Step.guarding_apply, Step.perform_apply, Act.bind_apply, Act.record_apply]
    rcases Scheduler.span true (.number delay)
      { f.world with history := f.world.history ++ [Event.scheduled delay] } with ⟨e | d, w⟩ <;> rfl
  | custom schedule cancel =>
    simp only [Step.guarding_apply, Step.perform_apply, Act.bind_apply, Act.call,
      Act.record_apply]
    rcases Act.code (schedule run delay)
      { f.world with history := f.world.history ++ [Event.scheduled delay] } with ⟨e | id, w⟩
    · rfl
    · simp [Step.hold, Step.bind_apply, Frame.hold]

theorem span_enters {P : Event → Prop} (note : ∀ n, n.isExhausted = false → P (.note n)) (there : Bool)
    (delay : Value) : (Scheduler.span there delay : Act σ Binary64).Enters P := by
  refine Act.enters_bind (Act.enters_lift _) fun d => ?_
  split
  · exact Act.enters_fail _
  · split
    · exact Act.enters_fail _
    · exact Act.enters_bind (Act.enters_record (note _ rfl)) fun _ => Act.enters_pure _

theorem request_enters {P : Event → Prop} (note : ∀ n, n.isExhausted = false → P (.note n))
    (delay : Number) : (a.request run delay).Enters P := by
  unfold request
  split
  · exact Act.enters_bind (span_enters note _ _) fun _ => Act.enters_pure _
  · exact Act.enters_bind (Act.enters_code _) fun _ => Act.enters_pure _

theorem request_raisesOnly (h : a.IsCarriable run) (delay : Number) :
    (a.request run delay).RaisesOnly Fault.IsCarriable := by
  unfold request
  split
  · exact Act.raisesOnly_bind (Scheduler.span_raisesOnly Misuse.fault_isCarriable _ _) fun _ =>
      Act.raisesOnly_pure _
  · next schedule cancel hs =>
    exact Act.raisesOnly_bind (Act.raisesOnly_code (h.scheduler schedule cancel hs delay))
      fun _ => Act.raisesOnly_pure _

/-- A scheduler leaves at most the order for a timer. -/
theorem request_orders {delay : Number} {w : World σ} {handle : Handle} {os : List Order}
    (h : (a.request run delay w).1 = .ok (handle, os)) :
    os.countP Order.isWatch = 0 ∧ os.countP Order.isSettling = 0 := by
  cases hs : a.scheduler with
  | timers given =>
    simp only [request, hs, Act.bind_apply] at h
    rcases hw : Scheduler.span true (.number delay) w with ⟨e | d, w'⟩
    · rw [hw] at h
      exact nomatch h
    · rw [hw] at h
      obtain ⟨-, rfl⟩ := Prod.mk.inj (Except.ok.inj h)
      exact ⟨rfl, rfl⟩
  | custom schedule cancel =>
    simp only [request, hs, Act.bind_apply] at h
    rcases hw : Act.code (schedule run delay) w with ⟨e | id, w'⟩
    · rw [hw] at h
      exact nomatch h
    · rw [hw] at h
      obtain ⟨-, rfl⟩ := Prod.mk.inj (Except.ok.inj h)
      exact ⟨rfl, rfl⟩

/-- After a fault that can be carried, the promise is settled. -/
theorem isSettled_refuse {e : Fault} (h : e.IsCarriable) (f : Frame σ) :
    (Step.refuse e f).2.execution.promise.isSettled = true := by
  rw [Step.refuse, if_pos h.1, Step.reject]
  split
  · next settled => exact settled
  · rw [Promise.ofFault, h.2]
    exact Frame.isSettled_settle f rfl

/-- Nothing is scheduled once the promise is settled. -/
theorem schedule_of_isSettled (delay : Number) {f : Frame σ}
    (h : f.execution.promise.isSettled = true) :
    a.schedule run delay f = Step.perform (Act.note .notScheduling) f := by
  simp only [schedule, Step.bind_apply, Step.read_apply, h, if_true, Step.act_eq_perform]

/-- What scheduling does: nothing that matters if the promise is settled; otherwise the scheduler is
called, and if that does not fail, a handle is kept. -/
theorem schedule_cases (delay : Number) (f : Frame σ) :
    (f.execution.promise.isSettled = true ∧
      ∃ q, Frame.Serves f (a.schedule run delay f).2 q ∧ Quiet q) ∨
    ∃ q os, Frame.Evolves f (a.schedule run delay f).2 (.scheduled delay :: q) os ∧ Quiet q ∧
      (a.IsCarriable run →
        (a.schedule run delay f).2.execution.promise.isSettled = true ∨
          (a.schedule run delay f).2.execution.handle.isSome = true) := by
  cases settled : f.execution.promise.isSettled with
  | true =>
    refine .inl ⟨rfl, [.note .notScheduling], ?_, quiet_singleton rfl⟩
    rw [a.schedule_of_isSettled run delay settled]
    exact Frame.absorb_serves rfl
  | false =>
    obtain ⟨q, hq, quiet⟩ := a.request_enters run (P := (·.isMilestone = false))
      (fun _ _ => rfl) delay (f.enter (.scheduled delay)).world
    have serves : Frame.Serves f (Step.perform (a.handOver run delay) f).2 (.scheduled delay :: q) :=
      Frame.absorb_serves (hq.trans (List.append_assoc _ _ _))
    rw [schedule_apply a run delay settled]
    rcases hh : Step.perform (a.handOver run delay) f with ⟨e | ⟨handle, os'⟩, f'⟩
    · rw [hh] at serves
      obtain ⟨os, evolves⟩ := serves.evolves
      obtain ⟨os', refused⟩ := Step.refuse_evolves e f'
      refine .inr ⟨q, os ++ os', ?_, quiet, ?_⟩
      · simpa using evolves.trans refused
      · intro carriable
        -- a fault of the scheduler rejects the promise
        have raised : e.IsCarriable := a.request_raisesOnly run carriable delay
          (f.enter (.scheduled delay)).world e (Prod.mk.inj hh).1
        exact .inl (isSettled_refuse raised f')
    · rw [hh] at serves
      obtain ⟨os, evolves⟩ := serves.evolves
      -- otherwise the handle that it has given is kept
      obtain ⟨unwatched, unsettling⟩ := a.request_orders run (Prod.mk.inj hh).1
      have kept := Frame.hold_evolves f' handle unwatched unsettling
      refine .inr ⟨q ++ [Event.held handle], os ++ os', ?_, ?_, fun _ => .inr rfl⟩
      · simpa using evolves.trans kept
      · exact quiet_append quiet (quiet_singleton rfl)

/-! ## Concluding -/

/-- What concluding an attempt with an outcome does. Either nothing is scheduled, or the scheduler is
called with the delay that the outcome was evaluated to. -/
structure Concludes (o : Outcome) (n : Nat) (f f' : Frame σ) (es : List Event) (os : List Order) :
    Prop where
  evolves : Frame.Evolves f f' es os
  entries : Quiet es ∨ ∃ d E q q', es = E ++ q ++ [.scheduled d] ++ q' ∧ a.Evaluates o n d E ∧
    Quiet q ∧ Quiet q'
  /-- The wait comes to its end or goes on. -/
  goesOn : a.IsCarriable run → f'.execution.promise.isSettled = true ∨
    (f'.execution.handle.isSome = true ∧ es.countP Event.isScheduled = 1)

/-- Entries without a milestone conclude a wait whose promise is settled by them. -/
theorem concludes_of_quiet {o : Outcome} {n : Nat} {f f' f'' : Frame σ} {es es' : List Event}
    {os : List Order} (serves : Frame.Serves f f' es) (evolves : Frame.Evolves f' f'' es' os)
    (quiet : Quiet es) (quiet' : Quiet es')
    (settles : a.IsCarriable run → f''.execution.promise.isSettled = true) :
    ∃ es os, a.Concludes run o n f f'' es os := by
  obtain ⟨os', first⟩ := serves.evolves
  exact ⟨es ++ es', os' ++ os, first.trans evolves, .inl (quiet_append quiet quiet'),
    fun carriable => .inl (settles carriable)⟩

theorem conclude_concludes (o : Outcome) (f : Frame σ) :
    ∃ es os, a.Concludes run o f.execution.attempt f (a.conclude run now o f).2 es os := by
  obtain ⟨es, judged, quiet, delayed⟩ :=
    a.judge_serves now o f.execution.attempt f.execution.started f
  rw [conclude_apply]
  rcases hj : a.judge now o f.execution.attempt f.execution.started f with ⟨e | c | d, f'⟩
  · -- judging has raised a fault
    rw [hj] at judged
    obtain ⟨os, refused⟩ := Step.refuse_evolves e f'
    apply a.concludes_of_quiet run judged refused quiet quiet_nil
    intro carriable
    exact isSettled_refuse
      (a.judge_raisesOnly now Misuse.fault_isCarriable carriable.waiter (congrArg Prod.fst hj)) f'
  · -- the wait has come to a conclusion
    rw [hj] at judged
    obtain ⟨os, settles⟩ := Frame.settle_evolves f' (p := .concluded c) rfl
    exact a.concludes_of_quiet run judged settles quiet quiet_nil fun _ => Frame.isSettled_settle f' rfl
  · rw [hj] at judged
    obtain ⟨E, q, rfl, evaluates, quiet'⟩ := delayed d (by rw [hj])
    rcases a.schedule_cases run d f' with ⟨settled, q', skips, quiet''⟩ | ⟨q', os', hands, quiet'', goesOn⟩
    · -- a hook has cancelled the promise
      obtain ⟨os, evolves⟩ := skips.evolves
      exact a.concludes_of_quiet run judged evolves quiet quiet'' fun _ =>
        (congrArg Promise.isSettled (evolves.kept settled)).trans settled
    · obtain ⟨os, evolves⟩ := judged.evolves
      refine ⟨_, _, evolves.trans hands, .inr ⟨d, E, q, q', by simp, evaluates, quiet', quiet''⟩, ?_⟩
      intro carriable
      rcases goesOn carriable with settled | held
      · exact .inl settled
      · refine .inr ⟨held, ?_⟩
        rw [List.countP_append, countP_isScheduled_quiet quiet, List.countP_cons,
          countP_isScheduled_quiet quiet'']
        rfl

/-! ## The callbacks -/

/-- What the callback that runs an attempt does. -/
inductive Attempts (f f' : Frame σ) : List Event → List Order → Prop where
  /-- The operation is not called. -/
  | stops {es os} (grows : Frame.Grows f f' es os) (quiet : Quiet es)
      (unwatched : os.countP Order.isWatch = 0)
      (settles : a.IsCarriable run → f'.execution.promise.isSettled = true) :
      Attempts f f' es os
  /-- The operation is called, and its poll is watched. -/
  | polls {q os} (grows : Frame.Grows f f' (q ++ [.polled (f.execution.attempt + 1)]) os)
      (quiet : Quiet q) (watched : os.countP Order.isWatch = 1)
      (attempt : f'.execution.attempt = f.execution.attempt + 1) :
      Attempts f f' (q ++ [.polled (f.execution.attempt + 1)]) os
  /-- The operation is called, and the call fails. -/
  | fails {q o g es os os'} (grows : Frame.Grows f g (q ++ [.polled (f.execution.attempt + 1)]) os)
      (quiet : Quiet q) (unwatched : os.countP Order.isWatch = 0)
      (attempt : g.execution.attempt = f.execution.attempt + 1) (fails : a.CallFails run o)
      (concludes : a.Concludes run o (f.execution.attempt + 1) g f' es os') :
      Attempts f f' (q ++ [.polled (f.execution.attempt + 1)] ++ es) (os ++ os')

/-- An attempt that comes too late for its promise is skipped. -/
theorem attempt_of_isSettled {f : Frame σ} (h : f.execution.promise.isSettled = true) :
    a.attempt run now f =
      Step.perform (Act.note .skipping) { f with execution := { f.execution with handle := none } } := by
  simp only [attempt, Step.bind_apply, Step.change_apply, Step.read_apply, h, if_true,
    Step.act_eq_perform]

/-- The execution at the beginning of its next attempt. -/
def begin (x : Execution) : Execution := { x with handle := none, attempt := x.attempt + 1 }

/-- While the promise is pending, an attempt is opened and the operation called. -/
theorem attempt_apply {f : Frame σ} (h : f.execution.promise.isSettled = false) :
    a.attempt run now f = match Step.perform
        ((a.notifier now).opening (f.execution.attempt + 1) a.waiter.strategy.limit)
        { f with execution := begin f.execution } with
      | (.ok _, f') => a.launch run now (f.execution.attempt + 1) f'
      | (.error e, f') => Step.refuse e f' := by
  simp only [attempt, Step.bind_apply, Step.change_apply, Step.read_apply, h, Bool.false_eq_true,
    if_false, Step.guarding_apply, Step.act_eq_perform, Notifier.opening, Step.perform_bind_note]
  rcases hook : Step.perform ((a.notifier now).attempt (.int (f.execution.attempt + 1 : Nat)))
    { f with execution := begin f.execution } with ⟨e | ⟨⟩, f'⟩
  · simp only [begin] at hook
    simp only [hook]
  · have noted := Step.perform_note (.executing (f.execution.attempt + 1) a.waiter.strategy.limit)
      (Step.requests_of_perform hook)
    simp only [begin] at hook
    simp only [hook, noted]

/-- The execution when its operation is about to be called once more. -/
def countCall (x : Execution) : Execution := { x with calls := x.calls + 1 }

/-- The operation is called; its poll is watched, or the failure of the call is concluded with. -/
theorem launch_apply (n : Nat) (f : Frame σ) :
    a.launch run now n f = match Step.perform
        (Act.call (.polled n) (a.operation run (f.execution.calls + 1)))
        { f with execution := countCall f.execution } with
      | (.ok (.poll id), f') =>
        (.ok (), { f' with execution := { f'.execution with poll := some id } }.order (.watch id))
      | (.ok .unfit, f') => a.conclude run now (.raised Misuse.notAwaitable.fault) f'
      | (.error e, f') =>
        if e.isOrdinary then a.conclude run now (.raised e) f' else (.error e, f') := by
  simp only [launch, Step.bind_apply, Step.change_apply, Step.read_apply, Step.trying_apply,
    Step.perform_apply, countCall]
  rcases Act.call (.polled n) (a.operation run (f.execution.calls + 1)) f.world
    with ⟨e | ⟨id⟩ | _, w⟩
  · simp only
    split <;> rfl
  · rfl
  · rfl

/-- Calling the operation leaves a poll to watch, or an outcome to conclude with. In the first case it can
do no more to the promise than cancel it. -/
theorem launch_cases (n : Nat) (f : Frame σ) :
    (∃ os, Frame.Grows f (a.launch run now n f).2 [.polled n] os ∧
      os.countP Order.isWatch = 1 ∧
      (a.launch run now n f).2.execution.attempt = f.execution.attempt ∧
      f.execution.promise.OrCancelled (a.launch run now n f).2.execution.promise) ∨
    ∃ o g os es os', Frame.Grows f g [.polled n] os ∧ os.countP Order.isWatch = 0 ∧
      g.execution.attempt = f.execution.attempt ∧ a.CallFails run o ∧
      a.Concludes run o f.execution.attempt g (a.launch run now n f).2 es os' := by
  have counted : Frame.Grows f { f with execution := countCall f.execution } [] [] :=
    Frame.grows_change rfl
  have calls : Frame.Serves { f with execution := countCall f.execution } (Step.perform
      (Act.call (.polled n) (a.operation run (f.execution.calls + 1)))
      { f with execution := countCall f.execution }).2 [.polled n] := Frame.absorb_serves rfl
  rw [launch_apply]
  rcases hcall : Step.perform (Act.call (.polled n) (a.operation run (f.execution.calls + 1)))
    { f with execution := countCall f.execution } with ⟨result, g⟩
  rw [hcall] at calls
  obtain ⟨os, evolves⟩ := calls.evolves
  have grows : Frame.Grows f g [.polled n] os := counted.trans evolves.toGrows
  have attempt : g.execution.attempt = f.execution.attempt := by
    rw [calls.execution]
    rfl
  -- an outcome that the call has left is concluded with
  have fails : ∀ o, Launch.failure? result = some o →
      ∃ es os', a.CallFails run o ∧
        a.Concludes run o f.execution.attempt g (a.conclude run now o g).2 es os' := by
    intro o ho
    obtain ⟨es, os', concludes⟩ := a.conclude_concludes run now o g
    rw [attempt] at concludes
    exact ⟨es, os', ⟨_, f.world.caller, (congrArg Launch.failure? (Prod.mk.inj hcall).1).trans ho⟩,
      concludes⟩
  rcases result with e | ⟨id⟩ | _
  · cases ordinary : e.isOrdinary with
    | true =>
      obtain ⟨es, os', fails, concludes⟩ := fails (.raised e) rfl
      refine .inr ⟨_, g, os, es, os', grows, evolves.unwatched, attempt, fails, ?_⟩
      simpa [ordinary] using concludes
    | false =>
      -- the fault leaves the callback, and nothing follows
      obtain ⟨es, os', fails, -⟩ := fails (.raised e) rfl
      refine .inr ⟨_, g, os, [], [], grows, evolves.unwatched, attempt, fails, ?_⟩
      simp only [ordinary]
      refine ⟨Frame.evolves_refl g, .inl quiet_nil, ?_⟩
      intro carriable
      have raised : e.isOrdinary = true := carriable.operation (f.execution.calls + 1)
        f.world.caller e (Prod.mk.inj hcall).1
      exact absurd raised (by simp [ordinary])
  · refine .inl ⟨os ++ [.watch id], ?_, ?_, attempt, calls.promise⟩
    · exact ⟨grows.history, by simp [Frame.order, grows.orders], by
        simpa [Frame.order, Order.isSettling] using grows.settlings, grows.kept⟩
    · simp [evolves.unwatched, Order.isWatch]
  · obtain ⟨es, os', fails, concludes⟩ := fails _ rfl
    exact .inr ⟨_, g, os, es, os', grows, evolves.unwatched, attempt, fails, concludes⟩

variable {a run} in
theorem Attempts.grows {f f' : Frame σ} {es : List Event} {os : List Order}
    (h : a.Attempts run f f' es os) : Frame.Grows f f' es os := by
  cases h with
  | stops grows => exact grows
  | polls grows => exact grows
  | fails grows quiet unwatched attempt fails concludes =>
    exact grows.trans concludes.evolves.toGrows

theorem attempt_attempts (f : Frame σ) :
    ∃ es os, a.Attempts run f (a.attempt run now f).2 es os := by
  cases settled : f.execution.promise.isSettled with
  | true =>
    rw [attempt_of_isSettled a run now settled]
    have start : Frame.Grows f { f with execution := { f.execution with handle := none } } [] [] :=
      Frame.grows_change rfl
    have noted : Frame.Serves _ _ [.note .skipping] := Frame.absorb_serves
      (f := { f with execution := { f.execution with handle := none } })
      (w := (Act.note .skipping f.world).2) rfl
    obtain ⟨os, evolves⟩ := noted.evolves
    have grows := start.trans evolves.toGrows
    exact ⟨_, _, .stops grows (quiet_singleton rfl) evolves.unwatched fun _ =>
      (congrArg Promise.isSettled (grows.kept settled)).trans settled⟩
  | false =>
    have start : Frame.Grows f { f with execution := begin f.execution } [] [] :=
      Frame.grows_change rfl
    obtain ⟨q, opened, quiet⟩ := Step.perform_serves (Notifier.opening_enters (fun _ _ => rfl)
      (fun _ => rfl) (a.notifier now) (f.execution.attempt + 1) a.waiter.strategy.limit)
      { f with execution := begin f.execution }
    rw [attempt_apply a run now settled]
    rcases ho : Step.perform ((a.notifier now).opening (f.execution.attempt + 1)
      a.waiter.strategy.limit) { f with execution := begin f.execution } with ⟨e | ⟨⟩, f₁⟩
    · -- the hook has raised a fault
      rw [ho] at opened
      obtain ⟨os, evolves⟩ := opened.evolves
      obtain ⟨os', refused⟩ := Step.refuse_evolves e f₁
      have grows : Frame.Grows f (Step.refuse e f₁).2 q (os ++ os') := by
        simpa using start.trans (evolves.trans refused).toGrows
      refine ⟨_, _, .stops grows quiet (evolves.trans refused).unwatched ?_⟩
      intro carriable
      refine isSettled_refuse ?_ f₁
      exact Notifier.opening_raisesOnly carriable.waiter.hooks _ _ _ e (Prod.mk.inj ho).1
    · rw [ho] at opened
      obtain ⟨os, evolves⟩ := opened.evolves
      have grows : Frame.Grows f f₁ q os := by
        simpa using start.trans evolves.toGrows
      have attempt : f₁.execution.attempt = f.execution.attempt + 1 := by
        rw [opened.execution]
        rfl
      rcases a.launch_cases run now (f.execution.attempt + 1) f₁ with
        ⟨os', polls, watched, same, -⟩ | ⟨o, g, os', es, os'', calls, unwatched, same, fails, concludes⟩
      · refine ⟨_, _, .polls (grows.trans polls) quiet ?_ (same.trans attempt)⟩
        rw [List.countP_append, evolves.unwatched, watched]
      · rw [attempt] at concludes
        refine ⟨_, _, .fails (grows.trans calls) quiet ?_ (same.trans attempt) fails concludes⟩
        rw [List.countP_append, evolves.unwatched, unwatched]

/-- The execution when the poll that it knows of is over. -/
def forget (x : Execution) : Execution := { x with poll := none }

/-- The result of a poll comes too late for a promise that is settled. -/
theorem pollEnded_of_isSettled (ending : Ending) {f : Frame σ}
    (h : f.execution.promise.isSettled = true) :
    a.pollEnded run now ending f =
      Step.perform (Act.note (.ignoring f.execution.attempt))
        { f with execution := forget f.execution } := by
  simp only [pollEnded, Step.bind_apply, Step.change_apply, Step.read_apply, h, if_true,
    Step.act_eq_perform, forget]

/-- While the promise is pending, an ending that is an outcome is concluded with. -/
theorem pollEnded_of_outcome {ending : Ending} {o : Outcome} (ho : ending.outcome? = some o)
    {f : Frame σ} (h : f.execution.promise.isSettled = false) :
    a.pollEnded run now ending f =
      a.conclude run now o { f with execution := forget f.execution } := by
  simp only [pollEnded, Step.bind_apply, Step.change_apply, Step.read_apply, h, Bool.false_eq_true,
    if_false, forget]
  cases ending with
  | value v =>
    obtain rfl := Option.some.inj ho
    rfl
  | fault e =>
    cases ordinary : e.isOrdinary with
    | true =>
      obtain rfl : Outcome.raised e = o := by simpa [Ending.outcome?, ordinary] using ho
      simp only [ordinary, if_true]
    | false => exact absurd ho (by simp [Ending.outcome?, ordinary])
  | cancelled => exact nomatch ho

/-- Any other ending settles the promise with it. -/
theorem pollEnded_of_none {ending : Ending} (ho : ending.outcome? = none) {f : Frame σ}
    (h : f.execution.promise.isSettled = false) :
    ∃ q g, Frame.Serves { f with execution := forget f.execution } g q ∧
      (∀ e ∈ q, e.isTidying = true) ∧ ending.promise.isSettled = true ∧
      a.pollEnded run now ending f = (.ok (), g.settle ending.promise) ∧
      (g.settle ending.promise).execution.promise = ending.promise := by
  simp only [pollEnded, Step.bind_apply, Step.change_apply, Step.read_apply, h, Bool.false_eq_true,
    if_false, Step.act_eq_perform]
  cases ending with
  | value v => exact nomatch ho
  | fault e =>
    have stop : e.isOrdinary = false := by simpa [Ending.outcome?] using ho
    refine ⟨[], { f with execution := forget f.execution }, Frame.serves_refl _, by simp, rfl, ?_, ?_⟩
    · simp [stop, Step.reject, Promise.ofFault, Fault.isA_stopIteration stop, forget, h, Ending.promise]
    · rw [Frame.settle_of_pending (f := { f with execution := forget f.execution }) h]
  | cancelled =>
    have noted : Frame.Serves { f with execution := forget f.execution }
        (Step.perform (Act.note (.pollCancelled f.execution.attempt))
          { f with execution := forget f.execution }).2 [.note (.pollCancelled f.execution.attempt)] :=
      Frame.absorb_serves rfl
    refine ⟨_, _, noted, by simp [Event.isTidying], rfl, rfl, ?_⟩
    -- somebody may have cancelled the promise meanwhile, which comes to the same
    rcases noted.promise.of_pending (Promise.eq_pending h) with pending | cancelled
    · rw [Frame.settle_of_pending (by rw [pending]; rfl)]
    · rw [Frame.settle_of_isSettled (by rw [cancelled]; rfl), cancelled]
      rfl

/-- What the callback that takes the result of a poll does: it leaves the promise settled, or it
concludes with the outcome that the ending is. -/
structure Takes (ending : Ending) (f f' : Frame σ) (es : List Event) (os : List Order) : Prop where
  grows : Frame.Grows f f' es os
  unwatched : os.countP Order.isWatch = 0
  attempt : f'.execution.attempt = f.execution.attempt
  result : (Quiet es ∧ f'.execution.promise.isSettled = true) ∨
    ∃ o g, ending.outcome? = some o ∧ a.Concludes run o f.execution.attempt g f' es os

theorem takes_of_evolves {ending : Ending} {f f' : Frame σ} {es : List Event} {os : List Order}
    (h : Frame.Evolves { f with execution := forget f.execution } f' es os)
    (result : (Quiet es ∧ f'.execution.promise.isSettled = true) ∨
      ∃ o g, ending.outcome? = some o ∧ a.Concludes run o f.execution.attempt g f' es os) :
    a.Takes run ending f f' es os where
  grows := (Frame.grows_change (x := forget f.execution) rfl).trans h.toGrows
  unwatched := h.unwatched
  attempt := by rw [h.rest]; rfl
  result := result

theorem pollEnded_takes (ending : Ending) (f : Frame σ) :
    ∃ es os, a.Takes run ending f (a.pollEnded run now ending f).2 es os := by
  cases settled : f.execution.promise.isSettled with
  | true =>
    -- too late: the ending is only noted
    rw [pollEnded_of_isSettled a run now ending settled]
    have noted : Frame.Serves { f with execution := forget f.execution }
        (Step.perform (Act.note (.ignoring f.execution.attempt))
          { f with execution := forget f.execution }).2 [.note (.ignoring f.execution.attempt)] :=
      Frame.absorb_serves rfl
    obtain ⟨os, evolves⟩ := noted.evolves
    refine ⟨_, os, a.takes_of_evolves run evolves (.inl ⟨quiet_singleton rfl, ?_⟩)⟩
    rw [evolves.kept settled]
    exact settled
  | false =>
    cases ho : ending.outcome? with
    | some o =>
      rw [pollEnded_of_outcome a run now ho settled]
      obtain ⟨es, os, concludes⟩ :=
        a.conclude_concludes run now o { f with execution := forget f.execution }
      exact ⟨es, os, a.takes_of_evolves run concludes.evolves (.inr ⟨o, _, ho, concludes⟩)⟩
    | none =>
      obtain ⟨q, g, serves, tidying, hp, heq, -⟩ := a.pollEnded_of_none run now ho settled
      have quiet := quiet_of_isTidying tidying
      rw [heq]
      obtain ⟨os, evolves⟩ := serves.evolves
      obtain ⟨os', settles⟩ := Frame.settle_evolves g hp
      exact ⟨_, _, a.takes_of_evolves run (evolves.trans settles)
        (.inl ⟨quiet_append quiet quiet_nil, Frame.isSettled_settle g hp⟩)⟩

end Asynchronous

/-! ## Cleaning up -/

/-- What a part of a callback does that is about the log or about cleaning up: it makes no other entries,
watches no poll and leaves the counters alone. -/
structure Frame.Tidies (f f' : Frame σ) (es : List Event) (os : List Order) : Prop
    extends Grows f f' es os where
  tidying : ∀ e ∈ es, e.isTidying = true
  unwatched : os.countP Order.isWatch = 0
  attempt : f'.execution.attempt = f.execution.attempt
  calls : f'.execution.calls = f.execution.calls

namespace Frame

theorem tidies_refl (f : Frame σ) : Tidies f f [] [] :=
  ⟨grows_refl f, by simp, rfl, rfl, rfl⟩

theorem Tidies.trans {f f' f'' : Frame σ} {es es' : List Event} {os os' : List Order}
    (h : Tidies f f' es os) (h' : Tidies f' f'' es' os') : Tidies f f'' (es ++ es') (os ++ os') where
  toGrows := h.toGrows.trans h'.toGrows
  tidying := by
    intro e he
    rcases List.mem_append.1 he with he | he
    · exact h.tidying e he
    · exact h'.tidying e he
  unwatched := by rw [List.countP_append, h.unwatched, h'.unwatched]
  attempt := h'.attempt.trans h.attempt
  calls := h'.calls.trans h.calls

/-- A change of the execution that is about neither the promise nor the counters. -/
theorem tidies_change {f : Frame σ} {x : Execution} (promise : x.promise = f.execution.promise)
    (attempt : x.attempt = f.execution.attempt) (calls : x.calls = f.execution.calls) :
    Tidies f { f with execution := x } [] [] :=
  ⟨grows_change promise, by simp, rfl, attempt, calls⟩

/-- Code of the caller's that tidies up. -/
theorem Serves.tidies {f f' : Frame σ} {es : List Event} (h : Serves f f' es)
    (tidying : ∀ e ∈ es, e.isTidying = true) : ∃ os, Tidies f f' es os := by
  obtain ⟨os, evolves⟩ := h.evolves
  have execution := h.execution
  exact ⟨os, evolves.toGrows, tidying, evolves.unwatched, by rw [execution], by rw [execution]⟩

end Frame

namespace Step

/-- A part of a callback that tidies up. -/
def Tidies (s : Step σ α) : Prop := ∀ f, ∃ es os, Frame.Tidies f (s f).2 es os

theorem tidies_pure (x : α) : Tidies (pure x : Step σ α) :=
  fun f => ⟨[], [], Frame.tidies_refl f⟩

theorem tidies_bind {s : Step σ α} {t : α → Step σ β} (hs : Tidies s) (ht : ∀ x, Tidies (t x)) :
    Tidies (s >>= t) := by
  intro f
  obtain ⟨es, os, first⟩ := hs f
  rw [bind_apply]
  rcases hf : s f with ⟨e | x, f'⟩
  · rw [hf] at first
    exact ⟨es, os, first⟩
  · rw [hf] at first
    obtain ⟨es', os', second⟩ := ht x f'
    exact ⟨es ++ es', os ++ os', first.trans second⟩

theorem tidies_perform {a : Act σ α} (h : a.Enters (·.isTidying = true)) :
    Tidies (perform a) := by
  intro f
  obtain ⟨q, hq, tidying⟩ := h f.world
  have serves : Frame.Serves f (perform a f).2 q := Frame.absorb_serves hq
  exact ⟨q, serves.tidies tidying⟩

theorem tidies_read (g : Execution → α) : Tidies (read g : Step σ α) :=
  fun f => ⟨[], [], Frame.tidies_refl f⟩

theorem tidies_change {g : Execution → Execution} (h : ∀ x, (g x).promise = x.promise ∧
    (g x).attempt = x.attempt ∧ (g x).calls = x.calls) : Tidies (change g : Step σ Unit) := by
  intro f
  obtain ⟨promise, attempt, calls⟩ := h f.execution
  exact ⟨[], [], Frame.tidies_change promise attempt calls⟩

theorem tidies_enter {e : Event} (h : e.isTidying = true) : Tidies (enter e : Step σ Unit) :=
  fun _ => ⟨[e], [], ⟨rfl, by simp [Frame.enter], by simp [Frame.enter], fun _ => rfl⟩,
    by simpa using h, rfl, rfl, rfl⟩

theorem tidies_order {o : Order} (unwatched : o.isWatch = false)
    (unsettling : o.isSettling = false) : Tidies (order o : Step σ Unit) := by
  intro f
  refine ⟨[], [o], ⟨?_, rfl, ?_, fun _ => rfl⟩, by simp, ?_, rfl, rfl⟩
  · simp [Frame.order]
  · simp [Frame.order, unsettling]
  · simp [unwatched]

end Step

namespace Asynchronous

variable (a : Asynchronous σ)

theorem cancelHandle_tidies (h : Handle) : (a.cancelHandle h).Tidies := by
  cases h with
  | timer => exact Step.tidies_bind (Step.tidies_enter rfl) fun _ => Step.tidies_order rfl rfl
  | custom id =>
    have withdrawn : (Act.call (.withdrawn (.custom id)) (a.scheduler.cancel id)).Enters
        (·.isTidying = true) := Act.enters_call (by rfl) _
    simp only [cancelHandle, Step.act_eq_perform]
    exact Step.tidies_perform withdrawn

theorem withdraw_tidies : a.withdraw.Tidies := by
  apply Step.tidies_bind (Step.tidies_read _)
  intro handle
  cases handle with
  | none => exact Step.tidies_pure _
  | some h =>
    apply Step.tidies_bind (a.cancelHandle_tidies h)
    intro _
    exact Step.tidies_change fun x => ⟨rfl, rfl, rfl⟩

theorem stop_tidies : a.stop.Tidies := by
  apply Step.tidies_bind (Step.tidies_read _)
  intro poll
  cases poll with
  | none => exact Step.tidies_pure _
  | some id =>
    simp only [Step.act_eq_perform]
    have stopped : (Act.call (.stopped id) (a.cancelPoll id)).Enters (·.isTidying = true) :=
      Act.enters_call (by rfl) _
    apply Step.tidies_bind (Step.tidies_perform stopped)
    intro _
    exact Step.tidies_change fun x => ⟨rfl, rfl, rfl⟩

theorem settled_tidies : a.settled.Tidies := by
  apply Step.tidies_bind (Step.tidies_read _)
  intro p
  cases p with
  | cancelled =>
    simp only [Step.act_eq_perform]
    apply Step.tidies_bind (Step.tidies_read _)
    intro n
    apply Step.tidies_bind (Step.tidies_perform (Act.enters_record rfl))
    intro _
    exact Step.tidies_bind a.withdraw_tidies fun _ => a.stop_tidies
  | _ => exact Step.tidies_pure _

/-- The callback behind the settling of the promise does nothing unless the promise is cancelled. -/
theorem settled_of_uncancelled {f : Frame σ} (h : f.execution.promise ≠ .cancelled) :
    a.settled f = (.ok (), f) := by
  simp only [settled, Step.bind_apply, Step.read_apply]
  cases hp : f.execution.promise with
  | cancelled => exact absurd hp h
  | _ => rfl

end Asynchronous

end Polling
