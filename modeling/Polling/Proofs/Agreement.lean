import Polling.Proofs.Alike
import Polling.Proofs.Evaluation
import Polling.Proofs.Progress

/-!
# Blocking and asynchronous waits agree

An asynchronous execution does what a blocking run with the same waiter and the same outcomes does, and
comes to the same end. The blocking run is one function, the execution a machine that is spread over
callbacks. Between two of them, `Blocking.Rests` says what is left of the blocking run: from the next
attempt on, from the outcome of a poll on, or nothing. Each callback makes the blocking run do its
share: `attempt_continues` and `pollEnded_continues`.

A cancelled promise ends the comparison. So does code of the caller's that raises what no promise can
carry: a blocking run raises it, and a promise stays pending.
-/

namespace Polling

variable {V : Type}

/-- A blocking wait and an asynchronous execution that can be compared. They have the same waiter, and
the code in it raises only what a promise can carry. Their operations end in given outcomes, call by
call, and the delays that the backoff gives can be waited. Nothing but the waiter's code has an influence on
what this code sees. -/
structure Comparable (a : Asynchronous σ) (run : RunId) (b : Blocking σ) (view : σ → V)
    (o : Nat → Outcome) : Prop where
  waiter : a.waiter = b.waiter
  sees : b.waiter.Sees view
  carriable : b.waiter.RaisesOnly Fault.IsCarriable
  signal : b.signal = none
  ordinary : ∀ i e, o i = .raised e → e.isOrdinary = true
  operation : ∀ i, (∀ c, (b.operation i c).1 = (o i).result) ∧ (b.operation i).Unseen view
  /-- The call gives a poll, or it fails with the outcome. -/
  launch : ∀ i, (∀ c o', Launch.failure? (a.operation run i c).1 = some o' → o' = o i) ∧
    (a.operation run i).Unseen view
  sleep : ∀ n d, b.waiter.strategy.backoff.GrantsAfter n d → (b.sleep d).Returns ∧ (b.sleep d).Unseen view
  schedule : ∀ schedule cancel, a.scheduler = .custom schedule cancel →
    ∀ d, (schedule run d).Returns ∧ (schedule run d).Unseen view

theorem Promise.unsettled_of_pending {p : Promise} (h : p = .pending) : p.isSettled = false := by
  rw [h]
  rfl

/-- The promise of an execution whose blocking counterpart ends in a result. -/
def Promise.ofResult : Except Fault Conclusion → Promise
  | .ok c => .concluded c
  | .error e => .rejected e

/-- Has the wait come to a conclusion? -/
def Promise.isConcluded : Promise → Bool
  | .concluded _ => true
  | _ => false

theorem Promise.isSettled_ofResult (r : Except Fault Conclusion) : (ofResult r).isSettled = true := by
  cases r <;> rfl

/-- An execution that is not over and has called its operation in every attempt. -/
structure Execution.Underway (x : Execution) : Prop where
  pending : x.promise = .pending
  calls : x.calls = x.attempt
  started : ∃ t, x.started = .real t

/-- What is left of a blocking run, in a world, when an execution with so many polls in flight stands as
it does. The run ends in `r`. -/
inductive Blocking.Rests (b : Blocking σ) (o : Nat → Outcome) (started : Value)
    (r : Except Fault Conclusion × World σ) : Execution → Nat → World σ → Prop where
  /-- The next attempt is to come. -/
  | between {x w} (underway : x.Underway) (left : x.attempt < b.waiter.strategy.limit)
      (rest : b.rounds started (b.waiter.strategy.limit - x.attempt) (x.attempt + 1) w = r) :
      Rests b o started r x 0 w
  /-- The outcome of a poll is to come. -/
  | polling {x w} (underway : x.Underway)
      (rest : b.resume started x.attempt (o x.attempt) w = r) : Rests b o started r x 1 w
  /-- Nothing is to come. -/
  | closed {x n w} (promise : x.promise = .ofResult r.1) (last : r.2 = w) : Rests b o started r x n w

/-- A frame in which a callback ends: the promise has been cancelled, or the blocking run has done its
share too. -/
def Blocking.Continues (b : Blocking σ) (o : Nat → Outcome) (started : Value) (view : σ → V)
    (H : List Event) (r : Except Fault Conclusion × World σ) (f : Frame σ) : Prop :=
  f.execution.promise = .cancelled ∨
    ∃ w, f.world.Mirrors view H w ∧
      b.Rests o started r f.execution (f.orders.countP Order.isWatch) w

/-- What rests of a blocking run leads to the end of the run. -/
theorem Blocking.Rests.plain_prefix {b : Blocking σ} {o : Nat → Outcome} {started : Value}
    {r : Except Fault Conclusion × World σ} {x : Execution} {n : Nat} {w : World σ}
    (h : b.Rests o started r x n w) : plainOf w.history <+: plainOf r.2.history := by
  have leads : ∃ es, r.2.history = w.history ++ es := by
    cases h with
    | between underway left rest =>
      obtain ⟨es, hes, -⟩ := b.rounds_enters (P := fun _ => True) (fun _ _ => trivial) trivial started
        (b.waiter.strategy.limit - x.attempt) (x.attempt + 1) w
      exact ⟨es, rest ▸ hes⟩
    | polling underway rest =>
      obtain ⟨es, hes, -⟩ := b.resume_enters (P := fun _ => True) (fun _ _ => trivial) trivial started
        x.attempt (o x.attempt) w
      exact ⟨es, rest ▸ hes⟩
    | closed promise last => exact ⟨[], by rw [last, List.append_nil]⟩
  obtain ⟨es, hes⟩ := leads
  exact ⟨plainOf es, by rw [hes, plainOf_append]⟩

/-! ## Parts of a callback -/

/-- The timers of a loop take every delay that is a time and not below zero. -/
theorem Scheduler.span_apply {d : Number} {x : Binary64} (nonneg : d.lt (.int 0) = false)
    (real : d.toReal? = some x) (w : World σ) :
    span true (.number d) w = (.ok x, { w with
      history := w.history ++ [Event.note (.scheduling (Number.layout.fixed 2 x))] }) := by
  simp only [span, Act.bind_apply, Act.lift_ok_apply, nonNegative_number nonneg, real]
  rfl

/-- As long as its promise is pending, an execution stays under way while code of the caller's runs. -/
theorem Frame.Serves.underway {f f' : Frame σ} {es : List Event} (h : Serves f f' es)
    (underway : f.execution.Underway) (pending : f'.execution.promise = .pending) :
    f'.execution.Underway ∧ f'.execution.attempt = f.execution.attempt := by
  rw [h.execution]
  exact ⟨⟨pending, underway.calls, underway.started⟩, rfl⟩

variable {view : σ → V} {H : List Event} {f : Frame σ} {w : World σ}

/-- Acting on the result of judging keeps a promise cancelled. -/
theorem Asynchronous.follow_cancelled (a : Asynchronous σ) (run : RunId) (next : Conclusion ⊕ Number)
    (cancelled : f.execution.promise = .cancelled) :
    (a.follow run next f).2.execution.promise = .cancelled := by
  cases next with
  | inl c =>
    obtain ⟨os, settles⟩ := Frame.settle_evolves f (p := .concluded c) rfl
    exact settles.cancelled cancelled
  | inr d =>
    rcases a.schedule_cases run d f with ⟨-, q, skips, -⟩ | ⟨q, os, hands, -⟩
    · obtain ⟨os, evolves⟩ := skips.evolves
      exact evolves.cancelled cancelled
    · exact hands.cancelled cancelled

namespace Comparable

variable {a : Asynchronous σ} {run : RunId} {b : Blocking σ} {o : Nat → Outcome}
  {r : Except Fault Conclusion × World σ} {started : Binary64}

theorem isCarriable (hc : Comparable a run b view o) : a.IsCarriable run where
  waiter := hc.waiter ▸ hc.carriable
  scheduler := fun schedule cancel hs d c e he =>
    ((hc.schedule schedule cancel hs d).1 c e he).elim
  operation := fun i c e he =>
    hc.ordinary i e ((hc.launch i).1 c (.raised e) (congrArg Launch.failure? he)).symm

variable (hc : Comparable a run b view o) (now : Binary64)
include hc

/-- Judging within a callback looks like judging in a blocking run. -/
theorem judge_alike (oc : Outcome) (n : Nat) (t : Binary64) :
    (a.judge now oc n (.real t)).Alike view (b.notifier.judge b.waiter oc n (.real started)) := by
  unfold Asynchronous.judge Asynchronous.notifier
  rw [hc.waiter]
  apply Step.alike_bind (Step.alike_perform (evaluate_alike hc.sees oc _))
  intro tr
  exact Step.alike_bind (Step.alike_perform (Notifier.tell_alike hc.sees oc n t started tr))
    fun _ => Step.alike_pure _

omit hc now in
/-- A fault that the blocking run raises rejects the promise. -/
theorem refuse_continues {e : Fault} (carriable : e.IsCarriable)
    (promise : f.execution.promise = .pending ∨ f.execution.promise = .cancelled)
    (mirrors : f.world.Mirrors view H w) (rest : (.error e, w) = r) :
    b.Continues o (.real started) view H r (Step.refuse e f).2 := by
  obtain ⟨os, refused⟩ := Step.refuse_evolves e f
  rcases promise with pending | cancelled
  · have unsettled := Promise.unsettled_of_pending pending
    have rejects : Step.refuse e f = (.ok (), f.settle (.rejected e)) := by
      simp [Step.refuse, carriable.1, Step.reject, unsettled, Promise.ofFault, carriable.2]
    rw [rejects, Frame.settle_of_pending unsettled]
    subst rest
    exact .inr ⟨w, mirrors, .closed rfl rfl⟩
  · exact .inl (refused.cancelled cancelled)

/-- Handing a delay over succeeds and looks like a sleep. -/
theorem handOver_ok {n : Nat} {d : Number} (retries : Retries b.waiter.strategy n d) (w : World σ) :
    ∃ handle os w' q, a.handOver run d w = (.ok (handle, os), w') ∧
      view w'.caller.state = view w.caller.state ∧
      w'.history = w.history ++ Event.scheduled d :: q ∧ plainOf q = [] := by
  obtain ⟨x, real⟩ := Option.isSome_iff_exists.1 retries.real
  simp only [Asynchronous.handOver, Asynchronous.request, Act.bind_apply, Act.record_apply]
  cases hs : a.scheduler with
  | timers given =>
    refine ⟨.timer, [.timer x], { w with history := w.history ++ [Event.scheduled d] ++
      [.note (.scheduling (Number.layout.fixed 2 x))] }, _, ?_, rfl, List.append_assoc _ _ _, rfl⟩
    show (Scheduler.span true (.number d) >>= _) _ = _
    rw [Act.bind_apply, Scheduler.span_apply retries.nonneg real]
    rfl
  | custom schedule cancel =>
    obtain ⟨returns, unseen⟩ := hc.schedule schedule cancel hs d
    obtain ⟨id, hid⟩ := returns.ok w.caller
    refine ⟨.custom id, [], { w with
      caller := (schedule run d w.caller).2, history := w.history ++ [Event.scheduled d] }, [], ?_,
      unseen w.caller, rfl, rfl⟩
    simp [Act.bind_apply, hid]

/-! ## Callbacks -/

/-- Scheduling the next attempt is the sleep of the blocking run. -/
theorem schedule_continues {d : Number} {t : Binary64} (mirrors : f.world.Mirrors view H w)
    (underway : f.execution.Underway) (unwatched : f.orders.countP Order.isWatch = 0)
    (retries : Retries b.waiter.strategy f.execution.attempt d)
    (rest : b.proceed (.real t) f.execution.attempt (.inr d) w = r) :
    b.Continues o (.real t) view H r (a.schedule run d f).2 := by
  have unsettled := Promise.unsettled_of_pending underway.pending
  obtain ⟨handle, os, w₁, q, handed, sight, history, plain⟩ := hc.handOver_ok retries f.world
  have unwatching : os.countP Order.isWatch = 0 :=
    (a.request_orders run (w := (f.enter (.scheduled d)).world) (congrArg Prod.fst handed)).1
  have serves : Frame.Serves f { f with world := w₁ }.absorb (.scheduled d :: q) :=
    Frame.absorb_serves history
  have performed : Step.perform (a.handOver run d) f =
      (.ok (handle, os), { f with world := w₁ }.absorb) := by
    rw [Step.perform_apply, handed]
  rw [a.schedule_apply run d unsettled, performed]
  rcases serves.promise.of_pending underway.pending with pending | cancelled
  · -- the blocking run sleeps for the same delay and goes on to its next round
    obtain ⟨os', evolves⟩ := serves.evolves
    obtain ⟨⟨-, calls, started⟩, same⟩ := serves.underway underway pending
    obtain ⟨returns, unseen⟩ := hc.sleep _ d retries.given
    have slept := Blocking.pause_apply hc.signal returns w
    simp only [Blocking.proceed, Blocking.close, Act.bind_apply, slept] at rest
    refine .inr ⟨{ caller := (b.sleep d w.caller).2, history := w.history ++ [Event.slept d] }, ⟨?_, ?_⟩, ?_⟩
    · simpa [sight, unseen w.caller] using mirrors.view
    · have scheduled : plainOf (.scheduled d :: q) = [.scheduled d] :=
        congrArg (Event.scheduled d :: ·) plain
      rw [plainOf_append, mirrors.history]
      simp only [Frame.hold_history, Frame.absorb_history, history, plainOf_append, plainOf_held,
        scheduled, List.append_nil, List.append_assoc]
      rfl
    · have watches : (({ f with world := w₁ } : Frame σ).absorb.orders ++ os).countP Order.isWatch = 0 := by
        simp [evolves.orders, unwatched, evolves.unwatched, unwatching]
      simp only [Frame.hold_orders, Frame.hold_execution]
      rw [watches]
      refine .between ⟨pending, calls, started⟩ (Nat.lt_of_le_of_lt (Nat.le_of_eq same) retries.left) ?_
      show b.rounds _ (_ - Execution.attempt _) (Execution.attempt _ + 1) _ = r
      rw [same]
      exact rest
  · exact .inl cancelled

/-- Concluding with an outcome is what the blocking run does with it. -/
theorem conclude_continues {oc : Outcome} {t : Binary64} (mirrors : f.world.Mirrors view H w)
    (underway : f.execution.Underway) (unwatched : f.orders.countP Order.isWatch = 0)
    (rest : b.resume (.real t) f.execution.attempt oc w = r) :
    b.Continues o (.real t) view H r (a.conclude run now oc f).2 := by
  obtain ⟨t', started⟩ := underway.started
  have alike : (a.judge now oc f.execution.attempt (.real t')).Alike view
      (b.notifier.judge b.waiter oc f.execution.attempt (.real t)) := hc.judge_alike now oc _ t'
  obtain ⟨result, mirrors'⟩ := alike H f w mirrors
  obtain ⟨es, serves, -, delayed⟩ := a.judge_serves now oc f.execution.attempt (.real t') f
  rw [Asynchronous.conclude_apply, started]
  rw [Blocking.resume, Act.bind_apply] at rest
  rcases hj : a.judge now oc f.execution.attempt (.real t') f with ⟨e | next, f'⟩ <;>
    rcases hb : b.notifier.judge b.waiter oc f.execution.attempt (.real t) w with ⟨e' | next', w'⟩ <;>
    rw [hj] at result mirrors' serves delayed <;> rw [hb] at result mirrors' rest
  · -- both raise the same fault
    obtain rfl := Except.error.inj result
    have carriable : e.IsCarriable := a.judge_raisesOnly now Misuse.fault_isCarriable
      (hc.waiter ▸ hc.carriable) (congrArg Prod.fst hj)
    exact refuse_continues carriable (serves.promise.of_pending underway.pending) mirrors' rest
  · exact nomatch result
  · exact nomatch result
  · obtain rfl := Except.ok.inj result
    rcases serves.promise.of_pending underway.pending with pending | cancelled
    · cases next with
      | inl c =>
        have unsettled := Promise.unsettled_of_pending pending
        refine .inr ⟨w', ?_, .closed ?_ ?_⟩
        · simpa [Asynchronous.follow, Frame.settle_of_pending unsettled] using mirrors'
        · simp [Asynchronous.follow, Frame.settle_of_pending unsettled, ← rest, Blocking.proceed,
            Blocking.close, Promise.ofResult]
        · simp [← rest, Blocking.proceed, Blocking.close]
      | inr d =>
        obtain ⟨E, q, -, ⟨x, x', evaluated, -⟩, -⟩ := delayed d rfl
        have retries := evaluate_eq_retry (congrArg Prod.fst evaluated)
        obtain ⟨underway', same⟩ := serves.underway underway pending
        obtain ⟨os, evolves⟩ := serves.evolves
        rw [hc.waiter, ← same] at retries
        rw [← same] at rest
        refine hc.schedule_continues mirrors' underway' ?_ retries rest
        rw [evolves.orders, List.countP_append, unwatched, evolves.unwatched]
    · exact .inl (a.follow_cancelled run next cancelled)

/-- Calling the operation is the poll of the blocking run. -/
theorem launch_continues {t : Binary64} (mirrors : f.world.Mirrors view H w)
    (pending : f.execution.promise = .pending) (calls : f.execution.calls + 1 = f.execution.attempt)
    (started : ∃ t, f.execution.started = .real t) (unwatched : f.orders.countP Order.isWatch = 0)
    (rest : (b.poll f.execution.attempt >>= b.resume (.real t) f.execution.attempt) w = r) :
    b.Continues o (.real t) view H r (a.launch run now f.execution.attempt f).2 := by
  generalize hn : f.execution.attempt = n at calls rest ⊢
  -- the call within the callback, and the one in the blocking run
  have serves : Frame.Serves { f with execution := Asynchronous.countCall f.execution }
      (Step.perform (Act.call (.polled n) (a.operation run n))
        { f with execution := Asynchronous.countCall f.execution }).2 [.polled n] :=
    Frame.absorb_serves rfl
  have mirrors' : (Step.perform (Act.call (.polled n) (a.operation run n))
      { f with execution := Asynchronous.countCall f.execution }).2.world.Mirrors view H
        { caller := (b.operation n w.caller).2, history := w.history ++ [Event.polled n] } := by
    constructor
    · simpa [Act.call_apply, (hc.launch n).2 f.world.caller, (hc.operation n).2 w.caller]
        using mirrors.view
    · simp [Act.call_apply, mirrors.history]
  rw [Act.bind_apply, Blocking.poll_apply ((hc.operation n).1 _) (hc.ordinary n)] at rest
  rw [Asynchronous.launch_apply, calls]
  have fails := (hc.launch n).1 f.world.caller
  rcases hp : Step.perform (Act.call (.polled n) (a.operation run n))
    { f with execution := Asynchronous.countCall f.execution } with ⟨result, g⟩
  have given : (a.operation run n f.world.caller).1 = result := congrArg Prod.fst hp
  rw [hp] at serves mirrors'
  rw [given] at fails
  obtain ⟨os, evolves⟩ := serves.evolves
  have unwatched' : g.orders.countP Order.isWatch = 0 := by
    rw [evolves.orders, List.countP_append, unwatched, evolves.unwatched]
  have attempt : g.execution.attempt = n := by
    rw [serves.execution]
    exact hn
  have underway : g.execution.promise = .pending → g.execution.Underway := by
    intro pending'
    rw [serves.execution]
    exact ⟨pending', calls.trans hn.symm, started⟩
  have promise := serves.promise.of_pending pending
  have concludes : ∀ oc, Launch.failure? result = some oc →
      b.Continues o (.real t) view H r (a.conclude run now oc g).2 := by
    intro oc hoc
    obtain rfl := fails oc hoc
    rcases promise with pending' | cancelled
    · exact hc.conclude_continues now mirrors' (underway pending') unwatched' (attempt ▸ rest)
    · obtain ⟨es, os', concludes⟩ := a.conclude_concludes run now (o n) g
      exact .inl (concludes.evolves.cancelled cancelled)
  rcases result with e | ⟨id⟩ | _
  · simp only [hc.ordinary n e (fails (.raised e) rfl).symm, if_true]
    exact concludes (.raised e) rfl
  · rcases promise with pending' | cancelled
    · refine .inr ⟨_, mirrors', ?_⟩
      have watches : (g.orders ++ [Order.watch id]).countP Order.isWatch = 1 := by
        simp [unwatched', Order.isWatch]
      obtain ⟨-, calls', started'⟩ := underway pending'
      show b.Rests _ _ _ _ ((g.orders ++ [Order.watch id]).countP Order.isWatch) _
      rw [watches]
      refine .polling ⟨pending', calls', started'⟩ ?_
      show b.resume _ g.execution.attempt (o g.execution.attempt) _ = r
      rw [attempt]
      exact rest
    · exact .inl cancelled
  · exact concludes _ rfl

omit hc now in
/-- A note leaves everything as it is when the run is over. -/
theorem note_continues {t : Binary64} (mirrors : f.world.Mirrors view H w)
    (promise : f.execution.promise = .ofResult r.1) (last : r.2 = w) (n : Note) :
    b.Continues o (.real t) view H r (Step.perform (Act.note n) f).2 := by
  have serves : Frame.Serves f (Step.perform (Act.note n) f).2 [.note n] := Frame.absorb_serves rfl
  obtain ⟨os, evolves⟩ := serves.evolves
  have settled : f.execution.promise.isSettled = true := promise ▸ Promise.isSettled_ofResult r.1
  refine .inr ⟨w, ⟨?_, ?_⟩, .closed ((evolves.kept settled).trans promise) last⟩
  · simpa [Act.note] using mirrors.view
  · have plain : plainOf [.note n] = [] := rfl
    simpa [Act.note, plain] using mirrors.history

/-- Running an attempt is the beginning of a round of the blocking run. -/
theorem attempt_continues {t : Binary64} (mirrors : f.world.Mirrors view H w)
    (underway : f.execution.Underway) (unwatched : f.orders.countP Order.isWatch = 0)
    (left : f.execution.attempt < b.waiter.strategy.limit)
    (rest : b.rounds (.real t) (b.waiter.strategy.limit - f.execution.attempt)
      (f.execution.attempt + 1) w = r) :
    b.Continues o (.real t) view H r (a.attempt run now f).2 := by
  have unsettled := Promise.unsettled_of_pending underway.pending
  obtain ⟨result, mirrors'⟩ := Step.alike_perform (Notifier.opening_alike hc.sees
    (fun _ => .real now) (fun s => .real (b.clock s)) (f.execution.attempt + 1)
    b.waiter.strategy.limit) H { f with execution := Asynchronous.begin f.execution } w mirrors
  obtain ⟨q, serves, -⟩ := Step.perform_serves (Notifier.opening_enters (fun _ _ => rfl) (fun _ => rfl)
    (b.waiter.notifier fun _ => .real now) (f.execution.attempt + 1) b.waiter.strategy.limit)
    { f with execution := Asynchronous.begin f.execution }
  rw [Asynchronous.attempt_apply a run now unsettled, Asynchronous.notifier, hc.waiter]
  rw [Blocking.rounds_eq b _ left, Act.bind_apply, Blocking.notifier] at rest
  rcases hp : Step.perform ((b.waiter.notifier fun _ => .real now).opening (f.execution.attempt + 1)
      b.waiter.strategy.limit) { f with execution := Asynchronous.begin f.execution } with ⟨e | ⟨⟩, g⟩ <;>
    rcases hb : (b.waiter.notifier fun s => .real (b.clock s)).opening (f.execution.attempt + 1)
      b.waiter.strategy.limit w with ⟨e' | ⟨⟩, w'⟩ <;>
    rw [hp] at result mirrors' serves <;> rw [hb] at result mirrors' rest
  · -- the hook raises the same fault in both
    obtain rfl := Except.error.inj result
    have carriable : e.IsCarriable := Notifier.opening_raisesOnly hc.carriable.hooks _ _ _ e
      (congrArg Prod.fst hp)
    exact refuse_continues carriable (serves.promise.of_pending underway.pending) mirrors' rest
  · exact nomatch result
  · exact nomatch result
  · obtain ⟨os, evolves⟩ := serves.evolves
    have attempt : g.execution.attempt = f.execution.attempt + 1 := by
      rw [serves.execution]
      rfl
    rw [← attempt] at rest ⊢
    rcases serves.promise.of_pending underway.pending with pending | cancelled
    · refine hc.launch_continues now mirrors' pending ?_ ?_ ?_ rest
      · rw [serves.execution]
        exact congrArg (· + 1) underway.calls
      · rw [serves.execution]
        exact underway.started
      · rw [evolves.orders, List.countP_append, unwatched, evolves.unwatched]
    · refine .inl ?_
      rcases a.launch_cases run now g.execution.attempt g with
        ⟨os', grows, -⟩ | ⟨oc, g', os', es, os'', grows, -, -, -, concludes⟩
      · exact grows.cancelled cancelled
      · exact concludes.evolves.cancelled (grows.cancelled cancelled)

/-- Taking the result of a poll is the rest of a round of the blocking run. -/
theorem pollEnded_continues {t : Binary64} {ending : Ending} (mirrors : f.world.Mirrors view H w)
    (underway : f.execution.Underway) (unwatched : f.orders.countP Order.isWatch = 0)
    (ends : ending.outcome? = some (o f.execution.attempt))
    (rest : b.resume (.real t) f.execution.attempt (o f.execution.attempt) w = r) :
    b.Continues o (.real t) view H r (a.pollEnded run now ending f).2 := by
  have unsettled := Promise.unsettled_of_pending underway.pending
  rw [a.pollEnded_of_outcome run now ends unsettled]
  exact hc.conclude_continues (f := { f with execution := Asynchronous.forget f.execution }) now mirrors
    ⟨underway.pending, underway.calls, underway.started⟩ unwatched rest

end Comparable

/-! ## Whole executions -/

/-- The polls that an execution watches end in given outcomes, call by call. -/
def EndsAs (o : Nat → Outcome) (es : List Event) : Prop :=
  ∀ es₁ e es₂, es = es₁ ++ .ended e :: es₂ → e.outcome? = some (o (es₁.countP Event.isPolled))

theorem EndsAs.of_append {o : Nat → Outcome} {es es' : List Event} (h : EndsAs o (es ++ es')) :
    EndsAs o es := by
  intro es₁ e es₂ hes
  exact h es₁ e (es₂ ++ es') (by simp [hes])

namespace Session

variable {a : Asynchronous σ} {run : RunId} {b : Blocking σ} {o : Nat → Outcome} {s s' : Session σ}
  {r : Except Fault Conclusion × World σ} {started : Value}

/-- The sessions that come about by moves after the start of an execution, if nothing but its own
callbacks changes what its waiter's code sees. -/
inductive Undisturbed (a : Asynchronous σ) (run : RunId) (view : σ → V) (v : V) : Session σ → Prop where
  | start {s : Session σ} (h : s.Reachable a) (new : s.runs.length = run) (seen : view s.caller.state = v) :
      Undisturbed a run view v (s.move a .start)
  | move {s : Session σ} (m : Move σ) (h : Undisturbed a run view v s)
      (same : s.Aside run m → view (s.move a m).caller.state = view s.caller.state) :
      Undisturbed a run view v (s.move a m)

theorem Undisturbed.reachable {v : V} (h : s.Undisturbed a run view v) : s.Reachable a := by
  induction h with
  | start h => exact h.move .start
  | move m _ _ ih => exact ih.move m

/-- An execution has done what the blocking run has done, and what is left of the run is left of it. If
its promise has been cancelled, nothing is said. -/
def Agrees (s : Session σ) (run : RunId) (b : Blocking σ) (o : Nat → Outcome) (started : Value)
    (view : σ → V) (r : Except Fault Conclusion × World σ) : Prop :=
  ∃ x, s.runs[run]? = some x ∧ (FiresOnce (s.journalOf run) → EndsAs o (s.journalOf run) →
    x.promise = .cancelled ∨
      ∃ w, World.Mirrors view [] { caller := s.caller, history := s.journalOf run } w ∧
        b.Rests o started r x (s.inFlight run) w)

/-- A callback keeps the agreement if the blocking run does its share. -/
theorem Ran.agrees {s₀ : Session σ} {x : Execution} {f : Frame σ} {k : Nat} (h : Ran s s' run x f k)
    {es : List Event} {os : List Order} (grows : Frame.Grows (s₀.frame run x) f es os)
    (continues : FiresOnce (s.journalOf run) → EndsAs o (s.journalOf run) →
      f.execution.promise = .cancelled ∨ ∃ w, f.world.Mirrors view (plainOf (s.journalOf run)) w ∧
        b.Rests o started r f.execution (s.inFlight run + f.orders.countP Order.isWatch) w) :
    s'.Agrees run b o started view r := by
  obtain ⟨p, hp, grown⟩ := h.grown grows
  have history : f.world.history = es := grows.history
  have orders : f.orders = os := grows.orders
  refine ⟨_, grown.lookup, ?_⟩
  intro once ends
  rw [grown.journal, List.append_assoc] at once ends
  -- the orders of the callback may have cancelled the promise, and then nothing is left to agree on
  rcases hp with rfl | ⟨-, rfl⟩
  · rcases continues (once.of_prefix (List.prefix_append _ _)) ends.of_append with
      cancelled | ⟨w, mirrors, rests⟩
    · exact .inl cancelled
    · refine .inr ⟨w, ⟨?_, ?_⟩, ?_⟩
      · rw [h.caller]
        exact mirrors.view
      · rw [mirrors.history, history, grown.journal]
        simp
      · rw [grown.inFlight, ← orders]
        exact rests
  · exact .inl rfl

/-- A callback that begins with no poll in flight keeps the agreement if the blocking run does its
share. -/
theorem Ran.agrees_of_landed {s₀ : Session σ} {x : Execution} {f : Frame σ} {k : Nat}
    (h : Ran s s' run x f k) {es : List Event} {os : List Order}
    (grows : Frame.Grows (s₀.frame run x) f es os)
    (continues : FiresOnce (s.journalOf run) → EndsAs o (s.journalOf run) →
      s.inFlight run = 0 ∧ b.Continues o started view (plainOf (s.journalOf run)) r f) :
    s'.Agrees run b o started view r := by
  apply h.agrees grows
  intro once ends
  obtain ⟨landed, continues⟩ := continues once ends
  rw [landed, Nat.zero_add]
  exact continues

/-- The frame in which a callback begins looks like the session. -/
theorem frame_mirrors {w : World σ}
    (h : World.Mirrors view [] { caller := s.caller, history := s.journalOf run } w) (x : Execution) :
    (s.frame run x).world.Mirrors view (plainOf (s.journalOf run)) w :=
  ⟨h.view, by rw [h.history]; simp [frame]⟩

/-- What is not about the execution keeps the agreement, unless it changes what the waiter's code sees. -/
theorem Agrees.shifts {k : Nat} (ih : s.Agrees run b o started view r) (h : Shifts s s' run k 0 0)
    (same : view s'.caller.state = view s.caller.state) : s'.Agrees run b o started view r := by
  obtain ⟨x, hx, agrees⟩ := ih
  obtain ⟨p, hp, lookup⟩ := h.execution x hx
  refine ⟨_, lookup, ?_⟩
  intro once ends
  rw [h.journal] at once ends
  -- calls of the scheduler are no plain entries, so the histories stay the same
  rcases hp with rfl | ⟨-, rfl⟩
  · rcases agrees (once.of_prefix (List.prefix_append _ _)) ends.of_append with
      cancelled | ⟨w, mirrors, rests⟩
    · exact .inl cancelled
    · refine .inr ⟨w, ⟨same.trans mirrors.view, ?_⟩, ?_⟩
      · rw [mirrors.history, h.journal]
        simp
      · rw [h.inFlight]
        exact rests
  · exact .inl rfl

/-- A move keeps the agreement. -/
theorem Agrees.move (hc : Comparable a run b view o) (h : s.Reachable a) {t : Binary64}
    (ih : s.Agrees run b o (.real t) view r) (m : Move σ)
    (same : s.Aside run m → view (s.move a m).caller.state = view s.caller.state) :
    (s.move a m).Agrees run b o (.real t) view r := by
  have ⟨x, hx, agrees⟩ := ih
  cases move_effect a h.sound m run with
  | other aside shifts => exact ih.shifts shifts (same aside)
  | start new => exact absurd hx (by simp [new])
  | @attempt l y k taken ran =>
    obtain rfl : x = y := Option.some.inj (hx.symm.trans ran.lookup)
    obtain ⟨es, os, attempts⟩ := a.attempt_attempts run l.time (s.frame run x)
    apply ran.agrees_of_landed attempts.grows
    intro once ends
    obtain ⟨-, -, landed⟩ := (h.inSequence run).attempt_taken h.sound hx once taken
    refine ⟨landed, ?_⟩
    rcases agrees once ends with cancelled | ⟨w, mirrors, rests⟩
    · exact .inl (attempts.grows.cancelled cancelled)
    · rw [(h.sound.attempt_taken taken).2, landed] at rests
      cases rests with
      | between underway left rest =>
        exact hc.attempt_continues l.time (frame_mirrors mirrors x) underway rfl left rest
      | closed promise last =>
        have settled : x.promise.isSettled = true := promise ▸ Promise.isSettled_ofResult r.1
        rw [a.attempt_of_isSettled (f := s.frame run x) run l.time settled]
        refine Comparable.note_continues ?_ promise last _
        exact frame_mirrors mirrors x
  | @pollEnded l ending y k taken ran =>
    obtain rfl : x = y := Option.some.inj (hx.symm.trans ran.lookup)
    obtain ⟨es, os, takes⟩ := a.pollEnded_takes run l.time ending (s.frame run x)
    apply ran.agrees_of_landed takes.grows
    intro once ends
    rw [journalOf_enter] at once ends ⊢
    have once' := once.of_prefix (List.prefix_append _ _)
    obtain ⟨course, -, landed⟩ := (h.inSequence run).pollEnded_taken h.sound hx once' taken
    -- the poll that has ended is that of the last call
    have calls : (s.journalOf run).countP Event.isPolled = x.attempt := course.countP_isPolled rfl
    have outcome : ending.outcome? = some (o x.attempt) := calls ▸ ends _ _ [] rfl
    refine ⟨landed, ?_⟩
    rw [show plainOf (s.journalOf run ++ [Event.ended ending]) = plainOf (s.journalOf run) by
      simp [plainOf, Event.plain?]]
    rcases agrees once' ends.of_append with cancelled | ⟨w, mirrors, rests⟩
    · exact .inl (takes.grows.cancelled cancelled)
    · rw [(h.sound.pollEnded_taken taken).2, landed] at rests
      cases rests with
      | polling underway rest =>
        exact hc.pollEnded_continues l.time (frame_mirrors mirrors x) underway rfl outcome rest
      | closed promise last =>
        have settled : x.promise.isSettled = true := promise ▸ Promise.isSettled_ofResult r.1
        rw [a.pollEnded_of_isSettled (f := s.frame run x) run l.time ending settled]
        refine Comparable.note_continues ?_ promise last _
        exact frame_mirrors mirrors x
  | @settled l y k taken ran =>
    obtain rfl : x = y := Option.some.inj (hx.symm.trans ran.lookup)
    obtain ⟨es, os, tidies⟩ := a.settled_tidies (s.frame run x)
    apply ran.agrees tidies.toGrows
    intro once ends
    rcases agrees once ends with cancelled | ⟨w, mirrors, rests⟩
    · exact .inl (tidies.cancelled cancelled)
    · by_cases cancelled : x.promise = .cancelled
      · exact .inl (tidies.cancelled cancelled)
      · rw [a.settled_of_uncancelled (f := s.frame run x) cancelled]
        refine .inr ⟨w, frame_mirrors mirrors x, ?_⟩
        rw [(h.sound.settled_taken taken).2] at rests
        exact rests

theorem Undisturbed.agrees (hc : Comparable a run b view o) {c : Caller σ}
    (h : s.Undisturbed a run view (view c.state)) :
    s.Agrees run b o (.real (b.clock c.state)) view (b.run { caller := c }) := by
  induction h with
  | @start s h new seen =>
    subst new
    cases move_effect a h.sound .start s.runs.length with
    | other aside => exact absurd rfl aside
    | @start x k new fresh ran =>
      obtain ⟨es, os, attempts⟩ := a.attempt_attempts s.runs.length s.loop.time
        (s.frame s.runs.length x)
      obtain ⟨journal, -, landed, -⟩ := h.sound.unknown s.runs.length (by simp)
      have empty : (s.add x).journalOf s.runs.length = [] := journal
      refine ran.agrees_of_landed attempts.grows fun _ _ => ⟨landed, ?_⟩
      rw [empty]
      -- nothing has been done yet, so all of the blocking run is left
      refine hc.attempt_continues s.loop.time (w := { caller := c }) ⟨seen, rfl⟩ ?_ rfl ?_ ?_
      · subst fresh
        exact ⟨rfl, rfl, _, rfl⟩
      · subst fresh
        exact b.waiter.strategy.limit_pos
      · subst fresh
        rfl
    | attempt taken ran => exact absurd ran.lookup (by simp)
    | pollEnded taken ran => exact absurd ran.lookup (by simp [enter])
    | settled taken ran => exact absurd ran.lookup (by simp)
  | move m h same ih => exact ih.move hc h.reachable m same

/-- An asynchronous execution and a blocking run agree, if its scheduler calls back no more often than it
was asked to, its polls end as the calls of the blocking operation do, and its promise is not cancelled.
At any time, the execution has made a part of the calls that the run makes, in the same order, with the
same arguments, and with the same delays between them. When its promise is settled, or nothing is to come
for it, it has made all of them, and its promise is what the run ends in. -/
theorem Undisturbed.agreement (hc : Comparable a run b view o) {c : Caller σ}
    (h : s.Undisturbed a run view (view c.state)) (once : FiresOnce (s.journalOf run))
    (ends : EndsAs o (s.journalOf run)) {x : Execution} (hx : s.runs[run]? = some x)
    (uncancelled : x.promise ≠ .cancelled) :
    plainOf (s.journalOf run) <+: plainOf (b.run { caller := c }).2.history ∧
    (x.promise.isSettled = true ∨ s.outstanding run = 0 →
      plainOf (s.journalOf run) = plainOf (b.run { caller := c }).2.history ∧
      x.promise = .ofResult (b.run { caller := c }).1) := by
  obtain ⟨y, hy, agrees⟩ := h.agrees hc
  obtain rfl : x = y := Option.some.inj (hx.symm.trans hy)
  obtain cancelled | ⟨w, mirrors, rests⟩ := agrees once ends
  · exact absurd cancelled uncancelled
  · have same : plainOf w.history = plainOf (s.journalOf run) := mirrors.history
    refine ⟨same ▸ rests.plain_prefix, ?_⟩
    intro finished
    have settled : x.promise.isSettled = true := by
      rcases finished with settled | idle
      · exact settled
      · -- while the promise is pending, something is to come
        cases pending : x.promise.isSettled with
        | true => rfl
        | false =>
          obtain ⟨balance, -⟩ := h.reachable.alive hc.isCarriable x hx pending
          simp only [outstanding, unfired] at idle
          omega
    generalize s.inFlight run = flying at rests
    cases rests with
    | between underway => exact absurd settled (by simp [underway.pending, Promise.isSettled])
    | polling underway => exact absurd settled (by simp [underway.pending, Promise.isSettled])
    | closed promise last => exact ⟨by rw [← same, last], promise⟩

end Session

/-! ## Examples -/

theorem brisk_comparable :
    Comparable (.brisk {}) 0 (Blocking.brisk {}) (id : Unit → Unit) Outcome.brisk where
  waiter := rfl
  sees := by
    refine ⟨?_, fun _ _ _ _ => ⟨rfl, rfl⟩, nofun, nofun, nofun, nofun⟩
    intro a ha payload _ _ _
    obtain rfl := List.mem_singleton.1 ha
    exact ⟨rfl, rfl⟩
  carriable := (Session.brisk_isCarriable 0).waiter
  signal := rfl
  ordinary := nofun
  operation _ := ⟨fun _ => rfl, fun _ => rfl⟩
  launch _ := ⟨nofun, fun _ => rfl⟩
  sleep _ _ _ := ⟨nofun, fun _ => rfl⟩
  schedule := by
    intro schedule cancel h d
    obtain ⟨rfl, -⟩ := Scheduler.custom.inj h
    exact ⟨nofun, fun _ => rfl⟩

namespace Session

theorem brisk_undisturbed (turns : Nat) :
    (brisk {} turns).Undisturbed (.brisk {}) 0 (id : Unit → Unit) () := by
  induction turns with
  | zero => exact .start (.init _ _) rfl rfl
  | succ turns ih => exact ih.move .turn fun _ => rfl

/-- Do the polls in a journal end in nothing at first, then in true? -/
def endsBriskly (es : List Event) : Bool :=
  (List.range es.length).all fun i =>
    match es[i]?, (es.take i).countP Event.isPolled with
    | some (.ended (.value .null)), calls => calls == 1
    | some (.ended (.value (.flag true))), calls => calls != 1
    | some (.ended _), _ => false
    | _, _ => true

theorem endsAs_brisk {es : List Event} (h : endsBriskly es = true) : EndsAs Outcome.brisk es := by
  rintro es₁ e es₂ rfl
  have here := List.all_eq_true.1 h es₁.length (by simp)
  simp only [List.getElem?_append_right (Nat.le_refl _), Nat.sub_self, List.getElem?_cons_zero,
    List.take_left'] at here
  unfold Outcome.brisk
  split at here
  · next calls h₁ =>
    obtain ⟨rfl⟩ := h₁
    simp [Ending.outcome?, beq_iff_eq.1 here]
  · next calls h₁ =>
    obtain ⟨rfl⟩ := h₁
    simp [Ending.outcome?, bne_iff_ne.1 here]
  · exact absurd here Bool.false_ne_true
  · next other h₁ h₂ h₃ => exact absurd rfl (h₃ e)

/-- Has the first execution come to a conclusion? -/
def succeeds (s : Session σ) : Bool := s.runs[0]?.any (·.promise.isConcluded)

/-- The brisk execution and the brisk run agree. -/
theorem agreement_brisk : ∃ x, (brisk {} 4).runs[0]? = some x ∧
    plainOf ((brisk {} 4).journalOf 0) =
      plainOf ((Blocking.brisk {}).run { caller := { state := () } }).2.history ∧
    x.promise = .ofResult ((Blocking.brisk {}).run { caller := { state := () } }).1 := by
  have once : FiresOnce ((brisk {} 4).journalOf 0) := by decide +kernel
  have ends : EndsAs Outcome.brisk ((brisk {} 4).journalOf 0) := endsAs_brisk (by decide +kernel)
  have idle : (brisk {} 4).outstanding 0 = 0 := by decide +kernel
  have success : (brisk {} 4).succeeds = true := by decide +kernel
  obtain ⟨x, hx, concluded⟩ := (Option.any_eq_true _ _).1 success
  refine ⟨x, hx, ((brisk_undisturbed 4).agreement brisk_comparable (c := { state := () }) once ends
    hx ?_).2 (.inr idle)⟩
  intro cancelled
  simp [cancelled, Promise.isConcluded] at concluded

end Session

/-! ## What the conditions are for -/

/-- A hook that raises a fault of some kind when the wait succeeds. -/
def Hooks.failing (k : FaultKind) : Hooks Unit where
  onSuccess := some fun _ => throw (.plain k [])

/-- A hook that raises a fault if the wait has taken any time. -/
def Hooks.hasty : Hooks Unit where
  onSuccess := some fun info =>
    match info.elapsed with
    | .real (.finite _ 0) => pure ()
    | _ => throw (.plain .value [])

/-- A brisk wait that cannot sleep. -/
def Blocking.restless : Blocking Unit :=
  { brisk {} with sleep := fun _ => throw (.plain .overflow []) }

/-- Two turns of a brisk execution, and a third when the clock has moved on. -/
def Session.late (hooks : Hooks Unit) : Session Unit :=
  ((brisk hooks 2).move (.brisk hooks) (.clock (.finite false 1))).move (.brisk hooks) .turn

/-- Nothing is to come for an execution, and of it and a blocking run just one has succeeded. -/
def Session.Differs (s : Session Unit) (b : Blocking Unit) : Prop :=
  FiresOnce (s.journalOf 0) ∧ EndsAs Outcome.brisk (s.journalOf 0) ∧ s.outstanding 0 = 0 ∧
  (b.run { caller := { state := () } }).1.isOk ≠ s.succeeds

/-- A brisk run raises the fault of a hook, but the promise of the execution with the same hook stays
pending, although nothing is to come for it. -/
def FaultKind.LeavesPending (k : FaultKind) : Prop :=
  ((Blocking.brisk (.failing k)).run { caller := { state := () } }).1 = .error (.plain k []) ∧
  FiresOnce ((Session.brisk (.failing k) 4).journalOf 0) ∧
  EndsAs Outcome.brisk ((Session.brisk (.failing k) 4).journalOf 0) ∧
  (Session.brisk (.failing k) 4).outstanding 0 = 0 ∧
  ((Session.brisk (.failing k) 4).runs[0]?.any fun x => x.promise matches .pending) = true

/-- Is a result a fault of some kind, raised with nothing? -/
def FaultKind.isRaisedBy (k : FaultKind) : Except Fault Conclusion → Bool
  | .error (.plain k' []) => k' == k
  | _ => false

theorem FaultKind.eq_of_isRaisedBy {k : FaultKind} {r : Except Fault Conclusion}
    (h : k.isRaisedBy r = true) : r = .error (.plain k []) := by
  unfold isRaisedBy at h
  split at h
  · rw [beq_iff_eq.1 h]
  · exact nomatch h

/-- Stop requests leave a promise pending, and so does the end of an iteration. A hook that looks at the
time can fail an execution that takes longer than the run, and a sleep can fail a run. -/
theorem disagreement : FaultKind.keyboardInterrupt.LeavesPending ∧
    FaultKind.generatorExit.LeavesPending ∧ FaultKind.stopIteration.LeavesPending ∧
    (Session.late .hasty).Differs (.brisk .hasty) ∧ (Session.brisk {} 4).Differs .restless := by
  refine ⟨⟨FaultKind.eq_of_isRaisedBy ?_, ?_, Session.endsAs_brisk ?_, ?_, ?_⟩,
    ⟨FaultKind.eq_of_isRaisedBy ?_, ?_, Session.endsAs_brisk ?_, ?_, ?_⟩,
    ⟨FaultKind.eq_of_isRaisedBy ?_, ?_, Session.endsAs_brisk ?_, ?_, ?_⟩,
    ⟨?_, Session.endsAs_brisk ?_, ?_, ?_⟩, ⟨?_, Session.endsAs_brisk ?_, ?_, ?_⟩⟩ <;>
    decide +kernel

end Polling
