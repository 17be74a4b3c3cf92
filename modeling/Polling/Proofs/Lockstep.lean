import Polling.Proofs.Alone
import Polling.Proofs.Calls
import Polling.Proofs.Coincidence

/-!
# Sessions in lockstep

Two asynchronous systems whose parts coincide (`Asynchronous.Coincide`) go in lockstep: whatever happens on
the loop, one session is in the state in which the other is, up to what is out of sight of the caller's
state and of the journal.

The relation is carried from parts of callbacks (`Step.Coincide`) to callbacks (`Around.body`,
`settled_coincides`), from there to what a move does (`Session.Coincide.move`), and by induction to any
number of moves (`Session.Coincide.moves`). Up to `Session.Coincide.move`, evaluations need not coincide:
two callbacks at the same point stay so unless they come to judge an outcome, and what they make of it is
put into a hypothesis.
-/

namespace Polling

variable {V : Type} {seen : Sight σ V}

/-! ## Parts of callbacks -/

/-- Two callbacks are at the same point, as far as can be seen. -/
structure Frame.Coincide (seen : Sight σ V) (f f' : Frame σ) : Prop where
  world : World.Coincide seen f.world f'.world
  execution : f.execution = f'.execution
  orders : f.orders = f'.orders

namespace Frame.Coincide

variable {f f' : Frame σ} (h : Coincide seen f f')
include h

theorem order (o : Order) : Coincide seen (f.order o) (f'.order o) :=
  ⟨h.world, h.execution, congrArg (· ++ [o]) h.orders⟩

theorem change (g : Execution → Execution) :
    Coincide seen { f with execution := g f.execution } { f' with execution := g f'.execution } :=
  ⟨h.world, congrArg g h.execution, h.orders⟩

theorem settle (p : Promise) : Coincide seen (f.settle p) (f'.settle p) := by
  unfold Frame.settle
  rw [h.execution]
  split
  · exact h
  · exact (show Coincide seen { f with execution := { f'.execution with promise := p } }
      { f' with execution := { f'.execution with promise := p } } from ⟨h.world, rfl, h.orders⟩).order _

theorem absorbOne (r : Request) : Coincide seen (f.absorbOne r) (f'.absorbOne r) := by
  cases r with
  | cancel run =>
    simp only [Frame.absorbOne, h.world.caller.serving]
    split
    · exact h.settle .cancelled
    · exact h.order _
  | _ => exact h.order _

theorem foldl_absorbOne (rs : List Request) :
    Coincide seen (rs.foldl Frame.absorbOne f) (rs.foldl Frame.absorbOne f') := by
  induction rs generalizing f f' with
  | nil => exact h
  | cons r rest ih => exact ih (h.absorbOne r)

/-- They look at the same requests. -/
theorem absorb : Coincide seen f.absorb f'.absorb := by
  simp only [Frame.absorb, h.world.caller.requests]
  have taken : Coincide seen
      { f with world := { f.world with caller := { f.world.caller with requests := [] } } }
      { f' with world := { f'.world with caller := { f'.world.caller with requests := [] } } } :=
    ⟨⟨⟨h.world.caller.state, h.world.caller.serving, rfl⟩, h.world.history⟩, h.execution, h.orders⟩
  exact taken.foldl_absorbOne _

end Frame.Coincide

namespace Step

/-- Two parts of callbacks have the same result at the same point, and lead to the same point. -/
abbrev Coincide (seen : Sight σ V) (s s' : Step σ α) : Prop := InStep (Frame.Coincide seen) s s'

theorem coincides_read (g : Execution → α) : Coincide seen (read g : Step σ α) (read g) :=
  fun _ _ h => ⟨congrArg (Except.ok ∘ g) h.execution, h⟩

theorem coincides_change (g : Execution → Execution) :
    Coincide seen (change g : Step σ Unit) (change g) :=
  fun _ _ h => ⟨rfl, h.change g⟩

theorem coincides_order (o : Order) : Coincide seen (order o : Step σ Unit) (order o) :=
  fun _ _ h => ⟨rfl, h.order o⟩

theorem coincides_settle (p : Promise) : Coincide seen (settle p : Step σ Unit) (settle p) :=
  fun _ _ h => ⟨rfl, h.settle p⟩

theorem coincides_enter (e : Event) : Coincide seen (enter e : Step σ Unit) (enter e) :=
  fun f f' h =>
    ⟨rfl, ⟨h.world.caller, (Act.coincides_record (e := e) rfl f.world f'.world h.world).2.history⟩,
      h.execution, h.orders⟩

theorem coincides_reject (e : Fault) : Coincide seen (reject e : Step σ Unit) (reject e) := by
  intro f f' h
  unfold InStepAt reject
  rw [h.execution]
  split
  · exact ⟨rfl, h⟩
  · split
    · exact ⟨rfl, h.settle _⟩
    · exact ⟨rfl, h⟩

theorem coincides_refuse (e : Fault) : Coincide seen (refuse e : Step σ Unit) (refuse e) := by
  unfold refuse
  split
  · exact coincides_reject e
  · exact InStep.throw e

/-- An act that is in step in two worlds is so within a callback. -/
theorem inStepAt_perform {a a' : Act σ α} {f f' : Frame σ} (same : Frame.Coincide seen f f')
    (h : InStepAt (World.Coincide seen) a a' f.world f'.world) :
    InStepAt (Frame.Coincide seen) (perform a) (perform a') f f' := by
  have performed : Frame.Coincide seen { f with world := (a f.world).2 }
      { f' with world := (a' f'.world).2 } := ⟨h.2, same.execution, same.orders⟩
  exact ⟨h.1, performed.absorb⟩

theorem coincides_perform {a a' : Act σ α} (h : Act.Coincide seen a a') :
    Coincide seen (perform a) (perform a') :=
  fun f f' same => inStepAt_perform same (h f.world f'.world same.world)

theorem coincides_act {a a' : Act σ Unit} (h : Act.Coincide seen a a') :
    Coincide seen (act a) (act a') := by
  rw [act_eq_perform, act_eq_perform]
  exact coincides_perform h

theorem coincides_note (n : Note) : Coincide seen (act (Act.note n) : Step σ Unit) (act (Act.note n)) :=
  coincides_act (Act.coincides_record rfl)

theorem inStepAt_handling {s s' : Step σ α} {t t' : α → Step σ Unit} {f f' : Frame σ}
    (hs : InStepAt (Frame.Coincide seen) s s' f f') (ht : ∀ x, Coincide seen (t x) (t' x)) :
    InStepAt (Frame.Coincide seen) (handling s t) (handling s' t') f f' := by
  obtain ⟨result, left⟩ := hs
  unfold InStepAt handling
  rcases hf : s f with ⟨e | x, g⟩ <;> rcases hf' : s' f' with ⟨e' | x', g'⟩ <;>
    rw [hf, hf'] at result left
  · obtain rfl := Except.error.inj result
    exact coincides_refuse e g g' left
  · exact nomatch result
  · exact nomatch result
  · obtain rfl := Except.ok.inj result
    exact ht x g g' left

theorem coincides_handling {s s' : Step σ α} {t t' : α → Step σ Unit} (hs : Coincide seen s s')
    (ht : ∀ x, Coincide seen (t x) (t' x)) : Coincide seen (handling s t) (handling s' t') :=
  fun f f' h => inStepAt_handling (hs f f' h) ht

theorem coincides_guarding {a a' : Act σ α} {t t' : α → Step σ Unit} (h : Act.Coincide seen a a')
    (ht : ∀ x, Coincide seen (t x) (t' x)) : Coincide seen (guarding a t) (guarding a' t') := by
  rw [guarding_eq, guarding_eq]
  exact coincides_handling (coincides_perform h) ht

end Step

/-! ## Callbacks -/

/-- Two schedulers are of the same sort, and the code of the caller's own coincides. -/
inductive Scheduler.Coincide (seen : Sight σ V) : Scheduler σ → Scheduler σ → Prop where
  | timers (given given' : Bool) : Coincide seen (.timers given) (.timers given')
  | custom {schedule schedule' : RunId → Number → Code σ HandleId}
      {cancel cancel' : HandleId → Code σ Unit}
      (schedules : ∀ run d, (schedule run d).Coincide seen (schedule' run d))
      (cancels : ∀ id, (cancel id).Coincide seen (cancel' id)) :
      Coincide seen (.custom schedule cancel) (.custom schedule' cancel')

/-- Cancelling by a number is in step too. -/
theorem Scheduler.Coincide.cancel {s s' : Scheduler σ} (h : s.Coincide seen s') (id : HandleId) :
    (s.cancel id).Coincide seen (s'.cancel id) := by
  cases h with
  | timers given given' => exact InStep.pure _
  | custom schedules cancels => exact cancels id

theorem Scheduler.coincides_self (clear : Function.Injective seen.view) (s : Scheduler σ) :
    s.Coincide seen s := by
  cases s with
  | timers given => exact .timers given given
  | custom schedule cancel =>
    exact .custom (fun _ _ => Code.coincides_self clear _) fun _ => Code.coincides_self clear _

theorem Scheduler.span_coincides (there : Bool) (delay : Value) :
    Act.Coincide seen (span there delay) (span there delay) := by
  refine InStep.bind (Act.coincides_lift _) fun d => ?_
  split
  · exact Act.coincides_fail _
  · split
    · exact Act.coincides_fail _
    · exact InStep.bind (Act.coincides_record rfl) fun _ => InStep.pure _

namespace Asynchronous

/-- Around an evaluation, two asynchronous systems coincide, as far as the executions on them began at some
times. -/
structure Around (seen : Sight σ V) (began : Value → Prop) (a a' : Asynchronous σ) : Prop where
  notifier : ∀ now started, began started → (a.notifier now).Coincide seen (a'.notifier now)
    a.waiter.strategy.limit a'.waiter.strategy.limit started started
  operation : ∀ run call, (a.operation run call).Coincide seen (a'.operation run call)
  scheduler : a.scheduler.Coincide seen a'.scheduler
  cancelPoll : ∀ id, (a.cancelPoll id).Coincide seen (a'.cancelPoll id)
  resume : ∀ id, (a.resume id).Coincide seen (a'.resume id)
  wake : ∀ id, (a.wake id).Coincide seen (a'.wake id)

/-- The parts of two asynchronous systems coincide. -/
structure Coincide (seen : Sight σ V) (began : Value → Prop) (a a' : Asynchronous σ) : Prop
    extends Around seen began a a' where
  evaluate : ∀ o attempt, Act.Coincide seen (evaluate a.waiter.acceptors a.waiter.strategy o attempt)
    (evaluate a'.waiter.acceptors a'.waiter.strategy o attempt)

/-- What an asynchronous system does apart from its hooks depends on nothing that is out of sight. -/
structure InSight (seen : Sight σ V) (a : Asynchronous σ) : Prop extends a.waiter.JudgesInSight seen where
  operation : ∀ run call, (a.operation run call).Coincide seen (a.operation run call)
  scheduler : a.scheduler.Coincide seen a.scheduler
  cancelPoll : ∀ id, (a.cancelPoll id).Coincide seen (a.cancelPoll id)
  resume : ∀ id, (a.resume id).Coincide seen (a.resume id)
  wake : ∀ id, (a.wake id).Coincide seen (a.wake id)

theorem inSight (clear : Function.Injective seen.view) (a : Asynchronous σ) : a.InSight seen where
  toJudgesInSight := a.waiter.judgesInSight clear
  operation _ _ := Code.coincides_self clear _
  scheduler := a.scheduler.coincides_self clear
  cancelPoll _ := Code.coincides_self clear _
  resume _ := Code.coincides_self clear _
  wake _ := Code.coincides_self clear _

/-- The end of a poll that is no outcome is taken alike. -/
theorem pollEnded_coincides (a a' : Asynchronous σ) (run : RunId) (now : Binary64) {ending : Ending}
    (none : ending.outcome? = none) :
    Step.Coincide seen (a.pollEnded run now ending) (a'.pollEnded run now ending) := by
  refine InStep.bind (Step.coincides_change _) fun _ => ?_
  refine InStep.bind (Step.coincides_read _) fun attempt => ?_
  refine InStep.bind (Step.coincides_read _) fun p => ?_
  cases p.isSettled with
  | true => exact Step.coincides_note _
  | false =>
    simp only [Bool.false_eq_true, if_false]
    cases ending with
    | value v => exact nomatch none
    | fault e =>
      cases ordinary : e.isOrdinary with
      | true => exact absurd none (by simp [Ending.outcome?, ordinary])
      | false =>
        simp only [ordinary, Bool.false_eq_true, if_false]
        exact Step.coincides_reject e
    | cancelled => exact InStep.bind (Step.coincides_note _) fun _ => Step.coincides_settle _

variable {began : Value → Prop} {a a' : Asynchronous σ} (h : Around seen began a a') (run : RunId)
  (now : Binary64)
include h

theorem schedule_coincides (delay : Number) :
    Step.Coincide seen (a.schedule run delay) (a'.schedule run delay) := by
  refine InStep.bind (Step.coincides_read _) fun p => ?_
  cases p.isSettled with
  | true => exact Step.coincides_note _
  | false =>
    simp only [Bool.false_eq_true, if_false]
    have held : ∀ handle, Step.Coincide seen (Step.hold handle : Step σ Unit) (Step.hold handle) :=
      fun handle => InStep.bind (Step.coincides_change _) fun _ => Step.coincides_enter _
    have scheduler := h.scheduler
    generalize a.scheduler = s, a'.scheduler = s' at scheduler
    cases scheduler with
    | timers given given' =>
      exact Step.coincides_guarding
        (InStep.bind (Act.coincides_record rfl) fun _ => Scheduler.span_coincides _ _) fun d =>
        InStep.bind (Step.coincides_order _) fun _ => held .timer
    | custom schedules cancels =>
      exact Step.coincides_guarding (Act.coincides_call rfl (schedules run delay)) fun id =>
        held (.custom id)

/-- Concluding is in step where the evaluation is. -/
theorem conclude_inStep {o : Outcome} {f f' : Frame σ} (same : Frame.Coincide seen f f')
    (start : began f.execution.started) (evaluated : InStepAt (World.Coincide seen)
      (evaluate a.waiter.acceptors a.waiter.strategy o (.int f.execution.attempt))
      (evaluate a'.waiter.acceptors a'.waiter.strategy o (.int f.execution.attempt)) f.world f'.world) :
    InStepAt (Frame.Coincide seen) (a.conclude run now o) (a'.conclude run now o) f f' := by
  have judged : InStepAt (Frame.Coincide seen) (a.judge now o f.execution.attempt f.execution.started)
      (a'.judge now o f.execution.attempt f.execution.started) f f' :=
    (Step.inStepAt_perform same evaluated).bind fun t => InStep.bind
      (Step.coincides_perform ((h.notifier now _ start).tell o _ t)) fun _ => InStep.pure _
  -- the attempt and the time of its beginning are those of the execution
  rw [InStepAt, conclude_eq, conclude_eq, ← same.execution]
  refine Step.inStepAt_handling judged fun next => ?_
  cases next with
  | inl c => exact Step.coincides_settle _
  | inr delay => exact schedule_coincides h run delay

section Body

variable {k : Callback} {f f' : Frame σ}

/-- From the call of the operation on, callbacks at the same point stay so unless they come to judge an
outcome. -/
theorem Around.calling {n : Nat} {g g' : Frame σ} (same : Frame.Coincide seen g g')
    (reaches : a.Reaches run now k f (.calling n) g) (reaches' : a'.Reaches run now k f' (.calling n) g')
    (judging : ∀ {o g g'}, a.Reaches run now k f (.judging n o) g →
      a'.Reaches run now k f' (.judging n o) g' → Frame.Coincide seen g g' →
      InStepAt (Frame.Coincide seen) (a.conclude run now o) (a'.conclude run now o) g g') :
    InStepAt (Frame.Coincide seen) (a.body run now k) (a'.body run now k) f f' := by
  have called := Step.coincides_perform (Act.coincides_call (e := .polled n) rfl
    (h.operation run g.execution.calls)) g g' same
  rw [InStepAt, reaches.body_eq, reaches'.body_eq]
  rcases hc : Step.perform (Act.call (.polled n) (a.operation run g.execution.calls)) g
    with ⟨r, g₁⟩
  rcases hc' : Step.perform (Act.call (.polled n) (a'.operation run g.execution.calls)) g'
    with ⟨r', g₁'⟩
  rw [InStepAt, hc, hc'] at called
  obtain ⟨result, left⟩ := called
  obtain rfl : r = r' := result
  have hc'' : Step.perform (Act.call (.polled n) (a'.operation run g'.execution.calls)) g' = (r, g₁') :=
    same.execution ▸ hc'
  simp only [remainder, hc, hc'']
  -- a poll is watched, and anything else comes to be judged unless its fault leaves the callback
  rcases r with e | ⟨id⟩ | _
  · cases ordinary : e.isOrdinary with
    | true =>
      simp only [ordinary, if_true]
      have raised : ∀ e', (Except.error e : Except Fault Launch) = .error e' → e'.isOrdinary = true := by
        rintro e' ⟨⟩
        exact ordinary
      exact judging (.failing reaches hc rfl raised) (.failing reaches' hc'' rfl raised) left
    | false =>
      simp only [ordinary, Bool.false_eq_true, if_false]
      exact ⟨trivial, left⟩
  · exact ⟨rfl, (left.change ({ · with poll := some id })).order _⟩
  · have unraised : ∀ e', (Except.ok .unfit : Except Fault Launch) = .error e' → e'.isOrdinary = true := by
      rintro e' ⟨⟩
    exact judging (.failing reaches hc rfl unraised) (.failing reaches' hc'' rfl unraised) left

/-- Callbacks at the same point stay so unless they come to judge an outcome. -/
theorem Around.body (own : k = .attempt run ∨ ∃ ending, k = .pollEnded run ending)
    (same : Frame.Coincide seen f f') (start : began f.execution.started)
    (judging : ∀ {n o g g'}, a.Reaches run now k f (.judging n o) g →
      a'.Reaches run now k f' (.judging n o) g' → Frame.Coincide seen g g' →
      InStepAt (Frame.Coincide seen) (a.conclude run now o) (a'.conclude run now o) g g') :
    InStepAt (Frame.Coincide seen) (a.body run now k) (a'.body run now k) f f' := by
  rcases own with rfl | ⟨ending, rfl⟩
  · cases settled : f.execution.promise.isSettled with
    | true =>
      simp only [InStepAt, Asynchronous.body, attempt_of_isSettled _ run now settled,
        attempt_of_isSettled _ run now (same.execution ▸ settled)]
      exact Step.coincides_perform (Act.coincides_record rfl) _ _
        (same.change ({ · with handle := none }))
    | false =>
      have reaches : a.Reaches run now (.attempt run) f _ _ := .opening settled
      have reaches' : a'.Reaches run now (.attempt run) f' _ _ := .opening (same.execution ▸ settled)
      rw [← same.execution] at reaches'
      -- both have opened the same attempt, with the same end
      have opened := Step.coincides_perform ((h.notifier now _ start).opening (f.execution.attempt + 1))
        _ _ (same.change begin)
      rcases ho : Step.perform ((a.notifier now).opening (f.execution.attempt + 1)
        a.waiter.strategy.limit) { f with execution := begin f.execution } with ⟨r, g⟩
      rcases ho' : Step.perform ((a'.notifier now).opening (f.execution.attempt + 1)
        a'.waiter.strategy.limit) { f' with execution := begin f'.execution } with ⟨r', g'⟩
      rw [InStepAt, ho, ho'] at opened
      obtain ⟨result, left⟩ := opened
      obtain rfl : r = r' := result
      rw [← same.execution] at ho'
      rcases r with e | ⟨⟩
      · rw [InStepAt, reaches.body_eq, reaches'.body_eq]
        simp only [remainder, ho, ho']
        exact Step.coincides_refuse e g g' left
      · exact Around.calling h run now (left.change countCall) (.calling reaches ho)
          (.calling reaches' ho') judging
  · cases ho : ending.outcome? with
    | none => exact pollEnded_coincides a a' run now ho f f' same
    | some o =>
      cases settled : f.execution.promise.isSettled with
      | true =>
        simp only [InStepAt, Asynchronous.body, pollEnded_of_isSettled _ run now ending settled,
          pollEnded_of_isSettled _ run now ending (same.execution ▸ settled), same.execution]
        exact Step.coincides_perform (Act.coincides_record rfl) _ _
          (same.execution ▸ same.change forget)
      | false =>
        have reaches : a.Reaches run now (.pollEnded run ending) f _ _ := .ended settled ho
        have reaches' : a'.Reaches run now (.pollEnded run ending) f' _ _ :=
          .ended (same.execution ▸ settled) ho
        rw [← same.execution] at reaches'
        rw [InStepAt, reaches.body_eq, reaches'.body_eq]
        exact judging reaches reaches' (same.execution ▸ same.change forget)

end Body

theorem cancelHandle_coincides (handle : Handle) :
    Step.Coincide seen (a.cancelHandle handle) (a'.cancelHandle handle) := by
  cases handle with
  | timer => exact InStep.bind (Step.coincides_enter _) fun _ => Step.coincides_order _
  | custom id => exact Step.coincides_act (Act.coincides_call rfl (h.scheduler.cancel id))

theorem withdraw_coincides : Step.Coincide seen a.withdraw a'.withdraw := by
  refine InStep.bind (Step.coincides_read _) fun handle => ?_
  cases handle with
  | none => exact InStep.pure _
  | some handle =>
    exact InStep.bind (cancelHandle_coincides h handle) fun _ => Step.coincides_change _

theorem stop_coincides : Step.Coincide seen a.stop a'.stop := by
  refine InStep.bind (Step.coincides_read _) fun poll => ?_
  cases poll with
  | none => exact InStep.pure _
  | some id =>
    exact InStep.bind (Step.coincides_act (Act.coincides_call rfl (h.cancelPoll id))) fun _ =>
      Step.coincides_change _

theorem settled_coincides : Step.Coincide seen a.settled a'.settled := by
  refine InStep.bind (Step.coincides_read _) fun p => ?_
  cases p with
  | cancelled =>
    refine InStep.bind (Step.coincides_read _) fun attempt => ?_
    exact InStep.bind (Step.coincides_note _) fun _ =>
      InStep.bind (withdraw_coincides h) fun _ => stop_coincides h
  | _ => exact InStep.pure _

end Asynchronous

/-! ## Sessions -/

/-- What is seen of an entry of a journal. -/
def Sight.entered (seen : Sight σ V) (p : RunId × Event) : Option (RunId × Event) :=
  (seen.entry p.2).map (p.1, ·)

/-- What is seen of the entries that a callback has made. -/
theorem Sight.filterMap_entered (seen : Sight σ V) (run : RunId) (es : List Event) :
    (es.map (run, ·)).filterMap seen.entered = (es.filterMap seen.entry).map (run, ·) := by
  rw [List.filterMap_map, List.map_filterMap]
  rfl

/-- Code that runs outside of all callbacks depends on nothing that is out of sight. -/
def Move.Sees (seen : Sight σ V) : Move σ → Prop
  | .outside _ code => code.Coincide seen code
  | _ => True

theorem Move.sees (clear : Function.Injective seen.view) (m : Move σ) : m.Sees seen := by
  cases m with
  | outside serving code => exact Code.coincides_self clear code
  | _ => exact trivial

namespace Session

/-- Two sessions are in the same state, as far as can be seen. -/
structure Coincide (seen : Sight σ V) (s s' : Session σ) : Prop where
  loop : s.loop = s'.loop
  caller : Caller.Coincide seen s.caller s'.caller
  runs : s.runs = s'.runs
  ended : s.ended = s'.ended
  watched : s.watched = s'.watched
  journal : s.journal.filterMap seen.entered = s'.journal.filterMap seen.entered
  escaped : s.escaped = s'.escaped
  unhandled : s.unhandled = s'.unhandled

theorem coincides_refl (s : Session σ) : Coincide seen s s :=
  ⟨rfl, ⟨rfl, rfl, rfl⟩, rfl, rfl, rfl, rfl, rfl, rfl⟩

/-- Code of the caller's runs, and what it asks for is carried out. -/
theorem serve_eq (s : Session σ) (run : RunId) (c : Code σ α) :
    s.serve run c = ((c { s.caller with serving := run }).1,
      (c { s.caller with serving := run }).2.requests.foldl answer
        { s with caller := { (c { s.caller with serving := run }).2 with requests := [] } }) :=
  rfl

/-- An execution that is started runs its first attempt. -/
theorem start_eq (a : Asynchronous σ) (s : Session σ) :
    s.start a = (s.add { started := .real s.loop.time }).step s.runs.length
      (a.attempt s.runs.length s.loop.time) :=
  rfl

namespace Coincide

variable {s s' : Session σ}

/-- What preserves the relation does so one after the other. -/
theorem foldl {β : Type} {g : Session σ → β → Session σ}
    (hg : ∀ {s s'} x, Coincide seen s s' → Coincide seen (g s x) (g s' x)) (h : Coincide seen s s')
    (xs : List β) : Coincide seen (xs.foldl g s) (xs.foldl g s') := by
  induction xs generalizing s s' with
  | nil => exact h
  | cons x rest ih => exact ih (hg x h)

theorem soon (h : Coincide seen s s') (k : Callback) : Coincide seen (s.soon k) (s'.soon k) :=
  { h with loop := congrArg (·.soon k) h.loop }

theorem enter (h : Coincide seen s s') (run : RunId) (e : Event) :
    Coincide seen (s.enter run e) (s'.enter run e) := by
  refine { h with journal := ?_ }
  rw [Session.enter, Session.enter, List.filterMap_append, List.filterMap_append, h.journal]

theorem fire (h : Coincide seen s s') (run : RunId) : Coincide seen (s.fire run) (s'.fire run) := by
  unfold Session.fire
  rw [h.runs]
  split
  · exact (h.enter run .fired).soon _
  · exact h

theorem finish (h : Coincide seen s s') (poll : PollId) (ending : Ending) :
    Coincide seen (s.finish poll ending) (s'.finish poll ending) := by
  have same : s.ending? poll = s'.ending? poll := by rw [Session.ending?, Session.ending?, h.ended]
  unfold Session.finish
  rw [same, h.watched]
  split
  · exact h
  · refine foldl (fun p same => same.soon (.pollEnded p.2 ending)) ?_ _
    exact { h with ended := by rw [h.ended], watched := rfl }

theorem watch (h : Coincide seen s s') (run : RunId) (poll : PollId) :
    Coincide seen (s.watch run poll) (s'.watch run poll) := by
  have same : s.ending? poll = s'.ending? poll := by rw [Session.ending?, Session.ending?, h.ended]
  unfold Session.watch
  rw [same]
  split
  · exact h.soon _
  · exact { h with watched := congrArg (· ++ [(poll, run)]) h.watched }

theorem cancel (h : Coincide seen s s') (run : RunId) :
    Coincide seen (s.cancel run).2 (s'.cancel run).2 := by
  unfold Session.cancel
  rw [h.runs]
  split
  · split
    · exact h
    · next x _ _ =>
      have cancelled : Coincide seen
          { s with runs := s'.runs.set run { x with promise := .cancelled } }
          { s' with runs := s'.runs.set run { x with promise := .cancelled } } := { h with runs := rfl }
      exact cancelled.soon _
  · exact h

theorem answer (h : Coincide seen s s') (r : Request) : Coincide seen (s.answer r) (s'.answer r) := by
  cases r with
  | cancel run => exact h.cancel run
  | fire run => exact h.fire run
  | finish poll ending => exact h.finish poll ending
  | soon e => exact h.soon _
  | later delay e => exact { h with loop := congrArg (·.later delay (.errand e)) h.loop }
  | drop e => exact { h with loop := congrArg (·.drop (isErrand e)) h.loop }

theorem obey (h : Coincide seen s s') (run : RunId) (o : Order) :
    Coincide seen (s.obey run o) (s'.obey run o) := by
  cases o with
  | settled => exact h.soon _
  | watch poll => exact h.watch run poll
  | timer delay => exact { h with loop := congrArg (·.later delay (.errand (.fire run))) h.loop }
  | stopTimer => exact { h with loop := congrArg (·.drop (isErrand (.fire run))) h.loop }
  | request r => exact h.answer r

theorem report (h : Coincide seen s s') (e : Fault) : Coincide seen (s.report e) (s'.report e) := by
  unfold Session.report
  split
  · exact { h with
      loop := congrArg EventLoop.breakOff h.loop
      escaped := congrArg (· ++ [e]) h.escaped }
  · exact { h with unhandled := congrArg (· ++ [e]) h.unhandled }

/-- Code of the caller's is served in both. -/
theorem serve (h : Coincide seen s s') (run : RunId) {c c' : Code σ α} (hc : c.Coincide seen c') :
    (s.serve run c).1 = (s'.serve run c').1 ∧ Coincide seen (s.serve run c).2 (s'.serve run c').2 := by
  obtain ⟨result, left⟩ := hc { s.caller with serving := run } { s'.caller with serving := run }
    ⟨h.caller.state, rfl, h.caller.requests⟩
  have served : Coincide seen
      { s with caller := { (c { s.caller with serving := run }).2 with requests := [] } }
      { s' with caller := { (c' { s'.caller with serving := run }).2 with requests := [] } } :=
    { h with caller := ⟨left.state, left.serving, rfl⟩ }
  rw [serve_eq, serve_eq, ← left.requests]
  exact ⟨result, foldl (fun r same => same.answer r) served _⟩

/-- Callbacks begin at the same point, since executions are the same and no entry is made yet. -/
theorem frame (h : Coincide seen s s') (run : RunId) (x : Execution) :
    Frame.Coincide seen (s.frame run x) (s'.frame run x) :=
  ⟨⟨⟨h.caller.state, rfl, h.caller.requests⟩, rfl⟩, rfl, rfl⟩

/-- A callback runs in both. -/
theorem step (h : Coincide seen s s') (run : RunId) {body body' : Step σ Unit}
    (hb : ∀ x, s.runs[run]? = some x →
      InStepAt (Frame.Coincide seen) body body' (s.frame run x) (s'.frame run x)) :
    (s.step run body).1 = (s'.step run body').1 ∧
      Coincide seen (s.step run body).2 (s'.step run body').2 := by
  cases hx : s.runs[run]? with
  | none =>
    have hx' : s'.runs[run]? = none := h.runs ▸ hx
    simp only [Session.step, hx, hx']
    exact ⟨trivial, h⟩
  | some x =>
    obtain ⟨result, left⟩ := hb x hx
    rw [step_eq hx, step_eq (h.runs ▸ hx), left.orders]
    refine ⟨result, foldl (fun o same => same.obey run o) ?_ _⟩
    refine { h with
      caller := left.world.caller
      runs := by rw [record, record, h.runs, left.execution]
      journal := ?_ }
    rw [record, record, List.filterMap_append, List.filterMap_append, h.journal, seen.filterMap_entered,
      seen.filterMap_entered, left.world.history]

/-- The fault that leaves a callback is kept in both. -/
theorem reported {p p' : Except Fault Unit × Session σ} (result : p.1 = p'.1)
    (h : Coincide seen p.2 p'.2) :
    Coincide seen (match p.1 with | .ok () => p.2 | .error e => p.2.report e)
      (match p'.1 with | .ok () => p'.2 | .error e => p'.2.report e) := by
  rw [result]
  split
  · exact h
  · exact h.report _

variable {began : Value → Prop} {a a' : Asynchronous σ}

/-- What the loop performs is in step if callbacks that call code of the caller's are. -/
theorem perform (h : Coincide seen s s') (around : a.Around seen began a') {k : Callback}
    (body : ∀ run x, (k = .attempt run ∨ ∃ ending, k = .pollEnded run ending) → s.runs[run]? = some x →
      InStepAt (Frame.Coincide seen) (a.body run s.loop.time k) (a'.body run s.loop.time k)
        (s.frame run x) (s'.frame run x)) :
    Coincide seen (s.perform a k) (s'.perform a' k) := by
  -- only two of the callbacks call code of the caller's for an execution
  cases k with
  | errand e =>
    cases e with
    | fire run => exact h.fire run
    | resume poll =>
      obtain ⟨result, left⟩ := h.serve 0 (around.resume poll)
      exact left.reported result
    | wake poll =>
      obtain ⟨result, left⟩ := h.serve 0 (around.wake poll)
      exact left.reported result
  | attempt run =>
    obtain ⟨result, left⟩ := h.step run fun x hx => body run x (.inl rfl) hx
    simp only [Session.perform, ← h.loop]
    exact left.reported result
  | pollEnded run ending =>
    obtain ⟨result, left⟩ := (h.enter run (.ended ending)).step run fun x hx =>
      body run x (.inr ⟨ending, rfl⟩) hx
    simp only [Session.perform, ← h.loop]
    exact left.reported result
  | settled run =>
    obtain ⟨result, left⟩ := h.step run fun x _ =>
      Asynchronous.settled_coincides around _ _ (h.frame run x)
    exact left.reported result

/-- A move that begins a callback in one session begins it in the other. -/
theorem begins (h : Coincide seen s s') {run : RunId} {m : Move σ} {k : Callback} {now : Binary64}
    {x : Execution} (begins : s.Begins run m k now x) : s'.Begins run m k now x := by
  cases begins with
  | start new =>
    rw [h.loop]
    exact .start (new.trans (congrArg List.length h.runs))
  | turn taken own lookup => exact .turn (h.loop ▸ taken) own (h.runs ▸ lookup)

/-- A move is made in both. Sessions stay in lockstep if the callback that it begins, if it begins one, is in
step from where it comes to judge an outcome. -/
theorem move (h : Coincide seen s s') (around : a.Around seen began a') {m : Move σ} (sees : m.Sees seen)
    (start : ∀ {run k now x}, s.Begins run m k now x → began x.started)
    (judging : ∀ {run k now x n o g g'}, s.Begins run m k now x →
      a.Reaches run now k (s.frame run x) (.judging n o) g →
      a'.Reaches run now k (s'.frame run x) (.judging n o) g' → Frame.Coincide seen g g' →
      InStepAt (Frame.Coincide seen) (a.conclude run now o) (a'.conclude run now o) g g') :
    Coincide seen (s.move a m) (s'.move a' m) ∧ (m = .start → (s.start a).1 = (s'.start a').1) := by
  have body : ∀ {run k now x}, s.Begins run m k now x →
      InStepAt (Frame.Coincide seen) (a.body run now k) (a'.body run now k) (s.frame run x)
        (s'.frame run x) :=
    fun begins => Asynchronous.Around.body around _ _ begins.own (h.frame _ _) (start begins)
      (judging begins)
  cases m with
  | clock time => exact ⟨{ h with loop := congrArg (·.moveTo time) h.loop }, by rintro ⟨⟩⟩
  | outside serving code => exact ⟨(h.serve serving sees).2, by rintro ⟨⟩⟩
  | start =>
    have time : s.loop.time = s'.loop.time := congrArg EventLoop.time h.loop
    have length : s.runs.length = s'.runs.length := congrArg List.length h.runs
    have added : Coincide seen (s.add { started := .real s.loop.time })
        (s'.add { started := .real s.loop.time }) :=
      { h with runs := by rw [Session.add, Session.add, h.runs] }
    have started := added.step s.runs.length fun x hx => by
      obtain rfl : { started := .real s.loop.time } = x := by simpa [Session.add] using hx
      exact body (.start rfl)
    simp only [Session.move, start_eq, ← time, ← length]
    exact ⟨started.2, fun _ => started.1⟩
  | turn =>
    refine ⟨?_, by rintro ⟨⟩⟩
    rcases taken : s.loop.take with ⟨_ | k, l⟩
    · simp only [Session.move, ← h.loop, taken]
      exact { h with loop := rfl }
    · simp only [Session.move, ← h.loop, taken]
      -- the loops are the same, so they hand out the same callback
      have left : Coincide seen { s with loop := l } { s' with loop := l } := { h with loop := rfl }
      exact left.perform around fun run x own hx => body (.turn taken own hx)

section Moves

variable (same : a.Coincide seen began a') {s s' : Session σ}
include same

/-- If all parts coincide, so does a move. -/
theorem move_of_coincide (h : Coincide seen s s') {m : Move σ} (sees : m.Sees seen)
    (start : ∀ {run k now x}, s.Begins run m k now x → began x.started) :
    Coincide seen (s.move a m) (s'.move a' m) ∧ (m = .start → (s.start a).1 = (s'.start a').1) := by
  refine h.move same.toAround sees start fun begins reaches _ frames => ?_
  refine Asynchronous.conclude_inStep same.toAround _ _ frames ?_
    (same.evaluate _ _ _ _ frames.world)
  rw [reaches.started]
  exact start begins

/-- By induction on the moves, the sessions stay in lockstep. -/
theorem moves (h : Coincide seen s s') {ms : List (Move σ)} (sees : ∀ m ∈ ms, m.Sees seen)
    (start : ∀ before m after, ms = before ++ m :: after →
      ∀ {run k now x}, (s.moves a before).Begins run m k now x → began x.started) :
    Coincide seen (s.moves a ms) (s'.moves a' ms) := by
  induction ms generalizing s s' with
  | nil => exact h
  | cons m rest ih =>
    refine ih (h.move_of_coincide same (sees m List.mem_cons_self) (start [] m rest rfl)).1
      (fun m hm => sees m (List.mem_cons_of_mem _ hm)) ?_
    rintro before m' after rfl
    exact start (m :: before) m' after rfl

end Moves

end Coincide

end Session

end Polling
