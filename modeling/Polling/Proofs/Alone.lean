import Polling.Proofs.Frozen
import Polling.Proofs.Part

/-!
# An execution alone

`Asynchronous.alone` is the system in which an execution can be run by itself. Its waiter is the frozen
one, and where the code of the operation and of the scheduler would be called, it gives the `Answers` that
have been put there. It depends on nothing else: neither on a state of the caller's nor on other
executions.

`Frame.Doubles` relates a callback of an execution to a callback of the execution alone: they have left it
in the same state, have made the same entries, and have left orders that are the same to it. Given the
right answers, a callback of the execution and the callback of the execution alone do the same from
beginning to end (`attempt_doubles`, `pollEnded_doubles`, `settled_doubles`).
-/

namespace Polling

/-- What a call of the caller's code comes to: what it gives and what it asks for. -/
structure Answer (α : Type) where
  result : Except Fault α
  requests : List Request := []

/-- What the code of the operation and of the scheduler answers, each when it is next called. -/
structure Answers where
  launch : Answer Launch := { result := .ok .unfit }
  handOver : Answer HandleId := { result := .ok 0 }
  withdraw : Answer Unit := { result := .ok () }
  stop : Answer Unit := { result := .ok () }

namespace Code

/-- Code that gives an answer that has been put there. -/
def answering (get : Answers → Answer α) : Code Answers α :=
  fun k => ((get k.state).result, { k with requests := k.requests ++ (get k.state).requests })

/-- What code answers in a state of the caller's, its requests as they are to an execution. -/
def answer (run : RunId) (c : Code σ α) (k : Caller σ) : Answer α where
  result := (c k).1
  requests := (c k).2.requests.filterMap (Request.own run)

/-- Code does not change on whose behalf it runs. -/
def KeepsServing (c : Code σ α) : Prop := ∀ k, (c k).2.serving = k.serving

end Code

/-- A scheduler that gives the answers that have been put there; the timers of the loop stay. -/
def Scheduler.answering : Scheduler σ → Scheduler Answers
  | .timers given => .timers given
  | .custom _ _ => .custom (fun _ _ => Code.answering (·.handOver)) fun _ =>
      Code.answering (·.withdraw)

namespace Asynchronous

/-- The system of an execution alone. -/
def alone (a : Asynchronous σ) (k : Caller σ) : Asynchronous Answers where
  waiter := a.waiter.frozen k (a.waiter.scheduler.map Scheduler.answering)
  operation _ _ := Code.answering (·.launch)
  cancelPoll _ := Code.answering (·.stop)
  resume _ := pure ()
  wake _ := pure ()

/-- The scheduler of an execution alone answers for the scheduler. -/
theorem alone_scheduler (a : Asynchronous σ) (k : Caller σ) :
    (a.alone k).scheduler = a.scheduler.answering := by
  cases h : a.waiter.scheduler <;> simp [scheduler, alone, Waiter.frozen, h, Scheduler.answering]

/-- The code of the operation and of the scheduler does not change on whose behalf it runs. -/
structure KeepsServing (a : Asynchronous σ) : Prop where
  operation : ∀ run call, (a.operation run call).KeepsServing
  schedule : ∀ schedule cancel, a.scheduler = .custom schedule cancel →
    ∀ run delay, (schedule run delay).KeepsServing
  cancel : ∀ schedule cancel, a.scheduler = .custom schedule cancel →
    ∀ id, (cancel id).KeepsServing
  cancelPoll : ∀ poll, (a.cancelPoll poll).KeepsServing

end Asynchronous

/-! ## Frames -/

variable {run : RunId} {answers : Answers}

/-- Nothing but what is there to the only execution is passed on by an order. -/
def Order.IsLone : Order → Prop
  | .request r => r.own 0 = some r
  | _ => True

/-- A callback of an execution and one of the execution alone are at the same point. -/
structure Frame.Doubles (run : RunId) (answers : Answers) (f : Frame σ) (f' : Frame Answers) : Prop where
  execution : f'.execution = f.execution
  history : f'.world.history = f.world.history
  orders : f'.orders.filterMap (Order.own 0) = f.orders.filterMap (Order.own run)
  lone : ∀ o ∈ f'.orders, o.IsLone
  serving : f.world.caller.serving = run
  requests : f.world.caller.requests = []
  caller : f'.world.caller = { state := answers }

namespace Frame.Doubles

variable {f : Frame σ} {f' : Frame Answers}

theorem order (h : Doubles run answers f f') {o o' : Order} (same : o'.own 0 = o.own run)
    (lone : o'.IsLone) : Doubles run answers (f.order o) (f'.order o') := by
  refine ⟨h.execution, h.history, ?_, ?_, h.serving, h.requests, h.caller⟩
  · simp only [Frame.order, List.filterMap_append, List.filterMap_cons, List.filterMap_nil, h.orders,
      same]
  · intro o mem
    rcases List.mem_append.1 mem with mem | new
    · exact h.lone o mem
    · exact List.mem_singleton.1 new ▸ lone

/-- An order that is nothing to the execution makes no difference. -/
theorem order_of_own (h : Doubles run answers f f') {o : Order} (nothing : o.own run = none) :
    Doubles run answers (f.order o) f' := by
  refine ⟨h.execution, h.history, ?_, h.lone, h.serving, h.requests, h.caller⟩
  simp [Frame.order, List.filterMap_append, h.orders, nothing]

theorem enter (h : Doubles run answers f f') (e : Event) :
    Doubles run answers (f.enter e) (f'.enter e) :=
  ⟨h.execution, by simp [Frame.enter, h.history], h.orders, h.lone, h.serving, h.requests, h.caller⟩

theorem change (h : Doubles run answers f f') (g : Execution → Execution) :
    Doubles run answers { f with execution := g f.execution }
      { f' with execution := g f'.execution } :=
  ⟨congrArg g h.execution, h.history, h.orders, h.lone, h.serving, h.requests, h.caller⟩

theorem settle (h : Doubles run answers f f') (p : Promise) :
    Doubles run answers (f.settle p) (f'.settle p) := by
  unfold Frame.settle
  rw [h.execution]
  split
  · exact h
  · have settled : Doubles run answers { f with execution := { f.execution with promise := p } }
        { f' with execution := { f.execution with promise := p } } :=
      ⟨rfl, h.history, h.orders, h.lone, h.serving, h.requests, h.caller⟩
    exact settled.order (show Order.settled.own 0 = Order.settled.own run from rfl) trivial

/-- A request is looked at by the execution alone if it is there to the execution. -/
theorem absorbOne (h : Doubles run answers f f') (r : Request) :
    Doubles run answers (f.absorbOne r) ((r.own run).elim f' f'.absorbOne) := by
  have serving' : f'.world.caller.serving = 0 := by rw [h.caller]
  -- errands and the requests for other executions are not there when it is alone
  cases r with
  | cancel run' =>
    by_cases own : run' = run
    · simpa [Frame.absorbOne, Request.own, own, h.serving, serving'] using h.settle .cancelled
    · have nothing : (Order.request (.cancel run')).own run = none := by
        simp [Order.own, Request.own, own]
      simpa [Frame.absorbOne, Request.own, own, h.serving] using h.order_of_own nothing
  | fire run' =>
    by_cases own : run' = run
    · have same : (Order.request (.fire 0)).own 0 = (Order.request (.fire run')).own run := by
        simp [Order.own, Request.own, own]
      simpa [Frame.absorbOne, Request.own, own] using h.order same rfl
    · have nothing : (Order.request (.fire run')).own run = none := by
        simp [Order.own, Request.own, own]
      simpa [Frame.absorbOne, Request.own, own] using h.order_of_own nothing
  | finish poll ending => exact h.order (o := .request (.finish poll ending)) rfl rfl
  | soon e => exact h.order_of_own (o := .request (.soon e)) rfl
  | later delay e => exact h.order_of_own (o := .request (.later delay e)) rfl
  | drop e => exact h.order_of_own (o := .request (.drop e)) rfl

theorem foldl_absorbOne (h : Doubles run answers f f') (rs : List Request) :
    Doubles run answers (rs.foldl Frame.absorbOne f)
      ((rs.filterMap (Request.own run)).foldl Frame.absorbOne f') := by
  induction rs generalizing f f' with
  | nil => exact h
  | cons r rest ih =>
    have next := ih (h.absorbOne r)
    rw [List.filterMap_cons]
    cases hr : r.own run with
    | none =>
      rw [hr] at next
      exact next
    | some r' =>
      rw [hr] at next
      exact next

end Frame.Doubles

/-! ## Acts -/

/-- An act and an act of the execution alone come to the same from a world on. What the first asks for is
to the execution what the second asks for. -/
structure Act.Doubles (run : RunId) (answers : Answers) (w : World σ) (a : Act σ α)
    (a' : Act Answers α) : Prop where
  serving : (a w).2.caller.serving = run
  same : ∀ w' : World Answers, w'.history = w.history → w'.caller = { state := answers } →
    (a' w').1 = (a w).1 ∧ (a' w').2.history = (a w).2.history ∧
      (a' w').2.caller =
        { state := answers, requests := (a w).2.caller.requests.filterMap (Request.own run) }

/-- An act and its frozen form come to the same. -/
theorem Act.FreezesTo.doubles {a : Act σ α} {a' : Act Answers α} (h : a.FreezesTo a') {w : World σ}
    (serving : w.caller.serving = run) (requests : w.caller.requests = []) :
    Act.Doubles run answers w a a' := by
  obtain ⟨-, -, -, kept, -, -⟩ := h w { caller := { state := answers } }
  refine ⟨kept.trans serving, ?_⟩
  intro w' history' caller'
  obtain ⟨es, result, history, -, asked, frozen⟩ := h w w'
  refine ⟨result.symm, ?_, ?_⟩
  · rw [frozen, history, history']
  · rw [frozen, asked, requests, caller']
    rfl

/-- A call of code and its answer come to the same. -/
theorem Act.doubles_call {c : Code σ α} (keeps : c.KeepsServing) {get : Answers → Answer α}
    {w : World σ} (answered : get answers = c.answer run w.caller) (serving : w.caller.serving = run)
    (e : Event) : Act.Doubles run answers w (call e c) (call e (Code.answering get)) := by
  refine ⟨(keeps w.caller).trans serving, ?_⟩
  intro w' history caller
  simp [Act.call_apply, Code.answering, caller, answered, Code.answer, history]

/-! ## Parts of callbacks -/

/-- A part of a callback and a part of a callback of the execution alone come to the same from frames at
the same point on, and lead to such frames. -/
def Step.Doubles (run : RunId) (answers : Answers) (f : Frame σ) (s : Step σ α)
    (s' : Step Answers α) : Prop :=
  ∀ f', Frame.Doubles run answers f f' →
    (s' f').1 = (s f).1 ∧ Frame.Doubles run answers (s f).2 (s' f').2

namespace Step

variable {f : Frame σ}

theorem doubles_pure (x : α) : Doubles run answers f (pure x) (pure x) :=
  fun _ h => ⟨rfl, h⟩

theorem doubles_bind {s : Step σ α} {s' : Step Answers α} {t : α → Step σ β}
    {t' : α → Step Answers β} (hs : Doubles run answers f s s')
    (ht : ∀ x, (s f).1 = .ok x → Doubles run answers (s f).2 (t x) (t' x)) :
    Doubles run answers f (s >>= t) (s' >>= t') := by
  intro f' h
  obtain ⟨result, doubles⟩ := hs f' h
  rw [bind_apply, bind_apply]
  rcases hf : s f with ⟨e | x, g⟩ <;> rcases hf' : s' f' with ⟨e' | x', g'⟩ <;>
    rw [hf, hf'] at result doubles
  · exact ⟨congrArg Except.error (Except.error.inj result), doubles⟩
  · exact nomatch result
  · exact nomatch result
  · obtain rfl := Except.ok.inj result
    have next := ht x' (by rw [hf])
    rw [hf] at next
    exact next g' doubles

theorem doubles_perform {a : Act σ α} {a' : Act Answers α}
    (h : f.world.caller.serving = run → f.world.caller.requests = [] →
      Act.Doubles run answers f.world a a') :
    Doubles run answers f (perform a) (perform a') := by
  intro f' doubles
  have same := h doubles.serving doubles.requests
  obtain ⟨result, history, caller⟩ := same.same f'.world doubles.history doubles.caller
  refine ⟨result, ?_⟩
  -- the requests are looked at in frames whose requests have been taken
  have before : Frame.Doubles run answers
      { f with world := { (a f.world).2 with caller := { (a f.world).2.caller with requests := [] } } }
      { f' with world := { (a' f'.world).2 with
          caller := { (a' f'.world).2.caller with requests := [] } } } :=
    ⟨doubles.execution, history, doubles.orders, doubles.lone, same.serving, rfl, by rw [caller]⟩
  have looked := before.foldl_absorbOne (a f.world).2.caller.requests
  simp only [perform_apply, Frame.absorb, caller] at looked ⊢
  exact looked

theorem doubles_trying {a : Act σ α} {a' : Act Answers α}
    (h : f.world.caller.serving = run → f.world.caller.requests = [] →
      Act.Doubles run answers f.world a a') :
    Doubles run answers f (trying a) (trying a') := by
  intro f' doubles
  obtain ⟨result, after⟩ := doubles_perform h f' doubles
  exact ⟨congrArg Except.ok result, after⟩

theorem doubles_settle (p : Promise) : Doubles run answers f (settle p) (settle p) :=
  fun _ h => ⟨rfl, h.settle p⟩

theorem doubles_enter (e : Event) : Doubles run answers f (enter e) (enter e) :=
  fun _ h => ⟨rfl, h.enter e⟩

theorem doubles_change (g : Execution → Execution) :
    Doubles run answers f (change g) (change g) :=
  fun _ h => ⟨rfl, h.change g⟩

theorem doubles_order {o : Order} (same : o.own 0 = o.own run) (lone : o.IsLone) :
    Doubles run answers f (order o) (order o) :=
  fun _ h => ⟨rfl, h.order same lone⟩

theorem doubles_reject (e : Fault) : Doubles run answers f (reject e) (reject e) := by
  intro f' h
  unfold reject
  rw [h.execution]
  split
  · exact ⟨rfl, h⟩
  · split
    · exact ⟨rfl, h.settle _⟩
    · exact ⟨rfl, h⟩

theorem doubles_refuse (e : Fault) : Doubles run answers f (refuse e) (refuse e) := by
  unfold refuse
  split
  · exact doubles_reject e
  · exact fun _ h => ⟨rfl, h⟩

/-- An act and its frozen form come to the same within a callback. -/
theorem doubles_freezes {a : Act σ α} {a' : Act Answers α} (h : a.FreezesTo a') :
    Doubles run answers f (perform a) (perform a') :=
  doubles_perform h.doubles

theorem doubles_note (n : Note) : Doubles run answers f (act (Act.note n)) (act (Act.note n)) := by
  rw [act_eq_perform, act_eq_perform]
  exact doubles_freezes (Act.freezes_record _)

theorem doubles_read (g : Execution → α) : Doubles run answers f (read g) (read g) :=
  fun _ h => ⟨by simp [h.execution], h⟩

/-- Do something and go on with its result; a fault is refused. -/
def handling (s : Step σ α) (next : α → Step σ Unit) : Step σ Unit :=
  fun f => match s f with
    | (.ok x, f') => next x f'
    | (.error e, f') => refuse e f'

theorem guarding_eq (a : Act σ α) (next : α → Step σ Unit) :
    guarding a next = handling (perform a) next :=
  funext (guarding_apply a next)

theorem doubles_handling {s : Step σ α} {s' : Step Answers α} {t : α → Step σ Unit}
    {t' : α → Step Answers Unit} (hs : Doubles run answers f s s')
    (ht : ∀ x, (s f).1 = .ok x → Doubles run answers (s f).2 (t x) (t' x)) :
    Doubles run answers f (handling s t) (handling s' t') := by
  intro f' h
  obtain ⟨result, doubles⟩ := hs f' h
  unfold handling
  rcases hf : s f with ⟨e | x, g⟩ <;> rcases hf' : s' f' with ⟨e' | x', g'⟩ <;>
    rw [hf, hf'] at result doubles
  · obtain rfl := Except.error.inj result
    exact doubles_refuse e' g' doubles
  · exact nomatch result
  · exact nomatch result
  · obtain rfl := Except.ok.inj result
    have next := ht x' (by rw [hf])
    rw [hf] at next
    exact next g' doubles

end Step

/-! ## Callbacks -/

/-- What the timers of a loop take for a delay does not depend on the caller. -/
theorem Scheduler.span_freezes (there : Bool) (delay : Value) :
    (Scheduler.span there delay : Act σ Binary64).FreezesTo (Scheduler.span there delay : Act τ Binary64) := by
  refine Act.freezes_bind (Act.freezes_lift _) fun d => ?_
  split
  · exact Act.freezes_fail _
  · split
    · exact Act.freezes_fail _
    · exact Act.freezes_bind (Act.freezes_record _) fun _ => Act.freezes_pure _

namespace Asynchronous

theorem conclude_eq (a : Asynchronous σ) (run : RunId) (now : Binary64) (o : Outcome) (f : Frame σ) :
    a.conclude run now o f =
      Step.handling (a.judge now o f.execution.attempt f.execution.started) (a.follow run) f := by
  rw [conclude_apply, Step.handling]
  rcases a.judge now o f.execution.attempt f.execution.started f with ⟨e | next, g⟩ <;> rfl

/-- While the promise is pending, an attempt is opened and the operation called; a fault raised in opening
it is refused. -/
theorem attempt_eq (a : Asynchronous σ) (run : RunId) (now : Binary64) {f : Frame σ}
    (h : f.execution.promise.isSettled = false) :
    a.attempt run now f = Step.handling
      (Step.perform ((a.notifier now).opening (f.execution.attempt + 1) a.waiter.strategy.limit))
      (fun _ => a.launch run now (f.execution.attempt + 1))
      { f with execution := begin f.execution } := by
  rw [attempt_apply a run now h, Step.handling]
  rcases Step.perform ((a.notifier now).opening (f.execution.attempt + 1) a.waiter.strategy.limit)
    { f with execution := begin f.execution } with ⟨e | ⟨⟩, g⟩ <;> rfl

/-- The way on from the call of the operation: a poll is watched, anything else is an outcome, unless the call
raised a fault that is not ordinary. -/
def receive (a : Asynchronous σ) (run : RunId) (now : Binary64) : Except Fault Launch → Step σ Unit
  | .ok (.poll id) => do
    Step.change ({ · with poll := some id })
    Step.order (.watch id)
  | .ok .unfit => a.conclude run now (.raised Misuse.notAwaitable.fault)
  | .error e => if e.isOrdinary then a.conclude run now (.raised e) else throw e

/-- A launch counts the call, makes it and goes on from what it gives. -/
theorem launch_eq (a : Asynchronous σ) (run : RunId) (now : Binary64) (n : Nat) :
    a.launch run now n = (do
      Step.change countCall
      let call ← Step.read (·.calls)
      let given ← Step.trying (Act.call (.polled n) (a.operation run call))
      a.receive run now given) :=
  rfl

variable {a : Asynchronous σ} (functional : a.waiter.IsFunctional) (keeps : a.KeepsServing)
  (k : Caller σ) (run : RunId) (now : Binary64)

section Judging

include functional

theorem judge_doubles (o : Outcome) (n : Nat) (started : Value) (f : Frame σ) :
    Step.Doubles run answers f (a.judge now o n started) ((a.alone k).judge now o n started) :=
  Step.doubles_bind (Step.doubles_freezes (evaluate_freezes functional o _)) fun t _ =>
    Step.doubles_bind (Step.doubles_freezes (Notifier.tell_freezes functional _ o n started t))
      fun _ _ => Step.doubles_pure _

end Judging

include keeps

theorem schedule_doubles (delay : Number) (f : Frame σ) :
    ∃ answer, ∀ answers : Answers, answers.handOver = answer →
      Step.Doubles run answers f (a.schedule run delay) ((a.alone k).schedule 0 delay) := by
  simp only [schedule, alone_scheduler]
  cases hs : a.scheduler with
  | timers given =>
    refine ⟨{ result := .ok 0 }, fun answers _ => ?_⟩
    refine Step.doubles_bind (Step.doubles_read _) fun p _ => ?_
    dsimp only [Scheduler.answering]
    split
    · exact Step.doubles_note _
    · rw [Step.guarding_eq, Step.guarding_eq]
      refine Step.doubles_handling (Step.doubles_freezes ?_) fun d _ => ?_
      · exact Act.freezes_bind (Act.freezes_record _) fun _ => Scheduler.span_freezes _ _
      · exact Step.doubles_bind (Step.doubles_order rfl trivial) fun _ _ =>
          Step.doubles_bind (Step.doubles_change _) fun _ _ => Step.doubles_enter _
  | custom schedule cancel =>
    -- alone, the scheduler is scripted to answer what this one answers in the frame
    refine ⟨(schedule run delay).answer run f.world.caller, fun answers answered => ?_⟩
    refine Step.doubles_bind (Step.doubles_read _) fun p _ => ?_
    dsimp only [Scheduler.answering]
    split
    · exact Step.doubles_note _
    · rw [Step.guarding_eq, Step.guarding_eq]
      refine Step.doubles_handling (Step.doubles_perform fun serving _ => ?_) fun id _ => ?_
      · exact Act.doubles_call (keeps.schedule _ _ hs run delay) answered serving _
      · exact Step.doubles_bind (Step.doubles_change _) fun _ _ => Step.doubles_enter _

include functional

theorem conclude_doubles (o : Outcome) (f : Frame σ) :
    ∃ answer, ∀ answers : Answers, answers.handOver = answer →
      Step.Doubles run answers f (a.conclude run now o) ((a.alone k).conclude 0 now o) := by
  -- the scheduler is called in the frame that judging leads to
  have judged : ∀ answers, Step.Doubles run answers f
      (a.judge now o f.execution.attempt f.execution.started)
      ((a.alone k).judge now o f.execution.attempt f.execution.started) := fun answers =>
    judge_doubles functional k run now o _ _ f
  have both : ∀ answers, Step.Doubles run answers f
      (Step.handling (a.judge now o f.execution.attempt f.execution.started) (a.follow run))
      (Step.handling ((a.alone k).judge now o f.execution.attempt f.execution.started)
        ((a.alone k).follow 0)) →
      Step.Doubles run answers f (a.conclude run now o) ((a.alone k).conclude 0 now o) := by
    intro answers h f' doubles
    have same := h f' doubles
    rw [conclude_eq, conclude_eq, doubles.execution]
    exact same
  rcases hj : a.judge now o f.execution.attempt f.execution.started f with ⟨e | c | d, g⟩
  · refine ⟨{ result := .ok 0 }, fun answers _ => both answers ?_⟩
    exact Step.doubles_handling (judged answers) fun next hn => by rw [hj] at hn; exact nomatch hn
  · refine ⟨{ result := .ok 0 }, fun answers _ => both answers ?_⟩
    refine Step.doubles_handling (judged answers) fun next hn => ?_
    rw [hj] at hn ⊢
    obtain rfl := Except.ok.inj hn
    exact Step.doubles_settle _
  · obtain ⟨answer, scheduled⟩ := schedule_doubles keeps k run d g
    refine ⟨answer, fun answers answered => both answers ?_⟩
    refine Step.doubles_handling (judged answers) fun next hn => ?_
    rw [hj] at hn ⊢
    obtain rfl := Except.ok.inj hn
    exact scheduled answers answered

theorem receive_doubles (r : Except Fault Launch) (f : Frame σ) :
    ∃ answer, ∀ answers : Answers, answers.handOver = answer →
      Step.Doubles run answers f (a.receive run now r) ((a.alone k).receive 0 now r) := by
  rcases r with e | ⟨id⟩ | _
  · obtain ⟨answer, concludes⟩ := conclude_doubles functional keeps k run now (.raised e) f
    refine ⟨answer, fun answers answered => ?_⟩
    dsimp only [receive]
    split
    · exact concludes answers answered
    · exact fun _ h => ⟨rfl, h⟩
  · exact ⟨{ result := .ok 0 }, fun _ _ => Step.doubles_bind (Step.doubles_change _) fun _ _ =>
      Step.doubles_order rfl trivial⟩
  · exact conclude_doubles functional keeps k run now _ f

theorem launch_doubles (n : Nat) (f : Frame σ) :
    ∃ launch handOver, ∀ answers : Answers, answers.launch = launch → answers.handOver = handOver →
      Step.Doubles run answers f (a.launch run now n) ((a.alone k).launch 0 now n) := by
  let f₁ : Frame σ := { f with execution := countCall f.execution }
  let call := Step.trying (Act.call (.polled n) (a.operation run f₁.execution.calls)) f₁
  -- the call is answered in the frame in which it is made, the scheduler where the call leads to
  have received : ∀ r, call.1 = .ok r → ∃ answer, ∀ answers : Answers, answers.handOver = answer →
      Step.Doubles run answers call.2 (a.receive run now r) ((a.alone k).receive 0 now r) :=
    fun r _ => receive_doubles functional keeps k run now r call.2
  obtain ⟨answer, goesOn⟩ := received _ rfl
  refine ⟨(a.operation run f₁.execution.calls).answer run f₁.world.caller, answer,
    fun answers launched handed => ?_⟩
  rw [launch_eq, launch_eq]
  refine Step.doubles_bind (Step.doubles_change _) fun _ _ => ?_
  refine Step.doubles_bind (Step.doubles_read _) fun calls hcalls => ?_
  obtain rfl := Except.ok.inj hcalls
  refine Step.doubles_bind (Step.doubles_trying fun serving _ => ?_) fun r hr => ?_
  · exact Act.doubles_call (keeps.operation run _) launched serving _
  · obtain rfl := Except.ok.inj hr
    exact goesOn answers handed

/-- The callback that runs an attempt. -/
theorem attempt_doubles (f : Frame σ) : ∃ answers : Answers,
    Step.Doubles run answers f (a.attempt run now) ((a.alone k).attempt 0 now) := by
  cases settled : f.execution.promise.isSettled with
  | true =>
    refine ⟨{}, fun f' doubles => ?_⟩
    have settled' : f'.execution.promise.isSettled = true := by rw [doubles.execution, settled]
    rw [attempt_of_isSettled a run now settled, attempt_of_isSettled (a.alone k) 0 now settled']
    exact Step.doubles_freezes (Act.freezes_record _) _ (doubles.change ({ · with handle := none }))
  | false =>
    let opening := (a.notifier now).opening (f.execution.attempt + 1) a.waiter.strategy.limit
    let f₁ := (Step.perform opening { f with execution := begin f.execution }).2
    obtain ⟨launch, handOver, launches⟩ :=
      launch_doubles functional keeps k run now (f.execution.attempt + 1) f₁
    refine ⟨{ launch, handOver }, fun f' doubles => ?_⟩
    have settled' : f'.execution.promise.isSettled = false := by rw [doubles.execution, settled]
    rw [attempt_eq a run now settled, attempt_eq (a.alone k) 0 now settled', doubles.execution]
    refine Step.doubles_handling (f := { f with execution := begin f.execution })
      (Step.doubles_freezes (Notifier.opening_freezes functional _ _ _)) (fun _ _ => ?_) _ ?_
    · exact launches _ rfl rfl
    · exact doubles.execution ▸ doubles.change begin

/-- The callback that takes the result of a poll. -/
theorem pollEnded_doubles (ending : Ending) (f : Frame σ) : ∃ answers : Answers,
    Step.Doubles run answers f (a.pollEnded run now ending) ((a.alone k).pollEnded 0 now ending) := by
  cases settled : f.execution.promise.isSettled with
  | true =>
    refine ⟨{}, fun f' doubles => ?_⟩
    have settled' : f'.execution.promise.isSettled = true := by rw [doubles.execution, settled]
    rw [pollEnded_of_isSettled a run now ending settled,
      pollEnded_of_isSettled (a.alone k) 0 now ending settled', doubles.execution]
    exact Step.doubles_freezes (Act.freezes_record _) _ (doubles.execution ▸ doubles.change forget)
  | false =>
    cases ho : ending.outcome? with
    | some o =>
      obtain ⟨handOver, concludes⟩ :=
        conclude_doubles functional keeps k run now o { f with execution := forget f.execution }
      refine ⟨{ handOver }, fun f' doubles => ?_⟩
      have settled' : f'.execution.promise.isSettled = false := by rw [doubles.execution, settled]
      rw [pollEnded_of_outcome a run now ho settled,
        pollEnded_of_outcome (a.alone k) 0 now ho settled']
      exact concludes _ rfl _ (doubles.change forget)
    | none =>
      -- neither the operation nor the scheduler is called
      refine ⟨{}, ?_⟩
      unfold pollEnded
      refine Step.doubles_bind (Step.doubles_change _) fun _ _ => ?_
      refine Step.doubles_bind (Step.doubles_read _) fun attempt _ => ?_
      refine Step.doubles_bind (Step.doubles_read _) fun promise _ => ?_
      split
      · exact Step.doubles_note _
      · cases ending with
        | value v => exact nomatch ho
        | fault e =>
          have stop : e.isOrdinary = false := by simpa [Ending.outcome?] using ho
          simp only [stop, Bool.false_eq_true, if_false]
          exact Step.doubles_reject e
        | cancelled =>
          exact Step.doubles_bind (Step.doubles_note _) fun _ _ => Step.doubles_settle _

omit functional

/-- A handle that is kept is withdrawn. -/
theorem withdraw_doubles (f : Frame σ) : ∃ withdraw, ∀ answers : Answers, answers.withdraw = withdraw →
    Step.Doubles run answers f a.withdraw (a.alone k).withdraw := by
  have cancels : ∀ h, ∃ withdraw, ∀ answers : Answers, answers.withdraw = withdraw →
      Step.Doubles run answers f (a.cancelHandle h) ((a.alone k).cancelHandle h) := by
    intro h
    cases h with
    | timer =>
      exact ⟨{ result := .ok () }, fun _ _ =>
        Step.doubles_bind (Step.doubles_enter _) fun _ _ => Step.doubles_order rfl trivial⟩
    | custom id =>
      simp only [cancelHandle, alone_scheduler, Step.act_eq_perform]
      cases hs : a.scheduler with
      | timers given =>
        -- the timers have no numbers, so there is nothing to call on either side
        exact ⟨{ result := .ok () }, fun _ _ => Step.doubles_freezes (Act.freezes_bind
          (Act.freezes_record _) fun _ => Act.freezes_code_of_eq (fun _ => rfl) fun _ => rfl)⟩
      | custom schedule cancel =>
        refine ⟨(cancel id).answer run f.world.caller, fun answers answered => ?_⟩
        exact Step.doubles_perform fun serving _ =>
          Act.doubles_call (keeps.cancel _ _ hs id) answered serving _
  -- whether there is a handle is known before the callback runs, and with it the answer to prepare
  cases hh : f.execution.handle with
  | none =>
    refine ⟨{ result := .ok () }, fun answers _ => ?_⟩
    refine Step.doubles_bind (Step.doubles_read _) fun handle hhandle => ?_
    obtain rfl : f.execution.handle = handle := Except.ok.inj hhandle
    rw [hh]
    exact Step.doubles_pure _
  | some h =>
    obtain ⟨withdraw, cancelled⟩ := cancels h
    refine ⟨withdraw, fun answers answered => ?_⟩
    refine Step.doubles_bind (Step.doubles_read _) fun handle hhandle => ?_
    obtain rfl : f.execution.handle = handle := Except.ok.inj hhandle
    rw [hh]
    exact Step.doubles_bind (cancelled answers answered) fun _ _ => Step.doubles_change _

/-- A poll that is known is told to stop. -/
theorem stop_doubles (f : Frame σ) : ∃ stop, ∀ answers : Answers, answers.stop = stop →
    Step.Doubles run answers f a.stop (a.alone k).stop := by
  cases hp : f.execution.poll with
  | none =>
    refine ⟨{ result := .ok () }, fun answers _ => ?_⟩
    refine Step.doubles_bind (Step.doubles_read _) fun poll hpoll => ?_
    obtain rfl : f.execution.poll = poll := Except.ok.inj hpoll
    rw [hp]
    exact Step.doubles_pure _
  | some id =>
    refine ⟨(a.cancelPoll id).answer run f.world.caller, fun answers answered => ?_⟩
    refine Step.doubles_bind (Step.doubles_read _) fun poll hpoll => ?_
    obtain rfl : f.execution.poll = poll := Except.ok.inj hpoll
    rw [hp]
    dsimp only
    rw [Step.act_eq_perform, Step.act_eq_perform]
    refine Step.doubles_bind (Step.doubles_perform fun serving _ => ?_) fun _ _ => Step.doubles_change _
    exact Act.doubles_call (keeps.cancelPoll id) answered serving _

/-- The callback that follows the settling of the promise. -/
theorem settled_doubles (f : Frame σ) : ∃ answers : Answers,
    Step.Doubles run answers f a.settled (a.alone k).settled := by
  let f₁ := (Step.act (Act.note (.cancelled f.execution.attempt)) f).2
  obtain ⟨withdraw, withdraws⟩ := withdraw_doubles keeps k run f₁
  obtain ⟨stop, stops⟩ := stop_doubles keeps k run (a.withdraw f₁).2
  refine ⟨{ withdraw, stop }, ?_⟩
  refine Step.doubles_bind (Step.doubles_read _) fun promise _ => ?_
  cases promise with
  | cancelled =>
    refine Step.doubles_bind (Step.doubles_read _) fun attempt hattempt => ?_
    obtain rfl : f.execution.attempt = attempt := Except.ok.inj hattempt
    exact Step.doubles_bind (Step.doubles_note _) fun _ _ =>
      Step.doubles_bind (withdraws _ rfl) fun _ _ => stops _ rfl
  | _ => exact Step.doubles_pure _

end Asynchronous

end Polling
