import Polling.Proofs.Moves

/-!
# Where a callback runs code of the caller's

A callback that the loop runs comes to at most four places at which it runs code of the caller's: the hook
that opens an attempt, the call of the operation, the evaluation of an outcome by matchers and backoff,
and the hook that is told what came of it. `Asynchronous.Reaches` says that a callback, begun in one
frame, comes to a place in another; `Asynchronous.visit` is what runs there, and
`Asynchronous.remainder` all that is left of the callback from there on (`Reaches.body_eq`).

So a callback can be taken apart at each of these places: up to there it has neither scheduled nor
watched anything (`Reaches.approaches`), and what follows depends only on how the caller's code ends.
-/

namespace Polling

instance (r : Except Fault Unit) : Decidable (r = .ok ()) :=
  match r with
  | .ok () => .isTrue rfl
  | .error _ => .isFalse nofun

/-- A place in a callback at which code of the caller's runs. -/
inductive Place where
  /-- The hook that opens an attempt is called. -/
  | opening (attempt : Nat)
  /-- The operation is called for an attempt. -/
  | calling (attempt : Nat)
  /-- Matchers and backoff judge the outcome of an attempt. -/
  | judging (attempt : Nat) (o : Outcome)
  /-- A hook is told what came of the outcome of an attempt. -/
  | telling (attempt : Nat) (o : Outcome) (t : Transition)

namespace Place

/-- Is a hook called at a place? -/
def isHook : Place → Bool
  | opening _ => true
  | telling _ _ _ => true
  | _ => false

/-- Is an attempt opened at a place? -/
def isOpening : Place → Bool
  | opening _ => true
  | _ => false

/-- The attempt that a place belongs to. -/
def attempt : Place → Nat
  | opening n => n
  | calling n => n
  | judging n _ => n
  | telling n _ _ => n

end Place

/-- What a part of a callback does that neither schedules nor watches anything: it runs code of the
caller's and changes counters. -/
structure Frame.Approaches (f f' : Frame σ) (es : List Event) (os : List Order) : Prop
    extends Grows f f' es os where
  unscheduled : es.countP Event.isScheduled = 0
  unfired : es.countP Event.isFired = 0
  unwatched : os.countP Order.isWatch = 0
  promise : f.execution.promise.OrCancelled f'.execution.promise

namespace Frame

/-- A change of the execution that is not about the promise. -/
theorem approaches_change {f : Frame σ} {x : Execution} (h : x.promise = f.execution.promise) :
    Approaches f { f with execution := x } [] [] :=
  ⟨grows_change h, rfl, rfl, rfl, .inl h⟩

theorem Approaches.trans {f f' f'' : Frame σ} {es es' : List Event} {os os' : List Order}
    (h : Approaches f f' es os) (h' : Approaches f' f'' es' os') :
    Approaches f f'' (es ++ es') (os ++ os') where
  toGrows := h.toGrows.trans h'.toGrows
  unscheduled := by rw [List.countP_append, h.unscheduled, h'.unscheduled]
  unfired := by rw [List.countP_append, h.unfired, h'.unfired]
  unwatched := by rw [List.countP_append, h.unwatched, h'.unwatched]
  promise := Promise.orCancelled_trans h.promise h'.promise

end Frame

namespace Step

/-- Do something and drop its result. -/
def ignoring (s : Step σ α) : Step σ Unit := fun f => ((s f).1.map fun _ => (), (s f).2)

/-- What is raised is not dropped. -/
theorem error_of_ignoring {s : Step σ α} {f : Frame σ} {e : Fault} (h : (s.ignoring f).1 = .error e) :
    s f = (.error e, (s.ignoring f).2) := by
  rcases hs : s f with ⟨e' | x, f'⟩
  · simp only [ignoring, hs, Except.map] at h ⊢
    obtain rfl := Except.error.inj h
    rfl
  · simp only [ignoring, hs, Except.map] at h
    exact nomatch h

/-- An act approaches unless it calls the scheduler. -/
theorem perform_approaches {a : Act σ α}
    (h : a.Enters fun e => e.isScheduled = false ∧ e.isFired = false) (f : Frame σ) :
    ∃ es os, Frame.Approaches f (perform a f).2 es os := by
  obtain ⟨es, hes, none⟩ := h f.world
  have serves : Frame.Serves f (perform a f).2 es := Frame.absorb_serves hes
  obtain ⟨os, evolves⟩ := serves.evolves
  refine ⟨es, os, evolves.toGrows, ?_, ?_, evolves.unwatched, serves.promise⟩
  · rw [List.countP_eq_zero]
    intro e he
    simp [(none e he).1]
  · rw [List.countP_eq_zero]
    intro e he
    simp [(none e he).2]

end Step

namespace Asynchronous

variable (a : Asynchronous σ) (run : RunId) (now : Binary64)

/-- What a callback of an execution runs. -/
def body : Callback → Step σ Unit
  | .attempt _ => a.attempt run now
  | .pollEnded _ ending => a.pollEnded run now ending
  | .settled _ => a.settled
  | .errand _ => pure ()

/-- Run the caller's code at a place. -/
def visit : Place → Step σ Unit
  | .opening n => Step.perform ((a.notifier now).opening n a.waiter.strategy.limit)
  | .calling n => fun g =>
    (Step.perform (Act.call (.polled n) (a.operation run g.execution.calls))).ignoring g
  | .judging n o =>
    (Step.perform (evaluate a.waiter.acceptors a.waiter.strategy o (.int n))).ignoring
  | .telling n o t => fun g => Step.perform ((a.notifier now).tell o n g.execution.started t) g

/-- A fault that an evaluation raises is raised where the outcome is judged. -/
theorem visit_judging_error {n : Nat} {o : Outcome} {g g' : Frame σ} {e : Fault}
    (raised : Step.perform (evaluate a.waiter.acceptors a.waiter.strategy o (.int n)) g = (.error e, g')) :
    a.visit run now (.judging n o) g = (.error e, g') := by
  simp only [visit, Step.ignoring, raised]
  rfl

theorem opening_approaches (n : Nat) (g : Frame σ) : ∃ es os, Frame.Approaches g
    (Step.perform ((a.notifier now).opening n a.waiter.strategy.limit) g).2 es os :=
  Step.perform_approaches (Notifier.opening_enters (fun _ _ => ⟨rfl, rfl⟩) (fun _ => ⟨rfl, rfl⟩) _ _ _) g

theorem calling_approaches (n : Nat) (g : Frame σ) : ∃ es os, Frame.Approaches g
    (Step.perform (Act.call (.polled n) (a.operation run g.execution.calls)) g).2 es os :=
  Step.perform_approaches (Act.enters_call ⟨rfl, rfl⟩ _) g

theorem judging_approaches (n : Nat) (o : Outcome) (g : Frame σ) : ∃ es os, Frame.Approaches g
    (Step.perform (evaluate a.waiter.acceptors a.waiter.strategy o (.int n)) g).2 es os :=
  Step.perform_approaches (evaluate_enters (fun _ _ => ⟨rfl, rfl⟩) (fun _ _ => ⟨rfl, rfl⟩)
    (fun _ => ⟨rfl, rfl⟩) _ _ _ _ ⟨rfl, rfl⟩) g

theorem telling_approaches (n : Nat) (o : Outcome) (t : Transition) (g : Frame σ) :
    ∃ es os, Frame.Approaches g
      (Step.perform ((a.notifier now).tell o n g.execution.started t) g).2 es os :=
  Step.perform_approaches (Notifier.tell_enters (fun _ _ => ⟨rfl, rfl⟩) (fun _ => ⟨rfl, rfl⟩) _ _ _ _ _) g

/-- The code at a place schedules and watches nothing. -/
theorem visit_approaches (p : Place) (g : Frame σ) :
    ∃ es os, Frame.Approaches g (a.visit run now p g).2 es os := by
  cases p with
  | opening n => exact a.opening_approaches now n g
  | calling n => exact a.calling_approaches run n g
  | judging n o => exact a.judging_approaches n o g
  | telling n o t => exact a.telling_approaches now n o t g

/-- A callback, begun in a frame, comes to a place in another. -/
inductive Reaches : Callback → Frame σ → Place → Frame σ → Prop where
  /-- An attempt is opened while the promise is pending. -/
  | opening {f} (pending : f.execution.promise.isSettled = false) :
      Reaches (.attempt run) f (.opening (f.execution.attempt + 1))
        { f with execution := begin f.execution }
  /-- The operation is called when the hook before it has returned. -/
  | calling {k f n g g'} (reaches : Reaches k f (.opening n) g)
      (opened : Step.perform ((a.notifier now).opening n a.waiter.strategy.limit) g = (.ok (), g')) :
      Reaches k f (.calling n) { g' with execution := countCall g'.execution }
  /-- A call of the operation has failed, with an ordinary fault or for want of a poll. -/
  | failing {k f n g g' result o} (reaches : Reaches k f (.calling n) g)
      (called : Step.perform (Act.call (.polled n) (a.operation run g.execution.calls)) g =
        (result, g'))
      (failed : Launch.failure? result = some o) (ordinary : ∀ e, result = .error e → e.isOrdinary = true) :
      Reaches k f (.judging n o) g'
  /-- A poll has ended in an outcome while the promise is pending. -/
  | ended {ending f o} (pending : f.execution.promise.isSettled = false)
      (outcome : ending.outcome? = some o) :
      Reaches (.pollEnded run ending) f (.judging f.execution.attempt o)
        { f with execution := forget f.execution }
  /-- An outcome has been evaluated. -/
  | telling {k f n o g t g'} (reaches : Reaches k f (.judging n o) g)
      (evaluated : Step.perform (evaluate a.waiter.acceptors a.waiter.strategy o (.int n)) g =
        (.ok t, g')) :
      Reaches k f (.telling n o t) g'

/-- What is left of a callback from a place on. -/
def remainder : Place → Step σ Unit
  | .opening n => fun g =>
    match Step.perform ((a.notifier now).opening n a.waiter.strategy.limit) g with
    | (.ok _, g') => a.launch run now n g'
    | (.error e, g') => Step.refuse e g'
  | .calling n => fun g =>
    match Step.perform (Act.call (.polled n) (a.operation run g.execution.calls)) g with
    | (.ok (.poll id), g') =>
      (.ok (), { g' with execution := { g'.execution with poll := some id } }.order (.watch id))
    | (.ok .unfit, g') => a.conclude run now (.raised Misuse.notAwaitable.fault) g'
    | (.error e, g') =>
      if e.isOrdinary then a.conclude run now (.raised e) g' else (.error e, g')
  | .judging _ o => a.conclude run now o
  | .telling n o t => fun g =>
    match Step.perform ((a.notifier now).tell o n g.execution.started t) g with
    | (.ok _, g') => a.follow run t.next g'
    | (.error e, g') => Step.refuse e g'

variable {a run now} {k : Callback} {f g : Frame σ} {p : Place}

/-- On the way to a place, nothing is scheduled or watched. -/
theorem Reaches.approaches (h : a.Reaches run now k f p g) :
    ∃ es os, Frame.Approaches f g es os := by
  induction h with
  | opening pending => exact ⟨[], [], Frame.approaches_change rfl⟩
  | @calling k f n g g' reaches opened ih =>
    obtain ⟨es, os, before⟩ := ih
    obtain ⟨es', os', opens⟩ := a.opening_approaches now n g
    rw [opened] at opens
    exact ⟨_, _, (before.trans opens).trans (Frame.approaches_change rfl)⟩
  | @failing k f n g g' result o reaches called failed ordinary ih =>
    obtain ⟨es, os, before⟩ := ih
    obtain ⟨es', os', calls⟩ := a.calling_approaches run n g
    rw [called] at calls
    exact ⟨_, _, before.trans calls⟩
  | ended pending outcome => exact ⟨[], [], Frame.approaches_change rfl⟩
  | @telling k f n o g t g' reaches evaluated ih =>
    obtain ⟨es, os, before⟩ := ih
    obtain ⟨es', os', judges⟩ := a.judging_approaches n o g
    rw [evaluated] at judges
    exact ⟨_, _, before.trans judges⟩

/-- Places lie in the callback that runs an attempt and in the one that takes the result of a poll. -/
theorem Reaches.own (h : a.Reaches run now k f p g) :
    k = .attempt run ∨ ∃ ending, k = .pollEnded run ending := by
  induction h with
  | opening pending => exact .inl rfl
  | calling reaches opened ih => exact ih
  | failing reaches called failed ordinary ih => exact ih
  | ended pending outcome => exact .inr ⟨_, rfl⟩
  | telling reaches evaluated ih => exact ih

/-- The frame at a place knows the attempt. -/
theorem Reaches.attempt (h : a.Reaches run now k f p g) : g.execution.attempt = p.attempt := by
  induction h with
  | opening pending => rfl
  | calling reaches opened ih =>
    have same := congrArg Execution.attempt (Step.execution_of_perform opened)
    exact same.trans ih
  | failing reaches called failed ordinary ih =>
    have same := congrArg Execution.attempt (Step.execution_of_perform called)
    exact same.trans ih
  | ended pending outcome => rfl
  | telling reaches evaluated ih =>
    have same := congrArg Execution.attempt (Step.execution_of_perform evaluated)
    exact same.trans ih

/-- On the way to a place, the time at which the execution began stays as it is. -/
theorem Reaches.started (h : a.Reaches run now k f p g) : g.execution.started = f.execution.started := by
  induction h with
  | opening pending => rfl
  | calling reaches opened ih => exact (congrArg Execution.started (Step.execution_of_perform opened)).trans ih
  | failing reaches called failed ordinary ih =>
    exact (congrArg Execution.started (Step.execution_of_perform called)).trans ih
  | ended pending outcome => rfl
  | telling reaches evaluated ih =>
    exact (congrArg Execution.started (Step.execution_of_perform evaluated)).trans ih

/-- From a place on, a callback does what is left of it there. -/
theorem Reaches.body_eq (h : a.Reaches run now k f p g) :
    a.body run now k f = a.remainder run now p g := by
  -- along the way: from a place where the code has returned, what is left is what is left at the next
  induction h with
  | opening pending => exact a.attempt_apply run now pending
  | @calling k f n g g' reaches opened ih =>
    rw [ih]
    simp only [remainder, opened]
    exact a.launch_apply run now n g'
  | @failing k f n g g' result o reaches called failed ordinary ih =>
    rw [ih]
    simp only [remainder, called]
    rcases result with e | ⟨id⟩ | _
    · obtain rfl := Option.some.inj failed
      simp only [ordinary e rfl, if_true]
    · exact nomatch failed
    · obtain rfl := Option.some.inj failed
      rfl
  | ended pending outcome => exact a.pollEnded_of_outcome run now outcome pending
  | @telling k f n o g t g' reaches evaluated ih =>
    -- the hook is told the attempt and the start that were read before the evaluation
    have attempt : g.execution.attempt = n := reaches.attempt
    have same := congrArg Execution.started (Step.execution_of_perform evaluated)
    have started : g'.execution.started = g.execution.started := same
    rw [ih]
    simp only [remainder, conclude_apply, judge, Step.bind_apply, attempt, evaluated, started]
    rcases Step.perform ((a.notifier now).tell o n g.execution.started t) g' with ⟨e | ⟨⟩, g''⟩ <;> rfl

/-- A fault that is not ordinary leaves the callback from wherever it is raised. -/
theorem remainder_of_raised {e : Fault} (h : e.isOrdinary = false)
    (raised : (a.visit run now p g).1 = .error e) (attempt : g.execution.attempt = p.attempt) :
    a.remainder run now p g = (.error e, (a.visit run now p g).2) := by
  have refused : ∀ f : Frame σ, Step.refuse e f = (.error e, f) := by
    intro f
    simp only [Step.refuse, h, Bool.false_eq_true, if_false]
    rfl
  -- at each place the fault of the visit is what is refused
  cases p with
  | opening n =>
    have opened : Step.perform ((a.notifier now).opening n a.waiter.strategy.limit) g =
        (.error e, (a.visit run now (.opening n) g).2) := Prod.ext raised rfl
    simp only [remainder, opened, refused]
  | calling n =>
    have called := Step.error_of_ignoring raised
    simp only [remainder, called, h, Bool.false_eq_true, if_false]
    rfl
  | judging n o =>
    have judged := Step.error_of_ignoring raised
    rw [← show g.execution.attempt = n from attempt] at judged ⊢
    simp only [remainder, conclude_apply, judge, Step.bind_apply, judged, refused]
    rfl
  | telling n o t =>
    have told : Step.perform ((a.notifier now).tell o n g.execution.started t) g =
        (.error e, (a.visit run now (.telling n o t) g).2) := Prod.ext raised rfl
    simp only [remainder, told, refused]

end Asynchronous

/-! ## The turn of a callback -/

/-- What is entered into the journal when a callback is taken from the loop. -/
def Callback.entries : Callback → List Event
  | .pollEnded _ ending => [.ended ending]
  | _ => []

namespace Session

variable {a : Asynchronous σ} {s : Session σ} {run : RunId} {l : EventLoop Callback} {k : Callback}
  {x : Execution} {p : Place} {g : Frame σ}

/-- The session in which a callback begins that has been taken from the loop. -/
def begun (s : Session σ) (l : EventLoop Callback) (run : RunId) : Callback → Session σ
  | .pollEnded _ ending => { s with loop := l }.enter run (.ended ending)
  | _ => { s with loop := l }

theorem journalOf_begun (s : Session σ) (l : EventLoop Callback) (run : RunId) (k : Callback) :
    (s.begun l run k).journalOf run = s.journalOf run ++ k.entries := by
  cases k with
  | pollEnded _ ending => exact journalOf_enter s l run _
  | _ => exact (List.append_nil _).symm

/-- An attempt that is taken from the loop while the promise is pending comes to the hook that opens
it. -/
theorem reaches_opening (a : Asynchronous σ) (next : s.loop.take.1.any (Callback.isAttempt run) = true)
    (pending : x.promise.isSettled = false) :
    s.loop.take = (some (.attempt run), s.loop.take.2) ∧
      a.Reaches run s.loop.take.2.time (.attempt run) (s.frame run x) (.opening (x.attempt + 1))
        { s.frame run x with execution := Asynchronous.begin x } := by
  obtain ⟨k, hk, own⟩ := (Option.any_eq_true _ _).1 next
  obtain rfl : k = .attempt run := by
    cases k <;> simp_all [Callback.isAttempt]
  exact ⟨Prod.ext hk rfl, .opening (f := s.frame run x) pending⟩

/-- What is entered beforehand is in the journal, and not in the frame. -/
theorem frame_begun (own : k = .attempt run ∨ ∃ ending, k = .pollEnded run ending) :
    (s.begun l run k).frame run x = s.frame run x := by
  rcases own with rfl | ⟨ending, rfl⟩ <;> rfl

/-- A fault that leaves a callback is what its body raises. -/
theorem step_result (hx : s.runs[run]? = some x) (body : Step σ Unit) :
    (s.step run body).1 = (body (s.frame run x)).1 := by
  simp only [step, hx]
  rfl

/-- A fault that is reported is kept. -/
theorem mem_report (s : Session σ) (e : Fault) : e ∈ (s.report e).escaped ++ (s.report e).unhandled := by
  unfold report
  split <;> simp

/-- The turn of one of these callbacks runs its body and reports the fault that leaves it, if one
does. -/
theorem move_turn_own (taken : s.loop.take = (some k, l))
    (own : k = .attempt run ∨ ∃ ending, k = .pollEnded run ending) :
    s.move a .turn = match ((s.begun l run k).step run (a.body run l.time k)).1 with
      | .ok () => ((s.begun l run k).step run (a.body run l.time k)).2
      | .error e => ((s.begun l run k).step run (a.body run l.time k)).2.report e := by
  simp only [move, taken]
  rcases own with rfl | ⟨ending, rfl⟩ <;> rfl

/-- A callback that comes to a place does from there on what is left of it, and a fault that leaves it is
kept. -/
theorem turn_ran (taken : s.loop.take = (some k, l)) (hx : s.runs[run]? = some x)
    (reaches : a.Reaches run l.time k (s.frame run x) p g) :
    ∃ n, Ran (s.begun l run k) (s.move a .turn) run x (a.remainder run l.time p g).2 n ∧
      ∀ e, (a.remainder run l.time p g).1 = .error e →
        e ∈ (s.move a .turn).escaped ++ (s.move a .turn).unhandled := by
  have lookup : (s.begun l run k).runs[run]? = some x := by
    rcases reaches.own with rfl | ⟨ending, rfl⟩ <;> exact hx
  have result := step_result lookup (a.body run l.time k)
  obtain ⟨n, ran⟩ := step_ran lookup (a.body run l.time k)
  rw [frame_begun reaches.own, reaches.body_eq] at result ran
  rw [move_turn_own taken reaches.own]
  refine ⟨n, ran.report _, ?_⟩
  intro e he
  rw [result, he]
  exact mem_report _ e

end Session

end Polling
