import Polling.Proofs.Places
import Polling.Proofs.Sequence

/-!
# What a cancelled execution still does

Every callback of an execution looks at the promise first. Once the promise is settled, a queued attempt
is skipped, the result of a poll is ignored, and what follows the settling only cleans up. So a move
adds nothing to the journal but entries without a call (`Session.Quiesces`), and neither does a whole
run of moves, whatever the scheduler, the polls and the other executions do meanwhile
(`Reachable.quiesces`).

An execution that is cancelled from outside of its own callbacks is quiet from that very move on
(`Reachable.quiet_of_cancelled`).
-/

namespace Polling

namespace Asynchronous

variable (a : Asynchronous σ) (run : RunId) (now : Binary64)

/-- An attempt that comes too late for its promise only clears the handle and writes to the log. -/
theorem attempt_tidies {f : Frame σ} (h : f.execution.promise.isSettled = true) :
    ∃ es os, Frame.Tidies f (a.attempt run now f).2 es os := by
  rw [attempt_of_isSettled a run now h]
  have cleared : Frame.Tidies f { f with execution := { f.execution with handle := none } } [] [] :=
    Frame.tidies_change rfl rfl rfl
  have noted : (Act.note .skipping : Act σ Unit).Enters (·.isTidying = true) := Act.enters_record rfl
  obtain ⟨es, os, tidies⟩ := Step.tidies_perform noted
    { f with execution := { f.execution with handle := none } }
  exact ⟨_, _, cleared.trans tidies⟩

/-- A result that comes too late for its promise only clears the poll and is written to the log. -/
theorem pollEnded_tidies (ending : Ending) {f : Frame σ}
    (h : f.execution.promise.isSettled = true) :
    ∃ es os, Frame.Tidies f (a.pollEnded run now ending f).2 es os := by
  rw [pollEnded_of_isSettled a run now ending h]
  have cleared : Frame.Tidies f { f with execution := forget f.execution } [] [] :=
    Frame.tidies_change rfl rfl rfl
  have noted : (Act.note (.ignoring f.execution.attempt) : Act σ Unit).Enters (·.isTidying = true) :=
    Act.enters_record rfl
  obtain ⟨es, os, tidies⟩ := Step.tidies_perform noted { f with execution := forget f.execution }
  exact ⟨_, _, cleared.trans tidies⟩

/-- Acting on the result of judging comes to no more than a line of the log. -/
theorem follow_tidies (next : Conclusion ⊕ Number) {f : Frame σ}
    (h : f.execution.promise.isSettled = true) :
    ∃ es os, Frame.Tidies f (a.follow run next f).2 es os := by
  cases next with
  | inl c =>
    have kept : (a.follow run (.inl c) f).2 = f := Frame.settle_of_isSettled h _
    rw [kept]
    exact ⟨[], [], Frame.tidies_refl f⟩
  | inr delay =>
    have noted : (Act.note .notScheduling : Act σ Unit).Enters (·.isTidying = true) :=
      Act.enters_record rfl
    simp only [follow, a.schedule_of_isSettled run delay h]
    exact Step.tidies_perform noted f

/-- An outcome is still judged, but nothing is scheduled. -/
theorem conclude_quiet (o : Outcome) {f : Frame σ} (h : f.execution.promise.isSettled = true) :
    ∃ es os, Frame.Grows f (a.conclude run now o f).2 es os ∧ Quiet es := by
  obtain ⟨es, judged, quiet, -⟩ :=
    a.judge_serves now o f.execution.attempt f.execution.started f
  rw [conclude_apply]
  rcases hj : a.judge now o f.execution.attempt f.execution.started f with ⟨e | next, f'⟩
  · rw [hj] at judged
    obtain ⟨os, evolves⟩ := judged.evolves
    obtain ⟨os', refused⟩ := Step.refuse_evolves e f'
    exact ⟨_, _, evolves.toGrows.trans refused.toGrows, quiet_append quiet quiet_nil⟩
  · rw [hj] at judged
    obtain ⟨os, evolves⟩ := judged.evolves
    have settled : f'.execution.promise.isSettled = true := by
      rw [evolves.kept h]
      exact h
    obtain ⟨es', os', follows⟩ := a.follow_tidies run next settled
    exact ⟨_, _, evolves.toGrows.trans follows.toGrows,
      quiet_append quiet (quiet_of_isTidying follows.tidying)⟩

/-- The operation is called whatever has become of the promise, and nothing is scheduled if it is
settled. -/
theorem launch_polls (n : Nat) {f : Frame σ} (h : f.execution.promise.isSettled = true) :
    ∃ es os, Frame.Grows f (a.launch run now n f).2 (.polled n :: es) os ∧ Quiet es := by
  have counted : Frame.Grows f { f with execution := countCall f.execution } [] [] :=
    Frame.grows_change rfl
  have calls : Frame.Serves { f with execution := countCall f.execution } (Step.perform
      (Act.call (.polled n) (a.operation run (f.execution.calls + 1)))
      { f with execution := countCall f.execution }).2 [.polled n] := Frame.absorb_serves rfl
  rw [launch_apply]
  rcases hcall : Step.perform (Act.call (.polled n) (a.operation run (f.execution.calls + 1)))
    { f with execution := countCall f.execution } with ⟨result, g⟩
  rw [hcall] at calls
  obtain ⟨os, evolves⟩ := calls.evolves
  have grows : Frame.Grows f g [.polled n] os := counted.trans evolves.toGrows
  have settled : g.execution.promise.isSettled = true := by
    rw [grows.kept h]
    exact h
  -- a call that has failed leaves an outcome to conclude with
  have concludes : ∀ o, ∃ es os,
      Frame.Grows f (a.conclude run now o g).2 (.polled n :: es) os ∧ Quiet es := by
    intro o
    obtain ⟨es, os', concluded, quiet⟩ := a.conclude_quiet run now o settled
    exact ⟨es, _, grows.trans concluded, quiet⟩
  rcases result with e | ⟨id⟩ | _
  · cases ordinary : e.isOrdinary with
    | true => simpa [ordinary] using concludes (.raised e)
    | false => exact ⟨[], os, by simpa [ordinary] using grows, quiet_nil⟩
  · refine ⟨[], os ++ [.watch id], ⟨grows.history, ?_, ?_, grows.kept⟩, quiet_nil⟩
    · simp [Frame.order, grows.orders]
    · simpa [Frame.order, Order.isSettling] using grows.settlings
  · exact concludes _

/-- After a hook that has left the promise settled, an attempt that it opened calls the operation once
more. Otherwise nothing is called, and in no case the scheduler. -/
theorem remainder_of_settled {p : Place} {g g' : Frame σ} (hook : p.isHook = true)
    (visited : a.visit run now p g = (.ok (), g')) (settled : g'.execution.promise.isSettled = true) :
    ∃ es os, Frame.Grows g' (a.remainder run now p g).2 es os ∧
      es.countP Event.isScheduled = 0 ∧ es.countP Event.isPolled = p.isOpening.toNat ∧
      (p.isOpening = false → ∀ e ∈ es, e.isCall = false) := by
  cases p with
  | opening n =>
    -- between the hook and the call of the operation, nothing looks at the promise
    have opened : Step.perform ((a.notifier now).opening n a.waiter.strategy.limit) g = (.ok (), g') :=
      visited
    obtain ⟨es, os, grows, quiet⟩ := a.launch_polls run now n settled
    simp only [remainder, opened]
    refine ⟨_, os, grows, ?_, ?_, fun unopened => absurd unopened (by simp [Place.isOpening])⟩
    · rw [List.countP_cons, countP_isScheduled_quiet quiet]
      rfl
    · rw [List.countP_cons, countP_isPolled_quiet quiet]
      rfl
  | telling n o t =>
    have told : Step.perform ((a.notifier now).tell o n g.execution.started t) g = (.ok (), g') := visited
    obtain ⟨es, os, tidies⟩ := a.follow_tidies run t.next settled
    have quiet := quiet_of_isTidying tidies.tidying
    simp only [remainder, told]
    exact ⟨es, os, tidies.toGrows, countP_isScheduled_quiet quiet, countP_isPolled_quiet quiet,
      fun _ e he => Event.isCall_of_isTidying (tidies.tidying e he)⟩
  | calling n => simp [Place.isHook] at hook
  | judging n o => simp [Place.isHook] at hook

end Asynchronous

namespace Session

variable {a : Asynchronous σ} {s s' s'' : Session σ} {run : RunId} {p : Promise}
  {es es' : List Event}

/-- From one session to another, an execution makes entries without a call and comes to a promise. -/
structure Quiesces (s s' : Session σ) (run : RunId) (p : Promise) (es : List Event) : Prop where
  journal : s'.journalOf run = s.journalOf run ++ es
  uncalled : ∀ e ∈ es, e.isCall = false
  promise : s'.promise? run = some p

theorem Quiesces.trans {q : Promise} (h : Quiesces s s' run q es) (h' : Quiesces s' s'' run p es') :
    Quiesces s s'' run p (es ++ es') where
  journal := by rw [h'.journal, h.journal, List.append_assoc]
  uncalled := List.forall_mem_append.2 ⟨h.uncalled, h'.uncalled⟩
  promise := h'.promise

theorem isCall_fires (k : Nat) : ∀ e ∈ List.replicate k Event.fired, e.isCall = false := by
  intro e he
  rw [List.eq_of_mem_replicate he]
  rfl

/-- A callback that tidies up is quiet. -/
theorem Ran.quiesces {s₀ : Session σ} {x : Execution} {f : Frame σ} {k : Nat} (h : Ran s s' run x f k)
    {os : List Order} (tidies : Frame.Tidies (s₀.frame run x) f es os)
    (settled : x.promise.isSettled = true) :
    Quiesces s s' run x.promise (es ++ List.replicate k Event.fired) := by
  have grown := h.grown_of_isSettled tidies.toGrows settled
  have uncalled : ∀ e ∈ es, e.isCall = false := fun e he =>
    Event.isCall_of_isTidying (tidies.tidying e he)
  refine ⟨by rw [grown.journal, List.append_assoc], ?_, ?_⟩
  · exact List.forall_mem_append.2 ⟨uncalled, isCall_fires k⟩
  · rw [promise?, grown.lookup, Option.map_some]

/-- What is not about an execution is quiet for it. -/
theorem Shifts.quiesces {k w c : Nat} (h : Shifts s s' run k w c) {x : Execution}
    (hx : s.runs[run]? = some x) (settled : x.promise.isSettled = true) :
    Quiesces s s' run x.promise (List.replicate k Event.fired) := by
  obtain ⟨p, hp, lookup⟩ := h.execution x hx
  refine ⟨h.journal, isCall_fires k, ?_⟩
  rw [promise?, lookup, Option.map_some, Promise.eq_of_orCancelled hp settled]

/-- Once its promise is settled, no move makes an execution call anything. -/
theorem Sound.quiesces (h : s.Sound) {x : Execution} (hx : s.runs[run]? = some x)
    (settled : x.promise.isSettled = true) (m : Move σ) :
    ∃ es, Quiesces s (s.move a m) run x.promise es := by
  cases move_effect a h m run with
  | other aside shifts => exact ⟨_, shifts.quiesces hx settled⟩
  | start new fresh ran => exact absurd hx (by simp [new])
  | @attempt l y k taken ran =>
    obtain rfl : y = x := Option.some.inj (ran.lookup.symm.trans hx)
    obtain ⟨es, os, tidies⟩ := a.attempt_tidies run l.time (f := s.frame run y) settled
    have quiet := ran.quiesces tidies settled
    exact ⟨_, quiet.journal, quiet.uncalled, quiet.promise⟩
  | @pollEnded l ending y k taken ran =>
    obtain rfl : y = x := Option.some.inj (ran.lookup.symm.trans hx)
    obtain ⟨es, os, tidies⟩ := a.pollEnded_tidies run l.time ending (f := s.frame run y) settled
    have quiet := ran.quiesces tidies settled
    -- the ending is entered before the callback begins, and it is no call
    have taken : Quiesces s ({ s with loop := l }.enter run (.ended ending)) run y.promise
        [.ended ending] :=
      ⟨journalOf_enter s l run _, by simp [Event.isCall], by simp [promise?, enter, hx]⟩
    exact ⟨_, taken.trans quiet⟩
  | @settled l y k taken ran =>
    obtain rfl : y = x := Option.some.inj (ran.lookup.symm.trans hx)
    obtain ⟨es, os, tidies⟩ := a.settled_tidies (s.frame run y)
    have quiet := ran.quiesces tidies settled
    exact ⟨_, quiet.journal, quiet.uncalled, quiet.promise⟩

/-- An execution whose promise is settled calls nothing, whatever happens. -/
theorem Reachable.quiesces (h : s.Reachable a) (promise : s.promise? run = some p)
    (settled : p.isSettled = true) (ms : List (Move σ)) :
    ∃ es, Quiesces s (s.moves a ms) run p es := by
  induction ms generalizing s with
  | nil => exact ⟨[], (List.append_nil _).symm, by simp, promise⟩
  | cons m rest ih =>
    obtain ⟨x, hx, rfl⟩ := Option.map_eq_some_iff.1 promise
    obtain ⟨es, first⟩ := h.sound.quiesces (a := a) hx settled m
    obtain ⟨es', others⟩ := ih (h.move m) first.promise
    exact ⟨es ++ es', first.trans others⟩

/-- A cancellation from outside stops an execution for good. If its promise is cancelled after a move
that is not about the execution, then from that move on the execution calls no hook, no matcher, and
neither the operation, the backoff nor the scheduler, and its promise stays cancelled. -/
theorem Reachable.quiet_of_cancelled (h : s.Reachable a) {m : Move σ} (aside : s.Aside run m)
    (cancelled : (s.move a m).promise? run = some .cancelled) (ms : List (Move σ)) :
    ∃ es, ((s.move a m).moves a ms).journalOf run = s.journalOf run ++ es ∧
      (∀ e ∈ es, e.isCall = false) ∧
      ((s.move a m).moves a ms).promise? run = some .cancelled := by
  -- the move itself adds no more than calls of the scheduler
  have cancelling : ∃ es, Quiesces s (s.move a m) run .cancelled es := by
    obtain ⟨k, shifts⟩ := aside.shifts h.sound
    exact ⟨_, shifts.journal, isCall_fires k, cancelled⟩
  obtain ⟨es, first⟩ := cancelling
  obtain ⟨es', others⟩ := (h.move m).quiesces cancelled rfl ms
  have quiet := first.trans others
  exact ⟨es ++ es', quiet.journal, quiet.uncalled, quiet.promise⟩

theorem countP_eq_zero_of_uncalled {es : List Event} (h : ∀ e ∈ es, e.isCall = false) :
    es.countP Event.isScheduled = 0 ∧ es.countP Event.isPolled = 0 := by
  constructor <;> rw [List.countP_eq_zero] <;> intro e he <;> have uncalled := h e he <;>
    cases e <;> simp_all [Event.isCall, Event.isScheduled, Event.isPolled]

/-- The turn in which a hook cancels the promise and returns. Behind the hook nothing is scheduled, and the
operation is called if the hook has opened an attempt. -/
theorem turn_of_hook {k : Callback} {l : EventLoop Callback} {x : Execution} {p : Place} {g : Frame σ}
    (taken : s.loop.take = (some k, l)) (hx : s.runs[run]? = some x)
    (reaches : a.Reaches run l.time k (s.frame run x) p g) (hook : p.isHook = true)
    (returned : (a.visit run l.time p g).1 = .ok ())
    (cancelled : (a.visit run l.time p g).2.execution.promise = .cancelled) :
    ∃ es, (s.move a .turn).journalOf run =
        s.journalOf run ++ k.entries ++ (a.visit run l.time p g).2.world.history ++ es ∧
      (s.move a .turn).promise? run = some .cancelled ∧
      es.countP Event.isScheduled = 0 ∧ es.countP Event.isPolled = p.isOpening.toNat ∧
      (p.isOpening = false → ∀ e ∈ es, e.isCall = false) := by
  obtain ⟨es₁, os₁, before⟩ := reaches.approaches
  obtain ⟨es₂, os₂, visits⟩ := a.visit_approaches run l.time p g
  have arrives := (before.trans visits).toGrows
  have visited : a.visit run l.time p g = (.ok (), (a.visit run l.time p g).2) := Prod.ext returned rfl
  -- what the callback does behind the hook
  obtain ⟨es₃, os₃, leaves, unscheduled, polled, uncalled⟩ :=
    a.remainder_of_settled run l.time hook visited (by rw [cancelled]; rfl)
  obtain ⟨n, ran, -⟩ := turn_ran taken hx reaches
  have begins : (s.begun l run k).frame run x = s.frame run x := frame_begun reaches.own
  rw [← begins] at arrives
  obtain ⟨q, hq, grown⟩ := ran.grown (arrives.trans leaves)
  have kept : (a.remainder run l.time p g).2.execution.promise = .cancelled := leaves.cancelled cancelled
  obtain rfl : q = .cancelled := by
    rw [kept] at hq
    exact Promise.eq_of_orCancelled hq rfl
  have fires_unscheduled := (countP_eq_zero_of_uncalled (isCall_fires n)).1
  have fires_unpolled := (countP_eq_zero_of_uncalled (isCall_fires n)).2
  refine ⟨es₃ ++ List.replicate n Event.fired, ?_, ?_, ?_, ?_, ?_⟩
  · have history : (a.visit run l.time p g).2.world.history = es₁ ++ es₂ := arrives.history
    rw [grown.journal, journalOf_begun, history]
    simp only [List.append_assoc]
  · rw [promise?, grown.lookup]
    rfl
  · rw [List.countP_append, unscheduled, fires_unscheduled]
  · rw [List.countP_append, polled, fires_unpolled, Nat.add_zero]
  · exact fun unopened => List.forall_mem_append.2 ⟨uncalled unopened, isCall_fires n⟩

/-- A cancellation by a hook. A hook that a callback of the loop runs, that returns normally and leaves
the promise cancelled is followed by no call of the scheduler, and the promise stays cancelled. Nothing
else is called either, unless it is the hook that opens an attempt: behind that one the operation is called
once more, and the outcome is judged if that call fails. -/
theorem Reachable.quiet_of_hook (h : s.Reachable a) {k : Callback} {l : EventLoop Callback}
    {x : Execution} {p : Place} {g : Frame σ} (taken : s.loop.take = (some k, l))
    (hx : s.runs[run]? = some x) (reaches : a.Reaches run l.time k (s.frame run x) p g)
    (hook : p.isHook = true) (returned : (a.visit run l.time p g).1 = .ok ())
    (cancelled : (a.visit run l.time p g).2.execution.promise = .cancelled) (ms : List (Move σ)) :
    ∃ es, ((s.move a .turn).moves a ms).journalOf run =
        s.journalOf run ++ k.entries ++ (a.visit run l.time p g).2.world.history ++ es ∧
      ((s.move a .turn).moves a ms).promise? run = some .cancelled ∧
      es.countP Event.isScheduled = 0 ∧ es.countP Event.isPolled = p.isOpening.toNat ∧
      ((∀ e ∈ es, e.isCall = false) ↔ p.isOpening = false) := by
  obtain ⟨es, journal, ends, unscheduled, polled, uncalled⟩ :=
    turn_of_hook taken hx reaches hook returned cancelled
  -- whatever happens after the turn, the promise is cancelled by then
  obtain ⟨later, quiet⟩ := (h.move .turn).quiesces ends rfl ms
  obtain ⟨later_unscheduled, later_unpolled⟩ := countP_eq_zero_of_uncalled quiet.uncalled
  refine ⟨es ++ later, ?_, quiet.promise, ?_, ?_, ?_, ?_⟩
  · rw [quiet.journal, journal, List.append_assoc]
  · rw [List.countP_append, unscheduled, later_unscheduled]
  · rw [List.countP_append, polled, later_unpolled, Nat.add_zero]
  · intro none
    have unpolled := (countP_eq_zero_of_uncalled none).2
    rw [List.countP_append, polled, later_unpolled] at unpolled
    cases opening : p.isOpening with
    | false => rfl
    | true => simp [opening] at unpolled
  · exact fun unopened => List.forall_mem_append.2 ⟨uncalled unopened, quiet.uncalled⟩

end Session

/-! ## Examples -/

namespace Session

/-- The brisk execution is cancelled from outside while the result of its first poll is queued. The
result is taken and the settling passed on, without a call. -/
theorem quiet_of_cancelled_brisk :
    (brisk {} 0).promise? 0 = some .pending ∧
    ∃ es, (((brisk {} 0).move (.brisk {}) (.outside 0 (Code.ask (.cancel 0)))).moves (.brisk {})
        [.turn, .turn, .turn]).journalOf 0 = (brisk {} 0).journalOf 0 ++ es ∧
      (∀ e ∈ es, e.isCall = false) ∧
      (((brisk {} 0).move (.brisk {}) (.outside 0 (Code.ask (.cancel 0)))).moves (.brisk {})
        [.turn, .turn, .turn]).promise? 0 = some .cancelled := by
  have aside : (brisk {} 0).Aside 0 (.outside 0 (Code.ask (.cancel 0))) := trivial
  have cancelled : ((brisk {} 0).move (.brisk {})
      (.outside 0 (Code.ask (.cancel 0)))).promise? 0 = some .cancelled := by decide +kernel
  exact ⟨by decide +kernel, (brisk_reachable {} 0).quiet_of_cancelled aside cancelled _⟩

end Session

/-- Brisk executions with a hook that does something when the second attempt is opened. -/
def Asynchronous.second (c : Code Unit Unit) : Asynchronous Unit :=
  .brisk { onAttempt := some fun info =>
    match info.attempt with
    | .int 2 => c
    | _ => pure () }

/-- Such a hook may cancel the promise. -/
def Code.recant : Code Unit Unit := Code.ask (.cancel 0)

namespace Session

/-- The execution with such a hook when its second attempt is queued. -/
def second (c : Code Unit Unit) : Session Unit :=
  (({ loop := { time := .finite false 0 }, caller := { state := () } } : Session Unit).move (.second c)
    .start).move (.second c) .turn

theorem second_reachable (c : Code Unit Unit) : (second c).Reachable (.second c) :=
  ((Reachable.init _ _).move .start).move .turn

/-- What the hook does there, given the execution. -/
def secondVisit (c : Code Unit Unit) (x : Execution) : Except Fault Unit × Frame Unit :=
  (Asynchronous.second c).visit 0 (second c).loop.take.2.time (.opening (x.attempt + 1))
    { (second c).frame 0 x with execution := Asynchronous.begin x }

/-- If the second attempt is next, the loop comes to this hook. -/
theorem second_reaches {c : Code Unit Unit} (pending : (second c).promise? 0 = some .pending)
    (next : (second c).loop.take.1.any (Callback.isAttempt 0) = true) :
    ∃ x, (second c).loop.take = (some (.attempt 0), (second c).loop.take.2) ∧
      (second c).runs[0]? = some x ∧
      (Asynchronous.second c).Reaches 0 (second c).loop.take.2.time (.attempt 0) ((second c).frame 0 x)
        (.opening (x.attempt + 1)) { (second c).frame 0 x with execution := Asynchronous.begin x } := by
  obtain ⟨x, hx, unsettled⟩ := Option.map_eq_some_iff.1 pending
  have waits : x.promise.isSettled = false := by
    rw [unsettled]
    rfl
  obtain ⟨taken, reaches⟩ := reaches_opening (.second c) next waits
  exact ⟨x, taken, hx, reaches⟩

/-- The hook of the second attempt returns and leaves the promise cancelled. -/
theorem recant_cancels : ∀ x ∈ (second .recant).runs[0]?, x.promise.isSettled = false ∧
    (secondVisit .recant x).1 = .ok () ∧
    (secondVisit .recant x).2.execution.promise = .cancelled := by
  decide +kernel

/-- When the hook has cancelled the promise, the same turn calls the operation, and after that nothing
is scheduled. -/
theorem quiet_of_hook_recant : ∃ before es,
    (((second .recant).move (.second .recant) .turn).moves (.second .recant)
      [.turn, .turn]).journalOf 0 = before ++ es ∧
    (((second .recant).move (.second .recant) .turn).moves (.second .recant)
      [.turn, .turn]).promise? 0 = some .cancelled ∧
    es.countP Event.isScheduled = 0 ∧ es.countP Event.isPolled = 1 := by
  obtain ⟨x, taken, hx, reaches⟩ :=
    second_reaches (c := .recant) (by decide +kernel) (by decide +kernel)
  obtain ⟨-, returned, cancelled⟩ := recant_cancels x hx
  obtain ⟨es, journal, promise, unscheduled, polled, -⟩ :=
    (second_reachable .recant).quiet_of_hook taken hx reaches rfl returned cancelled [.turn, .turn]
  exact ⟨_, es, journal, promise, unscheduled, polled⟩

/-- So a hook that cancels the promise and returns does not stop polling at once. -/
theorem hook_not_stopping : ¬ ∀ (k : Callback) (l : EventLoop Callback) (x : Execution) (p : Place)
    (g : Frame Unit), (second .recant).loop.take = (some k, l) → (second .recant).runs[0]? = some x →
    (Asynchronous.second .recant).Reaches 0 l.time k ((second .recant).frame 0 x) p g →
    p.isHook = true → g.execution.promise = .pending →
    ((Asynchronous.second .recant).visit 0 l.time p g).1 = .ok () →
    ((Asynchronous.second .recant).visit 0 l.time p g).2.execution.promise = .cancelled →
    ∃ es, ((second .recant).move (.second .recant) .turn).journalOf 0 =
        (second .recant).journalOf 0 ++ k.entries ++
          ((Asynchronous.second .recant).visit 0 l.time p g).2.world.history ++ es ∧
      ∀ e ∈ es, e.isPolled = false := by
  intro stops
  obtain ⟨x, taken, hx, reaches⟩ :=
    second_reaches (c := .recant) (by decide +kernel) (by decide +kernel)
  obtain ⟨pending, returned, cancelled⟩ := recant_cancels x hx
  obtain ⟨es, journal, unpolled⟩ := stops _ _ x _ _ taken hx reaches rfl
    (Promise.eq_pending pending) returned cancelled
  -- the operation has been called once before the hook, and twice after the turn
  have before : ∀ x ∈ (second .recant).runs[0]?, ((second .recant).journalOf 0 ++
      (secondVisit .recant x).2.world.history).countP Event.isPolled = 1 := by decide +kernel
  have after : (((second .recant).move (.second .recant) .turn).journalOf 0).countP
      Event.isPolled = 2 := by decide +kernel
  have none : es.countP Event.isPolled = 0 := by simpa [List.countP_eq_zero] using unpolled
  have once := before x hx
  simp only [secondVisit] at once
  simp only [journal, Callback.entries, List.append_nil, List.countP_append, none] at after once
  omega

end Session

end Polling
