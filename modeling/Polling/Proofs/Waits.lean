import Polling.Proofs.Delays
import Polling.Proofs.Exhaustion

/-!
# What a wait waits, delay by delay

The delays of a wait are those that its backoff gives after the first attempt, after the second one, and so
on, without a gap (`Backoff.Paces`). A round of a blocking run spends one delay at most, and one if another
round follows; hence the delay at a position is the one that was given after the attempt of the same number
(`Blocking.run_waits`). For executions, the course of the journal says the same of the delays that are handed
to the scheduler (`Session.Reachable.paces`), as long as it calls back no more often than it was asked to.

A wait that nobody hinders spends one delay less than it calls its operation, whatever it ends with: none
before the first call, and none behind the last one. For executions, this is a matter of the callback in which
the promise is settled, which hands nothing to the scheduler (`Asynchronous.Halts.unscheduled`).
-/

namespace Polling

/-! ## Delays in a row -/

/-- The delays that a wait spends, one after the other. -/
def delaysOf (es : List Event) : List Number := es.filterMap Event.delay?

/-- The delay with which the next attempt is handed to a scheduler. -/
def Event.scheduled? : Event → Option Number
  | .scheduled d => some d
  | _ => none

/-- The delays that an execution hands to its scheduler, one after the other. -/
def scheduledOf (es : List Event) : List Number := es.filterMap Event.scheduled?

@[simp] theorem delaysOf_append (es es' : List Event) : delaysOf (es ++ es') = delaysOf es ++ delaysOf es' :=
  List.filterMap_append ..

@[simp] theorem scheduledOf_append (es es' : List Event) :
    scheduledOf (es ++ es') = scheduledOf es ++ scheduledOf es' :=
  List.filterMap_append ..

theorem delaysOf_eq_nil {es : List Event} (h : ∀ e ∈ es, e.delay? = none) : delaysOf es = [] :=
  List.filterMap_eq_nil_iff.2 h

/-- Delays are beats. -/
theorem delaysOf_beatsOf (es : List Event) : delaysOf (beatsOf es) = delaysOf es := by
  rw [delaysOf, delaysOf, beatsOf, List.filterMap_filter]
  refine List.filterMap_congr fun e _ => ?_
  cases e <;> rfl

theorem scheduledOf_quiet {es : List Event} (h : Quiet es) : scheduledOf es = [] := by
  refine List.filterMap_eq_nil_iff.2 fun e he => ?_
  have quiet := h e he
  cases e <;> first | rfl | exact nomatch quiet

/-- Entries that hand nothing to the scheduler do not matter. -/
theorem scheduledOf_concat (es : List Event) {e : Event} (h : e.scheduled? = none) :
    scheduledOf (es ++ [e]) = scheduledOf es := by
  rw [scheduledOf_append, scheduledOf, scheduledOf, List.filterMap_cons_none h, List.filterMap_nil,
    List.append_nil]

theorem length_scheduledOf (es : List Event) : (scheduledOf es).length = es.countP Event.isScheduled := by
  rw [scheduledOf, List.length_filterMap_eq_countP]
  refine List.countP_congr fun e _ => ?_
  cases e <;> simp [Event.scheduled?, Event.isScheduled]

namespace Backoff

variable {b : Backoff σ}

/-- A backoff has given these delays one after the other, the first one after an attempt, and each other one
after the attempt behind. -/
def Paces (b : Backoff σ) : Nat → List Number → Prop
  | _, [] => True
  | n, d :: ds => b.GrantsAfter n d ∧ b.Paces (n + 1) ds

theorem paces_append {n : Nat} {ds ds' : List Number} :
    b.Paces n (ds ++ ds') ↔ b.Paces n ds ∧ b.Paces (n + ds.length) ds' := by
  induction ds generalizing n with
  | nil => simp [Paces]
  | cons d ds ih => simp [Paces, ih, and_assoc, Nat.add_assoc, Nat.add_comm 1]

/-- The delay at a position is given after the attempt of the same number. -/
theorem Paces.get {n : Nat} {ds : List Number} (h : b.Paces n ds) {i : Nat} {d : Number}
    (hi : ds[i]? = some d) : b.GrantsAfter (n + i) d := by
  induction ds generalizing n i with
  | nil => exact nomatch hi
  | cons d' ds ih =>
    cases i with
    | zero =>
      obtain rfl : d' = d := by simpa using hi
      exact h.1
    | succ i =>
      have later := ih h.2 (i := i) (by simpa using hi)
      rwa [Nat.add_right_comm] at later

end Backoff

/-! ## Blocking runs -/

namespace Blocking

variable (b : Blocking σ)

/-- Nothing that a run is told by raises a fault, nor does what it spends these delays with: the sleep, or the
wait for its signal. -/
structure Unhindered (ds : List Number) : Prop where
  hooks : (b.waiter.hooks.getD {}).RaisesOnly fun _ => False
  sleep : b.signal = none → ∀ d ∈ ds, (b.sleep d).Returns
  signal : ∀ signal, b.signal = some signal → ∀ d ∈ ds, (signal.wait d).Returns

variable {b} in
theorem Unhindered.mono {ds ds' : List Number} (h : b.Unhindered ds) (fewer : ∀ d ∈ ds', d ∈ ds) :
    b.Unhindered ds' :=
  ⟨h.hooks, fun none d mem => h.sleep none d (fewer d mem),
    fun signal there d mem => h.signal signal there d (fewer d mem)⟩

/-- A run has ended because its signal was set. -/
def Interrupted (r : Except Fault Conclusion) : Prop := ∃ f, r = .ok (.failure f) ∧ f.fault.kind = .interrupted

/-- Behind a pause that was cut short, no other round follows. -/
theorem close_of_stopped (started : Value) (i : Nat) {d : Number} {w : World σ}
    (stopped : (b.pause d w).1 = .ok true) : (b.close started i (.inr d) w).1 ≠ .ok none := by
  simp only [close, Act.bind_apply]
  rcases hp : b.pause d w with ⟨r, w'⟩
  obtain rfl : r = .ok true := (congrArg Prod.fst hp).symm.trans stopped
  simp only [if_true, Act.bind_apply]
  rcases b.giveUp started i ⟨.interrupted i, .int i, none⟩ w' with ⟨e | c, w''⟩ <;> simp

/-- Behind the judgement of an outcome, a delay is spent unless the signal was set before. -/
theorem close_waits (started : Value) (i : Nat) (d : Number) (w : World σ) : ∃ es,
    (b.close started i (.inr d) w).2.history = w.history ++ es ∧ es.countP Event.isPolled = 0 ∧
      (delaysOf es = [d] ∨ delaysOf es = [] ∧ (b.pause d w).1 = .ok true) := by
  obtain ⟨es, history, beats, -⟩ := b.pause_beats d w
  have unpolled : es.countP Event.isPolled = 0 := by
    rw [← countP_beatsOf_isPolled]
    rcases beats with spent | ⟨none, -⟩
    · have delay : (b.spends.1 d).isDelay = true := by simp [Event.isDelay, b.spends.2 d]
      rw [spent, List.countP_singleton, (Event.isPolled_of_isDelay delay).1]
      rfl
    · rw [none, List.countP_nil]
  have delays : delaysOf es = [d] ∨ delaysOf es = [] ∧ (b.pause d w).1 = .ok true := by
    rw [← delaysOf_beatsOf]
    rcases beats with spent | ⟨none, stopped⟩
    · exact .inl (by rw [spent, delaysOf, List.filterMap_cons_some (b.spends.2 d), List.filterMap_nil])
    · exact .inr ⟨by rw [none]; rfl, stopped⟩
  simp only [close, Act.bind_apply]
  rcases hp : b.pause d w with ⟨e | stopped, w'⟩ <;> rw [hp] at history delays
  · exact ⟨es, history, unpolled, delays⟩
  · cases stopped with
    | false => exact ⟨es, history, unpolled, delays⟩
    | true =>
      -- giving up calls a hook, and that is all
      obtain ⟨later, history', silent⟩ := b.giveUp_enters (P := fun e => e.delay? = none ∧ e.isPolled = false)
        (fun _ _ => ⟨rfl, rfl⟩) (fun _ => ⟨rfl, rfl⟩) started i ⟨.interrupted i, .int i, none⟩ w'
      have unpolled' : later.countP Event.isPolled = 0 :=
        List.countP_eq_zero.2 fun e he => by simp [(silent e he).2]
      have undelayed : delaysOf later = [] := delaysOf_eq_nil fun e he => (silent e he).1
      simp only [if_true, Act.bind_apply]
      rcases hg : b.giveUp started i ⟨.interrupted i, .int i, none⟩ w' with ⟨e | c, w''⟩ <;>
        rw [hg] at history' <;> dsimp only at history history'
      all_goals
        refine ⟨es ++ later, by simp [history', history], by simp [unpolled, unpolled'], ?_⟩
        rw [delaysOf_append, undelayed, List.append_nil]
        exact delays.imp_right fun none => ⟨none.1, trivial⟩

variable {b} in
/-- If nothing hinders the run, another round follows unless the signal has been set. -/
theorem Unhindered.close {ds : List Number} (h : b.Unhindered ds) (t : Binary64) (i : Nat) {d : Number}
    {w : World σ} (spent : d ∈ ds ∨ (b.pause d w).1 = .ok true) : (b.close (.real t) i (.inr d) w).1 = .ok none ∨
      ∃ f, (b.close (.real t) i (.inr d) w).1 = .ok (some (.failure f)) ∧ f.fault.kind = .interrupted := by
  have pauses : d ∈ ds → (b.pause d).RaisesOnly fun _ => False := by
    intro mem
    unfold pause
    split
    · next none =>
      exact Act.raisesOnly_bind (Act.raisesOnly_call _ (h.sleep none d mem)) fun _ => Act.raisesOnly_pure _
    · next signal there =>
      refine Act.raisesOnly_bind (Act.raisesOnly_read _) fun set => ?_
      split
      · exact Act.raisesOnly_pure _
      · exact Act.raisesOnly_call _ (h.signal signal there d mem)
  have tells : (b.notifier.failure (.int i) (some (Failure.fault ⟨.interrupted i, .int i, none⟩))
      (.real t)).RaisesOnly fun _ => False :=
    Notifier.failure_raisesOnly h.hooks (Notifier.elapsed_raisesOnly_of_real (n := b.notifier) rfl t) _ _
  simp only [Blocking.close, Act.bind_apply]
  -- a pause that stops has been cut short by the signal
  rcases hp : b.pause d w with ⟨e | _ | _, w'⟩
  · rcases spent with mem | stopped
    · exact (pauses mem w e (congrArg Prod.fst hp)).elim
    · rw [hp] at stopped
      cases stopped
  · exact .inl rfl
  · right
    simp only [if_true, Act.bind_apply, giveUp, Act.note, Act.record_apply]
    rcases hf : b.notifier.failure (.int i) (some (Failure.fault ⟨.interrupted i, .int i, none⟩)) (.real t)
      { w' with history := w'.history ++ [Event.note (.failed i (.interrupted i))] } with ⟨e | ⟨⟩, w''⟩
    · exact (tells _ e (congrArg Prod.fst hf)).elim
    · exact ⟨_, rfl, rfl⟩

/-- A round spends one delay, which the backoff gives after its attempt, if another round follows, and else one at
most. If nothing hinders it, it calls the operation, and it spends nothing when it is the last one, unless the
signal ends the run. -/
theorem round_waits (t : Binary64) (i : Nat) (w : World σ) : ∃ es,
    (b.round (.real t) i w).2.history = w.history ++ es ∧
      b.waiter.strategy.backoff.Paces i (delaysOf es) ∧
      ((b.round (.real t) i w).1 = .ok none → (delaysOf es).length = 1) ∧
      (b.Unhindered (delaysOf es) → es.countP Event.isPolled = 1 ∧ ((b.round (.real t) i w).1 ≠ .ok none →
        (∀ f, (b.round (.real t) i w).1 = .ok (some (.failure f)) → f.fault.kind ≠ .interrupted) →
          delaysOf es = [])) := by
  obtain ⟨es, w', history, undelayed, polls, ends⟩ := b.round_parts (.real t) i w
  have none := delaysOf_eq_nil undelayed
  rcases ends with ⟨r, ends, last⟩ | ⟨d, given, closes⟩
  · rw [ends]
    exact ⟨es, history, by rw [none]; trivial, fun goesOn => absurd goesOn last,
      fun unhindered => ⟨polls unhindered.hooks, fun _ _ => none⟩⟩
  · obtain ⟨es', history', unpolled, delays⟩ := b.close_waits (.real t) i d w'
    have closing : delaysOf (es ++ es') = delaysOf es' := by rw [delaysOf_append, none, List.nil_append]
    rw [closes]
    refine ⟨es ++ es', by rw [history', history, List.append_assoc], ?_⟩
    rw [closing]
    refine ⟨?_, ?_, fun unhindered => ⟨?_, ?_⟩⟩
    · -- the delay has been asked for, but the signal may be set before it is spent
      rcases delays with spent | ⟨none, -⟩
      · rw [spent]
        exact ⟨given, trivial⟩
      · rw [none]
        trivial
    · intro goesOn
      rw [delays.resolve_right fun none => b.close_of_stopped (.real t) i none.2 goesOn]
      rfl
    · rw [List.countP_append, polls unhindered.hooks, unpolled]
    · intro ended uninterrupted
      have spent : d ∈ delaysOf es' ∨ (b.pause d w').1 = .ok true :=
        delays.imp (fun spent => by simp [spent]) And.right
      rcases unhindered.close t i spent with goesOn | ⟨f, ends, kind⟩
      · exact absurd goesOn ended
      · exact absurd kind (uninterrupted f ends)

/-- Rounds from an attempt on spend what the backoff gives after it, after the next one, and so on. If nothing
hinders them and the signal does not end them, they spend one delay less than they call the operation. By
induction on the attempts that are left. -/
theorem rounds_waits (t : Binary64) {left i : Nat} (first : 1 ≤ i)
    (attempts : left + i = b.waiter.strategy.limit + 1) (more : 1 ≤ left) (w : World σ) : ∃ es,
    (b.rounds (.real t) left i w).2.history = w.history ++ es ∧
      b.waiter.strategy.backoff.Paces i (delaysOf es) ∧
      (b.Unhindered (delaysOf es) → ¬ Interrupted (b.rounds (.real t) left i w).1 →
        (delaysOf es).length + 1 = es.countP Event.isPolled) := by
  induction left generalizing i w with
  | zero => omega
  | succ left ih =>
    obtain ⟨es, history, paced, spends, counts⟩ := b.round_waits t i w
    rw [rounds, Act.bind_apply]
    rcases hr : b.round (.real t) i w with ⟨e | _ | c, w'⟩ <;> rw [hr] at history spends counts <;>
      dsimp only at history spends counts
    · -- a fault, which is not how the signal ends a run
      refine ⟨es, history, paced, fun unhindered _ => ?_⟩
      obtain ⟨polled, unspent⟩ := counts unhindered
      rw [unspent (by simp) (by simp), polled]
      rfl
    · -- another round follows
      have limit := b.lt_limit_of_round (.real t) first hr
      obtain ⟨later, history', paced', counts'⟩ := ih (i := i + 1) (by omega) (by omega) (by omega) w'
      have spent := spends rfl
      refine ⟨es ++ later, by rw [← List.append_assoc, ← history]; exact history', ?_, ?_⟩
      · rw [delaysOf_append, Backoff.paces_append, spent]
        exact ⟨paced, paced'⟩
      · intro unhindered uninterrupted
        rw [delaysOf_append] at unhindered
        have here := unhindered.mono fun d => List.mem_append_left (delaysOf later)
        have behind := unhindered.mono fun d => List.mem_append_right (delaysOf es)
        rw [delaysOf_append, List.length_append, spent, List.countP_append, (counts here).1,
          ← counts' behind uninterrupted]
        omega
    · -- a conclusion, which is that of the whole run
      refine ⟨es, history, paced, fun unhindered uninterrupted => ?_⟩
      obtain ⟨polled, unspent⟩ := counts unhindered
      have otherwise : ∀ f, (.ok (some c) : Except Fault (Option Conclusion)) = .ok (some (.failure f)) →
          f.fault.kind ≠ .interrupted := by
        intro f ends interrupted
        obtain rfl := Option.some.inj (Except.ok.inj ends)
        exact uninterrupted ⟨f, rfl, interrupted⟩
      rw [unspent (by simp) otherwise, polled]
      rfl

/-- The delays of a run are those that the backoff gives after the first attempt, after the second one, and so
on. If nothing hinders the run and the signal does not end it, there is one delay less than there are calls of
the operation. -/
theorem run_waits (w : World σ) : ∃ es, (b.run w).2.history = w.history ++ es ∧
    b.waiter.strategy.backoff.Paces 1 (delaysOf es) ∧
    (b.Unhindered (delaysOf es) → ¬ Interrupted (b.run w).1 → (delaysOf es).length + 1 = es.countP Event.isPolled) :=
  b.rounds_waits (b.clock w.caller.state) (Nat.le_refl 1) rfl b.waiter.strategy.limit_pos w

end Blocking

/-! ## Executions -/

/-- At a phase, so many delays have been handed to the scheduler. -/
def Phase.Waited : Phase → Nat → Prop
  | due begun, n => n = begun
  | polling attempt, n => n + 1 = attempt
  | judging attempt _, n => n + 1 = attempt
  | waiting begun, n => n = begun
  | closed, _ => True

/-- Along a course, the scheduler is handed what the backoff gives after the first attempt, after the second
one, and so on. -/
theorem Course.paces {a : Asynchronous σ} {run : RunId} {p : Phase} {es : List Event} (h : Course a run p es) :
    a.waiter.strategy.backoff.Paces 1 (scheduledOf es) ∧ p.Waited (scheduledOf es).length := by
  induction h with
  | start => exact ⟨trivial, rfl⟩
  | note _ quiet ih => rwa [scheduledOf_append, scheduledOf_quiet quiet, List.append_nil]
  | call _ ih =>
    rw [scheduledOf_concat _ rfl]
    exact ih.imp_right (congrArg (· + 1))
  | fail _ _ ih => exact ih
  | answer _ _ ih => rwa [scheduledOf_concat _ rfl]
  | @delay n o es d E q _ evaluates quiet ih =>
    -- the evaluation has asked for the delay with the number of the poll that has ended
    obtain ⟨paces, waited⟩ := ih
    have number : (scheduledOf es).length + 1 = n := waited
    have behind : scheduledOf (E ++ q ++ [Event.scheduled d]) = [d] := by
      rw [scheduledOf_append, scheduledOf_quiet (quiet_append evaluates.quiet quiet)]
      rfl
    obtain ⟨w, w', evaluated, -⟩ := evaluates
    have given : a.waiter.strategy.backoff.GrantsAfter (1 + (scheduledOf es).length) d := by
      rw [Nat.add_comm, number]
      exact (evaluate_eq_retry (congrArg Prod.fst evaluated)).given
    rw [scheduledOf_append, behind]
    refine ⟨Backoff.paces_append.2 ⟨paces, given, trivial⟩, ?_⟩
    rw [List.length_append]
    exact number
  | fire _ ih => rwa [scheduledOf_concat _ rfl]
  | late _ ih =>
    rw [scheduledOf_concat _ rfl]
    exact ⟨ih.1, trivial⟩
  | stop _ hp ih => exact ⟨ih.1, trivial⟩

namespace Asynchronous

variable {a : Asynchronous σ} {run : RunId} {now : Binary64} {k : Callback} {f g : Frame σ}

/-- Nothing that an execution is told by raises a fault, nor does the scheduler to which it hands the next
attempt with one of these delays. -/
structure Unhindered (a : Asynchronous σ) (run : RunId) (ds : List Number) : Prop where
  hooks : (a.waiter.hooks.getD {}).RaisesOnly fun _ => False
  scheduler : ∀ schedule cancel, a.scheduler = .custom schedule cancel →
    ∀ d ∈ ds, (schedule run d).Returns

theorem Unhindered.mono {ds ds' : List Number} (h : a.Unhindered run ds) (fewer : ∀ d ∈ ds', d ∈ ds) :
    a.Unhindered run ds' :=
  ⟨h.hooks, fun schedule cancel same d mem => h.scheduler schedule cancel same d (fewer d mem)⟩

/-- If nothing hinders the execution, the next attempt can be handed over. -/
theorem Unhindered.handOver {ds : List Number} (h : a.Unhindered run ds) {n : Nat} {d : Number} (mem : d ∈ ds)
    (retries : Retries a.waiter.strategy n d) (w : World σ) : ∃ r, (a.handOver run d w).1 = .ok r := by
  simp only [Asynchronous.handOver, request, Act.bind_apply, Act.record_apply]
  cases hs : a.scheduler with
  | timers given =>
    obtain ⟨x, real⟩ := Option.isSome_iff_exists.1 retries.real
    refine ⟨(.timer, [.timer x]), ?_⟩
    show ((Scheduler.span true (.number d) >>= _) _).1 = _
    rw [Act.bind_apply, Scheduler.span_apply retries.nonneg real]
    rfl
  | custom schedule cancel =>
    obtain ⟨id, returned⟩ := (h.scheduler schedule cancel hs d mem).ok w.caller
    exact ⟨(.custom id, []), by simp [Act.bind_apply, returned]⟩

/-- If nothing hinders the execution, handing over the next attempt settles the promise in no other way than by
cancelling it. -/
theorem Unhindered.schedule {d : Number}
    (h : a.Unhindered run (scheduledOf (a.schedule run d g).2.world.history)) {n : Nat}
    (retries : Retries a.waiter.strategy n d) (pending : g.execution.promise = .pending) :
    (a.schedule run d g).2.execution.promise = .pending ∨
      (a.schedule run d g).2.execution.promise = .cancelled := by
  have unsettled : g.execution.promise.isSettled = false := congrArg Promise.isSettled pending
  -- the delay is entered before it is handed over
  obtain ⟨q, history, -⟩ := a.schedule_enters run (P := fun _ => True) (fun _ _ => trivial) (fun _ => trivial) d
    unsettled
  have entered : d ∈ scheduledOf (a.schedule run d g).2.world.history := by
    rw [history]
    exact List.mem_filterMap.2 ⟨.scheduled d, by simp, rfl⟩
  obtain ⟨⟨handle, os⟩, handed⟩ := h.handOver entered retries g.world
  have performed : Step.perform (a.handOver run d) g =
      (.ok (handle, os), (Step.perform (a.handOver run d) g).2) := Prod.ext handed rfl
  rw [a.schedule_apply run d unsettled, performed]
  exact (Step.perform_promise (a.handOver run d) g).of_pending pending

/-- Up to a place and in its visit, nothing is handed to the scheduler, and the promise is settled in no other
way than by cancelling it. -/
theorem Reaches.unscheduled {p : Place} (reaches : a.Reaches run now k f p g)
    (pending : f.execution.promise.isSettled = false) :
    (a.visit run now p g).2.world.history.countP Event.isScheduled =
        f.world.history.countP Event.isScheduled ∧
      ((a.visit run now p g).2.execution.promise = .pending ∨
        (a.visit run now p g).2.execution.promise = .cancelled) := by
  obtain ⟨es, os, arrives⟩ := reaches.approaches
  obtain ⟨es', os', visits⟩ := a.visit_approaches run now p g
  have along := arrives.trans visits
  refine ⟨?_, along.promise.of_pending (Promise.eq_pending pending)⟩
  rw [along.history, List.countP_append, along.unscheduled, Nat.add_zero]

/-- A callback that settles the promise, but does not cancel it, hands nothing to the scheduler. -/
theorem Halts.unscheduled {r : Except Fault Unit × Frame σ} (h : a.Halts run now k f r)
    (unhindered : a.Unhindered run (scheduledOf r.2.world.history)) (pending : f.execution.promise.isSettled = false)
    (settled : r.2.execution.promise.isSettled = true) (uncancelled : r.2.execution.promise ≠ .cancelled) :
    r.2.world.history.countP Event.isScheduled = f.world.history.countP Event.isScheduled := by
  cases h with
  | aside grows tidying unwatched earlier =>
    rw [grows.history, List.countP_append, countP_isScheduled_quiet (quiet_of_isTidying tidying),
      Nat.add_zero]
  | raises reaches raised => rw [refuse_history, (reaches.unscheduled pending).1]
  | @polls n g id g' reaches called =>
    have left : (a.visit run now (.calling n) g).2 = g' := congrArg Prod.snd called
    rw [← (reaches.unscheduled pending).1, left]
    rfl
  | concludes reaches next told =>
    rw [Frame.settle_world, ← (reaches.unscheduled pending).1, told]
  | @schedules n o d g g' reaches told =>
    -- this would leave the promise as it is, or cancelled
    obtain ⟨-, promise⟩ := reaches.unscheduled pending
    rw [told] at promise
    have retries : Retries a.waiter.strategy n d := by
      cases reaches with
      | telling reaches evaluated => exact evaluate_eq_retry (congrArg Prod.fst evaluated)
    have left : (a.schedule run d g').2.execution.promise = .pending ∨
        (a.schedule run d g').2.execution.promise = .cancelled :=
      promise.elim (unhindered.schedule retries) fun cancelled => .inr (a.follow_cancelled run (.inr d) cancelled)
    rcases left with still | cancelled
    · rw [still] at settled
      exact absurd settled (by decide)
    · exact absurd cancelled uncancelled

/-- An attempt that nothing hinders calls the operation once, while the promise is pending. -/
theorem Unhindered.polls {ds : List Number} (h : a.Unhindered run ds) (pending : f.execution.promise.isSettled = false) : ∃ es,
    (a.body run now (.attempt run) f).2.world.history = f.world.history ++ es ∧
      es.countP Event.isPolled = 1 := by
  have opening : a.Reaches run now (.attempt run) f (.opening (f.execution.attempt + 1))
      { f with execution := begin f.execution } := .opening pending
  obtain ⟨es, opened, unpolled⟩ := Notifier.opening_enters (P := (·.isPolled = false)) (fun _ _ => rfl)
    (fun _ => rfl) (a.notifier now) (f.execution.attempt + 1) a.waiter.strategy.limit f.world
  rcases ho : Step.perform ((a.notifier now).opening (f.execution.attempt + 1) a.waiter.strategy.limit)
    { f with execution := begin f.execution } with ⟨e | ⟨⟩, g⟩
  · exact (Notifier.opening_raisesOnly (n := a.notifier now) h.hooks _ _ f.world e (congrArg Prod.fst ho)).elim
  · have calling := Reaches.calling opening ho
    obtain ⟨tail, plays⟩ : ∃ tail, a.Plays run now (.attempt run) f (fun _ _ => True) (f.execution.attempt + 1)
        [] { g with execution := countCall g.execution } _ true tail :=
      calling.plays_calling (by omega) fun _ _ _ => trivial
    obtain ⟨later, history, beats⟩ := plays.entries
    have front : g.world.history = f.world.history ++ es := (Step.history_of_perform ho).trans opened
    refine ⟨es ++ later, ?_, ?_⟩
    · rw [calling.body_eq, history, ← List.append_assoc]
      exact congrArg (· ++ later) front
    · -- the hook in front does not call it, and judging does not call it again
      have silent : es.countP Event.isPolled = 0 := List.countP_eq_zero.2 fun e he => by simp [unpolled e he]
      rw [List.countP_append, silent, ← countP_beatsOf_isPolled, beats, List.nil_append]
      cases plays.closes with
      | polled judged => rw [List.countP_cons_of_pos rfl, judged.counts.1]

end Asynchronous

namespace Session

variable {a : Asynchronous σ} {s : Session σ} {run : RunId} {m : Move σ} {k : Callback} {now : Binary64}
  {x : Execution}

/-- The journal of an execution keeps to a course, if its scheduler calls it back no more often than it was
asked to. -/
theorem Reachable.course (h : s.Reachable a) (once : FiresOnce (s.journalOf run)) :
    ∃ p, Course a run p (s.journalOf run) := by
  cases hx : s.runs[run]? with
  | none =>
    rw [(h.sound.unknown run hx).1]
    exact ⟨.due 0, .start⟩
  | some x =>
    obtain ⟨p, course, -⟩ := h.inSequence run x hx once
    exact ⟨p, course⟩

/-- The delays that an execution hands to its scheduler are those that the backoff gives after the first
attempt, after the second one, and so on. -/
theorem Reachable.paces (h : s.Reachable a) (once : FiresOnce (s.journalOf run)) :
    a.waiter.strategy.backoff.Paces 1 (scheduledOf (s.journalOf run)) := by
  obtain ⟨p, course⟩ := h.course once
  exact course.paces.1

/-- When a callback begins, every call of the operation has a delay behind it but the one whose poll has just
ended. -/
theorem Begins.waited (begins : s.Begins run m k now x) (h : s.Reachable a)
    (once : FiresOnce (s.journalOf run)) :
    (s.journalOf run).countP Event.isPolled =
      (s.journalOf run).countP Event.isScheduled + k.entries.length := by
  rw [← countP_beatsOf_isPolled, ← countP_beatsOf_isScheduled]
  rcases begins.own with rfl | ⟨ending, rfl⟩
  · have cycles := begins.cycles h (h.inPace run) once rfl
    rw [cycles.counts.1, cycles.scheduled]
    rfl
  · obtain ⟨n, rounds, -, cycles, split⟩ := begins.polled h (h.inPace run) once rfl
    simp only [split, List.countP_append, cycles.counts.1, cycles.scheduled, Protocol.opening,
      Protocol.tell_isPolled, Protocol.tell_isScheduled]
    rfl

/-- While the promise is pending, a callback that nothing hinders calls the operation unless it takes the end of
a poll. -/
theorem Begins.polls (begins : s.Begins run m k now x) {ds : List Number} (unhindered : a.Unhindered run ds)
    (pending : x.promise.isSettled = false) :
    (a.body run now k (s.frame run x)).2.world.history.countP Event.isPolled + k.entries.length = 1 := by
  rcases begins.own with rfl | ⟨ending, rfl⟩
  · -- the frame of a callback starts with an empty history
    obtain ⟨es, history, polls⟩ : ∃ es, (a.body run now (.attempt run) (s.frame run x)).2.world.history = es ∧
        es.countP Event.isPolled = 1 := unhindered.polls pending
    rw [history, polls]
    rfl
  · obtain ⟨es, os, takes⟩ := a.pollEnded_takes run now ending (s.frame run x)
    have history : (a.body run now (.pollEnded run ending) (s.frame run x)).2.world.history = es :=
      takes.grows.history
    rw [history, takes.countP_isPolled]
    rfl

/-- If nothing hinders an execution whose promise is settled, but not cancelled, it has handed one delay less to
its scheduler than it has called its operation. By induction on the moves. -/
theorem Reachable.waited (h : s.Reachable a)
    (unhindered : a.Unhindered run (scheduledOf (s.journalOf run))) (once : FiresOnce (s.journalOf run)) {p : Promise}
    (promise : s.promise? run = some p) (settled : p.isSettled = true) (uncancelled : p ≠ .cancelled) :
    (scheduledOf (s.journalOf run)).length + 1 = (s.journalOf run).countP Event.isPolled := by
  rw [length_scheduledOf]
  induction h with
  | init time caller => exact absurd promise (by simp [promise?])
  | @move s m h ih =>
    obtain ⟨added, adds, -⟩ := journalOf_move (a := a) h.sound m run
    have before : FiresOnce (s.journalOf run) := once.of_prefix ⟨added, adds.symm⟩
    rcases h.settles promise settled uncancelled with ⟨earlier, es, quiet⟩ | ⟨k, now, x, begins, pending, rfl⟩
    · -- a promise that has been settled before is called no more
      obtain ⟨unscheduled, unpolled⟩ := countP_eq_zero_of_uncalled quiet.uncalled
      rw [quiet.journal, scheduledOf_append] at unhindered
      rw [quiet.journal, List.countP_append, List.countP_append, unscheduled, unpolled]
      exact ih (unhindered.mono fun d => List.mem_append_left _) before earlier
    · -- the callback that settles it calls the operation or takes the end of the last poll, and schedules nothing
      have waited := begins.waited h before
      have polls := begins.polls unhindered pending
      obtain ⟨n, journal⟩ := begins.entered a
      have handed :
          a.Unhindered run (scheduledOf (a.body run now k (s.frame run x)).2.world.history) := by
        refine unhindered.mono fun d mem => ?_
        rw [journal]
        simp [mem]
      have unscheduled := (a.body_halts begins.own (s.frame run x)).unscheduled handed pending settled
        uncancelled
      have entries : k.entries.countP Event.isScheduled = 0 ∧ k.entries.countP Event.isPolled = 0 := by
        cases k <;> exact ⟨rfl, rfl⟩
      rw [journal]
      simp only [List.countP_append, entries.1, entries.2, unscheduled, countP_isScheduled_fires,
        countP_isPolled_fires]
      have blank : (s.frame run x).world.history = [] := rfl
      rw [blank, List.countP_nil]
      omega

end Session

end Polling
