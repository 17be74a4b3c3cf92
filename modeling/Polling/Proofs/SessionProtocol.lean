import Mathlib.Data.List.Induction
import Polling.Proofs.Calls
import Polling.Proofs.RunProtocol

/-!
# Asynchronous executions keep to the protocol

As long as the scheduler of an execution calls back no more often than it was asked to, its journal keeps
to `Asynchronous.protocol`. The invariant behind this is `Session.Paced`: while an attempt is queued or
with the scheduler, the journal is a number of whole rounds; while a poll is in flight, it ends with the
call of the operation; and a promise that has come to a conclusion reports the latest attempt.

What is known of the outcomes lies on the path by which a session has come about: `Session.Meets` says that
something holds of a move on it, and `Session.Leaves` that a move comes to judging an outcome.
-/

namespace Polling

/-- Without a signal, a delay is spent at the end of the beats behind a call of the operation. -/
theorem Protocol.Judged.delay {p : Protocol σ} {i : Nat} {es : List Event} (h : p.Judged i es)
    (uncut : ∀ d, ¬ p.cuts d) (spent : 0 < es.countP Event.isDelay) :
    ∃ o d, p.leaves i o ∧ i < p.limit ∧ es = p.retry i o d ++ [p.spends d] := by
  cases h with
  | silent => exact absurd spent (by simp)
  | succeeded t left => exact absurd spent (by simp [success])
  | failed t attempts => exact absurd spent (by simp [failure])
  | retried d left more => exact absurd spent (by simp [retry])
  | delayed d left more => exact ⟨_, d, left, more, rfl⟩
  | interrupted spent t left more cuts begun => exact absurd cuts (uncut _)

/-- What is handed to the scheduler is a delay. -/
theorem countP_isScheduled_le (es : List Event) :
    es.countP Event.isScheduled ≤ (beatsOf es).countP Event.isDelay := by
  rw [countP_beatsOf_isDelay]
  refine List.countP_mono_left fun e _ => ?_
  cases e <;> simp [Event.isScheduled, Event.isDelay, Event.delay?]

theorem beatsOf_fires (n : Nat) : beatsOf (List.replicate n Event.fired) = [] := by
  refine beatsOf_eq_nil fun e he => ?_
  rw [List.eq_of_mem_replicate he]
  rfl

theorem beatsOf_tidying {es : List Event} (h : ∀ e ∈ es, e.isTidying = true) : beatsOf es = [] := by
  refine beatsOf_eq_nil fun e he => ?_
  have tidying := h e he
  cases e <;> first | rfl | exact nomatch tidying

theorem beatsOf_entries (k : Callback) : beatsOf k.entries = [] := by
  cases k <;> rfl

/-! ## What settles a promise with a conclusion -/

namespace Step

/-- Code of the caller's can cancel the promise, and nothing else. -/
theorem perform_promise (a : Act σ α) (f : Frame σ) :
    f.execution.promise.OrCancelled (perform a f).2.execution.promise :=
  (Frame.foldl_absorbOne_serves _ _).promise

/-- Code of the caller's concludes nothing. -/
theorem perform_unconcluded {a : Act σ α} {f : Frame σ} {c : Conclusion}
    (h : (perform a f).2.execution.promise = .concluded c) : f.execution.promise = .concluded c := by
  rcases perform_promise a f with same | ⟨-, cancelled⟩
  · exact same.symm.trans h
  · exact nomatch cancelled.symm.trans h

/-- Refusing a fault concludes nothing. -/
theorem refuse_unconcluded {e : Fault} {f : Frame σ} {c : Conclusion}
    (h : (refuse e f).2.execution.promise = .concluded c) : f.execution.promise = .concluded c := by
  unfold refuse at h
  split at h
  · unfold reject at h
    split at h
    · exact h
    · next unsettled =>
      split at h
      · next p hp =>
        have settles : (f.settle p).execution.promise = p := by
          rw [Frame.settle_of_pending (by simpa using unsettled)]
        obtain rfl : p = .concluded c := settles.symm.trans h
        unfold Promise.ofFault at hp
        split at hp
        · exact nomatch hp
        · exact nomatch Except.ok.inj hp
      · exact h
  · exact h

end Step

namespace Asynchronous

variable (a : Asynchronous σ)

/-- The protocol of an execution: nothing cuts a delay short. -/
def protocol (leaves : Nat → Outcome → Prop) : Protocol σ :=
  a.waiter.protocol leaves ⟨.scheduled, fun _ => rfl⟩ fun _ => False

variable {a} {run : RunId} {now : Binary64} {k : Callback} {f g : Frame σ}
  {leaves : Nat → Outcome → Prop}

/-- Scheduling concludes nothing. -/
theorem schedule_unconcluded {d : Number} {c : Conclusion}
    (h : (a.schedule run d f).2.execution.promise = .concluded c) :
    f.execution.promise = .concluded c := by
  cases settled : f.execution.promise.isSettled with
  | true =>
    rw [a.schedule_of_isSettled run d settled] at h
    exact Step.perform_unconcluded h
  | false =>
    rw [a.schedule_apply run d settled] at h
    rcases hp : Step.perform (a.handOver run d) f with ⟨e | ⟨handle, os⟩, f'⟩ <;> rw [hp] at h
    · exact Step.perform_unconcluded (a := a.handOver run d)
        ((congrArg (·.2.execution.promise) hp).trans (Step.refuse_unconcluded h))
    · exact Step.perform_unconcluded (a := a.handOver run d)
        ((congrArg (·.2.execution.promise) hp).trans h)

/-- A callback tells of what came of an attempt, nothing is raised, and the wait has come to a conclusion
by it. -/
def Ends (a : Asynchronous σ) (run : RunId) (now : Binary64) (k : Callback) (f : Frame σ) (i : Nat)
    (c : Conclusion) : Prop :=
  ∃ o t g, a.Reaches run now k f (.telling i o t) g ∧ t.next = .inl c ∧
    (a.visit run now (.telling i o t) g).1 = .ok ()

/-- A conclusion reports the attempt. -/
theorem Ends.attempts {i : Nat} {c : Conclusion} (h : a.Ends run now k f i c) (first : 1 ≤ i) :
    c.attempts = .int i := by
  obtain ⟨o, t, g, reaches, next, -⟩ := h
  cases reaches with
  | telling reaches evaluated =>
    have suits : t.Suits a.waiter.strategy.limit i o := evaluate_suits first (congrArg Prod.fst evaluated)
    exact suits.attempts next

/-- In a callback, the beats from one frame to another are some that may lie behind the operation's call for
an attempt, and a conclusion is one that the callback has told of. -/
structure Keeps (a : Asynchronous σ) (run : RunId) (now : Binary64) (k : Callback) (f₀ : Frame σ)
    (leaves : Nat → Outcome → Prop) (i : Nat) (f f' : Frame σ) (es : List Event) : Prop where
  history : f'.world.history = f.world.history ++ es
  judged : (a.protocol leaves).Judged i (beatsOf es)
  ends : ∀ c, f'.execution.promise = .concluded c → a.Ends run now k f₀ i c

/-- At a place, the promise has not come to a conclusion. -/
theorem Reaches.unconcluded {p : Place} (h : a.Reaches run now k f p g) (c : Conclusion) :
    g.execution.promise ≠ .concluded c := by
  intro concluded
  obtain ⟨es, os, arrives⟩ := h.approaches
  rcases arrives.promise.of_pending (Promise.eq_pending h.pending) with pending | cancelled
  · exact nomatch pending.symm.trans concluded
  · exact nomatch cancelled.symm.trans concluded

/-- Acting on a transition that has been told of keeps to the protocol. -/
theorem Reaches.keeps_follow {i : Nat} {o : Outcome} {t : Transition} {g' : Frame σ}
    (h : a.Reaches run now k f (.telling i o t) g) (left : leaves i o)
    (suits : t.Suits a.waiter.strategy.limit i o)
    (tells : Step.perform ((a.notifier now).tell o i g.execution.started t) g = (.ok (), g'))
    {told : List Event} (history : g'.world.history = g.world.history ++ told)
    (judged : (a.protocol leaves).Judged i (beatsOf told))
    (retried : ∀ d, t = .retry d → beatsOf told = (a.protocol leaves).retry i o d)
    (still : ∀ c, g'.execution.promise ≠ .concluded c) :
    ∃ es, a.Keeps run now k f leaves i g (a.follow run t.next g').2 es := by
  cases next : t.next with
  | inl c =>
    refine ⟨told, by simpa [follow] using history, judged, ?_⟩
    intro c' concluded
    have settles : (g'.settle (.concluded c)).execution.promise = .concluded c' := concluded
    cases settled : g'.execution.promise.isSettled with
    | true =>
      rw [Frame.settle_of_isSettled settled] at settles
      exact absurd settles (still c')
    | false =>
      rw [Frame.settle_of_pending settled] at settles
      obtain rfl := Promise.concluded.inj settles
      exact ⟨o, t, g, h, next, congrArg Prod.fst tells⟩
  | inr d =>
    obtain rfl := Transition.next_eq_inr next
    have ends : ∀ c, (a.schedule run d g').2.execution.promise = .concluded c →
        a.Ends run now k f i c :=
      fun c concluded => absurd (schedule_unconcluded concluded) (still c)
    cases settled : g'.execution.promise.isSettled with
    | true =>
      refine ⟨told ++ [Event.note .notScheduling], ?_, ?_, ends⟩
      · simp [follow, a.schedule_of_isSettled run d settled, Act.note, history]
      · rw [beatsOf_append, show beatsOf [.note .notScheduling] = [] from rfl, List.append_nil]
        exact judged
    | false =>
      obtain ⟨q, hq, silent⟩ := a.schedule_enters run (P := (·.isBeat = false)) (fun _ _ => rfl)
        (fun _ => rfl) d settled
      refine ⟨told ++ Event.scheduled d :: q, ?_, ?_, ends⟩
      · simp [follow, hq, history]
      · have beats : beatsOf (.scheduled d :: q) = [.scheduled d] := by
          rw [show beatsOf (.scheduled d :: q) = .scheduled d :: beatsOf q from rfl,
            beatsOf_eq_nil silent]
        rw [beatsOf_append, retried d rfl, beats]
        exact .delayed d left suits

/-- Telling of a transition and acting on it keep to the protocol. -/
theorem Reaches.keeps_telling {i : Nat} {o : Outcome} {t : Transition}
    (h : a.Reaches run now k f (.telling i o t) g) (left : leaves i o)
    (suits : t.Suits a.waiter.strategy.limit i o) :
    ∃ es, a.Keeps run now k f leaves i g (a.remainder run now (.telling i o t) g).2 es := by
  have tells : ∃ told,
      ((a.notifier now).tell o i g.execution.started t g.world).2.history = g.world.history ++ told ∧
        (a.protocol leaves).Judged i (beatsOf told) ∧
        ∀ d, t = .retry d → beatsOf told = (a.protocol leaves).retry i o d :=
    Notifier.tell_beats a.waiter _ left suits g.execution.started g.world
  obtain ⟨told, history, judged, retried⟩ := tells
  have still : ∀ c, (Step.perform ((a.notifier now).tell o i g.execution.started t) g).2.execution.promise
      ≠ .concluded c := fun c concluded => h.unconcluded c (Step.perform_unconcluded concluded)
  rcases ht : Step.perform ((a.notifier now).tell o i g.execution.started t) g with ⟨e | ⟨⟩, g'⟩ <;>
    rw [ht] at still <;> simp only [remainder, ht]
  all_goals
    have history' : g'.world.history = g.world.history ++ told := (Step.history_of_perform ht).trans history
  · refine ⟨told, by rw [refuse_history]; exact history', judged, ?_⟩
    intro c concluded
    exact absurd (Step.refuse_unconcluded concluded) (still c)
  · exact h.keeps_follow left suits ht history' judged retried still

/-- Judging an outcome and what follows it keep to the protocol. -/
theorem Reaches.keeps_judging {i : Nat} {o : Outcome} (h : a.Reaches run now k f (.judging i o) g)
    (first : 1 ≤ i) (left : leaves i o) :
    ∃ es, a.Keeps run now k f leaves i g (a.remainder run now (.judging i o) g).2 es := by
  obtain ⟨es, history, silent⟩ :=
    evaluate_beats a.waiter.acceptors a.waiter.strategy o (.int i) g.world
  rcases he : Step.perform (evaluate a.waiter.acceptors a.waiter.strategy o (.int i)) g
    with ⟨e | t, g'⟩
  all_goals
    have history' : g'.world.history = g.world.history ++ es := (Step.history_of_perform he).trans history
  · have raised := a.visit_judging_error run now he
    rw [remainder_of_fault (congrArg Prod.fst raised) rfl h.attempt, raised]
    refine ⟨es, by rw [refuse_history]; exact history', silent ▸ .silent, ?_⟩
    intro c concluded
    refine absurd (Step.perform_unconcluded
      (a := evaluate a.waiter.acceptors a.waiter.strategy o (.int i)) ?_) (h.unconcluded c)
    rw [he]
    exact Step.refuse_unconcluded concluded
  · -- the evaluation has left no beat, so those of telling are all there are
    have suits : t.Suits a.waiter.strategy.limit i o :=
      evaluate_suits first (congrArg Prod.fst he)
    have next := Reaches.telling h he
    obtain ⟨later, keeps⟩ := next.keeps_telling left suits
    rw [← h.body_eq, next.body_eq]
    refine ⟨es ++ later, ?_, ?_, keeps.ends⟩
    · rw [keeps.history, history', List.append_assoc]
    · rw [beatsOf_append, silent]
      exact keeps.judged

/-- The end of a poll that is no outcome is not judged, and leaves no conclusion. -/
theorem keeps_unjudged {ending : Ending} (none : ending.outcome? = none)
    (pending : f.execution.promise.isSettled = false) (i : Nat) :
    ∃ es, a.Keeps run now k f leaves i f (a.pollEnded run now ending f).2 es := by
  obtain ⟨q, g, serves, tidying, -, ends, promise⟩ := a.pollEnded_of_none run now none pending
  obtain ⟨os, evolves⟩ := serves.evolves
  refine ⟨q, by rw [ends, Frame.settle_world, evolves.history], beatsOf_tidying tidying ▸ .silent, ?_⟩
  intro c concluded
  rw [ends] at concluded
  exact absurd (promise.symm.trans concluded) (ending.promise_unconcluded c)

/-- In a callback, the beats from a frame in an attempt to the end are some in front and then some that may
lie behind the opening of the attempt. A poll comes to be watched only when the operation has just been
called. -/
structure Plays (a : Asynchronous σ) (run : RunId) (now : Binary64) (k : Callback) (f₀ : Frame σ)
    (leaves : Nat → Outcome → Prop) (i : Nat) (front : List Event) (f f' : Frame σ) (called : Bool)
    (tail : List Event) : Prop where
  entries : ∃ es, f'.world.history = f.world.history ++ es ∧ beatsOf es = front ++ tail
  closes : (a.protocol leaves).Closes i called tail
  attempt : f'.execution.attempt = i
  watched : f'.orders.countP Order.isWatch = f.orders.countP Order.isWatch ∨ tail = [.polled i]
  ends : ∀ c, f'.execution.promise = .concluded c → called = true ∧ a.Ends run now k f₀ i c

/-- A frame that evolves watches no more polls. -/
theorem countP_isWatch_of_evolves {es : List Event} {os : List Order} (h : Frame.Evolves f g es os) :
    g.orders.countP Order.isWatch = f.orders.countP Order.isWatch := by
  rw [h.orders, List.countP_append, h.unwatched, Nat.add_zero]

/-- Calling the operation and what follows it keep to the protocol. -/
theorem Reaches.plays_calling {i : Nat} (h : a.Reaches run now k f (.calling i) g) (first : 1 ≤ i)
    (knows : ∀ o g', a.Reaches run now k f (.judging i o) g' → leaves i o) :
    ∃ tail, a.Plays run now k f leaves i [] g (a.remainder run now (.calling i) g).2 true tail := by
  have calls : Frame.Serves g
      (Step.perform (Act.call (.polled i) (a.operation run g.execution.calls)) g).2 [.polled i] :=
    Frame.absorb_serves rfl
  rcases hc : Step.perform (Act.call (.polled i) (a.operation run g.execution.calls)) g
    with ⟨result, g'⟩
  rw [hc] at calls
  obtain ⟨os, evolves⟩ := calls.evolves
  have attempt : g'.execution.attempt = i := by
    rw [evolves.rest]
    exact h.attempt
  have still : ∀ c, g'.execution.promise ≠ .concluded c := fun c concluded =>
    h.unconcluded c (Step.perform_unconcluded ((congrArg (·.2.execution.promise) hc).trans concluded))
  -- an outcome that the call has left is judged
  have judged : ∀ o, Launch.failure? result = some o →
      (∀ e, result = .error e → e.isOrdinary = true) →
      ∃ tail, a.Plays run now k f leaves i [] g (a.remainder run now (.calling i) g).2 true tail := by
    intro o failed ordinary
    have next := Reaches.failing h hc failed ordinary
    obtain ⟨es, keeps⟩ := next.keeps_judging first (knows o g' next)
    obtain ⟨es', os', concludes⟩ := a.conclude_concludes run now o g'
    rw [← h.body_eq, next.body_eq]
    refine ⟨.polled i :: beatsOf es, ⟨.polled i :: es, ?_, rfl⟩, .polled keeps.judged, ?_, .inl ?_, ?_⟩
    · rw [keeps.history, evolves.history, List.append_assoc, List.singleton_append]
    · have kept := congrArg Execution.attempt concludes.evolves.rest
      exact kept.trans attempt
    · exact (countP_isWatch_of_evolves concludes.evolves).trans (countP_isWatch_of_evolves evolves)
    · exact fun c concluded => ⟨rfl, keeps.ends c concluded⟩
  rcases result with e | ⟨id⟩ | _
  · cases ordinary : e.isOrdinary with
    | true =>
      refine judged (.raised e) rfl ?_
      intro e' same
      obtain rfl := Except.error.inj same
      exact ordinary
    | false =>
      simp only [remainder, hc, ordinary, Bool.false_eq_true, if_false]
      exact ⟨[.polled i], ⟨_, evolves.history, rfl⟩, .polled .silent, attempt, .inr rfl,
        fun c concluded => absurd concluded (still c)⟩
  · simp only [remainder, hc]
    exact ⟨[.polled i], ⟨_, evolves.history, rfl⟩, .polled .silent, attempt, .inr rfl,
      fun c concluded => absurd concluded (still c)⟩
  · refine judged _ rfl ?_
    rintro _ ⟨⟩

/-- Opening an attempt and what follows it keep to the protocol. -/
theorem Reaches.plays_opening {i : Nat} (h : a.Reaches run now k f (.opening i) g) (first : 1 ≤ i)
    (knows : ∀ o g', a.Reaches run now k f (.judging i o) g' → leaves i o) :
    ∃ called tail, a.Plays run now k f leaves i ((a.protocol leaves).opening i) g
      (a.remainder run now (.opening i) g).2 called tail := by
  have opens : ∃ es, ((a.notifier now).opening i a.waiter.strategy.limit g.world).2.history =
      g.world.history ++ es ∧ beatsOf es = (a.protocol leaves).opening i :=
    Notifier.opening_beats a.waiter _ _ _ _ i g.world
  obtain ⟨es, history, beats⟩ := opens
  have serves : Frame.Serves g
      (Step.perform ((a.notifier now).opening i a.waiter.strategy.limit) g).2 es :=
    Frame.absorb_serves history
  rcases ho : Step.perform ((a.notifier now).opening i a.waiter.strategy.limit) g with ⟨e | ⟨⟩, g'⟩ <;>
    rw [ho] at serves
  · obtain ⟨os, evolves⟩ := serves.evolves
    obtain ⟨os', refused⟩ := Step.refuse_evolves e g'
    -- the hook has refused the attempt, and the operation is not called
    have raised : a.visit run now (.opening i) g = (.error e, g') := ho
    rw [remainder_of_fault (congrArg Prod.fst raised) rfl h.attempt, raised]
    refine ⟨false, [], ⟨es, (refuse_history e g').trans evolves.history, by simpa using beats⟩, .refused,
      ?_, .inl ?_, ?_⟩
    · rw [(evolves.trans refused).rest]
      exact h.attempt
    · exact countP_isWatch_of_evolves (evolves.trans refused)
    · intro c concluded
      refine absurd (Step.perform_unconcluded
        (a := (a.notifier now).opening i a.waiter.strategy.limit) ?_) (h.unconcluded c)
      rw [ho]
      exact Step.refuse_unconcluded concluded
  · obtain ⟨os, evolves⟩ := serves.evolves
    have unwatched : g'.orders.countP Order.isWatch = g.orders.countP Order.isWatch :=
      countP_isWatch_of_evolves evolves
    have next := Reaches.calling h ho
    obtain ⟨tail, entries, closes, attempt, watched, ends⟩ := next.plays_calling first knows
    obtain ⟨later, history', beats'⟩ := entries
    rw [← h.body_eq, next.body_eq]
    refine ⟨true, tail, ⟨es ++ later, ?_, ?_⟩, closes, attempt, ?_, ends⟩
    · rw [history', ← List.append_assoc]
      exact congrArg (· ++ later) evolves.history
    · rw [beatsOf_append, beats, beats', List.nil_append]
    · exact watched.imp_left fun same => same.trans unwatched

end Asynchronous

namespace Session

variable {a : Asynchronous σ} {s : Session σ} {run : RunId} {leaves leaves' : Nat → Outcome → Prop}
  {x : Execution}

/-- What is known of an execution and its journal. -/
structure Paced (a : Asynchronous σ) (leaves : Nat → Outcome → Prop) (s : Session σ) (run : RunId)
    (x : Execution) : Prop where
  /-- While an attempt is queued or with the scheduler, the journal is whole rounds. -/
  waits : 0 < s.due run + s.unfired run →
    (a.protocol leaves).Cycles x.attempt (beatsOf (s.journalOf run))
  /-- While a poll is in flight, the journal ends with the call of the operation. -/
  polls : 0 < s.inFlight run → ∃ n es, x.attempt = n + 1 ∧ (a.protocol leaves).Cycles n es ∧
    beatsOf (s.journalOf run) = es ++ ((a.protocol leaves).opening (n + 1) ++ [.polled (n + 1)])
  follows : ∃ called, (a.protocol leaves).Follows x.attempt called (beatsOf (s.journalOf run))
  /-- A conclusion reports the latest attempt, for which the operation has been called. -/
  reports : ∀ c, x.promise = .concluded c →
    (a.protocol leaves).Follows x.attempt true (beatsOf (s.journalOf run)) ∧ c.attempts = .int x.attempt

theorem Paced.mono (h : Paced a leaves s run x) (more : ∀ i o, leaves i o → leaves' i o) :
    Paced a leaves' s run x where
  waits := fun some => (h.waits some).mono more
  polls := by
    intro some
    obtain ⟨n, es, attempt, cycles, split⟩ := h.polls some
    exact ⟨n, es, attempt, cycles.mono more, split⟩
  follows := by
    obtain ⟨called, follows⟩ := h.follows
    exact ⟨called, follows.mono more fun _ => id⟩
  reports := by
    intro c concluded
    obtain ⟨follows, attempts⟩ := h.reports c concluded
    exact ⟨follows.mono more fun _ => id, attempts⟩

/-- Nothing that matters has happened to an execution. -/
theorem Paced.of_silent (h : Paced a leaves s run x) {s' : Session σ} {x' : Execution}
    (beats : beatsOf (s'.journalOf run) = beatsOf (s.journalOf run))
    (waits : 0 < s'.due run + s'.unfired run → 0 < s.due run + s.unfired run)
    (polls : 0 < s'.inFlight run → 0 < s.inFlight run) (attempt : x'.attempt = x.attempt)
    (promise : ∀ c, x'.promise = .concluded c → x.promise = .concluded c) :
    Paced a leaves s' run x' := by
  refine ⟨?_, ?_, ?_, ?_⟩ <;> rw [beats, attempt]
  · exact fun some => h.waits (waits some)
  · exact fun some => h.polls (polls some)
  · exact h.follows
  · exact fun c concluded => h.reports c (promise c concluded)

/-- An execution whose latest attempt stands behind whole rounds. -/
theorem paced_of_closes {n : Nat} {es tail : List Event} {called : Bool}
    (cycles : (a.protocol leaves).Cycles n es) (closes : (a.protocol leaves).Closes (n + 1) called tail)
    (beats : beatsOf (s.journalOf run) = es ++ ((a.protocol leaves).opening (n + 1) ++ tail))
    (attempt : x.attempt = n + 1)
    (waits : 0 < s.due run + s.unfired run → 0 < tail.countP Event.isDelay)
    (polls : 0 < s.inFlight run → tail = [.polled (n + 1)])
    (reports : ∀ c, x.promise = .concluded c → called = true ∧ c.attempts = .int (n + 1)) :
    Paced a leaves s run x := by
  refine ⟨?_, ?_, ?_, ?_⟩ <;> rw [beats, attempt]
  · intro some
    -- something is to come, so a delay has been spent and the round is whole
    have spent := waits some
    cases closes with
    | refused => exact absurd spent (by simp)
    | polled judged =>
      obtain ⟨o, d, left, more, rfl⟩ := judged.delay (fun _ => id) (by simpa using spent)
      exact .round cycles left more
  · intro some
    rw [polls some]
    exact ⟨n, es, rfl, cycles, rfl⟩
  · exact ⟨called, .latest cycles closes⟩
  · intro c concluded
    obtain ⟨rfl, attempts⟩ := reports c concluded
    exact ⟨.latest cycles closes, attempts⟩

/-- Every started execution is in pace. -/
def InPace (a : Asynchronous σ) (leaves : Nat → Outcome → Prop) (s : Session σ) (run : RunId) : Prop :=
  ∀ x, s.runs[run]? = some x → FiresOnce (s.journalOf run) → Paced a leaves s run x

/-- A move comes to judging an outcome that the poll of an attempt has left. -/
def Leaves (a : Asynchronous σ) (run : RunId) (i : Nat) (o : Outcome) (s : Session σ) (m : Move σ) :
    Prop :=
  ∃ k now x g, s.Begins run m k now x ∧ a.Reaches run now k (s.frame run x) (.judging i o) g

/-- The calls of the scheduler that are still to come, after some entries and calls. -/
theorem unfired_add_le {s' : Session σ} {q : List Event} {n : Nat}
    (once : FiresOnce (s'.journalOf run))
    (journal : s'.journalOf run = s.journalOf run ++ q ++ List.replicate n Event.fired) :
    s'.unfired run + n ≤ s.unfired run + q.countP Event.isScheduled := by
  have bound := once _ (List.prefix_refl _)
  have earlier := once (s.journalOf run) (by rw [journal, List.append_assoc]; exact List.prefix_append _ _)
  simp only [unfired, journal, List.countP_append, countP_isScheduled_fires,
    countP_isFired_fires] at bound ⊢
  omega

/-- A callback is begun when it is the one thing that was to come. -/
theorem Begins.alone {m : Move σ} {k : Callback} {now : Binary64} (h : s.Reachable a)
    (begins : s.Begins run m k now x) (once : FiresOnce (s.journalOf run)) :
    (s.onset run m).due run = 0 ∧ (s.onset run m).inFlight run = 0 ∧ s.unfired run = 0 := by
  cases begins with
  | start new =>
    obtain ⟨journal, due, inFlight, -⟩ := h.sound.unknown run (by simp [new])
    exact ⟨due, inFlight, by simp [unfired, journal]⟩
  | @turn k l x taken own lookup =>
    simp only [Session.onset, taken]
    rcases own with rfl | ⟨ending, rfl⟩
    · obtain ⟨course, due, inFlight⟩ := (h.inSequence run).attempt_taken h.sound lookup once taken
      have balance := course.countP_isScheduled
      exact ⟨due, inFlight, by simp [unfired, balance, Phase.unfired]⟩
    · obtain ⟨course, due, inFlight⟩ := (h.inSequence run).pollEnded_taken h.sound lookup once taken
      have balance := course.countP_isScheduled
      exact ⟨due, inFlight, by simp [unfired, balance, Phase.unfired]⟩

/-- A promise that code of the caller's may have cancelled has come to a conclusion earlier. -/
theorem concluded_of_orCancelled {p q : Promise} {c : Conclusion} (h : p.OrCancelled q)
    (concluded : q = .concluded c) : p = .concluded c := by
  rcases h with same | ⟨-, cancelled⟩
  · exact same.symm.trans concluded
  · exact nomatch cancelled.symm.trans concluded

/-- The journal after a callback that a move begins. -/
theorem Begins.journal {m : Move σ} {k : Callback} {now : Binary64} (begins : s.Begins run m k now x)
    {x' : Execution} {es : List Event} {w n : Nat}
    (grown : Grown (s.onset run m) (s.move a m) run x x' es w n) :
    (s.move a m).journalOf run = s.journalOf run ++ (k.entries ++ es) ++ List.replicate n Event.fired := by
  rw [grown.journal, begins.onset.1]
  simp

/-- While the promise is pending, an attempt plays its part. -/
theorem Begins.plays {m : Move σ} {now : Binary64} (begins : s.Begins run m (.attempt run) now x)
    (pending : x.promise.isSettled = false) (knows : ∀ i o, Leaves a run i o s m → leaves i o) :
    ∃ called tail, a.Plays run now (.attempt run) (s.frame run x) leaves (x.attempt + 1)
      ((a.protocol leaves).opening (x.attempt + 1))
      { s.frame run x with execution := Asynchronous.begin x }
      (a.body run now (.attempt run) (s.frame run x)).2 called tail := by
  have reaches : a.Reaches run now (.attempt run) (s.frame run x) (.opening (x.attempt + 1))
      { s.frame run x with execution := Asynchronous.begin x } :=
    .opening (f := s.frame run x) pending
  rw [reaches.body_eq]
  exact reaches.plays_opening (by omega) fun o g judging => knows _ o ⟨_, now, x, g, begins, judging⟩

/-- Taking the result of a poll keeps to the protocol. -/
theorem Begins.keeps {m : Move σ} {now : Binary64} {ending : Ending}
    (begins : s.Begins run m (.pollEnded run ending) now x) (pending : x.promise.isSettled = false)
    (first : 1 ≤ x.attempt) (knows : ∀ i o, Leaves a run i o s m → leaves i o) :
    ∃ es, a.Keeps run now (.pollEnded run ending) (s.frame run x) leaves x.attempt (s.frame run x)
      (a.body run now (.pollEnded run ending) (s.frame run x)).2 es := by
  cases ho : ending.outcome? with
  | some o =>
    have reaches : a.Reaches run now (.pollEnded run ending) (s.frame run x) (.judging x.attempt o)
        { s.frame run x with execution := Asynchronous.forget x } :=
      .ended (f := s.frame run x) pending ho
    obtain ⟨es, keeps⟩ := reaches.keeps_judging first (knows _ o ⟨_, now, x, _, begins, reaches⟩)
    rw [← reaches.body_eq] at keeps
    exact ⟨es, keeps.history, keeps.judged, keeps.ends⟩
  | none => exact Asynchronous.keeps_unjudged ho (f := s.frame run x) pending x.attempt

section Step

variable {m : Move σ} {k : Callback} {now : Binary64} (h : s.Reachable a) (ih : InPace a leaves s run)
  (begins : s.Begins run m k now x) (once : FiresOnce (s.journalOf run))
include h ih begins once

/-- When an attempt begins, the journal is whole rounds. -/
theorem Begins.cycles (attempt : k = .attempt run) :
    (a.protocol leaves).Cycles x.attempt (beatsOf (s.journalOf run)) := by
  cases begins with
  | start new =>
    rw [(h.sound.unknown run (by simp [new])).1]
    exact .start
  | turn taken own lookup =>
    subst attempt
    have due := (h.sound.attempt_taken taken).1
    exact (ih x lookup once).waits (by omega)

/-- When the result of a poll is taken, the journal ends with the call of the operation. -/
theorem Begins.polled {ending : Ending} (pollEnded : k = .pollEnded run ending) :
    ∃ n es, x.attempt = n + 1 ∧ (a.protocol leaves).Cycles n es ∧
      beatsOf (s.journalOf run) = es ++ ((a.protocol leaves).opening (n + 1) ++ [Event.polled (n + 1)]) := by
  subst pollEnded
  cases begins with
  | turn taken own lookup =>
    have inFlight := (h.sound.pollEnded_taken taken).2
    exact (ih x lookup once).polls (by omega)

/-- While the promise is pending, an attempt keeps the pace. -/
theorem Begins.paced_attempt (attempt : k = .attempt run) (pending : x.promise.isSettled = false)
    (knows : ∀ i o, Leaves a run i o s m → leaves i o) (after : FiresOnce ((s.move a m).journalOf run))
    {x' : Execution} (hx' : (s.move a m).runs[run]? = some x') : Paced a leaves (s.move a m) run x' := by
  have cycles := begins.cycles h ih once attempt
  obtain ⟨due, inFlight, unfired⟩ := begins.alone h once
  obtain ⟨n, ran⟩ := begins.ran (a := a)
  subst attempt
  -- the beats of the callback, and the orders that it leaves
  obtain ⟨called, tail, plays⟩ := begins.plays pending knows
  obtain ⟨es, history, beats⟩ := plays.entries
  obtain ⟨es', os, attempts⟩ := a.attempt_attempts run now (s.frame run x)
  have grows : Frame.Grows (s.frame run x) (a.body run now (.attempt run) (s.frame run x)).2 es' os :=
    attempts.grows
  obtain rfl : es = es' := by
    have entered : (a.body run now (.attempt run) (s.frame run x)).2.world.history = es := history
    exact entered.symm.trans grows.history
  have orders : (a.body run now (.attempt run) (s.frame run x)).2.orders = os := grows.orders
  obtain ⟨q, hq, grown⟩ := ran.grown (begins.starts grows)
  have journal := begins.journal grown
  have lookup := Option.some.inj (grown.lookup.symm.trans hx')
  refine paced_of_closes cycles plays.closes ?_ ?_ ?_ ?_ ?_
  · rw [journal, beatsOf_append, beatsOf_append, beatsOf_append, beatsOf_entries, beatsOf_fires, beats]
    simp
  · rw [← lookup]
    exact plays.attempt
  · intro some
    have bound := unfired_add_le after journal
    have delays := countP_isScheduled_le es
    have due' := grown.due
    rw [beats, List.countP_append, Protocol.opening, Protocol.tell_isDelay] at delays
    simp only [Callback.entries, List.nil_append] at bound
    omega
  · intro some
    rcases plays.watched with none | called
    · have none' : os.countP Order.isWatch = 0 := by
        rw [← orders, none]
        rfl
      have inFlight' := grown.inFlight
      omega
    · exact called
  · intro c concluded
    rw [← lookup] at concluded
    obtain ⟨called, ends⟩ := plays.ends c (concluded_of_orCancelled hq concluded)
    exact ⟨called, ends.attempts (by omega)⟩

/-- While the promise is pending, taking the result of a poll keeps the pace. -/
theorem Begins.paced_pollEnded {ending : Ending} (pollEnded : k = .pollEnded run ending)
    (pending : x.promise.isSettled = false) (knows : ∀ i o, Leaves a run i o s m → leaves i o)
    (after : FiresOnce ((s.move a m).journalOf run)) {x' : Execution}
    (hx' : (s.move a m).runs[run]? = some x') : Paced a leaves (s.move a m) run x' := by
  obtain ⟨i, before, number, cycles, split⟩ := begins.polled h ih once pollEnded
  obtain ⟨due, inFlight, unfired⟩ := begins.alone h once
  obtain ⟨n, ran⟩ := begins.ran (a := a)
  subst pollEnded
  obtain ⟨es', os, takes⟩ := a.pollEnded_takes run now ending (s.frame run x)
  have grows : Frame.Grows (s.frame run x) (a.body run now (.pollEnded run ending) (s.frame run x)).2 es' os :=
    takes.grows
  obtain ⟨es, keeps⟩ := begins.keeps pending (by omega) knows
  obtain rfl : es = es' := keeps.history.symm.trans grows.history
  obtain ⟨q, hq, grown⟩ := ran.grown (begins.starts grows)
  have journal := begins.journal grown
  have lookup := Option.some.inj (grown.lookup.symm.trans hx')
  refine paced_of_closes cycles (.polled (number ▸ keeps.judged)) ?_ ?_ ?_ ?_ ?_
  · rw [journal, beatsOf_append, beatsOf_append, beatsOf_append, beatsOf_entries, beatsOf_fires, split]
    simp
  · rw [← lookup]
    exact takes.attempt.trans number
  · intro some
    -- one attempt is to come at most, and only if a delay was handed over
    have bound := unfired_add_le after journal
    have delays := countP_isScheduled_le es
    have due' := grown.due
    simp only [Callback.entries, List.countP_append, List.countP_singleton, Event.isScheduled,
      Bool.false_eq_true, if_false] at bound
    simp only [List.countP_cons, Event.polled_isDelay, Bool.false_eq_true, if_false]
    omega
  · intro some
    have inFlight' := grown.inFlight
    rw [inFlight, takes.unwatched] at inFlight'
    omega
  · intro c concluded
    rw [← lookup] at concluded
    have attempts := (keeps.ends c (concluded_of_orCancelled hq concluded)).attempts (by omega)
    rw [number] at attempts
    exact ⟨rfl, attempts⟩

end Step

/-- A callback that comes too late for the promise changes nothing that matters. -/
theorem Begins.paced_late {m : Move σ} {k : Callback} {now : Binary64} (h : s.Reachable a)
    (begins : s.Begins run m k now x) (once : FiresOnce (s.journalOf run))
    (settled : x.promise.isSettled = true) (paced : Paced a leaves s run x)
    (after : FiresOnce ((s.move a m).journalOf run)) {x' : Execution}
    (hx' : (s.move a m).runs[run]? = some x') : Paced a leaves (s.move a m) run x' := by
  obtain ⟨due, inFlight, unfired⟩ := begins.alone h once
  obtain ⟨n, ran⟩ := begins.ran (a := a)
  have tidies : ∃ es os, Frame.Tidies (s.frame run x) (a.body run now k (s.frame run x)).2 es os := by
    rcases begins.own with rfl | ⟨ending, rfl⟩
    · exact a.attempt_tidies run now (f := s.frame run x) settled
    · exact a.pollEnded_tidies run now ending (f := s.frame run x) settled
  obtain ⟨es, os, tidies⟩ := tidies
  have grown := ran.grown_of_isSettled (begins.starts tidies.toGrows) settled
  have journal := begins.journal grown
  have lookup := Option.some.inj (grown.lookup.symm.trans hx')
  -- tidying up makes no beats and schedules nothing
  have silent : beatsOf (k.entries ++ es) = [] := by
    rw [beatsOf_append, beatsOf_entries, beatsOf_tidying tidies.tidying, List.append_nil]
  have bound := unfired_add_le after journal
  have none_scheduled := countP_isScheduled_le (k.entries ++ es)
  rw [silent, List.countP_nil] at none_scheduled
  refine paced.of_silent ?_ ?_ ?_ ?_ ?_
  · rw [journal, beatsOf_append, beatsOf_append, silent, beatsOf_fires, List.append_nil, List.append_nil]
  · have due' := grown.due
    omega
  · have inFlight' := grown.inFlight
    rw [inFlight, tidies.unwatched] at inFlight'
    omega
  · rw [← lookup]
    exact tidies.attempt
  · intro c concluded
    rw [← lookup] at concluded
    exact concluded

/-- A move keeps the pace of every execution. -/
theorem InPace.move (h : s.Reachable a) (ih : InPace a leaves s run) (m : Move σ)
    (knows : ∀ i o, Leaves a run i o s m → leaves i o) : InPace a leaves (s.move a m) run := by
  intro x' hx' after
  obtain ⟨added, adds, -⟩ := journalOf_move (a := a) h.sound m run
  have once : FiresOnce (s.journalOf run) := after.of_prefix ⟨added, adds.symm⟩
  rcases h.sound.move_cases a m run with aside | ⟨k, now, x, begins⟩ | ⟨l, x, n, taken, ran⟩
  · -- nothing but calls of the scheduler can come in from outside
    obtain ⟨n, shifts⟩ := aside.shifts (a := a) h.sound
    obtain ⟨x, hx, cancels, same⟩ := shifts.lookup hx'
    have bound := unfired_add_le (q := []) after (by simpa using shifts.journal)
    refine (ih x hx once).of_silent ?_ ?_ ?_ (by rw [same]) fun c concluded =>
      concluded_of_orCancelled cancels concluded
    · rw [shifts.journal, beatsOf_append, beatsOf_fires, List.append_nil]
    · have due := shifts.due
      simp only [List.countP_nil] at bound
      omega
    · have inFlight := shifts.inFlight
      omega
  · cases settled : x.promise.isSettled with
    | false =>
      rcases begins.own with attempt | ⟨ending, pollEnded⟩
      · exact begins.paced_attempt h ih once attempt settled knows after hx'
      · exact begins.paced_pollEnded h ih once pollEnded settled knows after hx'
    | true =>
      have lookup : s.runs[run]? = some x := by
        cases begins with
        | start new => exact nomatch settled
        | turn taken own lookup => exact lookup
      exact begins.paced_late h once settled (ih x lookup once) after hx'
  · -- what follows the settling of the promise only cleans up
    obtain ⟨settled, -, -⟩ := h.settling_taken ran.lookup taken
    obtain ⟨due, inFlight⟩ := h.sound.settled_taken taken
    obtain ⟨es, os, tidies⟩ := a.settled_tidies (s.frame run x)
    have grows : Frame.Grows (s.frame run x) _ es os := tidies.toGrows
    have grown := ran.grown_of_isSettled grows settled
    have journal : (s.move a m).journalOf run = s.journalOf run ++ es ++ List.replicate n Event.fired :=
      grown.journal
    have silent := beatsOf_tidying tidies.tidying
    have bound := unfired_add_le after journal
    have none_scheduled := countP_isScheduled_le es
    rw [silent, List.countP_nil] at none_scheduled
    refine (ih x ran.lookup once).of_silent ?_ ?_ ?_ ?_ ?_
    · rw [journal, beatsOf_append, beatsOf_append, silent, beatsOf_fires, List.append_nil, List.append_nil]
    · have due' := grown.due
      omega
    · have inFlight' := grown.inFlight
      rw [tidies.unwatched] at inFlight'
      omega
    · rw [← Option.some.inj (grown.lookup.symm.trans hx')]
      exact tidies.attempt
    · intro c concluded
      rw [← Option.some.inj (grown.lookup.symm.trans hx')] at concluded
      exact concluded

/-- A session has come about by moves of which one satisfies a condition. -/
def Meets (a : Asynchronous σ) (s : Session σ) (ms : List (Move σ)) (P : Session σ → Move σ → Prop) :
    Prop :=
  ∃ before m after, ms = before ++ m :: after ∧ P (s.moves a before) m

theorem Meets.append {ms : List (Move σ)} {P : Session σ → Move σ → Prop} (h : Meets a s ms P)
    (ms' : List (Move σ)) : Meets a s (ms ++ ms') P := by
  obtain ⟨before, m, after, rfl, holds⟩ := h
  exact ⟨before, m, after ++ ms', by simp, holds⟩

/-- On every path, an execution keeps the pace, and what its attempts have left lies on the path. -/
theorem inPace_moves (time : Binary64) (caller : Caller σ) (ms : List (Move σ)) (run : RunId) :
    InPace a (fun i o => Meets a { loop := { time }, caller } ms (Leaves a run i o))
      (moves a { loop := { time }, caller } ms) run := by
  induction ms using List.reverseRecOn with
  | nil => exact fun x hx => absurd hx (by simp [moves])
  | append_singleton ms m ih =>
    have reachable : (moves a { loop := { time }, caller } ms).Reachable a := (Reachable.init _ _).moves ms
    have earlier : InPace a (fun i o => Meets a { loop := { time }, caller } (ms ++ [m])
        (Leaves a run i o)) (moves a { loop := { time }, caller } ms) run := fun x hx once =>
      (ih x hx once).mono fun i o left => left.append [m]
    rw [moves_append]
    exact earlier.move reachable m fun i o left => ⟨ms, m, [], rfl, left⟩

end Session

end Polling
