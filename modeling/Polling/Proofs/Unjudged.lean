import Polling.Acceptor.Kinds
import Polling.Proofs.Accounting
import Polling.Proofs.Cleanup

/-!
# Polls that end without an outcome

A poll that raises a fault which is not ordinary has no outcome, and neither has a poll that somebody
cancels. Nothing is judged then: the last things that the wait has called are the hook for the attempt
and the operation (`Waiter.polling`), and nothing is called any more.

In a blocking run the fault leaves the run at once. `Waiter.Opened` says of its history that every call
of the operation stands right behind the opening of its attempt.

An execution on a loop takes the end of the poll in a callback. As long as a poll is in flight, the
execution has called nothing since the operation (`Session.Flies`), and the promise is pending or
somebody has cancelled it. The callback finds no outcome in the end of the poll and settles a pending
promise with it.
-/

namespace Polling

/-! ## The calls in a history -/

/-- The calls that a history is made of. -/
def callsOf (es : List Event) : List Event := es.filter Event.isCall

@[simp] theorem callsOf_append (es es' : List Event) : callsOf (es ++ es') = callsOf es ++ callsOf es' :=
  List.filter_append ..

theorem callsOf_eq_nil {es : List Event} (h : ∀ e ∈ es, e.isCall = false) : callsOf es = [] :=
  List.filter_eq_nil_iff.2 fun e he => by simp [h e he]

/-- The entry of the hook that is told of an attempt, if there is one. -/
def Waiter.opening (w : Waiter σ) (k : Nat) : List Event :=
  if (w.hooks.getD {}).onAttempt.isSome then [.notice (.attempt ⟨.int k, .int w.strategy.limit⟩)]
  else []

/-- What is called to begin an attempt: the hook that is told of it and the operation. -/
def Waiter.polling (w : Waiter σ) (k : Nat) : List Event := w.opening k ++ [.polled k]

/-- Opening an attempt calls the hook that is told of it. -/
theorem Notifier.opening_calls (w : Waiter σ) (clock : σ → Value) (k : Nat) (W : World σ) : ∃ es,
    ((w.notifier clock).opening k w.strategy.limit W).2.history = W.history ++ es ∧
      callsOf es = w.opening k ∧ es.countP Event.isPolled = 0 := by
  obtain ⟨es, history, beats⟩ := Notifier.opening_beats w clock (fun _ _ => True)
    ⟨.slept, fun _ => rfl⟩ (fun _ => True) k W
  obtain ⟨es', history', sorts⟩ := Notifier.opening_enters
    (P := fun e => e.isCall = e.isBeat ∧ e.isPolled = false) (fun _ _ => ⟨rfl, rfl⟩)
    (fun _ => ⟨rfl, rfl⟩) (w.notifier clock) k w.strategy.limit W
  obtain rfl : es = es' := List.append_cancel_left (history.symm.trans history')
  refine ⟨es, history, ?_, ?_⟩
  · -- hooks and notes are calls as far as they are beats
    have same : callsOf es = beatsOf es := List.filter_congr fun e he => (sorts e he).1
    exact same.trans beats
  · exact List.countP_eq_zero.2 fun e he => by simp [(sorts e he).2]

/-! ## Blocking runs -/

/-- Every call of the operation stands right behind the opening of its attempt. -/
def Waiter.Opened (w : Waiter σ) (es : List Event) : Prop :=
  ∀ before k after, es = before ++ .polled k :: after → w.opening k <:+ callsOf before

namespace Waiter

variable {w : Waiter σ} {es es' : List Event}

theorem opened_of_unpolled (h : es.countP Event.isPolled = 0) : w.Opened es := by
  rintro before k after rfl
  simp at h

theorem Opened.append (h : w.Opened es) (h' : w.Opened es') : w.Opened (es ++ es') := by
  intro before k after split
  rcases List.append_eq_append_iff.1 split with ⟨mid, rfl, later⟩ | ⟨mid, rfl, later⟩
  · rw [callsOf_append]
    exact (h' mid k after later).trans (List.suffix_append _ _)
  · cases mid with
    | nil =>
      obtain nothing : w.opening k <:+ [] := h' [] k after later.symm
      rw [List.suffix_nil.1 nothing]
      exact List.nil_suffix
    | cons e mid =>
      obtain ⟨rfl, rfl⟩ := List.cons.inj later
      exact h before k mid rfl

theorem opened_polled {k : Nat} (calls : callsOf es = w.opening k)
    (unpolled : es.countP Event.isPolled = 0) : w.Opened (es ++ [Event.polled k]) := by
  intro before i after split
  rcases List.append_eq_append_iff.1 split with ⟨mid, rfl, later⟩ | ⟨mid, rfl, later⟩
  · cases mid with
    | nil =>
      obtain ⟨same, -⟩ := List.cons.inj later
      obtain rfl := Event.polled.inj same
      have same : callsOf (es ++ []) = w.opening k := by rw [List.append_nil, calls]
      exact same ▸ List.suffix_rfl
    | cons e mid => simp at later
  · -- nothing is polled in front
    cases mid with
    | nil =>
      obtain ⟨same, -⟩ := List.cons.inj later
      obtain rfl := Event.polled.inj same
      rw [List.append_nil] at calls
      exact calls ▸ List.suffix_rfl
    | cons e mid =>
      obtain ⟨rfl, -⟩ := List.cons.inj later
      simp at unpolled

end Waiter

namespace Blocking

variable (b : Blocking σ)

theorem round_opened (started : Value) (k : Nat) : (b.round started k).Adds b.waiter.Opened := by
  have unpolled : ∀ {α} {a : Act σ α}, a.Enters (·.isPolled = false) → a.Adds b.waiter.Opened := by
    intro α a h w
    obtain ⟨es, history, none⟩ := h w
    exact ⟨es, history, Waiter.opened_of_unpolled (List.countP_eq_zero.2 fun e he => by simp [none e he])⟩
  have polls : (b.notifier.opening k b.waiter.strategy.limit >>= fun _ => b.poll k).Adds
      b.waiter.Opened := by
    intro w
    obtain ⟨es, history, calls, none⟩ := Notifier.opening_calls b.waiter (fun s => .real (b.clock s)) k w
    rw [Act.bind_apply]
    rcases ho : b.notifier.opening k b.waiter.strategy.limit w with ⟨e | ⟨⟩, w'⟩ <;>
      rw [show (b.waiter.notifier fun s => .real (b.clock s)).opening k b.waiter.strategy.limit w = _
        from ho] at history
    · exact ⟨es, history, Waiter.opened_of_unpolled none⟩
    · refine ⟨es ++ [Event.polled k], ?_, Waiter.opened_polled calls none⟩
      rw [(b.poll_history k w').1, show w'.history = w.history ++ es from history, List.append_assoc]
  rw [round_eq, ← bind_assoc]
  refine Act.adds_bind (fun h h' => h.append h') polls fun o => ?_
  exact unpolled (Act.enters_bind (judge_enters (fun _ _ => rfl) (fun _ => rfl) (fun _ _ => rfl)
    (fun _ => rfl) _ _ _ _ _ rfl) fun next => b.close_enters (fun _ _ => rfl) (fun _ => rfl) _ _ next
      (fun _ _ => rfl) fun _ _ => rfl)

theorem rounds_opened (started : Value) (left k : Nat) :
    (b.rounds started left k).Adds b.waiter.Opened := by
  have idle : ∀ c : Conclusion, (pure c : Act σ Conclusion).Adds b.waiter.Opened :=
    fun c w => ⟨[], by simp, Waiter.opened_of_unpolled rfl⟩
  induction left generalizing k with
  | zero => exact idle _
  | succ left ih =>
    refine Act.adds_bind (fun h h' => h.append h') (b.round_opened started k) fun conclusion => ?_
    cases conclusion with
    | some c => exact idle c
    | none => exact ih (k + 1)

/-- A fault of the operation that is not ordinary is raised by the run. It is the end of the run, which has
called nothing but the operation since the attempt was opened. -/
theorem run_unjudged (w : World σ) : ∃ es, (b.run w).2.history = w.history ++ es ∧
    ∀ before k after e, es = before ++ Event.polled k :: after →
      (b.operation k (replay b.answer w.caller before)).1 = .error e → e.isOrdinary = false →
      (b.run w).1 = .error e ∧ after = [] ∧ b.waiter.polling k <:+ callsOf es := by
  obtain ⟨es, left, stops⟩ := b.run_replays w
  obtain ⟨es', history, opened⟩ := b.rounds_opened (b.startTime w) b.waiter.strategy.limit 1 w
  have same : (b.run w).2.history = w.history ++ es' := history
  rw [left] at same
  obtain rfl : es = es' := List.append_cancel_left same
  refine ⟨es, congrArg World.history left, ?_⟩
  rintro before k after e rfl raised stop
  -- the fault is what stands behind the entry of the poll, so the run stops there
  have answered : (b.answer (.polled k) (replay b.answer w.caller before)).1 = .error e := by
    change ((b.operation k).attempted (replay b.answer w.caller before)).1 = .error e
    rcases hc : b.operation k (replay b.answer w.caller before) with ⟨e' | v, c⟩ <;> rw [hc] at raised
    · obtain rfl := Except.error.inj raised
      simp [Code.attempted, hc, stop]
    · cases raised
  obtain ⟨rfl, result⟩ := stops before (.polled k) after e rfl answered
  obtain ⟨others, split⟩ := opened before k [] rfl
  refine ⟨result, rfl, others, ?_⟩
  rw [callsOf_append, ← split, Waiter.polling, List.append_assoc]
  rfl

end Blocking

/-! ## Polls in flight -/

namespace Asynchronous

variable (a : Asynchronous σ) (run : RunId) (now : Binary64)

/-- An attempt that leaves a poll to watch has called nothing but the hook that is told of it and the
operation, and has left the promise pending, unless somebody has cancelled it. -/
theorem attempt_polling (f : Frame σ) : ∃ es os, Frame.Grows f (a.attempt run now f).2 es os ∧
    (os.countP Order.isWatch = 0 ∨
      (callsOf es = a.waiter.polling (f.execution.attempt + 1) ∧
        (a.attempt run now f).2.execution.attempt = f.execution.attempt + 1 ∧
        Promise.pending.OrCancelled (a.attempt run now f).2.execution.promise)) := by
  cases settled : f.execution.promise.isSettled with
  | true =>
    obtain ⟨es, os, tidies⟩ := a.attempt_tidies run now settled
    exact ⟨es, os, tidies.toGrows, .inl tidies.unwatched⟩
  | false =>
    have start : Frame.Grows f { f with execution := begin f.execution } [] [] := Frame.grows_change rfl
    obtain ⟨q, history, calls, -⟩ := Notifier.opening_calls a.waiter (fun _ => .real now)
      (f.execution.attempt + 1) f.world
    have opened : Frame.Serves { f with execution := begin f.execution } (Step.perform
        ((a.notifier now).opening (f.execution.attempt + 1) a.waiter.strategy.limit)
        { f with execution := begin f.execution }).2 q := Frame.absorb_serves history
    rw [a.attempt_apply run now settled]
    rcases ho : Step.perform ((a.notifier now).opening (f.execution.attempt + 1)
      a.waiter.strategy.limit) { f with execution := begin f.execution } with ⟨e | ⟨⟩, g⟩
    · rw [ho] at opened
      obtain ⟨os, evolves⟩ := opened.evolves
      obtain ⟨os', refused⟩ := Step.refuse_evolves e g
      exact ⟨_, _, start.trans (evolves.trans refused).toGrows, .inl (evolves.trans refused).unwatched⟩
    · rw [ho] at opened
      obtain ⟨os, evolves⟩ := opened.evolves
      have attempt : g.execution.attempt = f.execution.attempt + 1 := by
        rw [opened.execution]
        rfl
      have pending : Promise.pending.OrCancelled g.execution.promise := by
        rw [← Promise.eq_pending settled]
        exact opened.promise
      have grows := start.trans evolves.toGrows
      -- only a call that returns a poll leaves one to watch
      rcases a.launch_cases run now (f.execution.attempt + 1) g with
        ⟨os', polls, -, same, promise⟩ | ⟨o, g', os', es, os'', polls, unwatched, -, -, concludes⟩
      · refine ⟨_, _, grows.trans polls, .inr ⟨?_, same.trans attempt,
          Promise.orCancelled_trans pending promise⟩⟩
        rw [List.nil_append, callsOf_append, calls]
        rfl
      · refine ⟨_, _, grows.trans (polls.trans concludes.evolves.toGrows), .inl ?_⟩
        simp only [List.countP_append, List.countP_nil, evolves.unwatched, unwatched,
          concludes.evolves.unwatched]

end Asynchronous

/-- While the promise is pending, the end of a poll without an outcome settles it. Nothing is called. -/
theorem Asynchronous.pollEnded_unjudged (a : Asynchronous σ) (run : RunId) (now : Binary64)
    {ending : Ending} (unjudged : ending.outcome? = none) {f : Frame σ}
    (h : f.execution.promise.isSettled = false) : ∃ es os,
      Frame.Grows f (a.pollEnded run now ending f).2 es os ∧ (∀ e ∈ es, e.isCall = false) ∧
      (a.pollEnded run now ending f).2.execution.promise = ending.promise ∧
      ending.promise.isSettled = true := by
  obtain ⟨q, g, serves, tidying, settled, ends, promise⟩ := a.pollEnded_of_none run now unjudged h
  obtain ⟨os, evolves⟩ := serves.evolves
  obtain ⟨os', settles⟩ := Frame.settle_evolves g settled
  have start : Frame.Grows f { f with execution := forget f.execution } [] [] := Frame.grows_change rfl
  rw [ends]
  refine ⟨_, _, start.trans (evolves.trans settles).toGrows, ?_, promise, settled⟩
  simpa using fun e he => Event.isCall_of_isTidying (tidying e he)

namespace Session

variable {a : Asynchronous σ} {s s' : Session σ} {run : RunId}

/-- As long as a poll of an execution is in flight, the execution has called nothing since the operation, and
its promise is pending or somebody has cancelled it. -/
def Flies (a : Asynchronous σ) (s : Session σ) (run : RunId) : Prop :=
  ∀ x, s.runs[run]? = some x → FiresOnce (s.journalOf run) → 0 < s.inFlight run →
    Promise.pending.OrCancelled x.promise ∧ a.waiter.polling x.attempt <:+ callsOf (s.journalOf run)

theorem callsOf_fires (k : Nat) : callsOf (List.replicate k Event.fired) = [] := callsOf_eq_nil (isCall_fires k)

/-- An attempt that finds no poll in flight leaves at most its own. -/
theorem Ran.flies {s₀ : Session σ} {x : Execution} {now : Binary64} {k : Nat}
    (h : Ran s s' run x (a.attempt run now (s₀.frame run x)).2 k) (landed : s.inFlight run = 0) :
    Flies a s' run := by
  intro y hy _ flying
  obtain ⟨es, os, grows, polling⟩ := a.attempt_polling run now (s₀.frame run x)
  obtain ⟨p, hp, grown⟩ := h.grown grows
  obtain rfl := Option.some.inj (grown.lookup.symm.trans hy)
  rw [grown.inFlight, landed, Nat.zero_add] at flying
  rcases polling with unwatched | ⟨calls, attempt, pending⟩
  · omega
  · refine ⟨Promise.orCancelled_trans pending hp, ?_⟩
    rw [grown.journal, callsOf_append, callsOf_append, callsOf_fires, calls, List.append_nil]
    simp only [attempt]
    exact List.suffix_append _ _

/-- A move keeps a poll flying. -/
theorem Reachable.flies_move (h : s.Reachable a) (ih : Flies a s run) (m : Move σ) :
    Flies a (s.move a m) run := by
  intro y hy once flying
  have earlier : FiresOnce (s.journalOf run) := by
    obtain ⟨es, journal, -⟩ := journalOf_move (a := a) h.sound m run
    exact once.of_prefix ⟨es, journal.symm⟩
  have sequence := h.inSequence run
  cases move_effect a h.sound m run with
  | other aside shifts =>
    obtain ⟨x, hx, hp, same⟩ := shifts.lookup hy
    rw [shifts.inFlight, Nat.add_zero] at flying
    obtain ⟨pending, calls⟩ := ih x hx earlier flying
    rw [shifts.journal, callsOf_append, callsOf_fires, List.append_nil, same]
    exact ⟨Promise.orCancelled_trans pending hp, calls⟩
  | start new fresh ran =>
    obtain ⟨-, -, inFlight, -⟩ := h.sound.unknown run (by simp [new])
    exact ran.flies inFlight y hy once flying
  | attempt taken ran =>
    obtain ⟨-, -, inFlight⟩ := sequence.attempt_taken h.sound ran.lookup earlier taken
    exact ran.flies inFlight y hy once flying
  | @pollEnded l ending x k taken ran =>
    -- the poll whose end is taken was the only one
    obtain ⟨-, -, inFlight⟩ := sequence.pollEnded_taken h.sound ran.lookup earlier taken
    obtain ⟨es, os, takes⟩ := a.pollEnded_takes run l.time ending (s.frame run x)
    obtain ⟨p, -, grown⟩ := ran.grown takes.grows
    rw [grown.inFlight, takes.unwatched] at flying
    exact absurd flying (by change ¬ 0 < ({ s with loop := l } : Session σ).inFlight run + 0; omega)
  | @settled l x k taken ran =>
    obtain ⟨es, os, tidies⟩ := a.settled_tidies (s.frame run x)
    obtain ⟨settled, -, -⟩ := h.settling_taken ran.lookup taken
    have grown := ran.grown_of_isSettled tidies.toGrows settled
    obtain rfl := Option.some.inj (grown.lookup.symm.trans hy)
    rw [grown.inFlight, tidies.unwatched, Nat.add_zero] at flying
    obtain ⟨pending, calls⟩ := ih x ran.lookup earlier
      ((h.sound.settled_taken taken).2 ▸ flying)
    refine ⟨pending, ?_⟩
    have attempt : (a.settled (s.frame run x)).2.execution.attempt = x.attempt := tidies.attempt
    rw [grown.journal, callsOf_append, callsOf_append, callsOf_fires, callsOf_eq_nil
      fun e he => Event.isCall_of_isTidying (tidies.tidying e he),
      List.append_nil, List.append_nil]
    simp only [attempt]
    exact calls

/-- In every session that can be reached, a poll that is in flight flies. -/
theorem Reachable.flies (h : s.Reachable a) (run : RunId) : Flies a s run := by
  induction h with
  | init time caller => exact fun x hx => absurd hx (by simp)
  | move m h ih => exact h.flies_move ih m

/-- The turn that takes the end of a poll without an outcome calls nothing, and settles the promise with that
end if it is still pending. -/
theorem Reachable.turn_unjudged (h : s.Reachable a) (once : FiresOnce (s.journalOf run)) {ending : Ending}
    (unjudged : ending.outcome? = none) {l : EventLoop Callback}
    (taken : s.loop.take = (some (.pollEnded run ending), l)) :
    ∃ k p q es, (s.journalOf run).countP Event.isPolled = k ∧
      a.waiter.polling k <:+ callsOf (s.journalOf run) ∧ s.promise? run = some p ∧
      Quiesces s (s.move a .turn) run q es ∧ q.isSettled = true ∧
      ((p = .pending ∧ q = ending.promise) ∨ (p = .cancelled ∧ q = .cancelled)) := by
  have landing : 0 < s.inFlight run := by
    have one := (h.sound.pollEnded_taken taken).2
    omega
  cases move_effect a h.sound .turn run with
  | other aside shifts =>
    exact absurd (aside _ _ taken _ (Callback.isPollEnded_mem_sorts run)) (by simp [Callback.isPollEnded])
  | start new fresh ran =>
    obtain ⟨-, -, inFlight, -⟩ := h.sound.unknown run (by simp [new])
    omega
  | attempt taken' ran => exact absurd (taken.symm.trans taken') (by simp)
  | settled taken' ran => exact absurd (taken.symm.trans taken') (by simp)
  | @pollEnded l' ending' x k taken' ran =>
    obtain ⟨same, rfl⟩ := Prod.mk.inj (taken.symm.trans taken')
    obtain ⟨-, rfl⟩ := Callback.pollEnded.inj (Option.some.inj same)
    have hx : s.runs[run]? = some x := ran.lookup
    obtain ⟨flying, calls⟩ := h.flies run x hx once landing
    have polls := ((h.inSequence run).pollEnded_taken h.sound hx once taken).1.countP_isPolled rfl
    have promise : s.promise? run = some x.promise := by rw [promise?, hx, Option.map_some]
    have entered : Quiesces s ({ s with loop := l }.enter run (.ended ending)) run x.promise
        [.ended ending] :=
      ⟨journalOf_enter s l run _, by simp [Event.isCall], promise⟩
    -- a promise that has been cancelled meanwhile stays so
    rcases flying.of_pending rfl with pending | cancelled
    · have unsettled : x.promise.isSettled = false := by rw [pending]; rfl
      obtain ⟨es, os, grows, uncalled, ends, settled⟩ :=
        a.pollEnded_unjudged run l.time unjudged (f := s.frame run x) unsettled
      obtain ⟨q, hq, grown⟩ := ran.grown grows
      rw [ends] at hq
      obtain rfl := Promise.eq_of_orCancelled hq settled
      have quiet : Quiesces ({ s with loop := l }.enter run (.ended ending)) (s.move a .turn) run
          ending.promise (es ++ List.replicate k Event.fired) := by
        refine ⟨by rw [grown.journal, List.append_assoc], ?_, by rw [promise?, grown.lookup]; rfl⟩
        exact List.forall_mem_append.2 ⟨uncalled, isCall_fires k⟩
      exact ⟨_, _, _, _, polls, calls, promise, entered.trans quiet, settled, .inl ⟨pending, rfl⟩⟩
    · have settled : x.promise.isSettled = true := by rw [cancelled]; rfl
      obtain ⟨es, os, tidies⟩ := a.pollEnded_tidies run l.time ending (f := s.frame run x) settled
      exact ⟨_, _, _, _, polls, calls, promise, entered.trans (ran.quiesces tidies settled), settled,
        .inr ⟨cancelled, cancelled⟩⟩

/-- The end of a poll that has no outcome is taken from the loop in its turn. Until then and from then on the
execution calls nothing: the last calls are the hook for the attempt and the operation. -/
theorem Reachable.lands_unjudged (h : s.Reachable a) {ending : Ending} (unjudged : ending.outcome? = none)
    (ended : .pollEnded run ending ∈ s.ready) (ms : List (Move σ))
    (turns : s.ready.length ≤ ms.countP Move.isTurn) (once : FiresOnce ((s.moves a ms).journalOf run)) :
    ∃ before after l k, ms = before ++ .turn :: after ∧
      (s.moves a before).loop.take = (some (.pollEnded run ending), l) ∧
      ((s.moves a ms).journalOf run).countP Event.isPolled = k ∧
      a.waiter.polling k <:+ callsOf ((s.moves a ms).journalOf run) ∧
      (((s.moves a before).promise? run = some .pending ∧
          (s.moves a ms).promise? run = some ending.promise) ∨
        ((s.moves a before).promise? run = some .cancelled ∧
          (s.moves a ms).promise? run = some .cancelled)) := by
  obtain ⟨before, after, l, rfl, taken⟩ :=
    h.exists_taken (n := s.ready.length) rfl (by rwa [List.take_length]) ms turns
  have split : s.moves a (before ++ .turn :: after) =
      ((s.moves a before).move a .turn).moves a after := moves_append a s before _
  have reached : (s.moves a before).Reachable a := h.moves before
  have earlier : FiresOnce ((s.moves a before).journalOf run) := by
    rw [moves_append] at once
    exact once.of_prefix (reached.sound.journalOf_moves_prefix _ run)
  obtain ⟨k, p, q, es, polls, calls, promise, lands, settled, ends⟩ :=
    reached.turn_unjudged earlier unjudged taken
  -- whatever happens after the turn is quiet, because the promise is settled by then
  obtain ⟨es', rests⟩ := (reached.move .turn).quiesces lands.promise settled after
  have quiet := lands.trans rests
  rw [split]
  refine ⟨before, after, l, k, rfl, taken, ?_, ?_, ?_⟩
  · rw [quiet.journal, List.countP_append, polls, (countP_eq_zero_of_uncalled quiet.uncalled).2,
      Nat.add_zero]
  · rw [quiet.journal, callsOf_append, callsOf_eq_nil quiet.uncalled, List.append_nil]
    exact calls
  · rcases ends with ⟨rfl, rfl⟩ | ⟨rfl, rfl⟩
    · exact .inl ⟨promise, quiet.promise⟩
    · exact .inr ⟨promise, quiet.promise⟩

/-- When a poll ends, the execution that watches it is called back. -/
theorem mem_ready_finish {poll : PollId} (watched : (poll, run) ∈ s.watched) (unended : s.ending? poll = none)
    (ending : Ending) : .pollEnded run ending ∈ (s.finish poll ending).ready := by
  have watcher : (poll, run) ∈ s.watched.filter (·.1 == poll) := List.mem_filter.2 ⟨watched, by simp⟩
  simp only [finish, unended, foldl_soon_pollEnded, ready]
  refine List.mem_append_right _ (List.mem_append_right _ ?_)
  exact List.mem_map.2 ⟨_, watcher, rfl⟩

/-- So it is when code of the caller's ends the poll outside of all callbacks. -/
theorem mem_ready_outside {poll : PollId} (idle : s.caller.requests = []) (watched : (poll, run) ∈ s.watched)
    (unended : s.ending? poll = none) (serving : RunId) (ending : Ending) :
    .pollEnded run ending ∈ (s.move a (.outside serving (Code.ask (.finish poll ending)))).ready := by
  have asked : s.move a (.outside serving (Code.ask (.finish poll ending))) =
      finish { s with caller := { s.caller with serving, requests := [] } } poll ending := by
    simp [Session.move, serve, Code.ask, idle, answer]
  rw [asked]
  exact mem_ready_finish (s := { s with caller := { s.caller with serving, requests := [] } })
    watched unended ending

/-- It is called back as well if the poll had ended before. -/
theorem mem_ready_watch {poll : PollId} {ending : Ending} (ended : s.ending? poll = some ending) :
    .pollEnded run ending ∈ (s.watch run poll).ready := by
  simp [watch, ended, soon, ready, EventLoop.soon]

end Session

/-- A poll that ends without an outcome is never judged.

A blocking run raises the fault of the operation if it is not ordinary, whatever the acceptors accept. The
hook for that attempt and the operation are the last things that it has called.

The end of a poll of an execution is taken in its turn, if the scheduler calls back no more often than it was
asked to. If it is not an outcome, the hook for that attempt and the operation are the last things that the
execution has called, then and ever after. A promise that is pending when the end is taken becomes what the
end is: it is rejected with the very fault, or cancelled. Any other promise has been cancelled by somebody
before. -/
theorem polls_unjudged :
    (∀ (b : Blocking σ) (w : World σ), ∃ es, (b.run w).2.history = w.history ++ es ∧
      ∀ before k after e, es = before ++ .polled k :: after →
        (b.operation k (replay b.answer w.caller before)).1 = .error e → e.isOrdinary = false →
        (b.run w).1 = .error e ∧ after = [] ∧ b.waiter.polling k <:+ callsOf es) ∧
    ∀ (a : Asynchronous σ) (s : Session σ), s.Reachable a → ∀ run ending, ending.outcome? = none →
      .pollEnded run ending ∈ s.ready → ∀ ms, s.ready.length ≤ ms.countP Move.isTurn →
      FiresOnce ((s.moves a ms).journalOf run) →
      ∃ before after l k, ms = before ++ .turn :: after ∧
        (s.moves a before).loop.take = (some (.pollEnded run ending), l) ∧
        ((s.moves a ms).journalOf run).countP Event.isPolled = k ∧
        a.waiter.polling k <:+ callsOf ((s.moves a ms).journalOf run) ∧
        (((s.moves a before).promise? run = some .pending ∧
            (s.moves a ms).promise? run = some ending.promise) ∨
          ((s.moves a before).promise? run = some .cancelled ∧
            (s.moves a ms).promise? run = some .cancelled)) :=
  ⟨fun b w => b.run_unjudged w, fun _ _ reachable _ _ unjudged ended ms turns once =>
    reachable.lands_unjudged unjudged ended ms turns once⟩

/-! ## An example -/

/-- A request to stop that is not about the loop. -/
def Fault.closing : Fault := .plain .generatorExit []

/-- Up to five attempts with all hooks. Every fault whatever counts as success. -/
def Waiter.lenient : Waiter Unit where
  strategy := ⟨5, .custom "" fun _ => pure (.number .instant), by omega⟩
  acceptors := [.onFaultTest .success (.kinds (.kind .root))]
  scheduler := some (.custom (fun _ _ => pure 0) fun _ => pure ())
  hooks := some .listening

/-- A lenient wait whose operation returns at first, and is told to stop in its second call. -/
def Blocking.closing : Blocking Unit where
  waiter := .lenient
  clock _ := .finite false 0
  sleep _ := pure ()
  operation call := fun c => (if call = 1 then .ok .null else .error .closing, c)

/-- Lenient executions whose first poll ends at once, while all later ones stay under way. -/
def Asynchronous.closing : Asynchronous Unit where
  waiter := .lenient
  operation _ call := do
    if call = 1 then Code.ask (.finish call (.value .null))
    return .poll call
  cancelPoll _ := pure ()
  resume _ := pure ()
  wake _ := pure ()

/-- Is the operation called for an attempt? -/
def Event.isPolledFor (k : Nat) : Event → Bool
  | .polled i => i == k
  | _ => false

theorem exists_split_polled {es : List Event} {k : Nat} (h : es.any (Event.isPolledFor k) = true) :
    ∃ before after, es = before ++ Event.polled k :: after := by
  obtain ⟨e, mem, same⟩ := List.any_eq_true.1 h
  obtain ⟨before, after, split⟩ := List.append_of_mem mem
  cases e with
  | polled i =>
    obtain rfl : i = k := by simpa [Event.isPolledFor] using same
    exact ⟨before, after, split⟩
  | _ => cases same

namespace Session

/-- Such an execution after its scheduler has called back so many times. -/
def closing (fires : Nat) : Session Unit :=
  moves .closing { loop := { time := .finite false 0 }, caller := { state := () } } <|
    [.start, .turn] ++ (List.replicate fires [.outside 0 (Code.ask (.fire 0)), .turn]).flatten

theorem closing_reachable (fires : Nat) : (closing fires).Reachable .closing :=
  (Reachable.init _ _).moves _

/-- The second poll is told to stop. -/
def stopping : Move Unit := .outside 0 (Code.ask (.finish 2 (.fault .closing)))

/-- The second poll is told to stop. The acceptor of all faults never gets to see that. -/
theorem polls_unjudged_closing :
    ((Blocking.closing.run ⟨⟨(), 0, []⟩, []⟩).1 = .error .closing ∧
      Waiter.lenient.polling 2 <:+ callsOf (Blocking.closing.run ⟨⟨(), 0, []⟩, []⟩).2.history) ∧
    (((closing 1).move .closing stopping).moves .closing [.turn]).promise? 0 = some (.rejected .closing) ∧
    Waiter.lenient.polling 2 <:+
      callsOf ((((closing 1).move .closing stopping).moves .closing [.turn]).journalOf 0) := by
  obtain ⟨blocking, asynchronous⟩ := @polls_unjudged Unit
  constructor
  · obtain ⟨es, history, ends⟩ := blocking .closing ⟨⟨(), 0, []⟩, []⟩
    have polled : (Blocking.closing.run ⟨⟨(), 0, []⟩, []⟩).2.history.any (Event.isPolledFor 2) = true := by
      decide +kernel
    rw [history, List.nil_append] at polled ⊢
    obtain ⟨before, after, split⟩ := exists_split_polled polled
    obtain ⟨raised, -, calls⟩ := ends before 2 after .closing split rfl (by decide +kernel)
    exact ⟨raised, calls⟩
  · have idle : (closing 1).caller.requests.isEmpty = true := by decide +kernel
    have unended : ((closing 1).ending? 2).isNone = true := by decide +kernel
    have ended : .pollEnded 0 (.fault .closing) ∈ ((closing 1).move .closing stopping).ready :=
      mem_ready_outside (List.isEmpty_iff.1 idle) (by decide +kernel) (Option.isNone_iff_eq_none.1 unended)
        0 _
    have turns : ((closing 1).move .closing stopping).ready.length ≤
      ([.turn] : List (Move Unit)).countP Move.isTurn := by decide +kernel
    have once : FiresOnce ((((closing 1).move .closing stopping).moves .closing [.turn]).journalOf 0) := by
      decide +kernel
    have unjudged : (Ending.fault .closing).outcome? = none := rfl
    obtain ⟨before, after, l, k, -, -, polls, calls, ends⟩ := asynchronous .closing _
      ((closing_reachable 1).move stopping) 0 _ unjudged ended [.turn] turns once
    have twice : ((((closing 1).move .closing stopping).moves .closing [.turn]).journalOf 0).countP
      Event.isPolled = 2 := by decide +kernel
    have uncancelled : (((closing 1).move .closing stopping).moves .closing [.turn]).promise? 0 ≠
      some .cancelled := by decide +kernel
    obtain rfl : k = 2 := polls.symm.trans twice
    rcases ends with ⟨-, promise⟩ | ⟨-, cancelled⟩
    · exact ⟨promise, calls⟩
    · exact absurd cancelled uncancelled

/-- Somebody cancels the promise. -/
def recanting : Move Unit := .outside 0 (Code.ask (.cancel 0))

/-- The promise does not become what the end is if it has been cancelled before. And a scheduler that calls
back twice has the operation called again while the poll is in flight that ends. -/
theorem unjudged_not_last :
    (¬ ∀ (s : Session Unit) (ms : List (Move Unit)), s.Reachable .closing →
      .pollEnded 0 (.fault .closing) ∈ s.ready → s.ready.length ≤ ms.countP Move.isTurn →
      FiresOnce ((s.moves .closing ms).journalOf 0) →
      (s.moves .closing ms).promise? 0 = some (.rejected .closing)) ∧
    ¬ ∀ (s : Session Unit) (ms : List (Move Unit)), s.Reachable .closing → (2, 0) ∈ s.watched →
      (s.move .closing stopping).ready.length ≤ ms.countP Move.isTurn → ∀ before after,
      ((s.move .closing stopping).moves .closing ms).journalOf 0 = before ++ .polled 2 :: after →
      ∀ e ∈ after, e.isCall = false := by
  constructor
  · intro rejects
    have idle : ((closing 1).move .closing recanting).caller.requests.isEmpty = true := by decide +kernel
    have unended : (((closing 1).move .closing recanting).ending? 2).isNone = true := by decide +kernel
    have ended : .pollEnded 0 (.fault .closing) ∈
        (((closing 1).move .closing recanting).move .closing stopping).ready :=
      mem_ready_outside (List.isEmpty_iff.1 idle) (by decide +kernel) (Option.isNone_iff_eq_none.1 unended)
        0 _
    have rejected := rejects (((closing 1).move .closing recanting).move .closing stopping) [.turn, .turn]
      (((closing_reachable 1).move recanting).move stopping) ended (by decide +kernel) (by decide +kernel)
    have cancelled : ((((closing 1).move .closing recanting).move .closing stopping).moves .closing
        [.turn, .turn]).promise? 0 = some .cancelled := by decide +kernel
    exact nomatch cancelled.symm.trans rejected
  · intro quiet
    have polled : ((((closing 2).move .closing stopping).moves .closing [.turn]).journalOf 0).any
        (Event.isPolledFor 2) = true := by decide +kernel
    obtain ⟨before, after, split⟩ := exists_split_polled polled
    have uncalled := quiet (closing 2) [.turn] (closing_reachable 2) (by decide +kernel)
      (by decide +kernel) before after split
    -- so the second call of the operation would be the last call, but there is a third one
    have last : ((callsOf ((((closing 2).move .closing stopping).moves .closing
        [.turn]).journalOf 0)).getLast?.any (Event.isPolledFor 2)) = false := by decide +kernel
    have calls : callsOf ((((closing 2).move .closing stopping).moves .closing [.turn]).journalOf 0) =
        callsOf before ++ [.polled 2] := by
      rw [split, List.append_cons, callsOf_append, callsOf_eq_nil uncalled, List.append_nil, callsOf_append]
      rfl
    rw [calls, List.getLast?_concat] at last
    cases last

end Session

end Polling
