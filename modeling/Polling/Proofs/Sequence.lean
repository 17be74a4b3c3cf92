import Polling.Proofs.Moves
import Polling.Proofs.Rounds

/-!
# Attempts come one after another

An execution never has more than one thing to come: a poll whose result has not been taken, a call of
the scheduler, or a queued attempt. The invariant behind this is `Session.InSequence`: as long as the
scheduler calls back no more often than it was asked to, the journal of an execution follows a course,
and what is to come for it is what the phase of the course says.

Whatever the scheduler does, a promise that is settled stays as it is, and its settling is passed on
once.
-/

namespace Polling

namespace Phase

/-- What is to come for an execution at a phase between callbacks: queued attempts and polls in flight.
The number of the attempt is that of the phase. -/
def Stands : Phase → (due inFlight attempt : Nat) → Prop
  | due n, d, w, k => d = 1 ∧ w = 0 ∧ k = n
  | polling n, d, w, k => d = 0 ∧ w = 1 ∧ k = n
  | judging _ _, _, _, _ => False
  | waiting n, d, w, k => d = 0 ∧ w = 0 ∧ k = n
  | closed, d, w, _ => d = 0 ∧ w = 0

/-- At most one thing is to come. -/
theorem Stands.le_one {p : Phase} {d w k : Nat} (h : p.Stands d w k) : w + p.unfired + d ≤ 1 := by
  cases p <;> simp only [Stands, unfired] at h ⊢ <;> omega

/-- An attempt is queued in one phase only. -/
theorem Stands.eq_due {p : Phase} {d w k : Nat} (h : p.Stands (1 + d) w k) :
    p = .due k ∧ d = 0 ∧ w = 0 := by
  cases p with
  | due n =>
    obtain ⟨hd, hw, rfl⟩ := h
    exact ⟨rfl, by omega, hw⟩
  | judging n o => exact h.elim
  | _ => exact absurd h.1 (by omega)

/-- A poll is in flight in one phase only. -/
theorem Stands.eq_polling {p : Phase} {d w k : Nat} (h : p.Stands d (1 + w) k) :
    p = .polling k ∧ d = 0 ∧ w = 0 := by
  cases p with
  | polling n =>
    obtain ⟨hd, hw, rfl⟩ := h
    exact ⟨rfl, hd, by omega⟩
  | judging n o => exact h.elim
  | closed => exact absurd h.2 (by omega)
  | _ => exact absurd h.2.1 (by omega)

end Phase

/-! ## The course through a callback -/

namespace Asynchronous

variable {a : Asynchronous σ} {run : RunId} {f f' : Frame σ} {es J : List Event} {os : List Order}

/-- After an outcome, the next attempt waits with the scheduler, or nothing is to come. -/
theorem Concludes.course {o : Outcome} {n : Nat} (h : a.Concludes run o n f f' es os)
    (hc : Course a run (.judging n o) J) : ∃ p, Course a run p (J ++ es) ∧ p.Stands 0 0 n := by
  rcases h.entries with quiet | ⟨d, E, q, q', rfl, evaluates, quiet, quiet'⟩
  · exact ⟨.closed, (hc.note quiet).stop (by simp), rfl, rfl⟩
  · refine ⟨.waiting n, ?_, rfl, rfl, rfl⟩
    rw [← List.append_assoc]
    exact (hc.delay evaluates quiet).note quiet'

/-- An attempt that is due is run. -/
theorem Attempts.course (h : a.Attempts run f f' es os)
    (hc : Course a run (.due f.execution.attempt) J) :
    ∃ p, Course a run p (J ++ es) ∧
      p.Stands 0 (os.countP Order.isWatch) f'.execution.attempt := by
  cases h with
  | stops grows quiet unwatched settles =>
    exact ⟨.closed, (hc.note quiet).stop (by simp), rfl, unwatched⟩
  | polls grows quiet watched attempt =>
    refine ⟨.polling (f.execution.attempt + 1), ?_, rfl, watched, attempt⟩
    rw [← List.append_assoc]
    exact (hc.note quiet).call
  | fails grows quiet unwatched attempt fails concludes =>
    have judged := ((hc.note quiet).call).fail fails
    obtain ⟨p, course, stands⟩ := concludes.course judged
    refine ⟨p, by simpa using course, ?_⟩
    rw [List.countP_append, unwatched, concludes.evolves.unwatched, concludes.evolves.rest]
    simpa [attempt] using stands

/-- The result of a poll is taken. -/
theorem Takes.course {ending : Ending} (h : a.Takes run ending f f' es os)
    (hc : Course a run (.polling f.execution.attempt) J) :
    ∃ p, Course a run p (J ++ [Event.ended ending] ++ es) ∧
      p.Stands 0 (os.countP Order.isWatch) f'.execution.attempt := by
  rw [h.unwatched, h.attempt]
  rcases h.result with ⟨quiet, settled⟩ | ⟨o, g, ho, concludes⟩
  · exact ⟨.closed, hc.late.note quiet, rfl, rfl⟩
  · exact concludes.course (hc.answer ho)

/-- Concluding does not call the operation. -/
theorem Concludes.countP_isPolled {o : Outcome} {n : Nat} (h : a.Concludes run o n f f' es os) :
    es.countP Event.isPolled = 0 := by
  rcases h.entries with quiet | ⟨d, E, q, q', rfl, evaluates, quiet, quiet'⟩
  · exact countP_isPolled_quiet quiet
  · simp [countP_isPolled_quiet, evaluates.quiet, quiet, quiet', Event.isPolled]

/-- An attempt calls the operation at most once. -/
theorem Attempts.countP_isPolled (h : a.Attempts run f f' es os) :
    es.countP Event.isPolled ≤ 1 := by
  cases h with
  | stops grows quiet => simp [countP_isPolled_quiet quiet]
  | polls grows quiet => simp [countP_isPolled_quiet quiet, Event.isPolled]
  | fails grows quiet unwatched attempt fails concludes =>
    simp [List.countP_cons, countP_isPolled_quiet quiet, concludes.countP_isPolled,
      Event.isPolled]

/-- Taking the result of a poll does not call the operation. -/
theorem Takes.countP_isPolled {ending : Ending} (h : a.Takes run ending f f' es os) :
    es.countP Event.isPolled = 0 := by
  rcases h.result with ⟨quiet, -⟩ | ⟨o, g, -, concludes⟩
  · exact countP_isPolled_quiet quiet
  · exact concludes.countP_isPolled

end Asynchronous

/-- What follows is a call of the scheduler for each time that it was asked to call back. -/
theorem Course.fires {a : Asynchronous σ} {run : RunId} {p : Phase} {J : List Event} {d w n : Nat}
    (hc : Course a run p J) (stands : p.Stands d w n) (k : Nat)
    (once : FiresOnce (J ++ List.replicate k Event.fired)) :
    ∃ p', Course a run p' (J ++ List.replicate k Event.fired) ∧ p'.Stands (d + k) w n := by
  induction k generalizing p J d with
  | zero => exact ⟨p, by simpa using hc, stands⟩
  | succ k ih =>
    -- the first call finds the execution waiting and makes its next attempt due
    rw [List.replicate_succ] at once ⊢
    obtain ⟨m, rfl⟩ := hc.unfired_of_fired once
    obtain ⟨rfl, rfl, rfl⟩ := stands
    have due : Phase.Stands (.due n) 1 0 n := ⟨rfl, rfl, rfl⟩
    obtain ⟨p', course, stands⟩ := ih hc.fire due (by simpa using once)
    exact ⟨p', by simpa using course, by rwa [Nat.zero_add, Nat.add_comm]⟩

namespace Session

variable {a : Asynchronous σ} {s s' : Session σ} {run : RunId}

/-- The journal of an execution follows a course, and what is to come for it is what the phase says. -/
def InSequence (a : Asynchronous σ) (s : Session σ) (run : RunId) : Prop :=
  ∀ x, s.runs[run]? = some x → FiresOnce (s.journalOf run) →
    ∃ p, Course a run p (s.journalOf run) ∧ p.Stands (s.due run) (s.inFlight run) x.attempt

/-- A callback keeps the sequence if it keeps the course. -/
theorem Grown.inSequence {x x' : Execution} {es : List Event} {w k : Nat}
    (h : Grown s s' run x x' es w k)
    (course : FiresOnce (s.journalOf run ++ es) → ∃ p, Course a run p (s.journalOf run ++ es) ∧
      p.Stands (s.due run) (s.inFlight run + w) x'.attempt) :
    InSequence a s' run := by
  intro y hy once
  obtain rfl : x' = y := Option.some.inj (h.lookup.symm.trans hy)
  rw [h.journal] at once ⊢
  obtain ⟨p, hc, stands⟩ := course (once.of_prefix (List.prefix_append _ _))
  rw [h.due, h.inFlight]
  exact hc.fires stands k once

/-- An attempt that is taken from the loop is the one thing that was to come. -/
theorem InSequence.attempt_taken (h : s.Sound) (ih : InSequence a s run) {x : Execution}
    (hx : s.runs[run]? = some x) (once : FiresOnce (s.journalOf run)) {l : EventLoop Callback}
    (taken : s.loop.take = (some (.attempt run), l)) :
    Course a run (.due x.attempt) (s.journalOf run) ∧
      { s with loop := l }.due run = 0 ∧ { s with loop := l }.inFlight run = 0 := by
  obtain ⟨p, course, stands⟩ := ih x hx once
  obtain ⟨due, inFlight⟩ := h.attempt_taken taken
  rw [due, inFlight] at stands
  obtain ⟨rfl, none_due, none_flying⟩ := stands.eq_due
  exact ⟨course, none_due, none_flying⟩

/-- A poll whose result is taken from the loop is the one thing that was to come. -/
theorem InSequence.pollEnded_taken (h : s.Sound) (ih : InSequence a s run) {x : Execution}
    (hx : s.runs[run]? = some x) (once : FiresOnce (s.journalOf run)) {l : EventLoop Callback}
    {ending : Ending} (taken : s.loop.take = (some (.pollEnded run ending), l)) :
    Course a run (.polling x.attempt) (s.journalOf run) ∧
      { s with loop := l }.due run = 0 ∧ { s with loop := l }.inFlight run = 0 := by
  obtain ⟨p, course, stands⟩ := ih x hx once
  obtain ⟨due, inFlight⟩ := h.pollEnded_taken taken
  rw [due, inFlight] at stands
  obtain ⟨rfl, none_due, none_flying⟩ := stands.eq_polling
  exact ⟨course, none_due, none_flying⟩

/-- A move keeps the sequence of every execution. -/
theorem InSequence.move (h : s.Sound) (ih : InSequence a s run) (m : Move σ) :
    InSequence a (s.move a m) run := by
  cases move_effect a h m run with
  | other aside shifts =>
    -- nothing but calls of the scheduler can come in from outside
    intro y hy once
    obtain ⟨x, hx, -, same⟩ := shifts.lookup hy
    rw [shifts.journal] at once ⊢
    obtain ⟨p, hc, stands⟩ := ih x hx (once.of_prefix (List.prefix_append _ _))
    rw [shifts.due, shifts.inFlight, same]
    exact hc.fires stands _ once
  | @start x k new fresh ran =>
    obtain ⟨journal, due, inFlight, -⟩ := h.unknown run (by simp [new])
    obtain ⟨es, os, attempts⟩ := a.attempt_attempts run s.loop.time (s.frame run x)
    obtain ⟨p, -, grown⟩ := ran.grown attempts.grows
    apply grown.inSequence
    intro _
    have begins : Course a run (.due (s.frame run x).execution.attempt) ((s.add x).journalOf run) := by
      rw [show (s.add x).journalOf run = [] from journal, fresh]
      exact .start
    obtain ⟨p, course, stands⟩ := attempts.course begins
    refine ⟨p, course, ?_⟩
    rw [show (s.add x).due run = 0 from due, show (s.add x).inFlight run = 0 from inFlight, Nat.zero_add]
    exact stands
  | @attempt l x k taken ran =>
    obtain ⟨es, os, attempts⟩ := a.attempt_attempts run l.time (s.frame run x)
    obtain ⟨p, -, grown⟩ := ran.grown attempts.grows
    apply grown.inSequence
    intro once
    obtain ⟨hc, none_due, none_flying⟩ :=
      ih.attempt_taken h ran.lookup (once.of_prefix (List.prefix_append _ _)) taken
    obtain ⟨p, course, stands⟩ := attempts.course (f := s.frame run x) hc
    refine ⟨p, course, ?_⟩
    rw [none_due, none_flying, Nat.zero_add]
    exact stands
  | @pollEnded l ending x k taken ran =>
    obtain ⟨es, os, takes⟩ := a.pollEnded_takes run l.time ending (s.frame run x)
    obtain ⟨p, -, grown⟩ := ran.grown takes.grows
    apply grown.inSequence
    intro once
    rw [journalOf_enter] at once ⊢
    rw [List.append_assoc] at once
    obtain ⟨hc, none_due, none_flying⟩ :=
      ih.pollEnded_taken h ran.lookup (once.of_prefix (List.prefix_append _ _)) taken
    obtain ⟨p, course, stands⟩ := takes.course (f := s.frame run x) hc
    refine ⟨p, course, ?_⟩
    change p.Stands ({ s with loop := l }.due run) ({ s with loop := l }.inFlight run + _) _
    rw [none_due, none_flying, Nat.zero_add]
    exact stands
  | @settled l x k taken ran =>
    obtain ⟨es, os, tidies⟩ := a.settled_tidies (s.frame run x)
    obtain ⟨p, -, grown⟩ := ran.grown tidies.toGrows
    apply grown.inSequence
    intro once
    obtain ⟨q, hc, stands⟩ := ih x ran.lookup (once.of_prefix (List.prefix_append _ _))
    obtain ⟨due, inFlight⟩ := h.settled_taken taken
    rw [due, inFlight] at stands
    refine ⟨q, hc.note (quiet_of_isTidying tidies.tidying), ?_⟩
    rw [tidies.unwatched, Nat.add_zero]
    change q.Stands _ _ (a.settled (s.frame run x)).2.execution.attempt
    rw [tidies.attempt]
    exact stands

/-- In every session that can be reached, every execution is in sequence. -/
theorem Reachable.inSequence (h : s.Reachable a) (run : RunId) : InSequence a s run := by
  induction h with
  | init time caller => exact fun x hx => absurd hx (by simp)
  | move m h ih => exact ih.move h.sound m

/-! ## What holds whatever the scheduler does -/

theorem countP_isPolled_fires (k : Nat) :
    (List.replicate k Event.fired).countP Event.isPolled = 0 := by
  simp [List.countP_replicate, Event.isPolled]

/-- A move adds to the journal of an execution, and calls its operation at most once. -/
theorem journalOf_move (h : s.Sound) (m : Move σ) (run : RunId) :
    ∃ es, (s.move a m).journalOf run = s.journalOf run ++ es ∧ es.countP Event.isPolled ≤ 1 := by
  -- an attempt calls the operation once or not at all, and nothing else does
  cases move_effect a h m run with
  | @other k aside shifts => exact ⟨_, shifts.journal, by simp [countP_isPolled_fires]⟩
  | @start x k new fresh ran =>
    obtain ⟨es, os, attempts⟩ := a.attempt_attempts run s.loop.time (s.frame run x)
    obtain ⟨p, -, grown⟩ := ran.grown attempts.grows
    refine ⟨es ++ List.replicate k Event.fired, grown.journal.trans (List.append_assoc _ _ _), ?_⟩
    simpa [countP_isPolled_fires] using attempts.countP_isPolled
  | @attempt l x k taken ran =>
    obtain ⟨es, os, attempts⟩ := a.attempt_attempts run l.time (s.frame run x)
    obtain ⟨p, -, grown⟩ := ran.grown attempts.grows
    refine ⟨es ++ List.replicate k Event.fired, grown.journal.trans (List.append_assoc _ _ _), ?_⟩
    simpa [countP_isPolled_fires] using attempts.countP_isPolled
  | @pollEnded l ending x k taken ran =>
    obtain ⟨es, os, takes⟩ := a.pollEnded_takes run l.time ending (s.frame run x)
    obtain ⟨p, -, grown⟩ := ran.grown takes.grows
    refine ⟨[Event.ended ending] ++ es ++ List.replicate k Event.fired, ?_, ?_⟩
    · rw [grown.journal, journalOf_enter, List.append_assoc, List.append_assoc, List.append_assoc]
    · simp [countP_isPolled_fires, takes.countP_isPolled, Event.isPolled]
  | @settled l x k taken ran =>
    obtain ⟨es, os, tidies⟩ := a.settled_tidies (s.frame run x)
    obtain ⟨p, -, grown⟩ := ran.grown tidies.toGrows
    refine ⟨es ++ List.replicate k Event.fired, grown.journal.trans (List.append_assoc _ _ _), ?_⟩
    simp [countP_isPolled_fires, countP_isPolled_quiet (quiet_of_isTidying tidies.tidying)]

/-- Moves only add to the journal of an execution. -/
theorem Sound.journalOf_moves_prefix (h : s.Sound) (ms : List (Move σ)) (run : RunId) :
    s.journalOf run <+: (s.moves a ms).journalOf run := by
  induction ms generalizing s with
  | nil => exact List.prefix_refl _
  | cons m rest ih =>
    obtain ⟨es, journal, -⟩ := journalOf_move (a := a) h m run
    have first : s.journalOf run <+: (s.move a m).journalOf run := ⟨es, journal.symm⟩
    exact first.trans (ih (h.move a m))

/-- A callback of an execution keeps a promise that is settled, and passes a settling on once. -/
theorem Ran.promise {s₀ : Session σ} {x : Execution} {f : Frame σ} {k : Nat} (h : Ran s s' run x f k)
    {es : List Event} {os : List Order} (grows : Frame.Grows (s₀.frame run x) f es os) :
    ∃ x', s'.runs[run]? = some x' ∧
      (x.promise.isSettled = true → x'.promise = x.promise) ∧
      s'.settlings run + x.promise.isSettled.toNat =
        s.settlings run + x'.promise.isSettled.toNat := by
  obtain ⟨p, -, grown⟩ := h.grown grows
  refine ⟨_, grown.lookup, ?_, grown.settlings⟩
  intro settled
  have kept := (h.grown_of_isSettled grows settled).lookup
  have same := congrArg Execution.promise (Option.some.inj (grown.lookup.symm.trans kept))
  exact same

/-- What a move does to the promise of an execution that was started: a promise that is settled is kept,
and a settling is passed on once. -/
theorem promise_move (h : s.Sound) (m : Move σ) {x : Execution} (hx : s.runs[run]? = some x) :
    ∃ x', (s.move a m).runs[run]? = some x' ∧
      (x.promise.isSettled = true → x'.promise = x.promise) ∧
      (s.move a m).settlings run + x.promise.isSettled.toNat ≤
        s.settlings run + x'.promise.isSettled.toNat := by
  -- what is taken from the loop is one settling less at most
  have popped : ∀ {c l}, s.loop.take = (some c, l) →
      ({ s with loop := l } : Session σ).settlings run ≤ s.settlings run := fun taken => by
    have count := (h.taken taken run).2.2
    omega
  cases move_effect a h m run with
  | other aside shifts =>
    obtain ⟨p, hp, hx'⟩ := shifts.execution x hx
    refine ⟨_, hx', Promise.eq_of_orCancelled hp, ?_⟩
    have settles := shifts.settlings
    simp only [isSettled, hx, hx', Option.map_some, Option.getD_some] at settles
    exact Nat.le_of_eq settles
  | start new fresh ran => exact absurd hx (by simp [new])
  | @attempt l y k taken ran =>
    obtain rfl : y = x := Option.some.inj (ran.lookup.symm.trans hx)
    obtain ⟨es, os, attempts⟩ := a.attempt_attempts run l.time (s.frame run y)
    obtain ⟨x', hx', kept, settlings⟩ := ran.promise attempts.grows
    exact ⟨x', hx', kept, Nat.le_trans (Nat.le_of_eq settlings)
      (Nat.add_le_add_right (popped taken) _)⟩
  | @pollEnded l ending y k taken ran =>
    obtain rfl : y = x := Option.some.inj (ran.lookup.symm.trans hx)
    obtain ⟨es, os, takes⟩ := a.pollEnded_takes run l.time ending (s.frame run y)
    obtain ⟨x', hx', kept, settlings⟩ := ran.promise takes.grows
    exact ⟨x', hx', kept, Nat.le_trans (Nat.le_of_eq settlings)
      (Nat.add_le_add_right (popped taken) _)⟩
  | @settled l y k taken ran =>
    obtain rfl : y = x := Option.some.inj (ran.lookup.symm.trans hx)
    obtain ⟨es, os, tidies⟩ := a.settled_tidies (s.frame run y)
    obtain ⟨x', hx', kept, settlings⟩ := ran.promise tidies.toGrows
    exact ⟨x', hx', kept, Nat.le_trans (Nat.le_of_eq settlings)
      (Nat.add_le_add_right (popped taken) _)⟩

/-- No more settlings of a promise are to be passed on than there are. -/
theorem Reachable.settlings_le (h : s.Reachable a) {x : Execution} (hx : s.runs[run]? = some x) :
    s.settlings run ≤ x.promise.isSettled.toNat := by
  induction h generalizing x with
  | init time caller => exact absurd hx (by simp)
  | @move s m h ih =>
    cases hy : s.runs[run]? with
    | some y =>
      obtain ⟨x', hx', -, settlings⟩ := promise_move h.sound m hy
      obtain rfl := Option.some.inj (hx'.symm.trans hx)
      have bound := ih hy
      omega
    | none =>
      obtain ⟨-, -, -, none⟩ := h.sound.unknown run hy
      -- an execution that was not there can only have been started
      cases move_effect a h.sound m run with
      | other aside shifts => exact absurd hx (by simp [(shifts.unknown hy).2])
      | @start y k new fresh ran =>
        obtain ⟨es, os, attempts⟩ := a.attempt_attempts run s.loop.time (s.frame run y)
        obtain ⟨x', hx', -, settlings⟩ := ran.promise attempts.grows
        obtain rfl := Option.some.inj (hx'.symm.trans hx)
        rw [show (s.add y).settlings run = 0 from none] at settlings
        omega
      | attempt taken ran => exact absurd ran.lookup (by simp [hy])
      | pollEnded taken ran => exact absurd ran.lookup (by simp [enter, hy])
      | settled taken ran => exact absurd ran.lookup (by simp [hy])

/-- The settling of a promise that is taken from the loop is the one there was. -/
theorem Reachable.settling_taken (h : s.Reachable a) {x : Execution} (hx : s.runs[run]? = some x)
    {l : EventLoop Callback} (taken : s.loop.take = (some (.settled run), l)) :
    x.promise.isSettled = true ∧ s.settlings run = 1 ∧
      ({ s with loop := l } : Session σ).settlings run = 0 := by
  have queued : s.settlings run = 1 + ({ s with loop := l } : Session σ).settlings run := by
    simpa [Callback.isSettled] using (h.sound.taken taken run).2.2
  have bound := h.settlings_le hx
  cases settled : x.promise.isSettled with
  | false =>
    rw [settled, Bool.toNat_false] at bound
    omega
  | true =>
    rw [settled, Bool.toNat_true] at bound
    exact ⟨rfl, by omega, by omega⟩

/-- How many of the calls that the scheduler of an execution was asked for are still to come. -/
def unfired (s : Session σ) (run : RunId) : Nat :=
  (s.journalOf run).countP Event.isScheduled - (s.journalOf run).countP Event.isFired

/-- How much is to come for an execution: polls whose result has not been taken, calls of the scheduler,
and queued attempts. -/
def outstanding (s : Session σ) (run : RunId) : Nat :=
  s.inFlight run + s.unfired run + s.due run

/-- The attempts of an execution are strictly sequential, if its scheduler calls back no more often than
it was asked to. At most one thing is to come for it; between two calls of its operation lies a whole
round; no move calls its operation twice; and once its promise is settled, no move changes the promise
or passes its settling on again. -/
theorem Reachable.sequential (h : s.Reachable a) (run : RunId)
    (once : FiresOnce (s.journalOf run)) :
    s.outstanding run ≤ 1 ∧
    (∀ before mid after m n,
      s.journalOf run = before ++ .polled m :: (mid ++ .polled n :: after) →
      (∀ k, Event.polled k ∉ mid) → n = m + 1 ∧ a.Round run m mid) ∧
    (∀ m : Move σ, ∃ es, (s.move a m).journalOf run = s.journalOf run ++ es ∧
      es.countP Event.isPolled ≤ 1) ∧
    ∀ x, s.runs[run]? = some x → s.settlings run ≤ x.promise.isSettled.toNat ∧
      ∀ m : Move σ, ∃ x', (s.move a m).runs[run]? = some x' ∧
        (x.promise.isSettled = true → x'.promise = x.promise ∧
          (s.move a m).settlings run ≤ s.settlings run) := by
  have course : ∃ p, Course a run p (s.journalOf run) ∧
      s.inFlight run + p.unfired + s.due run ≤ 1 := by
    cases hx : s.runs[run]? with
    | none =>
      obtain ⟨journal, due, inFlight, -⟩ := h.sound.unknown run hx
      exact ⟨.due 0, by rw [journal]; exact .start, by simp [due, inFlight, Phase.unfired]⟩
    | some x =>
      obtain ⟨p, hc, stands⟩ := h.inSequence run x hx once
      exact ⟨p, hc, stands.le_one⟩
  obtain ⟨p, hc, bound⟩ := course
  refine ⟨?_, ?_, ?_, ?_⟩
  · -- the calls still to come are counted by the phase
    have balance := hc.countP_isScheduled
    simp only [outstanding, unfired]
    omega
  · intro before mid after m n split none
    exact hc.round split none
  · exact fun m => journalOf_move h.sound m run
  · intro x hx
    refine ⟨h.settlings_le hx, ?_⟩
    intro m
    obtain ⟨x', hx', kept, settlings⟩ := promise_move h.sound m hx
    refine ⟨x', hx', ?_⟩
    intro settled
    have same := kept settled
    rw [same] at settlings
    exact ⟨same, by omega⟩

end Session

/-! ## An example -/

/-- Brisk executions: every poll ends as soon as it is begun. -/
def Asynchronous.brisk (hooks : Hooks Unit) : Asynchronous Unit where
  waiter := .brisk hooks
  operation _ call := do
    Code.ask (.finish call (.value (Outcome.brisk call).value))
    return .poll call
  cancelPoll _ := pure ()
  resume _ := pure ()
  wake _ := pure ()

namespace Session

/-- A session in which a brisk execution has been started and so many turns have been made. -/
def brisk (hooks : Hooks Unit) : (turns : Nat) → Session Unit
  | 0 => move (.brisk hooks) { loop := { time := .finite false 0 }, caller := { state := () } } .start
  | turns + 1 => (brisk hooks turns).move (.brisk hooks) .turn

theorem brisk_reachable (hooks : Hooks Unit) (turns : Nat) :
    (brisk hooks turns).Reachable (.brisk hooks) := by
  induction turns with
  | zero => exact (Reachable.init _ _).move .start
  | succ turns ih => exact ih.move .turn

/-- After four turns, the brisk execution has called its operation twice, with a whole round between the
calls. -/
theorem sequential_brisk :
    ((brisk {} 4).journalOf 0).countP Event.isPolled = 2 ∧ (brisk {} 4).outstanding 0 ≤ 1 ∧
    ∀ before mid after m n,
      (brisk {} 4).journalOf 0 = before ++ .polled m :: (mid ++ .polled n :: after) →
      (∀ k, Event.polled k ∉ mid) → n = m + 1 ∧ (Asynchronous.brisk {}).Round 0 m mid := by
  have once : FiresOnce ((brisk {} 4).journalOf 0) := by decide +kernel
  obtain ⟨bound, rounds, -⟩ := (brisk_reachable {} 4).sequential 0 once
  exact ⟨by decide +kernel, bound, rounds⟩

end Session

end Polling
