import Polling.Proofs.Sequence

/-!
# No execution is left hanging

If the caller's code raises nothing but faults that a promise can carry, every callback of an execution
leaves its promise settled or exactly one thing to come: a poll that is watched, or a call of the
scheduler for which a handle is kept (`Frame.GoesOn`). So as long as the promise is pending, something
is to come for the execution (`Session.Alive`). Calls of the scheduler in excess change nothing about
this, because each of them queues an attempt.
-/

namespace Polling

/-- After a callback, the promise is settled or exactly one thing has been begun. -/
def Frame.GoesOn (f : Frame σ) (es : List Event) (os : List Order) : Prop :=
  f.execution.promise.isSettled = true ∨
    (os.countP Order.isWatch + es.countP Event.isScheduled = 1 ∧ es.countP Event.isFired = 0 ∧
      (0 < os.countP Order.isWatch ∨ f.execution.handle.isSome = true))

namespace Asynchronous

variable {a : Asynchronous σ} {run : RunId} {f f' : Frame σ} {es : List Event} {os : List Order}

/-- The scheduler does not call back while an outcome is concluded with. -/
theorem Concludes.countP_isFired {o : Outcome} {n : Nat} (h : a.Concludes run o n f f' es os) :
    es.countP Event.isFired = 0 := by
  rcases h.entries with quiet | ⟨d, E, q, q', rfl, evaluates, quiet, quiet'⟩
  · exact countP_isFired_quiet quiet
  · simp [evaluates.quiet, quiet, quiet', Event.isFired]

theorem Concludes.goesOn_frame {o : Outcome} {n : Nat} (h : a.Concludes run o n f f' es os)
    (carriable : a.IsCarriable run) : f'.GoesOn es os := by
  rcases h.goesOn carriable with settled | ⟨held, scheduled⟩
  · exact .inl settled
  · exact .inr ⟨by rw [h.evolves.unwatched, scheduled], h.countP_isFired, .inr held⟩

theorem Attempts.goesOn (h : a.Attempts run f f' es os)
    (carriable : a.IsCarriable run) : f'.GoesOn es os := by
  cases h with
  | stops grows quiet unwatched settles => exact .inl (settles carriable)
  | polls grows quiet watched attempt =>
    refine .inr ⟨?_, ?_, .inl (by omega)⟩
    · simp [watched, quiet, Event.isScheduled]
    · simp [quiet, Event.isFired]
  | fails grows quiet unwatched attempt fails concludes =>
    rcases concludes.goesOn_frame carriable with settled | ⟨one, unfired, held⟩
    · exact .inl settled
    · refine .inr ⟨?_, ?_, ?_⟩
      · simpa [List.countP_cons, unwatched, quiet, Event.isScheduled] using one
      · simpa [List.countP_cons, quiet, Event.isFired] using unfired
      · simpa [unwatched] using held

theorem Takes.goesOn {ending : Ending} (h : a.Takes run ending f f' es os)
    (carriable : a.IsCarriable run) : f'.GoesOn es os := by
  rcases h.result with ⟨quiet, settled⟩ | ⟨o, g, ho, concludes⟩
  · exact .inl settled
  · exact concludes.goesOn_frame carriable

end Asynchronous

namespace Session

variable {a : Asynchronous σ} {s s' : Session σ} {run : RunId}

/-- Something is to come for an execution with a journal, queued attempts and polls in flight, which
may keep a handle: it has been begun once more than the scheduler has called back, counting what the
scheduler was asked for. -/
def Comes (J : List Event) (due inFlight : Nat) (held : Bool) : Prop :=
  inFlight + due + J.countP Event.isScheduled = 1 + J.countP Event.isFired ∧
    (0 < inFlight ∨ 0 < due ∨ held = true)

theorem countP_isScheduled_fires (k : Nat) :
    (List.replicate k Event.fired).countP Event.isScheduled = 0 := by
  simp [List.countP_replicate, Event.isScheduled]

theorem countP_isFired_fires (k : Nat) : (List.replicate k Event.fired).countP Event.isFired = k := by
  simp [List.countP_replicate, Event.isFired]

/-- Each call of the scheduler queues an attempt. -/
theorem Comes.fires {J : List Event} {d w : Nat} {held : Bool} (h : Comes J d w held) (k : Nat) :
    Comes (J ++ List.replicate k Event.fired) (d + k) w held := by
  obtain ⟨balance, comes⟩ := h
  constructor
  · simp only [List.countP_append, countP_isScheduled_fires, countP_isFired_fires]
    omega
  · rcases comes with flying | queued | held
    · exact .inl flying
    · exact .inr (.inl (by omega))
    · exact .inr (.inr held)

/-- While the promise of an execution is pending, something is to come for it. -/
def Alive (s : Session σ) (run : RunId) : Prop :=
  ∀ x, s.runs[run]? = some x → x.promise.isSettled = false →
    Comes (s.journalOf run) (s.due run) (s.inFlight run) x.handle.isSome

/-- A callback begins with nothing to come but itself, and keeps an execution alive if it goes on. -/
theorem Ran.alive {s₀ : Session σ} {x : Execution} {f : Frame σ} {k : Nat} (h : Ran s s' run x f k)
    {es : List Event} {os : List Order} (grows : Frame.Grows (s₀.frame run x) f es os)
    (goesOn : f.GoesOn es os)
    (balance : x.promise.isSettled = false →
      s.inFlight run + s.due run + (s.journalOf run).countP Event.isScheduled =
        (s.journalOf run).countP Event.isFired) : Alive s' run := by
  obtain ⟨p, hp, grown⟩ := h.grown grows
  intro y hy pending
  obtain rfl := Option.some.inj (grown.lookup.symm.trans hy)
  have unsettled : f.execution.promise.isSettled = false := Promise.pending_of_orCancelled hp pending
  have began : x.promise.isSettled = false := grows.pending unsettled
  -- before the callback, everything that was begun had been used up
  have before := balance began
  rcases goesOn with settled | ⟨one, unfired, comes⟩
  · exact absurd settled (by simp [unsettled])
  · have journal := grown.journal
    have due := grown.due
    have inFlight := grown.inFlight
    constructor
    · rw [journal, due, inFlight]
      simp only [List.countP_append, countP_isScheduled_fires, countP_isFired_fires]
      omega
    · rcases comes with watched | held
      · exact .inl (by omega)
      · exact .inr (.inr held)

theorem Alive.move (h : s.Sound) (carriable : a.IsCarriable run) (ih : Alive s run)
    (m : Move σ) : Alive (s.move a m) run := by
  cases move_effect a h m run with
  | @other k aside shifts =>
    intro y hy pending
    obtain ⟨x, hx, hp, same⟩ := shifts.lookup hy
    rw [shifts.journal, shifts.due, shifts.inFlight, same]
    exact (ih x hx (Promise.pending_of_orCancelled hp pending)).fires k
  | @start x k new fresh ran =>
    obtain ⟨journal, due, inFlight, -⟩ := h.unknown run (by simp [new])
    obtain ⟨es, os, attempts⟩ := a.attempt_attempts run s.loop.time (s.frame run x)
    apply ran.alive attempts.grows (attempts.goesOn carriable)
    intro _
    rw [show (s.add x).journalOf run = [] from journal, show (s.add x).due run = 0 from due,
      show (s.add x).inFlight run = 0 from inFlight]
    rfl
  | @attempt l x k taken ran =>
    obtain ⟨es, os, attempts⟩ := a.attempt_attempts run l.time (s.frame run x)
    apply ran.alive attempts.grows (attempts.goesOn carriable)
    intro pending
    obtain ⟨balance, -⟩ := ih x ran.lookup pending
    obtain ⟨due, inFlight⟩ := h.attempt_taken taken
    change _ + _ + (s.journalOf run).countP _ = (s.journalOf run).countP _
    omega
  | @pollEnded l ending x k taken ran =>
    obtain ⟨es, os, takes⟩ := a.pollEnded_takes run l.time ending (s.frame run x)
    apply ran.alive takes.grows (takes.goesOn carriable)
    intro pending
    obtain ⟨balance, -⟩ := ih x ran.lookup pending
    obtain ⟨due, inFlight⟩ := h.pollEnded_taken taken
    rw [journalOf_enter]
    change { s with loop := l }.inFlight run + { s with loop := l }.due run + _ = _
    simp [Event.isScheduled, Event.isFired]
    omega
  | @settled l x k taken ran =>
    intro y hy pending
    obtain ⟨es, os, tidies⟩ := a.settled_tidies (s.frame run x)
    obtain ⟨p', hp', kept⟩ := ran.grown tidies.toGrows
    have began : x.promise.isSettled = false := by
      obtain rfl := Option.some.inj (kept.lookup.symm.trans hy)
      exact tidies.pending (Promise.pending_of_orCancelled hp' pending)
    -- while the promise is pending, nothing is done
    have uncancelled : x.promise ≠ .cancelled := by simp [Promise.eq_pending began]
    rw [a.settled_of_uncancelled (f := s.frame run x) uncancelled] at ran
    obtain ⟨p, -, grown⟩ := ran.grown (Frame.grows_refl (s.frame run x))
    obtain rfl := Option.some.inj (grown.lookup.symm.trans hy)
    have comes := ih x ran.lookup began
    obtain ⟨due, inFlight⟩ := h.settled_taken taken
    rw [due, inFlight] at comes
    rw [grown.journal, List.append_nil, grown.due, grown.inFlight]
    exact comes.fires k

/-- In every session that can be reached, every execution is alive. -/
theorem Reachable.alive (h : s.Reachable a) (carriable : a.IsCarriable run) : Alive s run := by
  induction h with
  | init time caller => exact fun x hx => absurd hx (by simp)
  | move m h ih => exact ih.move h.sound carriable m

/-- A callback that the scheduler of an execution has been asked for is waiting to fire: it has not
fired, and the execution keeps a handle for it. -/
def Waits (s : Session σ) (run : RunId) : Prop :=
  (s.journalOf run).countP Event.isFired < (s.journalOf run).countP Event.isScheduled ∧
    ∃ x, s.runs[run]? = some x ∧ x.handle.isSome = true

/-- No execution is left hanging: when none of its polls is in flight, none of its attempts is queued,
and no callback of its scheduler is waiting to fire, its promise is settled. The caller's code may raise
whatever a promise can carry. -/
theorem Reachable.isSettled_of_idle (h : s.Reachable a)
    (carriable : a.IsCarriable run) {x : Execution} (hx : s.runs[run]? = some x)
    (landed : s.inFlight run = 0) (unqueued : s.due run = 0) (unscheduled : ¬ s.Waits run) :
    x.promise.isSettled = true := by
  cases settled : x.promise.isSettled with
  | true => rfl
  | false =>
    -- one thing is to come, and only a call of the scheduler is left for it
    obtain ⟨balance, comes⟩ := h.alive carriable x hx settled
    refine absurd ⟨by omega, x, hx, ?_⟩ unscheduled
    rcases comes with flying | queued | held
    · omega
    · omega
    · exact held

/-- What a brisk execution runs raises nothing. -/
theorem brisk_isCarriable (run : RunId) : (Asynchronous.brisk {}).IsCarriable run where
  waiter := by
    refine ⟨?_, nofun, ⟨nofun, nofun, nofun, nofun⟩⟩
    intro a ha payload c e he
    obtain rfl := List.mem_singleton.1 ha
    exact nomatch he
  scheduler := by
    intro schedule cancel h delay c e he
    obtain ⟨rfl, -⟩ := Scheduler.custom.inj h
    exact nomatch he
  operation := nofun

/-- After four turns, nothing is to come for the brisk execution, and its promise is settled. -/
theorem isSettled_of_idle_brisk :
    (brisk {} 4).inFlight 0 = 0 ∧ (brisk {} 4).due 0 = 0 ∧ ¬ (brisk {} 4).Waits 0 ∧
      ∃ x, (brisk {} 4).runs[0]? = some x ∧ x.promise.isSettled = true := by
  have landed : (brisk {} 4).inFlight 0 = 0 := by decide +kernel
  have unqueued : (brisk {} 4).due 0 = 0 := by decide +kernel
  have fired : ((brisk {} 4).journalOf 0).countP Event.isFired = 1 := by decide +kernel
  have scheduled : ((brisk {} 4).journalOf 0).countP Event.isScheduled = 1 := by decide +kernel
  have unscheduled : ¬ (brisk {} 4).Waits 0 := by
    rintro ⟨waiting, -⟩
    omega
  have started : (brisk {} 4).runs[0]?.isSome = true := by decide +kernel
  obtain ⟨x, hx⟩ := Option.isSome_iff_exists.1 started
  exact ⟨landed, unqueued, unscheduled, x, hx,
    (brisk_reachable {} 4).isSettled_of_idle (brisk_isCarriable 0) hx landed unqueued unscheduled⟩

end Session

end Polling
