import Polling.Proofs.Cancellation
import Polling.Proofs.Progress

/-!
# Faults that leave a callback

An ordinary fault of the caller's code becomes an outcome, or it rejects the promise. A fault that is not
ordinary does neither: wherever the code is called that raises it, the fault leaves the callback, the
loop keeps it, and the promise is as the code has left it (`Reachable.stranded_of_raised`). Nothing
is to come for the execution then, and nothing comes: it is `Session.Stranded` for good, unless it is
called back more often than its scheduler was asked to.
-/

namespace Polling

namespace Asynchronous

variable {a : Asynchronous σ} {run : RunId} {now : Binary64} {k : Callback} {f g : Frame σ} {p : Place}

/-- A callback comes to a place only if the promise is pending when it begins. -/
theorem Reaches.pending (h : a.Reaches run now k f p g) : f.execution.promise.isSettled = false := by
  induction h with
  | opening pending => exact pending
  | calling reaches opened ih => exact ih
  | failing reaches called failed ordinary ih => exact ih
  | ended pending outcome => exact pending
  | telling reaches evaluated ih => exact ih

end Asynchronous

namespace Session

variable {a : Asynchronous σ} {s : Session σ} {run : RunId}

/-- Nothing is to come for an execution, and no code of this library has settled its promise. -/
structure Stranded (s : Session σ) (run : RunId) : Prop where
  promise : s.promise? run = some .pending ∨ s.promise? run = some .cancelled
  due : s.due run = 0
  inFlight : s.inFlight run = 0
  fired : (s.journalOf run).countP Event.isFired = (s.journalOf run).countP Event.isScheduled

theorem Stranded.idle (h : Stranded s run) : s.outstanding run = 0 := by
  simp [outstanding, unfired, h.due, h.inFlight, h.fired]

/-- Without a call of the scheduler in the meantime, it calls back no more. -/
theorem fires_eq_zero {J es : List Event} {n : Nat}
    (fired : J.countP Event.isFired = J.countP Event.isScheduled)
    (unfired : es.countP Event.isFired = 0) (unscheduled : es.countP Event.isScheduled = 0)
    (once : FiresOnce (J ++ es ++ List.replicate n Event.fired)) : n = 0 := by
  have bound := once _ (List.prefix_refl _)
  simp only [List.countP_append, countP_isScheduled_fires, countP_isFired_fires] at bound
  omega

/-- A promise that code of the caller's may have cancelled since. -/
theorem promise?_of_orCancelled {s' : Session σ} {p q : Promise} {x : Execution}
    (h : p.OrCancelled q) (hp : p = .pending ∨ p = .cancelled)
    (lookup : s'.runs[run]? = some { x with promise := q }) :
    s'.promise? run = some .pending ∨ s'.promise? run = some .cancelled := by
  rw [promise?, lookup]
  rcases h with rfl | ⟨-, rfl⟩
  · rcases hp with rfl | rfl
    · exact .inl rfl
    · exact .inr rfl
  · exact .inr rfl

/-- A callback strands an execution if it begins with nothing to come, neither schedules nor watches
anything, and leaves the promise pending or cancelled. -/
theorem Ran.stranded {s s' s₀ : Session σ} {x : Execution} {f : Frame σ} {n : Nat}
    (h : Ran s s' run x f n) {es : List Event} {os : List Order}
    (grows : Frame.Grows (s₀.frame run x) f es os) (unwatched : os.countP Order.isWatch = 0)
    (unfired : es.countP Event.isFired = 0) (unscheduled : es.countP Event.isScheduled = 0)
    (promise : f.execution.promise = .pending ∨ f.execution.promise = .cancelled)
    (due : s.due run = 0) (inFlight : s.inFlight run = 0)
    (fired : (s.journalOf run).countP Event.isFired = (s.journalOf run).countP Event.isScheduled)
    (once : FiresOnce (s'.journalOf run)) : Stranded s' run := by
  obtain ⟨p, hp, grown⟩ := h.grown grows
  rw [grown.journal] at once
  obtain rfl := fires_eq_zero fired unfired unscheduled once
  refine ⟨promise?_of_orCancelled hp promise grown.lookup, ?_, ?_, ?_⟩
  · rw [grown.due, due]
  · rw [grown.inFlight, inFlight, unwatched]
  · simp [grown.journal, fired, unfired, unscheduled]

/-- A stranded execution stays stranded, as long as its scheduler calls back no more often than it was
asked to. -/
theorem Stranded.move (h : s.Sound) (ih : Stranded s run) (m : Move σ)
    (once : FiresOnce ((s.move a m).journalOf run)) : Stranded (s.move a m) run := by
  have known : s.runs[run]? ≠ none := by
    intro none
    rcases ih.promise with promise | promise <;> simp [promise?, none] at promise
  cases move_effect a h m run with
  | @other k aside shifts =>
    obtain ⟨x, hx⟩ := Option.ne_none_iff_exists'.1 known
    obtain ⟨p, hp, lookup⟩ := shifts.execution x hx
    rw [shifts.journal, ← List.append_nil (s.journalOf run)] at once
    obtain rfl := fires_eq_zero ih.fired rfl rfl once
    refine ⟨promise?_of_orCancelled hp ?_ lookup, ?_, ?_, ?_⟩
    · simpa [promise?, hx] using ih.promise
    · rw [shifts.due, ih.due]
    · rw [shifts.inFlight, ih.inFlight]
    · simpa [shifts.journal] using ih.fired
  | start new fresh ran => exact absurd (by simp [new]) known
  -- no attempt is queued and no poll is in flight, so neither can be taken
  | attempt taken ran =>
    have one := (h.attempt_taken taken).1
    rw [ih.due] at one
    omega
  | pollEnded taken ran =>
    have one := (h.pollEnded_taken taken).2
    rw [ih.inFlight] at one
    omega
  | @settled l x k taken ran =>
    obtain ⟨es, os, tidies⟩ := a.settled_tidies (s.frame run x)
    have quiet := quiet_of_isTidying tidies.tidying
    obtain ⟨due, inFlight⟩ := h.settled_taken taken
    have before : x.promise = .pending ∨ x.promise = .cancelled := by
      have lookup : s.runs[run]? = some x := ran.lookup
      simpa [promise?, lookup] using ih.promise
    have after : (a.settled (s.frame run x)).2.execution.promise = .pending ∨
        (a.settled (s.frame run x)).2.execution.promise = .cancelled := by
      rcases before with pending | cancelled
      · left
        rw [a.settled_of_uncancelled (f := s.frame run x) (by simp [frame, pending])]
        exact pending
      · right
        exact tidies.cancelled cancelled
    exact ran.stranded tidies.toGrows tidies.unwatched (countP_isFired_quiet quiet)
      (countP_isScheduled_quiet quiet) after (due ▸ ih.due) (inFlight ▸ ih.inFlight) ih.fired once

theorem Stranded.moves (h : s.Sound) (ih : Stranded s run) (ms : List (Move σ))
    (once : FiresOnce ((s.moves a ms).journalOf run)) : Stranded (s.moves a ms) run := by
  induction ms generalizing s with
  | nil => exact ih
  | cons m rest others =>
    have sound := h.move a m
    have now := once.of_prefix (sound.journalOf_moves_prefix rest run)
    exact others sound (ih.move h m now) once

/-- When a callback begins that is not about the settling of the promise, nothing else is to come. -/
theorem Reachable.begun_idle (h : s.Reachable a) {k : Callback} {l : EventLoop Callback} {x : Execution}
    (taken : s.loop.take = (some k, l)) (hx : s.runs[run]? = some x)
    (own : k = .attempt run ∨ ∃ ending, k = .pollEnded run ending)
    (once : FiresOnce (s.journalOf run)) :
    (s.begun l run k).due run = 0 ∧ (s.begun l run k).inFlight run = 0 ∧
      ((s.begun l run k).journalOf run).countP Event.isFired =
        ((s.begun l run k).journalOf run).countP Event.isScheduled := by
  rcases own with rfl | ⟨ending, rfl⟩
  · obtain ⟨course, due, inFlight⟩ := (h.inSequence run).attempt_taken h.sound hx once taken
    exact ⟨due, inFlight, course.countP_isScheduled.symm⟩
  · obtain ⟨course, due, inFlight⟩ := (h.inSequence run).pollEnded_taken h.sound hx once taken
    refine ⟨due, inFlight, ?_⟩
    have balance := course.countP_isScheduled
    simpa [journalOf_begun, Callback.entries, Event.isFired, Event.isScheduled, Phase.unfired] using
      balance.symm

/-- A fault that is not ordinary, raised by any code of the caller's that a callback of the loop calls,
leaves the callback and completes nothing. The promise is settled only if the code has cancelled it;
otherwise it is pending, and as long as the scheduler calls back no more often than it was asked to,
nothing is to come for the execution ever after and nothing but a cancellation ends the wait. -/
theorem Reachable.stranded_of_raised (h : s.Reachable a) {k : Callback} {l : EventLoop Callback}
    {x : Execution} {p : Place} {g : Frame σ} {e : Fault} (taken : s.loop.take = (some k, l))
    (hx : s.runs[run]? = some x) (reaches : a.Reaches run l.time k (s.frame run x) p g)
    (raised : (a.visit run l.time p g).1 = .error e) (extraordinary : e.isOrdinary = false) :
    e ∈ (s.move a .turn).escaped ++ (s.move a .turn).unhandled ∧
    (∃ q, (s.move a .turn).promise? run = some q ∧
      (a.visit run l.time p g).2.execution.promise.OrCancelled q ∧
      (q.isSettled = true ↔ q = .cancelled)) ∧
    ∀ ms, FiresOnce (((s.move a .turn).moves a ms).journalOf run) →
      ((s.move a .turn).moves a ms).outstanding run = 0 ∧
      (((s.move a .turn).moves a ms).promise? run = some .pending ∨
        ((s.move a .turn).moves a ms).promise? run = some .cancelled) := by
  obtain ⟨es₁, os₁, before⟩ := reaches.approaches
  obtain ⟨es₂, os₂, visits⟩ := a.visit_approaches run l.time p g
  have arrives := before.trans visits
  obtain ⟨n, ran, kept⟩ := turn_ran taken hx reaches
  rw [Asynchronous.remainder_of_raised extraordinary raised reaches.attempt] at ran kept
  -- the promise was pending when the callback began, and only code of the caller's has run since
  have left : (a.visit run l.time p g).2.execution.promise = .pending ∨
      (a.visit run l.time p g).2.execution.promise = .cancelled :=
    arrives.promise.of_pending (Promise.eq_pending reaches.pending)
  have grows := arrives.toGrows
  rw [← frame_begun reaches.own (x := x) (l := l)] at grows
  refine ⟨kept e rfl, ?_, ?_⟩
  · obtain ⟨q, hq, grown⟩ := ran.grown grows
    refine ⟨q, by rw [promise?, grown.lookup]; rfl, hq, ?_⟩
    have after := promise?_of_orCancelled hq left grown.lookup
    rw [promise?, grown.lookup, Option.map_some] at after
    rcases after with pending | cancelled
    · obtain rfl := Option.some.inj pending
      simp [Promise.isSettled]
    · obtain rfl := Option.some.inj cancelled
      exact ⟨fun _ => rfl, fun _ => rfl⟩
  · -- the callback has taken the one thing that was to come and has left nothing in its place
    intro ms once
    have sound := (h.move .turn).sound
    have now := once.of_prefix (sound.journalOf_moves_prefix ms run)
    obtain ⟨added, journal, -⟩ := journalOf_move (a := a) h.sound .turn run
    have earlier : FiresOnce (s.journalOf run) := now.of_prefix ⟨added, journal.symm⟩
    obtain ⟨due, inFlight, fired⟩ := h.begun_idle taken hx reaches.own earlier
    have stranded := ran.stranded grows arrives.unwatched arrives.unfired arrives.unscheduled left
      due inFlight fired now
    have forever := stranded.moves sound ms once
    exact ⟨forever.idle, forever.promise⟩

end Session

/-! ## An example -/

/-- A hook may also raise a fault that is not ordinary. -/
def Code.abort : Code Unit Unit := throw (.plain .generatorExit [])

/-- Is a result a fault that is not ordinary? -/
def isExtraordinary : Except Fault Unit → Bool
  | .error e => !e.isOrdinary
  | .ok _ => false

theorem error_of_isExtraordinary {r : Except Fault Unit} (h : isExtraordinary r = true) :
    ∃ e, r = .error e ∧ e.isOrdinary = false := by
  rcases r with e | _
  · exact ⟨e, rfl, by simpa [isExtraordinary] using h⟩
  · exact nomatch h

namespace Session

/-- The hook of the second attempt raises such a fault. -/
theorem abort_raises : ∀ x ∈ (second .abort).runs[0]?,
    isExtraordinary (secondVisit .abort x).1 = true := by
  decide +kernel

/-- The fault leaves the callback, and nothing is to come for the execution, however many turns are
made. -/
theorem stranded_of_raised_abort :
    (∃ e ∈ ((second .abort).move (.second .abort) .turn).escaped ++
      ((second .abort).move (.second .abort) .turn).unhandled, e.isOrdinary = false) ∧
    (((second .abort).move (.second .abort) .turn).moves (.second .abort) [.turn, .turn]).outstanding 0
      = 0 := by
  obtain ⟨x, taken, hx, reaches⟩ :=
    second_reaches (c := .abort) (by decide +kernel) (by decide +kernel)
  obtain ⟨e, raised, extraordinary⟩ := error_of_isExtraordinary (abort_raises x hx)
  have once : FiresOnce ((((second .abort).move (.second .abort) .turn).moves (.second .abort)
      [.turn, .turn]).journalOf 0) := by decide +kernel
  obtain ⟨kept, -, forever⟩ :=
    (second_reachable .abort).stranded_of_raised taken hx reaches raised extraordinary
  exact ⟨⟨e, kept, extraordinary⟩, (forever [.turn, .turn] once).1⟩

/-- So a fault that is not ordinary does not complete the promise: it stays pending, with nothing to
come. -/
theorem abort_not_completing :
    ((second .abort).move (.second .abort) .turn).promise? 0 = some .pending ∧
    ((second .abort).move (.second .abort) .turn).outstanding 0 = 0 ∧
    ¬ ∀ (k : Callback) (l : EventLoop Callback) (x : Execution) (p : Place) (g : Frame Unit) (e : Fault),
      (second .abort).loop.take = (some k, l) → (second .abort).runs[0]? = some x →
      (Asynchronous.second .abort).Reaches 0 l.time k ((second .abort).frame 0 x) p g →
      ((Asynchronous.second .abort).visit 0 l.time p g).1 = .error e → e.isOrdinary = false →
      ∃ q, ((second .abort).move (.second .abort) .turn).promise? 0 = some q ∧ q.isSettled = true := by
  have pending : ((second .abort).move (.second .abort) .turn).promise? 0 = some .pending := by
    decide +kernel
  refine ⟨pending, by decide +kernel, ?_⟩
  intro completes
  obtain ⟨x, taken, hx, reaches⟩ :=
    second_reaches (c := .abort) (by decide +kernel) (by decide +kernel)
  obtain ⟨e, raised, extraordinary⟩ := error_of_isExtraordinary (abort_raises x hx)
  obtain ⟨q, promise, settled⟩ := completes _ _ x _ _ e taken hx reaches raised extraordinary
  obtain rfl := Option.some.inj (pending.symm.trans promise)
  exact nomatch settled

end Session

end Polling
