import Polling.Proofs.Sequence

/-!
# The queue is worked off in order

Whatever happens on a loop, the callbacks that are ready keep their order: only errands are taken back,
and what is new is queued last (`Session.Follows`). A turn takes the first of them. So a callback of an
execution that lies in the queue is run within as many turns as there are callbacks up to it:
`Reachable.exists_taken`. The settling of a promise has been passed on once the loop has run what was
queued before: `Reachable.settlings_eq_zero`.
-/

namespace Polling

/-- Does the loop run a callback? -/
def Move.isTurn : Move σ → Bool
  | .turn => true
  | _ => false

namespace Session

variable {a : Asynchronous σ} {s s' s'' : Session σ} {run : RunId}

/-- Callbacks that are ready stay in order: at most errands are taken back, and what is new comes last. -/
def Follows (s s' : Session σ) : Prop :=
  ∃ (keep : Callback → Bool) (added : List Callback),
    (∀ c, c.isErrand = false → keep c = true) ∧ s'.ready = s.ready.filter keep ++ added

theorem follows_append (added : List Callback) (h : s'.ready = s.ready ++ added) : Follows s s' :=
  ⟨fun _ => true, added, fun _ _ => rfl, by rw [h, List.filter_eq_self.2 fun _ _ => rfl]⟩

/-- What leaves the loop alone leaves the order. -/
theorem follows_of_ready (h : s'.ready = s.ready) : Follows s s' :=
  follows_append [] (by simpa using h)

theorem Follows.trans (h : Follows s s') (h' : Follows s' s'') : Follows s s'' := by
  obtain ⟨keep, added, kept, ready⟩ := h
  obtain ⟨keep', added', kept', ready'⟩ := h'
  refine ⟨fun c => keep c && keep' c, added.filter keep' ++ added', ?_, ?_⟩
  · intro c hc
    simp [kept c hc, kept' c hc]
  · rw [ready', ready, List.filter_append, List.filter_filter, List.append_assoc]
    simp only [Bool.and_comm]

theorem foldl_follows {step : Session σ → α → Session σ} (h : ∀ s x, Follows s (step s x))
    (xs : List α) (s : Session σ) : Follows s (xs.foldl step s) := by
  induction xs generalizing s with
  | nil => exact follows_of_ready rfl
  | cons x rest ih => exact (h s x).trans (ih (step s x))

/-! ## What is queued -/

theorem soon_follows (s : Session σ) (k : Callback) : Follows s (s.soon k) :=
  follows_append [k] (by simp [ready, soon, EventLoop.soon])

theorem fire_follows (s : Session σ) (run : RunId) : Follows s (s.fire run) := by
  unfold fire
  split
  · exact (follows_of_ready rfl).trans (soon_follows (s.enter run .fired) _)
  · exact follows_of_ready rfl

theorem finish_follows (s : Session σ) (poll : PollId) (ending : Ending) :
    Follows s (s.finish poll ending) := by
  unfold finish
  split
  · exact follows_of_ready rfl
  · rw [foldl_soon_pollEnded]
    exact follows_append _ (List.append_assoc _ _ _).symm

theorem watch_follows (s : Session σ) (run : RunId) (poll : PollId) : Follows s (s.watch run poll) := by
  unfold watch
  split
  · exact soon_follows s _
  · exact follows_of_ready rfl

theorem cancel_follows (s : Session σ) (run : RunId) : Follows s (s.cancel run).2 := by
  unfold cancel
  split
  · next x hx =>
    split
    · exact follows_of_ready rfl
    · exact (follows_of_ready rfl).trans (soon_follows
        { s with runs := s.runs.set run { x with promise := .cancelled } } _)
  · exact follows_of_ready rfl

/-- Taking an errand back leaves everything else. -/
theorem drop_follows (s : Session σ) (e : Errand) :
    Follows s { s with loop := s.loop.drop (isErrand e) } := by
  refine ⟨fun c => !isErrand e c, [], ?_, ?_⟩
  · intro c hc
    cases c with
    | errand e' => exact nomatch hc
    | _ => rfl
  · simp [ready, EventLoop.drop, List.filter_append]

theorem answer_follows (s : Session σ) (r : Request) : Follows s (s.answer r) := by
  cases r with
  | cancel run => exact cancel_follows s run
  | fire run => exact fire_follows s run
  | finish poll ending => exact finish_follows s poll ending
  | soon e => exact soon_follows s _
  | later delay e => exact follows_of_ready rfl
  | drop e => exact drop_follows s e

theorem obey_follows (s : Session σ) (run : RunId) (o : Order) : Follows s (s.obey run o) := by
  cases o with
  | settled => exact soon_follows s _
  | watch poll => exact watch_follows s run poll
  | timer delay => exact follows_of_ready rfl
  | stopTimer => exact drop_follows s _
  | request r => exact answer_follows s r

/-! ## What runs -/

theorem serve_follows (s : Session σ) (run : RunId) (c : Code σ α) : Follows s (s.serve run c).2 :=
  (follows_of_ready rfl).trans (foldl_follows answer_follows _ _)

theorem step_follows (s : Session σ) (run : RunId) (body : Step σ Unit) :
    Follows s (s.step run body).2 := by
  unfold step
  split
  · exact follows_of_ready rfl
  · next x hx =>
    have recorded : Follows s (s.record run (body (s.frame run x)).2) := follows_of_ready rfl
    exact recorded.trans (foldl_follows (fun s o => obey_follows s run o) _ _)

/-- Breaking a turn off leaves what is ready. -/
theorem report_follows (s : Session σ) (e : Fault) : Follows s (s.report e) := by
  unfold report
  split
  · exact follows_of_ready rfl
  · exact follows_of_ready rfl

theorem Follows.report (h : Follows s s') (result : Except Fault Unit) :
    Follows s (match result with | .ok () => s' | .error e => s'.report e) := by
  rcases result with e | ⟨⟩
  · exact h.trans (report_follows s' e)
  · exact h

/-- What a callback queues comes behind what is ready. -/
theorem perform_follows (a : Asynchronous σ) (k : Callback) (s : Session σ) :
    Follows s (perform a k s) := by
  unfold perform
  apply Follows.report
  cases k with
  | errand e =>
    cases e with
    | fire run => exact fire_follows s run
    | resume poll => exact serve_follows s 0 _
    | wake poll => exact serve_follows s 0 _
  | attempt run => exact step_follows s run _
  | pollEnded run ending =>
    have entered : Follows s (s.enter run (.ended ending)) := follows_of_ready rfl
    exact entered.trans (step_follows _ run _)
  | settled run => exact step_follows s run _

/-! ## Taking turns -/

/-- The callback that is taken was the first one, or a due timer's. What is left stays in order, and
what the turn adds comes from timers. -/
theorem ready_of_take {l : EventLoop Callback} {c : Option Callback} (errands : s.TimersAreErrands)
    (taken : s.loop.take = (c, l)) :
    ∃ added, ({ s with loop := l } : Session σ).ready = s.ready.drop 1 ++ added ∧
      ∀ k ∈ added, k.isErrand = true := by
  have from_turn : ∀ {m : EventLoop Callback} {r : List Callback}, m.takeFromTurn = (c, l) →
      m.turn ++ m.queue = r → m.turn ≠ [] ∨ m.queue = [] → l.turn ++ l.queue = r.drop 1 := by
    intro m r hm hr some
    unfold EventLoop.takeFromTurn at hm
    split at hm
    · next first rest turn =>
      obtain ⟨-, rfl⟩ := Prod.mk.inj hm
      rw [← hr, turn]
      rfl
    · next turn =>
      obtain ⟨-, rfl⟩ := Prod.mk.inj hm
      rcases some with nonempty | none
      · exact absurd turn nonempty
      · rw [← hr, turn, none]
        rfl
  unfold EventLoop.take at taken
  split at taken
  · -- a new turn begins, and it takes the due timers along
    have due := Heap.takeFor_subset Timer.before (fun t => !s.loop.time.lt t.due)
      s.loop.liveTimers.length s.loop.liveTimers
    have live := Heap.takeFor_subset Timer.before (·.dropped) s.loop.timers.length s.loop.timers
    have rest := from_turn taken (r := s.ready ++
      (s.loop.dueTimers.1.filter (!·.dropped)).map (·.callback)) (by simp [EventLoop.nextTurn, ready])
      (.inr rfl)
    refine ⟨_, rest.trans (List.drop_append ..), ?_⟩
    intro k hk
    obtain ⟨t, ht, rfl⟩ := List.mem_map.1 (List.mem_of_mem_drop hk)
    exact errands t (live.2 (due.1 (List.mem_filter.1 ht).1))
  · next nonempty =>
    have rest := from_turn taken rfl (.inl (by simpa using nonempty))
    exact ⟨[], by simpa [ready] using rest, by simp⟩

/-- If the settling of the promise of an execution is queued, it is among so many callbacks. -/
def SettlesWithin (s : Session σ) (run : RunId) (n : Nat) : Prop :=
  (s.ready.drop n).countP (Callback.isSettled run) = 0

theorem settlesWithin_length (s : Session σ) (run : RunId) : s.SettlesWithin run s.ready.length := by
  simp [SettlesWithin]

/-- What keeps the order and queues no settling keeps the bound. -/
theorem Follows.settlesWithin (h : Follows s s') (same : s'.settlings run = s.settlings run) {n : Nat}
    (within : s.SettlesWithin run n) : s'.SettlesWithin run n := by
  obtain ⟨keep, added, kept, ready⟩ := h
  -- what is taken back are errands, and no settling is one
  have all_kept : (s.ready.filter keep).countP (Callback.isSettled run) = s.settlings run := by
    rw [List.countP_filter, settlings]
    apply List.countP_congr
    intro c _
    constructor
    · intro both
      exact (Bool.and_eq_true_iff.1 both).1
    · intro settling
      have own : c.isErrand = false := by
        cases c with
        | errand e => simp [Callback.isSettled] at settling
        | _ => rfl
      simp [settling, kept c own]
  -- so all settlings are among what was kept
  have none_added : added.countP (Callback.isSettled run) = 0 := by
    rw [settlings, ready, List.countP_append, all_kept] at same
    omega
  have front : ((s.ready.filter keep).drop n).countP (Callback.isSettled run) = 0 := by
    have sub : List.Sublist ((s.ready.filter keep).drop n) (s.ready.drop n) := List.filter_sublist.drop n
    exact Nat.le_zero.1 (within ▸ sub.countP_le)
  have back : (added.drop (n - (s.ready.filter keep).length)).countP (Callback.isSettled run) = 0 :=
    Nat.le_zero.1 (none_added ▸ (List.drop_sublist _ added).countP_le)
  rw [SettlesWithin, ready, List.drop_append, List.countP_append, front, back]

/-- What is not about an execution whose promise is settled passes none of its settlings on. -/
theorem Shifts.settlings_eq {k w : Nat} (h : Shifts s s' run k w 0) {x : Execution}
    (hx : s.runs[run]? = some x) (settled : x.promise.isSettled = true) :
    s'.settlings run = s.settlings run := by
  obtain ⟨p, hp, lookup⟩ := h.execution x hx
  have same := Promise.eq_of_orCancelled hp settled
  have settles := h.settlings
  simp only [isSettled, hx, lookup, Option.map_some, Option.getD_some, same, settled] at settles
  omega

/-- Nor does a callback of the execution itself. -/
theorem Ran.settlings_eq {s₀ : Session σ} {x : Execution} {f : Frame σ} {k : Nat} (h : Ran s s' run x f k)
    {es : List Event} {os : List Order} (grows : Frame.Grows (s₀.frame run x) f es os)
    (settled : x.promise.isSettled = true) : s'.settlings run = s.settlings run := by
  have grown := h.grown_of_isSettled grows settled
  exact Nat.add_right_cancel grown.settlings

/-- The settlings left after a turn are those left when its callback was taken. -/
theorem settlings_turn (h : s.Sound) {c : Callback} {l : EventLoop Callback}
    (taken : s.loop.take = (some c, l)) {x : Execution} (hx : s.runs[run]? = some x)
    (settled : x.promise.isSettled = true) :
    (s.move a .turn).settlings run = ({ s with loop := l } : Session σ).settlings run := by
  -- whatever the turn runs, a promise that is settled is not settled again
  cases move_effect a h .turn run with
  | other aside shifts =>
    have same := shifts.settlings_eq hx settled
    have foreign := aside c l taken _ (Callback.isSettled_mem_sorts run)
    exact same.trans (h.settlings_taken taken foreign)
  | start new fresh ran => exact absurd hx (by simp [new])
  | @attempt l' y k taken' ran =>
    obtain ⟨-, rfl⟩ := Prod.mk.inj (taken.symm.trans taken')
    obtain rfl : y = x := Option.some.inj (ran.lookup.symm.trans hx)
    obtain ⟨es, os, attempts⟩ := a.attempt_attempts run l.time (s.frame run y)
    exact ran.settlings_eq attempts.grows settled
  | @pollEnded l' ending y k taken' ran =>
    obtain ⟨-, rfl⟩ := Prod.mk.inj (taken.symm.trans taken')
    obtain rfl : y = x := Option.some.inj (ran.lookup.symm.trans hx)
    obtain ⟨es, os, takes⟩ := a.pollEnded_takes run l.time ending (s.frame run y)
    exact ran.settlings_eq takes.grows settled
  | @settled l' y k taken' ran =>
    obtain ⟨-, rfl⟩ := Prod.mk.inj (taken.symm.trans taken')
    obtain rfl : y = x := Option.some.inj (ran.lookup.symm.trans hx)
    obtain ⟨es, os, tidies⟩ := a.settled_tidies (s.frame run y)
    exact ran.settlings_eq tidies.toGrows settled

/-- Taking a callback brings the settling one place nearer. -/
theorem SettlesWithin.take (h : s.Sound) {c : Option Callback} {l : EventLoop Callback}
    (taken : s.loop.take = (c, l)) {n : Nat} (within : s.SettlesWithin run n) :
    ({ s with loop := l } : Session σ).SettlesWithin run (n - 1) := by
  obtain ⟨added, ready, errands⟩ := ready_of_take h.timers taken
  have front : ((s.ready.drop 1).drop (n - 1)).countP (Callback.isSettled run) = 0 := by
    have sub : List.Sublist ((s.ready.drop 1).drop (n - 1)) (s.ready.drop n) := by
      rw [List.drop_drop]
      exact List.drop_sublist_drop_left _ (by omega)
    exact Nat.le_zero.1 (within ▸ sub.countP_le)
  have back : (added.drop (n - 1 - (s.ready.drop 1).length)).countP (Callback.isSettled run) = 0 := by
    rw [List.countP_eq_zero]
    intro k hk
    simp [Callback.eq_false_of_isErrand (Callback.isSettled_mem_sorts run)
      (errands k (List.mem_of_mem_drop hk))]
  rw [SettlesWithin, ready, List.drop_append, List.countP_append, front, back]

/-- A turn brings the settling of a promise that is settled one place nearer, and no other move puts it
off. -/
theorem SettlesWithin.move (h : s.Sound) {x : Execution} (hx : s.runs[run]? = some x)
    (settled : x.promise.isSettled = true) {n : Nat} (within : s.SettlesWithin run n) (m : Move σ) :
    (s.move a m).SettlesWithin run (n - m.isTurn.toNat) := by
  have aside_eq : s.Aside run m → (s.move a m).settlings run = s.settlings run := by
    intro aside
    obtain ⟨k, shifts⟩ := aside.shifts (a := a) h
    exact shifts.settlings_eq hx settled
  -- a turn first takes a callback, which moves the settling up, and then runs it, which does not
  cases m with
  | clock time => exact within
  | outside serving code =>
    exact (serve_follows s serving code).settlesWithin (aside_eq trivial) within
  | start =>
    have added : Follows s (s.add { started := .real s.loop.time }) := follows_of_ready rfl
    have other : s.runs.length ≠ run := Nat.ne_of_gt (List.getElem?_eq_some_iff.1 hx).1
    exact (added.trans (step_follows _ _ _)).settlesWithin (aside_eq other) within
  | turn =>
    rcases taken : s.loop.take with ⟨_ | c, l⟩
    · have left := within.take h taken
      simp only [Session.move, taken]
      exact left
    · have same := settlings_turn (a := a) h taken hx settled
      have left := within.take h taken
      simp only [Session.move, taken] at same ⊢
      exact (perform_follows a c { s with loop := l }).settlesWithin same left

/-- Once the loop has run as many callbacks as were ready, the settling of a promise that was settled
before has been passed on. -/
theorem Reachable.settlings_eq_zero (h : s.Reachable a) {p : Promise}
    (promise : s.promise? run = some p) (settled : p.isSettled = true) {n : Nat}
    (within : s.SettlesWithin run n) (ms : List (Move σ)) (turns : n ≤ ms.countP Move.isTurn) :
    (s.moves a ms).settlings run = 0 := by
  induction ms generalizing s n with
  | nil =>
    obtain rfl := Nat.le_zero.1 turns
    exact within
  | cons m rest ih =>
    obtain ⟨x, hx, rfl⟩ := Option.map_eq_some_iff.1 promise
    have next := within.move (a := a) h.sound hx settled m
    obtain ⟨y, hy, kept, -⟩ := promise_move (a := a) h.sound m hx
    have same : (s.move a m).promise? run = some x.promise := by
      rw [promise?, hy, Option.map_some, kept settled]
    apply ih (h.move m) same next
    rw [countP_cons_toNat] at turns
    omega

/-! ## Every ready callback is run -/

/-- The callback that is ready first is the one that is taken. -/
theorem take_of_ready {c : Callback} {rest : List Callback} (h : s.ready = c :: rest) :
    ∃ l, s.loop.take = (some c, l) := by
  unfold ready at h
  unfold EventLoop.take
  cases turn : s.loop.turn with
  | nil =>
    rw [turn, List.nil_append] at h
    simp [EventLoop.takeFromTurn, EventLoop.nextTurn, turn, h]
  | cons first others =>
    rw [turn] at h
    obtain ⟨rfl, -⟩ := List.cons.inj h
    simp [EventLoop.takeFromTurn, turn]

/-- A callback of an execution that is among the first ones stays there. -/
theorem Follows.mem_take (h : Follows s s') {c : Callback} (own : c.isErrand = false) {n : Nat}
    (within : c ∈ s.ready.take n) : c ∈ s'.ready.take n := by
  obtain ⟨keep, added, kept, ready⟩ := h
  -- the first callbacks that are kept are still the first ones
  have first : (s.ready.take n).filter keep <+: s'.ready.take n := by
    rw [List.prefix_take_iff, ready]
    refine ⟨?_, (List.length_filter_le _ _).trans (List.length_take_le _ _)⟩
    exact ((List.take_prefix n s.ready).filter keep).trans (List.prefix_append _ _)
  exact first.subset (List.mem_filter.2 ⟨within, kept c own⟩)

/-- Whatever happens besides turns, ready callbacks stay in order. -/
theorem move_follows {m : Move σ} (other : m.isTurn = false) : Follows s (s.move a m) := by
  cases m with
  | turn => cases other
  | clock time => exact follows_of_ready rfl
  | outside serving code => exact serve_follows s serving code
  | start =>
    have added : Follows s (s.add { started := .real s.loop.time }) := follows_of_ready rfl
    exact added.trans (step_follows _ _ _)

/-- A turn takes the callback that is ready first, or it brings one behind it a place nearer. -/
theorem turn_mem_take (h : s.Sound) {c : Callback} (own : c.isErrand = false) {n : Nat}
    (within : c ∈ s.ready.take n) :
    (∃ l, s.loop.take = (some c, l)) ∨ c ∈ (s.move a .turn).ready.take (n - 1) := by
  cases ready : s.ready with
  | nil => simp [ready] at within
  | cons first rest =>
    obtain ⟨l, taken⟩ := take_of_ready ready
    obtain ⟨n, rfl⟩ : ∃ m, n = m + 1 := by
      cases n with
      | zero => simp at within
      | succ m => exact ⟨m, rfl⟩
    rw [ready, List.take_succ_cons] at within
    rcases List.mem_cons.1 within with rfl | behind
    · exact .inl ⟨l, taken⟩
    · obtain ⟨added, left, -⟩ := ready_of_take h.timers taken
      -- what the turn adds from the timers is queued behind
      have nearer : c ∈ ({ s with loop := l } : Session σ).ready.take n := by
        rw [left, ready, List.drop_one, List.tail_cons]
        rw [List.take_append]
        exact List.mem_append_left _ behind
      refine .inr ?_
      simp only [Session.move, taken]
      exact (perform_follows a first { s with loop := l }).mem_take own nearer

/-- A callback of an execution is taken within as many turns as callbacks are ready up to it. -/
theorem Reachable.exists_taken (h : s.Reachable a) {c : Callback} (own : c.isErrand = false) {n : Nat}
    (within : c ∈ s.ready.take n) (ms : List (Move σ)) (turns : n ≤ ms.countP Move.isTurn) :
    ∃ before after l, ms = before ++ .turn :: after ∧
      (s.moves a before).loop.take = (some c, l) := by
  -- by induction on the moves; the invariant is the place of the callback, which a turn lowers and other moves keep
  induction ms generalizing s n with
  | nil =>
    obtain rfl := Nat.le_zero.1 turns
    simp at within
  | cons m rest ih =>
    rw [countP_cons_toNat] at turns
    have later : ∀ {n}, c ∈ (s.move a m).ready.take n → n ≤ rest.countP Move.isTurn →
        ∃ before after l, m :: rest = before ++ .turn :: after ∧
          (s.moves a before).loop.take = (some c, l) := by
      intro n within turns
      obtain ⟨before, after, l, rfl, taken⟩ := ih (h.move m) within turns
      exact ⟨m :: before, after, l, rfl, taken⟩
    cases turn : m.isTurn with
    | false => exact later ((move_follows turn).mem_take own within) (by simpa [turn] using turns)
    | true =>
      obtain rfl : m = .turn := by
        cases m with
        | turn => rfl
        | _ => cases turn
      rcases turn_mem_take (a := a) h.sound own within with ⟨l, taken⟩ | nearer
      · exact ⟨[], rest, l, rfl, taken⟩
      · exact later nearer (by simp [Move.isTurn] at turns; omega)

end Session

end Polling
