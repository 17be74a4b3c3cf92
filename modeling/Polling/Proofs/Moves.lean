import Polling.Proofs.Callbacks
import Polling.Proofs.Ledger

/-!
# What can happen on a loop

A `Move` is one thing that happens to a session: the loop runs its next callback, the clock is set, code
of the caller's runs outside of all callbacks, or an execution is started. `Session.Reachable` holds of
the sessions that come about by moves, in any order, with any code of the caller's; whatever the host
of the loop does is a number of moves (`Reachable.settle`, `Reachable.advance`).

`Session.Effect` says what a move does to one execution: it starts it, it runs one of its three
callbacks, or it is not about it. `move_effect` is the only place where the loop is taken apart; every
invariant of sessions follows from it.
-/

namespace Polling

namespace Heap

theorem takeFor_subset (before : α → α → Bool) (p : α → Bool) (steps : Nat) (items : List α) :
    (takeFor before p steps items).1 ⊆ items ∧ (takeFor before p steps items).2 ⊆ items := by
  induction steps generalizing items with
  | zero => exact ⟨List.nil_subset _, List.Subset.refl _⟩
  | succ steps ih =>
    rw [takeFor]
    split
    · exact ⟨List.nil_subset _, List.Subset.refl _⟩
    · next first rest h =>
      have perm := pop?_perm h
      have rest_subset : rest ⊆ items := fun x hx => perm.subset (List.mem_cons_of_mem first hx)
      split
      · refine ⟨?_, fun x hx => rest_subset ((ih rest).2 hx)⟩
        intro x hx
        rcases List.mem_cons.1 hx with rfl | hx
        · exact perm.subset List.mem_cons_self
        · exact rest_subset ((ih rest).1 hx)
      · exact ⟨List.nil_subset _, List.Subset.refl _⟩

end Heap

namespace Promise

instance (p : Promise) : Decidable (p = .cancelled) :=
  match p with
  | .cancelled => .isTrue rfl
  | .pending | .concluded _ | .rejected _ => .isFalse nofun

instance (p : Option Promise) : Decidable (p = some .pending) :=
  match p with
  | some .pending => .isTrue rfl
  | none | some (.concluded _) | some (.rejected _) | some .cancelled => .isFalse nofun

instance (p : Option Promise) : Decidable (p = some .cancelled) :=
  match p with
  | some .cancelled => .isTrue rfl
  | none | some .pending | some (.concluded _) | some (.rejected _) => .isFalse nofun

end Promise

/-- Something that happens on a loop. -/
inductive Move (σ : Type) where
  /-- The loop runs the callback that comes next, if there is one. -/
  | turn
  /-- The clock is set. -/
  | clock (time : Binary64)
  /-- Code of the caller's runs outside of all callbacks. -/
  | outside (serving : RunId) (code : Code σ Unit)
  /-- An execution is started. -/
  | start

namespace Session

/-- The session after a move. -/
def move (a : Asynchronous σ) (s : Session σ) : Move σ → Session σ
  | .turn =>
    match s.loop.take with
    | (none, l) => { s with loop := l }
    | (some k, l) => perform a k { s with loop := l }
  | .clock time => { s with loop := s.loop.moveTo time }
  | .outside serving code => (s.serve serving code).2
  | .start => (s.start a).2

/-- The session after a number of moves. -/
def moves (a : Asynchronous σ) (s : Session σ) (ms : List (Move σ)) : Session σ := ms.foldl (move a) s

theorem moves_append (a : Asynchronous σ) (s : Session σ) (ms ms' : List (Move σ)) :
    s.moves a (ms ++ ms') = (s.moves a ms).moves a ms' := List.foldl_append ..

/-- The promise of an execution, if it was started. -/
def promise? (s : Session σ) (run : RunId) : Option Promise := (s.runs[run]?).map (·.promise)

/-- The sessions that come about by moves. -/
inductive Reachable (a : Asynchronous σ) : Session σ → Prop where
  | init (time : Binary64) (caller : Caller σ) : Reachable a { loop := { time }, caller }
  | move {s : Session σ} (m : Move σ) (h : Reachable a s) : Reachable a (s.move a m)

theorem Reachable.moves {a : Asynchronous σ} {s : Session σ} (h : s.Reachable a)
    (ms : List (Move σ)) : (s.moves a ms).Reachable a := by
  induction ms generalizing s with
  | nil => exact h
  | cons m rest ih => exact ih (h.move m)

/-- The host settles by moves. -/
theorem Reachable.settle {a : Asynchronous σ} {s : Session σ} (h : s.Reachable a) (bound : Nat) :
    ((host a).settle bound s).Reachable a := by
  induction bound generalizing s with
  | zero => exact h
  | succ bound ih =>
    have turned := h.move .turn
    simp only [Session.move] at turned
    simp only [Host.settle, host]
    split
    · next l hl =>
      rw [show s.loop.take = (none, l) from hl] at turned
      exact turned
    · next k l hl =>
      rw [show s.loop.take = (some k, l) from hl] at turned
      exact ih turned

/-- The host moves the clock by moves. -/
theorem Reachable.advanceFrom {a : Asynchronous σ} {s : Session σ} (h : s.Reachable a)
    (bound : Nat) (target : Binary64) (stops : Nat) :
    ((host a).advanceFrom bound target stops s).Reachable a := by
  induction stops generalizing s with
  | zero => exact h
  | succ stops ih =>
    rw [Host.advanceFrom]
    split
    · exact h.move (.clock target)
    · next due _ => exact ih ((h.move (.clock due)).settle bound)

theorem Reachable.advance {a : Asynchronous σ} {s : Session σ} (h : s.Reachable a) (bound : Nat)
    (span : Binary64) : ((host a).advance bound span s).Reachable a :=
  (h.settle bound).advanceFrom bound _ bound

/-! ## Taking a callback from the loop -/

variable {s s' : Session σ} {run run' : RunId}

/-- Beginning a turn, what is added comes from timers. -/
theorem nextTurn_ready {l : EventLoop Callback} (errands : ∀ t ∈ l.timers, t.callback.isErrand = true)
    {p : Callback → Bool} (hp : p ∈ Callback.sorts run) :
    (l.nextTurn.turn ++ l.nextTurn.queue).countP p = (l.turn ++ l.queue).countP p ∧
      ∀ t ∈ l.nextTurn.timers, t.callback.isErrand = true := by
  have live : ∀ t ∈ l.liveTimers, t.callback.isErrand = true := fun t ht =>
    errands t ((Heap.takeFor_subset _ _ _ l.timers).2 ht)
  have due := Heap.takeFor_subset Timer.before (fun t => !l.time.lt t.due) l.liveTimers.length
    l.liveTimers
  refine ⟨?_, fun t ht => live t (due.2 ht)⟩
  have none_counts : ((l.dueTimers.1.filter (!·.dropped)).map (·.callback)).countP p = 0 := by
    rw [List.countP_eq_zero]
    intro k hk
    obtain ⟨t, ht, rfl⟩ := List.mem_map.1 hk
    simp [Callback.eq_false_of_isErrand hp (live t (due.1 (List.mem_filter.1 ht).1))]
  simp only [EventLoop.nextTurn, List.countP_append, none_counts]
  simp

/-- A callback that is taken leaves the others. -/
theorem take_ready {l l' : EventLoop Callback} {k : Option Callback} (h : l.take = (k, l'))
    (errands : ∀ t ∈ l.timers, t.callback.isErrand = true) {p : Callback → Bool}
    (hp : p ∈ Callback.sorts run) :
    (l.turn ++ l.queue).countP p = k.toList.countP p + (l'.turn ++ l'.queue).countP p ∧
      ∀ t ∈ l'.timers, t.callback.isErrand = true := by
  have from_turn : ∀ {m : EventLoop Callback}, m.takeFromTurn = (k, l') →
      (m.turn ++ m.queue).countP p = k.toList.countP p + (l'.turn ++ l'.queue).countP p ∧
        l'.timers = m.timers := by
    intro m hm
    unfold EventLoop.takeFromTurn at hm
    split at hm
    · next first rest turn =>
      obtain ⟨rfl, rfl⟩ := Prod.mk.inj hm
      refine ⟨?_, rfl⟩
      rw [turn]
      simp [List.countP_cons]
      omega
    · obtain ⟨rfl, rfl⟩ := Prod.mk.inj hm
      exact ⟨by simp, rfl⟩
  -- if no callback is left of the turn, the next one is begun first
  unfold EventLoop.take at h
  split at h
  · obtain ⟨count, timers⟩ := from_turn h
    obtain ⟨same, errands'⟩ := nextTurn_ready errands hp
    exact ⟨same.symm.trans count, timers ▸ errands'⟩
  · obtain ⟨count, timers⟩ := from_turn h
    exact ⟨count, timers ▸ errands⟩

/-! ## Callbacks -/

/-- The frame in which a callback of an execution begins. -/
def frame (s : Session σ) (run : RunId) (x : Execution) : Frame σ :=
  { world := { caller := { s.caller with serving := run } }, execution := x }

/-- The session after a callback of an execution, before the orders that it left. -/
def record (s : Session σ) (run : RunId) (f : Frame σ) : Session σ :=
  { s with
    caller := f.world.caller
    runs := s.runs.set run f.execution
    journal := s.journal ++ f.world.history.map (run, ·) }

/-- A callback of an execution has run from one session to another, and ended in a frame. -/
structure Ran (s s' : Session σ) (run : RunId) (x : Execution) (f : Frame σ) (fires : Nat) : Prop where
  lookup : s.runs[run]? = some x
  shifts : Shifts (s.record run f) s' run fires (f.orders.countP Order.isWatch)
    (f.orders.countP Order.isSettling)
  watched : ∀ id, (id, run) ∈ s'.watched → (id, run) ∈ s.watched ∨ .watch id ∈ f.orders
  caller : s'.caller = f.world.caller

/-- A callback of an execution runs in a frame, and its orders are carried out. -/
theorem step_eq {x : Execution} (hx : s.runs[run]? = some x) (body : Step σ Unit) :
    s.step run body = ((body (s.frame run x)).1,
      (body (s.frame run x)).2.orders.foldl (obey · run) (s.record run (body (s.frame run x)).2)) := by
  simp only [step, hx]
  rfl

theorem step_ran {x : Execution} (hx : s.runs[run]? = some x) (body : Step σ Unit) :
    ∃ k, Ran s (s.step run body).2 run x (body (s.frame run x)).2 k := by
  obtain ⟨k, shifts⟩ := foldl_obey_shifts (body (s.frame run x)).2.orders
    (s.record run (body (s.frame run x)).2) run run
  rw [if_pos rfl, if_pos rfl] at shifts
  have same : (s.step run body).2 = (body (s.frame run x)).2.orders.foldl (obey · run)
      (s.record run (body (s.frame run x)).2) := by
    rw [step_eq hx]
  refine ⟨k, hx, by rw [same]; exact shifts, ?_, ?_⟩
  · intro id mem
    rw [same] at mem
    have earlier := mem_watched_foldl_obey mem
    exact earlier
  · rw [same, foldl_obey_caller]
    rfl

/-- The entries of another execution are not its own. -/
theorem record_shifts (h : run' ≠ run) (f : Frame σ) : Shifts s (s.record run' f) run 0 0 0 where
  journal := by simp [journalOf, record, List.filter_append, List.filter_map, Function.comp_def, h]
  due := rfl
  inFlight := rfl
  watched := fun _ => .inl
  settlings := by simp [settlings, ready, record, isSettled, h]
  execution := fun x hx => ⟨x.promise, Promise.orCancelled_refl _, by simpa [record, h] using hx⟩
  unknown := fun none => ⟨rfl, by simpa [record] using none⟩
  timers := id

theorem step_shifts (h : run' ≠ run) (body : Step σ Unit) :
    ∃ k, Shifts s (s.step run' body).2 run k 0 0 := by
  unfold step
  split
  · exact ⟨0, shifts_refl s run⟩
  · next x hx =>
    obtain ⟨k, shifts⟩ := foldl_obey_shifts (body (s.frame run' x)).2.orders
      (s.record run' (body (s.frame run' x)).2) run run'
    rw [if_neg h, if_neg h] at shifts
    exact ⟨k, (record_shifts h _).after shifts⟩

theorem enter_shifts (h : run' ≠ run) (e : Event) : Shifts s (s.enter run' e) run 0 0 0 :=
  shifts_of_runs rfl (by simp [journalOf, enter, h]) rfl rfl (fun _ => .inl) rfl (fun _ => rfl) id

/-- Changing the caller's side changes no ledger. -/
theorem caller_shifts (s : Session σ) (run : RunId) (caller : Caller σ) :
    Shifts s { s with caller } run 0 0 0 :=
  shifts_of_runs rfl (by simp [journalOf]) rfl rfl (fun _ => .inl) rfl (fun _ => rfl) id

theorem serve_shifts (s : Session σ) (run serving : RunId) (c : Code σ α) :
    ∃ k, Shifts s (s.serve serving c).2 run k 0 0 := by
  obtain ⟨k, shifts⟩ := foldl_answer_shifts (c { s.caller with serving }).2.requests
    { s with caller := { (c { s.caller with serving }).2 with requests := [] } } run
  exact ⟨k, (caller_shifts s run _).after shifts⟩

theorem report_shifts (s : Session σ) (run : RunId) (e : Fault) :
    Shifts s (s.report e) run 0 0 0 := by
  unfold report
  split
  · refine shifts_of_runs rfl (by simp [journalOf]) ?_ ?_ (fun _ => .inl) ?_ (fun _ => rfl) id
    · simp [due, ready, EventLoop.breakOff]
    · simp [inFlight, ready, EventLoop.breakOff]
    · simp [settlings, ready, EventLoop.breakOff]
  · exact shifts_of_runs rfl (by simp [journalOf]) rfl rfl (fun _ => .inl) rfl (fun _ => rfl) id

theorem report_caller (s : Session σ) (e : Fault) : (s.report e).caller = s.caller := by
  unfold report
  split <;> rfl

theorem Ran.report {x : Execution} {f : Frame σ} {k : Nat} (h : Ran s s' run x f k)
    (result : Except Fault Unit) :
    Ran s (match result with | .ok () => s' | .error e => s'.report e) run x f k := by
  rcases result with e | ⟨⟩
  · have watched := (report_shifts s' run e).watched
    refine ⟨h.lookup, h.shifts.trans (report_shifts s' run e), ?_, (report_caller s' e).trans h.caller⟩
    intro id mem
    exact h.watched id ((watched id mem).resolve_right (Nat.lt_irrefl 0))
  · exact h

theorem Shifts.report {k w c : Nat} (h : Shifts s s' run k w c) (result : Except Fault Unit) :
    Shifts s (match result with | .ok () => s' | .error e => s'.report e) run k w c := by
  rcases result with e | ⟨⟩
  · exact h.trans (report_shifts s' run e)
  · exact h

/-! ## The effect of a move on one execution -/

/-- An execution is added. -/
def add (s : Session σ) (x : Execution) : Session σ := { s with runs := s.runs ++ [x] }

/-- An execution that is added makes no difference to another. -/
theorem add_shifts (h : s.runs.length ≠ run) (x : Execution) : Shifts s (s.add x) run 0 0 0 := by
  have same : (s.add x).runs[run]? = s.runs[run]? := by
    rcases Nat.lt_or_ge run s.runs.length with inside | outside
    · exact List.getElem?_append_left inside
    · rw [List.getElem?_eq_none_iff.2 outside]
      refine List.getElem?_eq_none_iff.2 ?_
      have above := Nat.lt_of_le_of_ne outside h
      simpa [add, Nat.succ_le_iff] using above
  refine ⟨by simp [journalOf, add], rfl, rfl, fun _ => .inl, ?_, ?_, ?_, id⟩
  · simp only [isSettled, same]
    rfl
  · exact fun y hy => ⟨y.promise, Promise.orCancelled_refl _, same.trans hy⟩
  · exact fun none => ⟨rfl, same.trans none⟩

/-- A move is not about an execution: it does not start it and runs none of its callbacks. -/
def Aside (s : Session σ) (run : RunId) : Move σ → Prop
  | .turn => ∀ c l, s.loop.take = (some c, l) → ∀ p ∈ Callback.sorts run, p c = false
  | .start => s.runs.length ≠ run
  | _ => True

/-- What a move does to one execution. -/
inductive Effect (a : Asynchronous σ) (s s' : Session σ) (m : Move σ) (run : RunId) : Prop where
  /-- The move is not about the execution. -/
  | other {k} (aside : s.Aside run m) (shifts : Shifts s s' run k 0 0)
  /-- The execution is started. -/
  | start {x k} (new : run = s.runs.length) (fresh : x = { started := .real s.loop.time })
      (ran : Ran (s.add x) s' run x (a.attempt run s.loop.time (frame s run x)).2 k)
  /-- An attempt is run. -/
  | attempt {l x k} (taken : s.loop.take = (some (.attempt run), l))
      (ran : Ran { s with loop := l } s' run x (a.attempt run l.time (frame s run x)).2 k)
  /-- The result of a poll is taken. -/
  | pollEnded {l ending x k} (taken : s.loop.take = (some (.pollEnded run ending), l))
      (ran : Ran ({ s with loop := l }.enter run (.ended ending)) s' run x
        (a.pollEnded run l.time ending (frame s run x)).2 k)
  /-- What follows the settling of the promise is done. -/
  | settled {l x k} (taken : s.loop.take = (some (.settled run), l))
      (ran : Ran { s with loop := l } s' run x (a.settled (frame s run x)).2 k)

/-- What holds of every session that can be reached: nothing but errands lies behind a timer, and
nothing is to come for an execution that was not started. -/
structure Sound (s : Session σ) : Prop where
  timers : s.TimersAreErrands
  unknown : ∀ run, s.runs[run]? = none →
    s.journalOf run = [] ∧ s.due run = 0 ∧ s.inFlight run = 0 ∧ s.settlings run = 0

/-- Taking a callback that is not about an execution. -/
theorem take_shifts {l : EventLoop Callback} {k : Option Callback} (errands : s.TimersAreErrands)
    (h : s.loop.take = (k, l)) (other : ∀ c ∈ k, ∀ p ∈ Callback.sorts run, p c = false) :
    Shifts s { s with loop := l } run 0 0 0 := by
  refine shifts_loop ?_ fun _ => ?_
  · intro p hp
    have same := (take_ready h errands hp).1
    have none_counts : k.toList.countP p = 0 := by
      rw [List.countP_eq_zero]
      intro c hc
      simp [other c (Option.mem_toList.1 hc) p hp]
    rw [none_counts, Nat.zero_add] at same
    exact same.symm
  · exact (take_ready h errands (Callback.isAttempt_mem_sorts run)).2

/-- A callback that a test for an execution picks out is one of the three of the execution. -/
theorem own_of_sort {c : Callback} {p : Callback → Bool} (hp : p ∈ Callback.sorts run)
    (hc : p c = true) : c = .attempt run ∨ (∃ ending, c = .pollEnded run ending) ∨ c = .settled run := by
  simp only [Callback.sorts, List.mem_cons, List.not_mem_nil, or_false] at hp
  rcases hp with rfl | rfl | rfl <;> cases c <;>
    simp_all [Callback.isAttempt, Callback.isPollEnded, Callback.isSettled]

/-- Something is queued only for executions that were started. -/
theorem Sound.lookup (h : s.Sound) {l : EventLoop Callback} {c : Callback}
    (taken : s.loop.take = (some c, l)) {p : Callback → Bool} (hp : p ∈ Callback.sorts run)
    (hc : p c = true) : ∃ x, s.runs[run]? = some x := by
  cases hx : s.runs[run]? with
  | some x => exact ⟨x, rfl⟩
  | none =>
    -- the callback taken would be one that is to come for it
    obtain ⟨-, due, inFlight, settlings⟩ := h.unknown run hx
    have count := (take_ready taken h.timers hp).1
    have some_ready : 0 < s.ready.countP p := by
      rw [ready, count, Option.toList_some, List.countP_singleton, if_pos hc]
      omega
    simp only [Callback.sorts, List.mem_cons, List.not_mem_nil, or_false] at hp
    unfold Session.due Session.inFlight Session.settlings at *
    rcases hp with rfl | rfl | rfl <;> omega

/-- What is not about an execution does to it no more than requests of the caller's code do. -/
theorem Aside.shifts {a : Asynchronous σ} {m : Move σ} (h : s.Sound) (aside : s.Aside run m) :
    ∃ k, Shifts s (s.move a m) run k 0 0 := by
  cases m with
  | clock time => exact ⟨0, shifts_loop (fun p _ => rfl) id⟩
  | outside serving code => exact serve_shifts s run serving code
  | start =>
    obtain ⟨k, shifts⟩ := step_shifts (s := s.add { started := .real s.loop.time }) aside
      (a.attempt s.runs.length s.loop.time)
    exact ⟨k, (add_shifts aside _).after shifts⟩
  | turn =>
    simp only [move]
    split
    · next l taken => exact ⟨0, take_shifts h.timers taken (by simp)⟩
    · next c l taken =>
      have others : ∀ p ∈ Callback.sorts run, p c = false := aside c l taken
      -- the callback taken is none of those that are counted for the execution
      have popped : Shifts s { s with loop := l } run 0 0 0 := by
        apply take_shifts h.timers taken
        intro c' hc
        obtain rfl := Option.some.inj hc
        exact others
      cases c with
      | errand e =>
        cases e with
        | fire run' =>
          obtain ⟨k, shifts⟩ := fire_shifts { s with loop := l } run run'
          exact ⟨k, popped.after shifts⟩
        | resume poll =>
          obtain ⟨k, shifts⟩ := serve_shifts { s with loop := l } run 0 (a.resume poll)
          exact ⟨k, (popped.after shifts).report _⟩
        | wake poll =>
          obtain ⟨k, shifts⟩ := serve_shifts { s with loop := l } run 0 (a.wake poll)
          exact ⟨k, (popped.after shifts).report _⟩
      | attempt run' =>
        have other : run' ≠ run := by
          simpa [Callback.isAttempt] using others _ (Callback.isAttempt_mem_sorts run)
        obtain ⟨k, shifts⟩ := step_shifts (s := { s with loop := l }) other (a.attempt run' l.time)
        exact ⟨k, (popped.after shifts).report _⟩
      | pollEnded run' ending =>
        have other : run' ≠ run := by
          simpa [Callback.isPollEnded] using others _ (Callback.isPollEnded_mem_sorts run)
        obtain ⟨k, shifts⟩ := step_shifts (s := { s with loop := l }.enter run' (.ended ending)) other
          (a.pollEnded run' l.time ending)
        exact ⟨k, (popped.after ((enter_shifts other _).after shifts)).report _⟩
      | settled run' =>
        have other : run' ≠ run := by
          simpa [Callback.isSettled] using others _ (Callback.isSettled_mem_sorts run)
        obtain ⟨k, shifts⟩ := step_shifts (s := { s with loop := l }) other a.settled
        exact ⟨k, (popped.after shifts).report _⟩

/-- A move has an effect on every execution. -/
theorem move_effect (a : Asynchronous σ) {s : Session σ} (h : s.Sound) (m : Move σ) (run : RunId) :
    Effect a s (s.move a m) m run := by
  by_cases aside : s.Aside run m
  · obtain ⟨k, shifts⟩ := aside.shifts h
    exact .other aside shifts
  · cases m with
    | clock time => exact absurd trivial aside
    | outside serving code => exact absurd trivial aside
    | start =>
      obtain rfl : s.runs.length = run := Decidable.not_not.1 aside
      obtain ⟨k, ran⟩ := step_ran (s := s.add { started := .real s.loop.time })
        (List.getElem?_concat_length ..) (a.attempt s.runs.length s.loop.time)
      exact .start rfl rfl ran
    | turn =>
      -- the callback that is taken is one of its own
      simp only [Aside, Classical.not_forall, Bool.not_eq_false] at aside
      obtain ⟨c, l, taken, p, hp, hc⟩ := aside
      obtain ⟨x, hx⟩ := h.lookup taken hp hc
      rcases own_of_sort hp hc with rfl | ⟨ending, rfl⟩ | rfl
      · obtain ⟨k, ran⟩ := step_ran (s := { s with loop := l }) hx (a.attempt run l.time)
        simp only [move, taken]
        exact .attempt taken (ran.report _)
      · obtain ⟨k, ran⟩ := step_ran (s := { s with loop := l }.enter run (.ended ending)) hx
          (a.pollEnded run l.time ending)
        simp only [move, taken]
        exact .pollEnded taken (ran.report _)
      · obtain ⟨k, ran⟩ := step_ran (s := { s with loop := l }) hx a.settled
        simp only [move, taken]
        exact .settled taken (ran.report _)

/-! ## The ledger after a callback -/

/-- What a callback of an execution does to its ledger, given what it does to its frame. -/
structure Grown (s s' : Session σ) (run : RunId) (x x' : Execution) (es : List Event)
    (watches fires : Nat) : Prop where
  journal : s'.journalOf run = s.journalOf run ++ es ++ List.replicate fires .fired
  due : s'.due run = s.due run + fires
  inFlight : s'.inFlight run = s.inFlight run + watches
  settlings : s'.settlings run + x.promise.isSettled.toNat =
    s.settlings run + x'.promise.isSettled.toNat
  lookup : s'.runs[run]? = some x'

/-- After a callback, the execution is as the callback has left it, unless its promise has been
cancelled since. -/
theorem Ran.grown {s₀ : Session σ} {x : Execution} {f : Frame σ} {k : Nat} (h : Ran s s' run x f k)
    {es : List Event} {os : List Order} (grows : Frame.Grows (s₀.frame run x) f es os) :
    ∃ p, f.execution.promise.OrCancelled p ∧
      Grown s s' run x { f.execution with promise := p } es (os.countP Order.isWatch) k := by
  have inside := (List.getElem?_eq_some_iff.1 h.lookup).1
  have orders : f.orders = os := grows.orders
  have history : f.world.history = es := grows.history
  obtain ⟨p, hp, lookup⟩ := h.shifts.execution f.execution (by simp [record, inside])
  refine ⟨p, hp, ?_, h.shifts.due, ?_, ?_, lookup⟩
  · rw [h.shifts.journal]
    simp [journalOf, record, history, List.filter_map, Function.comp_def]
  · rw [h.shifts.inFlight, orders]
    rfl
  · -- the frame has ordered a settling if it has settled the promise, and the loop has passed it on
    have settles := grows.settlings
    have passed := h.shifts.settlings
    simp only [isSettled, lookup, orders] at passed
    simp [record, inside, settlings, ready] at passed ⊢
    change _ + x.promise.isSettled.toNat = _ at settles
    omega

/-- A promise that was settled before the callback is the same after it. -/
theorem Ran.grown_of_isSettled {s₀ : Session σ} {x : Execution} {f : Frame σ} {k : Nat}
    (h : Ran s s' run x f k) {es : List Event} {os : List Order}
    (grows : Frame.Grows (s₀.frame run x) f es os) (settled : x.promise.isSettled = true) :
    Grown s s' run x { f.execution with promise := x.promise } es (os.countP Order.isWatch) k := by
  obtain ⟨p, hp, grown⟩ := h.grown grows
  have kept : f.execution.promise = x.promise := grows.kept settled
  rw [kept] at hp
  rw [Promise.eq_of_orCancelled hp settled] at grown
  exact grown

/-- A callback that is taken is one less that is ready. -/
theorem Sound.taken (h : s.Sound) {l : EventLoop Callback} {c : Callback}
    (taken : s.loop.take = (some c, l)) (run : RunId) :
    s.due run = (c.isAttempt run).toNat + { s with loop := l }.due run ∧
      s.inFlight run = (c.isPollEnded run).toNat + { s with loop := l }.inFlight run ∧
      s.settlings run = (c.isSettled run).toNat + { s with loop := l }.settlings run := by
  have count : ∀ p ∈ Callback.sorts run,
      s.ready.countP p = (p c).toNat + ({ s with loop := l } : Session σ).ready.countP p := by
    intro p hp
    have same := (take_ready taken h.timers hp).1
    rw [Option.toList_some, countP_cons_toNat, List.countP_nil, Nat.add_zero] at same
    exact same
  have flying := count _ (Callback.isPollEnded_mem_sorts run)
  refine ⟨count _ (Callback.isAttempt_mem_sorts run), ?_, count _ (Callback.isSettled_mem_sorts run)⟩
  simp only [inFlight]
  omega

/-- An attempt that is taken is not due any more. -/
theorem Sound.attempt_taken (h : s.Sound) {l : EventLoop Callback}
    (taken : s.loop.take = (some (.attempt run), l)) :
    s.due run = 1 + { s with loop := l }.due run ∧
      s.inFlight run = { s with loop := l }.inFlight run := by
  obtain ⟨due, inFlight, -⟩ := h.taken taken run
  exact ⟨by simpa [Callback.isAttempt] using due, by simpa [Callback.isPollEnded] using inFlight⟩

/-- A poll whose result is taken is not in flight any more. -/
theorem Sound.pollEnded_taken (h : s.Sound) {l : EventLoop Callback} {ending : Ending}
    (taken : s.loop.take = (some (.pollEnded run ending), l)) :
    s.due run = { s with loop := l }.due run ∧
      s.inFlight run = 1 + { s with loop := l }.inFlight run := by
  obtain ⟨due, inFlight, -⟩ := h.taken taken run
  exact ⟨by simpa [Callback.isAttempt] using due, by simpa [Callback.isPollEnded] using inFlight⟩

/-- What follows the settling of a promise is neither an attempt nor a poll. -/
theorem Sound.settled_taken (h : s.Sound) {l : EventLoop Callback}
    (taken : s.loop.take = (some (.settled run), l)) :
    s.due run = { s with loop := l }.due run ∧
      s.inFlight run = { s with loop := l }.inFlight run := by
  obtain ⟨due, inFlight, -⟩ := h.taken taken run
  exact ⟨by simpa [Callback.isAttempt] using due, by simpa [Callback.isPollEnded] using inFlight⟩

/-- Only what follows the settling of a promise is one settling less when it is taken. -/
theorem Sound.settlings_taken (h : s.Sound) {l : EventLoop Callback} {c : Callback}
    (taken : s.loop.take = (some c, l)) (other : c.isSettled run = false) :
    s.settlings run = { s with loop := l }.settlings run := by
  have count := (h.taken taken run).2.2
  rw [other] at count
  simpa using count

/-- The journal when the result of a poll has been taken from the loop and entered. -/
theorem journalOf_enter (s : Session σ) (l : EventLoop Callback) (run : RunId) (e : Event) :
    ({ s with loop := l }.enter run e).journalOf run = s.journalOf run ++ [e] := by
  simp [journalOf, enter]

theorem Effect.timers {a : Asynchronous σ} {m : Move σ} (h : s.Sound) (e : Effect a s s' m run) :
    s'.TimersAreErrands := by
  have popped : ∀ {c l}, s.loop.take = (some c, l) → ({ s with loop := l } : Session σ).TimersAreErrands :=
    fun taken => (take_ready taken h.timers (Callback.isAttempt_mem_sorts run)).2
  cases e with
  | other aside shifts => exact shifts.timers h.timers
  | start new fresh ran => exact ran.shifts.timers h.timers
  | attempt taken ran => exact ran.shifts.timers (popped taken)
  | pollEnded taken ran => exact ran.shifts.timers (popped taken)
  | settled taken ran => exact ran.shifts.timers (popped taken)

/-- A callback of an execution finds it and leaves it there. -/
theorem Ran.lookup_isSome {x : Execution} {f : Frame σ} {k : Nat}
    (h : Ran s s' run x f k) : s'.runs[run]? ≠ none := by
  have inside := (List.getElem?_eq_some_iff.1 h.lookup).1
  obtain ⟨p, -, lookup⟩ := h.shifts.execution f.execution (by simp [record, inside])
  simp [lookup]

/-- A move keeps what holds of every session. -/
theorem Sound.move (a : Asynchronous σ) (h : s.Sound) (m : Move σ) : (s.move a m).Sound := by
  refine ⟨(move_effect a h m 0).timers h, ?_⟩
  intro run none
  -- an execution that is not there was not touched by the move
  cases move_effect a h m run with
  | other aside shifts =>
    cases hx : s.runs[run]? with
    | some x =>
      obtain ⟨p, -, lookup⟩ := shifts.execution x hx
      exact absurd none (by simp [lookup])
    | none =>
      obtain ⟨journal, due, inFlight, settlings⟩ := h.unknown run hx
      obtain ⟨rfl, -⟩ := shifts.unknown hx
      have settles := shifts.settlings
      simp only [isSettled, hx, none] at settles
      refine ⟨?_, ?_, ?_, ?_⟩
      · rw [shifts.journal, journal]
        rfl
      · rw [shifts.due, due]
      · rw [shifts.inFlight, inFlight]
      · simpa [settlings] using settles
  | start new fresh ran => exact absurd none ran.lookup_isSome
  | attempt taken ran => exact absurd none ran.lookup_isSome
  | pollEnded taken ran => exact absurd none ran.lookup_isSome
  | settled taken ran => exact absurd none ran.lookup_isSome

theorem Reachable.sound {a : Asynchronous σ} (h : s.Reachable a) : s.Sound := by
  induction h with
  | init time caller =>
    exact ⟨by simp [TimersAreErrands], fun run _ => ⟨rfl, rfl, rfl, rfl⟩⟩
  | move m h ih => exact ih.move a m

end Session

end Polling
