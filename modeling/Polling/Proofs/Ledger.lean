import Polling.Session
import Polling.Proofs.Frames

/-!
# The ledger of an execution

What is still to come for an execution lies in several places of a session: its polls are watched or
have ended and are queued, its fired attempts are queued, and the settling of its promise is queued.
`Session.inFlight`, `Session.due` and `Session.settlings` count these, and `Session.journalOf` is what
the execution has entered into the journal.

`Shifts s s' run fires watches settles` says what becomes of the ledger of one execution when orders
and requests are carried out: its scheduler has called back so many times, so many of its polls have
been watched, and so many settlings of its promise have been passed on. Nothing else can happen to it
meanwhile, but that its promise is cancelled.
-/

namespace Polling

namespace Callback

/-- Does a callback run an attempt of an execution? -/
def isAttempt (run : RunId) : Callback → Bool
  | .attempt r => r == run
  | _ => false

/-- Does a callback take the result of a poll of an execution? -/
def isPollEnded (run : RunId) : Callback → Bool
  | .pollEnded r _ => r == run
  | _ => false

/-- Does a callback follow the settling of the promise of an execution? -/
def isSettled (run : RunId) : Callback → Bool
  | .settled r => r == run
  | _ => false

/-- The tests for the callbacks of an execution. -/
def sorts (run : RunId) : List (Callback → Bool) := [isAttempt run, isPollEnded run, isSettled run]

theorem isAttempt_mem_sorts (run : RunId) : isAttempt run ∈ sorts run := by simp [sorts]

theorem isPollEnded_mem_sorts (run : RunId) : isPollEnded run ∈ sorts run := by simp [sorts]

theorem isSettled_mem_sorts (run : RunId) : isSettled run ∈ sorts run := by simp [sorts]

/-- Is a callback an errand? -/
def isErrand : Callback → Bool
  | .errand _ => true
  | _ => false

/-- An errand belongs to no execution. -/
theorem eq_false_of_isErrand {run : RunId} {p : Callback → Bool} (hp : p ∈ sorts run)
    {k : Callback} (h : k.isErrand = true) : p k = false := by
  cases k with
  | errand e =>
    simp only [sorts, List.mem_cons, List.not_mem_nil, or_false] at hp
    rcases hp with rfl | rfl | rfl <;> rfl
  | _ => exact nomatch h

end Callback

namespace Session

/-- What an execution has entered into the journal. -/
def journalOf (s : Session σ) (run : RunId) : List Event :=
  (s.journal.filter (·.1 == run)).map (·.2)

/-- The callbacks that run without the clock moving, but for those of timers. -/
def ready (s : Session σ) : List Callback := s.loop.turn ++ s.loop.queue

/-- How many attempts of an execution are queued. -/
def due (s : Session σ) (run : RunId) : Nat := s.ready.countP (Callback.isAttempt run)

/-- How many polls of an execution have not been taken the result of. -/
def inFlight (s : Session σ) (run : RunId) : Nat :=
  s.watched.countP (·.2 == run) + s.ready.countP (Callback.isPollEnded run)

/-- How many settlings of the promise of an execution are queued. -/
def settlings (s : Session σ) (run : RunId) : Nat := s.ready.countP (Callback.isSettled run)

/-- Is the promise of an execution settled? -/
def isSettled (s : Session σ) (run : RunId) : Bool :=
  ((s.runs[run]?).map (·.promise.isSettled)).getD false

/-- Nothing but errands lies behind a timer. -/
def TimersAreErrands (s : Session σ) : Prop := ∀ t ∈ s.loop.timers, t.callback.isErrand = true

/-- What carrying out orders and requests does to one execution. -/
structure Shifts (s s' : Session σ) (run : RunId) (fires watches settles : Nat) : Prop where
  journal : s'.journalOf run = s.journalOf run ++ List.replicate fires .fired
  due : s'.due run = s.due run + fires
  inFlight : s'.inFlight run = s.inFlight run + watches
  /-- A poll comes to be watched only if one is counted. -/
  watched : ∀ id, (id, run) ∈ s'.watched → (id, run) ∈ s.watched ∨ 0 < watches
  settlings : s'.settlings run + (s.isSettled run).toNat =
    s.settlings run + (s'.isSettled run).toNat + settles
  execution : ∀ x, s.runs[run]? = some x → ∃ p, x.promise.OrCancelled p ∧
    s'.runs[run]? = some { x with promise := p }
  unknown : s.runs[run]? = none → fires = 0 ∧ s'.runs[run]? = none
  timers : s.TimersAreErrands → s'.TimersAreErrands

variable {s s' s'' : Session σ} {run : RunId}

/-- A shift without a change of any execution. -/
theorem shifts_of_runs {k w c : Nat} (runs : s'.runs = s.runs)
    (journal : s'.journalOf run = s.journalOf run ++ List.replicate k Event.fired)
    (due : s'.due run = s.due run + k) (inFlight : s'.inFlight run = s.inFlight run + w)
    (watched : ∀ id, (id, run) ∈ s'.watched → (id, run) ∈ s.watched ∨ 0 < w)
    (settlings : s'.settlings run = s.settlings run + c)
    (unknown : s.runs[run]? = none → k = 0)
    (timers : s.TimersAreErrands → s'.TimersAreErrands) : Shifts s s' run k w c where
  journal := journal
  due := due
  inFlight := inFlight
  watched := watched
  settlings := by
    rw [settlings, isSettled, isSettled, runs]
    omega
  execution := fun x hx => ⟨x.promise, Promise.orCancelled_refl _, by rw [runs]; exact hx⟩
  unknown := fun none => ⟨unknown none, by rw [runs]; exact none⟩
  timers := timers

theorem shifts_refl (s : Session σ) (run : RunId) : Shifts s s run 0 0 0 :=
  shifts_of_runs rfl (by simp) rfl rfl (fun _ => .inl) rfl (fun _ => rfl) id

theorem Shifts.trans {k k' w w' c c' : Nat} (h : Shifts s s' run k w c)
    (h' : Shifts s' s'' run k' w' c') : Shifts s s'' run (k + k') (w + w') (c + c') where
  journal := by rw [h'.journal, h.journal, List.append_assoc, List.replicate_append_replicate]
  due := by rw [h'.due, h.due, Nat.add_assoc]
  inFlight := by rw [h'.inFlight, h.inFlight, Nat.add_assoc]
  watched := by
    intro id mem
    rcases h'.watched id mem with mem | counted
    · rcases h.watched id mem with mem | counted
      · exact .inl mem
      · exact .inr (by omega)
    · exact .inr (by omega)
  settlings := by
    -- what is settled in between is counted by both, and cancels out
    have first := h.settlings
    have second := h'.settlings
    omega
  execution := by
    intro x hx
    obtain ⟨p, hp, hx'⟩ := h.execution x hx
    obtain ⟨q, hq, hx''⟩ := h'.execution _ hx'
    exact ⟨q, Promise.orCancelled_trans hp hq, hx''⟩
  unknown := by
    intro none
    obtain ⟨rfl, none⟩ := h.unknown none
    obtain ⟨rfl, none⟩ := h'.unknown none
    exact ⟨rfl, none⟩
  timers := fun errands => h'.timers (h.timers errands)

/-- An execution that is there after a shift was there before. -/
theorem Shifts.lookup {k w c : Nat} (h : Shifts s s' run k w c) {y : Execution}
    (hy : s'.runs[run]? = some y) : ∃ x, s.runs[run]? = some x ∧
      x.promise.OrCancelled y.promise ∧ y = { x with promise := y.promise } := by
  cases hx : s.runs[run]? with
  | none => exact absurd hy (by simp [(h.unknown hx).2])
  | some x =>
    obtain ⟨p, hp, hx'⟩ := h.execution x hx
    obtain rfl := Option.some.inj (hx'.symm.trans hy)
    exact ⟨x, rfl, hp, rfl⟩

/-- What shifts nothing can come before a shift. -/
theorem Shifts.after {k w c : Nat} (h : Shifts s s' run 0 0 0) (h' : Shifts s' s'' run k w c) :
    Shifts s s'' run k w c := by
  simpa using h.trans h'

/-! ## What changes the loop alone -/

/-- A change of the loop, and of nothing else, that leaves the callbacks of an execution. -/
theorem shifts_loop {l : EventLoop Callback}
    (ready : ∀ p ∈ Callback.sorts run, (l.turn ++ l.queue).countP p = s.ready.countP p)
    (timers : s.TimersAreErrands → ∀ t ∈ l.timers, t.callback.isErrand = true) :
    Shifts s { s with loop := l } run 0 0 0 := by
  have flying := ready _ (Callback.isPollEnded_mem_sorts run)
  have settling := ready _ (Callback.isSettled_mem_sorts run)
  refine shifts_of_runs rfl (by simp [journalOf]) (ready _ (Callback.isAttempt_mem_sorts run)) ?_
    (fun _ => .inl) settling (fun _ => rfl) timers
  simp only [inFlight, Session.ready, flying, Nat.add_zero]

theorem soon_errand_shifts (s : Session σ) (run : RunId) (e : Errand) :
    Shifts s (s.soon (.errand e)) run 0 0 0 :=
  shifts_loop (l := s.loop.soon (.errand e)) (by
    intro p hp
    simp [EventLoop.soon, ready, List.countP_append,
      Callback.eq_false_of_isErrand (k := .errand e) hp rfl]) id

theorem later_shifts (s : Session σ) (run : RunId) (delay : Binary64) (e : Errand) :
    Shifts s { s with loop := s.loop.later delay (.errand e) } run 0 0 0 := by
  refine shifts_loop (fun p _ => rfl) ?_
  intro errands t ht
  have perm := Heap.push_perm Timer.before
    ⟨s.loop.time.add delay, .errand e, false⟩ s.loop.timers
  rcases List.mem_cons.1 (perm.subset ht) with rfl | ht
  · rfl
  · exact errands t ht

/-- Taking errands back leaves the callbacks of executions. -/
theorem drop_shifts (s : Session σ) (run : RunId) (e : Errand) :
    Shifts s { s with loop := s.loop.drop (Session.isErrand e) } run 0 0 0 := by
  refine shifts_loop ?_ ?_
  · intro p hp
    have kept : ∀ k ∈ s.ready, p k = true → (!Session.isErrand e k) = true := by
      intro k _ hk
      -- what is dropped is an errand, which no test for an execution picks out
      cases k with
      | errand e' => exact absurd hk (by simp [Callback.eq_false_of_isErrand (k := .errand e') hp rfl])
      | _ => rfl
    simp only [EventLoop.drop, ← List.filter_append, List.countP_filter]
    apply List.countP_congr
    intro k hk
    simp only [Bool.and_eq_true]
    exact ⟨fun h => h.1, fun h => ⟨h, kept k hk h⟩⟩
  · intro errands t ht
    obtain ⟨u, hu, rfl⟩ := List.mem_map.1 ht
    split
    · exact errands u hu
    · exact errands u hu

/-! ## What queues a callback of an execution -/

/-- A settling of a promise is passed on. -/
theorem soon_settled_shifts (s : Session σ) (run run' : RunId) :
    Shifts s (s.soon (.settled run')) run 0 0 (if run' = run then 1 else 0) := by
  refine shifts_of_runs rfl (by simp [journalOf, soon]) ?_ ?_ (fun _ => .inl) ?_ (fun _ => rfl) id
  · simp [due, ready, soon, EventLoop.soon, List.countP_append, Callback.isAttempt]
  · simp [inFlight, ready, soon, EventLoop.soon, List.countP_append, Callback.isPollEnded]
  · simp [settlings, ready, soon, EventLoop.soon, List.countP_append, Callback.isSettled,
      Nat.add_assoc]

/-- The end of a poll is passed on. -/
theorem soon_pollEnded_shifts (s : Session σ) (run run' : RunId) (ending : Ending) :
    Shifts s (s.soon (.pollEnded run' ending)) run 0 (if run' = run then 1 else 0) 0 := by
  refine shifts_of_runs rfl (by simp [journalOf, soon]) ?_ ?_ (fun _ => .inl) ?_ (fun _ => rfl) id
  · simp [due, ready, soon, EventLoop.soon, List.countP_append, Callback.isAttempt]
  · simp [inFlight, ready, soon, EventLoop.soon, List.countP_append, Callback.isPollEnded,
      Nat.add_assoc]
  · simp [settlings, ready, soon, EventLoop.soon, List.countP_append, Callback.isSettled]

/-- The scheduler calls an execution back. -/
theorem fire_shifts (s : Session σ) (run run' : RunId) :
    ∃ k, Shifts s (s.fire run') run k 0 0 := by
  unfold fire
  split
  · next started =>
    refine ⟨if run' = run then 1 else 0, shifts_of_runs rfl ?_ ?_ ?_ (fun _ => .inl) ?_ ?_ id⟩
    · by_cases h : run' = run <;> simp [journalOf, soon, enter, h]
    · simp [due, ready, soon, enter, EventLoop.soon, List.countP_append, Callback.isAttempt,
        Nat.add_assoc]
    · simp [inFlight, ready, soon, enter, EventLoop.soon, List.countP_append,
        Callback.isPollEnded]
    · simp [settlings, ready, soon, enter, EventLoop.soon, List.countP_append,
        Callback.isSettled]
    · intro none
      refine if_neg ?_
      rintro rfl
      exact absurd (List.getElem?_eq_none_iff.1 none) (Nat.not_le.2 started)
  · exact ⟨0, shifts_refl s run⟩

/-- A poll of an execution is watched. -/
theorem watch_shifts (s : Session σ) (run run' : RunId) (poll : PollId) :
    Shifts s (s.watch run' poll) run 0 (if run' = run then 1 else 0) 0 := by
  unfold watch
  split
  · next ending _ => exact soon_pollEnded_shifts s run run' ending
  · refine shifts_of_runs rfl (by simp [journalOf]) rfl ?_ ?_ rfl (fun _ => rfl) id
    · simp [inFlight, ready, List.countP_append]
      omega
    · intro id mem
      rcases List.mem_append.1 mem with mem | new
      · exact .inl mem
      · obtain ⟨-, rfl⟩ := Prod.mk.inj (List.mem_singleton.1 new)
        exact .inr (by simp)

/-- The promise of an execution is cancelled. -/
theorem cancel_shifts (s : Session σ) (run run' : RunId) : Shifts s (s.cancel run').2 run 0 0 0 := by
  unfold cancel
  split
  · next x hx =>
    cases settled : x.promise.isSettled with
    | true => exact shifts_refl s run
    | false =>
      obtain ⟨inside, here⟩ := List.getElem?_eq_some_iff.1 hx
      refine ⟨by simp [journalOf, soon], ?_, ?_, fun _ => .inl, ?_, ?_, ?_, id⟩
      · simp [due, ready, soon, EventLoop.soon, List.countP_append, Callback.isAttempt]
      · simp [inFlight, ready, soon, EventLoop.soon, List.countP_append, Callback.isPollEnded]
      · -- its own promise is settled now, and this is the one settling to be passed on
        by_cases h : run' = run
        · subst h
          simp [settlings, ready, soon, EventLoop.soon, List.countP_append, Callback.isSettled,
            isSettled, Promise.isSettled, here, Promise.eq_pending settled, inside, Nat.add_assoc]
        · simp [settlings, ready, soon, EventLoop.soon, List.countP_append, Callback.isSettled,
            isSettled, h]
      · intro y hy
        by_cases h : run' = run
        · subst h
          obtain rfl : x = y := Option.some.inj (hx.symm.trans hy)
          exact ⟨.cancelled, .inr ⟨Promise.eq_pending settled, rfl⟩, by simp [soon, inside]⟩
        · exact ⟨y.promise, Promise.orCancelled_refl _, by simpa [soon, h] using hy⟩
      · intro none
        exact ⟨rfl, by simpa [soon] using none⟩
  · exact shifts_refl s run

/-- Telling watchers of an end is queueing. -/
theorem foldl_soon_pollEnded (watchers : List (PollId × RunId)) (ending : Ending) (s : Session σ) :
    watchers.foldl (fun s (_, run) => s.soon (.pollEnded run ending)) s =
      { s with loop := { s.loop with
        queue := s.loop.queue ++ watchers.map fun w => .pollEnded w.2 ending } } := by
  induction watchers generalizing s with
  | nil => simp
  | cons w rest ih =>
    rw [List.foldl_cons, ih]
    simp [soon, EventLoop.soon]

/-- A poll ends. For those who watch it, it stays in flight. -/
theorem finish_shifts (s : Session σ) (run : RunId) (poll : PollId) (ending : Ending) :
    Shifts s (s.finish poll ending) run 0 0 0 := by
  unfold finish
  split
  · exact shifts_refl s run
  · simp only [foldl_soon_pollEnded]
    refine shifts_of_runs rfl (by simp [journalOf]) ?_ ?_ ?_ ?_ (fun _ => rfl) id
    · simp [due, ready, List.countP_append, Callback.isAttempt, List.countP_map, Function.comp_def]
    · -- the polls that were watched are those still watched and those queued now
      have parts := List.countP_eq_countP_filter_add s.watched (·.2 == run) (·.1 == poll)
      simp only [inFlight, ready, List.countP_append, List.countP_map, Function.comp_def,
        Callback.isPollEnded, bne]
      omega
    · exact fun id mem => .inl ((List.mem_filter.1 mem).1)
    · simp [settlings, ready, List.countP_append, Callback.isSettled, List.countP_map,
        Function.comp_def]

/-! ## Requests and orders -/

/-- Carrying out a request shifts the ledger. -/
theorem answer_shifts (s : Session σ) (run : RunId) (r : Request) :
    ∃ k, Shifts s (s.answer r) run k 0 0 := by
  cases r with
  | cancel run' => exact ⟨0, cancel_shifts s run run'⟩
  | fire run' => exact fire_shifts s run run'
  | finish poll ending => exact ⟨0, finish_shifts s run poll ending⟩
  | soon e => exact ⟨0, soon_errand_shifts s run e⟩
  | later delay e => exact ⟨0, later_shifts s run delay e⟩
  | drop e => exact ⟨0, drop_shifts s run e⟩

theorem foldl_answer_shifts (requests : List Request) (s : Session σ) (run : RunId) :
    ∃ k, Shifts s (requests.foldl answer s) run k 0 0 := by
  induction requests generalizing s with
  | nil => exact ⟨0, shifts_refl s run⟩
  | cons r rest ih =>
    obtain ⟨k, first⟩ := answer_shifts s run r
    obtain ⟨k', others⟩ := ih (s.answer r)
    exact ⟨k + k', first.trans others⟩

/-- Carrying out an order of an execution shifts its ledger, and for every other execution it is like
carrying out a request. -/
theorem obey_shifts (s : Session σ) (run run' : RunId) (o : Order) :
    ∃ k, Shifts s (s.obey run' o) run k (if run' = run then o.isWatch.toNat else 0)
      (if run' = run then o.isSettling.toNat else 0) := by
  simp only [Order.isWatch, Order.isSettling]
  cases o with
  | settled => exact ⟨0, by simpa [obey] using soon_settled_shifts s run run'⟩
  | watch poll => exact ⟨0, by simpa [obey] using watch_shifts s run run' poll⟩
  | timer delay => exact ⟨0, by simpa [obey] using later_shifts s run delay (.fire run')⟩
  | stopTimer => exact ⟨0, by simpa [obey] using drop_shifts s run (.fire run')⟩
  | request r => simpa [obey] using answer_shifts s run r

/-- What is counted is one more if the first entry is. -/
theorem countP_cons_toNat (p : α → Bool) (x : α) (xs : List α) :
    (x :: xs).countP p = (p x).toNat + xs.countP p := by
  cases h : p x <;> simp [h, Nat.add_comm]

theorem foldl_obey_shifts (os : List Order) (s : Session σ) (run run' : RunId) :
    ∃ k, Shifts s (os.foldl (obey · run') s) run k
      (if run' = run then os.countP Order.isWatch else 0)
      (if run' = run then os.countP Order.isSettling else 0) := by
  induction os generalizing s with
  | nil => exact ⟨0, by simpa using shifts_refl s run⟩
  | cons o rest ih =>
    obtain ⟨k, first⟩ := obey_shifts s run run' o
    obtain ⟨k', others⟩ := ih (s.obey run' o)
    refine ⟨k + k', ?_⟩
    have both := first.trans others
    by_cases own : run' = run
    · rw [if_pos own, if_pos own, if_pos own, if_pos own] at both
      rw [if_pos own, if_pos own, countP_cons_toNat, countP_cons_toNat]
      exact both
    · simpa [own] using both

/-- A poll that an execution comes to watch was in its orders. -/
theorem mem_watched_obey {s : Session σ} {run : RunId} {o : Order} {id : PollId}
    (h : (id, run) ∈ (s.obey run o).watched) : (id, run) ∈ s.watched ∨ o = .watch id := by
  obtain ⟨k, shifts⟩ := obey_shifts s run run o
  cases o with
  | watch poll =>
    simp only [obey, watch] at h
    split at h
    · exact .inl h
    · rcases List.mem_append.1 h with mem | new
      · exact .inl mem
      · obtain ⟨rfl, -⟩ := Prod.mk.inj (List.mem_singleton.1 new)
        exact .inr rfl
  | _ =>
    rcases shifts.watched id h with mem | counted
    · exact .inl mem
    · exact absurd counted (by simp [Order.isWatch])

theorem mem_watched_foldl_obey {os : List Order} {s : Session σ} {run : RunId} {id : PollId}
    (h : (id, run) ∈ (os.foldl (obey · run) s).watched) :
    (id, run) ∈ s.watched ∨ .watch id ∈ os := by
  induction os generalizing s with
  | nil => exact .inl h
  | cons o rest ih =>
    rcases ih h with mem | later
    · rcases mem_watched_obey mem with mem | rfl
      · exact .inl mem
      · exact .inr List.mem_cons_self
    · exact .inr (List.mem_cons_of_mem o later)

/-! ## The caller's side -/

theorem cancel_caller (s : Session σ) (run : RunId) : (s.cancel run).2.caller = s.caller := by
  unfold cancel
  repeat' split
  all_goals rfl

theorem answer_caller (s : Session σ) (r : Request) : (s.answer r).caller = s.caller := by
  cases r with
  | cancel run => exact cancel_caller s run
  | fire run =>
    simp only [answer, fire]
    split <;> rfl
  | finish poll ending =>
    simp only [answer, finish]
    split
    · rfl
    · rw [foldl_soon_pollEnded]
  | _ => rfl

theorem obey_caller (s : Session σ) (run : RunId) (o : Order) :
    (s.obey run o).caller = s.caller := by
  cases o with
  | request r => exact answer_caller s r
  | watch poll =>
    simp only [obey, watch]
    split <;> rfl
  | _ => rfl

/-- Carrying out orders does not change the caller's side. -/
theorem foldl_obey_caller (os : List Order) (s : Session σ) (run : RunId) :
    (os.foldl (obey · run) s).caller = s.caller := by
  induction os generalizing s with
  | nil => rfl
  | cons o rest ih => rw [List.foldl_cons, ih, obey_caller]

end Session

end Polling
