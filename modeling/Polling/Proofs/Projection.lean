import Polling.Proofs.Alone

/-!
# The projection of a session on one execution

Whatever happens on a loop, what happens to one of its executions happens to that execution alone as
well: `Session.Mirrors` relates a session to a session of the execution alone, and every move of the
first is matched by a number of moves of the second, its share (`Mirrors.move`). A callback of the
execution is the same callback of the execution alone, when the answers have been put there. Of any other
move the execution alone gets the requests that are there to it: that its promise is cancelled, that its
delay is over, or that a poll has ended.

The execution alone keeps no timers. When one would call it back is part of what it is told.
-/

namespace Polling

/-- Code that asks the loop for something. -/
def Code.asking (rs : List Request) : Code σ Unit :=
  fun k => (.ok (), { k with requests := k.requests ++ rs })

namespace Session

/-- There is nothing in a session but one execution. -/
structure IsLone (s : Session σ) : Prop where
  runs : s.runs.length ≤ 1
  ready : ∀ c ∈ s.ready, c.own 0 = some c
  watched : ∀ w ∈ s.watched, w.2 = 0
  timers : ∀ t ∈ s.loop.timers, t.callback = .errand (.fire 0)

variable {s : Session σ} {s' : Session Answers} {run : RunId}

/-! ## Sessions with one execution -/

theorem IsLone.soon (h : s.IsLone) {c : Callback} (own : c.own 0 = some c) : (s.soon c).IsLone := by
  refine ⟨h.runs, ?_, h.watched, h.timers⟩
  intro c' mem
  simp only [Session.ready, Session.soon, EventLoop.soon, ← List.append_assoc] at mem
  rcases List.mem_append.1 mem with mem | new
  · exact h.ready c' mem
  · rw [List.mem_singleton.1 new]
    exact own

theorem IsLone.answer (h : s.IsLone) {r : Request} (own : r.own 0 = some r) : (s.answer r).IsLone := by
  -- what a request queues is about the only execution, and errands are not its own
  cases r with
  | cancel r =>
    obtain rfl : r = 0 := Decidable.byContradiction fun other => by simp [Request.own, other] at own
    simp only [Session.answer, cancel]
    split
    · next x _ =>
      split
      · exact h
      · have cancelled : IsLone { s with runs := s.runs.set 0 { x with promise := .cancelled } } :=
          ⟨by simpa using h.runs, h.ready, h.watched, h.timers⟩
        exact cancelled.soon (c := .settled 0) rfl
    · exact h
  | fire r =>
    obtain rfl : r = 0 := Decidable.byContradiction fun other => by simp [Request.own, other] at own
    simp only [Session.answer, fire]
    split
    · have fired : (s.enter 0 .fired).IsLone := ⟨h.runs, h.ready, h.watched, h.timers⟩
      exact fired.soon (c := .attempt 0) rfl
    · exact h
  | finish poll ending =>
    simp only [Session.answer, finish]
    split
    · exact h
    · rw [foldl_soon_pollEnded]
      refine ⟨h.runs, ?_, fun w mem => h.watched w (List.mem_filter.1 mem).1, h.timers⟩
      intro c mem
      simp only [Session.ready, ← List.append_assoc] at mem
      rcases List.mem_append.1 mem with mem | new
      · exact h.ready c mem
      · obtain ⟨w, watches, rfl⟩ := List.mem_map.1 new
        rw [h.watched w (List.mem_filter.1 watches).1]
        rfl
  | soon e => cases own
  | later delay e => cases own
  | drop e => cases own

/-- Taking errands back leaves a session with one execution. -/
theorem IsLone.drop (h : s.IsLone) (e : Errand) :
    { s with loop := s.loop.drop (isErrand e) }.IsLone := by
  refine ⟨h.runs, ?_, h.watched, ?_⟩
  · intro c mem
    simp only [Session.ready, EventLoop.drop, ← List.filter_append] at mem
    exact h.ready c (List.mem_filter.1 mem).1
  · intro t mem
    obtain ⟨u, hu, rfl⟩ := List.mem_map.1 mem
    split
    · exact h.timers u hu
    · exact h.timers u hu

theorem IsLone.obey (h : s.IsLone) {o : Order} (lone : o.IsLone) : (s.obey 0 o).IsLone := by
  cases o with
  | settled => exact h.soon rfl
  | watch poll =>
    simp only [Session.obey, watch]
    split
    · exact h.soon rfl
    · refine ⟨h.runs, h.ready, ?_, h.timers⟩
      intro w mem
      rcases List.mem_append.1 mem with mem | new
      · exact h.watched w mem
      · rw [List.mem_singleton.1 new]
  | timer delay =>
    refine ⟨h.runs, h.ready, h.watched, ?_⟩
    intro t mem
    have perm := Heap.push_perm Timer.before
      ⟨s.loop.time.add delay, .errand (.fire 0), false⟩ s.loop.timers
    rcases List.mem_cons.1 (perm.subset mem) with rfl | mem
    · rfl
    · exact h.timers t mem
  | stopTimer => exact h.drop _
  | request r => exact h.answer lone

theorem IsLone.foldl_obey {os : List Order} (h : s.IsLone) (lone : ∀ o ∈ os, o.IsLone) :
    (os.foldl (Session.obey · 0) s).IsLone := by
  induction os generalizing s with
  | nil => exact h
  | cons o rest ih =>
    exact ih (h.obey (lone o List.mem_cons_self)) fun o' mem => lone o' (List.mem_cons_of_mem o mem)

theorem IsLone.foldl_answer {rs : List Request} (h : s.IsLone) (own : ∀ r ∈ rs, r.own 0 = some r) :
    (rs.foldl Session.answer s).IsLone := by
  induction rs generalizing s with
  | nil => exact h
  | cons r rest ih =>
    exact ih (h.answer (own r List.mem_cons_self)) fun r' mem => own r' (List.mem_cons_of_mem r mem)

theorem IsLone.report (h : s.IsLone) (e : Fault) : (s.report e).IsLone := by
  unfold Session.report
  split
  · exact ⟨h.runs, fun c mem => h.ready c (by simpa [Session.ready, EventLoop.breakOff] using mem), h.watched,
      h.timers⟩
  · exact ⟨h.runs, h.ready, h.watched, h.timers⟩

/-- Where no timer is left, the callback taken next is the first that is ready. -/
theorem take_of_dropped {l : EventLoop Callback} (dropped : ∀ t ∈ l.timers, t.dropped = true)
    {c : Callback} {rest : List Callback} (ready : l.turn ++ l.queue = c :: rest) :
    ∃ l', l.take = (some c, l') ∧ l'.turn ++ l'.queue = rest ∧ l'.timers ⊆ l.timers ∧
      l'.time = l.time := by
  have live := Heap.takeFor_subset Timer.before (·.dropped) l.timers.length l.timers
  have due := Heap.takeFor_subset Timer.before (fun t => !l.time.lt t.due) l.liveTimers.length
    l.liveTimers
  have none_due : l.dueTimers.1.filter (!·.dropped) = [] := by
    rw [List.filter_eq_nil_iff]
    intro t mem
    simp [dropped t (live.2 (due.1 mem))]
  -- no timer adds to the turn, so it is made of what was queued
  cases hturn : l.turn with
  | nil =>
    rw [hturn] at ready
    have queue : l.queue = c :: rest := ready
    refine ⟨{ l with turn := rest, queue := [], timers := l.dueTimers.2 }, ?_, by simp, ?_, rfl⟩
    · simp [EventLoop.take, hturn, EventLoop.nextTurn, none_due, queue, EventLoop.takeFromTurn]
    · exact fun t mem => live.2 (due.2 mem)
  | cons first others =>
    rw [hturn, List.cons_append] at ready
    obtain ⟨rfl, others_ready⟩ := List.cons.inj ready
    refine ⟨{ l with turn := others }, ?_, others_ready, List.Subset.refl _, rfl⟩
    simp [EventLoop.take, hturn, EventLoop.takeFromTurn]

/-! ## Sessions and their projections -/

/-- A session of an execution alone is what a session is to the execution. -/
structure Abreast (run : RunId) (s : Session σ) (s' : Session Answers) : Prop where
  part : s'.part 0 = s.part run
  lone : s'.IsLone
  requests : s.caller.requests = []
  requests' : s'.caller.requests = []

/-- The same, and nothing is left to the timers. -/
structure Mirrors (run : RunId) (s : Session σ) (s' : Session Answers) : Prop
    extends Abreast run s s' where
  dropped : ∀ t ∈ s'.loop.timers, t.dropped = true

/-- The record of the execution alone is that of the execution. -/
theorem Abreast.runs (h : Abreast run s s') : s'.runs = (s.runs[run]?).toList := by
  have same : s'.runs[0]? = s.runs[run]? := by
    rw [← part_runs_getElem? s', h.part, part_runs_getElem?]
  have one := h.lone.runs
  rcases hr : s'.runs with _ | ⟨x, _ | ⟨y, rest⟩⟩
  · rw [hr] at same
    rw [← same]
    rfl
  · rw [hr] at same
    rw [← same]
    rfl
  · rw [hr] at one
    simp at one

/-- The entries of the execution alone are those of the execution. -/
theorem Abreast.journalOf (h : Abreast run s s') : s'.journalOf 0 = s.journalOf run := by
  rw [← journalOf_part s', h.part, journalOf_part]

theorem Abreast.enter (h : Abreast run s s') (e : Event) : Abreast run (s.enter run e) (s'.enter 0 e) where
  part := by rw [part_enter, part_enter, h.part]
  lone := ⟨h.lone.runs, h.lone.ready, h.lone.watched, h.lone.timers⟩
  requests := h.requests
  requests' := h.requests'

theorem Abreast.report (h : Abreast run s s') (result : Except Fault Unit) :
    Abreast run (match result with | .ok () => s | .error e => s.report e)
      (match result with | .ok () => s' | .error e => s'.report e) := by
  rcases result with e | ⟨⟩
  · exact ⟨by rw [part_report, part_report, h.part], h.lone.report e,
      by rw [report_caller, h.requests], by rw [report_caller, h.requests']⟩
  · exact h

/-- A callback of the execution and the same callback of the execution alone come to the same, if the
right answers have been put there. -/
theorem Abreast.step (h : Abreast run s s') {x : Execution} (hx : s.runs[run]? = some x)
    {body : Step σ Unit} {body' : Step Answers Unit}
    (doubles : Step.Doubles run s'.caller.state (s.frame run x) body body') :
    (s'.step 0 body').1 = (s.step run body).1 ∧
      Abreast run (s.step run body).2 (s'.step 0 body').2 := by
  have hx' : s'.runs[0]? = some x := by rw [h.runs, hx]; rfl
  have start : Frame.Doubles run s'.caller.state (s.frame run x) (s'.frame 0 x) :=
    ⟨rfl, rfl, rfl, by simp [frame], rfl, h.requests, by simp [frame, h.requests']⟩
  obtain ⟨result, after⟩ := doubles _ start
  have part : (s'.step 0 body').2.part 0 = (s.step run body).2.part run := by
    rw [part_step hx', part_step hx, after.orders, after.execution, after.history, h.part]
  rw [step_eq hx, step_eq hx'] at *
  refine ⟨result, part, ?_, ?_, ?_⟩
  · refine IsLone.foldl_obey ⟨?_, h.lone.ready, h.lone.watched, h.lone.timers⟩ after.lone
    simpa [record] using h.lone.runs
  · rw [foldl_obey_caller]
    exact after.requests
  · rw [foldl_obey_caller]
    exact congrArg Caller.requests after.caller

variable {a : Asynchronous σ} {b : Asynchronous Answers} {k : Caller σ}

/-- Putting answers there changes nothing else. -/
theorem Mirrors.put (h : Mirrors run s s') (answers : Answers) :
    Mirrors run s (s'.move b (.outside 0 (Code.change fun _ => answers))) ∧
      (s'.move b (.outside 0 (Code.change fun _ => answers))).caller.state = answers := by
  have same : s'.move b (.outside 0 (Code.change fun _ => answers)) =
      { s' with caller := { state := answers } } := by
    simp [Session.move, serve, Code.change, Code.onState, h.requests']
  rw [same]
  exact ⟨⟨⟨h.part, ⟨h.lone.runs, h.lone.ready, h.lone.watched, h.lone.timers⟩, h.requests, rfl⟩,
    h.dropped⟩, rfl⟩

/-- Asking the loop for something is having it carried out. -/
theorem move_asking (a : Asynchronous σ) (s : Session σ) (rs : List Request)
    (requests : s.caller.requests = []) :
    s.move a (.outside 0 (Code.asking rs)) =
      rs.foldl answer { s with caller := { s.caller with serving := 0, requests := [] } } := by
  simp [Session.move, serve, Code.asking, requests]

theorem foldl_answer_caller (rs : List Request) (s : Session σ) :
    (rs.foldl answer s).caller = s.caller := by
  induction rs generalizing s with
  | nil => rfl
  | cons r rest ih => rw [List.foldl_cons, ih, answer_caller]

/-- When the timers have been taken back, nothing is left to them. -/
theorem Abreast.mirrors (h : Abreast run s s') :
    Mirrors run s (s'.move b (.outside 0 (Code.asking [.drop (.fire 0)]))) := by
  rw [move_asking _ _ _ h.requests']
  have lone : IsLone { s' with caller := { s'.caller with serving := 0, requests := [] } } :=
    ⟨h.lone.runs, h.lone.ready, h.lone.watched, h.lone.timers⟩
  refine ⟨⟨?_, lone.drop (.fire 0), h.requests, rfl⟩, ?_⟩
  · exact (part_drop _ 0 (.fire 0)).trans h.part
  · intro t mem
    obtain ⟨u, hu, rfl⟩ := List.mem_map.1 mem
    rw [if_pos (by rw [h.lone.timers u hu]; rfl)]

/-- What is there to the only execution leaves the timers. -/
theorem answer_timers {r : Request} (own : r.own 0 = some r) (s : Session σ) :
    (s.answer r).loop.timers = s.loop.timers := by
  cases r with
  | cancel r =>
    simp only [answer, cancel]
    split
    · split <;> rfl
    · rfl
  | fire r =>
    simp only [answer, fire]
    split <;> rfl
  | finish poll ending =>
    simp only [answer, finish]
    split
    · rfl
    · rw [foldl_soon_pollEnded]
  | soon e => cases own
  | later delay e => cases own
  | drop e => cases own

/-- A move that is to the execution some requests is matched by the execution alone being told them. -/
theorem Mirrors.told {t : Session σ} (h : Mirrors run s s') (requests : t.caller.requests = [])
    {rs : List Request}
    (part : t.part run = (rs.filterMap (Request.own run)).foldl answer (s.part run)) :
    Mirrors run t (s'.move b (.outside 0 (Code.asking (rs.filterMap (Request.own run))))) := by
  have own : ∀ r ∈ rs.filterMap (Request.own run), r.own 0 = some r := by
    intro r mem
    obtain ⟨r', -, hr⟩ := List.mem_filterMap.1 mem
    have both := Request.own_bind_own run r'
    rw [hr] at both
    exact both
  -- none of these requests sets or drops a timer
  have kept : ∀ (os : List Request) (u : Session Answers), (∀ r ∈ os, r.own 0 = some r) →
      (os.foldl answer u).loop.timers = u.loop.timers := by
    intro os
    induction os with
    | nil => exact fun _ _ => rfl
    | cons r rest ih =>
      intro u all
      rw [List.foldl_cons, ih _ fun r' mem => all r' (List.mem_cons_of_mem r mem),
        answer_timers (all r List.mem_cons_self)]
  rw [move_asking _ _ _ h.requests']
  refine ⟨⟨?_, ?_, requests, ?_⟩, ?_⟩
  · rw [part_foldl_answer, Request.filterMap_own_filterMap_own, part]
    exact congrArg (List.foldl answer · _) h.part
  · exact IsLone.foldl_answer ⟨h.lone.runs, h.lone.ready, h.lone.watched, h.lone.timers⟩ own
  · rw [foldl_answer_caller]
  · rw [kept _ _ own]
    exact h.dropped

/-- Callbacks of the only execution are what they are. -/
theorem filterMap_own {cs : List Callback} (own : ∀ c ∈ cs, c.own 0 = some c) :
    cs.filterMap (Callback.own 0) = cs := by
  induction cs with
  | nil => rfl
  | cons c rest ih =>
    rw [List.filterMap_cons, own c List.mem_cons_self,
      ih fun d mem => own d (List.mem_cons_of_mem c mem)]

/-- When a callback of the execution is taken, the execution alone takes the same. -/
theorem Mirrors.taken (h : Mirrors run s s') (errands : s.TimersAreErrands)
    {l : EventLoop Callback} {c c' : Callback} (taken : s.loop.take = (some c, l))
    (own : c.own run = some c') :
    ∃ l', s'.loop.take = (some c', l') ∧ l'.time = l.time ∧
      Abreast run { s with loop := l } { s' with loop := l' } := by
  obtain ⟨ready, time⟩ := take_own taken errands run
  have queues : s'.ready = c' :: (l.turn ++ l.queue).filterMap (Callback.own run) := by
    have queue : s'.ready.filterMap (Callback.own 0) = s.ready.filterMap (Callback.own run) :=
      congrArg (·.loop.queue) h.part
    rw [filterMap_own h.lone.ready, ready] at queue
    simpa [own] using queue
  have times : s'.loop.time = s.loop.time := congrArg (·.loop.time) h.part
  obtain ⟨l', taken', rest, timers, time'⟩ := take_of_dropped h.dropped queues
  have times' : l'.time = l.time := time'.trans (times.trans time.symm)
  have own_rest : ∀ d ∈ (l.turn ++ l.queue).filterMap (Callback.own run), d.own 0 = some d :=
    fun d mem => h.lone.ready d (queues ▸ List.mem_cons_of_mem c' mem)
  refine ⟨l', taken', times', ?_, ?_, h.requests, h.requests'⟩
  · rw [part_loop s' l', part_loop s l, h.part, rest, filterMap_own own_rest, times']
  · refine ⟨h.lone.runs, ?_, h.lone.watched, fun t mem => h.lone.timers t (timers mem)⟩
    intro d mem
    exact own_rest d (rest ▸ mem)

/-! ## Moves -/

section Moves

variable (functional : a.waiter.IsFunctional) (keeps : a.KeepsServing)

/-- A callback that has its double leaves no request behind. -/
theorem requests_step (requests : s.caller.requests = []) {run : RunId} {body : Step σ Unit}
    {body' : Step Answers Unit}
    (doubles : ∀ f : Frame σ, ∃ answers, Step.Doubles run answers f body body') :
    (s.step run body).2.caller.requests = [] := by
  cases hx : s.runs[run]? with
  | none => simpa [Session.step, hx] using requests
  | some x =>
    obtain ⟨answers, doubles⟩ := doubles (s.frame run x)
    have start : Frame.Doubles run answers (s.frame run x)
        { world := { caller := { state := answers } }, execution := x } :=
      ⟨rfl, rfl, rfl, by simp, rfl, requests, rfl⟩
    rw [step_eq hx, foldl_obey_caller]
    exact (doubles _ start).2.requests

theorem requests_serve (s : Session σ) (run : RunId) (c : Code σ α) :
    (s.serve run c).2.caller.requests = [] :=
  congrArg Caller.requests (foldl_answer_caller _ _)

include functional keeps

/-- Whatever happens, no request is left behind. -/
theorem requests_move (requests : s.caller.requests = []) (m : Move σ) :
    (s.move a m).caller.requests = [] := by
  have result : ∀ (t : Session σ) (r : Except Fault Unit), t.caller.requests = [] →
      (match r with | .ok () => t | .error e => t.report e).caller.requests = [] := by
    intro t r h
    rcases r with e | ⟨⟩
    · rw [report_caller, h]
    · exact h
  -- every call of the loop ends with the requests carried out
  cases m with
  | clock time => exact requests
  | outside serving code => exact requests_serve s serving code
  | start =>
    exact requests_step (s := s.add { started := .real s.loop.time }) requests
      (Asynchronous.attempt_doubles functional keeps s.caller s.runs.length s.loop.time)
  | turn =>
    simp only [Session.move]
    split
    · exact requests
    · next c l _ =>
      cases c with
      | errand e =>
        cases e with
        | fire r => exact (congrArg Caller.requests (answer_caller { s with loop := l } (.fire r))).trans requests
        | resume poll => exact result _ _ (requests_serve _ 0 (a.resume poll))
        | wake poll => exact result _ _ (requests_serve _ 0 (a.wake poll))
      | attempt r =>
        exact result _ _ (requests_step (s := { s with loop := l }) requests
          (Asynchronous.attempt_doubles functional keeps s.caller r l.time))
      | pollEnded r ending =>
        have stepped := requests_step (s := { s with loop := l }.enter r (.ended ending)) requests
          (Asynchronous.pollEnded_doubles functional keeps s.caller r l.time ending)
        exact result _ _ stepped
      | settled r =>
        exact result _ _ (requests_step (s := { s with loop := l }) requests
          (Asynchronous.settled_doubles keeps s.caller r))

omit functional keeps in
/-- When the execution is started, so is the execution alone. -/
theorem Abreast.start (h : Abreast s.runs.length s s')
    (doubles : Step.Doubles s.runs.length s'.caller.state
      (s.frame s.runs.length { started := .real s.loop.time })
      (a.attempt s.runs.length s.loop.time) ((a.alone k).attempt 0 s.loop.time)) :
    Abreast s.runs.length (s.move a .start) (s'.move (a.alone k) .start) := by
  have time : s'.loop.time = s.loop.time := congrArg (·.loop.time) h.part
  have none : s'.runs = [] := by
    rw [h.runs, List.getElem?_eq_none_iff.2 (Nat.le_refl _)]
    rfl
  have added : Abreast s.runs.length (s.add { started := .real s.loop.time })
      (s'.add { started := .real s.loop.time }) := by
    refine ⟨?_, ⟨?_, h.lone.ready, h.lone.watched, h.lone.timers⟩, h.requests, h.requests'⟩
    · rw [part_add rfl, part_add (by rw [none]; rfl), h.part]
    · simp [add, none]
  have step := (added.step (List.getElem?_concat_length ..) doubles).2
  -- alone, the execution is the first one, and begins at the same time
  have started : s'.start (a.alone k) =
      (s'.add { started := .real s.loop.time }).step 0 ((a.alone k).attempt 0 s.loop.time) := by
    rw [Session.start, none, time]
    simp only [add, none]
    rfl
  rw [Session.move, Session.move, started]
  exact step

omit functional keeps in
/-- A callback of the execution is matched by putting the answers there, taking it, and taking the timers
back. -/
theorem Mirrors.performs (h : Mirrors run s s') (sound : s.Sound) {l : EventLoop Callback}
    {c c' : Callback} (taken : s.loop.take = (some c, l)) (own : c.own run = some c')
    (performs : ∃ answers : Answers, ∀ t' : Session Answers, t'.caller.state = answers →
      t'.loop.time = l.time → Abreast run { s with loop := l } t' →
      Abreast run (perform a c { s with loop := l }) (perform (a.alone k) c' t')) :
    ∃ share, Mirrors run (s.move a .turn) (s'.moves (a.alone k) share) := by
  obtain ⟨answers, performs⟩ := performs
  obtain ⟨put, state⟩ := h.put (b := a.alone k) answers
  let u := s'.move (a.alone k) (.outside 0 (Code.change fun _ => answers))
  obtain ⟨l', taken', time, abreast⟩ := put.taken sound.timers taken own
  have after := performs { u with loop := l' } state time abreast
  have turn : s.move a .turn = perform a c { s with loop := l } := by simp only [Session.move, taken]
  have turn' : u.move (a.alone k) .turn = perform (a.alone k) c' { u with loop := l' } := by
    simp only [Session.move]
    rw [taken']
  refine ⟨[.outside 0 (Code.change fun _ => answers), .turn,
    .outside 0 (Code.asking [.drop (.fire 0)])], ?_⟩
  simp only [Session.moves, List.foldl_cons, List.foldl_nil]
  rw [turn, turn']
  exact after.mirrors

/-- Every move is matched by moves of the execution alone. -/
theorem Mirrors.move (h : Mirrors run s s') (sound : s.Sound) (m : Move σ) :
    ∃ share, Mirrors run (s.move a m) (s'.moves (a.alone k) share) := by
  have requests : (s.move a m).caller.requests = [] := requests_move functional keeps h.requests m
  by_cases aside : s.Aside run m
  · by_cases clocked : ∃ time, m = .clock time
    · obtain ⟨time, rfl⟩ := clocked
      refine ⟨[.clock time], ⟨⟨?_, ?_, requests, h.requests'⟩, h.dropped⟩⟩
      · have part := h.part
        simp only [Session.moves, List.foldl_cons, List.foldl_nil, Session.move]
        rw [part_loop s', part_loop s, part]
        exact congrArg (fun q => { s.part run with loop := { time, queue := q } })
          (congrArg (·.loop.queue) part)
      · exact ⟨h.lone.runs, h.lone.ready, h.lone.watched, h.lone.timers⟩
    · have part := aside.part (a := a) sound fun time hm => clocked ⟨time, hm⟩
      exact ⟨[.outside 0 (Code.asking ((s.asked a m).filterMap (Request.own run)))],
        h.told (b := a.alone k) requests part⟩
  · cases m with
    | clock time => exact absurd trivial aside
    | outside serving code => exact absurd trivial aside
    | start =>
      obtain rfl : s.runs.length = run := Decidable.not_not.1 aside
      obtain ⟨answers, doubles⟩ := Asynchronous.attempt_doubles functional keeps k s.runs.length
        s.loop.time (s.frame s.runs.length { started := .real s.loop.time })
      obtain ⟨put, state⟩ := h.put (b := a.alone k) answers
      refine ⟨[.outside 0 (Code.change fun _ => answers), .start,
        .outside 0 (Code.asking [.drop (.fire 0)])], ?_⟩
      simp only [Session.moves, List.foldl_cons, List.foldl_nil]
      have started := put.toAbreast.start (by rw [state]; exact doubles)
      exact started.mirrors
    | turn =>
      -- the callback that is taken is one of its own
      simp only [Aside, Classical.not_forall, Bool.not_eq_false] at aside
      obtain ⟨c, l, taken, p, hp, hc⟩ := aside
      obtain ⟨x, hx⟩ := sound.lookup taken hp hc
      rcases own_of_sort hp hc with rfl | ⟨ending, rfl⟩ | rfl
      · obtain ⟨answers, doubles⟩ :=
          Asynchronous.attempt_doubles functional keeps k run l.time (s.frame run x)
        refine h.performs sound taken (if_pos rfl) ⟨answers, fun t' state time abreast => ?_⟩
        rw [← state] at doubles
        have step := abreast.step hx doubles
        simp only [perform]
        rw [time, step.1]
        exact step.2.report _
      · obtain ⟨answers, doubles⟩ :=
          Asynchronous.pollEnded_doubles functional keeps k run l.time ending (s.frame run x)
        refine h.performs sound taken (if_pos rfl) ⟨answers, fun t' state time abreast => ?_⟩
        rw [← show (t'.enter 0 (.ended ending)).caller.state = answers from state] at doubles
        have step := (abreast.enter (.ended ending)).step hx doubles
        simp only [perform]
        rw [time, step.1]
        exact step.2.report _
      · obtain ⟨answers, doubles⟩ :=
          Asynchronous.settled_doubles keeps k run (s.frame run x)
        refine h.performs sound taken (if_pos rfl) ⟨answers, fun t' state time abreast => ?_⟩
        rw [← state] at doubles
        have step := abreast.step hx doubles
        simp only [perform]
        rw [step.1]
        exact step.2.report _

/-- A path of moves is matched step by step: every move has its share, and the moves so far are matched by
their shares. -/
theorem Mirrors.moves (h : Mirrors run s s') (reachable : s.Reachable a) (ms : List (Move σ)) :
    ∃ shares : List (List (Move Answers)), shares.length = ms.length ∧
      ∀ n, Mirrors run (s.moves a (ms.take n)) (s'.moves (a.alone k) (shares.take n).flatten) := by
  induction ms generalizing s s' with
  | nil => exact ⟨[], rfl, fun n => by simpa [Session.moves] using h⟩
  | cons m rest ih =>
    obtain ⟨share, moved⟩ := h.move functional keeps reachable.sound m
    obtain ⟨shares, lengths, matched⟩ := ih moved (reachable.move m)
    refine ⟨share :: shares, by simp [lengths], ?_⟩
    intro n
    cases n with
    | zero => exact h
    | succ n =>
      rw [List.take_succ_cons, List.take_succ_cons, List.flatten_cons, moves_append]
      exact matched n

end Moves

end Session

end Polling
