import Polling.Proofs.Moves

/-!
# The part of a session that is about one execution

`Session.part` takes from a session what is about one execution, as a session that holds no other. What
a session does commutes with it. A request or an order comes down to what it is to the execution,
`Request.own` and `Order.own`, and most come down to nothing; carrying it out and then taking the part is
taking the part and then carrying out what it comes down to (`part_answer`, `part_obey`). Hence a
callback of another execution is to this one no more than the requests that it leaves
(`part_step_of_ne`), and one of its own is the same to its part as to the session (`part_step`).
-/

namespace Polling

/-! ## What things are to one execution -/

/-- A callback of an execution, as a callback of the only one. -/
def Callback.own (run : RunId) : Callback → Option Callback
  | .attempt r => if r = run then some (.attempt 0) else none
  | .pollEnded r ending => if r = run then some (.pollEnded 0 ending) else none
  | .settled r => if r = run then some (.settled 0) else none
  | .errand _ => none

/-- What a request is to an execution. The end of a poll is one to all of them; that an errand is put
off or taken back is nothing until the errand is run. -/
def Request.own (run : RunId) : Request → Option Request
  | .cancel r => if r = run then some (.cancel 0) else none
  | .fire r => if r = run then some (.fire 0) else none
  | .finish poll ending => some (.finish poll ending)
  | .soon _ => none
  | .later _ _ => none
  | .drop _ => none

/-- What an order of an execution is to itself. -/
def Order.own (run : RunId) : Order → Option Order
  | .settled => some .settled
  | .watch poll => some (.watch poll)
  | .request r => (r.own run).map .request
  | .timer _ => none
  | .stopTimer => none

/-- The request that an order passes on, if it does. -/
def Order.asked : Order → Option Request
  | .request r => some r
  | _ => none

/-- What a request is to an execution is all there to the only one. -/
@[simp] theorem Request.own_bind_own (run : RunId) (r : Request) :
    (r.own run).bind (Request.own 0) = r.own run := by
  cases r <;> simp only [Request.own] <;> first | rfl | (split <;> rfl)

/-- Requests that are there to an execution are all there to the only one. -/
@[simp] theorem Request.filterMap_own_filterMap_own (run : RunId) (rs : List Request) :
    (rs.filterMap (Request.own run)).filterMap (Request.own 0) = rs.filterMap (Request.own run) := by
  rw [List.filterMap_filterMap]
  simp

namespace Session

/-- The part of a session that is about one execution, as a session that holds no other. -/
def part (s : Session σ) (run : RunId) : Session Unit where
  loop := { time := s.loop.time, queue := s.ready.filterMap (Callback.own run) }
  caller := { state := () }
  runs := (s.runs[run]?).toList
  ended := s.ended
  watched := (s.watched.filter (·.2 == run)).map fun w => (w.1, 0)
  journal := (s.journalOf run).map (0, ·)

variable {s s' : Session σ} {run run' : RunId}

@[simp] theorem part_runs (s : Session σ) (run : RunId) :
    (s.part run).runs = (s.runs[run]?).toList := rfl

/-- The part of a session for an execution has its entries. -/
@[simp] theorem journalOf_part (s : Session σ) (run : RunId) :
    (s.part run).journalOf 0 = s.journalOf run := by
  simp [journalOf, part, List.filter_map, Function.comp_def]

/-- The record of the only execution in a part is that of the execution. -/
@[simp] theorem part_runs_getElem? (s : Session σ) (run : RunId) :
    (s.part run).runs[0]? = s.runs[run]? := by
  cases h : s.runs[run]? <;> simp [h]

/-! ## Small changes -/

/-- What is queued is there to an execution if it is its own. -/
theorem part_soon (s : Session σ) (run : RunId) (k : Callback) :
    (s.soon k).part run = (k.own run).elim (s.part run) (s.part run).soon := by
  cases h : k.own run <;> simp [part, soon, EventLoop.soon, ready, h, journalOf]

theorem part_enter (s : Session σ) (run : RunId) (e : Event) :
    (s.enter run e).part run = (s.part run).enter 0 e := by
  simp [part, enter, ready, journalOf]

theorem part_enter_of_ne (h : run' ≠ run) (s : Session σ) (e : Event) :
    (s.enter run' e).part run = s.part run := by
  simp [part, enter, ready, journalOf, h]

/-- A change of the loop is to an execution a change of what is ready and of the time. -/
theorem part_loop (s : Session σ) (l : EventLoop Callback) (run : RunId) :
    { s with loop := l }.part run = { s.part run with
      loop := { time := l.time, queue := (l.turn ++ l.queue).filterMap (Callback.own run) } } := rfl

theorem part_report (s : Session σ) (e : Fault) (run : RunId) : (s.report e).part run = s.part run := by
  unfold report
  split
  · simp [part, ready, EventLoop.breakOff, journalOf]
  · rfl

/-! ## Requests and orders -/

theorem part_fire (s : Session σ) (run : RunId) : (s.fire run).part run = (s.part run).fire 0 := by
  cases h : s.runs[run]? with
  | none =>
    have outside : ¬ run < s.runs.length := Nat.not_lt.2 (List.getElem?_eq_none_iff.1 h)
    simp [fire, outside]
  | some x =>
    have inside := (List.getElem?_eq_some_iff.1 h).1
    simp [fire, inside, part_soon, part_enter, Callback.own]

theorem part_fire_of_ne (h : run' ≠ run) (s : Session σ) : (s.fire run').part run = s.part run := by
  unfold fire
  split
  · simp [part_soon, part_enter_of_ne h, Callback.own, h]
  · rfl

theorem ending?_part (s : Session σ) (run : RunId) (poll : PollId) :
    (s.part run).ending? poll = s.ending? poll := rfl

theorem part_finish (s : Session σ) (run : RunId) (poll : PollId) (ending : Ending) :
    (s.finish poll ending).part run = (s.part run).finish poll ending := by
  unfold finish
  rw [ending?_part]
  split
  · rfl
  · -- those called back are the watchers, and of these the execution's own
    have watchers : ∀ ws : List (PollId × RunId),
        (ws.map fun w => Callback.pollEnded w.2 ending).filterMap (Callback.own run) =
          (ws.filter (·.2 == run)).map fun _ => .pollEnded 0 ending := by
      intro ws
      induction ws with
      | nil => rfl
      | cons w rest ih =>
        by_cases own : w.2 = run <;> simp [Callback.own, own, ih]
    simp only [foldl_soon_pollEnded]
    simp only [part, ready, journalOf, List.filterMap_append, watchers, List.filter_map,
      List.filter_filter, List.map_map, Function.comp_def, Bool.and_comm, List.append_assoc]

theorem part_watch (s : Session σ) (run : RunId) (poll : PollId) :
    (s.watch run poll).part run = (s.part run).watch 0 poll := by
  unfold watch
  rw [ending?_part]
  split
  · rw [part_soon]
    simp [Callback.own]
  · simp [part, ready, journalOf]

theorem part_watch_of_ne (h : run' ≠ run) (s : Session σ) (poll : PollId) :
    (s.watch run' poll).part run = s.part run := by
  unfold watch
  split
  · rw [part_soon]
    simp [Callback.own, h]
  · simp [part, ready, journalOf, h]

theorem part_cancel (s : Session σ) (run : RunId) :
    (s.cancel run).2.part run = ((s.part run).cancel 0).2 := by
  unfold cancel
  rw [part_runs_getElem?]
  cases h : s.runs[run]? with
  | none => rfl
  | some x =>
    have inside := (List.getElem?_eq_some_iff.1 h).1
    cases settled : x.promise.isSettled with
    | true => simp [settled]
    | false =>
      simp only [settled, Bool.false_eq_true, if_false, part_soon]
      simp [Callback.own, part, ready, journalOf, inside]

theorem part_cancel_of_ne (h : run' ≠ run) (s : Session σ) :
    (s.cancel run').2.part run = s.part run := by
  unfold cancel
  split
  · next x hx =>
    cases settled : x.promise.isSettled with
    | true => rfl
    | false =>
      simp only [Bool.false_eq_true, if_false, part_soon]
      simp [Callback.own, part, ready, journalOf, h]
  · rfl

/-- Putting an errand off or taking one back is nothing to an execution. -/
theorem part_drop (s : Session σ) (run : RunId) (e : Errand) :
    { s with loop := s.loop.drop (isErrand e) }.part run = s.part run := by
  have kept : ∀ ks : List Callback, (ks.filter (!isErrand e ·)).filterMap (Callback.own run) =
      ks.filterMap (Callback.own run) := by
    intro ks
    rw [List.filterMap_filter]
    congr 1
    funext k
    -- what is dropped is an errand, and that is none of its own
    cases k with
    | errand e' => simp [Callback.own]
    | _ => rfl
  simp [part, ready, journalOf, EventLoop.drop, kept]

/-- Carrying out a request is to an execution what the request is to it. -/
theorem part_answer (s : Session σ) (run : RunId) (r : Request) :
    (s.answer r).part run = (r.own run).elim (s.part run) (s.part run).answer := by
  cases r with
  | cancel run' =>
    by_cases h : run' = run
    · subst h
      simpa [answer, Request.own] using part_cancel s run'
    · simpa [answer, Request.own, h] using part_cancel_of_ne h s
  | fire run' =>
    by_cases h : run' = run
    · subst h
      simpa [answer, Request.own] using part_fire s run'
    · simpa [answer, Request.own, h] using part_fire_of_ne h s
  | finish poll ending => exact part_finish s run poll ending
  | soon e => exact part_soon s run (.errand e)
  | later delay e => rfl
  | drop e => exact part_drop s run e

theorem part_foldl_answer (rs : List Request) (s : Session σ) (run : RunId) :
    (rs.foldl answer s).part run = (rs.filterMap (Request.own run)).foldl answer (s.part run) := by
  induction rs generalizing s with
  | nil => rfl
  | cons r rest ih =>
    rw [List.foldl_cons, ih, part_answer]
    cases h : r.own run <;> simp [h]

/-- Carrying out an order of its own is to an execution what the order is to it. -/
theorem part_obey (s : Session σ) (run : RunId) (o : Order) :
    (s.obey run o).part run = (o.own run).elim (s.part run) ((s.part run).obey 0) := by
  cases o with
  | settled =>
    rw [obey, part_soon]
    simp [Callback.own, Order.own, obey]
  | watch poll => exact part_watch s run poll
  | timer delay => rfl
  | stopTimer => exact part_drop s run (.fire run)
  | request r =>
    rw [obey, part_answer]
    cases h : r.own run <;> simp [Order.own, h, obey]

theorem part_foldl_obey (os : List Order) (s : Session σ) (run : RunId) :
    (os.foldl (obey · run) s).part run =
      (os.filterMap (Order.own run)).foldl (obey · 0) (s.part run) := by
  induction os generalizing s with
  | nil => rfl
  | cons o rest ih =>
    rw [List.foldl_cons, ih, part_obey]
    cases h : o.own run <;> simp [h]

/-- An order of another execution is to an execution the request that it passes on. -/
theorem part_obey_of_ne (h : run' ≠ run) (s : Session σ) (o : Order) :
    (s.obey run' o).part run = o.asked.elim (s.part run) fun r => (s.answer r).part run := by
  cases o with
  | settled =>
    rw [obey, part_soon]
    simp [Callback.own, Order.asked, h]
  | watch poll => exact part_watch_of_ne h s poll
  | timer delay => rfl
  | stopTimer => exact part_drop s run (.fire run')
  | request r => rfl

theorem part_foldl_obey_of_ne (h : run' ≠ run) (os : List Order) (s : Session σ) :
    (os.foldl (obey · run') s).part run =
      ((os.filterMap Order.asked).filterMap (Request.own run)).foldl answer (s.part run) := by
  induction os generalizing s with
  | nil => rfl
  | cons o rest ih =>
    rw [List.foldl_cons, ih, part_obey_of_ne h]
    cases ho : o.asked with
    | none => simp [ho]
    | some r =>
      simp only [Option.elim_some, part_answer]
      cases hr : r.own run <;> simp [ho, hr]

/-! ## Callbacks -/

/-- A callback of an execution that leaves it as it is in a frame, before its orders. -/
theorem part_record {x : Execution} (hx : s.runs[run]? = some x) (f : Frame σ) :
    (s.record run f).part run = { s.part run with
      runs := [f.execution], journal := (s.part run).journal ++ f.world.history.map (0, ·) } := by
  have inside := (List.getElem?_eq_some_iff.1 hx).1
  have entries : (f.world.history.map (run, ·)).filter (·.1 == run) = f.world.history.map (run, ·) :=
    List.filter_eq_self.2 (by simp)
  simp [part, record, ready, journalOf, inside, entries]

theorem part_record_of_ne (h : run' ≠ run) (s : Session σ) (f : Frame σ) :
    (s.record run' f).part run = s.part run := by
  simp [part, record, ready, journalOf, List.filter_map, Function.comp_def, h]

/-- A callback of an execution is to its part what it has done to the execution, what it has entered,
and what its orders are to it. -/
theorem part_step {x : Execution} (hx : s.runs[run]? = some x) (body : Step σ Unit) :
    (s.step run body).2.part run =
      ((body (s.frame run x)).2.orders.filterMap (Order.own run)).foldl (obey · 0)
        { s.part run with
          runs := [(body (s.frame run x)).2.execution]
          journal := (s.part run).journal ++ (body (s.frame run x)).2.world.history.map (0, ·) } := by
  rw [step_eq hx, part_foldl_obey, part_record hx]

/-- A callback of another execution is to an execution the requests that it leaves. -/
theorem part_step_of_ne (h : run' ≠ run) {x : Execution} (hx : s.runs[run']? = some x)
    (body : Step σ Unit) :
    (s.step run' body).2.part run =
      (((body (s.frame run' x)).2.orders.filterMap Order.asked).filterMap (Request.own run)).foldl answer
        (s.part run) := by
  rw [step_eq hx, part_foldl_obey_of_ne h, part_record_of_ne h]

/-- Code of the caller's is to an execution what its requests are to it. -/
theorem part_serve (s : Session σ) (run run' : RunId) (c : Code σ α) :
    (s.serve run' c).2.part run =
      ((c { s.caller with serving := run' }).2.requests.filterMap (Request.own run)).foldl answer
        (s.part run) :=
  part_foldl_answer _ _ run

/-- An execution that is added is there. -/
theorem part_add (h : s.runs.length = run) (x : Execution) :
    (s.add x).part run = { s.part run with runs := [x] } := by
  subst h
  simp [part, add, ready, journalOf]

/-- An execution that is added is nothing to another. -/
theorem part_add_of_ne (h : s.runs.length ≠ run) (x : Execution) : (s.add x).part run = s.part run := by
  have same : (s.add x).runs[run]? = s.runs[run]? := by
    rcases Nat.lt_or_ge run s.runs.length with inside | outside
    · exact List.getElem?_append_left inside
    · rw [List.getElem?_eq_none_iff.2 outside]
      refine List.getElem?_eq_none_iff.2 ?_
      have above := Nat.lt_of_le_of_ne outside h
      simpa [add, Nat.succ_le_iff] using above
  simp only [part, same]
  simp [add, ready, journalOf]

/-! ## Taking a callback from the loop -/

/-- Beginning a turn is nothing to an execution: what is added are errands. -/
theorem nextTurn_own {l : EventLoop Callback} (errands : ∀ t ∈ l.timers, t.callback.isErrand = true)
    (run : RunId) : (l.nextTurn.turn ++ l.nextTurn.queue).filterMap (Callback.own run) =
      (l.turn ++ l.queue).filterMap (Callback.own run) := by
  have due : ((l.dueTimers.1.filter (!·.dropped)).map (·.callback)).filterMap (Callback.own run) = [] := by
    rw [List.filterMap_eq_nil_iff]
    intro k hk
    obtain ⟨t, ht, rfl⟩ := List.mem_map.1 hk
    have live := (Heap.takeFor_subset Timer.before (fun t => !l.time.lt t.due) l.liveTimers.length
      l.liveTimers).1 (List.mem_filter.1 ht).1
    have errand := errands t ((Heap.takeFor_subset _ _ _ l.timers).2 live)
    cases hc : t.callback with
    | errand e => rfl
    | _ => rw [hc] at errand; exact nomatch errand
  simp only [EventLoop.nextTurn, List.filterMap_append, due]
  simp

/-- A callback that is taken was the first of its own, if it is one. -/
theorem take_own {l : EventLoop Callback} {k : Option Callback} (taken : s.loop.take = (k, l))
    (errands : s.TimersAreErrands) (run : RunId) :
    s.ready.filterMap (Callback.own run) =
      (k.bind (Callback.own run)).toList ++ (l.turn ++ l.queue).filterMap (Callback.own run) ∧
    l.time = s.loop.time := by
  have from_turn : ∀ {m : EventLoop Callback}, m.takeFromTurn = (k, l) →
      (m.turn ++ m.queue).filterMap (Callback.own run) =
        (k.bind (Callback.own run)).toList ++ (l.turn ++ l.queue).filterMap (Callback.own run) ∧
      l.time = m.time := by
    intro m hm
    unfold EventLoop.takeFromTurn at hm
    split at hm
    · next first rest turn =>
      obtain ⟨rfl, rfl⟩ := Prod.mk.inj hm
      refine ⟨?_, rfl⟩
      cases h : first.own run <;> simp [turn, h]
    · obtain ⟨rfl, rfl⟩ := Prod.mk.inj hm
      exact ⟨rfl, rfl⟩
  unfold EventLoop.take at taken
  split at taken
  · obtain ⟨own, time⟩ := from_turn taken
    exact ⟨(nextTurn_own errands run).symm.trans own, time⟩
  · exact from_turn taken

/-- Taking a callback that is not its own is nothing to an execution. -/
theorem part_take_of_own {l : EventLoop Callback} {k : Option Callback}
    (taken : s.loop.take = (k, l)) (errands : s.TimersAreErrands)
    (other : k.bind (Callback.own run) = none) :
    { s with loop := l }.part run = s.part run := by
  obtain ⟨own, time⟩ := take_own taken errands run
  rw [other] at own
  rw [part_loop, time]
  simp only [part, own]
  rfl

/-! ## Moves -/

/-- What the caller's code asks the loop for in a callback of an execution, and is not its own cancelling. -/
def stepAsked (s : Session σ) (run : RunId) (body : Step σ Unit) : List Request :=
  match s.runs[run]? with
  | none => []
  | some x => (body (s.frame run x)).2.orders.filterMap Order.asked

/-- What the loop is asked for when it runs a callback. -/
def performAsked (a : Asynchronous σ) (s : Session σ) : Callback → List Request
  | .errand (.fire run) => [.fire run]
  | .errand (.resume poll) => (a.resume poll { s.caller with serving := 0 }).2.requests
  | .errand (.wake poll) => (a.wake poll { s.caller with serving := 0 }).2.requests
  | .attempt run => s.stepAsked run (a.attempt run s.loop.time)
  | .pollEnded run ending =>
    (s.enter run (.ended ending)).stepAsked run (a.pollEnded run s.loop.time ending)
  | .settled run => s.stepAsked run a.settled

/-- What the loop is asked for in a move. -/
def asked (a : Asynchronous σ) (s : Session σ) : Move σ → List Request
  | .turn =>
    match s.loop.take with
    | (none, _) => []
    | (some c, l) => performAsked a { s with loop := l } c
  | .clock _ => []
  | .outside serving code => (code { s.caller with serving }).2.requests
  | .start =>
    (s.add { started := .real s.loop.time }).stepAsked s.runs.length
      (a.attempt s.runs.length s.loop.time)

/-- A callback that no test for an execution picks out is none of its own. -/
theorem own_eq_none {c : Callback} (other : ∀ p ∈ Callback.sorts run, p c = false) :
    c.own run = none := by
  cases c with
  | errand e => rfl
  | attempt r =>
    exact if_neg (by simpa [Callback.isAttempt] using other _ (Callback.isAttempt_mem_sorts run))
  | pollEnded r ending =>
    exact if_neg (by simpa [Callback.isPollEnded] using other _ (Callback.isPollEnded_mem_sorts run))
  | settled r =>
    exact if_neg (by simpa [Callback.isSettled] using other _ (Callback.isSettled_mem_sorts run))

/-- A callback of another execution is to an execution what is asked for in it. -/
theorem part_step_asked (h : run' ≠ run) (s : Session σ) (body : Step σ Unit) :
    (s.step run' body).2.part run =
      ((s.stepAsked run' body).filterMap (Request.own run)).foldl answer (s.part run) := by
  cases hx : s.runs[run']? with
  | none => simp [step, stepAsked, hx]
  | some x => simp only [stepAsked, hx, part_step_of_ne h hx body]

/-- A fault that leaves a callback is nothing to an execution. -/
theorem part_result (s : Session σ) (result : Except Fault Unit) (run : RunId) :
    (match result with | .ok () => s | .error e => s.report e).part run = s.part run := by
  rcases result with e | ⟨⟩
  · exact part_report s e run
  · rfl

/-- A callback that is none of its own is to an execution what is asked for in it. -/
theorem part_perform (a : Asynchronous σ) (s : Session σ) {c : Callback} (other : c.own run = none) :
    (perform a c s).part run =
      ((performAsked a s c).filterMap (Request.own run)).foldl answer (s.part run) := by
  cases c with
  | errand e =>
    cases e with
    | fire r => exact part_foldl_answer [.fire r] s run
    | resume poll => exact (part_result _ _ run).trans (part_serve s run 0 (a.resume poll))
    | wake poll => exact (part_result _ _ run).trans (part_serve s run 0 (a.wake poll))
  | attempt r =>
    have ne : r ≠ run := by simpa [Callback.own] using other
    exact (part_result _ _ run).trans (part_step_asked ne s (a.attempt r s.loop.time))
  | pollEnded r ending =>
    have ne : r ≠ run := by simpa [Callback.own] using other
    have stepped := part_step_asked ne (s.enter r (.ended ending)) (a.pollEnded r s.loop.time ending)
    rw [part_enter_of_ne ne] at stepped
    exact (part_result _ _ run).trans stepped
  | settled r =>
    have ne : r ≠ run := by simpa [Callback.own] using other
    exact (part_result _ _ run).trans (part_step_asked ne s a.settled)

/-- What is not about an execution is to it what is asked for, unless it sets the clock. -/
theorem Aside.part {a : Asynchronous σ} {m : Move σ} (h : s.Sound) (aside : s.Aside run m)
    (unclocked : ∀ time, m ≠ .clock time) :
    (s.move a m).part run = ((s.asked a m).filterMap (Request.own run)).foldl answer (s.part run) := by
  cases m with
  | clock time => exact absurd rfl (unclocked time)
  | outside serving code => exact part_serve s run serving code
  | start =>
    have stepped := part_step_asked aside (s.add { started := .real s.loop.time })
      (a.attempt s.runs.length s.loop.time)
    rw [part_add_of_ne aside] at stepped
    exact stepped
  | turn =>
    cases hc : s.loop.take with
    | mk c l =>
      cases c with
      | none =>
        simp only [move, asked, hc]
        exact part_take_of_own hc h.timers rfl
      | some c =>
        -- what is taken is not its own, so neither taking nor running it is seen
        have other : c.own run = none := own_eq_none (aside c l hc)
        simp only [move, asked, hc]
        rw [part_perform a _ other, part_take_of_own hc h.timers other]

end Session

end Polling
