import Polling.Proofs.Errands
import Polling.Proofs.Owners

/-!
# Executions that share nothing leave each other alone

`Session.Unmoved` says that a session is the same as another as far as one execution is concerned: its
state, its entries, what is queued for it and what it watches are the same, its polls have ended in the
same way, and the same errands about it are under way, on the queue or behind a timer.

What is about other executions leaves it unmoved. Each request and each order does (`answer_unmoved`,
`obey_unmoved`), and where executions share nothing, a callback of one leaves only such as are about itself.
So a move that concerns others leaves the execution unmoved, whether they go on, fail or are cancelled
(`Owned.unmoved`).
-/

namespace Polling

/-- A callback that is not about an execution is none of its own. -/
theorem Callback.own_of_owner {o : Owners} {run : RunId} {c : Callback} (other : c.owner o ≠ run) :
    c.own run = none := by
  cases c with
  | errand e => rfl
  | attempt r => exact if_neg other
  | pollEnded r ending => exact if_neg other
  | settled r => exact if_neg other

namespace Session

/-- A session is the same as another as far as an execution is concerned. -/
structure Unmoved (o : Owners) (run : RunId) (s s' : Session σ) : Prop where
  runs : s'.runs[run]? = s.runs[run]?
  journal : s'.journalOf run = s.journalOf run
  ready : s'.ready.filterMap (Callback.own run) = s.ready.filterMap (Callback.own run)
  watched : ∀ poll, (poll, run) ∈ s'.watched ↔ (poll, run) ∈ s.watched
  endings : ∀ poll, o.poll poll = run → s'.ending? poll = s.ending? poll
  pending : ∀ e : Errand, e.owner o = run → s'.pending e = s.pending e

variable {o : Owners} {run run' : RunId} {s s' s'' : Session σ}

theorem unmoved_refl (s : Session σ) : Unmoved o run s s :=
  ⟨rfl, rfl, rfl, fun _ => .rfl, fun _ _ => rfl, fun _ _ => rfl⟩

theorem Unmoved.trans (h : Unmoved o run s s') (h' : Unmoved o run s' s'') : Unmoved o run s s'' where
  runs := h'.runs.trans h.runs
  journal := h'.journal.trans h.journal
  ready := h'.ready.trans h.ready
  watched := fun poll => (h'.watched poll).trans (h.watched poll)
  endings := fun poll own => (h'.endings poll own).trans (h.endings poll own)
  pending := fun e own => (h'.pending e own).trans (h.pending e own)

/-- What an execution watches lies in its part of the session. -/
theorem mem_part_watched (s : Session σ) (run : RunId) (poll : PollId) :
    (poll, 0) ∈ (s.part run).watched ↔ (poll, run) ∈ s.watched := by
  simp [part]

/-- What is nothing to an execution leaves it unmoved, if no errand about it is touched. -/
theorem unmoved_of_part (part : s'.part run = s.part run)
    (pending : ∀ e : Errand, e.owner o = run → s'.pending e = s.pending e) : Unmoved o run s s' where
  runs := by rw [← part_runs_getElem? s', part, part_runs_getElem?]
  journal := by rw [← journalOf_part s', part, journalOf_part]
  ready := congrArg (·.loop.queue) part
  watched := fun poll => by rw [← mem_part_watched s', part, mem_part_watched]
  endings := fun poll _ => by rw [← ending?_part s' run, part, ending?_part]
  pending := pending

/-! ## Requests and orders -/

/-- A poll of another execution ends. -/
theorem finish_unmoved {poll : PollId} (other : o.poll poll ≠ run)
    (watched : ∀ id, (id, run) ∈ s.watched → o.poll id = run) (ending : Ending) :
    Unmoved o run s (s.finish poll ending) := by
  unfold finish
  split
  · exact unmoved_refl s
  · next unended =>
    rw [foldl_soon_pollEnded]
    -- those who are called back are others
    have others : ∀ w ∈ s.watched.filter (·.1 == poll), w.2 ≠ run := by
      rintro ⟨id, r⟩ mem rfl
      obtain ⟨watches, same⟩ := List.mem_filter.1 mem
      obtain rfl : id = poll := by simpa using same
      exact other (watched id watches)
    refine ⟨rfl, rfl, ?_, fun id => ?_, fun id own => ?_, fun e _ => ?_⟩
    · have none_own : ((s.watched.filter (·.1 == poll)).map fun w =>
          Callback.pollEnded w.2 ending).filterMap (Callback.own run) = [] := by
        rw [List.filterMap_eq_nil_iff]
        intro c mem
        obtain ⟨w, watches, rfl⟩ := List.mem_map.1 mem
        exact if_neg (others w watches)
      simp only [ready, ← List.append_assoc, List.filterMap_append, none_own, List.append_nil]
    · simp only [List.mem_filter, bne_iff_ne, and_iff_left_iff_imp]
      rintro mem rfl
      exact other (watched id mem)
    · have unlike : (poll == id) = false := by
        simp only [beq_eq_false_iff_ne]
        rintro rfl
        exact other own
      simp [ending?, List.find?_append, unlike]
    · simp [pending, ready, List.countP_append, List.countP_map, Function.comp_def, isErrand]

/-- A request that is not about an execution leaves it unmoved. -/
theorem answer_unmoved {r : Request} (other : r.owner o ≠ run)
    (watched : ∀ id, (id, run) ∈ s.watched → o.poll id = run) : Unmoved o run s (s.answer r) := by
  -- each request touches one execution, poll or errand, and this one is not the execution's
  cases r with
  | cancel r =>
    refine unmoved_of_part (part_cancel_of_ne other s) fun e _ => ?_
    simp only [answer, cancel]
    split
    · split
      · rfl
      · exact pending_soon _ rfl
    · rfl
  | fire r =>
    refine unmoved_of_part (part_fire_of_ne other s) fun e _ => ?_
    simp only [answer, fire]
    split
    · exact pending_soon _ rfl
    · rfl
  | finish poll ending => exact finish_unmoved other watched ending
  | soon e' =>
    refine unmoved_of_part (part_soon s run (.errand e')) fun e own => pending_soon s ?_
    have unlike : e ≠ e' := by
      rintro rfl
      exact other own
    simpa [isErrand] using unlike
  | later delay e' =>
    refine unmoved_of_part rfl fun e own => pending_later s ?_ delay
    rintro rfl
    exact other own
  | drop e' =>
    refine unmoved_of_part (part_drop s run e') fun e own => pending_drop s ?_
    rintro rfl
    exact other own

theorem foldl_answer_unmoved {rs : List Request} (others : ∀ r ∈ rs, r.owner o ≠ run)
    (watched : ∀ id, (id, run) ∈ s.watched → o.poll id = run) :
    Unmoved o run s (rs.foldl answer s) := by
  induction rs generalizing s with
  | nil => exact unmoved_refl s
  | cons r rest ih =>
    have first := answer_unmoved (others r List.mem_cons_self) watched
    exact first.trans (ih (fun r' mem => others r' (List.mem_cons_of_mem r mem)) fun id mem =>
      watched id ((first.watched id).1 mem))

/-- An order of another execution leaves an execution unmoved. -/
theorem obey_unmoved (other : run' ≠ run) {order : Order} (owned : order.IsOwned o run')
    (watched : ∀ id, (id, run) ∈ s.watched → o.poll id = run) :
    Unmoved o run s (s.obey run' order) := by
  cases order with
  | settled =>
    exact unmoved_of_part ((part_soon s run _).trans (by simp [Callback.own, other])) fun e _ =>
      pending_soon s rfl
  | watch poll =>
    refine unmoved_of_part (part_watch_of_ne other s poll) fun e _ => ?_
    simp only [obey, watch]
    split
    · exact pending_soon s rfl
    · rfl
  | timer delay =>
    refine unmoved_of_part rfl fun e own => pending_later s ?_ delay
    rintro rfl
    exact other own
  | stopTimer =>
    refine unmoved_of_part (part_drop s run (.fire run')) fun e own => pending_drop s ?_
    rintro rfl
    exact other own
  | request r => exact answer_unmoved (fun own => other (owned.symm.trans own)) watched

theorem foldl_obey_unmoved (other : run' ≠ run) {os : List Order}
    (owned : ∀ order ∈ os, order.IsOwned o run')
    (watched : ∀ id, (id, run) ∈ s.watched → o.poll id = run) :
    Unmoved o run s (os.foldl (obey · run') s) := by
  induction os generalizing s with
  | nil => exact unmoved_refl s
  | cons order rest ih =>
    have first := obey_unmoved other (owned order List.mem_cons_self) watched
    exact first.trans (ih (fun order' mem => owned order' (List.mem_cons_of_mem order mem)) fun id mem =>
      watched id ((first.watched id).1 mem))

/-! ## Moves -/

/-- A move does not concern an execution: neither does the callback that it runs, nor what is asked for
outside of all callbacks. -/
def Spares (o : Owners) (s : Session σ) (run : RunId) : Move σ → Prop
  | .turn => ∀ c l, s.loop.take = (some c, l) → c.owner o ≠ run
  | .clock _ => True
  | .outside serving code =>
    ∀ r ∈ (code { s.caller with serving }).2.requests, r.owner o ≠ run
  | .start => s.runs.length ≠ run

theorem Owned.watches (h : s.Owned o) (id : PollId) (mem : (id, run) ∈ s.watched) : o.poll id = run :=
  h.watched (id, run) mem

/-- A callback of another execution that keeps to its own leaves an execution unmoved. -/
theorem Owned.step_unmoved (h : s.Owned o) (other : run' ≠ run) {body : Step σ Unit}
    (owns : body.Owns o run' fun _ => True) : Unmoved o run s (s.step run' body).2 := by
  cases hx : s.runs[run']? with
  | none =>
    have same : (s.step run' body).2 = s := by simp [Session.step, hx]
    rw [same]
    exact unmoved_refl s
  | some x =>
    have after := (owns _ (h.frame hx)).1
    rw [step_eq hx]
    have recorded : Unmoved o run s (s.record run' (body (s.frame run' x)).2) :=
      unmoved_of_part (part_record_of_ne other s _) fun _ _ => rfl
    exact recorded.trans (foldl_obey_unmoved other after.orders h.watches)

theorem report_unmoved (s : Session σ) (result : Except Fault Unit) :
    Unmoved o run s (match result with | .ok () => s | .error e => s.report e) := by
  refine unmoved_of_part (part_result s result run) fun e _ => ?_
  rcases result with e' | ⟨⟩
  · exact pending_report s e' e
  · rfl

/-- Code that does not ask for anything about an execution leaves it unmoved. -/
theorem Owned.serve_unmoved (h : s.Owned o) {serving : RunId} {c : Code σ α}
    (others : ∀ r ∈ (c { s.caller with serving }).2.requests, r.owner o ≠ run) :
    Unmoved o run s (s.serve serving c).2 := by
  have served : Unmoved o run s
      { s with caller := { (c { s.caller with serving }).2 with requests := [] } } :=
    unmoved_of_part rfl fun _ _ => rfl
  exact served.trans (foldl_answer_unmoved others h.watches)

variable {a : Asynchronous σ} (apart : a.IsApart o)
include apart

/-- A callback that does not concern an execution leaves it unmoved. -/
theorem Owned.perform_unmoved (h : s.Owned o) {c : Callback} (other : c.owner o ≠ run) :
    Unmoved o run s (Session.perform a c s) := by
  -- code that has been put on the loop for a poll concerns the poll
  have serves : ∀ {poll : PollId} {c : Code σ Unit}, o.poll poll ≠ run → c.AsksFor o (o.poll poll) →
      Unmoved o run s (s.serve 0 c).2 := by
    intro poll c other asks
    refine h.serve_unmoved fun r mem => ?_
    rcases asks _ r mem with before | owner
    · exact absurd before (by simp [h.requests])
    · rw [owner]
      exact other
  cases c with
  | errand e =>
    cases e with
    | fire r => exact answer_unmoved (r := .fire r) other h.watches
    | resume poll => exact (serves other (apart.resume poll)).trans (report_unmoved _ _)
    | wake poll => exact (serves other (apart.wake poll)).trans (report_unmoved _ _)
  | attempt r =>
    exact (h.step_unmoved other (Asynchronous.attempt_owns apart r s.loop.time)).trans
      (report_unmoved _ _)
  | pollEnded r ending =>
    have entered : Unmoved o run s (s.enter r (.ended ending)) :=
      unmoved_of_part (part_enter_of_ne other s _) fun _ _ => rfl
    have owned : (s.enter r (.ended ending)).Owned o := ⟨h.watched, h.runs, h.requests⟩
    have stepped := owned.step_unmoved other
      (Asynchronous.pollEnded_owns apart r s.loop.time ending)
    exact entered.trans (stepped.trans (report_unmoved _ _))
  | settled r =>
    exact (h.step_unmoved other (Asynchronous.settled_owns apart r)).trans (report_unmoved _ _)

/-- What does not concern an execution leaves it unmoved. -/
theorem Owned.unmoved (h : s.Owned o) (errands : s.TimersAreErrands) {m : Move σ}
    (spares : s.Spares o run m) : Unmoved o run s (s.move a m) := by
  cases m with
  | clock time => exact ⟨rfl, rfl, rfl, fun _ => .rfl, fun _ _ => rfl, fun _ _ => rfl⟩
  | outside serving code => exact h.serve_unmoved spares
  | start =>
    have added : Unmoved o run s (s.add { started := .real s.loop.time }) :=
      unmoved_of_part (part_add_of_ne spares _) fun _ _ => rfl
    exact added.trans ((h.add _).step_unmoved spares
      (Asynchronous.attempt_owns apart s.runs.length s.loop.time))
  | turn =>
    cases hc : s.loop.take with
    | mk c l =>
      have taken : Owned o { s with loop := l } := ⟨h.watched, h.runs, h.requests⟩
      cases c with
      | none =>
        simp only [Session.move, hc]
        exact unmoved_of_part (part_take_of_own hc errands rfl) fun e _ => by
          simpa using (pending_take hc e).symm
      | some c =>
        have other : c.owner o ≠ run := spares c l hc
        simp only [Session.move, hc]
        -- first the callback leaves the loop, then it is performed
        refine Unmoved.trans (unmoved_of_part ?_ fun e own => ?_) (taken.perform_unmoved apart other)
        · exact part_take_of_own hc errands (Callback.own_of_owner other)
        · have unlike : isErrand e c = false := by
            cases c with
            | errand e' =>
              have ne : e ≠ e' := by
                rintro rfl
                exact other own
              simpa [isErrand] using ne
            | _ => rfl
          simpa [unlike] using (pending_take hc e).symm

end Session

end Polling
