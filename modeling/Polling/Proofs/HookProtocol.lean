import Polling.Proofs.Accounting
import Polling.Proofs.Cleanup
import Polling.Proofs.Halting
import Polling.Proofs.Results

/-!
# The hooks are called in order

With all four hooks installed, the notices of a wait are those of whole rounds, one of an attempt and one
of its retry, followed by the notice of the latest attempt and at most what its end leaves
(`Protocol.Follows.captions`). A wait comes to a result exactly if a hook has been told of it and has
returned. `hooks_in_order` says both of blocking runs, and of executions that nobody has cancelled and
that their scheduler calls back no more often than it was asked to.

`hooks_out_of_order` has the two ways in which less would not do: a scheduler that calls back twice, and a
hook that raises the very fault it was told of.
-/

namespace Polling

/-! ## Which hook, and for which attempt -/

/-- The four hooks. -/
inductive Caption where
  | attempt
  | retry
  | success
  | failure
deriving DecidableEq, Repr

/-- Which hook a notice is for, and which attempt it is about. -/
def Notice.caption : Notice → Caption × Value
  | .attempt info => (.attempt, info.attempt)
  | .retry info => (.retry, info.attempt)
  | .success info => (.success, info.attempt)
  | .failure info => (.failure, info.attempt)

/-- The hook that an event calls. -/
def Event.caption? : Event → Option (Caption × Value)
  | .notice n => some n.caption
  | _ => none

/-- The hooks that are called, in order. -/
def captionsOf (es : List Event) : List (Caption × Value) := es.filterMap Event.caption?

@[simp] theorem captionsOf_nil : captionsOf [] = [] := rfl

@[simp] theorem captionsOf_append (es es' : List Event) :
    captionsOf (es ++ es') = captionsOf es ++ captionsOf es' := List.filterMap_append

/-- All calls of hooks are beats. -/
theorem captionsOf_beatsOf (es : List Event) : captionsOf (beatsOf es) = captionsOf es := by
  rw [captionsOf, beatsOf, List.filterMap_filter, captionsOf]
  congr 1
  funext e
  cases e <;> rfl

/-- The hooks that so many whole rounds call. -/
def Caption.rounds (n : Nat) : List (Caption × Value) :=
  (List.range n).flatMap fun i => [(.attempt, .int (i + 1 : Nat)), (.retry, .int (i + 1 : Nat))]

/-- The hooks that may be called behind the one that is told of the latest attempt, if it is known whether
the last delay has been cut short. -/
inductive Caption.Ends (cut : Prop) (k : Nat) : List (Caption × Value) → Prop where
  | nothing : Ends cut k []
  | retried : Ends cut k [(.retry, .int k)]
  | succeeded : Ends cut k [(.success, .int k)]
  | failed : Ends cut k [(.failure, .int k)]
  | interrupted (short : cut) : Ends cut k [(.retry, .int k), (.failure, .int k)]

/-- The hooks are called in order: for whole rounds, then for the latest attempt. -/
def Caption.InOrder (cut : Prop) (k : Nat) (cs : List (Caption × Value)) : Prop :=
  ∃ tail, Caption.Ends cut k tail ∧ cs = Caption.rounds (k - 1) ++ (.attempt, .int k) :: tail

/-- A hook is told of an attempt. -/
def Caption.isAttempt (c : Caption × Value) : Bool := c.1 == .attempt

/-- A hook is told of a retry. -/
def Caption.isRetry (c : Caption × Value) : Bool := c.1 == .retry

theorem Caption.countP_rounds (n : Nat) :
    (Caption.rounds n).countP isAttempt = n ∧ (Caption.rounds n).countP isRetry = n := by
  induction n with
  | zero => exact ⟨rfl, rfl⟩
  | succ n ih =>
    rw [rounds, List.range_succ, List.flatMap_append, List.countP_append, List.countP_append]
    exact ⟨congrArg (· + 1) ih.1, congrArg (· + 1) ih.2⟩

/-- In order, no attempt is told of unless the retry of the one before has been. -/
theorem Caption.InOrder.attempts_le {cut : Prop} {k : Nat} {cs : List (Caption × Value)}
    (h : InOrder cut k cs) : cs.countP isAttempt ≤ cs.countP isRetry + 1 := by
  obtain ⟨tail, ends, rfl⟩ := h
  obtain ⟨attempts, retries⟩ := countP_rounds (k - 1)
  have none : tail.countP isAttempt = 0 := by
    cases ends <;> rfl
  rw [List.countP_append, List.countP_append, List.countP_cons, List.countP_cons, attempts, retries, none]
  simp [isAttempt]

namespace Protocol

variable {p : Protocol σ} {i n : Nat} {es : List Event} {called : Bool}

/-- If all hooks are there, every notice is heard. -/
theorem tell_of_complete (h : p.hooks.Complete) (n : Notice) : p.tell n = [.notice n] := by
  simp [tell, h n]

theorem captionsOf_spends (d : Number) : captionsOf [p.spends d] = [] := by
  have delay := p.spends_delay d
  cases h : p.spends d <;> rw [h] at delay <;> first | rfl | exact nomatch delay

variable (complete : p.hooks.Complete)
include complete

theorem Cycles.captions (h : p.Cycles n es) : captionsOf es = Caption.rounds n := by
  induction h with
  | start => rfl
  | @round n es o d before left more ih =>
    simp only [opening, retry, tell_of_complete complete]
    rw [captionsOf_append, ih, ← List.cons_append, ← List.append_assoc, captionsOf_append,
      captionsOf_spends, Caption.rounds, Caption.rounds, List.range_succ, List.flatMap_append]
    rfl

theorem Judged.captions (h : p.Judged i es) : Caption.Ends (∃ d, p.cuts d) i (captionsOf es) := by
  cases h with
  | silent => exact .nothing
  | succeeded t left =>
    rw [success, tell_of_complete complete]
    exact .succeeded
  | failed t attempts =>
    rw [failure, tell_of_complete complete]
    exact .failed
  | retried d left more =>
    rw [retry, tell_of_complete complete]
    exact .retried
  | delayed d left more =>
    rw [retry, tell_of_complete complete, captionsOf_append, captionsOf_spends]
    exact .retried
  | @interrupted o d spent t left more cuts begun =>
    -- a delay has no caption, whether it was begun or not
    have none : captionsOf spent = [] := by
      rcases begun with rfl | rfl
      · rfl
      · exact captionsOf_spends d
    rw [retry, failure, tell_of_complete complete, tell_of_complete complete, captionsOf_append,
      captionsOf_append, none]
    exact .interrupted ⟨d, cuts⟩

/-- The hooks of a run are called in order. -/
theorem Follows.captions (h : p.Follows i called es) :
    Caption.InOrder (∃ d, p.cuts d) i (captionsOf es) := by
  cases h with
  | @latest n called es es' before closes =>
    have ends : Caption.Ends (∃ d, p.cuts d) (n + 1) (captionsOf es') := by
      cases closes with
      | refused => exact .nothing
      | polled judged =>
        have ends := judged.captions complete
        exact ends
    refine ⟨captionsOf es', ends, ?_⟩
    rw [opening, tell_of_complete complete, captionsOf_append, captionsOf_append,
      before.captions complete]
    rfl

omit complete in
/-- The hooks of a wait keep to the protocol up to an attempt. -/
structure Orderly (p : Protocol σ) (k : Nat) (es : List Event) : Prop where
  first : 1 ≤ k
  last : k ≤ p.limit
  /-- What the hooks are told, the calls of the operation and the delays. -/
  follows : ∃ called, p.Follows k called (beatsOf es)
  /-- Which hooks are called. -/
  captions : Caption.InOrder (∃ d, p.cuts d) k (captionsOf es)
  closings : es.countP Event.isClosing ≤ 1

theorem Follows.orderly (h : p.Follows i called (beatsOf es)) : p.Orderly i es := by
  obtain ⟨first, last, -, -, -, closings⟩ := h.counts
  rw [countP_beatsOf_isClosing] at closings
  exact ⟨first, last, ⟨called, h⟩, captionsOf_beatsOf es ▸ h.captions complete, closings⟩

end Protocol

/-! ## What an execution tells of its result -/

namespace Place

/-- The result that a hook is told of at a place. -/
def result? : Place → Option (Except Fault Response)
  | telling _ _ t => t.result?
  | _ => none

end Place

namespace Asynchronous

variable {a : Asynchronous σ} {run : RunId} {now : Binary64} {k : Callback} {f g : Frame σ}

/-- At a place, a hook is told of a result and returns exactly if that is what the place is for, and nothing
is raised there. -/
theorem visit_concludes (complete : (a.waiter.hooks.getD {}).Complete) (run : RunId) (now : Binary64)
    (p : Place) (g : Frame σ) :
    ∃ es, (a.visit run now p g).2.world.history = g.world.history ++ es ∧
      ∀ x, Heard (a.answer run) g.world.caller es x ↔
        p.result? = some x ∧ (a.visit run now p g).1 = .ok () := by
  -- at most places nobody is told of the end
  have opens : ∀ {β : Type} {act : Act σ β}, act.Opens → p.result? = none →
      (a.visit run now p g).2 = (Step.perform act g).2 → ∃ es,
        (a.visit run now p g).2.world.history = g.world.history ++ es ∧
        ∀ x, Heard (a.answer run) g.world.caller es x ↔
          p.result? = some x ∧ (a.visit run now p g).1 = .ok () := by
    intro β act opens none visited
    obtain ⟨es, history, quiet⟩ := opens g.world
    refine ⟨es, ?_, fun x => iff_of_false (not_heard quiet) ?_⟩
    · rw [visited, Step.perform_apply, Frame.absorb_history]
      exact history
    · rintro ⟨some, -⟩
      exact nomatch none.symm.trans some
  cases p with
  | opening n => exact opens (Notifier.opening_opens _ _ _) rfl rfl
  | calling n =>
    have called : (Act.call (.polled n) (a.operation run g.execution.calls)).Opens :=
      Act.enters_call (P := (·.isClosing = false)) rfl _
    exact opens called rfl rfl
  | judging n o =>
    exact opens (evaluate_enters (fun _ _ => rfl) (fun _ _ => rfl) (fun _ => rfl) _ _ o (.int n) rfl) rfl rfl
  | telling n o t =>
    obtain ⟨es, history, heard⟩ := Notifier.tell_concludes (w := a.waiter) _ (fun _ => .real now) complete o n
      g.execution.started t g.world
    refine ⟨es, ?_, fun x => (heard x).trans ?_⟩
    · simp only [visit, Step.perform_apply, Frame.absorb_history]
      exact history
    · constructor
      · rintro ⟨⟨⟩, returned, told⟩
        exact ⟨told, returned⟩
      · rintro ⟨told, returned⟩
        exact ⟨(), returned, told⟩

/-- In a callback, a hook is told of a result and returns. -/
def Hears (a : Asynchronous σ) (run : RunId) (now : Binary64) (k : Callback) (f : Frame σ)
    (x : Except Fault Response) : Prop :=
  ∃ before n c, a.Calls run now k f before (.notice n) c ∧ n.result? = some x ∧
    (a.answer run (.notice n) c).1 = .ok ()

/-- That is when the callback has told of a conclusion with this result. -/
theorem hears_iff (complete : (a.waiter.hooks.getD {}).Complete) {x : Except Fault Response} :
    a.Hears run now k f x ↔ ∃ i c, a.Ends run now k f i c ∧ c.result = x := by
  constructor
  · rintro ⟨before, n, c, calls, result, returned⟩
    cases calls with
    | @visited p g before _ after reaches split =>
      obtain ⟨es, history, heard⟩ := visit_concludes complete run now p g
      obtain rfl := List.append_cancel_left (history.symm.trans split)
      obtain ⟨told, visited⟩ := (heard x).1 ⟨before, n, after, rfl, result, returned⟩
      cases p with
      | telling i o t =>
        cases t with
        | succeed r => exact ⟨i, .success r, ⟨o, _, g, reaches, rfl, visited⟩, Option.some.inj told⟩
        | fail f => exact ⟨i, .failure f, ⟨o, _, g, reaches, rfl, visited⟩, Option.some.inj told⟩
        | retry d => exact nomatch told
      | _ => exact nomatch told
  · rintro ⟨i, c, ⟨o, t, g, reaches, next, visited⟩, rfl⟩
    obtain ⟨es, history, heard⟩ := visit_concludes complete run now (.telling i o t) g
    obtain ⟨before, n, after, rfl, result, returned⟩ :=
      (heard c.result).2 ⟨Transition.result?_of_next next, visited⟩
    exact ⟨_, n, _, .visited reaches history, result, returned⟩

/-- A callback that has told of a conclusion settles the promise with it, unless the promise has been
cancelled meanwhile. -/
theorem Ends.promise {i : Nat} {c : Conclusion} (h : a.Ends run now k f i c) :
    (a.body run now k f).2.execution.promise = .concluded c ∨
      (a.body run now k f).2.execution.promise = .cancelled := by
  obtain ⟨o, t, g, reaches, next, visited⟩ := h
  obtain ⟨es, os, arrives⟩ := reaches.approaches
  obtain ⟨es', os', tells⟩ := a.visit_approaches run now (.telling i o t) g
  have told : Step.perform ((a.notifier now).tell o i g.execution.started t) g =
      (.ok (), (a.visit run now (.telling i o t) g).2) := Prod.ext visited rfl
  rw [reaches.body_eq]
  simp only [remainder, told, next, follow]
  rcases (arrives.trans tells).promise.of_pending (Promise.eq_pending reaches.pending) with pending | cancelled
  · left
    have unsettled : (a.visit run now (.telling i o t) g).2.execution.promise.isSettled = false := by
      rw [pending]
      rfl
    rw [Step.settle_apply, Frame.settle_of_pending unsettled]
  · right
    have settled : (a.visit run now (.telling i o t) g).2.execution.promise.isSettled = true := by
      rw [cancelled]
      rfl
    rw [Step.settle_apply, Frame.settle_of_isSettled settled, cancelled]

end Asynchronous

namespace Session

variable {a : Asynchronous σ} {s : Session σ} {run : RunId} {m : Move σ}

/-- In a move, an execution tells a hook of a result, and the hook returns. -/
def Hears (a : Asynchronous σ) (run : RunId) (x : Except Fault Response) (s : Session σ) (m : Move σ) :
    Prop :=
  ∃ k now y, s.Begins run m k now y ∧ a.Hears run now k (s.frame run y) x

/-- The promise after a callback that a move begins is the one that the callback has left, unless it has been
cancelled since. -/
theorem Begins.promise {k : Callback} {now : Binary64} {x : Execution} (begins : s.Begins run m k now x) :
    ∃ p, (a.body run now k (s.frame run x)).2.execution.promise.OrCancelled p ∧
      (s.move a m).promise? run = some p := by
  obtain ⟨n, ran⟩ := begins.ran (a := a)
  obtain ⟨es, os, grows⟩ := begins.grows a
  obtain ⟨p, hp, grown⟩ := ran.grown (begins.starts grows)
  exact ⟨p, hp, by rw [promise?, grown.lookup, Option.map_some]⟩

/-- A callback that has told of a conclusion leaves it as the result, unless the promise is cancelled. -/
theorem Begins.promise_of_ends {k : Callback} {now : Binary64} {x : Execution}
    (begins : s.Begins run m k now x) {i : Nat} {c : Conclusion}
    (ends : a.Ends run now k (s.frame run x) i c) :
    (s.move a m).promise? run = some (.concluded c) ∨ (s.move a m).promise? run = some .cancelled := by
  obtain ⟨p, hp, promise⟩ := begins.promise (a := a)
  rcases ends.promise with concluded | cancelled
  · rw [concluded] at hp
    rw [Promise.eq_of_orCancelled hp rfl] at promise
    exact .inl promise
  · rw [cancelled] at hp
    rw [Promise.eq_of_orCancelled hp rfl] at promise
    exact .inr promise

/-- A promise that is settled after a move, but not cancelled, was so before, and then nothing was called; or
the move has begun a callback that has settled it. -/
theorem Reachable.settles (h : s.Reachable a) {p : Promise} (promise : (s.move a m).promise? run = some p)
    (settled : p.isSettled = true) (uncancelled : p ≠ .cancelled) :
    (s.promise? run = some p ∧ ∃ es, Quiesces s (s.move a m) run p es) ∨
      ∃ k now x, s.Begins run m k now x ∧ x.promise.isSettled = false ∧
        (a.body run now k (s.frame run x)).2.execution.promise = p := by
  have kept : ∀ x, s.runs[run]? = some x → x.promise.isSettled = true →
      s.promise? run = some p ∧ ∃ es, Quiesces s (s.move a m) run p es := by
    intro x hx settled
    obtain ⟨es, quiet⟩ := h.sound.quiesces (a := a) hx settled m
    obtain rfl := Option.some.inj (quiet.promise.symm.trans promise)
    exact ⟨by rw [promise?, hx, Option.map_some], es, quiet⟩
  -- what is not cancelled is not what code of the caller's has made of it
  have earlier : ∀ {q : Promise}, q.OrCancelled p → p = q := fun same =>
    same.resolve_right fun cancelled => uncancelled cancelled.2
  rcases h.sound.move_cases a m run with aside | ⟨k, now, x, begins⟩ | ⟨l, x, n, taken, ran⟩
  · obtain ⟨x', hx', rfl⟩ := Option.map_eq_some_iff.1 promise
    obtain ⟨n, shifts⟩ := aside.shifts (a := a) h.sound
    obtain ⟨x, hx, cancels, -⟩ := shifts.lookup hx'
    exact .inl (kept x hx (earlier cancels ▸ settled))
  · cases before : x.promise.isSettled with
    | false =>
      obtain ⟨q, hq, same⟩ := begins.promise (a := a)
      obtain rfl := Option.some.inj (same.symm.trans promise)
      exact .inr ⟨k, now, x, begins, before, (earlier hq).symm⟩
    | true =>
      cases begins with
      | start new => cases before
      | turn taken own lookup => exact .inl (kept x lookup before)
  · exact .inl (kept x ran.lookup (h.settling_taken ran.lookup taken).1)

/-- A promise comes to a conclusion only in a callback that has told of it. -/
theorem Reachable.ends (h : s.Reachable a) {c : Conclusion}
    (concluded : (s.move a m).promise? run = some (.concluded c)) :
    s.promise? run = some (.concluded c) ∨
      ∃ k now x i, s.Begins run m k now x ∧ a.Ends run now k (s.frame run x) i c := by
  rcases h.settles concluded rfl (by simp) with ⟨earlier, -⟩ | ⟨k, now, x, begins, pending, ends⟩
  · exact .inl earlier
  · obtain ⟨i, ends⟩ := begins.ends pending ends
    exact .inr ⟨k, now, x, i, begins, ends⟩

variable (complete : (a.waiter.hooks.getD {}).Complete)
include complete

/-- A result that a hook has been told of is the result, unless the promise is cancelled. -/
theorem Hears.promise {x : Except Fault Response} (h : Hears a run x s m) :
    (∃ c, (s.move a m).promise? run = some (.concluded c) ∧ c.result = x) ∨
      (s.move a m).promise? run = some .cancelled := by
  obtain ⟨k, now, y, begins, hears⟩ := h
  obtain ⟨i, c, ends, result⟩ := (Asynchronous.hears_iff complete).1 hears
  exact (begins.promise_of_ends ends).imp_left fun concluded => ⟨c, concluded, result⟩

/-- A promise comes to a conclusion only when a hook has been told of the result. -/
theorem Reachable.hears (h : s.Reachable a) {c : Conclusion}
    (concluded : (s.move a m).promise? run = some (.concluded c)) :
    s.promise? run = some (.concluded c) ∨ Hears a run c.result s m := by
  rcases h.ends concluded with earlier | ⟨k, now, x, i, begins, ends⟩
  · exact .inl earlier
  · exact .inr ⟨k, now, x, begins, (Asynchronous.hears_iff complete).2 ⟨i, c, ends, rfl⟩⟩

/-- On every path on which nobody has cancelled its promise, an execution has come to a result exactly if a
hook has been told of it and has returned. -/
theorem concluded_iff (time : Binary64) (caller : Caller σ) (ms : List (Move σ))
    (uncancelled : (moves a { loop := { time }, caller } ms).promise? run ≠ some .cancelled)
    (x : Except Fault Response) :
    (∃ c, (moves a { loop := { time }, caller } ms).promise? run = some (.concluded c) ∧ c.result = x) ↔
      Meets a { loop := { time }, caller } ms (Hears a run x) := by
  constructor
  · rintro ⟨c, concluded, rfl⟩
    -- by induction on the path from its end: a conclusion that is new was told of by the last move
    clear uncancelled
    induction ms using List.reverseRecOn with
    | nil => exact absurd concluded (by simp [moves, promise?])
    | append_singleton ms m ih =>
      rw [moves_append] at concluded
      have reachable : (moves a { loop := { time }, caller } ms).Reachable a := (Reachable.init _ _).moves ms
      rcases reachable.hears complete concluded with earlier | hears
      · exact (ih earlier).append [m]
      · exact ⟨ms, m, [], rfl, hears⟩
  · rintro ⟨before, m, after, rfl, hears⟩
    have reachable : (moves a { loop := { time }, caller } before).Reachable a :=
      (Reachable.init _ _).moves before
    rw [moves_append] at uncancelled ⊢
    -- from here on the promise stays what it is
    rcases hears.promise complete with ⟨c, concluded, result⟩ | cancelled
    · obtain ⟨es, quiet⟩ := (reachable.move m).quiesces concluded rfl after
      exact ⟨c, quiet.promise, result⟩
    · obtain ⟨es, quiet⟩ := (reachable.move m).quiesces cancelled rfl after
      exact absurd quiet.promise uncancelled

end Session

/-! ## The order of the hooks -/

/-- With all four hooks installed, they are called in order, and a wait comes to a result exactly if one of
them has been told of it and has returned.

The history that a blocking run adds keeps to its protocol: what the hooks are told agrees with what the
polls have left and with the delays, and a hook is told of a failure behind a retry only if the signal has
cut the delay short.

On every path of a session, the journal of an execution keeps to its protocol if the scheduler has called it
back no more often than it was asked to; what the polls have left lies on the path. As to the result, the
promise must not have been cancelled. -/
theorem hooks_in_order :
    (∀ (b : Blocking σ) (w : World σ), (b.waiter.hooks.getD {}).Complete →
      ∃ es k, (b.run w).2.history = w.history ++ es ∧
        (b.protocol (b.Leaves w.caller es) (b.Cuts w.caller es)).Orderly k es ∧
        ∀ x, (∃ c, (b.run w).1 = .ok c ∧ c.result = x) ↔ Heard b.answer w.caller es x) ∧
    ∀ (a : Asynchronous σ) (time : Binary64) (caller : Caller σ) (ms : List (Move σ)) (run : RunId),
      (a.waiter.hooks.getD {}).Complete →
      FiresOnce ((Session.moves a { loop := { time }, caller } ms).journalOf run) →
      (∀ y, (Session.moves a { loop := { time }, caller } ms).runs[run]? = some y →
        (a.protocol fun i o => Session.Meets a { loop := { time }, caller } ms
          (Session.Leaves a run i o)).Orderly y.attempt
            ((Session.moves a { loop := { time }, caller } ms).journalOf run)) ∧
      ((Session.moves a { loop := { time }, caller } ms).promise? run ≠ some .cancelled → ∀ x,
        (∃ c, (Session.moves a { loop := { time }, caller } ms).promise? run = some (.concluded c) ∧
            c.result = x) ↔
          Session.Meets a { loop := { time }, caller } ms (Session.Hears a run x)) := by
  constructor
  · intro b w complete
    obtain ⟨es, k, called, history, follows, -⟩ := b.run_follows w
    obtain ⟨es', history', heard⟩ := Blocking.run_concludes complete w
    obtain rfl := List.append_cancel_left (history'.symm.trans history)
    refine ⟨es', k, history, follows.orderly complete, fun x => ?_⟩
    rw [heard x]
    simp
  · intro a time caller ms run complete once
    refine ⟨?_, fun uncancelled x => Session.concluded_iff complete time caller ms uncancelled x⟩
    intro y hy
    obtain ⟨called, follows⟩ := (Session.inPace_moves time caller ms run y hy once).follows
    exact follows.orderly complete

/-! ## Examples -/

theorem Hooks.listening_complete : Hooks.listening.Complete := by
  intro n
  cases n <;> rfl

/-- Nothing has happened yet. -/
abbrev Session.blank : Session Unit := { loop := { time := .finite false 0 }, caller := { state := () } }

/-- Starting an execution and working off its callbacks. -/
def Session.briskMoves : List (Move Unit) := [.start, .turn, .turn, .turn, .turn]

/-- The hooks of the brisk wait and of the brisk execution are called in order, and one of them has been told
of the response. -/
theorem hooks_in_order_brisk :
    (∃ es k x, ((Blocking.brisk .listening).run ⟨⟨(), 0, []⟩, []⟩).2.history = es ∧
      Caption.InOrder (∃ d, (Blocking.brisk .listening).Cuts ⟨(), 0, []⟩ es d) k (captionsOf es) ∧
      Heard (Blocking.brisk .listening).answer ⟨(), 0, []⟩ es x) ∧
    ∃ k x, Caption.InOrder (∃ _ : Number, False) k (captionsOf ((Session.moves (.brisk .listening)
        .blank Session.briskMoves).journalOf 0)) ∧
      Session.Meets (.brisk .listening) .blank
        Session.briskMoves (Session.Hears (.brisk .listening) 0 x) := by
  obtain ⟨blocking, asynchronous⟩ := @hooks_in_order Unit
  constructor
  · obtain ⟨es, k, history, orderly, result⟩ :=
      blocking (.brisk .listening) ⟨⟨(), 0, []⟩, []⟩ Hooks.listening_complete
    have ends : ((Blocking.brisk .listening).run ⟨⟨(), 0, []⟩, []⟩).1.isOk = true := by decide +kernel
    rcases hc : ((Blocking.brisk .listening).run ⟨⟨(), 0, []⟩, []⟩).1 with e | c
    · rw [hc] at ends
      cases ends
    · exact ⟨es, k, c.result, history, orderly.captions, (result c.result).1 ⟨c, hc, rfl⟩⟩
  · have once : FiresOnce ((Session.moves (.brisk .listening)
        .blank Session.briskMoves).journalOf 0) := by
      decide +kernel
    have success : (Session.moves (.brisk .listening)
        .blank Session.briskMoves).succeeds = true := by
      decide +kernel
    obtain ⟨orderly, result⟩ := asynchronous (.brisk .listening) _ _ Session.briskMoves 0
      Hooks.listening_complete once
    obtain ⟨y, hy, concluded⟩ := (Option.any_eq_true _ _).1 success
    cases hp : y.promise with
    | concluded c =>
      have promise : (Session.moves (.brisk .listening)
          .blank Session.briskMoves).promise? 0 =
            some (.concluded c) := by
        rw [Session.promise?, hy, Option.map_some, hp]
      have uncancelled : (Session.moves (.brisk .listening)
          .blank Session.briskMoves).promise? 0 ≠
            some .cancelled := by
        rw [promise]
        rintro ⟨⟩
      exact ⟨_, c.result, (orderly y hy).captions, (result uncancelled c.result).1 ⟨c, promise, rfl⟩⟩
    | _ => simp [hp, Promise.isConcluded] at concluded

/-- An idle execution whose hooks listen. -/
def Asynchronous.attentive : Asynchronous Unit :=
  { Asynchronous.idle (pure ()) with
    waiter := { (Asynchronous.idle (pure ())).waiter with hooks := some .listening } }

/-- The scheduler calls the execution back twice. -/
def Session.twiceMoves : List (Move Unit) :=
  [.start, .turn, .outside 0 (Code.ask (.fire 0)), .turn, .outside 0 (Code.ask (.fire 0)), .turn]

/-- The hook for failures raises the fault that it is told of. -/
def Hooks.rethrowing : Hooks Unit :=
  { Hooks.listening with
    onFailure := some fun info =>
      match info.fault with
      | some e => throw e
      | none => pure () }

/-- A wait whose only attempt is in vain. -/
def Blocking.hopeless (hooks : Hooks Unit) : Blocking Unit :=
  { Blocking.brisk hooks with
    waiter :=
      { strategy := ⟨1, (Waiter.brisk hooks).strategy.backoff, Nat.le_refl 1⟩
        hooks := some hooks } }

/-- The scheduler has to keep to calling back once: called back twice, the execution opens an attempt while
the poll of the one before is under way. And a wait may end with a fault of its own that the hook has raised
again instead of returning. -/
theorem hooks_out_of_order :
    (¬ ∀ (a : Asynchronous Unit) (s : Session Unit), (a.waiter.hooks.getD {}).Complete → s.Reachable a →
      s.promise? 0 ≠ some .cancelled → ∀ y, s.runs[0]? = some y →
        ∃ k, Caption.InOrder True k (captionsOf (s.journalOf 0))) ∧
    ¬ ∀ (b : Blocking Unit) (w : World Unit) (es : List Event) (e : Fault),
      (b.waiter.hooks.getD {}).Complete → (b.run w).2.history = w.history ++ es →
      (b.run w).1.bind Conclusion.result = .error e → e.attempts?.isSome = true →
        Heard b.answer w.caller es (.error e) := by
  constructor
  · intro order
    have started : ((Session.moves .attentive .blank
        Session.twiceMoves).runs[0]?).isSome = true := by decide +kernel
    obtain ⟨y, hy⟩ := Option.isSome_iff_exists.1 started
    obtain ⟨k, inOrder⟩ := order .attentive _ Hooks.listening_complete
      ((Session.Reachable.init _ _).moves Session.twiceMoves) (by decide +kernel) y hy
    have late : ¬ (captionsOf ((Session.moves .attentive
        .blank
        Session.twiceMoves).journalOf 0)).countP Caption.isAttempt ≤
          (captionsOf ((Session.moves .attentive
            .blank
            Session.twiceMoves).journalOf 0)).countP Caption.isRetry + 1 := by decide +kernel
    exact late inOrder.attempts_le
  · intro told
    have complete : Hooks.rethrowing.Complete := by
      intro n
      cases n <;> rfl
    have raised : (((Blocking.hopeless .rethrowing).run ⟨⟨(), 0, []⟩, []⟩).1.map fun _ => ()).mapError
        (·.attempts?.isSome) = .error true := by decide +kernel
    obtain ⟨es, history, heard⟩ :=
      Blocking.run_concludes (b := .hopeless .rethrowing) complete ⟨⟨(), 0, []⟩, []⟩
    rcases hr : ((Blocking.hopeless .rethrowing).run ⟨⟨(), 0, []⟩, []⟩).1 with e | c <;> rw [hr] at raised
    · obtain ⟨c, concluded, -⟩ := (heard (.error e)).1
        (told _ ⟨⟨(), 0, []⟩, []⟩ es e complete history (by rw [hr]; rfl) (Except.error.inj raised))
      cases hr.symm.trans concluded
    · cases raised

end Polling
