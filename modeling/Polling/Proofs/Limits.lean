import Polling.Proofs.Askings
import Polling.Proofs.Coincidence
import Polling.Proofs.HookProtocol
import Polling.Proofs.Journal

/-!
# Waits with a higher limit

Two waits that differ in their limits are compared by all that they enter, with the limits left out
(`Sight.unlimited`). The limit is looked at in one place only: when the decider leaves it to the number of
attempts whether the wait goes on. So two evaluations are in step unless the lower limit is reached there
(`evaluate_raised`). `Waiter.Spends` names this case, in which one wait notes that its attempts are
exhausted and the other asks its backoff, and it is the one way in which histories part
(`Protocol.Part`): all rounds but the last are behind them then, and the call of the operation for the last
attempt (`Protocol.Spent`; the numbers are in `Protocol.Spent.counts`).

By induction on the attempts that are left, blocking runs are in step or part (`Blocking.rounds_raised`).
Which of the two it is can be told from the history of the run with the lower limit (`Waiter.Exhausted`),
since nothing else that it enters names this limit (`Blocking.run_raised`).
-/

namespace Polling

variable {V : Type} {view : σ → V}

/-! ## What is seen of a run -/

/-- A line of the log with the limit left out, unless it is the line that the limit is reached. -/
def Note.unlimited : Note → Note
  | .executing attempt _ => .executing attempt 0
  | .retrying attempt _ delay => .retrying attempt 0 delay
  | n => n

/-- An entry with the limit left out. -/
def Event.unlimited : Event → Event
  | .note n => .note n.unlimited
  | .notice n => .notice (n.withLimit .null)
  | e => e

/-- A view of the caller's state, and all entries but for the limits in them. -/
def Sight.unlimited (view : σ → V) : Sight σ V := ⟨view, some ∘ Event.unlimited⟩

/-- The line that the limit is reached is seen as it is. -/
theorem Event.eq_of_unlimited {e : Event} {limit : Nat} (h : e.unlimited = .note (.exhausted limit)) :
    e = .note (.exhausted limit) := by
  rcases e with n | n
  · cases n <;> first | exact h | exact nomatch h
  all_goals exact nomatch h

/-- Where the entries look the same, the limit is reached in both histories or in none. -/
theorem mem_exhausted_of_unlimited {es es' : List Event}
    (same : es.filterMap (Sight.unlimited view).entry = es'.filterMap (Sight.unlimited view).entry)
    {limit : Nat} (noted : .note (.exhausted limit) ∈ es) : .note (.exhausted limit) ∈ es' := by
  have seen : Event.note (.exhausted limit) ∈ es'.filterMap (Sight.unlimited view).entry :=
    same ▸ List.mem_filterMap.2 ⟨_, noted, rfl⟩
  obtain ⟨e, mem, looks⟩ := List.mem_filterMap.1 seen
  exact Event.eq_of_unlimited (Option.some.inj looks) ▸ mem

/-- What the hooks do does not depend on the limit that they are told. -/
def Hooks.DisregardLimit (seen : Sight σ V) (h : Hooks σ) : Prop :=
  ∀ (n : Notice) (limit limit' : Value),
    (h.hear (n.withLimit limit)).Coincide seen (h.hear (n.withLimit limit'))

theorem Notice.withLimit_withLimit (n : Notice) (limit limit' : Value) :
    (n.withLimit limit).withLimit limit' = n.withLimit limit' := by
  cases n <;> rfl

theorem Hooks.DisregardLimit.notifier {n : Notifier σ} (h : n.hooks.DisregardLimit (.unlimited view))
    (clock : ∀ s s', view s = view s' → n.clock s = n.clock s') (limit : Value) :
    n.Disregards (.unlimited view) limit where
  entry m := by simp [Sight.unlimited, Event.unlimited, Notice.withLimit_withLimit]
  hear m := h m _ _
  clock := clock

/-! ## Raising the limit -/

/-- The strategy with a higher limit. -/
def Strategy.raised (s : Strategy σ) (limit : Nat) (more : s.limit < limit) : Strategy σ :=
  ⟨limit, s.backoff, Nat.le_of_lt (Nat.lt_of_le_of_lt s.limit_pos more)⟩

/-- A configuration with a higher limit. -/
def Waiter.raised (w : Waiter σ) (limit : Nat) (more : w.strategy.limit < limit) : Waiter σ :=
  { w with strategy := w.strategy.raised limit more }

/-- A blocking wait with a higher limit. -/
def Blocking.raised (b : Blocking σ) (limit : Nat) (more : b.waiter.strategy.limit < limit) : Blocking σ :=
  { b with waiter := b.waiter.raised limit more }

/-- An asynchronous system with a higher limit. -/
def Asynchronous.raised (a : Asynchronous σ) (limit : Nat) (more : a.waiter.strategy.limit < limit) :
    Asynchronous σ :=
  { a with waiter := a.waiter.raised limit more }

/-! ## Evaluations -/

/-- From two worlds on, the decider leaves it to the number of attempts whether a wait goes on after an
attempt, and there is none left. -/
structure Waiter.Spends (w : Waiter σ) (seen : Sight σ V) (o : Outcome) (n : Nat) (u u' : World σ) :
    Prop where
  spent : w.strategy.limit ≤ n
  decides : ∃ s d d', decide w.acceptors o u = (.ok s, d) ∧ decide w.acceptors o u' = (.ok s, d') ∧
    endsWait s o = false ∧ World.Coincide seen d d'

section Evaluations

variable {w : Waiter σ} (h : w.JudgesInSight (.unlimited view)) {limit : Nat}
  (more : w.strategy.limit < limit) {o : Outcome} {n : Nat} {u u' : World σ}

/-- An answer that ends the wait does so whatever the strategy is. -/
theorem transitionOn_of_endsWait {s : Option Verdict} {o : Outcome} (ends : endsWait s o = true)
    (strategy strategy' : Strategy σ) (attempt : Value) :
    transitionOn strategy o attempt s = transitionOn strategy' o attempt s := by
  rcases s with _ | (_ | _ | _)
  · cases o with
    | raised e => rfl
    | returned v => exact nomatch ends
  · rfl
  · exact nomatch ends
  · rfl

include h in
/-- As long as an attempt is left, a higher limit makes no difference. -/
theorem retryOrExhaust_raised (o : Outcome) (left : n < w.strategy.limit) :
    Act.Coincide (.unlimited view) (retryOrExhaust w.strategy o (.int n))
      (retryOrExhaust (w.strategy.raised limit more) o (.int n)) := by
  have left' : n < (w.strategy.raised limit more).limit := Nat.lt_trans left more
  intro v v' same
  obtain ⟨r, t, t', asked, asked', together⟩ := (h.nextDelay (.int n) v v' same).cases
  have asked'' : (w.strategy.raised limit more).backoff.nextDelay (.int n) v' = (r, t') := asked'
  rw [InStepAt, retryOrExhaust_of_lt o left, retryOrExhaust_of_lt o left', asked, asked'']
  rcases r with e | d
  · exact ⟨rfl, together⟩
  · dsimp only
    cases d.twoPlaces? with
    | none => exact ⟨rfl, together⟩
    | some shown =>
      have noted : Act.Coincide (.unlimited view)
          (Act.note (.retrying (.int n) w.strategy.limit shown) : Act σ Unit)
          (Act.note (.retrying (.int n) limit shown)) := Act.coincides_record rfl
      exact ⟨rfl, (noted t t' together).2⟩

include h in
/-- Evaluations are in step unless the attempts are spent. -/
theorem evaluate_raised (same : World.Coincide (.unlimited view) u u') :
    InStepAt (World.Coincide (.unlimited view)) (evaluate w.acceptors w.strategy o (.int n))
        (evaluate w.acceptors (w.strategy.raised limit more) o (.int n)) u u' ∨
      w.Spends (.unlimited view) o n u u' := by
  -- only where the lower limit is reached does it matter what the decider says
  rcases Nat.lt_or_ge n w.strategy.limit with left | spent
  · left
    rw [evaluate_eq, evaluate_eq]
    exact InStep.bind (h.decide o) (transitionOn_coincides (retryOrExhaust_raised h more o left)) u u' same
  · obtain ⟨r, d, d', decided, decided', together⟩ := (h.decide o u u' same).cases
    rcases r with e | s
    · left
      rw [InStepAt, evaluate_eq, evaluate_eq, Act.bind_apply, Act.bind_apply, decided, decided']
      exact ⟨rfl, together⟩
    · cases ends : endsWait s o with
      | true =>
        left
        rw [InStepAt, evaluate_eq, evaluate_eq, Act.bind_apply, Act.bind_apply, decided, decided']
        dsimp only
        rw [transitionOn_of_endsWait ends (w.strategy.raised limit more) w.strategy]
        exact transitionOn_coincides (h.retryOrExhaust o (.int n)) s d d' together
      | false => exact .inr ⟨spent, s, d, d', decided, decided', ends, together⟩

/-- Where the attempts are spent, the wait has failed. -/
theorem Waiter.Spends.fails {seen : Sight σ V} (spends : w.Spends seen o n u u') :
    (Polling.evaluate w.acceptors w.strategy o (.int n) u).1 =
      .ok (.fail (.after o (.int n) (.exhausted w.strategy.limit))) := by
  obtain ⟨spent, s, d, d', decided, -, goesOn, -⟩ := spends
  rw [evaluate_of_decided decided goesOn, retryOrExhaust_exhausts o spent]

/-- There, it is noted that the attempts are exhausted, and with a higher limit the backoff is asked. Up to
there, what is entered looks the same, and is about the decision. -/
theorem Waiter.Spends.histories (spends : w.Spends (.unlimited view) o n u u') (left : n < limit) :
    ∃ d d' later, World.Coincide (.unlimited view) d d' ∧
      (∃ es, d.history = u.history ++ es ∧ beatsOf es = [] ∧ es.countP Event.isAsked = 0) ∧
      (Polling.evaluate w.acceptors w.strategy o (.int n) u).2.history =
        d.history ++ [Event.note (.exhausted w.strategy.limit)] ∧
      (Polling.evaluate w.acceptors (w.strategy.raised limit more) o (.int n) u').2.history =
        d'.history ++ Event.asked (.int n) :: later := by
  obtain ⟨spent, s, d, d', decided, decided', goesOn, same⟩ := spends
  obtain ⟨es, history, quiet⟩ := decideFrom_enters (P := fun e => e.isBeat = false ∧ e.isAsked = false)
    (fun _ _ => ⟨rfl, rfl⟩) (fun _ _ => ⟨rfl, rfl⟩) 0 w.acceptors o u
  rw [show decideFrom 0 w.acceptors o u = (.ok s, d) from decided] at history
  have left' : n < (w.strategy.raised limit more).limit := left
  obtain ⟨r, later, asked, -⟩ := retryOrExhaust_granted o left' d'
  refine ⟨d, d', later, same, ⟨es, history, beatsOf_eq_nil fun e he => (quiet e he).1,
    countP_isAsked_eq_zero fun e he => (quiet e he).2⟩, ?_, ?_⟩
  · rw [evaluate_of_decided decided goesOn, retryOrExhaust_exhausts o spent]
  · rw [evaluate_of_decided decided' goesOn, asked, List.append_assoc, List.singleton_append]

end Evaluations

/-! ## Where two waits part -/

namespace Protocol

/-- All attempts are spent: there have been whole rounds for all of them but the last, each with a delay that
the backoff was asked for, and the operation has been called for the last one. -/
structure Spent (p : Protocol σ) (es : List Event) : Prop where
  rounds : ∃ rounds, p.Cycles (p.limit - 1) rounds ∧
    beatsOf es = rounds ++ (p.opening p.limit ++ [.polled p.limit])
  asked : es.countP Event.isAsked = p.limit - 1

/-- How often the operation has been called, a delay been spent and the backoff been asked. -/
theorem Spent.counts {p : Protocol σ} {es : List Event} (h : p.Spent es) :
    es.countP Event.isPolled = p.limit ∧ es.countP Event.isDelay = p.limit - 1 ∧
      es.countP Event.isAsked = p.limit - 1 := by
  obtain ⟨⟨rounds, cycles, beats⟩, asked⟩ := h
  obtain ⟨polled, delays, -, -⟩ := cycles.counts
  have limit := p.limit_pos
  refine ⟨?_, ?_, asked⟩
  · rw [← countP_beatsOf_isPolled, beats, List.countP_append, List.countP_append, polled, opening,
      tell_isPolled]
    simp only [List.countP_singleton, Event.polled_isPolled, if_true]
    omega
  · rw [← countP_beatsOf_isDelay, beats, List.countP_append, List.countP_append, delays, opening,
      tell_isDelay]
    simp

/-- The histories of two waits part. Up to there they look the same, but for the limit, and all attempts are
spent. Then it is noted in one that they are exhausted, and in the other the backoff is asked. -/
inductive Part (p : Protocol σ) (es es' : List Event) : Prop where
  | intro {before before' after after' : List Event}
    (same : before.map Event.unlimited = before'.map Event.unlimited) (spent : p.Spent before)
    (exhausted : es = before ++ .note (.exhausted p.limit) :: after)
    (asked : es' = before' ++ .asked (.int p.limit) :: after')

/-- Whatever comes later, histories have parted. -/
theorem Part.append {p : Protocol σ} {es es' : List Event} (h : p.Part es es') (later later' : List Event) :
    p.Part (es ++ later) (es' ++ later') := by
  obtain ⟨same, spent, rfl, rfl⟩ := h
  exact ⟨same, spent, List.append_assoc _ _ _, List.append_assoc _ _ _⟩

end Protocol

/-- If whole rounds and the call of the operation for one more attempt are behind them, histories part where
the attempts are spent, after what has been entered in the past. -/
theorem Waiter.Spends.part {w : Waiter σ} {limit : Nat} (more : w.strategy.limit < limit) {o : Outcome}
    {n : Nat} {u u' : World σ} (spends : w.Spends (.unlimited view) o (n + 1) u u') {p : Protocol σ}
    (bound : p.limit = w.strategy.limit) {past past' rounds : List Event}
    (same : past.map Event.unlimited = past'.map Event.unlimited) (cycles : p.Cycles n rounds)
    (beats : beatsOf (past ++ u.history) = rounds ++ (p.opening (n + 1) ++ [Event.polled (n + 1)]))
    (asked : (past ++ u.history).countP Event.isAsked = n) :
    p.Part (past ++ (evaluate w.acceptors w.strategy o (.int (n + 1 : Nat)) u).2.history)
      (past' ++
        (evaluate w.acceptors (w.strategy.raised limit more) o (.int (n + 1 : Nat)) u').2.history) := by
  -- the rounds are within the limit, and the attempt is not
  have last : p.limit = n + 1 := by
    have left := cycles.lt_limit
    have spent := spends.spent
    omega
  obtain ⟨d, d', later, looks, ⟨es, history, silent, unasked⟩, noted, asks⟩ :=
    spends.histories more (by omega)
  have looks' : d.history.map Event.unlimited = d'.history.map Event.unlimited := by
    have visible := looks.history
    simpa only [Sight.unlimited, ← List.filterMap_eq_map] using visible
  rw [noted, asks]
  have together : (past ++ d.history).map Event.unlimited = (past' ++ d'.history).map Event.unlimited := by
    rw [List.map_append, List.map_append, same, looks']
  have spent : p.Spent (past ++ d.history) := by
    refine ⟨⟨rounds, ?_, ?_⟩, ?_⟩
    · rw [last]
      exact cycles
    · rw [history, ← List.append_assoc, beatsOf_append, silent, List.append_nil, beats, last]
    · rw [history, ← List.append_assoc, List.countP_append, asked, unasked, last]
      rfl
  exact .intro together spent (by rw [bound, List.append_assoc]) (by rw [last, List.append_assoc])

/-- The log says that the attempts of a wait are exhausted. -/
def Waiter.Exhausted (w : Waiter σ) (es : List Event) : Prop := .note (.exhausted w.strategy.limit) ∈ es

instance (w : Waiter σ) (es : List Event) : Decidable (w.Exhausted es) :=
  decidable_of_iff (es.any fun
    | .note (.exhausted limit) => limit == w.strategy.limit
    | _ => false) (by
    rw [List.any_eq_true, Waiter.Exhausted]
    constructor
    · rintro ⟨e, mem, noted⟩
      split at noted
      · obtain rfl := beq_iff_eq.1 noted
        exact mem
      · exact nomatch noted
    · exact fun mem => ⟨_, mem, beq_self_eq_true _⟩)

/-- A failure reports an attempt that the limit has been reached with, and the log says so. -/
structure Waiter.RunsOut (w : Waiter σ) (f : Failure) (es : List Event) : Prop where
  attempts : ∃ n : Nat, f.attempts = .int n ∧ w.strategy.limit ≤ n
  noted : w.Exhausted es

theorem Waiter.RunsOut.mono {w : Waiter σ} {f : Failure} {es es' : List Event} (h : w.RunsOut f es)
    (more : es ⊆ es') : w.RunsOut f es' :=
  ⟨h.attempts, more h.noted⟩

/-- An evaluation fails for want of attempts only if the limit is reached. -/
theorem Waiter.runsOut_of_evaluate {w : Waiter σ} {o : Outcome} {n : Nat} {u u' : World σ} {f : Failure} {k : Nat}
    (evaluated : Polling.evaluate w.acceptors w.strategy o (.int n) u = (.ok (.fail f), u'))
    (reason : f.reason = .exhausted k) : w.RunsOut f u'.history := by
  rw [evaluate_eq] at evaluated
  obtain ⟨s, d, -, evaluated⟩ := Act.bind_eq_ok.1 evaluated
  cases ends : endsWait s o with
  | false =>
    rw [transitionOn_of_not_endsWait ends] at evaluated
    rcases Nat.lt_or_ge n w.strategy.limit with left | spent
    · obtain ⟨delay, same⟩ := exists_retry_of_lt left (congrArg Prod.fst evaluated)
      exact nomatch same
    · rw [retryOrExhaust_exhausts o spent] at evaluated
      obtain ⟨same, rfl⟩ := Prod.mk.inj evaluated
      obtain rfl := Transition.fail.inj (Except.ok.inj same)
      exact ⟨⟨n, rfl, spent⟩, List.mem_append_right _ (List.mem_singleton_self _)⟩
  | true =>
    -- a verdict that ends the wait has another reason
    rcases s with _ | (_ | _ | _)
    · cases o with
      | raised e =>
        obtain ⟨same, -⟩ := Act.pure_eq_ok.1 evaluated
        obtain rfl := Transition.fail.inj same
        exact nomatch reason
      | returned v => exact nomatch ends
    · obtain ⟨r, d', -, returned⟩ := Act.bind_eq_ok.1 evaluated
      exact nomatch (Act.pure_eq_ok.1 returned).1
    · exact nomatch ends
    · obtain ⟨same, -⟩ := Act.pure_eq_ok.1 evaluated
      obtain rfl := Transition.fail.inj same
      exact nomatch reason

theorem Protocol.Part.exhausted {w : Waiter σ} {leaves : Nat → Outcome → Prop}
    {spends : { entry : Number → Event // ∀ d, (entry d).delay? = some d }} {cuts : Number → Prop}
    {es es' : List Event} (h : (w.protocol leaves spends cuts).Part es es') : w.Exhausted es := by
  obtain ⟨-, -, rfl, -⟩ := h
  exact List.mem_append_right _ List.mem_cons_self

/-- The hook for failures has been told that the attempts are exhausted and has raised a fault. -/
def Waiter.Overrules (w : Waiter σ) (es : List Event) (e : Fault) : Prop :=
  ∃ (f : Failure) (info : FailureInfo) (c : Caller σ), f.reason = .exhausted w.strategy.limit ∧
    info.fault = some f.fault ∧ .notice (.failure info) ∈ es ∧
    ((w.hooks.getD {}).hear (.failure info) c).1 = .error e

/-- Telling of a failure raises a fault only if the hook does. -/
theorem Notifier.tell_fail_error {n : Notifier σ} {time : σ → Binary64}
    (clock : n.clock = fun s => .real (time s)) {o : Outcome} {k : Nat} {f : Failure} {t : Binary64}
    {u u' : World σ} {e : Fault} (raised : n.tell o k (.real t) (.fail f) u = (.error e, u')) :
    ∃ info c, info.fault = some f.fault ∧ .notice (.failure info) ∈ u'.history ∧
      (n.hooks.hear (.failure info) c).1 = .error e := by
  simp only [tell, Act.bind_apply, Act.note, Act.record_apply, failure] at raised
  cases installed : n.hooks.onFailure with
  | none =>
    rw [installed] at raised
    obtain ⟨⟨⟩, -⟩ := Prod.mk.inj raised
  | some hook =>
    obtain ⟨v, elapsed⟩ := elapsed_apply clock t
      { u with history := u.history ++ [Event.note (.failed k f.reason)] }
    rw [installed] at raised
    simp only [Act.bind_apply, elapsed, Act.call_apply] at raised
    obtain ⟨result, rfl⟩ := Prod.mk.inj raised
    refine ⟨⟨.int k, n.limit, some f.fault, v⟩, u.caller, rfl, by simp, ?_⟩
    simpa [Hooks.hear, installed] using result

/-! ## Blocking runs -/

namespace Blocking

variable {b : Blocking σ} {limit : Nat} (more : b.waiter.strategy.limit < limit)

/-- A result says that the attempts are exhausted, or the hook for failures has overruled this. -/
def Exhausts (b : Blocking σ) : Except Fault Conclusion × World σ → Prop
  | (.ok c, _) => ∃ f, c = .failure f ∧ f.reason = .exhausted b.waiter.strategy.limit
  | (.error e, w) => b.waiter.Overrules w.history e

/-- Around an evaluation, a higher limit makes no difference. -/
theorem raised_around (h : b.InSight (.unlimited view))
    (hooks : (b.waiter.hooks.getD {}).DisregardLimit (.unlimited view))
    (clock : ∀ s s', view s = view s' → b.clock s = b.clock s') (started : Value) :
    b.Around (.unlimited view) (b.raised limit more) started started where
  toCoincide := Hooks.DisregardLimit.notifier (n := b.notifier) hooks
    (fun s s' same => congrArg Value.real (clock s s' same)) (.int limit) |>.coincide started fun _ => rfl
  operation := h.operation
  pause := h.pause

/-- A round is an attempt up to its outcome, the evaluation, and what is behind it. -/
theorem round_eq_evaluate (b : Blocking σ) (started : Value) (n : Nat) : b.round started n = (do
    let o ← b.notifier.opening n b.waiter.strategy.limit >>= fun _ => b.poll n
    let t ← evaluate b.waiter.acceptors b.waiter.strategy o (.int n)
    b.notifier.tell o n started t
    b.close started n t.next) := by
  rw [round_eq]
  simp only [Notifier.judge, bind_assoc, pure_bind]

section Raised

variable {started : Binary64} (h : b.waiter.JudgesInSight (.unlimited view))
  (around : b.Around (.unlimited view) (b.raised limit more) (.real started) (.real started))
include h around

/-- A round is in step with one of a wait with a higher limit, unless the attempts are spent in it. -/
theorem round_raised (n : Nat) {u u' : World σ} (same : World.Coincide (.unlimited view) u u') :
    InStepAt (World.Coincide (.unlimited view)) (b.round (.real started) n)
        ((b.raised limit more).round (.real started) n) u u' ∨
      ∃ o t t', (b.notifier.opening n b.waiter.strategy.limit >>= fun _ => b.poll n) u = (.ok o, t) ∧
        ((b.raised limit more).notifier.opening n limit >>= fun _ => (b.raised limit more).poll n) u' =
          (.ok o, t') ∧ b.waiter.Spends (.unlimited view) o n t t' := by
  obtain ⟨r, t, t', polled, polled', together⟩ :=
    (InStep.bind (around.opening n) (fun _ => around.poll n) u u' same).cases
  rcases r with e | o
  · left
    rw [InStepAt, round_eq_evaluate, round_eq_evaluate, Act.bind_apply, polled, Act.bind_apply, polled']
    exact ⟨rfl, together⟩
  · rcases evaluate_raised h more (o := o) (n := n) together with inStep | spends
    · left
      rw [InStepAt, round_eq_evaluate, round_eq_evaluate, Act.bind_apply, polled, Act.bind_apply, polled']
      exact inStep.bind (around.behind o n)
    · exact .inr ⟨o, t, t', polled, polled', spends⟩

end Raised

/-- An attempt up to its outcome opens the attempt and calls the operation. -/
theorem opening_poll_history (b : Blocking σ) {n : Nat} {o : Outcome} {u t : World σ}
    (polled : (b.notifier.opening n b.waiter.strategy.limit >>= fun _ => b.poll n) u = (.ok o, t)) :
    ∃ es, t.history = u.history ++ es ∧
      beatsOf es = (b.protocol (fun _ _ => True) fun _ => False).opening n ++ [Event.polled n] ∧
      es.countP Event.isAsked = 0 := by
  obtain ⟨⟨⟩, w, opened, called⟩ := Act.bind_eq_ok.1 polled
  have opens : ∃ es, (b.notifier.opening n b.waiter.strategy.limit u).2.history = u.history ++ es ∧
      beatsOf es = (b.protocol (fun _ _ => True) fun _ => False).opening n :=
    Notifier.opening_beats b.waiter _ _ _ _ n u
  obtain ⟨es, history, beats⟩ := opens
  obtain ⟨es', history', unasked⟩ := Notifier.opening_enters (P := (·.isAsked = false)) (fun _ _ => rfl)
    (fun _ => rfl) b.notifier n b.waiter.strategy.limit u
  obtain rfl := List.append_cancel_left (history.symm.trans history')
  have polls := (b.poll_history n w).1
  rw [opened] at history
  rw [called, history] at polls
  refine ⟨es ++ [Event.polled n], by rw [polls, List.append_assoc], ?_, ?_⟩
  · rw [beatsOf_append, beats]
    rfl
  · rw [List.countP_append, countP_isAsked_eq_zero unasked]
    rfl

/-- Rounds whose first outcome fails the wait end with the failure, or with a fault that the hook has
raised. -/
theorem rounds_of_fail (b : Blocking σ) (started : Binary64) {n : Nat} {o : Outcome} {f : Failure}
    {u t w : World σ}
    (polled : (b.notifier.opening n b.waiter.strategy.limit >>= fun _ => b.poll n) u = (.ok o, t))
    (evaluated : evaluate b.waiter.acceptors b.waiter.strategy o (.int n) t = (.ok (.fail f), w))
    (reason : f.reason = .exhausted b.waiter.strategy.limit) (left : Nat) :
    b.Exhausts (b.rounds (.real started) (left + 1) n u) ∧
      ∃ later, (b.rounds (.real started) (left + 1) n u).2.history = w.history ++ later := by
  obtain ⟨later, history, -⟩ := Notifier.tell_enters (P := fun _ => True) (fun _ _ => trivial)
    (fun _ => trivial) b.notifier o n (.real started) (.fail f) w
  rw [rounds, Act.bind_apply, round_eq_evaluate, Act.bind_apply, polled]
  dsimp only
  rw [Act.bind_apply, evaluated]
  dsimp only
  rw [Act.bind_apply]
  -- the hook for failures is the last thing that can get in the way
  rcases told : b.notifier.tell o n (.real started) (.fail f) w with ⟨e | ⟨⟩, w'⟩ <;> rw [told] at history
  · obtain ⟨info, c, fault, mem, raised⟩ := Notifier.tell_fail_error (n := b.notifier) rfl told
    exact ⟨⟨f, info, c, reason, fault, mem, raised⟩, later, history⟩
  · exact ⟨⟨f, rfl, reason⟩, later, history⟩

/-- Rounds go on from where the first outcome has been evaluated. -/
theorem rounds_history (b : Blocking σ) (started : Value) {n : Nat} {o : Outcome} {u t : World σ}
    (polled : (b.notifier.opening n b.waiter.strategy.limit >>= fun _ => b.poll n) u = (.ok o, t))
    (left : Nat) : ∃ later, (b.rounds started (left + 1) n u).2.history =
      (evaluate b.waiter.acceptors b.waiter.strategy o (.int n) t).2.history ++ later := by
  have closes : ∀ r, (b.close started n r).Enters fun _ => True := fun r =>
    b.close_enters (fun _ _ => trivial) (fun _ => trivial) started n r (fun _ _ => trivial) fun _ _ => trivial
  obtain ⟨es, round⟩ : ∃ es, (b.rounds started (left + 1) n u).2.history =
      (b.round started n u).2.history ++ es := by
    rw [rounds]
    refine Act.history_bind (fun c => ?_) u
    cases c with
    | some c => exact Act.enters_pure _
    | none => exact b.rounds_enters (fun _ _ => trivial) trivial started left (n + 1)
  -- behind the evaluation nothing is taken back either
  obtain ⟨es', behind⟩ := Act.history_bind
    (a := evaluate b.waiter.acceptors b.waiter.strategy o (.int n))
    (f := fun t => do
      b.notifier.tell o n started t
      b.close started n t.next) (fun t => Act.enters_bind (Notifier.tell_enters (fun _ _ => trivial)
        (fun _ => trivial) _ _ _ _ _) fun _ => closes _) t
  refine ⟨es' ++ es, ?_⟩
  rw [round, round_eq_evaluate, Act.bind_apply, polled]
  dsimp only
  rw [behind, List.append_assoc]

/-- Rounds with a higher limit are in step, unless the attempts are spent: then the histories part, and the
run with the lower limit has ended. The induction is on the attempts that are left. -/
theorem rounds_raised {started : Binary64} (h : b.waiter.JudgesInSight (.unlimited view))
    (around : b.Around (.unlimited view) (b.raised limit more) (.real started) (.real started))
    {left left' n : Nat} (attempts : left + n = b.waiter.strategy.limit) (attempts' : left' + n = limit)
    (some : 1 ≤ left) {u u' : World σ} (same : World.Coincide (.unlimited view) u u')
    (cycles : (b.protocol (fun _ _ => True) fun _ => False).Cycles n (beatsOf u.history))
    (asked : u.history.countP Event.isAsked = n) :
    InStepAt (World.Coincide (.unlimited view)) (b.rounds (.real started) left (n + 1))
        ((b.raised limit more).rounds (.real started) left' (n + 1)) u u' ∨
      (b.protocol (fun _ _ => True) fun _ => False).Part (b.rounds (.real started) left (n + 1) u).2.history
          ((b.raised limit more).rounds (.real started) left' (n + 1) u').2.history ∧
        b.Exhausts (b.rounds (.real started) left (n + 1) u) := by
  induction left generalizing left' n u u' with
  | zero => omega
  | succ left ih =>
    obtain ⟨left', rfl⟩ : ∃ k, left' = k + 1 := ⟨left' - 1, by omega⟩
    rcases round_raised more h around (n + 1) same with inStep | ⟨o, t, t', polled, polled', spends⟩
    · obtain ⟨r, t, t', ran, ran', together⟩ := inStep.cases
      simp only [InStepAt, rounds, Act.bind_apply, ran, ran']
      rcases r with e | _ | c
      · exact .inl ⟨rfl, together⟩
      · -- another round follows in both
        have limit' := b.lt_limit_of_round _ (Nat.le_add_left 1 n) ran
        obtain ⟨es, world, keeps⟩ := b.round_keeps (.real started) (Nat.le_add_left 1 n) u
        rw [ran] at world keeps
        obtain ⟨o, d, -, left, split⟩ := keeps
        obtain ⟨es', history, once⟩ := round_asks ran
        have beats : beatsOf t.history = beatsOf u.history ++ beatsOf es := by
          rw [show t = _ from world, beatsOf_append]
        refine ih (n := n + 1) (by omega) (by omega) (by omega) together ?_ ?_
        · rw [beats, split]
          exact .round (o := o) (d := d) cycles trivial left
        · rw [history, List.countP_append, asked, once]
      · exact .inl ⟨rfl, together⟩
    · -- the histories part, and what the other rounds do is behind this point
      right
      obtain ⟨es, history, beats, unasked⟩ := b.opening_poll_history polled
      obtain ⟨exhausts, later, ends⟩ := b.rounds_of_fail started polled (Prod.ext spends.fails rfl) rfl left
      obtain ⟨later', goes⟩ := (b.raised limit more).rounds_history (.real started) polled' left'
      have nothing : ([] : List Event).map Event.unlimited = [].map Event.unlimited := rfl
      have parts := spends.part more (p := b.protocol (fun _ _ => True) fun _ => False) rfl nothing cycles
        (by rw [List.nil_append, history, beatsOf_append, beats])
        (by rw [List.nil_append, history, List.countP_append, asked, unasked, Nat.add_zero])
      rw [ends, goes]
      exact ⟨parts.append later later', exhausts⟩

/-- A round fails for want of attempts only if the limit is reached. -/
theorem runsOut_of_round {started : Value} {n : Nat} {u w : World σ} {f : Failure} {k : Nat}
    (ran : b.round started n u = (.ok (some (.failure f)), w)) (reason : f.reason = .exhausted k) :
    b.waiter.RunsOut f w.history := by
  rw [round_eq_evaluate] at ran
  obtain ⟨o, t, -, ran⟩ := Act.bind_eq_ok.1 ran
  obtain ⟨transition, t₁, evaluated, ran⟩ := Act.bind_eq_ok.1 ran
  obtain ⟨⟨⟩, t₂, told, closed⟩ := Act.bind_eq_ok.1 ran
  cases next : transition.next with
  | inl c =>
    rw [next] at closed
    obtain ⟨same, rfl⟩ := Act.pure_eq_ok.1 closed
    obtain rfl := Option.some.inj same
    obtain rfl := Transition.eq_fail_of_next next
    obtain ⟨later, history, -⟩ := Notifier.tell_enters (P := fun _ => True) (fun _ _ => trivial)
      (fun _ => trivial) b.notifier o n started (.fail f) t₁
    rw [told] at history
    rw [history]
    exact (Waiter.runsOut_of_evaluate evaluated reason).mono (List.subset_append_left _ _)
  | inr d =>
    -- a delay that is cut short is another reason
    rw [next] at closed
    obtain ⟨stopped, t₃, -, closed⟩ := Act.bind_eq_ok.1 closed
    cases stopped with
    | false => exact nomatch (Act.pure_eq_ok.1 closed).1
    | true =>
      obtain ⟨c, t₄, gaveUp, closed⟩ := Act.bind_eq_ok.1 closed
      obtain ⟨⟨⟩, t₅, -, gaveUp⟩ := Act.bind_eq_ok.1 gaveUp
      obtain ⟨⟨⟩, t₆, -, gaveUp⟩ := Act.bind_eq_ok.1 gaveUp
      obtain ⟨rfl, -⟩ := Act.pure_eq_ok.1 gaveUp
      obtain rfl := Conclusion.failure.inj (Option.some.inj (Act.pure_eq_ok.1 closed).1)
      exact nomatch reason

theorem runsOut_of_rounds {started : Value} {left n : Nat} (first : 1 ≤ n) (some : 1 ≤ left)
    (attempts : left + n = b.waiter.strategy.limit + 1) {u w : World σ} {f : Failure} {k : Nat}
    (ran : b.rounds started left n u = (.ok (.failure f), w)) (reason : f.reason = .exhausted k) :
    b.waiter.RunsOut f w.history := by
  induction left generalizing n u with
  | zero => omega
  | succ left ih =>
    obtain ⟨r, u', round, ran⟩ := Act.bind_eq_ok.1 ran
    rcases r with _ | c
    · have left' := b.lt_limit_of_round started first round
      exact ih (by omega) (by omega) (by omega) ran
    · obtain ⟨rfl, rfl⟩ := Act.pure_eq_ok.1 ran
      exact runsOut_of_round round reason

/-- A run fails for want of attempts only if the limit is reached. -/
theorem runsOut_of_run {u w : World σ} {f : Failure} {k : Nat} (ran : b.run u = (.ok (.failure f), w))
    (reason : f.reason = .exhausted k) : b.waiter.RunsOut f w.history :=
  runsOut_of_rounds (Nat.le_refl 1) b.waiter.strategy.limit_pos rfl ran reason

/-- A blocking run with a higher limit is the same run but for the limit, unless the attempts are exhausted:
then the histories part, and this is how the run with the lower limit ends. -/
theorem run_raised (h : b.InSight (.unlimited view))
    (hooks : (b.waiter.hooks.getD {}).DisregardLimit (.unlimited view))
    (clock : ∀ s s', view s = view s' → b.clock s = b.clock s') (caller : Caller σ) :
    (¬ b.waiter.Exhausted (b.run ⟨caller, []⟩).2.history →
      InStepAt (World.Coincide (.unlimited view)) b.run (b.raised limit more).run ⟨caller, []⟩ ⟨caller, []⟩) ∧
    (b.waiter.Exhausted (b.run ⟨caller, []⟩).2.history →
      (b.protocol (fun _ _ => True) fun _ => False).Part (b.run ⟨caller, []⟩).2.history
          ((b.raised limit more).run ⟨caller, []⟩).2.history ∧
        b.Exhausts (b.run ⟨caller, []⟩)) := by
  have start : World.Coincide (.unlimited view) (⟨caller, []⟩ : World σ) ⟨caller, []⟩ :=
    ⟨⟨rfl, rfl, rfl⟩, rfl⟩
  have runs := rounds_raised more h.toJudgesInSight
    (raised_around more h hooks clock (.real (b.clock caller.state))) (n := 0) rfl rfl
    b.waiter.strategy.limit_pos start .start rfl
  constructor
  · intro goesOn
    exact runs.resolve_right fun parts => goesOn parts.1.exhausted
  · intro exhausted
    refine runs.resolve_left fun inStep => ?_
    -- the run with the higher limit would have noted the lower one
    have noted : .note (.exhausted b.waiter.strategy.limit) ∈
        ((b.raised limit more).run ⟨caller, []⟩).2.history :=
      mem_exhausted_of_unlimited inStep.2.history exhausted
    have same : b.waiter.strategy.limit = limit := (b.raised limit more).run_exhausted_limit rfl noted
    omega

end Blocking

end Polling
