import Polling.Proofs.FirstMatch
import Polling.Proofs.Replay
import Polling.Proofs.Rounds

/-!
# The transition function

After an attempt a wait is told one thing: a response, a failure, or a delay to wait before the next
attempt. `transitionOn` is the part of an evaluation behind the decision; the answer of the decider,
the sort of the outcome and the number of attempts are all that it looks at. Where the wait goes on, what
comes of it is left to the backoff, and `Granted` says how: what the backoff raises is passed on, a delay
that cannot be waited is refused, and any other is taken as it is.

`Yields` lists what an evaluation comes to, and `evaluate_yields` says that every evaluation comes to it
whose matchers raise nothing.
-/

namespace Polling

/-- The transition after an attempt, the answer of the decider given. -/
def transitionOn (strategy : Strategy σ) (o : Outcome) (attempt : Value) :
    Option Verdict → Act σ Transition
  | some .success => return .succeed (← Act.lift (Response.ofOutcome o attempt))
  | some .failure => return .fail (.after o attempt .rejected)
  | some .retry => retryOrExhaust strategy o attempt
  | none =>
    match o with
    | .raised e => return .fail (.after o attempt (.unmatched e))
    | .returned _ => retryOrExhaust strategy o attempt

/-- An evaluation is a decision and the transition on its answer. -/
theorem evaluate_eq (acceptors : List (Acceptor σ)) (strategy : Strategy σ) (o : Outcome)
    (attempt : Value) :
    evaluate acceptors strategy o attempt =
      decide acceptors o >>= transitionOn strategy o attempt := by
  rw [evaluate]
  congr 1
  funext s
  rcases s with _ | (_ | _ | _)
  · cases o <;> rfl
  · rfl
  · rfl
  · rfl

/-- A verdict that does not end the wait leaves it to the number of attempts. -/
theorem transitionOn_of_not_endsWait {s : Option Verdict} {o : Outcome} (goesOn : endsWait s o = false)
    (strategy : Strategy σ) (attempt : Value) :
    transitionOn strategy o attempt s = retryOrExhaust strategy o attempt := by
  rcases s with _ | (_ | _ | _)
  · cases o with
    | raised e => exact nomatch goesOn
    | returned x => rfl
  · exact nomatch goesOn
  · rfl
  · exact nomatch goesOn

/-- So it does for the evaluation. -/
theorem evaluate_of_decided {acceptors : List (Acceptor σ)} {strategy : Strategy σ} {o : Outcome}
    {attempt : Value} {s : Option Verdict} {w w' : World σ} (decided : decide acceptors o w = (.ok s, w'))
    (goesOn : endsWait s o = false) :
    evaluate acceptors strategy o attempt w = retryOrExhaust strategy o attempt w' := by
  rw [evaluate_eq, Act.bind_apply, decided]
  exact congrFun (transitionOn_of_not_endsWait goesOn strategy attempt) w'

/-! ## The flat form of a conclusion -/

/-- A conclusion as three parts, of which it has one. -/
def Conclusion.flat : Conclusion → FlatTransition
  | .success r => { response := some r }
  | .failure f => { failure := some f.fault }

theorem Transition.flat_of_next {t : Transition} {c : Conclusion} (h : t.next = .inl c) :
    t.flat = c.flat := by
  cases t with
  | succeed r =>
    obtain rfl : .success r = c := Sum.inl.inj h
    rfl
  | fail f =>
    obtain rfl : .failure f = c := Sum.inl.inj h
    rfl
  | retry d => exact nomatch h

/-! ## Asking the backoff -/

/-- What comes of the answer of a backoff. -/
inductive Granted : Except Fault Value → Except Fault Transition → Prop where
  /-- The fault that the backoff raises is passed on. -/
  | raises (e : Fault) : Granted (.error e) (.error e)
  /-- What is no delay that can be waited is refused. -/
  | refuses {v : Value} {m : Misuse} (refused : v.refusal? = some m) : Granted (.ok v) (.error m.fault)
  /-- A delay that can be waited is taken as it is. -/
  | delays {d : Number} (waited : (Value.number d).refusal? = none) :
    Granted (.ok (.number d)) (.ok (.retry d))

/-- A fault comes of it only if the backoff raises it or its answer is refused. -/
theorem Granted.error_iff {asked : Except Fault Value} {r : Except Fault Transition}
    (h : Granted asked r) (e : Fault) :
    r = .error e ↔ asked = .error e ∨ ∃ v m, asked = .ok v ∧ v.refusal? = some m ∧ e = m.fault := by
  cases h with
  | raises e' => simp
  | @refuses v m refused =>
    constructor
    · rintro ⟨⟩
      exact .inr ⟨v, m, rfl, refused, rfl⟩
    · rintro (⟨⟨⟩⟩ | ⟨_, m', ⟨⟩, refused', rfl⟩)
      rw [Option.some.inj (refused.symm.trans refused')]
  | delays waited =>
    constructor
    · rintro ⟨⟩
    · rintro (⟨⟨⟩⟩ | ⟨_, m', ⟨⟩, refused, -⟩)
      exact nomatch waited.symm.trans refused

/-- With an attempt left the backoff is asked, once, and its answer settles what comes of it. -/
theorem retryOrExhaust_granted {strategy : Strategy σ} (o : Outcome) {n : Nat}
    (left : n < strategy.limit) (w : World σ) : ∃ r q,
    retryOrExhaust strategy o (.int n) w = (r,
      ⟨(strategy.backoff.calculate (.int n) w.caller).2, w.history ++ [Event.asked (.int n)] ++ q⟩) ∧
    stepsOf q = [] ∧ Granted (strategy.backoff.calculate (.int n) w.caller).1 r := by
  rw [retryOrExhaust_of_lt o left, Backoff.nextDelay, Act.bind_apply, Act.call_apply]
  -- a delay is looked at twice: when it is compared with zero, and when the log is to show it
  rcases strategy.backoff.calculate (.int n) w.caller with ⟨e | v, c⟩
  · exact ⟨.error e, [], by simp, rfl, .raises e⟩
  · cases passes : v.nonNegative .negativeBackoff with
    | error m =>
      exact ⟨.error m.fault, [], by simp [passes], rfl,
        .refuses (Value.refusal?_of_nonNegative passes)⟩
    | ok d =>
      have refusal := Value.refusal?_of_ok passes
      obtain ⟨rfl, -⟩ := of_nonNegative passes
      cases real : d.toReal? with
      | none =>
        have unreal : d.twoPlaces? = none := by rw [Number.twoPlaces?, real, Option.map_none]
        exact ⟨.error Misuse.integerTooLarge.fault, [], by simp [passes, unreal], rfl,
          .refuses (by rw [refusal, real]; rfl)⟩
      | some x =>
        obtain ⟨shown, places⟩ : ∃ shown, d.twoPlaces? = some shown :=
          ⟨_, by rw [Number.twoPlaces?, real, Option.map_some]⟩
        exact ⟨.ok (.retry d), [.note (.retrying (.int n) strategy.limit shown)],
          by simp [passes, places], rfl, .delays (by rw [refusal, real]; rfl)⟩

/-! ## What every evaluation comes to -/

/-- The answer of the backoff of a strategy after an attempt. -/
def Strategy.answer (strategy : Strategy σ) (n : Nat) (w : World σ) : Except Fault Value × Caller σ :=
  strategy.backoff.calculate (.int n) w.caller

/-- Is the backoff asked after an attempt with an answer of the decider? -/
def Strategy.Asks (strategy : Strategy σ) (n : Nat) (s : Option Verdict) (o : Outcome) : Prop :=
  endsWait s o = false ∧ n < strategy.limit

/-- An error as a transition. It carries the attempts, and the fault of the outcome as its cause. -/
def FlatTransition.error (o : Outcome) (n : Nat) (kind : FaultKind) (message : String)
    (limit? : Option Value) : FlatTransition :=
  { failure := some (.waiting kind (.string message) (.int n) limit? o.fault?) }

/-- What an evaluation after an attempt comes to, given the world at its start, the answer of the decider
and the world that the decision leaves. -/
structure Yields (strategy : Strategy σ) (o : Outcome) (n : Nat) (w : World σ) (s : Option Verdict)
    (decided : World σ) (r : Except Fault Transition × World σ) : Prop where
  /-- Success is a response with the outcome and the attempts. -/
  success : s = some .success → r.1.map Transition.flat = .ok { response := some ⟨o, .int n⟩ }
  /-- Failure is an error of its own. -/
  failure : s = some .failure → r.1.map Transition.flat =
    .ok (.error o n .acceptorFailure Reason.rejected.message none)
  /-- So is a fault that no acceptor matches, at any attempt. -/
  unmatched : ∀ e, s = none → o = .raised e → r.1.map Transition.flat =
    .ok (.error o n .unmatchedFailure (Reason.unmatched e).message none)
  /-- Without an attempt left, going on is an error with the limit. -/
  exhausted : endsWait s o = false → strategy.limit ≤ n → r.1.map Transition.flat =
    .ok (.error o n .retriesExhausted (Reason.exhausted strategy.limit).message
      (some (.int strategy.limit)))
  /-- With an attempt left, it is the delay that the backoff gives. -/
  delays : strategy.Asks n s o → ∀ d, (strategy.answer n decided).1 = .ok (.number d) →
    (Value.number d).refusal? = none → r.1.map Transition.flat = .ok { delay := some (.number d) }
  /-- A fault comes of it only where the backoff is asked and raises it, or its answer is refused. -/
  raises : ∀ e, r.1 = .error e ↔ strategy.Asks n s o ∧ ((strategy.answer n decided).1 = .error e ∨
    ∃ v m, (strategy.answer n decided).1 = .ok v ∧ v.refusal? = some m ∧ e = m.fault)
  /-- There is one part in what it returns. -/
  onePart : ∀ t, r.1 = .ok t →
    [t.flat.response.isSome, t.flat.failure.isSome, t.flat.delay.isSome].count true = 1
  /-- And the wait goes on just if that is a delay, whichever one. -/
  terminal : ∀ t, r.1 = .ok t → (t.flat.isTerminal = true ↔ t.flat.delay = none)
  /-- The backoff is asked once, for the delay after this attempt, or not at all. -/
  asks : ∃ es, r.2.history = w.history ++ es ∧
    (strategy.Asks n s o → stepsOf es = [.asked (.int n)] ∧ r.2.caller = (strategy.answer n decided).2) ∧
    (¬ strategy.Asks n s o → stepsOf es = [] ∧ r.2.caller = decided.caller)

/-- A transition has one part. -/
theorem Transition.flat_onePart (t : Transition) :
    [t.flat.response.isSome, t.flat.failure.isSome, t.flat.delay.isSome].count true = 1 := by
  cases t <;> rfl

theorem FlatTransition.isTerminal_iff (t : FlatTransition) : t.isTerminal = true ↔ t.delay = none := by
  rw [isTerminal, Option.isNone_iff_eq_none]

/-- A decision does not ask the backoff. -/
theorem decide_quiet {acceptors : List (Acceptor σ)} {o : Outcome} {s : Option Verdict} {w w' : World σ}
    (decided : decide acceptors o w = (.ok s, w')) :
    ∃ es, w'.history = w.history ++ es ∧ stepsOf es = [] :=
  Act.stepsOf_of_enters (decideFrom_enters (fun _ _ => rfl) (fun _ _ => rfl) 0 acceptors o) decided

/-- An evaluation that does not ask the backoff comes to the conclusion. -/
theorem yields_of_not_asks {acceptors : List (Acceptor σ)} {strategy : Strategy σ} {o : Outcome} {n : Nat}
    {s : Option Verdict} {w w' : World σ} (decided : decide acceptors o w = (.ok s, w')) (first : 1 ≤ n)
    (settled : ¬ strategy.Asks n s o) :
    Yields strategy o n w s w' (evaluate acceptors strategy o (.int n) w) := by
  have ends : endsWait s o = true ∨ strategy.limit ≤ n := by
    by_contra open_
    simp only [not_or, Bool.not_eq_true, not_le] at open_
    exact settled open_
  obtain ⟨t, q, evaluated, next, notes⟩ := evaluate_ends decided first ends
  have flat : (evaluate acceptors strategy o (.int n) w).1.map Transition.flat =
      .ok (conclusionAt strategy.limit n o s).flat := by
    rw [evaluated, ← Transition.flat_of_next next]
    rfl
  have quiet : stepsOf q = [] := by
    refine List.filter_eq_nil_iff.2 fun e he => ?_
    obtain ⟨note, rfl⟩ := notes e he
    exact Bool.false_ne_true
  refine { success := ?_, failure := ?_, unmatched := ?_, exhausted := ?_, delays := ?_, raises := ?_,
           onePart := ?_, terminal := ?_, asks := ?_ }
  · rintro rfl
    exact flat
  · rintro rfl
    exact flat
  · rintro e rfl rfl
    exact flat
  · -- the two answers that are left to the attempts come to the same conclusion
    intro goesOn _
    rw [flat]
    rcases s with _ | (_ | _ | _)
    · cases o with
      | raised e => exact nomatch goesOn
      | returned x => rfl
    · exact nomatch goesOn
    · rfl
    · exact nomatch goesOn
  · exact fun asks => absurd asks settled
  · intro e
    rw [evaluated]
    constructor
    · rintro ⟨⟩
    · exact fun asked => absurd asked.1 settled
  · exact fun t _ => t.flat_onePart
  · exact fun t _ => t.flat.isTerminal_iff
  · obtain ⟨es, left, quiet'⟩ := decide_quiet decided
    refine ⟨es ++ q, ?_, fun asks => absurd asks settled, fun _ => ⟨?_, ?_⟩⟩
    · rw [evaluated, left, List.append_assoc]
    · rw [stepsOf_append, quiet, quiet', List.append_nil]
    · rw [evaluated]

/-- An evaluation that asks the backoff comes to what its answer is. -/
theorem yields_of_asks {acceptors : List (Acceptor σ)} {strategy : Strategy σ} {o : Outcome} {n : Nat}
    {s : Option Verdict} {w w' : World σ} (decided : decide acceptors o w = (.ok s, w'))
    (asks : strategy.Asks n s o) :
    Yields strategy o n w s w' (evaluate acceptors strategy o (.int n) w) := by
  obtain ⟨goesOn, left⟩ := asks
  obtain ⟨r, q, asked, quiet, granted⟩ := retryOrExhaust_granted o left w'
  rw [evaluate_of_decided decided goesOn, asked]
  -- the wait goes on, so the clauses about its ends do not apply
  refine { success := ?_, failure := ?_, unmatched := ?_, exhausted := ?_, delays := ?_, raises := ?_,
           onePart := ?_, terminal := ?_, asks := ?_ }
  · rintro rfl
    exact nomatch goesOn
  · rintro rfl
    exact nomatch goesOn
  · rintro e rfl rfl
    exact nomatch goesOn
  · intro _ spent
    omega
  · intro _ d answered waited
    rw [show (strategy.backoff.calculate (.int n) w'.caller).1 = _ from answered] at granted
    cases granted with
    | refuses refused => exact nomatch waited.symm.trans refused
    | delays _ => rfl
  · intro e
    rw [and_iff_right ⟨goesOn, left⟩]
    exact granted.error_iff e
  · exact fun t _ => t.flat_onePart
  · exact fun t _ => t.flat.isTerminal_iff
  · obtain ⟨es, before, quiet'⟩ := decide_quiet decided
    refine ⟨es ++ [Event.asked (.int n)] ++ q, ?_, fun _ => ⟨?_, rfl⟩,
      fun settled => absurd ⟨goesOn, left⟩ settled⟩
    · rw [before, List.append_assoc, List.append_assoc, List.append_assoc]
    · rw [stepsOf_append, stepsOf_append, quiet, quiet']
      rfl

/-- The transition function. If no matcher raises a fault, the decider has an answer, and the evaluation
comes to what `Yields` says of it: a response, one of three errors, or the delay that the backoff gives
after this attempt, which is asked in this case alone. -/
theorem evaluate_yields {acceptors : List (Acceptor σ)}
    (returns : ∀ a ∈ acceptors, ∀ payload, (a.matcher payload).Returns) (strategy : Strategy σ)
    (o : Outcome) {n : Nat} (first : 1 ≤ n) (w : World σ) : ∃ s w',
    decide acceptors o w = (.ok s, w') ∧
      Yields strategy o n w s w' (evaluate acceptors strategy o (.int n) w) := by
  obtain ⟨s, w', decided⟩ := Act.ok_of_raisesOnly (decideFrom_raisesOnly 0 returns o) w
  refine ⟨s, w', decided, ?_⟩
  by_cases asks : strategy.Asks n s o
  · exact yields_of_asks decided asks
  · exact yields_of_not_asks decided first asks

/-! ## An example -/

/-- Seven attempts without a delay between them. -/
def Strategy.hasty : Strategy Nat := ⟨7, .constant ⟨.instant, rfl⟩, by omega⟩

theorem Matcher.no_returns (payload : Object) : (no payload).Returns := by
  rintro c e ⟨⟩

/-- A value that no acceptor matches, at the second of seven attempts: the wait goes on after a delay of
zero, which is no end. -/
theorem evaluate_yields_unmatched :
    Yields .hasty (.returned .null) 2 ⟨⟨0, 0, []⟩, []⟩ none
      ⟨⟨1, 0, []⟩, [.examined 0 (.value .null), .note .unmatched]⟩
      (evaluate [.onValue .success .no] .hasty (.returned .null) (.int 2) ⟨⟨0, 0, []⟩, []⟩) ∧
    (evaluate [.onValue .success .no] .hasty (.returned .null) (.int 2) ⟨⟨0, 0, []⟩, []⟩).1.map
      Transition.flat = .ok { delay := some (.number .instant) } := by
  have returns : ∀ a ∈ [Acceptor.onValue .success Matcher.no], ∀ payload, (a.matcher payload).Returns := by
    intro a ha payload
    obtain rfl := List.mem_singleton.1 ha
    exact Matcher.no_returns payload
  obtain ⟨s, w', decided, yields⟩ := evaluate_yields returns Strategy.hasty (.returned .null)
    (show 1 ≤ 2 by decide) ⟨⟨0, 0, []⟩, []⟩
  obtain rfl : none = s := Except.ok.inj (congrArg Prod.fst decided)
  obtain rfl := congrArg Prod.snd decided
  exact ⟨yields, yields.delays ⟨rfl, by decide⟩ .instant rfl (by decide +kernel)⟩

end Polling
