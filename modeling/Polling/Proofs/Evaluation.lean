import Polling.Proofs.Judging

/-!
# What evaluating an outcome comes to

The transition after an attempt depends on three things only: the verdict on its outcome, whether the
outcome is a fault, and whether an attempt is left. `evaluate_ends` and `evaluate_retries` are the two
sides of that; `evaluate_eq_retry` says what is known of an attempt after which the wait goes on.
-/

namespace Polling

/-- Does a verdict on an outcome end the wait, whatever attempts are left? -/
def endsWait : Option Verdict → Outcome → Bool
  | some .success, _ => true
  | some .failure, _ => true
  | none, .raised _ => true
  | _, _ => false

/-- The conclusion of a wait that ends at an attempt, with a verdict on its outcome. -/
def conclusionAt (limit attempt : Nat) (o : Outcome) : Option Verdict → Conclusion
  | some .success => .success ⟨o, .int attempt⟩
  | some .failure => .failure (.after o (.int attempt) .rejected)
  | some .retry => .failure (.after o (.int attempt) (.exhausted limit))
  | none =>
    match o with
    | .raised e => .failure (.after o (.int attempt) (.unmatched e))
    | .returned _ => .failure (.after o (.int attempt) (.exhausted limit))

theorem ge_int_of_le {n m : Nat} (h : m ≤ n) : (Value.int n).ge (.int m) = .ok true := by
  simp [Value.ge, Value.ordered, bind, Except.bind, pure, Except.pure, h]

theorem ge_int_of_lt {n m : Nat} (h : n < m) : (Value.int n).ge (.int m) = .ok false := by
  simp [Value.ge, Value.ordered, bind, Except.bind, pure, Except.pure, h]

/-- A number that is not below zero passes. -/
theorem nonNegative_number {d : Number} (h : d.lt (.int 0) = false) (refuse : Number → Misuse) :
    (Value.number d).nonNegative refuse = .ok d := by
  simp [Value.nonNegative, Value.ordered, bind, Except.bind, h]

/-- What passes is a number that is not below zero. -/
theorem of_nonNegative {v : Value} {d : Number} {refuse : Number → Misuse}
    (h : v.nonNegative refuse = .ok d) : v = .number d ∧ d.lt (.int 0) = false := by
  cases v with
  | number m =>
    cases below : m.lt (.int 0) with
    | true => simp [Value.nonNegative, Value.ordered, bind, Except.bind, below] at h
    | false =>
      rw [nonNegative_number below] at h
      obtain rfl := Except.ok.inj h
      exact ⟨rfl, below⟩
  | _ => simp [Value.nonNegative, Value.ordered, bind, Except.bind] at h

/-! ## The last attempt -/

/-- Without an attempt left, the limit is reached. -/
theorem retryOrExhaust_exhausts {strategy : Strategy σ} (o : Outcome) {n : Nat}
    (h : strategy.limit ≤ n) (w : World σ) :
    retryOrExhaust strategy o (.int n) w =
      (.ok (.fail (.after o (.int n) (.exhausted strategy.limit))),
        { w with history := w.history ++ [Event.note (.exhausted strategy.limit)] }) := by
  simp only [retryOrExhaust, Act.bind_apply, Act.lift_ok_apply, ge_int_of_le h]
  rfl

/-- A verdict that ends the wait, or any verdict on the last attempt, brings the wait to its
conclusion. -/
theorem evaluate_ends {acceptors : List (Acceptor σ)} {strategy : Strategy σ} {o : Outcome} {n : Nat}
    {w w' : World σ} {v : Option Verdict} (decided : decide acceptors o w = (.ok v, w'))
    (first : 1 ≤ n) (h : endsWait v o = true ∨ strategy.limit ≤ n) :
    ∃ t q, evaluate acceptors strategy o (.int n) w =
        (.ok t, { w' with history := w'.history ++ q }) ∧
      t.next = .inl (conclusionAt strategy.limit n o v) ∧ ∀ e ∈ q, ∃ note, e = .note note := by
  simp only [evaluate, Act.bind_apply, decided]
  -- a verdict that does not end the wait is there only on the last attempt
  have spent : endsWait v o = false → strategy.limit ≤ n := by
    intro goesOn
    rcases h with ends | spent
    · exact absurd ends (by simp [goesOn])
    · exact spent
  rcases v with _ | (_ | _ | _)
  · cases o with
    | raised e => exact ⟨.fail (.after _ _ (.unmatched e)), [], by simp, rfl, by simp⟩
    | returned x =>
      refine ⟨_, [_], retryOrExhaust_exhausts _ (spent rfl) w', rfl, ?_⟩
      simp
  · refine ⟨.succeed ⟨o, .int n⟩, [], ?_, rfl, by simp⟩
    have accepted := Response.ofOutcome_int o (show (1 : Int) ≤ n by omega)
    simp [Act.bind_apply, accepted]
  · refine ⟨_, [_], retryOrExhaust_exhausts _ (spent rfl) w', rfl, ?_⟩
    simp
  · exact ⟨.fail (.after _ _ .rejected), [], by simp, rfl, by simp⟩

/-! ## An attempt that is left -/

theorem nextDelay_apply {b : Backoff σ} {v : Value} {w : World σ} {d : Number} {c : Caller σ}
    (asked : b.calculate v w.caller = (.ok (.number d), c)) (nonneg : d.lt (.int 0) = false) :
    b.nextDelay v w = (.ok d, { caller := c, history := w.history ++ [Event.asked v] }) := by
  have called : Act.call (.asked v) (b.calculate v) w =
      (.ok (.number d), { caller := c, history := w.history ++ [Event.asked v] }) := by
    rw [Act.call_apply, asked]
  rw [Backoff.nextDelay, Act.bind_apply, called]
  simp [nonNegative_number nonneg]

/-- A delay that the backoff gives is not below zero. -/
theorem nonneg_of_nextDelay {b : Backoff σ} {v : Value} {w : World σ} {d : Number}
    (h : (b.nextDelay v w).1 = .ok d) : d.lt (.int 0) = false := by
  rw [Backoff.nextDelay, Act.bind_apply] at h
  rcases hx : Act.call (.asked v) (b.calculate v) w with ⟨e | x, w'⟩
  · rw [hx] at h
    exact nomatch h
  · rw [hx] at h
    cases passes : x.nonNegative .negativeBackoff with
    | error m => simp [passes] at h
    | ok d' =>
      obtain rfl : d' = d := by simpa [passes] using h
      exact (of_nonNegative passes).2

/-- With an attempt left, the backoff is asked for the delay. -/
theorem retryOrExhaust_of_lt {strategy : Strategy σ} (o : Outcome) {n : Nat}
    (h : n < strategy.limit) (w : World σ) :
    retryOrExhaust strategy o (.int n) w = match strategy.backoff.nextDelay (.int n) w with
      | (.ok d, w') =>
        match d.twoPlaces? with
        | some shown => (.ok (.retry d), { w' with
            history := w'.history ++ [Event.note (.retrying (.int n) strategy.limit shown)] })
        | none => (.error Misuse.integerTooLarge.fault, w')
      | (.error e, w') => (.error e, w') := by
  simp only [retryOrExhaust, Act.bind_apply, Act.lift_ok_apply, ge_int_of_lt h]
  show (strategy.backoff.nextDelay (.int n) >>= _) w = _
  rw [Act.bind_apply]
  rcases strategy.backoff.nextDelay (.int n) w with ⟨e | d, w'⟩
  · rfl
  · simp only
    cases d.twoPlaces? <;> rfl

/-- With an attempt left, nothing but a retry comes of it. -/
theorem exists_retry_of_lt {strategy : Strategy σ} {o : Outcome} {n : Nat} (left : n < strategy.limit)
    {w : World σ} {t : Transition} (h : (retryOrExhaust strategy o (.int n) w).1 = .ok t) :
    ∃ d, t = .retry d := by
  rw [retryOrExhaust_of_lt o left] at h
  rcases hd : strategy.backoff.nextDelay (.int n) w with ⟨e | d, w'⟩
  · rw [hd] at h
    cases h
  · rw [hd] at h
    cases real : d.twoPlaces? with
    | none => simp [real] at h
    | some shown =>
      obtain rfl : .retry d = t := by simpa [real] using h
      exact ⟨d, rfl⟩

theorem retryOrExhaust_retries {strategy : Strategy σ} (o : Outcome) {n : Nat}
    (h : n < strategy.limit) {w : World σ} {d : Number} {c : Caller σ}
    (asked : strategy.backoff.calculate (.int n) w.caller = (.ok (.number d), c))
    (nonneg : d.lt (.int 0) = false) {shown : String} (real : d.twoPlaces? = some shown) :
    retryOrExhaust strategy o (.int n) w = (.ok (.retry d),
      { caller := c
        history := w.history ++ [Event.asked (.int n), .note (.retrying (.int n) strategy.limit shown)] }) := by
  rw [retryOrExhaust_of_lt o h, nextDelay_apply asked nonneg]
  simp [real]

/-- A verdict that does not end the wait leads to another attempt, after the delay that the backoff
gives. -/
theorem evaluate_retries {acceptors : List (Acceptor σ)} {strategy : Strategy σ} {o : Outcome}
    {n : Nat} {w w' : World σ} {v : Option Verdict} (decided : decide acceptors o w = (.ok v, w'))
    (goesOn : endsWait v o = false) (h : n < strategy.limit) {d : Number} {c : Caller σ}
    (asked : strategy.backoff.calculate (.int n) w'.caller = (.ok (.number d), c))
    (nonneg : d.lt (.int 0) = false) {shown : String} (real : d.twoPlaces? = some shown) :
    evaluate acceptors strategy o (.int n) w = (.ok (.retry d),
      { caller := c
        history := w'.history ++ [Event.asked (.int n), .note (.retrying (.int n) strategy.limit shown)] }) := by
  simp only [evaluate, Act.bind_apply, decided]
  rcases v with _ | (_ | _ | _)
  · cases o with
    | raised e => exact nomatch goesOn
    | returned x => exact retryOrExhaust_retries _ h asked nonneg real
  · exact nomatch goesOn
  · exact retryOrExhaust_retries _ h asked nonneg real
  · exact nomatch goesOn

/-- A backoff gives a delay to a wait that asks for the one after an attempt. -/
def Backoff.GrantsAfter (b : Backoff σ) (n : Nat) (d : Number) : Prop :=
  ∃ w, (b.nextDelay (.int n) w).1 = .ok d

/-- What is known of an attempt after which the wait goes on: it is not the last one, and the backoff gives
the delay, which can be waited. -/
structure Retries (strategy : Strategy σ) (n : Nat) (d : Number) : Prop where
  left : n < strategy.limit
  given : strategy.backoff.GrantsAfter n d
  nonneg : d.lt (.int 0) = false
  real : d.toReal?.isSome = true

theorem retryOrExhaust_eq_retry {strategy : Strategy σ} {o : Outcome} {n : Nat} {w : World σ}
    {d : Number} (h : (retryOrExhaust strategy o (.int n) w).1 = .ok (.retry d)) :
    Retries strategy n d := by
  rcases Nat.lt_or_ge n strategy.limit with left | spent
  · rw [retryOrExhaust_of_lt o left] at h
    rcases hd : strategy.backoff.nextDelay (.int n) w with ⟨e | d', w'⟩
    · rw [hd] at h
      exact nomatch h
    · have given : strategy.backoff.GrantsAfter n d' := ⟨w, congrArg Prod.fst hd⟩
      have nonneg := nonneg_of_nextDelay (congrArg Prod.fst hd)
      rw [hd] at h
      cases real : d'.twoPlaces? with
      | none => simp [real] at h
      | some shown =>
        obtain rfl : d' = d := by simpa [real] using h
        exact ⟨left, given, nonneg, by simpa [Number.twoPlaces?] using congrArg Option.isSome real⟩
  · rw [retryOrExhaust_exhausts o spent] at h
    simp at h

theorem evaluate_eq_retry {acceptors : List (Acceptor σ)} {strategy : Strategy σ} {o : Outcome}
    {n : Nat} {w : World σ} {d : Number}
    (h : (evaluate acceptors strategy o (.int n) w).1 = .ok (.retry d)) : Retries strategy n d := by
  simp only [evaluate, Act.bind_apply] at h
  rcases hv : decide acceptors o w with ⟨e | v, w'⟩
  · rw [hv] at h
    exact nomatch h
  · rw [hv] at h
    rcases v with _ | (_ | _ | _)
    · cases o with
      | raised e => simp at h
      | returned x => exact retryOrExhaust_eq_retry h
    · simp only [Act.bind_apply] at h
      cases hr : Response.ofOutcome o (.int n) <;> simp [hr] at h
    · exact retryOrExhaust_eq_retry h
    · simp at h

end Polling
