import Polling.Proofs.RunProtocol

/-!
# What is behind the fault of a failed run

A blocking run that fails raises a fault of its own, and the fault keeps another one as its cause. The
failures that an evaluation gives keep the fault of the outcome that they are about
(`evaluate_answers`), and this outcome is the last one of the run: nothing is polled behind the
evaluation. The failure of an interrupted run is made behind the pause, where nothing is known of
outcomes, so it has no cause, whatever the last poll has raised (`Blocking.cause_of_failure`).
-/

namespace Polling

/-- The fault behind a fault. -/
def Fault.cause? : Fault → Option Fault
  | .waiting _ _ _ _ cause => cause
  | _ => none

/-- The failure that a wait ends with, if it fails. -/
def Conclusion.failure? : Conclusion → Option Failure
  | .success _ => none
  | .failure f => some f

/-- What a failure keeps of the outcome before it: its fault, except that an interruption keeps nothing. -/
def Failure.Answers (o : Outcome) (f : Failure) : Prop :=
  f.fault.cause? = if f.fault.kind = .interrupted then none else o.fault?

/-- What a transition keeps of the outcome before it, if it fails the wait. -/
def Transition.Answers (o : Outcome) : Transition → Prop
  | .fail f => f.Answers o
  | _ => True

/-- Only interruptions are reported as such. -/
theorem Reason.kind_ne_interrupted {r : Reason} (h : ∀ i, r ≠ .interrupted i) :
    r.kind ≠ .interrupted := by
  cases r with
  | rejected => exact (by decide : FaultKind.acceptorFailure ≠ .interrupted)
  | unmatched e => exact (by decide : FaultKind.unmatchedFailure ≠ .interrupted)
  | exhausted n => exact (by decide : FaultKind.retriesExhausted ≠ .interrupted)
  | interrupted i => exact absurd rfl (h i)

/-- A failure after an outcome keeps the outcome's fault. -/
theorem Failure.answers_after {o : Outcome} {attempts : Value} {reason : Reason}
    (h : ∀ i, reason ≠ .interrupted i) : (Failure.after o attempts reason).Answers o := by
  have kind : (Failure.after o attempts reason).fault.kind ≠ .interrupted :=
    Reason.kind_ne_interrupted h
  rw [Answers, if_neg kind]
  rfl

theorem retryOrExhaust_answers {strategy : Strategy σ} {o : Outcome} {n : Nat} {w w' : World σ}
    {t : Transition} (h : retryOrExhaust strategy o (.int n) w = (.ok t, w')) : t.Answers o := by
  rcases Nat.lt_or_ge n strategy.limit with left | spent
  · obtain ⟨d, rfl⟩ := exists_retry_of_lt left (congrArg Prod.fst h)
    trivial
  · rw [retryOrExhaust_exhausts o spent] at h
    obtain rfl := Except.ok.inj (congrArg Prod.fst h)
    exact Failure.answers_after nofun

/-- A failure that an evaluation gives keeps the fault of the outcome. -/
theorem evaluate_answers {acceptors : List (Acceptor σ)} {strategy : Strategy σ} {o : Outcome} {n : Nat}
    {w w' : World σ} {t : Transition} (h : evaluate acceptors strategy o (.int n) w = (.ok t, w')) :
    t.Answers o := by
  obtain ⟨v, w₁, -, h⟩ := Act.bind_eq_ok.1 h
  rcases v with _ | (_ | _ | _)
  · cases o with
    | raised e =>
      obtain ⟨rfl, -⟩ := Act.pure_eq_ok.1 h
      exact Failure.answers_after nofun
    | returned x => exact retryOrExhaust_answers h
  · -- a response is no failure
    obtain ⟨r, w₂, -, h⟩ := Act.bind_eq_ok.1 h
    obtain ⟨rfl, -⟩ := Act.pure_eq_ok.1 h
    trivial
  · exact retryOrExhaust_answers h
  · obtain ⟨rfl, -⟩ := Act.pure_eq_ok.1 h
    exact Failure.answers_after nofun

namespace Blocking

variable {b : Blocking σ}

/-- In a history that begins with a caller, the last poll has left an outcome. -/
def LeavesLast (b : Blocking σ) (c : Caller σ) (es : List Event) (o : Outcome) : Prop :=
  ∃ before i after, es = before ++ .polled i :: after ∧ after.countP Event.isPolled = 0 ∧
    (b.operation i (replay b.answer c before)).1 = o.result

theorem LeavesLast.after {c : Caller σ} {es : List Event} {o : Outcome} {earlier : List Event}
    (h : b.LeavesLast (replay b.answer c earlier) es o) : b.LeavesLast c (earlier ++ es) o := by
  obtain ⟨before, i, after, rfl, unpolled, left⟩ := h
  exact ⟨earlier ++ before, i, after, by simp, unpolled, by rwa [replay_append]⟩

/-- A failure with which a round closes answers the outcome that has been judged. -/
theorem close_answers {started : Value} {i : Nat} {o : Outcome} {t : Transition} (answers : t.Answers o)
    {w w' : World σ} {f : Failure}
    (h : b.close started i t.next w = (.ok (some (.failure f)), w')) : f.Answers o := by
  cases t with
  | succeed r => exact nomatch (Act.pure_eq_ok.1 h).1
  | fail f' =>
    obtain ⟨same, -⟩ := Act.pure_eq_ok.1 h
    obtain rfl : f' = f := by simpa using same
    exact answers
  | retry d =>
    obtain ⟨stopped, w₁, -, h⟩ := Act.bind_eq_ok.1 h
    cases stopped with
    | false => exact nomatch (Act.pure_eq_ok.1 h).1
    | true =>
      obtain ⟨c, w₂, given, h⟩ := Act.bind_eq_ok.1 h
      obtain rfl := giveUp_eq_ok given
      obtain ⟨same, -⟩ := Act.pure_eq_ok.1 h
      obtain rfl : (⟨.interrupted i, .int i, none⟩ : Failure) = f := by simpa using same
      -- an interruption is made without a cause
      rfl

/-- A failure with which a round ends answers the outcome of the poll that the round makes, and nothing
is polled behind it. -/
theorem round_answers {started : Value} {i : Nat} {w w' : World σ} {f : Failure}
    (h : b.round started i w = (.ok (some (.failure f)), w')) :
    ∃ es o, w'.history = w.history ++ es ∧ b.LeavesLast w.caller es o ∧ f.Answers o := by
  rw [round_eq] at h
  obtain ⟨⟨⟩, w₁, opened, h⟩ := Act.bind_eq_ok.1 h
  obtain ⟨o, w₂, polled, rest⟩ := Act.bind_eq_ok.1 h
  have opens : (b.notifier.opening i b.waiter.strategy.limit).Replays b.answer :=
    Notifier.opening_replays b.waiter _ _ _ _
  -- the operation is called on the caller that the hook has left
  obtain ⟨before, world, -⟩ := opens w
  rw [opened] at world
  obtain rfl : w₁ = ⟨replay b.answer w.caller before, w.history ++ before⟩ := world
  obtain ⟨history, left⟩ := b.poll_history i ⟨replay b.answer w.caller before, w.history ++ before⟩
  rw [polled] at history left
  -- what follows makes no further poll
  obtain ⟨es, history', unpolled⟩ := Act.enters_bind (P := (·.isPolled = false))
    (judge_enters (fun _ _ => rfl) (fun _ => rfl) (fun _ _ => rfl) (fun _ => rfl) b.notifier b.waiter o i
      started rfl)
    (fun next => b.close_enters (fun _ _ => rfl) (fun _ => rfl) started i next (fun _ _ => rfl)
      fun _ _ => rfl)
    w₂
  rw [rest, history] at history'
  obtain ⟨next, w₃, judged, closed⟩ := Act.bind_eq_ok.1 rest
  obtain ⟨t, w₄, evaluated, told⟩ := Act.bind_eq_ok.1 judged
  obtain ⟨⟨⟩, w₅, -, told⟩ := Act.bind_eq_ok.1 told
  obtain ⟨rfl, rfl⟩ := Act.pure_eq_ok.1 told
  refine ⟨before ++ Event.polled i :: es, o, by simpa using history', ⟨before, i, es, rfl, ?_, left o rfl⟩,
    close_answers (evaluate_answers evaluated) closed⟩
  exact List.countP_eq_zero.2 fun e he => by simp [unpolled e he]

/-- So does a failure with which later rounds end. -/
theorem rounds_answers {started : Value} {left n : Nat} (attempts : left + n = b.waiter.strategy.limit)
    (more : 1 ≤ left) {w w' : World σ} {f : Failure}
    (h : b.rounds started left (n + 1) w = (.ok (.failure f), w')) :
    ∃ es o, w'.history = w.history ++ es ∧ b.LeavesLast w.caller es o ∧ f.Answers o := by
  induction left generalizing n w with
  | zero => omega
  | succ left ih =>
    obtain ⟨conclusion, w₁, round, h⟩ := Act.bind_eq_ok.1 h
    cases conclusion with
    | some c =>
      obtain ⟨rfl, rfl⟩ := Act.pure_eq_ok.1 h
      exact round_answers round
    | none =>
      have limit := b.lt_limit_of_round started (show 1 ≤ n + 1 by omega) round
      obtain ⟨before, world, -⟩ := b.round_replays started (n + 1) w
      rw [round] at world
      obtain rfl : w₁ = ⟨replay b.answer w.caller before, w.history ++ before⟩ := world
      obtain ⟨es, o, history, last, answers⟩ := ih (n := n + 1) (by omega) (by omega) h
      exact ⟨before ++ es, o, by simp [history], last.after, answers⟩

/-- A fault that a blocking run makes of its own keeps the fault of the last poll as its cause, if the
poll has raised one, unless the fault reports an interruption, which has no cause. -/
theorem cause_of_failure {w w' : World σ} {f : Failure} (h : b.run w = (.ok (.failure f), w')) :
    ∃ es o, w'.history = w.history ++ es ∧ b.LeavesLast w.caller es o ∧
      f.fault.cause? = if f.fault.kind = .interrupted then none else o.fault? :=
  rounds_answers (Nat.add_zero _) b.waiter.strategy.limit_pos h

/-! ## An example -/

/-- No answer in time. -/
def lateness : Fault := .plain .timeout []

/-- A wait whose operation is always late, which counts as not ready yet, with a signal that is set from the
beginning or never. -/
def late (set : Bool) : Blocking Unit where
  waiter := {
    strategy := ⟨2, .custom "" fun _ => pure (.number (.int 0)), by omega⟩
    acceptors := [.onFault .retry pure] }
  clock _ := .finite false 0
  sleep _ := pure ()
  signal := some ⟨fun _ => set, fun _ => pure set⟩
  operation _ := fun c => (.error lateness, c)

/-- Without the signal the limit is reached and the fault has a cause; with it the first pause is
interrupted, and the fault has none. -/
theorem late_run (set : Bool) : ∃ f w', (late set).run ⟨⟨(), 0, []⟩, []⟩ = (.ok (.failure f), w') ∧
    f.fault.kind = (if set then .interrupted else .retriesExhausted) ∧
    f.fault.cause?.isSome = !set := by
  have seen : (((late set).run ⟨⟨(), 0, []⟩, []⟩).1.toOption.bind Conclusion.failure?).map
      (fun f => (f.fault.kind, f.fault.cause?.isSome)) =
        some (if set then .interrupted else .retriesExhausted, !set) := by
    cases set <;> decide +kernel
  rcases hr : (late set).run ⟨⟨(), 0, []⟩, []⟩ with ⟨e | r | f, w'⟩ <;> rw [hr] at seen
  · exact absurd seen (by simp [Except.toOption])
  · exact absurd seen (by simp [Except.toOption, Conclusion.failure?])
  · obtain ⟨kind, cause⟩ := Prod.mk.inj (Option.some.inj seen)
    exact ⟨f, w', rfl, kind, cause⟩

/-- Every poll of the wait leaves the same fault. -/
theorem late_leaves {set : Bool} {c : Caller Unit} {es : List Event} {o : Outcome}
    (h : (late set).LeavesLast c es o) : o = .raised lateness := by
  obtain ⟨before, i, after, -, -, left⟩ := h
  cases o with
  | returned v => exact nomatch left
  | raised e => rw [Except.error.inj left]

/-- An interruption has no cause, although the last poll has raised a fault. -/
theorem interruption_without_cause :
    ¬ ∀ f w', (late true).run ⟨⟨(), 0, []⟩, []⟩ = (.ok (.failure f), w') →
      ∃ es o, w'.history = [] ++ es ∧ (late true).LeavesLast ⟨(), 0, []⟩ es o ∧
        f.fault.cause? = o.fault? := by
  intro keeps
  obtain ⟨f, w', run, -, cause⟩ := late_run true
  obtain ⟨es, o, -, last, same⟩ := keeps f w' run
  obtain rfl := late_leaves last
  rw [same] at cause
  exact nomatch cause

/-- When the limit is reached, the fault of the last poll is the cause. -/
theorem cause_of_failure_late : ∃ f w', (late false).run ⟨⟨(), 0, []⟩, []⟩ = (.ok (.failure f), w') ∧
    f.fault.kind = .retriesExhausted ∧ f.fault.cause? = some lateness := by
  obtain ⟨f, w', run, kind, -⟩ := late_run false
  obtain ⟨es, o, -, last, cause⟩ := cause_of_failure run
  obtain rfl := late_leaves last
  have kind : f.fault.kind = .retriesExhausted := kind
  rw [kind, if_neg (by decide)] at cause
  exact ⟨f, w', run, kind, cause⟩

end Blocking

end Polling
