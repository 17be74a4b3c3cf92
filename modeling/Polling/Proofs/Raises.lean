import Polling.Execution

/-!
# What acts raise

`Code.RaisesOnly Q c` and `Act.RaisesOnly Q a` say that every fault that `c` or `a` raises satisfies
`Q`. An act raises what code of the caller's raises and what this library refuses, so a bound on the
caller's code, `Waiter.RaisesOnly`, is a bound on all that a wait does with it.

The bound that matters is `Fault.IsCarriable`: a promise can carry the fault, and no callback is left
by it. Every misuse is carriable.
-/

namespace Polling

/-- A promise can carry the fault: it is ordinary and does not end an iteration. -/
def Fault.IsCarriable (e : Fault) : Prop := e.isOrdinary = true ∧ e.isA .stopIteration = false

theorem Misuse.fault_kind (m : Misuse) : m.fault.kind = m.kind := by
  cases m <;> simp only [Misuse.fault] <;> (try split) <;> rfl

/-- The kinds of faults that report a misuse. -/
def Misuse.kinds : List FaultKind :=
  [.missingConfiguration, .value, .missingAttribute, .overflow, .index, .runtime, .wrongType]

theorem Misuse.kind_mem_kinds (m : Misuse) : m.kind ∈ kinds := by
  cases m <;> simp [kind, kinds]

theorem Misuse.kinds_carriable :
    ∀ k ∈ kinds, k.isA .ordinary = true ∧ k.isA .stopIteration = false := by
  decide

/-- What this library refuses can be carried. -/
theorem Misuse.fault_isCarriable (m : Misuse) : m.fault.IsCarriable := by
  unfold Fault.IsCarriable Fault.isOrdinary Fault.isA
  rw [Misuse.fault_kind]
  exact kinds_carriable m.kind m.kind_mem_kinds

/-- A fault that is not ordinary does not end an iteration. -/
theorem Fault.isA_stopIteration {e : Fault} (h : e.isOrdinary = false) :
    e.isA .stopIteration = false := by
  cases stop : e.isA .stopIteration with
  | false => rfl
  | true =>
    have ordinary := FaultKind.isA_trans stop (by decide : FaultKind.stopIteration.isA .ordinary = true)
    exact absurd ordinary (by simpa [isOrdinary, isA] using h)

/-- Every fault that the code raises is of some sort. -/
def Code.RaisesOnly (Q : Fault → Prop) (c : Code σ α) : Prop :=
  ∀ s e, (c s).1 = .error e → Q e

/-- Code that raises nothing. -/
abbrev Code.Returns (c : Code σ α) : Prop := c.RaisesOnly fun _ => False

theorem Code.Returns.ok {c : Code σ α} (h : c.Returns) (k : Caller σ) : ∃ x, (c k).1 = .ok x := by
  cases hx : (c k).1 with
  | ok x => exact ⟨x, rfl⟩
  | error e => exact (h k e hx).elim

namespace Act

/-- Every fault that the act raises is of some sort. -/
def RaisesOnly (Q : Fault → Prop) (a : Act σ α) : Prop :=
  ∀ w e, (a w).1 = .error e → Q e

variable {Q : Fault → Prop}

theorem raisesOnly_pure (x : α) : RaisesOnly Q (pure x : Act σ α) := by
  intro w e h
  exact nomatch h

theorem raisesOnly_bind {a : Act σ α} {f : α → Act σ β} (ha : RaisesOnly Q a)
    (hf : ∀ x, RaisesOnly Q (f x)) : RaisesOnly Q (a >>= f) := by
  intro w e h
  rw [bind_apply] at h
  rcases hw : a w with ⟨e' | x, w'⟩
  · rw [hw] at h
    obtain rfl := Except.error.inj h
    exact ha w e' (by rw [hw])
  · rw [hw] at h
    exact hf x w' e h

theorem raisesOnly_record (e : Event) : RaisesOnly Q (record e : Act σ Unit) := by
  intro w e h
  exact nomatch h

theorem raisesOnly_code {c : Code σ α} (h : c.RaisesOnly Q) : RaisesOnly Q (code c) :=
  fun w e he => h w.caller e he

theorem raisesOnly_call (e : Event) {c : Code σ α} (h : c.RaisesOnly Q) :
    RaisesOnly Q (call e c) :=
  raisesOnly_bind (raisesOnly_record e) fun _ => raisesOnly_code h

theorem raisesOnly_read (f : σ → α) : RaisesOnly Q (read f : Act σ α) := by
  intro w e h
  exact nomatch h

theorem raisesOnly_lift (misuse : ∀ m : Misuse, Q m.fault) (x : Except Misuse α) :
    RaisesOnly Q (lift x : Act σ α) := by
  intro w e h
  cases x with
  | ok x => exact nomatch h
  | error m =>
    obtain rfl := Except.error.inj h
    exact misuse m

theorem raisesOnly_fail {e : Fault} (h : Q e) : RaisesOnly Q (fail e : Act σ α) := by
  intro w e' h'
  obtain rfl := Except.error.inj h'
  exact h

end Act

/-! ## The caller's code -/

/-- Every fault that a hook raises is of some sort. -/
structure Hooks.RaisesOnly (Q : Fault → Prop) (h : Hooks σ) : Prop where
  onAttempt : ∀ hook, h.onAttempt = some hook → ∀ info, (hook info).RaisesOnly Q
  onRetry : ∀ hook, h.onRetry = some hook → ∀ info, (hook info).RaisesOnly Q
  onSuccess : ∀ hook, h.onSuccess = some hook → ∀ info, (hook info).RaisesOnly Q
  onFailure : ∀ hook, h.onFailure = some hook → ∀ info, (hook info).RaisesOnly Q

/-- Every fault that the code in a configuration raises is of some sort. -/
structure Waiter.RaisesOnly (Q : Fault → Prop) (w : Waiter σ) : Prop where
  matcher : ∀ a ∈ w.acceptors, ∀ payload, (a.matcher payload).RaisesOnly Q
  backoff : ∀ attempt, (w.strategy.backoff.calculate attempt).RaisesOnly Q
  hooks : (w.hooks.getD {}).RaisesOnly Q

section Judging

variable {Q : Fault → Prop}

theorem decideFrom_raisesOnly (position : Nat) {acceptors : List (Acceptor σ)}
    (matcher : ∀ a ∈ acceptors, ∀ payload, (a.matcher payload).RaisesOnly Q) (o : Outcome) :
    (decideFrom position acceptors o).RaisesOnly Q := by
  induction acceptors generalizing position with
  | nil => exact Act.raisesOnly_bind (Act.raisesOnly_record _) fun _ => Act.raisesOnly_pure _
  | cons a rest ih =>
    refine Act.raisesOnly_bind ?_ ?_
    · unfold Acceptor.accepts
      split
      · exact Act.raisesOnly_bind
          (Act.raisesOnly_call _ (matcher a List.mem_cons_self o.payload)) fun _ => Act.raisesOnly_pure _
      · exact Act.raisesOnly_pure _
    · intro accepted
      cases accepted with
      | true => exact Act.raisesOnly_bind (Act.raisesOnly_record _) fun _ => Act.raisesOnly_pure _
      | false => exact ih (position + 1) fun b hb => matcher b (List.mem_cons_of_mem a hb)

theorem retryOrExhaust_raisesOnly (misuse : ∀ m : Misuse, Q m.fault) {strategy : Strategy σ}
    (backoff : ∀ attempt, (strategy.backoff.calculate attempt).RaisesOnly Q) (o : Outcome)
    (attempt : Value) : (retryOrExhaust strategy o attempt).RaisesOnly Q := by
  refine Act.raisesOnly_bind (Act.raisesOnly_lift misuse _) ?_
  intro exhausted
  cases exhausted with
  | true => exact Act.raisesOnly_bind (Act.raisesOnly_record _) fun _ => Act.raisesOnly_pure _
  | false =>
    refine Act.raisesOnly_bind ?_ ?_
    · exact Act.raisesOnly_bind (Act.raisesOnly_call _ (backoff attempt)) fun _ =>
        Act.raisesOnly_lift misuse _
    · intro delay
      split
      · exact Act.raisesOnly_fail (misuse _)
      · exact Act.raisesOnly_bind (Act.raisesOnly_record _) fun _ => Act.raisesOnly_pure _

/-- Evaluating raises what matchers and backoff raise, or a misuse. -/
theorem evaluate_raisesOnly (misuse : ∀ m : Misuse, Q m.fault) {w : Waiter σ}
    (h : w.RaisesOnly Q) (o : Outcome) (attempt : Value) :
    (evaluate w.acceptors w.strategy o attempt).RaisesOnly Q := by
  refine Act.raisesOnly_bind (decideFrom_raisesOnly 0 h.matcher o) ?_
  intro verdict
  split
  · exact Act.raisesOnly_bind (Act.raisesOnly_lift misuse _) fun _ => Act.raisesOnly_pure _
  · exact Act.raisesOnly_pure _
  · exact retryOrExhaust_raisesOnly misuse h.backoff _ attempt
  · exact Act.raisesOnly_pure _
  · exact retryOrExhaust_raisesOnly misuse h.backoff _ attempt

end Judging

namespace Notifier

variable {Q : Fault → Prop} {n : Notifier σ}

theorem elapsed_raisesOnly (misuse : ∀ m : Misuse, Q m.fault) (started : Value) :
    (n.elapsed started).RaisesOnly Q :=
  Act.raisesOnly_bind (Act.raisesOnly_read _) fun _ => Act.raisesOnly_lift misuse _

/-- Between two times, there is always a difference. -/
theorem elapsed_apply {time : σ → Binary64} (clock : n.clock = fun s => .real (time s)) (t : Binary64)
    (w : World σ) : ∃ v, n.elapsed (.real t) w = (.ok v, w) := by
  simp only [elapsed, Act.bind_apply, Act.read_apply, clock]
  exact ⟨_, rfl⟩

theorem elapsed_raisesOnly_of_real {time : σ → Binary64} (clock : n.clock = fun s => .real (time s))
    (t : Binary64) : (n.elapsed (.real t)).RaisesOnly Q := by
  intro w e he
  obtain ⟨v, elapsed⟩ := elapsed_apply clock t w
  rw [elapsed] at he
  exact nomatch he

variable (h : n.hooks.RaisesOnly Q)
include h

theorem attempt_raisesOnly (k : Value) : (n.attempt k).RaisesOnly Q := by
  unfold attempt
  split
  · exact Act.raisesOnly_pure _
  · next hook hhook => exact Act.raisesOnly_call _ (h.onAttempt hook hhook _)

theorem retry_raisesOnly (k delay value : Value) (fault : Option Fault) :
    (n.retry k delay value fault).RaisesOnly Q := by
  unfold retry
  split
  · exact Act.raisesOnly_pure _
  · next hook hhook => exact Act.raisesOnly_call _ (h.onRetry hook hhook _)

theorem success_raisesOnly {started : Value} (elapsed : (n.elapsed started).RaisesOnly Q) (k : Value)
    (r : Response) : (n.success k r started).RaisesOnly Q := by
  unfold success
  split
  · exact Act.raisesOnly_pure _
  · next hook hhook =>
    exact Act.raisesOnly_bind elapsed fun _ => Act.raisesOnly_call _ (h.onSuccess hook hhook _)

theorem failure_raisesOnly {started : Value} (elapsed : (n.elapsed started).RaisesOnly Q) (k : Value)
    (e : Option Fault) : (n.failure k e started).RaisesOnly Q := by
  unfold failure
  split
  · exact Act.raisesOnly_pure _
  · next hook hhook =>
    exact Act.raisesOnly_bind elapsed fun _ => Act.raisesOnly_call _ (h.onFailure hook hhook _)

end Notifier

/-! ## Asynchronous executions -/

/-- A promise can carry every fault that the code behind an execution raises. The call of its operation
may also raise the end of an iteration: such a fault is an outcome. -/
structure Asynchronous.IsCarriable (a : Asynchronous σ) (run : RunId) : Prop where
  waiter : a.waiter.RaisesOnly Fault.IsCarriable
  scheduler : ∀ schedule cancel, a.scheduler = .custom schedule cancel →
    ∀ delay, (schedule run delay).RaisesOnly Fault.IsCarriable
  operation : ∀ call, (a.operation run call).RaisesOnly (·.isOrdinary = true)

/-- The timers of a loop raise misuses only. -/
theorem Scheduler.span_raisesOnly {Q : Fault → Prop} (misuse : ∀ m : Misuse, Q m.fault)
    (loopThere : Bool) (delay : Value) : (span loopThere delay : Act σ Binary64).RaisesOnly Q := by
  refine Act.raisesOnly_bind (Act.raisesOnly_lift misuse _) ?_
  intro d
  split
  · exact Act.raisesOnly_fail (misuse _)
  · split
    · exact Act.raisesOnly_fail (misuse _)
    · exact Act.raisesOnly_bind (Act.raisesOnly_record _) fun _ => Act.raisesOnly_pure _

end Polling
