import Polling.Proofs.Judging

/-!
# Code that is a function of its argument

Code of the caller's is a function, `Code.IsFunction`, if what it gives does not depend on the caller's
state and it asks for nothing; it may write to the state. Such code can be frozen: `Code.frozen` gives
the same without looking at any state, and so a functional waiter can be frozen as a whole
(`Waiter.frozen`) and be used with states of any other type.

`Act.FreezesTo` relates an act to its frozen form: it gives the same, enters the same and asks for
nothing. The relation is closed under sequencing. Judging an outcome gets one lemma for each of its
parts, up to `evaluate_freezes` and `Notifier.tell_freezes`.
-/

namespace Polling

/-! ## Code and acts -/

/-- What code gives does not depend on the caller's state, and it asks for nothing. -/
def Code.IsFunction (c : Code σ α) : Prop :=
  ∀ k k', (c k).1 = (c k').1 ∧ (c k).2.serving = k.serving ∧ (c k).2.requests = k.requests

/-- Code that gives what other code gives in a state, and does nothing else. -/
def Code.frozen (k : Caller σ) (c : Code σ α) : Code τ α := fun k' => ((c k).1, k')

namespace Act

/-- An act gives and enters what another does, wherever both are run. Neither asks for anything, and the
other leaves the caller's side as it is. -/
def FreezesTo (a : Act σ α) (a' : Act τ α) : Prop :=
  ∀ w w', ∃ es, (a w).1 = (a' w').1 ∧ (a w).2.history = w.history ++ es ∧
    (a w).2.caller.serving = w.caller.serving ∧ (a w).2.caller.requests = w.caller.requests ∧
    (a' w').2 = { w' with history := w'.history ++ es }

theorem freezes_pure (x : α) : FreezesTo (pure x : Act σ α) (pure x : Act τ α) :=
  fun _ _ => ⟨[], rfl, by simp, rfl, rfl, by simp⟩

theorem freezes_bind {a : Act σ α} {a' : Act τ α} {f : α → Act σ β} {f' : α → Act τ β}
    (ha : FreezesTo a a') (hf : ∀ x, FreezesTo (f x) (f' x)) : FreezesTo (a >>= f) (a' >>= f') := by
  intro w w'
  obtain ⟨es, result, history, serving, requests, frozen⟩ := ha w w'
  rw [bind_apply, bind_apply]
  rcases hw : a w with ⟨e | x, w₁⟩ <;> rcases hw' : a' w' with ⟨e' | x', w₁'⟩ <;>
    rw [hw, hw'] at result <;> rw [hw] at history serving requests <;> rw [hw'] at frozen
  · exact ⟨es, congrArg Except.error (Except.error.inj result), history, serving, requests, frozen⟩
  · exact nomatch result
  · exact nomatch result
  · obtain rfl := Except.ok.inj result
    obtain ⟨es', result', history', serving', requests', frozen'⟩ := hf x w₁ w₁'
    dsimp only at history serving requests frozen
    refine ⟨es ++ es', result', ?_, serving'.trans serving, requests'.trans requests, ?_⟩
    · rw [history', history, List.append_assoc]
    · rw [frozen', frozen, List.append_assoc]

theorem freezes_record (e : Event) : FreezesTo (record e : Act σ Unit) (record e : Act τ Unit) :=
  fun _ _ => ⟨[e], rfl, rfl, rfl, rfl, rfl⟩

theorem freezes_code {c : Code σ α} (h : c.IsFunction) (k : Caller σ) :
    FreezesTo (code c) (code (c.frozen k) : Act τ α) := by
  intro w w'
  obtain ⟨result, serving, requests⟩ := h w.caller k
  exact ⟨[], result, (List.append_nil _).symm, serving, requests, by simp [Code.frozen]⟩

/-- Code that does nothing but give the same. -/
theorem freezes_code_of_eq {c : Code σ α} {c' : Code τ α} {r : Except Fault α}
    (h : ∀ k, c k = (r, k)) (h' : ∀ k, c' k = (r, k)) : FreezesTo (code c) (code c') := by
  intro w w'
  exact ⟨[], by simp [h, h'], by simp, by simp [h], by simp [h], by simp [h']⟩

theorem freezes_call (e : Event) {c : Code σ α} (h : c.IsFunction) (k : Caller σ) :
    FreezesTo (call e c) (call e (c.frozen k) : Act τ α) :=
  freezes_bind (freezes_record e) fun _ => freezes_code h k

theorem freezes_lift (x : Except Misuse α) : FreezesTo (lift x : Act σ α) (lift x : Act τ α) :=
  fun _ _ => ⟨[], rfl, (List.append_nil _).symm, rfl, rfl, by simp [lift]⟩

theorem freezes_fail (e : Fault) : FreezesTo (fail e : Act σ α) (fail e : Act τ α) :=
  fun _ _ => ⟨[], rfl, by simp, rfl, rfl, by simp⟩

end Act

/-! ## Waiters -/

/-- The code in a configuration is functions of what it is told. -/
structure Waiter.IsFunctional (w : Waiter σ) : Prop where
  matcher : ∀ a ∈ w.acceptors, ∀ payload, (a.matcher payload).IsFunction
  backoff : ∀ attempt, (w.strategy.backoff.calculate attempt).IsFunction
  onAttempt : ∀ hook, (w.hooks.getD {}).onAttempt = some hook → ∀ info, (hook info).IsFunction
  onRetry : ∀ hook, (w.hooks.getD {}).onRetry = some hook → ∀ info, (hook info).IsFunction
  onSuccess : ∀ hook, (w.hooks.getD {}).onSuccess = some hook → ∀ info, (hook info).IsFunction
  onFailure : ∀ hook, (w.hooks.getD {}).onFailure = some hook → ∀ info, (hook info).IsFunction

/-- An acceptor with its matcher frozen. -/
def Acceptor.frozen (k : Caller σ) (a : Acceptor σ) : Acceptor τ where
  verdict := a.verdict
  subject := a.subject
  matcher payload := (a.matcher payload).frozen k

/-- A backoff with its code frozen. -/
def Backoff.frozen (k : Caller σ) : Backoff σ → Backoff τ
  | .constant c => .constant c
  | .capped c => .capped c
  | .custom text calculate => .custom text fun attempt => (calculate attempt).frozen k
  | .foreign v => .foreign v

/-- Hooks with their code frozen. -/
def Hooks.frozen (k : Caller σ) (h : Hooks σ) : Hooks τ where
  onAttempt := h.onAttempt.map fun hook info => (hook info).frozen k
  onRetry := h.onRetry.map fun hook info => (hook info).frozen k
  onSuccess := h.onSuccess.map fun hook info => (hook info).frozen k
  onFailure := h.onFailure.map fun hook info => (hook info).frozen k

/-- A waiter with its matchers, backoff and hooks frozen, and with a scheduler. -/
def Waiter.frozen (k : Caller σ) (scheduler : Option (Scheduler τ)) (w : Waiter σ) : Waiter τ where
  strategy := { w.strategy with backoff := w.strategy.backoff.frozen k }
  acceptors := w.acceptors.map (Acceptor.frozen k)
  scheduler := scheduler
  hooks := w.hooks.map (Hooks.frozen k)

/-- The hooks of a frozen waiter are those of the waiter, frozen. -/
theorem Waiter.frozen_hooks (k : Caller σ) (scheduler : Option (Scheduler τ)) (w : Waiter σ) :
    ((w.frozen k scheduler).hooks.getD {}) = (w.hooks.getD {}).frozen k := by
  cases h : w.hooks <;> simp [frozen, h, Hooks.frozen]

/-! ## Judging -/

section Judging

variable {k : Caller σ}

theorem decideFrom_freezes (position : Nat) {acceptors : List (Acceptor σ)}
    (matcher : ∀ a ∈ acceptors, ∀ payload, (a.matcher payload).IsFunction) (o : Outcome) :
    (decideFrom position acceptors o).FreezesTo
      (decideFrom position (acceptors.map (Acceptor.frozen k)) o : Act τ (Option Verdict)) := by
  induction acceptors generalizing position with
  | nil => exact Act.freezes_bind (Act.freezes_record _) fun _ => Act.freezes_pure _
  | cons a rest ih =>
    refine Act.freezes_bind ?_ ?_
    · unfold Acceptor.accepts
      by_cases fits : a.subject.fits o = true
      · rw [if_pos fits, if_pos (show (a.frozen k : Acceptor τ).subject.fits o = true from fits)]
        exact Act.freezes_bind (Act.freezes_call _ (matcher a List.mem_cons_self o.payload) k) fun _ =>
          Act.freezes_pure _
      · rw [if_neg fits, if_neg (show ¬ (a.frozen k : Acceptor τ).subject.fits o = true from fits)]
        exact Act.freezes_pure _
    · intro accepted
      cases accepted with
      | true => exact Act.freezes_bind (Act.freezes_record _) fun _ => Act.freezes_pure _
      | false => exact ih (position + 1) fun b hb => matcher b (List.mem_cons_of_mem a hb)

/-- A backoff that is frozen gives the delays of the backoff. -/
theorem calculate_freezes {b : Backoff σ} {attempt : Value} (h : (b.calculate attempt).IsFunction) :
    (Act.code (b.calculate attempt)).FreezesTo
      (Act.code ((b.frozen k).calculate attempt) : Act τ Value) := by
  cases b with
  | constant c => exact Act.freezes_code_of_eq (fun _ => rfl) fun _ => rfl
  | capped c => exact Act.freezes_code_of_eq (fun _ => rfl) fun _ => rfl
  | custom text calculate => exact Act.freezes_code h k
  | foreign v => exact Act.freezes_code_of_eq (fun _ => rfl) fun _ => rfl

variable {w : Waiter σ} (h : w.IsFunctional) {s : Option (Scheduler τ)}
include h

theorem retryOrExhaust_freezes (o : Outcome) (attempt : Value) :
    (retryOrExhaust w.strategy o attempt).FreezesTo
      (retryOrExhaust (w.frozen k s).strategy o attempt) := by
  refine Act.freezes_bind (Act.freezes_lift _) ?_
  intro exhausted
  cases exhausted with
  | true => exact Act.freezes_bind (Act.freezes_record _) fun _ => Act.freezes_pure _
  | false =>
    refine Act.freezes_bind ?_ ?_
    · exact Act.freezes_bind
        (Act.freezes_bind (Act.freezes_record _) fun _ => calculate_freezes (h.backoff attempt))
        fun _ => Act.freezes_lift _
    · intro delay
      split
      · exact Act.freezes_fail _
      · exact Act.freezes_bind (Act.freezes_record _) fun _ => Act.freezes_pure _

theorem evaluate_freezes (o : Outcome) (attempt : Value) :
    (evaluate w.acceptors w.strategy o attempt).FreezesTo
      (evaluate (w.frozen k s).acceptors (w.frozen k s).strategy o attempt) := by
  refine Act.freezes_bind (decideFrom_freezes 0 h.matcher o) ?_
  intro verdict
  split
  · exact Act.freezes_bind (Act.freezes_lift _) fun _ => Act.freezes_pure _
  · exact Act.freezes_pure _
  · exact retryOrExhaust_freezes h _ attempt
  · exact Act.freezes_pure _
  · exact retryOrExhaust_freezes h _ attempt

end Judging

namespace Notifier

variable {k : Caller σ} {w : Waiter σ} (h : w.IsFunctional) {s : Option (Scheduler τ)}

/-- On a clock that stands still, the time since the beginning is the same for both. -/
theorem elapsed_freezes (n : Notifier σ) (n' : Notifier τ) {time : Value}
    (clock : n.clock = fun _ => time) (clock' : n'.clock = fun _ => time) (started : Value) :
    (n.elapsed started).FreezesTo (n'.elapsed started) := by
  refine Act.freezes_bind ?_ fun now => Act.freezes_lift _
  intro v v'
  exact ⟨[], by simp [clock, clock'], by simp, rfl, rfl, by simp⟩

include h

theorem attempt_freezes (time attempt : Value) :
    ((w.notifier fun _ => time).attempt attempt).FreezesTo
      (((w.frozen k s).notifier fun _ => time).attempt attempt) := by
  simp only [Notifier.attempt, Waiter.notifier, Waiter.frozen_hooks, Hooks.frozen]
  cases hhook : (w.hooks.getD {}).onAttempt with
  | none => exact Act.freezes_pure _
  | some hook => exact Act.freezes_call _ (h.onAttempt hook hhook _) k

theorem opening_freezes (time : Value) (attempt limit : Nat) :
    ((w.notifier fun _ => time).opening attempt limit).FreezesTo
      (((w.frozen k s).notifier fun _ => time).opening attempt limit) :=
  Act.freezes_bind (attempt_freezes h time _) fun _ => Act.freezes_record _

theorem retry_freezes (time attempt delay value : Value) (fault : Option Fault) :
    ((w.notifier fun _ => time).retry attempt delay value fault).FreezesTo
      (((w.frozen k s).notifier fun _ => time).retry attempt delay value fault) := by
  simp only [retry, Waiter.notifier, Waiter.frozen_hooks, Hooks.frozen]
  cases hhook : (w.hooks.getD {}).onRetry with
  | none => exact Act.freezes_pure _
  | some hook => exact Act.freezes_call _ (h.onRetry hook hhook _) k

theorem success_freezes (time attempt : Value) (r : Response) (started : Value) :
    ((w.notifier fun _ => time).success attempt r started).FreezesTo
      (((w.frozen k s).notifier fun _ => time).success attempt r started) := by
  simp only [success, Waiter.notifier, Waiter.frozen_hooks, Hooks.frozen]
  cases hhook : (w.hooks.getD {}).onSuccess with
  | none => exact Act.freezes_pure _
  | some hook =>
    exact Act.freezes_bind (elapsed_freezes _ _ rfl rfl started) fun _ =>
      Act.freezes_call _ (h.onSuccess hook hhook _) k

theorem failure_freezes (time attempt : Value) (fault : Option Fault) (started : Value) :
    ((w.notifier fun _ => time).failure attempt fault started).FreezesTo
      (((w.frozen k s).notifier fun _ => time).failure attempt fault started) := by
  simp only [failure, Waiter.notifier, Waiter.frozen_hooks, Hooks.frozen]
  cases hhook : (w.hooks.getD {}).onFailure with
  | none => exact Act.freezes_pure _
  | some hook =>
    exact Act.freezes_bind (elapsed_freezes _ _ rfl rfl started) fun _ =>
      Act.freezes_call _ (h.onFailure hook hhook _) k

theorem tell_freezes (time : Value) (o : Outcome) (attempt : Nat) (started : Value) (t : Transition) :
    ((w.notifier fun _ => time).tell o attempt started t).FreezesTo
      (((w.frozen k s).notifier fun _ => time).tell o attempt started t) := by
  cases t with
  | succeed r => exact success_freezes h _ _ _ _
  | fail f => exact Act.freezes_bind (Act.freezes_record _) fun _ => failure_freezes h _ _ _ _
  | retry delay => exact retry_freezes h _ _ _ _ _

end Notifier

end Polling
