import Polling.Blocking
import Polling.Proofs.Raises
import Polling.Proofs.Entries

/-!
# Judging an outcome

Between the end of a poll and what follows it, blocking and asynchronous waits do the same: they
evaluate the outcome and tell the log and the hooks. `Notifier.judge` is this common part. It gives the
conclusion that the wait has come to, or the delay after which it goes on. `Blocking.opening` is the
other part that they have in common, the one before the operation is called.

`Blocking.round_eq` puts a round of a blocking wait together from both.
-/

namespace Polling

/-- The outcome as the operation's own result. -/
def Outcome.result : Outcome → Except Fault Value
  | .returned v => .ok v
  | .raised e => .error e

/-- What a transition means for the wait: its conclusion, or the delay after which it goes on. -/
def Transition.next : Transition → Conclusion ⊕ Number
  | .succeed r => .inl (.success r)
  | .fail f => .inl (.failure f)
  | .retry delay => .inr delay

/-- Only a retry goes on. -/
theorem Transition.next_eq_inr {t : Transition} {d : Number} (h : t.next = .inr d) :
    t = .retry d := by
  cases t with
  | retry delay => rw [Sum.inr.inj h]
  | _ => exact nomatch h

/-- Only a failure fails the wait. -/
theorem Transition.eq_fail_of_next {t : Transition} {f : Failure} (h : t.next = .inl (.failure f)) :
    t = .fail f := by
  cases t with
  | fail g => rw [Conclusion.failure.inj (Sum.inl.inj h)]
  | succeed r => exact nomatch Sum.inl.inj h
  | retry delay => exact nomatch h

namespace Notifier

/-- Tell the log and the hooks of a transition. -/
def tell (n : Notifier σ) (o : Outcome) (attempt : Nat) (started : Value) :
    Transition → Act σ Unit
  | .succeed r => n.success (.int attempt) r started
  | .fail f => do
    Act.note (.failed attempt f.reason)
    n.failure (.int attempt) (some f.fault) started
  | .retry delay => n.retry (.int attempt) (.number delay) o.value o.fault?

/-- Evaluate the outcome of an attempt and tell of it. -/
def judge (n : Notifier σ) (w : Waiter σ) (o : Outcome) (attempt : Nat) (started : Value) :
    Act σ (Conclusion ⊕ Number) := do
  let t ← evaluate w.acceptors w.strategy o (.int attempt)
  n.tell o attempt started t
  return t.next

/-- The beginning of an attempt. -/
def opening (n : Notifier σ) (attempt limit : Nat) : Act σ Unit := do
  n.attempt (.int attempt)
  Act.note (.executing attempt limit)

section Enters

variable {P : Event → Prop} (note : ∀ n, n.isExhausted = false → P (.note n)) (told : ∀ n, P (.notice n))
include note told

theorem tell_enters (n : Notifier σ) (o : Outcome) (attempt : Nat) (started : Value)
    (t : Transition) : (n.tell o attempt started t).Enters P := by
  cases t with
  | succeed r => exact success_enters told n _ _ _
  | fail f => exact Act.enters_bind (Act.enters_record (note _ rfl)) fun _ => failure_enters told n _ _ _
  | retry delay => exact retry_enters told n _ _ _ _

theorem opening_enters (n : Notifier σ) (attempt limit : Nat) :
    (n.opening attempt limit).Enters P :=
  Act.enters_bind (attempt_enters told n _) fun _ => Act.enters_record (note _ rfl)

end Enters

theorem tell_raisesOnly {Q : Fault → Prop} {n : Notifier σ} (h : n.hooks.RaisesOnly Q)
    {started : Value} (elapsed : (n.elapsed started).RaisesOnly Q) (o : Outcome) (attempt : Nat)
    (t : Transition) : (n.tell o attempt started t).RaisesOnly Q := by
  cases t with
  | succeed r => exact success_raisesOnly h elapsed _ _
  | fail f =>
    exact Act.raisesOnly_bind (Act.raisesOnly_record _) fun _ => failure_raisesOnly h elapsed _ _
  | retry delay => exact retry_raisesOnly h _ _ _ _

theorem opening_raisesOnly {Q : Fault → Prop} {n : Notifier σ} (h : n.hooks.RaisesOnly Q)
    (attempt limit : Nat) : (n.opening attempt limit).RaisesOnly Q :=
  Act.raisesOnly_bind (attempt_raisesOnly h _) fun _ => Act.raisesOnly_record _

end Notifier

namespace Blocking

variable (b : Blocking σ)

variable {b} in
/-- A poll gives its outcome. -/
theorem poll_apply {i : Nat} {w : World σ} {o : Outcome}
    (operation : (b.operation i w.caller).1 = o.result)
    (ordinary : ∀ e, o = .raised e → e.isOrdinary = true) :
    b.poll i w = (.ok o,
      { caller := (b.operation i w.caller).2, history := w.history ++ [Event.polled i] }) := by
  have called : Act.call (.polled i) (b.operation i) w = (o.result,
      { caller := (b.operation i w.caller).2, history := w.history ++ [Event.polled i] }) := by
    rw [← operation, Act.call_apply]
  rw [poll, Act.bind_apply, Act.outcomeOf_apply, called]
  cases o with
  | returned v => rfl
  | raised e => simp [Outcome.result, ordinary e rfl]

variable {b} in
/-- Without a signal, a pause is a sleep. -/
theorem pause_apply (signal : b.signal = none) {d : Number} (sleep : (b.sleep d).Returns)
    (w : World σ) : b.pause d w = (.ok false,
      { caller := (b.sleep d w.caller).2, history := w.history ++ [Event.slept d] }) := by
  obtain ⟨⟨⟩, slept⟩ := sleep.ok w.caller
  simp only [pause, signal, Act.bind_apply, Act.call_apply, slept]
  rfl

/-- What follows the judging of an outcome: the wait ends or pauses. -/
def close (started : Value) (attempt : Nat) : Conclusion ⊕ Number → Act σ (Option Conclusion)
  | .inl c => return some c
  | .inr delay => do
    if ← b.pause delay then
      return some (← b.giveUp started attempt ⟨.interrupted attempt, .int attempt, none⟩)
    else return none

/-- A round opens an attempt, polls, judges the outcome and closes. -/
theorem round_eq (started : Value) (attempt : Nat) :
    b.round started attempt = (do
      b.notifier.opening attempt b.waiter.strategy.limit
      let o ← b.poll attempt
      let next ← b.notifier.judge b.waiter o attempt started
      b.close started attempt next) := by
  simp only [round, Notifier.opening, Notifier.judge, bind_assoc]
  refine bind_congr fun _ => bind_congr fun _ => bind_congr fun o => bind_congr fun t => ?_
  -- the loop matches on the transition once, judging and closing do so one after the other
  cases t with
  | succeed r => simp [Notifier.tell, Transition.next, close]
  | fail f => simp [Notifier.tell, Transition.next, close, giveUp]
  | retry delay => simp [Notifier.tell, Transition.next, close]

/-- What is left of a run when the outcome of an attempt has been judged. -/
def proceed (started : Value) (attempt : Nat) (next : Conclusion ⊕ Number) : Act σ Conclusion := do
  match ← b.close started attempt next with
  | some c => return c
  | none => b.rounds started (b.waiter.strategy.limit - attempt) (attempt + 1)

/-- What is left of a run when an attempt has an outcome. -/
def resume (started : Value) (attempt : Nat) (o : Outcome) : Act σ Conclusion := do
  let next ← b.notifier.judge b.waiter o attempt started
  b.proceed started attempt next

section Enters

variable {P : Event → Prop}

/-- A poll enters the call of the operation. -/
theorem poll_enters (attempt : Nat) (polled : P (.polled attempt)) : (b.poll attempt).Enters P := by
  refine Act.enters_bind (Act.enters_outcomeOf (Act.enters_call polled _)) fun result => ?_
  cases result with
  | ok v => exact Act.enters_pure _
  | error e =>
    dsimp only
    split
    · exact Act.enters_pure _
    · exact Act.enters_fail _

/-- A pause enters the delay, if it begins. -/
theorem pause_enters {d : Number} (slept : P (.slept d)) (watched : P (.watched d)) :
    (b.pause d).Enters P := by
  unfold pause
  split
  · exact Act.enters_bind (Act.enters_call slept _) fun _ => Act.enters_pure _
  · refine Act.enters_bind (Act.enters_read _) fun set => ?_
    split
    · exact Act.enters_pure _
    · exact Act.enters_call watched _

section Behind

variable (note : ∀ n, n.isExhausted = false → P (.note n)) (told : ∀ n, P (.notice n))
include note told

theorem giveUp_enters (started : Value) (attempt : Nat) (f : Failure) :
    (b.giveUp started attempt f).Enters P :=
  Act.enters_bind (Act.enters_record (note _ rfl)) fun _ =>
    Act.enters_bind (Notifier.failure_enters told _ _ _ _) fun _ => Act.enters_pure _

/-- Judging an outcome calls matchers, the backoff and hooks. -/
theorem judge_enters (examined : ∀ i p, P (.examined i p)) (asked : ∀ v, P (.asked v))
    (n : Notifier σ) (w : Waiter σ) (o : Outcome) (attempt : Nat) (started : Value)
    (exhausted : P (.note (.exhausted w.strategy.limit))) : (n.judge w o attempt started).Enters P :=
  Act.enters_bind (evaluate_enters note examined asked _ _ _ _ exhausted) fun _ =>
    Act.enters_bind (Notifier.tell_enters note told _ _ _ _ _) fun _ => Act.enters_pure _

/-- Closing a round spends a delay and calls a hook, if at all. -/
theorem close_enters (started : Value) (attempt : Nat) (next : Conclusion ⊕ Number)
    (slept : ∀ d, next = .inr d → P (.slept d)) (watched : ∀ d, next = .inr d → P (.watched d)) :
    (b.close started attempt next).Enters P := by
  cases next with
  | inl c => exact Act.enters_pure _
  | inr delay =>
    refine Act.enters_bind (b.pause_enters (slept _ rfl) (watched _ rfl)) fun stopped => ?_
    split
    · exact Act.enters_bind (b.giveUp_enters note told _ _ _) fun _ => Act.enters_pure _
    · exact Act.enters_pure _

end Behind

variable (all : ∀ e, e.isExhausted = false → P e)
  (exhausted : P (.note (.exhausted b.waiter.strategy.limit))) (started : Value)
include all exhausted

theorem round_enters (attempt : Nat) : (b.round started attempt).Enters P := by
  rw [round_eq]
  refine Act.enters_bind (Notifier.opening_enters (fun n => all (.note n)) (fun _ => all _ rfl) _ _ _)
    fun _ => ?_
  refine Act.enters_bind (b.poll_enters attempt (all _ rfl)) fun o => ?_
  refine Act.enters_bind (judge_enters (fun n => all (.note n)) (fun _ => all _ rfl)
    (fun _ _ => all _ rfl) (fun _ => all _ rfl) _ _ _ _ _ exhausted) fun next => ?_
  exact b.close_enters (fun n => all (.note n)) (fun _ => all _ rfl) _ _ next (fun _ _ => all _ rfl)
    fun _ _ => all _ rfl

theorem rounds_enters (left attempt : Nat) : (b.rounds started left attempt).Enters P := by
  induction left generalizing attempt with
  | zero => exact Act.enters_pure _
  | succ left ih =>
    apply Act.enters_bind (b.round_enters all exhausted started attempt)
    intro conclusion
    cases conclusion with
    | some c => exact Act.enters_pure _
    | none => exact ih (attempt + 1)

theorem resume_enters (attempt : Nat) (o : Outcome) : (b.resume started attempt o).Enters P := by
  apply Act.enters_bind (judge_enters (fun n => all (.note n)) (fun _ => all _ rfl)
    (fun _ _ => all _ rfl) (fun _ => all _ rfl) _ _ _ _ _ exhausted)
  intro next
  apply Act.enters_bind (b.close_enters (fun n => all (.note n)) (fun _ => all _ rfl) started attempt
    next (fun _ _ => all _ rfl) fun _ _ => all _ rfl)
  intro conclusion
  cases conclusion with
  | some c => exact Act.enters_pure _
  | none => exact b.rounds_enters all exhausted started _ _

end Enters

/-- With an attempt left, the next one is opened, polls, and resumes with its outcome. -/
theorem rounds_eq (started : Value) {n : Nat} (left : n < b.waiter.strategy.limit) :
    b.rounds started (b.waiter.strategy.limit - n) (n + 1) = (do
      b.notifier.opening (n + 1) b.waiter.strategy.limit
      let o ← b.poll (n + 1)
      b.resume started (n + 1) o) := by
  rw [show b.waiter.strategy.limit - n = b.waiter.strategy.limit - (n + 1) + 1 by omega, rounds,
    round_eq]
  simp only [bind_assoc]
  rfl

end Blocking

end Polling
