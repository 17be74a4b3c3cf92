import Polling.Proofs.Judging

/-!
# Replaying a history

A wait enters every call of the caller's code into its history before it makes it, so the history tells
what the wait has done to the caller. `Waiter.answer` is the code behind an entry, together with what
this library refuses of its result, and `replay` runs the code behind a number of entries.

`Act.Replays` says two things of an act. The caller it leaves is the one that a replay of its entries
leaves. And if the code behind an entry raises a fault, then the entry is the last one and the act raises
this very fault. The property is closed under sequencing; `Blocking.run_replays` says that whole blocking
runs have it.
-/

namespace Polling

namespace Code

/-- Code without its result. -/
def void (c : Code σ α) : Code σ Unit := fun k => ((c k).1.map fun _ => (), (c k).2)

/-- Code whose ordinary faults are as good as results. -/
def attempted (c : Code σ α) : Code σ Unit := fun k =>
  match c k with
  | (.ok _, k) => (.ok (), k)
  | (.error e, k) => (if e.isOrdinary then .ok () else .error e, k)

end Code

/-- Why a delay that a backoff gives is refused, if it is: it is no number, it is below zero, or it is a
whole number without a double. -/
def Value.refusal? : Value → Option Misuse
  | .number d =>
    if d.lt (.int 0) then some (.negativeBackoff d)
    else if d.toReal?.isNone then some .integerTooLarge
    else none
  | v => some (.unordered "<" v.typeName "int")

/-- What is wrong with a delay is its value, its type or its size. -/
theorem Value.kind_of_refusal? {v : Value} {m : Misuse} (h : v.refusal? = some m) :
    m.fault.kind = .value ∨ m.fault.kind = .wrongType ∨ m.fault.kind = .overflow := by
  rw [Misuse.fault_kind]
  cases v with
  | number d =>
    simp only [refusal?] at h
    split at h
    · obtain rfl := Option.some.inj h
      exact .inl rfl
    · split at h
      · obtain rfl := Option.some.inj h
        exact .inr (.inr rfl)
      · exact absurd h (by simp)
  | _ =>
    obtain rfl := Option.some.inj h
    exact .inr (.inl rfl)

/-- A delay is accepted only if it is not below zero. -/
theorem Value.refusal?_of_nonNegative {v : Value} {m : Misuse}
    (h : v.nonNegative .negativeBackoff = .error m) : v.refusal? = some m := by
  cases v with
  | number d =>
    cases below : d.lt (.int 0) with
    | true =>
      obtain rfl : Misuse.negativeBackoff d = m := by
        simpa [nonNegative, ordered, bind, Except.bind, below] using h
      simp [refusal?, below]
    | false => simp [nonNegative, ordered, bind, Except.bind, below] at h
  | _ =>
    simp only [nonNegative, ordered, bind, Except.bind, Except.error.injEq] at h
    obtain rfl := h
    rfl

/-- A delay that is accepted has a double, or it is refused for want of one. -/
theorem Value.refusal?_of_ok {v : Value} {d : Number}
    (h : v.nonNegative .negativeBackoff = .ok d) :
    v.refusal? = if d.toReal?.isNone then some .integerTooLarge else none := by
  cases v with
  | number m =>
    cases below : m.lt (.int 0) with
    | true => simp [nonNegative, ordered, bind, Except.bind, below] at h
    | false =>
      obtain rfl : m = d := by
        simpa [nonNegative, ordered, bind, Except.bind, below] using h
      simp [refusal?, below]
  | _ => simp [nonNegative, ordered, bind, Except.bind] at h

/-- Code that gives a delay, which may be refused. -/
def Code.checked (c : Code σ Value) : Code σ Unit := do
  let v ← c
  match v.refusal? with
  | none => pure ()
  | some m => Code.lift (.error m)

/-! ## The code behind an entry -/

/-- The hook that hears a notice. -/
def Hooks.hear (h : Hooks σ) : Notice → Code σ Unit
  | .attempt info => (h.onAttempt.map (· info)).getD (pure ())
  | .retry info => (h.onRetry.map (· info)).getD (pure ())
  | .success info => (h.onSuccess.map (· info)).getD (pure ())
  | .failure info => (h.onFailure.map (· info)).getD (pure ())

/-- The code of a configuration behind an entry, and the code of others. -/
def Waiter.answer (w : Waiter σ) (others : Event → Code σ Unit) : Event → Code σ Unit
  | .notice n => (w.hooks.getD {}).hear n
  | .examined i payload => ((w.acceptors[i]?).map fun a => (a.matcher payload).void).getD (pure ())
  | .asked v => (w.strategy.backoff.calculate v).checked
  | .note _ => pure ()
  | e => others e

/-- The caller when the code behind some entries has run. -/
def replay (answer : Event → Code σ Unit) (c : Caller σ) (es : List Event) : Caller σ :=
  es.foldl (fun c e => (answer e c).2) c

section Replay

variable {answer : Event → Code σ Unit}

@[simp] theorem replay_nil (c : Caller σ) : replay answer c [] = c := rfl

@[simp] theorem replay_append (c : Caller σ) (es es' : List Event) :
    replay answer c (es ++ es') = replay answer (replay answer c es) es' := List.foldl_append

@[simp] theorem replay_singleton (c : Caller σ) (e : Event) :
    replay answer c [e] = (answer e c).2 := rfl

/-- An entry whose code raises a fault is the last one, and the fault is the result. -/
def Stops (answer : Event → Code σ Unit) (c : Caller σ) (es : List Event) (r : Except Fault α) :
    Prop :=
  ∀ before e after f, es = before ++ e :: after →
    (answer e (replay answer c before)).1 = .error f → after = [] ∧ r = .error f

theorem stops_nil (c : Caller σ) (r : Except Fault α) : Stops answer c [] r := by
  intro before e after f split
  simp at split

/-- A single entry stops if its code raises the result. -/
theorem stops_singleton {c : Caller σ} {e : Event} {r : Except Fault α}
    (h : ∀ f, (answer e c).1 = .error f → r = .error f) : Stops answer c [e] r := by
  intro before e' after f split raised
  cases before with
  | nil =>
    obtain ⟨rfl, rfl⟩ := List.cons.inj split
    exact ⟨rfl, h f raised⟩
  | cons x before => exact absurd (congrArg List.length split) (by simp)

/-- Entries without a fault may be followed by others. -/
theorem Stops.append {c : Caller σ} {es es' : List Event} {x : α} {r : Except Fault β}
    (h : Stops answer c es (.ok x : Except Fault α)) (h' : Stops answer (replay answer c es) es' r) :
    Stops answer c (es ++ es') r := by
  intro before e after f split raised
  rcases List.append_eq_append_iff.1 split with ⟨mid, rfl, later⟩ | ⟨mid, rfl, later⟩
  · rw [replay_append] at raised
    exact h' mid e after f later raised
  · cases mid with
    | nil =>
      rw [List.append_nil] at h'
      exact h' [] e after f later.symm raised
    | cons e' mid =>
      -- no entry of the first part raises anything
      obtain ⟨rfl, rfl⟩ := List.cons.inj later
      exact nomatch (h before e mid f rfl raised).2

namespace Act

/-- The entries of an act tell what it does to the caller, and it ends where the code behind an entry
raises a fault. -/
def Replays (answer : Event → Code σ Unit) (a : Act σ α) : Prop :=
  ∀ w, ∃ es, (a w).2 = ⟨replay answer w.caller es, w.history ++ es⟩ ∧
    Stops answer w.caller es (a w).1

/-! ## Building blocks -/

/-- An act that does nothing to its world. -/
theorem replays_of_idle {a : Act σ α} (h : ∀ w, (a w).2 = w) : Replays answer a :=
  fun w => ⟨[], by simp [h], stops_nil _ _⟩

theorem replays_pure (x : α) : Replays answer (pure x : Act σ α) := replays_of_idle fun _ => rfl

theorem replays_read (f : σ → α) : Replays answer (read f : Act σ α) := replays_of_idle fun _ => rfl

theorem replays_lift (x : Except Misuse α) : Replays answer (lift x : Act σ α) :=
  replays_of_idle fun _ => rfl

theorem replays_fail (e : Fault) : Replays answer (fail e : Act σ α) := replays_of_idle fun _ => rfl

theorem replays_bind {a : Act σ α} {f : α → Act σ β} (ha : Replays answer a)
    (hf : ∀ x, Replays answer (f x)) : Replays answer (a >>= f) := by
  intro w
  obtain ⟨es, left, stops⟩ := ha w
  rw [bind_apply]
  rcases hw : a w with ⟨e | x, w'⟩ <;> rw [hw] at left stops
  · refine ⟨es, left, ?_⟩
    intro before e' after f split raised
    obtain ⟨last, same⟩ := stops before e' after f split raised
    exact ⟨last, congrArg Except.error (Except.error.inj same)⟩
  · obtain rfl := left
    obtain ⟨es', left', stops'⟩ := hf x ⟨replay answer w.caller es, w.history ++ es⟩
    exact ⟨es ++ es', by simp [left'], stops.append stops'⟩

/-- An entry that no code stands behind. -/
theorem replays_record {e : Event} (silent : answer e = pure ()) :
    Replays answer (record e : Act σ Unit) := by
  intro w
  refine ⟨[e], by simp [silent], stops_singleton ?_⟩
  intro f raised
  rw [silent] at raised
  exact nomatch raised

/-- A call, and what follows it. What the code behind the entry raises is what the call raises, or what
is refused of its result right away. -/
theorem replays_call_bind {e : Event} {c : Code σ α} {next : α → Act σ β}
    (runs : ∀ k, (answer e k).2 = (c k).2)
    (raises : ∀ k x f, (c k).1 = .error x → (answer e k).1 = .error f → f = x)
    (refuses : ∀ k x f, (c k).1 = .ok x → (answer e k).1 = .error f → ∀ w, next x w = (.error f, w))
    (goes : ∀ x, Replays answer (next x)) : Replays answer (call e c >>= next) := by
  intro w
  rw [bind_apply, call_apply]
  have called := runs w.caller
  rcases hc : c w.caller with ⟨x | x, k⟩ <;> rw [hc] at called
  · refine ⟨[e], by rw [replay_singleton, called], stops_singleton ?_⟩
    intro f raised
    rw [raises w.caller x f (congrArg Prod.fst hc) raised]
  · -- the call has returned, and the code behind its entry may still refuse the result
    cases answered : (answer e w.caller).1 with
    | error f =>
      have refused := refuses w.caller x f (congrArg Prod.fst hc) answered
      simp only [refused]
      refine ⟨[e], by rw [replay_singleton, called], stops_singleton ?_⟩
      intro f' raised
      exact congrArg Except.error (Except.error.inj (answered.symm.trans raised))
    | ok u =>
      obtain ⟨es, left, stops⟩ := goes x ⟨k, w.history ++ [e]⟩
      have first : Stops answer w.caller [e] (.ok () : Except Fault Unit) := by
        apply stops_singleton
        intro f raised
        rw [answered] at raised
        exact nomatch raised
      refine ⟨[e] ++ es, ?_, first.append ?_⟩
      · rw [left, replay_append, replay_singleton, called, List.append_assoc]
      · rw [replay_singleton, called]
        exact stops

theorem replays_call {e : Event} {c : Code σ α} (h : answer e = c.void) :
    Replays answer (call e c) := by
  intro w
  refine ⟨[e], by simp [call_apply, h, Code.void], stops_singleton ?_⟩
  intro f raised
  rw [h] at raised
  rw [call_apply]
  rcases hc : (c w.caller).1 with x | x
  · simpa [Code.void, hc, Except.map] using raised
  · simp [Code.void, hc, Except.map] at raised

end Act

end Replay

/-- Code without a result stays as it is. -/
@[simp] theorem Code.void_unit (c : Code σ Unit) : c.void = c := by
  funext k
  rcases hc : c k with ⟨e | ⟨⟩, k'⟩ <;> simp [void, hc, Except.map]

/-! ## Judging an outcome -/

section Judging

variable (w : Waiter σ) (others : Event → Code σ Unit)

/-- The matchers from a position on. -/
theorem decideFrom_replays (position : Nat) {rest : List (Acceptor σ)}
    (suffix : ∀ i, rest[i]? = w.acceptors[position + i]?) (o : Outcome) :
    (decideFrom position rest o).Replays (w.answer others) := by
  induction rest generalizing position with
  | nil => exact Act.replays_bind (Act.replays_record rfl) fun _ => Act.replays_pure _
  | cons a rest ih =>
    have here : w.acceptors[position]? = some a := (suffix 0).symm
    have behind : ∀ i, rest[i]? = w.acceptors[position + 1 + i]? := by
      intro i
      rw [Nat.add_assoc, Nat.add_comm 1 i]
      exact suffix (i + 1)
    refine Act.replays_bind ?_ ?_
    · unfold Acceptor.accepts
      split
      · refine Act.replays_bind (Act.replays_call ?_) fun _ => Act.replays_pure _
        simp [Waiter.answer, here]
      · exact Act.replays_pure _
    · intro accepted
      cases accepted with
      | true => exact Act.replays_bind (Act.replays_record rfl) fun _ => Act.replays_pure _
      | false => exact ih (position + 1) behind

/-- The backoff, and what is refused of its delays. -/
theorem retryOrExhaust_replays (o : Outcome) (attempt : Value) :
    (retryOrExhaust w.strategy o attempt).Replays (w.answer others) := by
  refine Act.replays_bind (Act.replays_lift _) ?_
  intro exhausted
  cases exhausted with
  | true => exact Act.replays_bind (Act.replays_record rfl) fun _ => Act.replays_pure _
  | false =>
    simp only [Bool.false_eq_true, if_false, Backoff.nextDelay, bind_assoc]
    -- the code behind the question is the backoff with both checks of its answer
    refine Act.replays_call_bind ?_ ?_ ?_ ?_
    · intro k
      simp only [Waiter.answer, Code.checked, Code.bind_apply]
      rcases w.strategy.backoff.calculate attempt k with ⟨e | v, k'⟩
      · rfl
      · cases h : v.refusal? <;> simp only [h] <;> rfl
    · intro k x f raised answered
      simp only [Waiter.answer, Code.checked, Code.bind_apply] at answered
      rcases hc : w.strategy.backoff.calculate attempt k with ⟨e | v, k'⟩ <;> rw [hc] at raised answered
      · exact (Except.error.inj answered).symm.trans (Except.error.inj raised)
      · exact nomatch raised
    · intro k v f returned answered w'
      simp only [Waiter.answer, Code.checked, Code.bind_apply] at answered
      rcases hc : w.strategy.backoff.calculate attempt k with ⟨e | v', k'⟩ <;>
        rw [hc] at returned answered
      · exact nomatch returned
      · obtain rfl : v' = v := Except.ok.inj returned
        cases accepted : v'.nonNegative .negativeBackoff with
        | error m =>
          simp only [Value.refusal?_of_nonNegative accepted, Code.lift] at answered
          obtain rfl := Except.error.inj answered
          simp [Act.bind_apply]
        | ok d =>
          simp only [Value.refusal?_of_ok accepted] at answered
          cases real : d.toReal? with
          | none =>
            simp only [real, Option.isNone_none, if_true, Code.lift] at answered
            obtain rfl := Except.error.inj answered
            simp [Act.bind_apply, Number.twoPlaces?, real]
          | some x =>
            simp only [real, Option.isNone_some, Bool.false_eq_true, if_false] at answered
            exact nomatch answered
    · intro v
      apply Act.replays_bind (Act.replays_lift _)
      intro d
      split
      · exact Act.replays_fail _
      · exact Act.replays_bind (Act.replays_record rfl) fun _ => Act.replays_pure _

/-- Evaluating an outcome runs matchers and backoff. -/
theorem evaluate_replays (o : Outcome) (attempt : Value) :
    (evaluate w.acceptors w.strategy o attempt).Replays (w.answer others) := by
  refine Act.replays_bind (decideFrom_replays w others 0 (by simp) o) ?_
  intro verdict
  split
  · exact Act.replays_bind (Act.replays_lift _) fun _ => Act.replays_pure _
  · exact Act.replays_pure _
  · exact retryOrExhaust_replays w others _ attempt
  · exact Act.replays_pure _
  · exact retryOrExhaust_replays w others _ attempt

end Judging

/-! ## Hooks -/

namespace Notifier

variable (w : Waiter σ) (others : Event → Code σ Unit) (clock : σ → Value)

theorem attempt_replays (k : Value) :
    ((w.notifier clock).attempt k).Replays (w.answer others) := by
  simp only [attempt, Waiter.notifier]
  split
  · exact Act.replays_pure _
  · next hook installed => exact Act.replays_call (by simp [Waiter.answer, Hooks.hear, installed])

theorem retry_replays (k delay value : Value) (fault : Option Fault) :
    ((w.notifier clock).retry k delay value fault).Replays (w.answer others) := by
  simp only [retry, Waiter.notifier]
  split
  · exact Act.replays_pure _
  · next hook installed => exact Act.replays_call (by simp [Waiter.answer, Hooks.hear, installed])

theorem elapsed_replays {answer : Event → Code σ Unit} (n : Notifier σ) (started : Value) :
    (n.elapsed started).Replays answer :=
  Act.replays_bind (Act.replays_read _) fun _ => Act.replays_lift _

theorem success_replays (k : Value) (r : Response) (started : Value) :
    ((w.notifier clock).success k r started).Replays (w.answer others) := by
  simp only [success, Waiter.notifier]
  split
  · exact Act.replays_pure _
  · next hook installed =>
    exact Act.replays_bind (elapsed_replays _ _) fun _ =>
      Act.replays_call (by simp [Waiter.answer, Hooks.hear, installed])

theorem failure_replays (k : Value) (e : Option Fault) (started : Value) :
    ((w.notifier clock).failure k e started).Replays (w.answer others) := by
  simp only [failure, Waiter.notifier]
  split
  · exact Act.replays_pure _
  · next hook installed =>
    exact Act.replays_bind (elapsed_replays _ _) fun _ =>
      Act.replays_call (by simp [Waiter.answer, Hooks.hear, installed])

theorem opening_replays (attempt limit : Nat) :
    ((w.notifier clock).opening attempt limit).Replays (w.answer others) :=
  Act.replays_bind (attempt_replays w others clock _) fun _ => Act.replays_record rfl

theorem tell_replays (o : Outcome) (attempt : Nat) (started : Value) (t : Transition) :
    ((w.notifier clock).tell o attempt started t).Replays (w.answer others) := by
  cases t with
  | succeed r => exact success_replays w others clock _ _ _
  | fail f =>
    exact Act.replays_bind (Act.replays_record rfl) fun _ => failure_replays w others clock _ _ _
  | retry delay => exact retry_replays w others clock _ _ _ _

end Notifier

/-! ## Blocking runs -/

namespace Blocking

variable (b : Blocking σ)

/-- The code of a blocking run behind an entry. -/
def answer : Event → Code σ Unit :=
  b.waiter.answer fun
    | .polled n => (b.operation n).attempted
    | .slept d => b.sleep d
    | .watched d => ((b.signal.map fun signal => (signal.wait d).void).getD (pure ()))
    | _ => pure ()

theorem poll_replays (attempt : Nat) : (b.poll attempt).Replays b.answer := by
  intro w
  simp only [poll, Act.bind_apply, Act.outcomeOf_apply, Act.call_apply]
  rcases hc : b.operation attempt w.caller with ⟨e | v, k⟩
  · -- a fault of the operation is an outcome, unless it is not ordinary
    cases ordinary : e.isOrdinary <;> simp only [ordinary] <;>
      refine ⟨[.polled attempt], by simp [answer, Waiter.answer, Code.attempted, hc],
        stops_singleton ?_⟩ <;> intro f raised <;>
      simp [answer, Waiter.answer, Code.attempted, hc, ordinary] at raised
    simpa using raised
  · refine ⟨[.polled attempt], by simp [answer, Waiter.answer, Code.attempted, hc],
      stops_singleton ?_⟩
    intro f raised
    simp [answer, Waiter.answer, Code.attempted, hc] at raised

theorem pause_replays (d : Number) : (b.pause d).Replays b.answer := by
  unfold pause
  split
  · refine Act.replays_bind (Act.replays_call ?_) fun _ => Act.replays_pure _
    simp [answer, Waiter.answer]
  · next signal given =>
    apply Act.replays_bind (Act.replays_read _)
    intro set
    split
    · exact Act.replays_pure _
    · exact Act.replays_call (by simp [answer, Waiter.answer, given])

theorem giveUp_replays (started : Value) (attempt : Nat) (f : Failure) :
    (b.giveUp started attempt f).Replays b.answer :=
  Act.replays_bind (Act.replays_record rfl) fun _ =>
    Act.replays_bind (Notifier.failure_replays b.waiter _ _ _ _ _) fun _ => Act.replays_pure _

theorem close_replays (started : Value) (attempt : Nat) (next : Conclusion ⊕ Number) :
    (b.close started attempt next).Replays b.answer := by
  cases next with
  | inl c => exact Act.replays_pure _
  | inr delay =>
    apply Act.replays_bind (b.pause_replays delay)
    intro stopped
    split
    · exact Act.replays_bind (b.giveUp_replays _ _ _) fun _ => Act.replays_pure _
    · exact Act.replays_pure _

theorem judge_replays (o : Outcome) (attempt : Nat) (started : Value) :
    (b.notifier.judge b.waiter o attempt started).Replays b.answer :=
  Act.replays_bind (evaluate_replays b.waiter _ o _) fun t =>
    Act.replays_bind (Notifier.tell_replays b.waiter _ _ o attempt started t) fun _ =>
      Act.replays_pure _

theorem round_replays (started : Value) (attempt : Nat) :
    (b.round started attempt).Replays b.answer := by
  rw [round_eq]
  apply Act.replays_bind (Notifier.opening_replays b.waiter _ _ _ _)
  intro _
  apply Act.replays_bind (b.poll_replays attempt)
  intro o
  exact Act.replays_bind (b.judge_replays o attempt started) fun next =>
    b.close_replays started attempt next

theorem rounds_replays (started : Value) (left attempt : Nat) :
    (b.rounds started left attempt).Replays b.answer := by
  induction left generalizing attempt with
  | zero => exact Act.replays_pure _
  | succ left ih =>
    apply Act.replays_bind (b.round_replays started attempt)
    intro conclusion
    cases conclusion with
    | some c => exact Act.replays_pure _
    | none => exact ih (attempt + 1)

/-- A blocking run ends where the caller's code raises a fault that is no outcome. -/
theorem run_replays : b.run.Replays b.answer :=
  Act.replays_bind (Act.replays_read _) fun _ => b.rounds_replays _ _ _

end Blocking

end Polling
