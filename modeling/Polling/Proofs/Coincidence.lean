import Polling.Proofs.Transitions

/-!
# Waits that coincide

Two waits are compared by what somebody sees of them. A `Sight` is a view of the caller's state and an
image of each entry of a history, if the entry is seen at all. Worlds coincide if they look the same, and
acts do if they have the same result in worlds that coincide and leave such worlds. The relation is closed
under everything that acts are made of, so a law about two runs comes down to the parts in which the two
waits differ. `Notifier.Coincide` is about the hooks, which may be told different limits where they
disregard them (`Notifier.Disregards`). `Blocking.Around` adds the operation and the sleep of a blocking
wait, which is all that is around an evaluation. In `Blocking.Coincide` the evaluation coincides too, and
then so do whole runs (`Blocking.run_coincides`).

Where the whole state of the caller is in sight, any code coincides with itself (`Code.coincides_self`), and
only entries are out of sight. Otherwise it does so if it depends on nothing that is out of sight
(`Waiter.JudgesInSight`, `Blocking.InSight`).
-/

namespace Polling

/-- What is seen of a wait: something of the caller's state, and something of the entries. -/
structure Sight (σ V : Type) where
  view : σ → V
  entry : Event → Option Event

variable {V : Type} {seen : Sight σ V}

/-! ## Computations in step -/

/-- From two states on, two computations have the same result, and they lead to related states. -/
abbrev InStepAt {S : Type} (R : S → S → Prop) (a a' : ExceptT Fault (StateM S) α) (s s' : S) : Prop :=
  (a s).1 = (a' s').1 ∧ R (a s).2 (a' s').2

/-- Two computations have the same result from related states on, and lead to related states. -/
def InStep {S : Type} (R : S → S → Prop) (a a' : ExceptT Fault (StateM S) α) : Prop :=
  ∀ s s', R s s' → InStepAt R a a' s s'

section InStep

variable {S : Type} {R : S → S → Prop}

/-- From there on, the two go the same way. -/
theorem InStepAt.cases {a a' : ExceptT Fault (StateM S) α} {s s' : S} (h : InStepAt R a a' s s') :
    ∃ r t t', a s = (r, t) ∧ a' s' = (r, t') ∧ R t t' :=
  ⟨(a s).1, (a s).2, (a' s').2, rfl, Prod.ext h.1.symm rfl, h.2⟩

/-- What follows two computations that are in step from two states on is in step from related states on. -/
theorem InStepAt.bind {a a' : ExceptT Fault (StateM S) α} {f f' : α → ExceptT Fault (StateM S) β}
    {s s' : S} (ha : InStepAt R a a' s s') (hf : ∀ x, InStep R (f x) (f' x)) :
    InStepAt R (a >>= f) (a' >>= f') s s' := by
  obtain ⟨result, left⟩ := ha
  change (ExceptT.bindCont f (a s).1 (a s).2).1 = (ExceptT.bindCont f' (a' s').1 (a' s').2).1 ∧
    R (ExceptT.bindCont f (a s).1 (a s).2).2 (ExceptT.bindCont f' (a' s').1 (a' s').2).2
  rw [← result]
  cases (a s).1 with
  | error e => exact ⟨rfl, left⟩
  | ok x => exact hf x _ _ left

namespace InStep

theorem pure (x : α) : InStep R (pure x) (pure x) :=
  fun _ _ h => ⟨rfl, h⟩

theorem throw (e : Fault) : InStep R (throw e : ExceptT Fault (StateM S) α) (throw e) :=
  fun _ _ h => ⟨rfl, h⟩

theorem bind {a a' : ExceptT Fault (StateM S) α} {f f' : α → ExceptT Fault (StateM S) β}
    (ha : InStep R a a') (hf : ∀ x, InStep R (f x) (f' x)) : InStep R (a >>= f) (a' >>= f') :=
  fun s s' h => (ha s s' h).bind hf

end InStep

end InStep

/-! ## Code and acts -/

/-- Two sides of the caller look the same. -/
structure Caller.Coincide (seen : Sight σ V) (k k' : Caller σ) : Prop where
  state : seen.view k.state = seen.view k'.state
  serving : k.serving = k'.serving
  requests : k.requests = k'.requests

/-- Two pieces of code have the same result where the caller's side looks the same, and keep it so. -/
abbrev Code.Coincide (seen : Sight σ V) (c c' : Code σ α) : Prop := InStep (Caller.Coincide seen) c c'

/-- If nothing of the state is out of sight, what looks the same is the same. -/
theorem Caller.Coincide.eq (clear : Function.Injective seen.view) {k k' : Caller σ}
    (h : Coincide seen k k') : k = k' := by
  obtain ⟨state, serving, requests⟩ := k
  obtain ⟨state', serving', requests'⟩ := k'
  obtain rfl := clear h.state
  obtain rfl := h.serving
  obtain rfl := h.requests
  rfl

theorem Code.coincides_self (clear : Function.Injective seen.view) (c : Code σ α) :
    Coincide seen c c := by
  intro k k' h
  obtain rfl := h.eq clear
  exact ⟨rfl, rfl, rfl, rfl⟩

/-- Two worlds look the same. -/
structure World.Coincide (seen : Sight σ V) (w w' : World σ) : Prop where
  caller : Caller.Coincide seen w.caller w'.caller
  history : w.history.filterMap seen.entry = w'.history.filterMap seen.entry

namespace Act

/-- Two acts have the same result in worlds that look the same, and leave such worlds. -/
abbrev Coincide (seen : Sight σ V) (a a' : Act σ α) : Prop := InStep (World.Coincide seen) a a'

theorem coincides_record {e e' : Event} (h : seen.entry e = seen.entry e') :
    Coincide seen (record e : Act σ Unit) (record e') := by
  intro w w' same
  refine ⟨rfl, same.caller, ?_⟩
  rw [record_apply, record_apply, List.filterMap_append, List.filterMap_append, same.history,
    List.filterMap_cons, List.filterMap_cons, h]

theorem coincides_code {c c' : Code σ α} (h : c.Coincide seen c') :
    Coincide seen (code c) (code c') :=
  fun w w' same =>
    ⟨(h w.caller w'.caller same.caller).1, (h w.caller w'.caller same.caller).2, same.history⟩

theorem coincides_call {e e' : Event} (he : seen.entry e = seen.entry e') {c c' : Code σ α}
    (h : c.Coincide seen c') : Coincide seen (call e c) (call e' c') :=
  InStep.bind (coincides_record he) fun _ => coincides_code h

theorem coincides_read {f f' : σ → α} (h : ∀ s s', seen.view s = seen.view s' → f s = f' s') :
    Coincide seen (read f) (read f') :=
  fun _ _ same => ⟨congrArg Except.ok (h _ _ same.caller.state), same⟩

theorem coincides_outcomeOf {a a' : Act σ α} (h : Coincide seen a a') :
    Coincide seen (outcomeOf a) (outcomeOf a') :=
  fun w w' same => ⟨congrArg Except.ok (h w w' same).1, (h w w' same).2⟩

theorem coincides_lift (x : Except Misuse α) : Coincide seen (lift x) (lift x) :=
  fun _ _ h => ⟨rfl, h⟩

theorem coincides_fail (e : Fault) : Coincide seen (fail e : Act σ α) (fail e) := InStep.throw e

end Act

/-! ## Evaluations -/

/-- What the matchers of a waiter and its backoff do depends on nothing that is out of sight. -/
structure Waiter.JudgesInSight (seen : Sight σ V) (w : Waiter σ) : Prop where
  matcher : ∀ a ∈ w.acceptors, ∀ payload, (a.matcher payload).Coincide seen (a.matcher payload)
  backoff : ∀ attempt, (w.strategy.backoff.calculate attempt).Coincide seen
    (w.strategy.backoff.calculate attempt)

theorem Waiter.judgesInSight (clear : Function.Injective seen.view) (w : Waiter σ) :
    w.JudgesInSight seen :=
  ⟨fun _ _ _ => Code.coincides_self clear _, fun _ => Code.coincides_self clear _⟩

/-- Decisions of the same acceptors coincide, also where their positions are others, if that is not seen. -/
theorem decideFrom_coincides {A : List (Acceptor σ)}
    (matcher : ∀ a ∈ A, ∀ payload, (a.matcher payload).Coincide seen (a.matcher payload))
    {position position' : Nat} (positions : ∀ i payload,
      seen.entry (.examined (position + i) payload) = seen.entry (.examined (position' + i) payload))
    (o : Outcome) : Act.Coincide seen (decideFrom position A o) (decideFrom position' A o) := by
  induction A generalizing position position' with
  | nil => exact InStep.bind (Act.coincides_record rfl) fun _ => InStep.pure _
  | cons a rest ih =>
    refine InStep.bind ?_ fun accepted => ?_
    · unfold Acceptor.accepts
      split
      · exact InStep.bind (Act.coincides_call (positions 0 _) (matcher a List.mem_cons_self _))
          fun _ => InStep.pure _
      · exact InStep.pure _
    · cases accepted with
      | true => exact InStep.bind (Act.coincides_record rfl) fun _ => InStep.pure _
      | false =>
        refine ih (fun b hb => matcher b (List.mem_cons_of_mem a hb)) fun i payload => ?_
        rw [Nat.add_right_comm, Nat.add_right_comm position']
        exact positions (i + 1) payload

section Evaluations

variable {w : Waiter σ} (h : w.JudgesInSight seen)
include h

theorem Waiter.JudgesInSight.decide (o : Outcome) :
    Act.Coincide seen (decide w.acceptors o) (decide w.acceptors o) :=
  decideFrom_coincides h.matcher (fun _ _ => rfl) o

theorem Waiter.JudgesInSight.nextDelay (attempt : Value) :
    Act.Coincide seen (w.strategy.backoff.nextDelay attempt) (w.strategy.backoff.nextDelay attempt) :=
  InStep.bind (Act.coincides_call rfl (h.backoff attempt)) fun _ => Act.coincides_lift _

theorem Waiter.JudgesInSight.retryOrExhaust (o : Outcome) (attempt : Value) :
    Act.Coincide seen (retryOrExhaust w.strategy o attempt) (retryOrExhaust w.strategy o attempt) := by
  refine InStep.bind (Act.coincides_lift _) fun exhausted => ?_
  cases exhausted with
  | true => exact InStep.bind (Act.coincides_record rfl) fun _ => InStep.pure _
  | false =>
    refine InStep.bind (h.nextDelay attempt) fun delay => ?_
    split
    · exact Act.coincides_fail _
    · exact InStep.bind (Act.coincides_record rfl) fun _ => InStep.pure _

end Evaluations

/-- The strategies matter only where an attempt is left to them. -/
theorem transitionOn_coincides {strategy strategy' : Strategy σ} {o : Outcome} {attempt : Value}
    (retries : Act.Coincide seen (retryOrExhaust strategy o attempt) (retryOrExhaust strategy' o attempt))
    (s : Option Verdict) :
    Act.Coincide seen (transitionOn strategy o attempt s) (transitionOn strategy' o attempt s) := by
  rcases s with _ | (_ | _ | _)
  · cases o with
    | raised e => exact InStep.pure _
    | returned v => exact retries
  · exact InStep.bind (Act.coincides_lift _) fun _ => InStep.pure _
  · exact retries
  · exact InStep.pure _

theorem Waiter.JudgesInSight.evaluate {w : Waiter σ} (h : w.JudgesInSight seen) (o : Outcome)
    (attempt : Value) : Act.Coincide seen (evaluate w.acceptors w.strategy o attempt)
      (evaluate w.acceptors w.strategy o attempt) := by
  rw [evaluate_eq]
  exact InStep.bind (h.decide o) (transitionOn_coincides (h.retryOrExhaust o attempt))

/-! ## What is around an evaluation -/

/-- Two notifiers coincide in waits with some limits that began at some times. -/
structure Notifier.Coincide (seen : Sight σ V) (n n' : Notifier σ) (limit limit' : Nat)
    (started started' : Value) : Prop where
  opening : ∀ attempt, Act.Coincide seen (n.opening attempt limit) (n'.opening attempt limit')
  tell : ∀ o attempt t, Act.Coincide seen (n.tell o attempt started t) (n'.tell o attempt started' t)

/-- A notice with another limit. -/
def Notice.withLimit (limit : Value) : Notice → Notice
  | .attempt info => .attempt { info with limit }
  | .retry info => .retry { info with limit }
  | .success info => .success { info with limit }
  | .failure info => .failure { info with limit }

namespace Notifier

/-- The hooks with another limit to tell. -/
def withLimit (n : Notifier σ) (limit : Value) : Notifier σ := { n with limit }

/-- It makes no difference to what is seen which of two limits the hooks are told, nor does the clock show
anything that is out of sight. -/
structure Disregards (seen : Sight σ V) (n : Notifier σ) (limit : Value) : Prop where
  entry : ∀ m : Notice, seen.entry (.notice (m.withLimit n.limit)) = seen.entry (.notice (m.withLimit limit))
  hear : ∀ m : Notice,
    (n.hooks.hear (m.withLimit n.limit)).Coincide seen (n.hooks.hear (m.withLimit limit))
  clock : ∀ s s', seen.view s = seen.view s' → n.clock s = n.clock s'

theorem disregards_self (clear : Function.Injective seen.view) (n : Notifier σ) :
    n.Disregards seen n.limit :=
  ⟨fun _ => rfl, fun _ => Code.coincides_self clear _, fun _ _ same => congrArg n.clock (clear same)⟩

namespace Disregards

variable {n : Notifier σ} {limit : Value} (h : n.Disregards seen limit)
include h

/-- A hook that is installed is told of something. -/
theorem call (m : Notice) {hook hook' : Code σ Unit} (hears : n.hooks.hear (m.withLimit n.limit) = hook)
    (hears' : n.hooks.hear (m.withLimit limit) = hook') :
    Act.Coincide seen (Act.call (.notice (m.withLimit n.limit)) hook)
      (Act.call (.notice (m.withLimit limit)) hook') := by
  subst hears hears'
  exact Act.coincides_call (h.entry m) (h.hear m)

theorem elapsed (started : Value) :
    Act.Coincide seen (n.elapsed started) ((n.withLimit limit).elapsed started) :=
  InStep.bind (Act.coincides_read h.clock) fun _ => Act.coincides_lift _

theorem attempt (k : Value) : Act.Coincide seen (n.attempt k) ((n.withLimit limit).attempt k) := by
  simp only [Notifier.attempt, withLimit]
  split
  · exact InStep.pure _
  · next installed =>
    exact h.call (.attempt ⟨k, .null⟩) (by simp [Hooks.hear, Notice.withLimit, installed])
      (by simp [Hooks.hear, Notice.withLimit, installed])

theorem retry (k delay value : Value) (e : Option Fault) :
    Act.Coincide seen (n.retry k delay value e) ((n.withLimit limit).retry k delay value e) := by
  simp only [Notifier.retry, withLimit]
  split
  · exact InStep.pure _
  · next installed =>
    exact h.call (.retry ⟨k, .null, delay, value, e⟩)
      (by simp [Hooks.hear, Notice.withLimit, installed])
      (by simp [Hooks.hear, Notice.withLimit, installed])

theorem success (k : Value) (r : Response) (started : Value) :
    Act.Coincide seen (n.success k r started) ((n.withLimit limit).success k r started) := by
  have elapsed := h.elapsed started
  simp only [Notifier.success, withLimit] at elapsed ⊢
  split
  · exact InStep.pure _
  · next installed =>
    refine InStep.bind elapsed fun t => ?_
    exact h.call (.success ⟨k, .null, r, t⟩) (by simp [Hooks.hear, Notice.withLimit, installed])
      (by simp [Hooks.hear, Notice.withLimit, installed])

theorem failure (k : Value) (e : Option Fault) (started : Value) :
    Act.Coincide seen (n.failure k e started) ((n.withLimit limit).failure k e started) := by
  have elapsed := h.elapsed started
  simp only [Notifier.failure, withLimit] at elapsed ⊢
  split
  · exact InStep.pure _
  · next installed =>
    refine InStep.bind elapsed fun t => ?_
    exact h.call (.failure ⟨k, .null, e, t⟩) (by simp [Hooks.hear, Notice.withLimit, installed])
      (by simp [Hooks.hear, Notice.withLimit, installed])

/-- All that is told is told both times. -/
theorem coincide {m m' : Nat} (started : Value)
    (executing : ∀ k, seen.entry (.note (.executing k m)) = seen.entry (.note (.executing k m'))) :
    Coincide seen n (n.withLimit limit) m m' started started where
  opening k := InStep.bind (h.attempt _) fun _ => Act.coincides_record (executing k)
  tell o k t := by
    cases t with
    | succeed r => exact h.success _ r started
    | fail f => exact InStep.bind (Act.coincides_record rfl) fun _ => h.failure _ _ started
    | retry delay => exact h.retry _ _ _ _

end Disregards

theorem coincides (clear : Function.Injective seen.view) (n : Notifier σ) (limit : Nat) (started : Value) :
    Coincide seen n n limit limit started started :=
  (n.disregards_self clear).coincide started fun _ => rfl

end Notifier

/-! ## Blocking waits -/

namespace Blocking

/-- Around an evaluation, two blocking waits coincide, the times at which they began given. -/
structure Around (seen : Sight σ V) (b b' : Blocking σ) (started started' : Value) : Prop
    extends b.notifier.Coincide seen b'.notifier b.waiter.strategy.limit b'.waiter.strategy.limit started
      started' where
  operation : ∀ i, (b.operation i).Coincide seen (b'.operation i)
  pause : ∀ d, Act.Coincide seen (b.pause d) (b'.pause d)

/-- The parts of two blocking waits coincide, the times at which they began given. -/
structure Coincide (seen : Sight σ V) (b b' : Blocking σ) (started started' : Value) : Prop
    extends Around seen b b' started started' where
  limit : b.waiter.strategy.limit = b'.waiter.strategy.limit
  evaluate : ∀ o attempt, Act.Coincide seen (evaluate b.waiter.acceptors b.waiter.strategy o attempt)
    (evaluate b'.waiter.acceptors b'.waiter.strategy o attempt)

/-- What a blocking wait does apart from its hooks depends on nothing that is out of sight. -/
structure InSight (seen : Sight σ V) (b : Blocking σ) : Prop extends b.waiter.JudgesInSight seen where
  operation : ∀ i, (b.operation i).Coincide seen (b.operation i)
  sleep : ∀ d, (b.sleep d).Coincide seen (b.sleep d)
  isSet : ∀ signal, b.signal = some signal →
    ∀ s s', seen.view s = seen.view s' → signal.isSet s = signal.isSet s'
  wait : ∀ signal, b.signal = some signal → ∀ d, (signal.wait d).Coincide seen (signal.wait d)

theorem inSight (clear : Function.Injective seen.view) (b : Blocking σ) : b.InSight seen where
  toJudgesInSight := b.waiter.judgesInSight clear
  operation _ := Code.coincides_self clear _
  sleep _ := Code.coincides_self clear _
  isSet signal _ _ _ same := congrArg signal.isSet (clear same)
  wait _ _ _ := Code.coincides_self clear _

/-- Giving up is telling of a failure. -/
theorem giveUp_eq (b : Blocking σ) (started : Value) (attempt : Nat) (f : Failure) (o : Outcome) :
    b.giveUp started attempt f = (do
      b.notifier.tell o attempt started (.fail f)
      return .failure f) := by
  simp only [giveUp, Notifier.tell, bind_assoc]

theorem InSight.pause {b : Blocking σ} (h : b.InSight seen) (d : Number) :
    Act.Coincide seen (b.pause d) (b.pause d) := by
  unfold Blocking.pause
  split
  · exact InStep.bind (Act.coincides_call rfl (h.sleep d)) fun _ => InStep.pure _
  · next signal hs =>
    refine InStep.bind (Act.coincides_read (h.isSet signal hs)) fun set => ?_
    cases set with
    | true => exact InStep.pure _
    | false => exact Act.coincides_call rfl (h.wait signal hs d)

variable {b b' : Blocking σ} {started started' : Value}

namespace Around

variable (h : Around seen b b' started started')
include h

theorem poll (attempt : Nat) : Act.Coincide seen (b.poll attempt) (b'.poll attempt) := by
  refine InStep.bind (Act.coincides_outcomeOf (Act.coincides_call rfl (h.operation attempt))) ?_
  intro r
  cases r with
  | ok v => exact InStep.pure _
  | error e =>
    dsimp only
    split
    · exact InStep.pure _
    · exact Act.coincides_fail e

theorem close (attempt : Nat) (next : Conclusion ⊕ Number) :
    Act.Coincide seen (b.close started attempt next) (b'.close started' attempt next) := by
  cases next with
  | inl c => exact InStep.pure _
  | inr delay =>
    refine InStep.bind (h.pause delay) fun cut => ?_
    cases cut with
    | false => exact InStep.pure _
    | true =>
      simp only [if_true, giveUp_eq _ _ _ _ (.returned .null)]
      exact InStep.bind (InStep.bind (h.tell _ attempt _) fun _ => InStep.pure _)
        fun _ => InStep.pure _

/-- Behind an evaluation, a transition is told of and the round is closed. -/
theorem behind (o : Outcome) (attempt : Nat) (t : Transition) : Act.Coincide seen
    (do b.notifier.tell o attempt started t; b.close started attempt t.next)
    (do b'.notifier.tell o attempt started' t; b'.close started' attempt t.next) :=
  InStep.bind (h.tell o attempt t) fun _ => h.close attempt t.next

/-- A round coincides if the evaluation of its outcome does. -/
theorem round {attempt : Nat} (evaluate : ∀ o, Act.Coincide seen
      (evaluate b.waiter.acceptors b.waiter.strategy o (.int attempt))
      (evaluate b'.waiter.acceptors b'.waiter.strategy o (.int attempt))) :
    Act.Coincide seen (b.round started attempt) (b'.round started' attempt) := by
  rw [round_eq, round_eq]
  refine InStep.bind (h.opening attempt) fun _ => InStep.bind (h.poll attempt) fun o => ?_
  simp only [Notifier.judge, bind_assoc, pure_bind]
  exact InStep.bind (evaluate o) (h.behind o attempt)

end Around

/-- By induction on the attempts that are left. -/
theorem Coincide.rounds (h : Coincide seen b b' started started') (left attempt : Nat) :
    Act.Coincide seen (b.rounds started left attempt) (b'.rounds started' left attempt) := by
  induction left generalizing attempt with
  | zero =>
    rw [Blocking.rounds, Blocking.rounds, h.limit]
    exact InStep.pure _
  | succ left ih =>
    refine InStep.bind (h.round fun o => h.evaluate o _) fun next => ?_
    cases next with
    | some c => exact InStep.pure _
    | none => exact ih (attempt + 1)

/-- Waits whose parts coincide run alike. -/
theorem run_coincides (h : ∀ s s', seen.view s = seen.view s' →
    Coincide seen b b' (.real (b.clock s)) (.real (b'.clock s'))) :
    Act.Coincide seen b.run b'.run := by
  intro w w' same
  have began := h w.caller.state w'.caller.state same.caller.state
  have runs := began.rounds b.waiter.strategy.limit 1 w w' same
  simp only [InStepAt, Blocking.run, Act.bind_apply, Act.read_apply, ← began.limit]
  exact runs

end Blocking

end Polling
