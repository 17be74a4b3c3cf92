import Mathlib.Order.Bounds.Basic
import Polling.Proofs.Evaluation

/-!
# What a whole blocking run does

A blocking run goes from round to round as long as the verdicts on its outcomes allow. If nothing but
the operation raises faults, the run is fixed by the verdicts, the outcomes and the delays: the rounds
before the last one poll, ask the backoff and sleep (`round_retries`), and the last one polls and comes
to the conclusion (`round_ends`).

Verdicts and delays are those of the run itself, because matchers and backoff may keep a state:
`Blocking.verdictAt` and `Blocking.delayAt` look into the round of an attempt at the world in which the
rounds before it have left the caller.
-/

namespace Polling

namespace Event

/-- Is the operation or the backoff called, or a delay spent? -/
def isStep : Event → Bool
  | .polled _ => true
  | .asked _ => true
  | .slept _ => true
  | .watched _ => true
  | .scheduled _ => true
  | _ => false

end Event

/-- The calls of the operation and the backoff in a history, and the delays that it spends. -/
def stepsOf (es : List Event) : List Event := es.filter Event.isStep

@[simp] theorem stepsOf_append (es es' : List Event) : stepsOf (es ++ es') = stepsOf es ++ stepsOf es' :=
  List.filter_append ..

namespace Act

/-- An act that raises nothing has a result. -/
theorem ok_of_raisesOnly {a : Act σ α} (h : a.RaisesOnly fun _ => False) (w : World σ) :
    ∃ x w', a w = (.ok x, w') := by
  rcases hw : a w with ⟨e | x, w'⟩
  · exact (h w e (congrArg Prod.fst hw)).elim
  · exact ⟨x, w', rfl⟩

/-- An act that makes no steps adds none to the history. -/
theorem stepsOf_of_enters {a : Act σ α} (h : a.Enters (·.isStep = false)) {w w' : World σ}
    {r : Except Fault α} (hw : a w = (r, w')) :
    ∃ es, w'.history = w.history ++ es ∧ stepsOf es = [] := by
  obtain ⟨es, hes, quiet⟩ := h w
  rw [hw] at hes
  refine ⟨es, hes, List.filter_eq_nil_iff.2 ?_⟩
  intro e he
  simp [quiet e he]

end Act

namespace Blocking

variable (b : Blocking σ)

/-- The time at which a run begins. -/
def startTime (w : World σ) : Value := .real (b.clock w.caller.state)

/-- The world after so many rounds of a run. -/
def after (w : World σ) : Nat → World σ
  | 0 => w
  | n + 1 => (b.round (b.startTime w) (n + 1) (after w n)).2

/-- An attempt up to the verdict on its outcome. -/
def deciding (attempt : Nat) : Act σ (Option Verdict) := do
  b.notifier.opening attempt b.waiter.strategy.limit
  let o ← b.poll attempt
  decide b.waiter.acceptors o

/-- The answer that the decider gives on the outcome of an attempt of a run. -/
def verdictAt (w : World σ) (attempt : Nat) : Option Verdict :=
  match (b.deciding attempt (b.after w (attempt - 1))).1 with
  | .ok v => v
  | .error _ => none

/-- What the backoff gives when it is asked for the delay after an attempt of a run. -/
def delayAt (w : World σ) (attempt : Nat) : Except Fault Value :=
  (b.waiter.strategy.backoff.calculate (.int attempt)
    (b.deciding attempt (b.after w (attempt - 1))).2.caller).1

/-- Nothing interrupts the run, its operation ends in given outcomes, call by call, and neither its
matchers nor its hooks raise a fault. -/
structure Steady (o : Nat → Outcome) : Prop where
  signal : b.signal = none
  operation : ∀ i c, (b.operation i c).1 = (o i).result
  ordinary : ∀ i e, o i = .raised e → e.isOrdinary = true
  matchers : ∀ a ∈ b.waiter.acceptors, ∀ payload, (a.matcher payload).Returns
  hooks : (b.waiter.hooks.getD {}).RaisesOnly fun _ => False

variable {b} {o : Nat → Outcome}

/-- The answer of the decider, from the parts of an attempt. -/
theorem deciding_eq {i : Nat} {w w₁ w₂ w₃ : World σ} {o : Outcome} {v : Option Verdict}
    (opened : b.notifier.opening i b.waiter.strategy.limit w = (.ok (), w₁))
    (polled : b.poll i w₁ = (.ok o, w₂))
    (decided : decide b.waiter.acceptors o w₂ = (.ok v, w₃)) :
    b.deciding i w = (.ok v, w₃) := by
  rw [deciding, Act.bind_apply, opened]
  show (b.poll i >>= _) w₁ = _
  rw [Act.bind_apply, polled]
  exact decided

/-- A round whose evaluation gives a transition tells of it and closes. -/
theorem round_apply {i : Nat} {w w₁ w₂ w₃ w₄ : World σ} {o : Outcome} {started : Value}
    {t : Transition} (opened : b.notifier.opening i b.waiter.strategy.limit w = (.ok (), w₁))
    (polled : b.poll i w₁ = (.ok o, w₂))
    (evaluated : evaluate b.waiter.acceptors b.waiter.strategy o (.int i) w₂ = (.ok t, w₃))
    (told : b.notifier.tell o i started t w₃ = (.ok (), w₄)) :
    b.round started i w = b.close started i t.next w₄ := by
  rw [round_eq, Act.bind_apply, opened]
  show (b.poll i >>= _) w₁ = _
  rw [Act.bind_apply, polled]
  show (b.notifier.judge b.waiter o i started >>= _) w₂ = _
  have judged : b.notifier.judge b.waiter o i started w₂ = (.ok t.next, w₄) := by
    rw [Notifier.judge, Act.bind_apply, evaluated]
    show (b.notifier.tell o i started t >>= _) w₃ = _
    rw [Act.bind_apply, told]
    rfl
  rw [Act.bind_apply, judged]

namespace Steady

variable (h : b.Steady o)
include h

/-- Every attempt comes to a verdict on its outcome. -/
theorem deciding_ok (i : Nat) (w : World σ) :
    ∃ w₁ w₂ v w₃ es, b.notifier.opening i b.waiter.strategy.limit w = (.ok (), w₁) ∧
      b.poll i w₁ = (.ok (o i), w₂) ∧ decide b.waiter.acceptors (o i) w₂ = (.ok v, w₃) ∧
      w₃.history = w.history ++ es ∧ stepsOf es = [.polled i] := by
  obtain ⟨⟨⟩, w₁, opened⟩ := Act.ok_of_raisesOnly
    (Notifier.opening_raisesOnly (n := b.notifier) h.hooks i b.waiter.strategy.limit) w
  obtain ⟨es, hes, none⟩ := Act.stepsOf_of_enters
    (Notifier.opening_enters (fun _ _ => rfl) (fun _ => rfl) _ _ _) opened
  have polled := poll_apply (w := w₁) (h.operation i w₁.caller) (h.ordinary i)
  obtain ⟨v, w₃, decided⟩ := Act.ok_of_raisesOnly
    (decideFrom_raisesOnly 0 h.matchers (o i)) (b.poll i w₁).2
  rw [polled] at decided
  obtain ⟨es', hes', none'⟩ := Act.stepsOf_of_enters
    (decideFrom_enters (fun _ _ => rfl) (fun _ _ => rfl) 0 _ _) decided
  refine ⟨w₁, _, v, w₃, es ++ [Event.polled i] ++ es', opened, polled, decided, ?_, ?_⟩
  · rw [hes', hes]
    simp
  · rw [stepsOf_append, stepsOf_append, none, none']
    rfl

/-- Telling of a transition makes no steps. -/
theorem tell_ok (t : Transition) (started : Binary64) (i : Nat) (w : World σ) :
    ∃ w' es, b.notifier.tell (o i) i (.real started) t w = (.ok (), w') ∧
      w'.history = w.history ++ es ∧ stepsOf es = [] := by
  obtain ⟨⟨⟩, w', told⟩ := Act.ok_of_raisesOnly (Notifier.tell_raisesOnly (n := b.notifier) h.hooks
    (Notifier.elapsed_raisesOnly_of_real rfl started) (o i) i t) w
  obtain ⟨es, hes, none⟩ := Act.stepsOf_of_enters
    (Notifier.tell_enters (fun _ _ => rfl) (fun _ => rfl) _ _ _ _ _) told
  exact ⟨w', es, told, hes, none⟩

/-! ## One round -/

/-- The last round polls and comes to the conclusion. -/
theorem round_ends {i : Nat} (first : 1 ≤ i) (started : Binary64) {w : World σ} {v : Option Verdict}
    (decided : (b.deciding i w).1 = .ok v)
    (ends : endsWait v (o i) = true ∨ b.waiter.strategy.limit ≤ i) :
    ∃ w' es, b.round (.real started) i w =
        (.ok (some (conclusionAt b.waiter.strategy.limit i (o i) v)), w') ∧
      w'.history = w.history ++ es ∧ stepsOf es = [.polled i] := by
  obtain ⟨w₁, w₂, v', w₃, es, opened, polled, judged, hes, steps⟩ := h.deciding_ok i w
  obtain rfl : v' = v := by
    rw [deciding_eq opened polled judged] at decided
    exact Except.ok.inj decided
  obtain ⟨t, q, evaluated, next, notes⟩ := evaluate_ends judged first ends
  obtain ⟨w₄, es', told, hes', none⟩ := h.tell_ok t started i { w₃ with history := w₃.history ++ q }
  refine ⟨w₄, es ++ q ++ es', ?_, ?_, ?_⟩
  · rw [round_apply opened polled evaluated told, next]
    rfl
  · rw [hes', hes]
    simp
  · -- the backoff is not asked, so the evaluation leaves only notes
    have hq : stepsOf q = [] := by
      apply List.filter_eq_nil_iff.2
      intro e he
      obtain ⟨note, rfl⟩ := notes e he
      simp [Event.isStep]
    rw [stepsOf_append, stepsOf_append, steps, hq, none]
    rfl

/-- A round before the last one polls, asks the backoff and sleeps. -/
theorem round_retries {i : Nat} (started : Binary64) {w : World σ} {v : Option Verdict}
    (decided : (b.deciding i w).1 = .ok v) (goesOn : endsWait v (o i) = false)
    (left : i < b.waiter.strategy.limit) {d : Number}
    (asked : (b.waiter.strategy.backoff.calculate (.int i) (b.deciding i w).2.caller).1 =
      .ok (.number d))
    (nonneg : d.lt (.int 0) = false) (real : d.toReal?.isSome = true) (sleep : (b.sleep d).Returns) :
    ∃ w' es, b.round (.real started) i w = (.ok none, w') ∧ w'.history = w.history ++ es ∧
      stepsOf es = [.polled i, .asked (.int i), .slept d] := by
  obtain ⟨w₁, w₂, v', w₃, es, opened, polled, judged, hes, steps⟩ := h.deciding_ok i w
  rw [deciding_eq opened polled judged] at decided asked
  obtain rfl : v' = v := Except.ok.inj decided
  obtain ⟨shown, hshown⟩ : ∃ shown, d.twoPlaces? = some shown := by
    refine Option.isSome_iff_exists.1 ?_
    rw [Number.twoPlaces?, Option.isSome_map]
    exact real
  have evaluated := evaluate_retries judged goesOn left (Prod.ext asked rfl) nonneg hshown
  obtain ⟨w₄, es', told, hes', quiet⟩ := h.tell_ok (.retry d) started i
    { caller := (b.waiter.strategy.backoff.calculate (.int i) w₃.caller).2
      history := w₃.history ++
        [.asked (.int i), .note (.retrying (.int i) b.waiter.strategy.limit shown)] }
  -- deciding, asking, telling and sleeping, one after the other
  have slept := pause_apply h.signal sleep w₄
  refine ⟨⟨(b.sleep d w₄.caller).2, w₄.history ++ [Event.slept d]⟩,
    es ++ [Event.asked (.int i), .note (.retrying (.int i) b.waiter.strategy.limit shown)] ++
      es' ++ [Event.slept d], ?_, ?_, ?_⟩
  · rw [round_apply opened polled evaluated told]
    simp only [Transition.next, close, Act.bind_apply, slept]
    rfl
  · show w₄.history ++ [Event.slept d] = _
    rw [hes', hes]
    simp
  · simp only [stepsOf_append, steps, quiet]
    rfl

end Steady

/-! ## The whole run -/

variable (b) (o) in
/-- By its verdict or by the limit, an attempt ends the run. -/
def EndsAt (w : World σ) (i : Nat) : Prop :=
  1 ≤ i ∧ (endsWait (b.verdictAt w i) (o i) = true ∨ i = b.waiter.strategy.limit)

/-- The steps of an attempt with a delay behind it. -/
def stepsAt (delay : Nat → Number) (i : Nat) : List Event :=
  [.polled i, .asked (.int i), .slept (delay i)]

/-- While no attempt comes to a conclusion, a run is what its rounds leave of it. -/
theorem run_eq_rounds {w : World σ} {n : Nat} (le : n ≤ b.waiter.strategy.limit)
    (goesOn : ∀ i, 1 ≤ i → i ≤ n → (b.round (b.startTime w) i (b.after w (i - 1))).1 = .ok none) :
    b.run w =
      b.rounds (b.startTime w) (b.waiter.strategy.limit - n) (n + 1) (b.after w n) := by
  induction n with
  | zero => rfl
  | succ n ih =>
    -- by induction the first rounds are over, and the next one is taken off those that are left
    rw [ih (by omega) fun i hi hn => goesOn i hi (by omega)]
    obtain ⟨left, hleft⟩ : ∃ left, b.waiter.strategy.limit - n = left + 1 :=
      ⟨b.waiter.strategy.limit - (n + 1), by omega⟩
    have round : b.round (b.startTime w) (n + 1) (b.after w n) = (.ok none, b.after w (n + 1)) :=
      Prod.ext (goesOn (n + 1) (by omega) (le_refl _)) rfl
    rw [hleft, rounds, Act.bind_apply, round]
    show b.rounds _ left (n + 1 + 1) _ = _
    rw [show b.waiter.strategy.limit - (n + 1) = left by omega]

/-- The answer of the decider on an attempt of a steady run. -/
theorem Steady.verdictAt_ok (h : b.Steady o) (w : World σ) (i : Nat) :
    (b.deciding i (b.after w (i - 1))).1 = .ok (b.verdictAt w i) := by
  obtain ⟨w₁, w₂, v, w₃, es, opened, polled, judged, -, -⟩ := h.deciding_ok i (b.after w (i - 1))
  rw [verdictAt, deciding_eq opened polled judged]

/-- The rounds before an attempt that ends the run make their steps one after another. -/
theorem Steady.after_steps (h : b.Steady o) {w : World σ} {delay : Nat → Number} {n : Nat}
    (goesOn : ∀ i, 1 ≤ i → i ≤ n → ¬ b.EndsAt o w i)
    (left : n < b.waiter.strategy.limit)
    (delays : ∀ i, 1 ≤ i → i ≤ n → b.delayAt w i = .ok (.number (delay i)) ∧
      (delay i).lt (.int 0) = false ∧ (delay i).toReal?.isSome = true ∧ (b.sleep (delay i)).Returns) :
    (∀ i, 1 ≤ i → i ≤ n → (b.round (b.startTime w) i (b.after w (i - 1))).1 = .ok none) ∧
    ∃ es, (b.after w n).history = w.history ++ es ∧
      stepsOf es = (List.range n).flatMap fun i => stepsAt delay (i + 1) := by
  induction n with
  | zero => exact ⟨by omega, [], by simp [after], rfl⟩
  | succ n ih =>
    obtain ⟨rounds, es, hes, steps⟩ := ih (fun i hi hn => goesOn i hi (by omega)) (by omega)
      fun i hi hn => delays i hi (by omega)
    obtain ⟨asked, nonneg, real, sleep⟩ := delays (n + 1) (by omega) (le_refl _)
    -- neither its verdict nor the limit ends the run at this attempt
    have stays : endsWait (b.verdictAt w (n + 1)) (o (n + 1)) = false := by
      have here := goesOn (n + 1) (by omega) (le_refl _)
      simp only [EndsAt, not_and, not_or] at here
      simpa using (here (by omega)).1
    obtain ⟨w', es', round, hes', steps'⟩ := h.round_retries (b.clock w.caller.state)
      (h.verdictAt_ok w (n + 1)) stays left asked nonneg real sleep
    have next : b.after w (n + 1) = w' := congrArg Prod.snd round
    refine ⟨?_, es ++ es', ?_, ?_⟩
    · intro i hi hn
      -- either the round just made or one of those before it
      rcases Nat.lt_or_ge n i with here | before
      · obtain rfl : i = n + 1 := by omega
        exact congrArg Prod.fst round
      · exact rounds i hi before
    · rw [next, hes', Nat.add_sub_cancel, hes, List.append_assoc]
    · rw [stepsOf_append, steps, steps', List.range_succ, List.flatMap_append]
      rfl

/-- A steady run ends at the first attempt that ends it, with the conclusion that the verdict on its
outcome gives. Before that it polls, asks the backoff and sleeps the delay, attempt by attempt, if each of
these delays can be slept. -/
theorem run_steps (h : b.Steady o) (w : World σ) {k : Nat} (last : IsLeast {i | b.EndsAt o w i} k)
    (delay : Nat → Number) (delays : ∀ i, 1 ≤ i → i < k → b.delayAt w i = .ok (.number (delay i)) ∧
      (delay i).lt (.int 0) = false ∧ (delay i).toReal?.isSome = true ∧ (b.sleep (delay i)).Returns) :
    ∃ w' es,
      b.run w = (.ok (conclusionAt b.waiter.strategy.limit k (o k) (b.verdictAt w k)), w') ∧
      w'.history = w.history ++ es ∧
      stepsOf es = ((List.range (k - 1)).flatMap fun i => stepsAt delay (i + 1)) ++ [.polled k] := by
  obtain ⟨⟨first, ends⟩, least⟩ := last
  obtain ⟨n, rfl⟩ : ∃ n, k = n + 1 := ⟨k - 1, by omega⟩
  have goesOn : ∀ i, 1 ≤ i → i ≤ n → ¬ b.EndsAt o w i := by
    intro i _ hn hi
    have := least hi
    omega
  -- otherwise the limit itself would be an earlier end
  have left : n < b.waiter.strategy.limit := by
    have := least ⟨b.waiter.strategy.limit_pos, .inr rfl⟩
    omega
  -- the rounds before the last one, and then the last one
  obtain ⟨rounds, es, hes, steps⟩ := h.after_steps goesOn left fun i hi hn => delays i hi (by omega)
  obtain ⟨w', es', round, hes', steps'⟩ := h.round_ends first (b.clock w.caller.state)
    (h.verdictAt_ok w (n + 1)) (ends.imp_right fun limit => limit.ge)
  obtain ⟨left', hleft⟩ : ∃ left', b.waiter.strategy.limit - n = left' + 1 :=
    ⟨b.waiter.strategy.limit - (n + 1), by omega⟩
  refine ⟨w', es ++ es', ?_, ?_, ?_⟩
  · rw [run_eq_rounds (by omega) rounds, hleft, Blocking.rounds, Act.bind_apply, startTime]
    rw [Nat.add_sub_cancel] at round
    rw [round]
    rfl
  · rw [hes', Nat.add_sub_cancel, hes, List.append_assoc]
  · rw [stepsOf_append, steps, steps', Nat.add_sub_cancel]

end Blocking

/-! ## An example -/

/-- No time at all. -/
def Number.instant : Number := .int 0

/-- Up to three attempts without delay, until a value is true. The scheduler calls back at once. -/
def Waiter.brisk (hooks : Hooks Unit) : Waiter Unit where
  strategy := ⟨3, .custom "" fun _ => pure (.number .instant), by omega⟩
  acceptors := [.onValue .success pure]
  scheduler := some (.custom (fun run _ => do Code.ask (.fire run); return 0) fun _ => pure ())
  hooks := some hooks

/-- Nothing at first, then true. -/
def Outcome.brisk (call : Nat) : Outcome := .returned (if call = 1 then .null else .flag true)

namespace Blocking

/-- A brisk wait whose operation returns nothing at first, then true. -/
def brisk (hooks : Hooks Unit) : Blocking Unit where
  waiter := .brisk hooks
  clock _ := .finite false 0
  sleep _ := pure ()
  operation call := fun c => ((Outcome.brisk call).result, c)

theorem brisk_steady : (brisk {}).Steady Outcome.brisk where
  signal := rfl
  operation _ _ := rfl
  ordinary := by
    intro i e h
    exact nomatch h
  matchers := by
    intro a ha payload c e h
    obtain rfl := List.mem_singleton.1 ha
    exact nomatch h
  hooks := ⟨nofun, nofun, nofun, nofun⟩

/-- The brisk wait succeeds in its second attempt. -/
theorem run_steps_brisk : ∃ w' es,
    (brisk {}).run ⟨⟨(), 0, []⟩, []⟩ =
      (.ok (.success ⟨.returned (.flag true), .int 2⟩), w') ∧
    w'.history = es ∧ stepsOf es = [.polled 1, .asked (.int 1), .slept .instant, .polled 2] := by
  have goesOn : ¬ (brisk {}).EndsAt Outcome.brisk ⟨⟨(), 0, []⟩, []⟩ 1 := by
    rintro ⟨-, ends | limit⟩
    · exact absurd ends (by rw [show verdictAt _ _ 1 = none from rfl]; simp [Outcome.brisk, endsWait])
    · exact absurd limit (by simp [brisk, Waiter.brisk])
  refine run_steps brisk_steady ⟨⟨(), 0, []⟩, []⟩ (k := 2) ⟨⟨by omega, .inl rfl⟩, ?_⟩
    (fun _ => .instant) fun i first last => ⟨?_, rfl, by decide +kernel, nofun⟩
  · intro i ends
    by_contra earlier
    obtain rfl : i = 1 := by
      have := ends.1
      omega
    exact goesOn ends
  · obtain rfl : i = 1 := by omega
    rfl

end Blocking

end Polling
