import Polling.Proofs.Alike
import Polling.Proofs.Rounds
import Polling.Proofs.RunProtocol

/-!
# What a signal does to a blocking run

A signal is looked at in one place only, the pause between two attempts. So a run with a signal and the
run of the same wait without it (`Blocking.deaf`) do the same until a pause begins with the signal set, or
the signal is set while the pause lasts: `Signal.Cuts`.

`Blocking.ComesTo` says that a run comes to the pause behind an attempt. What leads there looks alike in
both runs (`Heedless.comesTo`), provided that code of the caller's other than the signal's takes no heed of
whether the signal is set: `Blocking.Heedless`. From that pause on the run only gives up.

A pause that is not cut short is a sleep, if a wait for the signal and a sleep do the same for its delay:
`Blocking.RestsFor`. They need not, and where they do not, the two runs part (`rests_unlike_sleep`).
-/

namespace Polling

namespace Act

variable {V : Type} {view : σ → V}

theorem alike_outcomeOf {a a' : Act σ α} (h : a.Alike view a') :
    (outcomeOf a).Alike view (outcomeOf a') := by
  intro H w w' mirrors
  obtain ⟨result, mirrors'⟩ := h H w w' mirrors
  exact ⟨congrArg Except.ok result, mirrors'⟩

/-- What acts that look alike come to in worlds that look the same. -/
theorem Alike.results {a a' : Act σ α} (h : a.Alike view a') {H : List Event} {w w' : World σ}
    (mirrors : World.Mirrors view H w w') :
    ∃ r w₁ w₁', a w = (r, w₁) ∧ a' w' = (r, w₁') ∧ World.Mirrors view H w₁ w₁' :=
  ⟨(a w).1, (a w).2, (a' w').2, rfl, Prod.ext (h H w w' mirrors).1.symm rfl, (h H w w' mirrors).2⟩

end Act

/-- A signal cuts a pause short: it is set when the pause is to begin, or the wait for it returns and it is
set by then. -/
def Signal.Cuts (sg : Signal σ) (d : Number) (c : Caller σ) : Prop :=
  sg.isSet c.state = true ∨ ∃ r c', sg.wait d c = (.ok r, c') ∧ sg.isSet c'.state = true

/-- A wait has been interrupted behind an attempt. -/
def Failure.interruption (k : Nat) : Failure := ⟨.interrupted k, .int k, none⟩

namespace Blocking

variable (b : Blocking σ)

/-- The same wait without its signal. -/
def deaf : Blocking σ := { b with signal := none }

/-- An attempt up to the pause behind it: the conclusion that the wait has come to, or the delay after which
it goes on. -/
def attempt (started : Value) (k : Nat) : Act σ (Conclusion ⊕ Number) := do
  b.notifier.opening k b.waiter.strategy.limit
  let o ← b.poll k
  b.notifier.judge b.waiter o k started

theorem round_eq_attempt (started : Value) (k : Nat) :
    b.round started k = b.attempt started k >>= b.close started k := by
  rw [round_eq, attempt]
  simp only [bind_assoc]

/-- From the beginning of an attempt in a world, a run comes to the pause behind attempt `k`, which is to
last for a delay, in the world `w'`. -/
inductive ComesTo (started : Value) (k : Nat) (d : Number) (w' : World σ) : Nat → World σ → Prop where
  | here {w} (attempt : b.attempt started k w = (.ok (.inr d), w')) : ComesTo started k d w' k w
  | later {i w w₁ w₂ d'} (attempt : b.attempt started i w = (.ok (.inr d'), w₁))
      (pause : b.pause d' w₁ = (.ok false, w₂)) (rest : ComesTo started k d w' (i + 1) w₂) :
      ComesTo started k d w' i w

/-! ## Coming to a pause -/

section Attempt

variable {b} {started : Value} {k : Nat} {w w' : World σ}

/-- An attempt calls the operation once. -/
theorem attempt_polls {next : Conclusion ⊕ Number} (h : b.attempt started k w = (.ok next, w')) :
    ∃ es, w'.history = w.history ++ es ∧ es.countP Event.isPolled = 1 := by
  have unpolled : ∀ {es : List Event}, (∀ e ∈ es, e.isPolled = false) → es.countP Event.isPolled = 0 :=
    fun h => List.countP_eq_zero.2 fun e he => by simp [h e he]
  obtain ⟨⟨⟩, w₁, opened, rest⟩ := Act.bind_eq_ok.1 h
  obtain ⟨o, w₂, polled, judged⟩ := Act.bind_eq_ok.1 rest
  obtain ⟨es, opening, none⟩ := Notifier.opening_enters (P := (·.isPolled = false)) (fun _ _ => rfl)
    (fun _ => rfl) b.notifier k b.waiter.strategy.limit w
  obtain ⟨es', judging, none'⟩ := judge_enters (P := (·.isPolled = false)) (fun _ _ => rfl)
    (fun _ => rfl) (fun _ _ => rfl) (fun _ => rfl) b.notifier b.waiter o k started rfl w₂
  have poll := (b.poll_history k w₁).1
  rw [opened] at opening
  rw [polled] at poll
  rw [judged] at judging
  simp only at opening poll judging
  refine ⟨es ++ Event.polled k :: es', by rw [judging, poll, opening]; simp, ?_⟩
  rw [List.countP_append, List.countP_cons, unpolled none, unpolled none']
  rfl

/-- An attempt behind which the wait goes on is not the last one. -/
theorem lt_limit_of_attempt (first : 1 ≤ k) {d : Number} (h : b.attempt started k w = (.ok (.inr d), w')) :
    k < b.waiter.strategy.limit := by
  obtain ⟨⟨⟩, w₁, -, rest⟩ := Act.bind_eq_ok.1 h
  obtain ⟨o, w₂, -, judged⟩ := Act.bind_eq_ok.1 rest
  obtain ⟨t, w₃, evaluated, told⟩ := Act.bind_eq_ok.1 judged
  obtain ⟨⟨⟩, w₄, -, next⟩ := Act.bind_eq_ok.1 told
  obtain rfl := Transition.next_eq_inr (Act.pure_eq_ok.1 next).1
  exact evaluate_suits first (congrArg Prod.fst evaluated)

variable {d : Number} {i : Nat}

/-- Until it comes to a pause, a run has called the operation once for each attempt. -/
theorem ComesTo.polls (h : b.ComesTo started k d w' i w) :
    ∃ es, w'.history = w.history ++ es ∧ es.countP Event.isPolled + i = k + 1 := by
  induction h with
  | here attempt =>
    obtain ⟨es, history, polls⟩ := attempt_polls attempt
    exact ⟨es, history, by rw [polls, Nat.add_comm]⟩
  | @later i w w₁ w₂ d' attempt pause rest ih =>
    obtain ⟨es, history, polls⟩ := attempt_polls attempt
    obtain ⟨es', paused, none⟩ := b.pause_enters (d := d') (P := (·.isPolled = false)) rfl rfl w₁
    obtain ⟨es'', later, polls'⟩ := ih
    rw [pause] at paused
    simp only at paused
    refine ⟨es ++ es' ++ es'', by rw [later, paused, history]; simp, ?_⟩
    have unpolled : es'.countP Event.isPolled = 0 := List.countP_eq_zero.2 fun e he => by simp [none e he]
    rw [List.countP_append, List.countP_append, polls, unpolled]
    omega

/-- What is left of a run when it comes to a pause. -/
theorem ComesTo.rounds (h : b.ComesTo started k d w' i w) (first : 1 ≤ i) {left : Nat}
    (attempts : left + i = b.waiter.strategy.limit + 1) :
    b.rounds started left i w = b.proceed started k (.inr d) w' := by
  induction h generalizing left with
  | here attempt =>
    have limit := lt_limit_of_attempt first attempt
    obtain ⟨left, rfl⟩ : ∃ n, left = n + 1 := ⟨left - 1, by omega⟩
    obtain rfl : left = b.waiter.strategy.limit - k := by omega
    rw [Blocking.rounds, round_eq_attempt, bind_assoc, Act.bind_apply, attempt]
    rfl
  | @later i w w₁ w₂ d' attempt pause rest ih =>
    have limit := lt_limit_of_attempt first attempt
    obtain ⟨left, rfl⟩ : ∃ n, left = n + 1 := ⟨left - 1, by omega⟩
    have next : left + (i + 1) = b.waiter.strategy.limit + 1 := by omega
    rw [← ih (by omega) next, Blocking.rounds, round_eq_attempt, bind_assoc, Act.bind_apply, attempt]
    simp only [close, Act.bind_apply, pause]
    rfl

end Attempt

/-! ## Giving up -/

/-- The notice that a wait has failed in an attempt. -/
def failing (k : Nat) (f : Failure) (elapsed : Value) : Notice :=
  .failure ⟨.int k, .int b.waiter.strategy.limit, some f.fault, elapsed⟩

/-- Giving up is a line of the log and a call of the hook that is told of it, if there is one. If the hook
raises a fault, that is the result. -/
theorem giveUp_apply (t : Binary64) (k : Nat) (f : Failure) (w : World σ) : ∃ elapsed,
    b.giveUp (.real t) k f w =
      (((b.waiter.hooks.getD {}).hear (b.failing k f elapsed) w.caller).1.map fun _ => .failure f,
        ⟨((b.waiter.hooks.getD {}).hear (b.failing k f elapsed) w.caller).2,
          w.history ++ Event.note (.failed k f.reason) ::
            if (b.waiter.hooks.getD {}).hears (b.failing k f elapsed) then
              [.notice (b.failing k f elapsed)] else []⟩) := by
  obtain ⟨elapsed, sub⟩ : ∃ v, (Value.real (b.clock w.caller.state)).sub (.real t) = .ok v := ⟨_, rfl⟩
  refine ⟨elapsed, ?_⟩
  cases hook : (b.waiter.hooks.getD {}).onFailure with
  | none =>
    simp [giveUp, Notifier.failure, notifier, Waiter.notifier, Act.bind_apply, Act.note, Hooks.hear,
      Hooks.hears, failing, hook, Except.map]
  | some hear =>
    simp only [giveUp, Notifier.failure, notifier, Waiter.notifier, Notifier.elapsed, Act.bind_apply,
      Act.note, Act.record_apply, hook, Act.read_apply, sub, Act.lift_ok_apply, Act.call_apply]
    simp only [Hooks.hear, Hooks.hears, failing, hook, Option.map_some, Option.getD_some, Option.isSome_some,
      if_true]
    rcases hear ⟨.int k, .int b.waiter.strategy.limit, some f.fault, elapsed⟩ w.caller with ⟨e | ⟨⟩, c⟩
    · simp [Except.map]
    · simp [Except.map]

/-- A pause that says it was cut short is the last one. -/
theorem proceed_of_pause {started : Value} {k : Nat} {d : Number} {w w₁ : World σ}
    (pause : b.pause d w = (.ok true, w₁)) :
    b.proceed started k (.inr d) w = b.giveUp started k (.interruption k) w₁ := by
  simp only [proceed, close, Act.bind_apply, pause, if_true, Failure.interruption]
  rcases b.giveUp started k ⟨.interrupted k, .int k, none⟩ w₁ with ⟨e | c, w₂⟩ <;> rfl

/-! ## The same wait without its signal -/

/-- Without the signal, a pause is a sleep. -/
theorem deaf_pause (d : Number) (w : World σ) : b.deaf.pause d w =
    ((b.sleep d w.caller).1.map fun _ => false, ⟨(b.sleep d w.caller).2, w.history ++ [Event.slept d]⟩) := by
  simp only [pause, deaf, Act.bind_apply, Act.call_apply]
  rcases b.sleep d w.caller with ⟨e | ⟨⟩, c⟩ <;> rfl

variable {V : Type} {view : σ → V}

/-- Code of the caller's takes no heed of a signal: in a view of the caller's state that need not show whether
the signal is set, all of it does the same with the signal and without it. -/
structure Heedless (view : σ → V) (b : Blocking σ) (sg : Signal σ) : Prop where
  signal : b.signal = some sg
  waiter : b.waiter.Sees view
  operation : ∀ n, (b.operation n).Sees view
  /-- A wait that returns tells whether the signal is set. -/
  tells : ∀ d c r c', sg.wait d c = (.ok r, c') → sg.isSet c'.state = r
  /-- The hook that is told of a failure leaves a signal set. -/
  stays : ∀ hook, (b.waiter.hooks.getD {}).onFailure = some hook → ∀ info c,
    sg.isSet c.state = true → sg.isSet (hook info c).2.state = true

/-- For a delay, a wait for the signal that is not cut short is a sleep: it ends as the sleep does, and a view
shows the same behind it. -/
def RestsFor (view : σ → V) (b : Blocking σ) (sg : Signal σ) (d : Number) : Prop :=
  ∀ c c', view c.state = view c'.state → (sg.wait d c).1 ≠ .ok true →
    ((sg.wait d c).1.map fun _ => ()) = (b.sleep d c').1 ∧
      view (sg.wait d c).2.state = view (b.sleep d c').2.state

/-- From the beginning of an attempt in a world, a run comes to no other pauses than those that are cut short
and those for which a wait for the signal is a sleep. -/
def RestsFrom (view : σ → V) (b : Blocking σ) (sg : Signal σ) (started : Value) (i : Nat)
    (w : World σ) : Prop :=
  ∀ k d w', b.ComesTo started k d w' i w → ¬ sg.Cuts d w'.caller → b.RestsFor view sg d

theorem RestsFrom.later {b : Blocking σ} {sg : Signal σ} {started : Value} {i : Nat}
    {w w₁ w₂ : World σ} {d : Number} (rests : b.RestsFrom view sg started i w)
    (attempt : b.attempt started i w = (.ok (.inr d), w₁)) (pause : b.pause d w₁ = (.ok false, w₂)) :
    b.RestsFrom view sg started (i + 1) w₂ :=
  fun k d w' comes => rests k d w' (.later attempt pause comes)

namespace Heedless

variable {b} {sg : Signal σ} (h : b.Heedless view sg) {t u : Binary64} {w w' : World σ} {d : Number}
include h

theorem poll_alike (k : Nat) : (b.poll k).Alike view (b.poll k) := by
  refine Act.alike_bind (Act.alike_outcomeOf (Act.alike_call rfl (h.operation k))) fun result => ?_
  cases result with
  | ok v => exact Act.alike_pure _
  | error e =>
    dsimp only
    split
    · exact Act.alike_pure _
    · exact Act.alike_fail _

/-- Up to the pause, an attempt does not depend on the signal. -/
theorem attempt_alike (k : Nat) : (b.attempt (.real t) k).Alike view (b.deaf.attempt (.real u) k) := by
  refine Act.alike_bind (Notifier.opening_alike h.waiter _ _ k _) fun _ => ?_
  refine Act.alike_bind (h.poll_alike k) fun o => ?_
  refine Act.alike_bind (evaluate_alike h.waiter o _) fun transition => ?_
  exact Act.alike_bind (Notifier.tell_alike h.waiter o k t u transition) fun _ => Act.alike_pure _

/-- A pause that is cut short says so, and the signal is set behind it. Unless it was set before, the delay
is entered. -/
theorem pause_cut (cut : sg.Cuts d w.caller) : ∃ pause c, b.pause d w = (.ok true, ⟨c, w.history ++ pause⟩) ∧
    sg.isSet c.state = true ∧
    (pause = [] ∧ sg.isSet w.caller.state = true ∧ c = w.caller ∨
      pause = [.watched d] ∧ sg.wait d w.caller = (.ok true, c)) := by
  simp only [pause, h.signal, Act.bind_apply, Act.read_apply]
  cases set : sg.isSet w.caller.state with
  | true => exact ⟨[], w.caller, by simp, set, .inl ⟨rfl, rfl, rfl⟩⟩
  | false =>
    obtain ⟨r, c, waited, after⟩ := cut.resolve_left (by simp [set])
    obtain rfl : r = true := (h.tells d w.caller r c waited).symm.trans after
    exact ⟨[.watched d], c, by simp [Act.call_apply, waited], after, .inr ⟨rfl, waited⟩⟩

/-- A pause that is not cut short is the sleep of the wait without the signal, if the two do the same. -/
theorem pause_uncut (uncut : ¬ sg.Cuts d w.caller) (rests : b.RestsFor view sg d) {H : List Event} {w₀ : World σ}
    (mirrors : World.Mirrors view H w w₀) : ∃ r w₁ w₁', b.pause d w = (r, w₁) ∧
      b.deaf.pause d w₀ = (r, w₁') ∧ r ≠ .ok true ∧ World.Mirrors view H w₁ w₁' := by
  have unset : sg.isSet w.caller.state = false := by
    cases set : sg.isSet w.caller.state with
    | false => rfl
    | true => exact absurd (.inl set) uncut
  have whole : (sg.wait d w.caller).1 ≠ .ok true := fun waited =>
    uncut (.inr ⟨true, _, Prod.ext waited rfl, h.tells d w.caller true _ (Prod.ext waited rfl)⟩)
  obtain ⟨result, sight⟩ := rests w.caller w₀.caller mirrors.view whole
  have waits : b.pause d w =
      ((sg.wait d w.caller).1, ⟨(sg.wait d w.caller).2, w.history ++ [Event.watched d]⟩) := by
    simp [pause, h.signal, Act.bind_apply, unset, Act.call_apply]
  refine ⟨_, _, ⟨(b.sleep d w₀.caller).2, w₀.history ++ [Event.slept d]⟩, waits, ?_, whole, sight, ?_⟩
  · rw [b.deaf_pause, ← result]
    rcases hr : (sg.wait d w.caller).1 with e | _ | _
    · rfl
    · rfl
    · exact absurd hr whole
  · have entry : plainOf [.watched d] = plainOf [.slept d] := rfl
    rw [plainOf_append, plainOf_append, mirrors.history, entry, List.append_assoc]

/-- What leads to a pause looks alike without the signal. -/
theorem comesTo {k i : Nat} (comes : b.ComesTo (.real t) k d w' i w)
    (rests : b.RestsFrom view sg (.real t) i w) {H : List Event} {w₀ : World σ}
    (mirrors : World.Mirrors view H w w₀) :
    ∃ w₀', b.deaf.ComesTo (.real u) k d w₀' i w₀ ∧ World.Mirrors view H w' w₀' := by
  induction comes generalizing w₀ with
  | here attempt =>
    obtain ⟨r, w₁, w₁', attempt', without, mirrors'⟩ :=
      (h.attempt_alike (t := t) (u := u) k).results mirrors
    obtain ⟨rfl, rfl⟩ := Prod.mk.inj (attempt.symm.trans attempt')
    exact ⟨w₁', .here without, mirrors'⟩
  | @later i w w₁ w₂ d' attempt pause rest ih =>
    obtain ⟨r, w₁, w₁', attempt', without, mirrors'⟩ :=
      (h.attempt_alike (t := t) (u := u) i).results mirrors
    obtain ⟨rfl, rfl⟩ := Prod.mk.inj (attempt.symm.trans attempt')
    -- another attempt follows, so this pause was not the one that is cut short
    have uncut : ¬ sg.Cuts d' w₁.caller := by
      intro cut
      obtain ⟨entered, c, paused, -⟩ := h.pause_cut cut
      exact nomatch congrArg Prod.fst (pause.symm.trans paused)
    obtain ⟨r, w₂, w₂', pause', slept, -, mirrors''⟩ :=
      h.pause_uncut uncut (rests i d' w₁ (.here attempt) uncut) mirrors'
    obtain ⟨rfl, rfl⟩ := Prod.mk.inj (pause.symm.trans pause')
    obtain ⟨w₀', comes, last⟩ := ih (rests.later attempt pause) mirrors''
    exact ⟨w₀', .later without slept comes, last⟩

/-- If no pause is cut short, the run is the same without the signal. -/
theorem rounds_alike (left : Nat) {i : Nat} (rests : b.RestsFrom view sg (.real t) i w)
    (uncut : ∀ k d w', b.ComesTo (.real t) k d w' i w → ¬ sg.Cuts d w'.caller) {H : List Event}
    {w₀ : World σ} (mirrors : World.Mirrors view H w w₀) :
    (b.rounds (.real t) left i w).1 = (b.deaf.rounds (.real u) left i w₀).1 ∧
      World.Mirrors view H (b.rounds (.real t) left i w).2 (b.deaf.rounds (.real u) left i w₀).2 := by
  induction left generalizing i w w₀ with
  | zero => exact ⟨rfl, mirrors⟩
  | succ left ih =>
    rw [rounds, rounds, round_eq_attempt, round_eq_attempt, bind_assoc, bind_assoc, Act.bind_apply,
      Act.bind_apply]
    obtain ⟨r, w₁, w₁', attempt, without, mirrors'⟩ :=
      (h.attempt_alike (t := t) (u := u) i).results mirrors
    rw [attempt, without]
    rcases r with e | c | d
    · exact ⟨rfl, mirrors'⟩
    · exact ⟨rfl, mirrors'⟩
    · -- both runs come to the same pause, which nothing cuts short
      have whole := uncut i d w₁ (.here attempt)
      obtain ⟨r, w₂, w₂', pause, slept, unbroken, mirrors''⟩ :=
        h.pause_uncut whole (rests i d w₁ (.here attempt) whole) mirrors'
      simp only [close, Act.bind_apply, pause, slept]
      rcases r with e | _ | _
      · exact ⟨rfl, mirrors''⟩
      · exact ih (rests.later attempt pause) (fun k d w' comes => uncut k d w' (.later attempt pause comes))
          mirrors''
      · exact absurd rfl unbroken

end Heedless

/-- Without the signal, the pause is a sleep, whatever follows. -/
theorem deaf_proceed (started : Value) (k : Nat) (d : Number) (w : World σ) : ∃ after,
    (b.deaf.proceed started k (.inr d) w).2.history = w.history ++ Event.slept d :: after := by
  simp only [proceed, close, Act.bind_apply, b.deaf_pause]
  rcases b.sleep d w.caller with ⟨e | ⟨⟩, c⟩
  · exact ⟨[], rfl⟩
  · obtain ⟨after, history, -⟩ := b.deaf.rounds_enters (P := fun _ => True) (fun _ _ => trivial) trivial started
      (b.waiter.strategy.limit - k) (k + 1) ⟨c, w.history ++ [Event.slept d]⟩
    exact ⟨after, history.trans (List.append_assoc ..)⟩

/-- A run that has come from one world to the pause behind attempt `k` in another is cut short there. Its
entries are those before the pause, those of the pause, and what is entered when the run gives up, telling
the hook of failures in a state of the caller's. They are compared with the entries of another run. -/
structure CutShort (sg : Signal σ) (k : Nat) (d : Number) (w w' : World σ) (es es₀ before pause : List Event)
    (c : Caller σ) (n : Notice) : Prop where
  comes : w'.history = w.history ++ before
  /-- The other run makes the same calls and spends the same delays, and then the delay of this pause. -/
  calls : plainOf before ++ [.scheduled d] <+: plainOf es₀
  /-- The signal is set when the pause is to begin, or the wait for it tells so. -/
  pauses : pause = [] ∧ sg.isSet w'.caller.state = true ∧ c = w'.caller ∨
    pause = [.watched d] ∧ sg.wait d w'.caller = (.ok true, c)
  notice : ∃ elapsed, n = b.failing k (.interruption k) elapsed
  entries : es = before ++ pause ++ .note (.failed k (.interrupted k)) ::
    if (b.waiter.hooks.getD {}).hears n then [.notice n] else []
  result : (b.run w).1 = ((b.waiter.hooks.getD {}).hear n c).1.map fun _ => .failure (.interruption k)
  polls : es.countP Event.isPolled = k
  isSet : sg.isSet (b.run w).2.caller.state = true

namespace Heedless

variable {b} {sg : Signal σ}

/-- The hook that is told of a failure leaves a signal set, if there is one. -/
theorem isSet_hear (h : b.Heedless view sg) (k : Nat) (f : Failure) (elapsed : Value) {c : Caller σ}
    (set : sg.isSet c.state = true) :
    sg.isSet ((b.waiter.hooks.getD {}).hear (b.failing k f elapsed) c).2.state = true := by
  simp only [Hooks.hear, failing]
  cases hook : (b.waiter.hooks.getD {}).onFailure with
  | none => exact set
  | some hear => exact h.stays hear hook _ c set

/-- Without the signal the run makes the same calls up to the pause, and then sleeps. -/
theorem calls_prefix (h : b.Heedless view sg) {w w₀ w' : World σ} {k : Nat} {d : Number}
    (rests : b.RestsFrom view sg (b.startTime w) 1 w) {before es₀ : List Event} (mirrors : World.Mirrors view [] w w₀)
    (entries₀ : (b.deaf.run w₀).2.history = w₀.history ++ es₀)
    (comes : b.ComesTo (b.startTime w) k d w' 1 w) (history : w'.history = w.history ++ before) :
    plainOf before ++ [Event.scheduled d] <+: plainOf es₀ := by
  obtain ⟨w₀', comes₀, mirrors'⟩ := h.comesTo (u := b.clock w₀.caller.state) comes rests mirrors
  obtain ⟨after, slept⟩ := b.deaf_proceed (.real (b.clock w₀.caller.state)) k d w₀'
  have run₀ : b.deaf.run w₀ = b.deaf.proceed (.real (b.clock w₀.caller.state)) k (.inr d) w₀' :=
    comes₀.rounds (Nat.le_refl 1) rfl
  have shared : plainOf w₀'.history = plainOf w₀.history ++ plainOf before := by
    have start : plainOf w₀.history = plainOf w.history := mirrors.history
    rw [mirrors'.history, history, plainOf_append, start]
    rfl
  rw [run₀, slept] at entries₀
  have plain := congrArg plainOf entries₀
  rw [plainOf_append, plainOf_append, shared, List.append_assoc, List.append_right_inj] at plain
  rw [← plain]
  exact ⟨plainOf after, by simp [plainOf, Event.plain?]⟩

/-- A pause that is cut short ends the run: it gives up, with the signal set. -/
theorem run_of_cut (h : b.Heedless view sg) {w w' : World σ} {k : Nat} {d : Number}
    (comes : b.ComesTo (b.startTime w) k d w' 1 w) (cut : sg.Cuts d w'.caller) :
    ∃ pause c, b.run w = b.giveUp (b.startTime w) k (.interruption k) ⟨c, w'.history ++ pause⟩ ∧
      sg.isSet c.state = true ∧
      (pause = [] ∧ sg.isSet w'.caller.state = true ∧ c = w'.caller ∨
        pause = [.watched d] ∧ sg.wait d w'.caller = (.ok true, c)) := by
  obtain ⟨pause, c, paused, set, pauses⟩ := h.pause_cut cut
  exact ⟨pause, c, (comes.rounds (Nat.le_refl 1) rfl).trans (b.proceed_of_pause paused), set, pauses⟩

/-- The signal is set when such a run has ended. -/
theorem isSet_of_cut (h : b.Heedless view sg) {w w' : World σ} {k : Nat} {d : Number}
    (comes : b.ComesTo (b.startTime w) k d w' 1 w) (cut : sg.Cuts d w'.caller) :
    sg.isSet (b.run w).2.caller.state = true := by
  obtain ⟨pause, c, run, set, -⟩ := h.run_of_cut comes cut
  obtain ⟨elapsed, gives⟩ := b.giveUp_apply (b.clock w.caller.state) k (.interruption k)
    ⟨c, w'.history ++ pause⟩
  rw [run, show b.startTime w = .real (b.clock w.caller.state) from rfl, gives]
  exact h.isSet_hear k _ elapsed set

/-- Such a run has made the calls of the run without the signal until it gave up. -/
theorem cutShort (h : b.Heedless view sg) {w w₀ w' : World σ} {k : Nat} {d : Number} {es es₀ : List Event}
    (rests : b.RestsFrom view sg (b.startTime w) 1 w) (mirrors : World.Mirrors view [] w w₀)
    (entries : (b.run w).2.history = w.history ++ es)
    (entries₀ : (b.deaf.run w₀).2.history = w₀.history ++ es₀)
    (comes : b.ComesTo (b.startTime w) k d w' 1 w) (cut : sg.Cuts d w'.caller) :
    ∃ before pause c n, b.CutShort sg k d w w' es es₀ before pause c n := by
  obtain ⟨before, history, polls⟩ := comes.polls
  obtain ⟨pause, c, giveUp, set, pauses⟩ := h.run_of_cut comes cut
  obtain ⟨elapsed, gives⟩ := b.giveUp_apply (b.clock w.caller.state) k (.interruption k)
    ⟨c, w'.history ++ pause⟩
  -- up to the pause, the pause itself, and giving up
  have run : b.run w = _ := giveUp.trans gives
  have split : es = before ++ pause ++ Event.note (.failed k (.interrupted k)) ::
      if (b.waiter.hooks.getD {}).hears (b.failing k (.interruption k) elapsed) then
        [.notice (b.failing k (.interruption k) elapsed)] else [] := by
    rw [run, history] at entries
    refine List.append_cancel_left (entries.symm.trans ?_)
    simp [Failure.interruption]
  refine ⟨before, pause, c, _, history, h.calls_prefix rests mirrors entries₀ comes history, pauses,
    ⟨elapsed, rfl⟩, split, by rw [run], ?_, h.isSet_of_cut comes cut⟩
  have unpolled : pause.countP Event.isPolled = 0 := by
    rcases pauses with ⟨rfl, -⟩ | ⟨rfl, -⟩ <;> rfl
  have silent : (if (b.waiter.hooks.getD {}).hears (b.failing k (.interruption k) elapsed) then
      [Event.notice (b.failing k (.interruption k) elapsed)] else []).countP Event.isPolled = 0 := by
    split <;> rfl
  rw [split, List.countP_append, List.countP_append, List.countP_cons, unpolled, silent]
  simp only [Event.isPolled, Bool.false_eq_true, if_false]
  omega

/-- A signal cuts a blocking run short at the next pause and changes nothing else.

The run is compared with the run of the same wait without the signal, from worlds that look the same. Its
pauses last for delays that a wait for the signal and a sleep treat alike, unless they are cut short. If a
pause to which the run comes is cut short, both runs make the same calls up to that pause. Behind it the run
makes no calls but that of the hook that is told of the interruption, which is the result unless the hook
raises a fault. The operation has been called once for each attempt, and the signal is still set. If no pause
is cut short, both runs make the same calls with the same delays and have the same result. -/
theorem cut_at_next_pause (h : b.Heedless view sg) (w w₀ : World σ)
    (sight : view w.caller.state = view w₀.caller.state) (same : w₀.history = w.history)
    (rests : b.RestsFrom view sg (b.startTime w) 1 w) :
    ∃ es es₀, (b.run w).2.history = w.history ++ es ∧ (b.deaf.run w₀).2.history = w₀.history ++ es₀ ∧
      (∀ k d w', b.ComesTo (b.startTime w) k d w' 1 w → sg.Cuts d w'.caller →
        ∃ before pause c n, b.CutShort sg k d w w' es es₀ before pause c n) ∧
      ((∀ k d w', b.ComesTo (b.startTime w) k d w' 1 w → ¬ sg.Cuts d w'.caller) →
        (b.run w).1 = (b.deaf.run w₀).1 ∧ plainOf es = plainOf es₀) := by
  have mirrors : World.Mirrors view [] w w₀ := ⟨sight, congrArg plainOf same⟩
  obtain ⟨es, entries, -⟩ := b.rounds_enters (P := fun _ => True) (fun _ _ => trivial) trivial (b.startTime w)
    b.waiter.strategy.limit 1 w
  obtain ⟨es₀, entries₀, -⟩ := b.deaf.rounds_enters (P := fun _ => True) (fun _ _ => trivial) trivial
    (b.deaf.startTime w₀) b.waiter.strategy.limit 1 w₀
  refine ⟨es, es₀, entries, entries₀, ?_, ?_⟩
  · exact fun k d w' comes cut => h.cutShort rests mirrors entries entries₀ comes cut
  · intro uncut
    obtain ⟨result, mirrors'⟩ := h.rounds_alike (u := b.clock w₀.caller.state) b.waiter.strategy.limit rests
      uncut mirrors
    refine ⟨result, ?_⟩
    have plain : plainOf (b.deaf.run w₀).2.history = plainOf (b.run w).2.history := mirrors'.history
    have start : plainOf w₀.history = plainOf w.history := mirrors.history
    rw [show (b.run w).2.history = w.history ++ es from entries,
      show (b.deaf.run w₀).2.history = w₀.history ++ es₀ from entries₀, plainOf_append, plainOf_append, start,
      List.append_right_inj] at plain
    exact plain.symm

end Heedless

/-! ## Waits on a flag -/

/-- A flag of the caller's as a signal. A wait for it tells at once whether it is set. -/
def flag : Signal Bool := ⟨id, fun _ => Code.read id⟩

theorem flag_isSet (set : Bool) : flag.isSet set = set := rfl

theorem flag_tells (d : Number) (c : Caller Bool) (r : Bool) (c' : Caller Bool)
    (waited : flag.wait d c = (.ok r, c')) : flag.isSet c'.state = r := by
  obtain ⟨result, rfl⟩ := Prod.mk.inj waited
  exact Except.ok.inj result

/-- A wait on a flag of the caller's, with up to six attempts that never succeed. The hook that is told of
the second retry sets the flag. -/
def flagging : Blocking Bool where
  waiter := {
    strategy := ⟨6, .custom "" fun _ => pure (.number .instant), by omega⟩
    hooks := some {
      onRetry := some fun info => Code.change fun set => set || info.attempt.equals (.int 2)
      onFailure := some fun _ => pure () } }
  clock _ := .finite false 0
  sleep _ := pure ()
  signal := some flag
  operation _ := pure .null

/-- None of it looks at the flag. -/
theorem flagging_heedless : flagging.Heedless (fun _ => ()) flag where
  signal := rfl
  waiter := {
    matcher := nofun
    backoff := fun _ _ _ _ => ⟨rfl, rfl⟩
    onAttempt := nofun
    onRetry := by
      intro hook hears info c c' sight
      obtain rfl := Option.some.inj hears
      exact ⟨rfl, rfl⟩
    onSuccess := nofun
    onFailure := by
      intro hook hears info t c c' sight
      obtain rfl := Option.some.inj hears
      exact ⟨rfl, rfl⟩ }
  operation _ _ _ _ := ⟨rfl, rfl⟩
  tells := flag_tells
  stays hook hears info c set := by
    obtain rfl := Option.some.inj hears
    exact set

theorem flagging_rests (started : Value) (i : Nat) (w : World Bool) :
    flagging.RestsFrom (fun _ => ()) flag started i w :=
  fun _ _ _ _ _ _ _ _ _ => ⟨rfl, rfl⟩

/-- Without the flag the attempts are exhausted. With it the second pause is cut short. -/
theorem cut_at_next_pause_flagging :
    (flagging.run ⟨⟨false, 0, []⟩, []⟩).1 = .ok (.failure (.interruption 2)) ∧
    (flagging.run ⟨⟨false, 0, []⟩, []⟩).2.history.countP Event.isPolled = 2 ∧
    (flagging.run ⟨⟨false, 0, []⟩, []⟩).2.caller.state = true := by
  obtain ⟨es, es₀, history, -, cuts, uncut⟩ := flagging_heedless.cut_at_next_pause
    ⟨⟨false, 0, []⟩, []⟩ ⟨⟨false, 0, []⟩, []⟩ rfl rfl (flagging_rests _ _ _)
  have polls : (flagging.run ⟨⟨false, 0, []⟩, []⟩).2.history.countP Event.isPolled = 2 := by decide +kernel
  by_cases cut : ∃ k d w', flagging.ComesTo (flagging.startTime ⟨⟨false, 0, []⟩, []⟩) k d w' 1
      ⟨⟨false, 0, []⟩, []⟩ ∧ flag.Cuts d w'.caller
  · obtain ⟨k, d, w', comes, cut⟩ := cut
    obtain ⟨before, pause, c, n, short⟩ := cuts k d w' comes cut
    obtain ⟨elapsed, rfl⟩ := short.notice
    have attempts := short.polls
    rw [history, List.nil_append] at polls
    obtain rfl : k = 2 := attempts.symm.trans polls
    refine ⟨?_, ?_, (flag_isSet _).symm.trans short.isSet⟩
    · rw [short.result]
      rfl
    · rw [history, List.nil_append]
      exact polls
  · obtain ⟨same, -⟩ := uncut fun k d w' comes set => cut ⟨k, d, w', comes, set⟩
    -- the results differ, so there is a pause that is cut short
    have second : (flagging.run ⟨⟨false, 0, []⟩, []⟩).1.toOption.any (·.attempts.equals (.int 2)) = true := by
      decide +kernel
    have third : (flagging.deaf.run ⟨⟨false, 0, []⟩, []⟩).1.toOption.any (·.attempts.equals (.int 2)) = false := by
      decide +kernel
    rw [same, third] at second
    cases second

/-- What is not a number is not below zero, so it is accepted as a constant delay. -/
theorem nan_accepted : (Number.real .nan).lt (.int 0) = false := rfl

/-- A wait on a flag that nobody sets, with two attempts that do not succeed and a delay between them that is
not a number. A sleep refuses such a delay. -/
def dozing : Blocking Bool where
  waiter := { strategy := ⟨2, .constant ⟨.real .nan, nan_accepted⟩, Nat.two_pos⟩ }
  clock _ := .finite false 0
  sleep
    | .real .nan => throw (.withText .value "Invalid value NaN (not a number)")
    | _ => pure ()
  signal := some flag
  operation _ := pure .null

theorem dozing_heedless : dozing.Heedless (fun _ => ()) flag where
  signal := rfl
  waiter := {
    matcher := nofun
    backoff := fun _ _ _ _ => ⟨rfl, rfl⟩
    onAttempt := nofun
    onRetry := nofun
    onSuccess := nofun
    onFailure := nofun }
  operation _ _ _ _ := ⟨rfl, rfl⟩
  tells := flag_tells
  stays := nofun

/-- A wait for the signal and a sleep have to agree on a delay. Here they do for all delays that are numbers,
and no pause is cut short; but the attempts are exhausted with the flag, and without it the sleep raises a
fault. -/
theorem rests_unlike_sleep :
    dozing.Heedless (fun _ => ()) flag ∧
    (∀ d, d ≠ .real .nan → dozing.RestsFor (fun _ => ()) flag d) ∧
    (∀ k d w', dozing.ComesTo (dozing.startTime ⟨⟨false, 0, []⟩, []⟩) k d w' 1 ⟨⟨false, 0, []⟩, []⟩ →
      ¬ flag.Cuts d w'.caller) ∧
    (dozing.run ⟨⟨false, 0, []⟩, []⟩).1 = .ok (.failure ⟨.exhausted 2, .int 2, none⟩) ∧
    (dozing.deaf.run ⟨⟨false, 0, []⟩, []⟩).1 =
      .error (.withText .value "Invalid value NaN (not a number)") := by
  refine ⟨dozing_heedless, ?_, ?_, ?_, ?_⟩
  · intro d number c c' _ _
    have slept : dozing.sleep d = pure () := by
      unfold dozing
      dsimp only
      split
      · exact absurd rfl number
      · rfl
    rw [slept]
    exact ⟨rfl, rfl⟩
  · -- the flag would be set when the run has ended
    intro k d w' comes cut
    have set := dozing_heedless.isSet_of_cut comes cut
    exact absurd set (by decide +kernel)
  · rfl
  · rfl

end Blocking

end Polling
