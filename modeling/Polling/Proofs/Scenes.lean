import Mathlib.Data.List.Induction
import Polling.Proofs.Frozen
import Polling.Proofs.Strands

/-!
# A blocking run alone

`Blocking.alone` runs a blocking wait by itself. Its waiter is frozen, and a script says, attempt by
attempt, what the run meets outside the library, which is a `Scene`. The only state is the number of the
attempt.

`Act.Plays` relates an act to an act of the run alone, from a world on, and `Act.Staged` says that there is
a scene with which they are so related. Both are closed under sequencing. Every step of a run has its scene
(`Blocking.round_staged`, `Blocking.advance_alone`). So whatever happens between the turns of a run, in all
its turns it does what it does alone (`Weave.strands_alone`), and so does a whole run, wherever it is made
and whatever else its operation does (`Blocking.run_alone`).
-/

namespace Polling

/-- What an attempt meets: what the operation comes to, what the clock shows when the wait ends, whether the
signal is set when a sleep is to begin, and what the sleep comes to without a signal and with one. -/
structure Scene where
  outcome : Except Fault Value
  now : Binary64 := .finite false 0
  isSet : Bool := false
  slept : Except Fault Unit := .ok ()
  watched : Except Fault Bool := .ok false

/-- The run of a blocking wait alone. The state is the number of the attempt. -/
def Blocking.alone (b : Blocking σ) (k : Caller σ) (script : Nat → Scene) : Blocking Nat where
  waiter := b.waiter.frozen k none
  clock n := (script n).now
  sleep _ := fun c => ((script c.state).slept, c)
  signal := b.signal.map fun _ =>
    { isSet := fun n => (script n).isSet, wait := fun _ c => ((script c.state).watched, c) }
  operation n := fun c => ((script n).outcome, { c with state := n })

/-! ## Acts -/

namespace Act

/-- An act alone comes to what an act comes to from a world on, given what is known of the number of the
attempt, before and after. -/
def Plays (P Q : Nat → Prop) (w : World σ) (a : Act σ α) (a' : Act Nat α) : Prop :=
  ∀ w', w'.history = w.history → P w'.caller.state →
    (a' w').1 = (a w).1 ∧ (a' w').2.history = (a w).2.history ∧
      ∀ x, (a w).1 = .ok x → Q (a' w').2.caller.state

/-- There is a scene for an attempt, given the outcome in it, with which an act alone comes to what an act
comes to. -/
def Staged (n : Nat) (outcome : Except Fault Value) (P Q : Nat → Prop) (w : World σ) (a : Act σ α)
    (a' : (Nat → Scene) → Act Nat α) : Prop :=
  ∃ scene : Scene, scene.outcome = outcome ∧ ∀ script, script n = scene → Plays P Q w a (a' script)

variable {P Q R : Nat → Prop} {n : Nat} {w : World σ} {outcome : Except Fault Value}

theorem FreezesTo.plays {a : Act σ α} {a' : Act Nat α} (h : a.FreezesTo a') (w : World σ) :
    Plays P P w a a' := by
  intro w' history state
  obtain ⟨es, result, entered, -, -, frozen⟩ := h w w'
  refine ⟨result.symm, ?_, fun _ _ => ?_⟩
  · rw [frozen, entered, history]
  · rw [frozen]
    exact state

theorem plays_pure (x : α) : Plays P P w (pure x) (pure x) := (freezes_pure x).plays w

theorem plays_bind {a : Act σ α} {a' : Act Nat α} {f : α → Act σ β} {f' : α → Act Nat β}
    (ha : Plays P Q w a a') (hf : ∀ x w₁, a w = (.ok x, w₁) → Plays Q R w₁ (f x) (f' x)) :
    Plays P R w (a >>= f) (a' >>= f') := by
  intro w' history state
  obtain ⟨result, history', state'⟩ := ha w' history state
  rw [bind_apply, bind_apply]
  rcases hw : a w with ⟨e | x, w₁⟩ <;> rcases hw' : a' w' with ⟨e' | x', w₁'⟩ <;>
    rw [hw, hw'] at result history' <;> rw [hw, hw'] at state'
  · exact ⟨congrArg Except.error (Except.error.inj result), history', fun _ ok => nomatch ok⟩
  · exact nomatch result
  · exact nomatch result
  · obtain rfl := Except.ok.inj result
    exact hf x' w₁ hw w₁' history' (state' x' rfl)

/-- Code of the run alone that comes to the same. -/
theorem plays_call (e : Event) {c : Code σ α} {c' : Code Nat α}
    (same : ∀ k : Caller Nat, k.state = n → c' k = ((c w.caller).1, k)) :
    Plays (· = n) (· = n) w (call e c) (call e c') := by
  intro w' history state
  simp [call_apply, same w'.caller state, history, state]

theorem staged_bind {a : Act σ α} {a' : (Nat → Scene) → Act Nat α} {f : α → Act σ β}
    {f' : (Nat → Scene) → α → Act Nat β}
    (ha : ∀ script, (script n).outcome = outcome → Plays P Q w a (a' script))
    (hf : ∀ x w₁, a w = (.ok x, w₁) → Staged n outcome Q R w₁ (f x) fun script => f' script x) :
    Staged n outcome P R w (a >>= f) fun script => a' script >>= f' script := by
  rcases hw : a w with ⟨e | x, w₁⟩
  · refine ⟨{ outcome }, rfl, fun script scene => plays_bind (ha script (by rw [scene])) ?_⟩
    intro x w₁' ok
    exact nomatch hw.symm.trans ok
  · obtain ⟨scene, given, plays⟩ := hf x w₁ hw
    refine ⟨scene, given, fun script met => plays_bind (ha script (by rw [met, given])) ?_⟩
    intro x' w₁' ok
    obtain ⟨same, rfl⟩ := Prod.mk.inj (hw.symm.trans ok)
    obtain rfl := Except.ok.inj same
    exact plays script met

end Act

namespace Blocking

/-- While it tells of a transition, a notifier reads the clock in the state that it finds. -/
theorem tell_still (w : Waiter σ) (clock : σ → Value) (o : Outcome) (attempt : Nat) (started : Value)
    (t : Transition) (v : World σ) :
    (w.notifier clock).tell o attempt started t v =
      (w.notifier fun _ => clock v.caller.state).tell o attempt started t v := by
  cases t with
  | succeed r =>
    simp only [Notifier.tell, Notifier.success, Waiter.notifier]
    cases (w.hooks.getD {}).onSuccess <;> rfl
  | fail f =>
    simp only [Notifier.tell, Notifier.failure, Waiter.notifier]
    cases (w.hooks.getD {}).onFailure <;> rfl
  | retry d => rfl

variable {b : Blocking σ} {k : Caller σ} {script : Nat → Scene} {n : Nat} {w : World σ}

/-- A sleep of the run alone comes to what the scene says. -/
theorem pause_plays {d : Number} (slept : (script n).slept = (b.sleep d w.caller).1)
    (signalled : ∀ signal, b.signal = some signal → (script n).isSet = signal.isSet w.caller.state ∧
      (script n).watched = (signal.wait d w.caller).1) :
    Act.Plays (· = n) (· = n) w (b.pause d) ((b.alone k script).pause d) := by
  cases hs : b.signal with
  | none =>
    simp only [pause, alone, hs, Option.map_none]
    refine Act.plays_bind (Act.plays_call _ ?_) fun _ _ _ => Act.plays_pure _
    rintro k' rfl
    rw [slept]
  | some signal =>
    obtain ⟨isSet, watched⟩ := signalled signal hs
    simp only [pause, alone, hs, Option.map_some]
    intro w' history state
    simp only [Act.bind_apply, Act.read_apply, state, isSet]
    cases signal.isSet w.caller.state with
    | true => exact ⟨rfl, history, fun _ _ => state⟩
    | false => exact Act.plays_call _ (by rintro k' rfl; rw [watched]) w' history state

/-- A poll of the run alone comes to the outcome in the scene, and it leads to the next state. -/
theorem poll_plays (outcome : (script n).outcome = (b.operation n w.caller).1) :
    Act.Plays (fun _ => True) (· = n) w (b.poll n) ((b.alone k script).poll n) := by
  intro w' history state
  simp only [poll, Act.bind_apply, Act.outcomeOf_apply, Act.call_apply, alone, outcome, history]
  rcases (b.operation n w.caller).1 with e | v
  · cases ordinary : e.isOrdinary <;> simp [ordinary]
  · simp

variable (functional : b.waiter.IsFunctional)
include functional

/-- If the clocks show the same, telling of a transition comes to the same. -/
theorem tell_plays (clock : (script n).now = b.clock w.caller.state) (o : Outcome) (attempt : Nat)
    (started : Value) (t : Transition) : Act.Plays (· = n) (· = n) w (b.notifier.tell o attempt started t)
      ((b.alone k script).notifier.tell o attempt started t) := by
  intro w' history state
  have here : b.notifier.tell o attempt started t w =
      (b.waiter.notifier fun _ => .real (b.clock w.caller.state)).tell o attempt started t w :=
    tell_still ..
  have there : (b.alone k script).notifier.tell o attempt started t w' =
      ((b.waiter.frozen k none).notifier fun _ => .real (b.clock w.caller.state)).tell o attempt started
        t w' := by
    rw [← clock, ← state]
    exact tell_still ..
  rw [here, there]
  exact (Notifier.tell_freezes functional _ o attempt started t).plays (P := (· = n)) w w' history state

/-- Telling of a retry does not need the clock. -/
theorem tell_retry_plays (o : Outcome) (attempt : Nat) (started : Value) (d : Number) :
    Act.Plays (· = n) (· = n) w (b.notifier.tell o attempt started (.retry d))
      ((b.alone k script).notifier.tell o attempt started (.retry d)) :=
  (Notifier.tell_freezes (k := k) functional (s := none) .null o attempt started
    (.retry d)).plays w

theorem giveUp_plays (clock : (script n).now = b.clock w.caller.state) (started : Value) (attempt : Nat)
    (f : Failure) :
    Act.Plays (· = n) (· = n) w (b.giveUp started attempt f) ((b.alone k script).giveUp started attempt f) := by
  have told : ∀ {ρ : Type} (b : Blocking ρ), b.giveUp started attempt f = (do
      b.notifier.tell (.returned .null) attempt started (.fail f)
      return .failure f) := by
    intro ρ b
    simp [giveUp, Notifier.tell]
  rw [told, told]
  exact Act.plays_bind (tell_plays functional clock _ _ _ _) fun _ _ _ => Act.plays_pure _

/-! ## An attempt -/

variable {outcome : Except Fault Value}

theorem close_staged (started : Value) (d : Number) (w : World σ) :
    Act.Staged n outcome (· = n) (· = n) w (b.close started n (.inr d)) fun script =>
      (b.alone k script).close started n (.inr d) := by
  refine ⟨{ outcome
            now := b.clock (b.pause d w).2.caller.state
            isSet := b.signal.any fun signal => signal.isSet w.caller.state
            slept := (b.sleep d w.caller).1
            watched := b.signal.elim (.ok false) fun signal => (signal.wait d w.caller).1 }, rfl, ?_⟩
  intro script scene
  refine Act.plays_bind (pause_plays (by rw [scene]) fun signal hs => by simp [scene, hs]) ?_
  intro stopped w₁ paused
  cases stopped with
  | true =>
    have clock : (script n).now = b.clock w₁.caller.state := by rw [scene, paused]
    exact Act.plays_bind (giveUp_plays functional clock _ _ _) fun _ _ _ => Act.plays_pure _
  | false => exact Act.plays_pure _

theorem judge_staged (started : Value) (o : Outcome) (w : World σ) :
    Act.Staged n outcome (· = n) (· = n) w (b.notifier.judge b.waiter o n started >>= b.close started n)
      fun script => (b.alone k script).notifier.judge (b.alone k script).waiter o n started >>=
        (b.alone k script).close started n := by
  simp only [Notifier.judge, bind_assoc, pure_bind]
  refine Act.staged_bind (fun _ _ => (evaluate_freezes functional o _).plays w) ?_
  intro t w₁ _
  -- the clock is read at once if the outcome ends the wait, and otherwise behind the sleep if at all
  have ends : ∀ c, t.next = .inl c → Act.Staged n outcome (· = n) (· = n) w₁
      (b.notifier.tell o n started t >>= fun _ => b.close started n t.next) fun script =>
        (b.alone k script).notifier.tell o n started t >>= fun _ =>
          (b.alone k script).close started n t.next := by
    intro c next
    rw [next]
    exact ⟨{ outcome, now := b.clock w₁.caller.state }, rfl, fun script scene =>
      Act.plays_bind (tell_plays functional (by rw [scene]) o n started t) fun _ _ _ =>
        Act.plays_pure _⟩
  cases t with
  | succeed r => exact ends _ rfl
  | fail f => exact ends _ rfl
  | retry d =>
    exact Act.staged_bind (fun _ _ => tell_retry_plays functional o n started d) fun _ w₂ _ =>
      close_staged functional started d w₂

/-- Every attempt has its scene. -/
theorem round_staged (n : Nat) (started : Value) (w : World σ) :
    Act.Staged n (b.operation n (b.notifier.opening n b.waiter.strategy.limit w).2.caller).1
      (fun _ => True) (· = n) w (b.round started n) fun script =>
        (b.alone k script).round started n := by
  simp only [round_eq]
  refine Act.staged_bind (fun script _ => (Notifier.opening_freezes functional .null n _).plays w) ?_
  intro _ w₁ opened
  rw [opened]
  exact Act.staged_bind (fun script given => poll_plays given) fun o w₂ _ =>
    judge_staged functional started o w₂

theorem outcomeAt_alone (outcome : (script n).outcome =
      (b.operation n (b.notifier.opening n b.waiter.strategy.limit w).2.caller).1)
    {w' : World Nat} (history : w'.history = w.history) :
    (b.alone k script).outcomeAt n w' = b.outcomeAt n w := by
  have opens : Act.Plays (fun _ => True) (fun _ => True) w (b.notifier.opening n b.waiter.strategy.limit)
      ((b.alone k script).notifier.opening n (b.alone k script).waiter.strategy.limit) :=
    (Notifier.opening_freezes functional .null n _).plays w
  obtain ⟨result, -, -⟩ := opens w' history trivial
  simp only [outcomeAt]
  rcases ho : b.notifier.opening n b.waiter.strategy.limit w with ⟨e | u, w₁⟩ <;>
    rcases ho' : (b.alone k script).notifier.opening n (b.alone k script).waiter.strategy.limit w' with
      ⟨e' | u', w₁'⟩ <;> simp only [ho, ho'] at result outcome ⊢
  · exact nomatch result
  · exact nomatch result
  · exact congrArg some outcome

end Blocking

/-! ## The steps of a run -/

/-- The number of the scene that the next step of a run meets, its beginning included. -/
def Strand.index : Option Strand → Nat
  | none => 0
  | some s => s.attempts + 1

namespace Blocking

variable {b : Blocking σ}

theorem isSome_advance (p : Option Strand × Caller σ) : (b.advance p).1.isSome := by
  rcases p with ⟨_ | s, c⟩
  · rfl
  · cases running : s.result with
    | none => rw [advance_of_running running]; rfl
    | some r => rw [advance_of_ended running]; rfl

theorem index_le_advance (s : Option Strand) (c : Caller σ) :
    Strand.index s ≤ Strand.index (b.advance (s, c)).1 := by
  rcases s with _ | s
  · exact Nat.zero_le _
  · cases running : s.result with
    | none => rw [advance_of_running running]; exact Nat.le_succ _
    | some r => exact Nat.le_of_eq (by rw [advance_of_ended running])

/-- Every step of a run has a scene with which the run alone makes the same step; if the run has ended,
any scene will do. -/
theorem advance_alone (functional : b.waiter.IsFunctional) (k : Caller σ) (s : Option Strand)
    (c : Caller σ) : ∃ scene, ∀ script,
      (Strand.index s < Strand.index (b.advance (s, c)).1 → script (Strand.index s) = scene) →
      ∀ c' : Caller Nat, (s = none → c'.state = 0) →
        ((b.alone k script).advance (s, c')).1 = (b.advance (s, c)).1 := by
  rcases s with _ | s
  · refine ⟨{ outcome := .ok .null, now := b.clock c.state }, fun script met c' start => ?_⟩
    have scene := met (Nat.zero_lt_succ _)
    simp only [advance_none, alone, start rfl]
    rw [show script 0 = _ from scene]
  · cases running : s.result with
    | some r =>
      refine ⟨{ outcome := .ok .null }, fun script _ c' _ => ?_⟩
      rw [advance_of_ended running, advance_of_ended running]
    | none =>
      -- the scene is chosen on the caller that the run finds, before the script is fixed
      obtain ⟨scene, outcome, plays⟩ :=
        round_staged (k := k) functional (s.attempts + 1) (.real s.started) ⟨c, s.history⟩
      refine ⟨scene, fun script met c' _ => ?_⟩
      rw [advance_of_running running, advance_of_running running]
      rw [advance_of_running running] at met
      have here : script (s.attempts + 1) = scene := met (Nat.lt_succ_self _)
      obtain ⟨result, history, -⟩ := plays script here ⟨c', s.history⟩ rfl trivial
      have outcomes : (b.alone k script).outcomeAt (s.attempts + 1) ⟨c', s.history⟩ =
          b.outcomeAt (s.attempts + 1) ⟨c, s.history⟩ :=
        outcomeAt_alone functional (by rw [here, outcome]) rfl
      simp only [extend, result, history, outcomes]

/-- A run that has not begun has made no step. -/
theorem iterate_advance_of_none {c : Caller σ} {steps : Nat}
    (fresh : (b.advance^[steps] (none, c)).1 = none) : (b.advance^[steps] (none, c)).2 = c := by
  cases steps with
  | zero => rfl
  | succ steps =>
    have begun := b.isSome_advance (b.advance^[steps] (none, c))
    rw [Function.iterate_succ_apply'] at fresh
    rw [fresh] at begun
    exact nomatch begun

end Blocking

/-! ## Turns -/

namespace Weave

variable {ι : Type} [DecidableEq ι] {b : ι → Blocking σ} {i j : ι} {k c : Caller σ} {turns : List ι}
  {script : Nat → Scene}

variable (b k c i turns script) in
/-- At every point of a number of turns, a run has done what it does alone by the script. Scenes that it
has not met yet make no difference. -/
def Scripted : Prop :=
  ∀ script' : Nat → Scene,
    (∀ n < Strand.index ((steps b { caller := c } turns).strands i), script' n = script n) →
    ∀ before, before <+: turns → (steps b { caller := c } before).strands i =
      (((b i).alone k script').advance^[before.count i] (none, { state := 0 })).1

theorem scripted_nil : Scripted b i k c [] script := by
  intro script' _ before before_nil
  rw [List.prefix_nil.1 before_nil]
  rfl

/-- A turn of another run is none of its own. -/
theorem Scripted.other (h : Scripted b i k c turns script) (other : i ≠ j) :
    Scripted b i k c (turns ++ [j]) script := by
  have stays : (steps b { caller := c } (turns ++ [j])).strands i =
      (steps b { caller := c } turns).strands i := by
    rw [steps_concat, step_of_ne other]
  intro script' agrees before before_turns
  rw [stays] at agrees
  rcases List.prefix_concat_iff.1 before_turns with rfl | before_turns
  · rw [stays, List.count_append, List.count_singleton, if_neg (by simpa using other.symm),
      Nat.add_zero]
    exact h script' agrees turns (List.prefix_refl _)
  · exact h script' agrees before before_turns

/-- For a turn of its own there is another scene. -/
theorem Scripted.own (functional : (b i).waiter.IsFunctional) (h : Scripted b i k c turns script) :
    ∃ script, Scripted b i k c (turns ++ [i]) script := by
  have stepped : (steps b { caller := c } (turns ++ [i])).strands i = ((b i).advance
      ((steps b { caller := c } turns).strands i, (steps b { caller := c } turns).caller)).1 := by
    rw [steps_concat, step_self]
  obtain ⟨scene, plays⟩ := Blocking.advance_alone functional k
    ((steps b { caller := c } turns).strands i) (steps b { caller := c } turns).caller
  have later := (b i).index_le_advance
    ((steps b { caller := c } turns).strands i) (steps b { caller := c } turns).caller
  rw [← stepped] at later plays
  refine ⟨Function.update script (Strand.index ((steps b { caller := c } turns).strands i)) scene, ?_⟩
  intro script' agrees before before_turns
  have earlier := h script' fun n lt => by
    rw [agrees n (Nat.lt_of_lt_of_le lt later), Function.update_of_ne (Nat.ne_of_lt lt)]
  rcases List.prefix_concat_iff.1 before_turns with rfl | before_turns
  · have here := earlier turns (List.prefix_refl _)
    have next := plays script' (fun lt => by rw [agrees _ lt, Function.update_self])
      (((b i).alone k script').advance^[turns.count i] (none, { state := 0 })).2 fun fresh => by
        rw [Blocking.iterate_advance_of_none (here.symm.trans fresh)]
    rw [List.count_append, List.count_singleton_self, Function.iterate_succ_apply', ← next, here]
  · exact earlier before before_turns

/-- Whatever the runs between its turns do, a run does in its turns what it does alone. -/
theorem strands_alone (functional : (b i).waiter.IsFunctional) (k c : Caller σ) (turns : List ι) :
    ∃ script, ∀ before, before <+: turns → (steps b { caller := c } before).strands i =
      (((b i).alone k script).advance^[before.count i] (none, { state := 0 })).1 := by
  have scripted : ∃ script, Scripted b i k c turns script := by
    induction turns using List.reverseRecOn with
    | nil => exact ⟨fun _ => { outcome := .ok .null }, scripted_nil⟩
    | append_singleton turns j ih =>
      obtain ⟨script, here⟩ := ih
      by_cases own : i = j
      · subst own
        exact here.own functional
      · exact ⟨script, here.other own⟩
  obtain ⟨script, here⟩ := scripted
  exact ⟨script, here script fun _ _ => rfl⟩

/-- A single run that makes all the turns. -/
theorem steps_replicate (b : Blocking σ) (c : Caller σ) (n : Nat) :
    steps (fun _ => b) { caller := c } (List.replicate n ()) =
      { caller := (b.advance^[n] (none, c)).2, strands := fun _ => (b.advance^[n] (none, c)).1 } := by
  induction n with
  | zero => rfl
  | succ n ih =>
    rw [List.replicate_succ', steps_concat, ih, Function.iterate_succ_apply']
    simp only [step, Function.update_eq_const_of_subsingleton]
    rfl

end Weave

/-- Wherever a whole run is made and whatever its operation does, the run does what it does alone. -/
theorem Blocking.run_alone {b : Blocking σ} (functional : b.waiter.IsFunctional) (k c : Caller σ) :
    ∃ script, (b.alone k script).outcomes { state := 0 } = b.outcomes c ∧
      ((b.alone k script).run ⟨{ state := 0 }, []⟩).1 = (b.run ⟨c, []⟩).1 ∧
      ((b.alone k script).run ⟨{ state := 0 }, []⟩).2.history = (b.run ⟨c, []⟩).2.history := by
  obtain ⟨script, same⟩ := Weave.strands_alone (b := fun _ : Unit => b) (i := ()) functional k c
    (List.replicate (b.waiter.strategy.limit + 1) ())
  have whole := same _ (List.prefix_refl _)
  rw [Weave.steps_replicate, List.count_replicate_self] at whole
  obtain ⟨s, c', steps, result, world⟩ := b.run_eq_advance c
  obtain ⟨s', c'', steps', result', world'⟩ := (b.alone k script).run_eq_advance { state := 0 }
  have limit : (b.alone k script).waiter.strategy.limit = b.waiter.strategy.limit := rfl
  rw [limit] at steps'
  rw [steps, steps'] at whole
  obtain rfl : s = s' := Option.some.inj whole
  refine ⟨script, ?_, ?_, ?_⟩
  · simp only [outcomes, limit, steps, steps']
  · exact Option.some.inj (result'.symm.trans result)
  · rw [world, world']

end Polling
