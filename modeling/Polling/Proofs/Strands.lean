import Mathlib.Logic.Function.Basic
import Mathlib.Logic.Function.Iterate
import Polling.Proofs.RunProtocol

/-!
# Blocking runs that take turns

A blocking run that has begun is a `Strand`, which tells at any point between two attempts what the run
has done and how it has ended if it has. `Blocking.advance` makes the next step of a run: it begins, or it
makes an attempt. A run is what these steps come to (`Blocking.run_eq_advance`).

In a `Weave`, any number of runs take turns in any order. They share the caller and nothing else. A turn
of one run leaves the others as they are, and it leaves every part of the caller's state that the code of
the run leaves (`Weave.step_leaves`).
-/

namespace Polling

/-- A blocking run between two of its attempts. -/
structure Strand where
  /-- When the run began. -/
  started : Binary64
  attempts : Nat := 0
  /-- What the operation has come to, call by call. -/
  outcomes : List (Except Fault Value) := []
  history : List Event := []
  /-- How the run has ended, if it has. -/
  result : Option (Except Fault Conclusion) := none

namespace Blocking

variable (b : Blocking σ)

/-- What the operation comes to in an attempt, if the attempt gets as far as that. -/
def outcomeAt (attempt : Nat) (w : World σ) : Option (Except Fault Value) :=
  match b.notifier.opening attempt b.waiter.strategy.limit w with
  | (.ok (), w) => some (b.operation attempt w.caller).1
  | (.error _, _) => none

/-- How a run has ended after a round, if it has. -/
def ended : Except Fault (Option Conclusion) → Option (Except Fault Conclusion)
  | .ok conclusion => conclusion.map .ok
  | .error e => some (.error e)

/-- The attempt that follows in a run that has not ended. -/
def extend (s : Strand) (c : Caller σ) : Strand × Caller σ :=
  let attempt := s.attempts + 1
  let round := b.round (.real s.started) attempt ⟨c, s.history⟩
  ({ s with
      attempts := attempt
      outcomes := s.outcomes ++ (b.outcomeAt attempt ⟨c, s.history⟩).toList
      history := round.2.history
      result := ended round.1 }, round.2.caller)

/-- The step that follows in a run, unless it has ended. -/
def advance : Option Strand × Caller σ → Option Strand × Caller σ
  | (none, c) => (some { started := b.clock c.state }, c)
  | (some s, c) =>
    match s.result with
    | some _ => (some s, c)
    | none =>
      let (s, c) := b.extend s c
      (some s, c)

/-- What the operation comes to in a whole run, call by call. -/
def outcomes (c : Caller σ) : List (Except Fault Value) :=
  match b.advance^[b.waiter.strategy.limit + 1] (none, c) with
  | (some s, _) => s.outcomes
  | (none, _) => []

/-! ## Steps of a run -/

variable {b} {s : Strand} {c : Caller σ}

@[simp] theorem advance_none : b.advance (none, c) = (some { started := b.clock c.state }, c) := rfl

theorem advance_of_ended {r : Except Fault Conclusion} (h : s.result = some r) :
    b.advance (some s, c) = (some s, c) := by
  simp [advance, h]

theorem advance_of_running (h : s.result = none) :
    b.advance (some s, c) = (some (b.extend s c).1, (b.extend s c).2) := by
  simp [advance, h]

/-- What is left of a run that has attempts left. -/
theorem rounds_eq_advance {left : Nat} (running : s.result = none)
    (attempts : left + s.attempts = b.waiter.strategy.limit) (more : 1 ≤ left) :
    ∃ s' c', b.advance^[left] (some s, c) = (some s', c') ∧
      s'.result = some (b.rounds (.real s.started) left (s.attempts + 1) ⟨c, s.history⟩).1 ∧
      (b.rounds (.real s.started) left (s.attempts + 1) ⟨c, s.history⟩).2 = ⟨c', s'.history⟩ := by
  induction left generalizing s c with
  | zero => omega
  | succ left ih =>
    rw [Function.iterate_succ_apply, advance_of_running running, rounds, Act.bind_apply]
    rcases hr : b.round (.real s.started) (s.attempts + 1) ⟨c, s.history⟩ with ⟨e | _ | conclusion, w⟩
    · have finished : (b.extend s c).1.result = some (.error e) := by simp [extend, hr, ended]
      exact ⟨_, _, Function.iterate_fixed (advance_of_ended finished) left, finished, by simp [extend, hr]⟩
    · -- behind the last attempt no run goes on
      have limit := b.lt_limit_of_round _ (by omega) hr
      have next := ih (s := (b.extend s c).1) (c := (b.extend s c).2) (by simp [extend, hr, ended])
        (by simp only [extend]; omega) (by omega)
      simpa [extend, hr] using next
    · have finished : (b.extend s c).1.result = some (.ok conclusion) := by simp [extend, hr, ended]
      exact ⟨_, _, Function.iterate_fixed (advance_of_ended finished) left, finished, by simp [extend, hr]⟩

/-- A run is what its steps come to: its beginning, and as many attempts as there may be. -/
theorem run_eq_advance (c : Caller σ) :
    ∃ s c', b.advance^[b.waiter.strategy.limit + 1] (none, c) = (some s, c') ∧
      s.result = some (b.run ⟨c, []⟩).1 ∧ (b.run ⟨c, []⟩).2 = ⟨c', s.history⟩ := by
  rw [Function.iterate_succ_apply, advance_none]
  exact rounds_eq_advance rfl rfl b.waiter.strategy.limit_pos

end Blocking

/-! ## What code leaves -/

/-- Code leaves a part of the caller's state as it is. -/
def Code.Leaves (view : σ → τ) (c : Code σ α) : Prop := ∀ k, view (c k).2.state = view k.state

theorem replay_leaves {view : σ → τ} {answer : Event → Code σ Unit}
    (leaves : ∀ e, (answer e).Leaves view) (c : Caller σ) (es : List Event) :
    view (replay answer c es).state = view c.state := by
  induction es generalizing c with
  | nil => rfl
  | cons e es ih => exact (ih _).trans (leaves e c)

/-- Refusing a delay leaves the caller's state. -/
theorem Code.checked_leaves {view : σ → τ} {c : Code σ Value} (h : c.Leaves view) :
    c.checked.Leaves view := by
  intro k
  have left := h k
  rw [checked, bind_apply]
  rcases hc : c k with ⟨e | v, k'⟩ <;> rw [hc] at left
  · exact left
  · cases refused : v.refusal? <;> simpa [refused, Code.lift] using left

namespace Blocking

variable {b : Blocking σ} {view : σ → τ} (leaves : ∀ e, (b.answer e).Leaves view)
include leaves

/-- A step of a run leaves what the code of the run leaves. -/
theorem advance_leaves (s : Option Strand) (c : Caller σ) :
    view (b.advance (s, c)).2.state = view c.state := by
  cases s with
  | none => rfl
  | some s =>
    cases running : s.result with
    | some r => rw [advance_of_ended running]
    | none =>
      rw [advance_of_running running]
      obtain ⟨es, left, -⟩ := b.round_replays (.real s.started) (s.attempts + 1) ⟨c, s.history⟩
      simp only [extend, left]
      exact replay_leaves leaves c es

/-- A run leaves what its code leaves. -/
theorem run_leaves (w : World σ) : view (b.run w).2.caller.state = view w.caller.state := by
  obtain ⟨es, left, -⟩ := b.run_replays w
  rw [left]
  exact replay_leaves leaves w.caller es

end Blocking

/-! ## Turns -/

/-- Blocking runs with one caller, those that have begun. -/
structure Weave (σ ι : Type) where
  caller : Caller σ
  strands : ι → Option Strand := fun _ => none

namespace Weave

variable {ι : Type} [DecidableEq ι] (b : ι → Blocking σ)

/-- A turn of one of the runs. -/
def step (v : Weave σ ι) (i : ι) : Weave σ ι :=
  let (s, c) := (b i).advance (v.strands i, v.caller)
  ⟨c, Function.update v.strands i s⟩

/-- A number of turns. -/
def steps (v : Weave σ ι) (turns : List ι) : Weave σ ι := turns.foldl (step b) v

variable {b} {v : Weave σ ι} {i j : ι}

theorem steps_concat (turns : List ι) : v.steps b (turns ++ [i]) = (v.steps b turns).step b i := by
  simp [steps]

theorem step_self : (v.step b i).strands i = ((b i).advance (v.strands i, v.caller)).1 := by
  simp [step]

theorem step_of_ne (other : i ≠ j) : (v.step b j).strands i = v.strands i := by
  simp [step, other]

/-- A turn of one run leaves the other runs, and what the code of the run leaves. -/
theorem step_leaves {view : σ → τ} (leaves : ∀ e, ((b j).answer e).Leaves view) (other : i ≠ j) :
    (v.step b j).strands i = v.strands i ∧ view (v.step b j).caller.state = view v.caller.state :=
  ⟨step_of_ne other, Blocking.advance_leaves leaves (v.strands j) v.caller⟩

end Weave

end Polling
