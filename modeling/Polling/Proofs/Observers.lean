import Polling.Proofs.Accounting
import Polling.Proofs.Journal
import Polling.Proofs.Lockstep

/-!
# Hooks as observers

Hooks sit between the steps of a wait: the attempt is counted before the first one is called, the scheduler
is called behind another, and the promise is settled behind the last. `hooks_are_observers` says that this is
nothing to the wait. As long as hooks only look on (`Hooks.LookOn`), runs with any two selections of them do
the same but for the notices that one selection does not hear, and end in the same way.

What is in sight is a view of the caller's state. Hooks may change what is out of sight, so they may keep a
record of what they are told; nothing else depends on it.
-/

namespace Polling

variable {V : Type} {view : σ → V} {seen : Sight σ V}

/-! ## Looking on -/

/-- Code only looks on: it returns, asks for nothing and changes nothing that is in sight. -/
def Code.LooksOn (view : σ → V) (c : Code σ Unit) : Prop :=
  ∀ k, (c k).1 = .ok () ∧ view (c k).2.state = view k.state ∧ (c k).2.serving = k.serving ∧
    (c k).2.requests = k.requests

/-- All hooks that are there only look on, whatever they are told. -/
structure Hooks.LookOn (view : σ → V) (h : Hooks σ) : Prop where
  onAttempt : ∀ hook, h.onAttempt = some hook → ∀ info, (hook info).LooksOn view
  onRetry : ∀ hook, h.onRetry = some hook → ∀ info, (hook info).LooksOn view
  onSuccess : ∀ hook, h.onSuccess = some hook → ∀ info, (hook info).LooksOn view
  onFailure : ∀ hook, h.onFailure = some hook → ∀ info, (hook info).LooksOn view

/-- Which of four hooks are installed. -/
structure Selection where
  attempt : Bool
  retry : Bool
  success : Bool
  failure : Bool

namespace Hooks

/-- The hooks that a selection keeps; the others are left out. -/
def select (h : Hooks σ) (c : Selection) : Hooks σ where
  onAttempt := if c.attempt then h.onAttempt else none
  onRetry := if c.retry then h.onRetry else none
  onSuccess := if c.success then h.onSuccess else none
  onFailure := if c.failure then h.onFailure else none

/-- A hook that is kept was there before. -/
theorem of_ite {α : Type} {b : Bool} {x : Option α} {y : α} (h : (if b then x else none) = some y) :
    x = some y := by
  cases b with
  | true => exact h
  | false => exact nomatch h

theorem LookOn.select {h : Hooks σ} (looks : h.LookOn view) (c : Selection) :
    (h.select c).LookOn view where
  onAttempt hook kept := looks.onAttempt hook (of_ite kept)
  onRetry hook kept := looks.onRetry hook (of_ite kept)
  onSuccess hook kept := looks.onSuccess hook (of_ite kept)
  onFailure hook kept := looks.onFailure hook (of_ite kept)

theorem lookOn_none : ({} : Hooks σ).LookOn view := ⟨nofun, nofun, nofun, nofun⟩

/-- The hooks that are called if a selection of four is installed, or none. -/
def installed (h : Hooks σ) (c : Option Selection) : Hooks σ := (c.map h.select).getD {}

theorem LookOn.installed {h : Hooks σ} (looks : h.LookOn view) (c : Option Selection) :
    (h.installed c).LookOn view := by
  cases c with
  | none => exact lookOn_none
  | some c => exact looks.select c

end Hooks

/-! ## What is seen of a run -/

/-- A notice with the time left out. -/
def Notice.untimed : Notice → Notice
  | .success info => .success { info with elapsed := .null }
  | .failure info => .failure { info with elapsed := .null }
  | n => n

@[simp] theorem Hooks.hears_untimed (h : Hooks σ) (n : Notice) : h.hears n.untimed = h.hears n := by
  cases n <;> rfl

/-- An entry with times left out, unless it is a notice that one of two sets of hooks does not hear. -/
def Event.shared? (A B : Hooks σ) : Event → Option Event
  | .notice n => if A.hears n && B.hears n then some (.notice n.untimed) else none
  | e => some e

/-- A view of the caller's state, and all entries but the notices that one of two sets of hooks does not
hear. -/
def Sight.shared (view : σ → V) (A B : Hooks σ) : Sight σ V := ⟨view, Event.shared? A B⟩

/-! ## Notices -/

/-- Of an act, nothing is in sight but a notice, if it is heard; the time in it may be any. -/
def Act.Announces (view : σ → V) (h : Hooks σ) (n : Notice) (a : Act σ Unit) : Prop :=
  ∀ w, ∃ c n', a w = (.ok (), ⟨c, w.history ++ if h.hears n' then [.notice n'] else []⟩) ∧
    n'.untimed = n ∧ view c.state = view w.caller.state ∧ c.serving = w.caller.serving ∧
      c.requests = w.caller.requests

namespace Act

/-- A hook that looks on is told. -/
theorem announces_call {h : Hooks σ} {n : Notice} {c : Code σ Unit} (heard : h.hears n = true)
    (looks : c.LooksOn view) : Announces view h n.untimed (call (.notice n) c) := by
  intro w
  obtain ⟨returns, same⟩ := looks w.caller
  refine ⟨(c w.caller).2, n, ?_, rfl, same⟩
  rw [call_apply, returns, heard]
  rfl

/-- Where there is no hook, nobody is told. -/
theorem announces_pure {h : Hooks σ} {n : Notice} (unheard : h.hears n = false) :
    Announces view h n.untimed (pure ()) := by
  intro w
  refine ⟨w.caller, n, ?_, rfl, rfl, rfl, rfl⟩
  simp [unheard]

/-- Acts with the same notice look the same to those who hear it from both. -/
theorem Announces.coincide {A B : Hooks σ} {n : Notice} {a a' : Act σ Unit} (ha : Announces view A n a)
    (hb : Announces view B n a') : Coincide (.shared view A B) a a' := by
  intro w w' same
  obtain ⟨c, m, announced, rfl, state, serving, requests⟩ := ha w
  obtain ⟨c', m', announced', untimed, state', serving', requests'⟩ := hb w'
  have view_eq : view w.caller.state = view w'.caller.state := same.caller.state
  rw [InStepAt, announced, announced']
  refine ⟨rfl, ⟨?_, ?_, ?_⟩, ?_⟩
  · exact state.trans (view_eq.trans state'.symm)
  · exact serving.trans (same.caller.serving.trans serving'.symm)
  · exact requests.trans (same.caller.requests.trans requests'.symm)
  · -- the notice is seen on both sides or on neither
    have heard : ∀ h : Hooks σ, h.hears m' = h.hears m := by
      intro h
      rw [← h.hears_untimed m', untimed, h.hears_untimed m]
    rw [List.filterMap_append, List.filterMap_append, same.history, heard]
    cases hA : A.hears m <;> cases hB : B.hears m <;>
      simp [Sight.shared, Event.shared?, heard, hA, hB, untimed]

end Act

namespace Notifier

variable {n : Notifier σ} (looks : n.hooks.LookOn view)
include looks

theorem attempt_announces (k : Value) :
    Act.Announces view n.hooks (.attempt ⟨k, n.limit⟩) (n.attempt k) := by
  unfold attempt
  split
  · next none => exact Act.announces_pure (n := .attempt ⟨k, n.limit⟩) (by simp [Hooks.hears, none])
  · next hook some =>
    exact Act.announces_call (n := .attempt ⟨k, n.limit⟩) (by simp [Hooks.hears, some])
      (looks.onAttempt hook some _)

theorem retry_announces (k delay value : Value) (fault : Option Fault) :
    Act.Announces view n.hooks (.retry ⟨k, n.limit, delay, value, fault⟩) (n.retry k delay value fault) := by
  unfold retry
  split
  · next none =>
    exact Act.announces_pure (n := .retry ⟨k, n.limit, delay, value, fault⟩) (by simp [Hooks.hears, none])
  · next hook some =>
    exact Act.announces_call (n := .retry ⟨k, n.limit, delay, value, fault⟩)
      (by simp [Hooks.hears, some]) (looks.onRetry hook some _)

variable {time : σ → Binary64} (clock : n.clock = fun s => .real (time s))
include clock

theorem success_announces (k : Value) (r : Response) (t : Binary64) :
    Act.Announces view n.hooks (.success ⟨k, n.limit, r, .null⟩) (n.success k r (.real t)) := by
  unfold success
  split
  · next none =>
    exact Act.announces_pure (n := .success ⟨k, n.limit, r, .null⟩) (by simp [Hooks.hears, none])
  · next hook some =>
    intro w
    obtain ⟨v, elapsed⟩ := elapsed_apply clock t w
    rw [Act.bind_apply, elapsed]
    exact Act.announces_call (n := .success ⟨k, n.limit, r, v⟩) (by simp [Hooks.hears, some])
      (looks.onSuccess hook some _) w

theorem failure_announces (k : Value) (e : Option Fault) (t : Binary64) :
    Act.Announces view n.hooks (.failure ⟨k, n.limit, e, .null⟩) (n.failure k e (.real t)) := by
  unfold failure
  split
  · next none =>
    exact Act.announces_pure (n := .failure ⟨k, n.limit, e, .null⟩) (by simp [Hooks.hears, none])
  · next hook some =>
    intro w
    obtain ⟨v, elapsed⟩ := elapsed_apply clock t w
    rw [Act.bind_apply, elapsed]
    exact Act.announces_call (n := .failure ⟨k, n.limit, e, v⟩) (by simp [Hooks.hears, some])
      (looks.onFailure hook some _) w

/-- Two sets of hooks that look on coincide, whatever the times at which the waits began. -/
theorem observing_coincide {n' : Notifier σ} (looks' : n'.hooks.LookOn view) {time' : σ → Binary64}
    (clock' : n'.clock = fun s => .real (time' s)) (limits : n.limit = n'.limit) (limit : Nat)
    (t t' : Binary64) : Coincide (.shared view n.hooks n'.hooks) n n' limit limit (.real t) (.real t') where
  opening attempt :=
    InStep.bind ((attempt_announces looks _).coincide (limits ▸ attempt_announces looks' _)) fun _ =>
      Act.coincides_record rfl
  tell o attempt transition := by
    cases transition with
    | succeed r =>
      exact (success_announces looks clock _ r t).coincide
        (limits ▸ success_announces looks' clock' _ r t')
    | fail f =>
      exact InStep.bind (Act.coincides_record rfl) fun _ =>
        (failure_announces looks clock _ (some f.fault) t).coincide
          (limits ▸ failure_announces looks' clock' _ (some f.fault) t')
    | retry delay =>
      exact (retry_announces looks _ _ _ _).coincide (limits ▸ retry_announces looks' _ _ _ _)

end Notifier

/-! ## Runs -/

/-- A configuration with other hooks, or without any. -/
def Waiter.observedBy (w : Waiter σ) (hooks : Option (Hooks σ)) : Waiter σ := { w with hooks }

/-- A blocking wait with other hooks, or without any. -/
def Blocking.observedBy (b : Blocking σ) (hooks : Option (Hooks σ)) : Blocking σ :=
  { b with waiter := b.waiter.observedBy hooks }

/-- An asynchronous system with other hooks, or without any. -/
def Asynchronous.observedBy (a : Asynchronous σ) (hooks : Option (Hooks σ)) : Asynchronous σ :=
  { a with waiter := a.waiter.observedBy hooks }

section Runs

variable {A B : Option (Hooks σ)} (looksA : (A.getD {}).LookOn view) (looksB : (B.getD {}).LookOn view)
include looksA looksB

theorem Blocking.observedBy_coincides {b : Blocking σ}
    (h : b.InSight (.shared view (A.getD {}) (B.getD {}))) :
    Act.Coincide (.shared view (A.getD {}) (B.getD {})) (b.observedBy A).run (b.observedBy B).run := by
  refine run_coincides fun s s' _ => ?_
  have clock : (b.observedBy A).notifier.clock = fun s => .real (b.clock s) := rfl
  have clock' : (b.observedBy B).notifier.clock = fun s => .real (b.clock s) := rfl
  exact { Notifier.observing_coincide looksA clock looksB clock' rfl b.waiter.strategy.limit (b.clock s)
      (b.clock s') with
    operation := h.operation
    pause := h.pause
    limit := rfl
    evaluate := h.evaluate }

theorem Asynchronous.observedBy_coincides {a : Asynchronous σ}
    (h : a.InSight (.shared view (A.getD {}) (B.getD {}))) :
    (a.observedBy A).Coincide (.shared view (A.getD {}) (B.getD {})) (fun v => ∃ t, v = .real t)
      (a.observedBy B) :=
  { h with
    notifier := by
      rintro now _ ⟨t, rfl⟩
      have clock : ((a.observedBy A).notifier now).clock = fun _ => .real now := rfl
      have clock' : ((a.observedBy B).notifier now).clock = fun _ => .real now := rfl
      exact Notifier.observing_coincide looksA clock looksB clock' rfl a.waiter.strategy.limit t t
    evaluate := h.toJudgesInSight.evaluate }

end Runs

/-- Hooks are observers. Let four hooks only look on, and let nothing else depend on what they may change. Then
it makes no difference which of them are installed, or whether any are. A blocking wait has the same result,
leaves a world that looks the same and has made the same calls and waited the same delays. On a loop, whatever
happens there, executions stay in the same state, their promises among it, and have made the same calls and
scheduled the same delays; and a fault that leaves the first attempt of an execution is the same one. In all
of these histories, the hooks that are installed both times have been told the same, apart from times. -/
theorem hooks_are_observers {H : Hooks σ} (looks : H.LookOn view) (A B : Option Selection) :
    (∀ b : Blocking σ, b.InSight (.shared view (H.installed A) (H.installed B)) → ∀ w : World σ,
      ((b.observedBy (A.map H.select)).run w).1 = ((b.observedBy (B.map H.select)).run w).1 ∧
      World.Coincide (.shared view (H.installed A) (H.installed B))
        ((b.observedBy (A.map H.select)).run w).2 ((b.observedBy (B.map H.select)).run w).2) ∧
    ∀ a : Asynchronous σ, a.InSight (.shared view (H.installed A) (H.installed B)) →
      ∀ (time : Binary64) (caller : Caller σ) (ms : List (Move σ)),
      (∀ m ∈ ms, m.Sees (.shared view (H.installed A) (H.installed B))) →
      Session.Coincide (.shared view (H.installed A) (H.installed B))
        (Session.moves (a.observedBy (A.map H.select)) { loop := { time }, caller } ms)
        (Session.moves (a.observedBy (B.map H.select)) { loop := { time }, caller } ms) ∧
      ((Session.moves (a.observedBy (A.map H.select)) { loop := { time }, caller } ms).start
          (a.observedBy (A.map H.select))).1 =
        ((Session.moves (a.observedBy (B.map H.select)) { loop := { time }, caller } ms).start
          (a.observedBy (B.map H.select))).1 := by
  refine ⟨fun b h w => ?_, fun a h time caller ms sees => ?_⟩
  · exact Blocking.observedBy_coincides (looks.installed A) (looks.installed B) h w w
      ⟨⟨rfl, rfl, rfl⟩, rfl⟩
  · have same := Asynchronous.observedBy_coincides (looks.installed A) (looks.installed B) h
    have lockstep := (Session.coincides_refl _).moves same sees fun before m after _ _ _ _ _ begins =>
      ((Session.Reachable.init time caller).moves before).begins_real begins
    exact ⟨lockstep, (lockstep.move_of_coincide same (m := .start) trivial fun begins =>
      ((Session.Reachable.init time caller).moves ms).begins_real begins).2 rfl⟩

theorem Hooks.listening_lookOn (view : Unit → V) : Hooks.listening.LookOn view := by
  refine ⟨?_, ?_, ?_, ?_⟩ <;>
  · rintro hook ⟨⟩ info k
    exact ⟨rfl, rfl, rfl, rfl⟩

/-- Starting a brisk execution and working off its callbacks, with some of the listening hooks. -/
def Session.observedBriskly (c : Option Selection) : Session Unit :=
  Session.moves ((Asynchronous.brisk {}).observedBy (c.map Hooks.listening.select))
    { loop := { time := .finite false 0 }, caller := { state := () } } [.start, .turn, .turn, .turn, .turn]

/-- Whether a brisk wait has four hooks that listen or none at all, it ends in the same way, and so does a brisk
execution with all of them or only one, which succeeds. -/
theorem hooks_are_observers_brisk :
    (((Blocking.brisk {}).observedBy (some (Hooks.listening.select ⟨true, true, true, true⟩))).run
        ⟨⟨(), 0, []⟩, []⟩).1 = (((Blocking.brisk {}).observedBy none).run ⟨⟨(), 0, []⟩, []⟩).1 ∧
    (Session.observedBriskly (some ⟨true, true, true, true⟩)).succeeds = true ∧
    (Session.observedBriskly (some ⟨true, true, true, true⟩)).runs =
      (Session.observedBriskly (some ⟨false, false, true, false⟩)).runs := by
  have clear : Function.Injective (id : Unit → Unit) := Function.injective_id
  have looks := Hooks.listening_lookOn (id : Unit → Unit)
  refine ⟨?_, by decide +kernel, ?_⟩
  · exact ((hooks_are_observers looks (some ⟨true, true, true, true⟩) none).1 (Blocking.brisk {})
      (Blocking.inSight clear _) _).1
  · exact (((hooks_are_observers looks _ _).2 (Asynchronous.brisk {}) (Asynchronous.inSight clear _) _ _ _
      fun m _ => m.sees clear).1).runs

end Polling
