import Mathlib.Data.Nat.Pairing
import Polling.Proofs.Accounting
import Polling.Proofs.Apart
import Polling.Proofs.Projection
import Polling.Proofs.Scenes

/-!
# Executions of one waiter do not interfere

A waiter holds nothing that changes, so executions that share one have only the caller in common.
`Waiter.DoesNotInterfere` puts together what follows from it, and `executions_do_not_interfere` shows it of a
waiter whose matchers, hooks and backoff are functions of what they are told.

Of asynchronous executions on one loop, each does what it does alone, move by move, and a move that
concerns others leaves it as it is. Blocking runs that take turns do in their turns what they do alone. So
do whole runs, be they made one after another or inside the operations of others, and none of them touches
anything in the caller's state that its own code does not touch.
-/

namespace Polling

/-- A session in which nothing has happened and the execution alone are at the same point. -/
theorem Session.mirrors_init (time : Binary64) {caller : Caller σ} (requests : caller.requests = [])
    (run : RunId) : Session.Mirrors run { loop := { time }, caller }
      { loop := { time }, caller := { state := {} } } where
  part := rfl
  lone := ⟨Nat.zero_le 1, by simp [Session.ready], by simp, by simp⟩
  requests := requests
  requests' := rfl
  dropped := by simp

theorem Session.owned_init (o : Owners) (time : Binary64) {caller : Caller σ}
    (requests : caller.requests = []) : Session.Owned o { loop := { time }, caller } where
  watched := by simp
  runs := by simp
  requests := requests

/-- What holds of all that uses one waiter, be it executions on one loop or blocking runs. -/
structure Waiter.DoesNotInterfere (w : Waiter σ) : Prop where
  /-- Whatever happens on a loop, each execution does in its share of the moves what it does alone: after each
  of them, its state and its journal are the same. -/
  alone : ∀ (a : Asynchronous σ), a.waiter = w → a.KeepsServing →
    ∀ (time : Binary64) (caller : Caller σ), caller.requests = [] →
    ∀ (ms : List (Move σ)) (run : RunId),
      ∃ shares : List (List (Move Answers)), shares.length = ms.length ∧ ∀ n,
        let together := Session.moves a { loop := { time }, caller } (ms.take n)
        let alone := Session.moves (a.alone caller) { loop := { time }, caller := { state := {} } }
          (shares.take n).flatten
        alone.runs = (together.runs[run]?).toList ∧ alone.journalOf 0 = together.journalOf run
  /-- Where executions share nothing, a move that is about others leaves an execution as it is, also if one of
  them fails or is cancelled by it. -/
  unmoved : ∀ (a : Asynchronous σ) (o : Owners), a.waiter = w → a.IsApart o →
    ∀ (time : Binary64) (caller : Caller σ), caller.requests = [] →
    ∀ (ms : List (Move σ)) (m : Move σ) (run : RunId),
      let together := Session.moves a { loop := { time }, caller } ms
      together.Spares o run m → Session.Unmoved o run together (together.move a m)
  /-- A blocking run that takes turns with others does in its turns what it does alone. -/
  turns : ∀ (ι : Type) [DecidableEq ι] (b : ι → Blocking σ) (i : ι), (b i).waiter = w →
    ∀ (caller : Caller σ) (turns : List ι),
      ∃ script, ∀ before, before <+: turns → (Weave.steps b { caller } before).strands i =
        (((b i).alone caller script).advance^[before.count i] (none, { state := 0 })).1
  /-- The turn of a run leaves the other runs as they are, and of the caller's state everything that its own
  code leaves. -/
  leaves : ∀ (ι : Type) [DecidableEq ι] (b : ι → Blocking σ) (v : Weave σ ι) (i j : ι) (τ : Type)
    (view : σ → τ), i ≠ j → (∀ e, ((b j).answer e).Leaves view) →
      (v.step b j).strands i = v.strands i ∧
        view (v.step b j).caller.state = view v.caller.state
  /-- So it is with whole runs, whatever has been done before and whatever their operations do. -/
  runs : ∀ b : Blocking σ, b.waiter = w → ∀ caller : Caller σ,
    (∃ script, (b.alone caller script).outcomes { state := 0 } = b.outcomes caller ∧
      ((b.alone caller script).run ⟨{ state := 0 }, []⟩).1 = (b.run ⟨caller, []⟩).1 ∧
      ((b.alone caller script).run ⟨{ state := 0 }, []⟩).2.history = (b.run ⟨caller, []⟩).2.history) ∧
    ∀ (τ : Type) (view : σ → τ), (∀ e, (b.answer e).Leaves view) →
      view (b.run ⟨caller, []⟩).2.caller.state = view caller.state

/-- Executions of one waiter do not interfere, if its matchers, hooks and backoff are functions of what they are
told. -/
theorem executions_do_not_interfere {w : Waiter σ} (functional : w.IsFunctional) : w.DoesNotInterfere where
  alone := by
    rintro a rfl keeps time caller requests ms run
    obtain ⟨shares, lengths, matched⟩ := (Session.mirrors_init time requests run).moves (k := caller)
      functional keeps (.init time caller) ms
    exact ⟨shares, lengths, fun n => ⟨(matched n).toAbreast.runs, (matched n).toAbreast.journalOf⟩⟩
  unmoved := by
    intro a o _ apart time caller requests ms m run together spares
    have reachable : together.Reachable a := (Session.Reachable.init time caller).moves ms
    have owned : together.Owned o := (Session.owned_init o time requests).moves apart ms
    exact owned.unmoved apart reachable.sound.timers spares
  turns := by
    rintro ι _ b i rfl caller turns
    exact Weave.strands_alone functional caller caller turns
  leaves := by
    intro ι _ b v i j τ view other leaves
    exact Weave.step_leaves leaves other
  runs := by
    rintro b rfl caller
    exact ⟨b.run_alone functional caller caller, fun τ view leaves => Blocking.run_leaves leaves _⟩

/-! ## An example -/

/-- How often each of two operations has been called. -/
abbrev Tally := Bool → Nat

/-- An operation that counts its calls. It gives false in the first call, then true. -/
def Code.counting (i : Bool) : Code Tally Value :=
  fun c => (.ok (.flag (1 ≤ c.state i)),
    { c with state := Function.update c.state i (c.state i + 1) })

/-- Up to four attempts until a value is true, with hooks that do nothing, and with a scheduler that queues
the callback. -/
def Waiter.tallied : Waiter Tally where
  strategy := ⟨4, .custom "" fun _ => pure (.number .instant), by omega⟩
  acceptors := [.onValue .success pure]
  scheduler := some (.custom (fun run _ => do Code.ask (.soon (.fire run)); return run) fun run =>
    Code.ask (.drop (.fire run)))
  hooks := some
    { onAttempt := some fun _ => pure ()
      onRetry := some fun _ => pure ()
      onSuccess := some fun _ => pure ()
      onFailure := some fun _ => pure () }

/-- Executions with counting operations, each with polls of its own, which end as soon as they begin. -/
def Asynchronous.tallied : Asynchronous Tally where
  waiter := .tallied
  operation run call := do
    let v ← Code.counting (run != 0)
    Code.ask (.finish (Nat.pair run call) (.value v))
    return .poll (Nat.pair run call)
  cancelPoll _ := pure ()
  resume _ := pure ()
  wake _ := pure ()

/-- Two runs with counting operations. -/
def Blocking.tallied (i : Bool) : Blocking Tally where
  waiter := .tallied
  clock _ := .finite false 0
  sleep _ := pure ()
  operation _ := Code.counting i

/-- An operation that makes a run of its own and comes to its result. -/
def Blocking.nested (b : Blocking σ) : Code σ Value := fun c =>
  ((b.run ⟨c, []⟩).1.bind fun
      | .success _ => .ok (.flag true)
      | .failure f => .error f.fault,
    (b.run ⟨c, []⟩).2.caller)

/-- Two executions are started and both come to a second attempt, when one is cancelled. -/
def Session.talliedMoves : List (Move Tally) :=
  [.start, .start, .turn, .turn, .outside 0 (Code.ask (.cancel 1))] ++ List.replicate 9 .turn

/-- No operation has been called. -/
abbrev Caller.tallied : Caller Tally := { state := fun _ => 0 }

theorem Waiter.tallied_isFunctional : Waiter.tallied.IsFunctional where
  matcher := by
    intro a mem payload k k'
    obtain rfl := List.mem_singleton.1 mem
    exact ⟨rfl, rfl, rfl⟩
  backoff := fun _ _ _ => ⟨rfl, rfl, rfl⟩
  onAttempt := by
    intro hook installed info k k'
    obtain rfl := Option.some.inj installed
    exact ⟨rfl, rfl, rfl⟩
  onRetry := by
    intro hook installed info k k'
    obtain rfl := Option.some.inj installed
    exact ⟨rfl, rfl, rfl⟩
  onSuccess := by
    intro hook installed info k k'
    obtain rfl := Option.some.inj installed
    exact ⟨rfl, rfl, rfl⟩
  onFailure := by
    intro hook installed info k k'
    obtain rfl := Option.some.inj installed
    exact ⟨rfl, rfl, rfl⟩

theorem Asynchronous.tallied_keepsServing : Asynchronous.tallied.KeepsServing where
  operation := fun _ _ _ => rfl
  schedule := by
    intro schedule cancel scheduler run delay k
    obtain ⟨rfl, rfl⟩ := Scheduler.custom.inj scheduler
    rfl
  cancel := by
    intro schedule cancel scheduler id k
    obtain ⟨rfl, rfl⟩ := Scheduler.custom.inj scheduler
    rfl
  cancelPoll := fun _ _ => rfl

/-- Polls belong to the execution that has begun them, and handles are the numbers of the executions. -/
def Owners.tallied : Owners where
  poll id := (Nat.unpair id).1
  handle id := id

theorem Asynchronous.tallied_isApart : Asynchronous.tallied.IsApart .tallied where
  waiter := Waiter.tallied_isFunctional
  operation := by
    intro run call k r mem
    have asked : r ∈ k.requests ++ [.finish (Nat.pair run call) (.value (.flag (1 ≤ k.state (run != 0))))] :=
      mem
    rcases List.mem_append.1 asked with before | new
    · exact .inl before
    · obtain rfl := List.mem_singleton.1 new
      exact .inr (by simp [Request.owner, Owners.tallied])
  launches := by
    intro run call k id launched
    obtain rfl : Nat.pair run call = id := Launch.poll.inj (Except.ok.inj launched)
    simp [Owners.tallied]
  schedule := by
    intro schedule cancel scheduler run delay k r mem
    obtain ⟨rfl, rfl⟩ := Scheduler.custom.inj scheduler
    have asked : r ∈ k.requests ++ [.soon (.fire run)] := mem
    rcases List.mem_append.1 asked with before | new
    · exact .inl before
    · obtain rfl := List.mem_singleton.1 new
      exact .inr rfl
  hands := by
    intro schedule cancel scheduler run delay k id given
    obtain ⟨rfl, rfl⟩ := Scheduler.custom.inj scheduler
    exact (Except.ok.inj given).symm
  cancel := by
    intro schedule cancel scheduler id k r mem
    obtain ⟨rfl, rfl⟩ := Scheduler.custom.inj scheduler
    have asked : r ∈ k.requests ++ [.drop (.fire id)] := mem
    rcases List.mem_append.1 asked with before | new
    · exact .inl before
    · obtain rfl := List.mem_singleton.1 new
      exact .inr rfl
  cancelPoll := fun _ _ _ => .inl
  resume := fun _ _ _ => .inl
  wake := fun _ _ _ => .inl

/-- A run with a counting operation leaves the count of the other. -/
theorem Blocking.tallied_leaves (e : Event) : ((Blocking.tallied true).answer e).Leaves (· false) := by
  cases e with
  | notice n => cases n <;> exact fun _ => rfl
  | examined i payload => rcases i with _ | i <;> exact fun _ => rfl
  | asked v =>
    have calculates : ((Blocking.tallied true).waiter.strategy.backoff.calculate v).Leaves
        fun tally : Tally => tally false := fun _ => rfl
    exact Code.checked_leaves calculates
  | _ => exact fun _ => rfl

/-- Of two executions on one loop, the first comes to the same response as it does alone, although the second
is cancelled meanwhile. Of two runs that take turns, the first does the same as alone, and so does a run
whose operation makes another run. -/
theorem executions_do_not_interfere_tallied :
    (∃ ms : List (Move Answers),
      let alone : Session Answers := Session.moves (Asynchronous.tallied.alone .tallied)
        { loop := { time := .finite false 0 }, caller := { state := {} } } ms;
      alone.succeeds = true ∧ alone.journalOf 0 =
        (Session.moves .tallied { loop := { time := .finite false 0 }, caller := .tallied }
          Session.talliedMoves).journalOf 0) ∧
    (let together := Session.moves .tallied { loop := { time := .finite false 0 }, caller := .tallied }
        (Session.talliedMoves.take 4);
      Session.Unmoved .tallied 0 together
        (together.move .tallied (.outside 0 (Code.ask (.cancel 1))))) ∧
    (∃ script, (Weave.steps Blocking.tallied { caller := .tallied }
        [false, true, true, false, true, false]).strands false =
      (((Blocking.tallied false).alone .tallied script).advance^[3] (none, { state := 0 })).1) ∧
    (let v := Weave.steps Blocking.tallied { caller := .tallied } [false, true, false];
      (v.step Blocking.tallied true).strands false = v.strands false ∧
        (v.step Blocking.tallied true).caller.state false = v.caller.state false) ∧
    ∃ script,
      (({ Blocking.tallied false with operation := fun _ => (Blocking.tallied true).nested }.alone .tallied
        script).run ⟨{ state := 0 }, []⟩).1 =
      ({ Blocking.tallied false with operation := fun _ => (Blocking.tallied true).nested }.run
        ⟨.tallied, []⟩).1 := by
  obtain ⟨alone, unmoved, turns, leaves, runs⟩ :=
    executions_do_not_interfere Waiter.tallied_isFunctional
  refine ⟨?_, ?_, ?_, ?_, ?_⟩
  · obtain ⟨shares, -, same⟩ := alone .tallied rfl Asynchronous.tallied_keepsServing (.finite false 0)
      .tallied rfl Session.talliedMoves 0
    obtain ⟨record, journal⟩ := same Session.talliedMoves.length
    rw [List.take_length] at record journal
    have success : (Session.moves .tallied { loop := { time := .finite false 0 }, caller := .tallied }
        Session.talliedMoves).succeeds = true := by decide +kernel
    refine ⟨_, ?_, journal⟩
    obtain ⟨x, hx, concluded⟩ := (Option.any_eq_true _ _).1 success
    simp only [Session.succeeds, record, hx, Option.toList_some]
    simpa using concluded
  · have quiet : (Session.moves .tallied { loop := { time := .finite false 0 }, caller := .tallied }
        (Session.talliedMoves.take 4)).caller.requests.isEmpty = true := by decide +kernel
    refine unmoved .tallied .tallied rfl Asynchronous.tallied_isApart (.finite false 0) .tallied rfl
      (Session.talliedMoves.take 4) _ 0 ?_
    intro r mem
    simp only [Code.ask, List.isEmpty_iff.1 quiet, List.nil_append, List.mem_singleton] at mem
    rw [mem]
    exact Nat.one_ne_zero
  · obtain ⟨script, same⟩ := turns Bool Blocking.tallied false rfl .tallied
      [false, true, true, false, true, false]
    exact ⟨script, same _ (List.prefix_refl _)⟩
  · exact leaves Bool Blocking.tallied _ false true Nat (· false) (by decide) Blocking.tallied_leaves
  · obtain ⟨⟨script, -, result, -⟩, -⟩ := runs
      { Blocking.tallied false with operation := fun _ => (Blocking.tallied true).nested } rfl .tallied
    exact ⟨script, result⟩

end Polling
