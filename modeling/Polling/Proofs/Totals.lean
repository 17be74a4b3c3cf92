import Polling.Proofs.Waits
import Polling.Proofs.WholeDelays

/-!
# What the delays of a wait add up to

The delays of an uncapped built-in backoff add up to something that can be given in closed form
(`Backoff.Adds`): each delay is what the sum grows by from one attempt to the next, so that the sum of the
delays of a wait telescopes (`Backoff.Paces.sum`). A wait that nothing hinders spends one delay less than it
calls its operation; hence `delays_add_up`, which says what such a wait has waited when it ends at some call of
its operation. If its attempts are exhausted, this call is the last one that the limit allows
(`Waiter.Accounts.polls_eq_limit`).

`delays_of_overlapping_polls` says why the scheduler has to keep to calling back once.
-/

namespace Polling

/-! ## Sums in closed form -/

/-- With an integer for its parameter and without a cap, a built-in backoff gives delays that add up to this
before a call of the operation. -/
inductive Backoff.Adds (b : Int) : Backoff σ → (Nat → Int) → Prop where
  | constant {c} (made : Constant.make (.int b) = .ok c) : Adds b (.constant c) fun k => (k - 1) * b
  | linear {c} (made : Capped.make .linear (.int b) .null = .ok c) :
      Adds b (.capped c) fun k => b * k * (k - 1) / 2
  | exponential {c} (made : Capped.make .exponential (.int b) .null = .ok c) :
      Adds b (.capped c) fun k => b * (2 ^ (k - 1) - 1)
  | fibonacci {c} (made : Capped.make .fibonacci (.int b) .null = .ok c) :
      Adds b (.capped c) fun k => b * (Nat.fib (k + 1) - 1)

/-- An integer that is accepted as a base is not below zero. -/
theorem Capped.nonneg_of_make {g : Growth} {b : Int} {cap : Value} {c : Capped}
    (made : make g (.int b) cap = .ok c) : 0 ≤ b := by
  by_contra below
  have refused : (Number.int b).lt (.int 0) = true := by simpa using below
  simp only [make] at made
  split at made
  · cases made
  · next accepted => exact absurd (refused.symm.trans accepted) (by decide)

/-- What a constant backoff gives to a wait is its parameter. -/
theorem Constant.of_grantsAfter {x : Number} {c : Constant} (made : make (.number x) = .ok c) {n : Nat} {d : Number}
    (given : (Backoff.constant c : Backoff σ).GrantsAfter n d) : d = x := by
  have parameter : c.delay = x := by
    simp only [make] at made
    split at made
    · cases made
    · exact (congrArg Constant.delay (Except.ok.inj made)).symm
  obtain ⟨w, given⟩ := given
  have calculated := (Backoff.nextDelay_eq_ok.1 given).1
  exact (Value.number.inj (Except.ok.inj calculated)).symm.trans parameter

namespace Growth.Scales

variable {g : Growth} {k : Nat → Nat} (h : g.Scales k)
include h

/-- What a backoff without a cap gives to a wait: the base times the multiplier of the attempt. -/
theorem of_grantsAfter {b : Int} {c : Capped} (made : Capped.make g (.int b) .null = .ok c) {n : Nat} (hn : 1 ≤ n)
    {d : Number} (given : (Backoff.capped c : Backoff σ).GrantsAfter n d) : d = .int (b * k n) := by
  have uncapped : (0 : WithTop Int) < ⊤ := WithTop.coe_lt_top 0
  obtain ⟨c', made', gives⟩ := h.delays (Capped.nonneg_of_make made) uncapped
  obtain rfl : c' = c := Except.ok.inj (made'.symm.trans made)
  have integer : scaledDelay k b ⊤ n = b * k n := by
    rw [scaledDelay_of_pos (by omega), clip_top, Int.toNat_natCast]
  rw [gives.of_grantsAfter given, integer]

end Growth.Scales

namespace Backoff

variable {b : Int} {backoff : Backoff σ} {total : Nat → Int}

/-- Before the first call nothing has been waited, and each delay is what the sum grows by. -/
theorem Adds.step (h : backoff.Adds b total) : total 1 = 0 ∧
    ∀ n : Nat, 1 ≤ n → ∀ d, backoff.GrantsAfter n d → d = .int (total (n + 1) - total n) := by
  cases h with
  | constant made =>
    -- in each case: the delay is known, and the rest is an equation on sums
    refine ⟨by simp, fun n first d given => ?_⟩
    rw [Constant.of_grantsAfter made given]
    congr 1
    push_cast
    ring
  | linear made =>
    refine ⟨by simp, fun n first d given => ?_⟩
    rw [Growth.scales_linear.of_grantsAfter made first given]
    -- of two neighbours one is even
    obtain ⟨m, even⟩ := Int.even_mul_pred_self (n : Int)
    have before : b * n * (n - 1) = 2 * (b * m) := by
      rw [Int.mul_assoc, even]
      ring
    have behind : b * ((n + 1 : Nat) : Int) * (((n + 1 : Nat) : Int) - 1) = 2 * (b * m + b * n) := by
      calc b * ((n + 1 : Nat) : Int) * (((n + 1 : Nat) : Int) - 1) = b * n * (n - 1) + 2 * (b * n) := by
            push_cast
            ring
        _ = 2 * (b * m + b * n) := by
            rw [before]
            ring
    dsimp only
    rw [before, behind, Int.mul_ediv_cancel_left _ (by decide), Int.mul_ediv_cancel_left _ (by decide),
      add_sub_cancel_left]
  | exponential made =>
    refine ⟨by simp, fun n first d given => ?_⟩
    rw [Growth.scales_exponential.of_grantsAfter made first given]
    obtain ⟨m, rfl⟩ := Nat.exists_eq_add_of_le' first
    congr 1
    simp only [Nat.add_sub_cancel]
    push_cast
    ring
  | fibonacci made =>
    refine ⟨by simp, fun n first d given => ?_⟩
    rw [Growth.scales_fibonacci.of_grantsAfter made first given]
    congr 1
    dsimp only
    rw [Nat.fib_add_two]
    push_cast
    ring

/-- Delays in a row add up to what the sum grows by from the first attempt to the one behind the last. -/
theorem Paces.sum (step : ∀ n : Nat, 1 ≤ n → ∀ d, backoff.GrantsAfter n d → d = .int (total (n + 1) - total n))
    {n : Nat} (first : 1 ≤ n) {ds : List Number} (h : backoff.Paces n ds) :
    ∃ is : List Int, ds = is.map .int ∧ is.sum = total (n + ds.length) - total n := by
  induction ds generalizing n with
  | nil => exact ⟨[], rfl, by simp⟩
  | cons d ds ih =>
    obtain ⟨given, rest⟩ := h
    obtain ⟨is, rfl, sum⟩ := ih (by omega) rest
    refine ⟨(total (n + 1) - total n) :: is, by rw [step n first d given, List.map_cons], ?_⟩
    rw [List.sum_cons, sum, List.length_cons, Nat.add_right_comm n 1, Nat.add_assoc n]
    omega

end Backoff

/-! ## What a wait has waited -/

/-- The delays of a wait that has called its operation so often are integers, and add up to what belongs to this
number of calls. -/
def AddsUp (total : Nat → Int) (polls : Nat) (delays : List Number) : Prop :=
  1 ≤ polls ∧ ∃ ds : List Int, delays = ds.map .int ∧ ds.sum = total polls

/-- Delays that have been given after the first attempt, after the second one, and so on, add up, if there is one
less than there are calls of the operation. -/
theorem Backoff.Adds.addsUp {b : Int} {backoff : Backoff σ} {total : Nat → Int} (h : backoff.Adds b total)
    {delays : List Number} (paces : backoff.Paces 1 delays) {polls : Nat} (counts : delays.length + 1 = polls) :
    AddsUp total polls delays := by
  obtain ⟨nothing, step⟩ := h.step
  obtain ⟨ds, same, sum⟩ := paces.sum step (Nat.le_refl 1)
  refine ⟨by omega, ds, same, ?_⟩
  rw [sum, nothing, Nat.add_comm, counts, sub_zero]

/-- A failure is reported as exhausted attempts only if this is the reason. -/
theorem Failure.exists_exhausted {f : Failure} (kind : f.fault.kind = .retriesExhausted) :
    ∃ limit, f.reason = .exhausted limit := by
  have same : f.reason.kind = .retriesExhausted := kind
  cases h : f.reason with
  | exhausted limit => exact ⟨limit, rfl⟩
  | rejected =>
    rw [h] at same
    exact absurd same (by decide : FaultKind.acceptorFailure ≠ .retriesExhausted)
  | unmatched e =>
    rw [h] at same
    exact absurd same (by decide : FaultKind.unmatchedFailure ≠ .retriesExhausted)
  | interrupted attempt =>
    rw [h] at same
    exact absurd same (by decide : FaultKind.interrupted ≠ .retriesExhausted)

/-- A wait that fails for want of attempts has called its operation as often as the limit allows. -/
theorem Waiter.Accounts.polls_eq_limit {w : Waiter σ} {es es' : List Event} {f : Failure}
    (h : w.Accounts es (.failure f)) (spent : w.RunsOut f es') : es.countP Event.isPolled = w.strategy.limit := by
  obtain ⟨n, attempts, limit⟩ := spent.attempts
  have number : (Value.int (es.countP Event.isPolled) : Value) = .int n := h.attempts.symm.trans attempts
  have same : es.countP Event.isPolled = n := by
    exact_mod_cast Number.int.inj (Value.number.inj number)
  have last := h.last
  omega

namespace Blocking

variable (b : Blocking σ)

/-- A run that fails for want of attempts has called its operation as often as the limit allows. -/
theorem polls_eq_limit {w : World σ} {es : List Event} (history : (b.run w).2.history = w.history ++ es) {f : Failure}
    (failed : (b.run w).1 = .ok (.failure f)) (kind : f.fault.kind = .retriesExhausted) :
    es.countP Event.isPolled = b.waiter.strategy.limit := by
  obtain ⟨limit, reason⟩ := Failure.exists_exhausted kind
  obtain ⟨es', k, called, history', follows, concludes⟩ := b.run_follows w
  obtain rfl : es = es' := List.append_cancel_left (history.symm.trans history')
  obtain ⟨rfl, attempts⟩ := concludes _ failed
  exact (Waiter.accounts_of_follows follows attempts).polls_eq_limit (runsOut_of_run (Prod.ext failed rfl) reason)

end Blocking

/-- An execution that fails for want of attempts has called its operation as often as the limit allows. -/
theorem Session.Reachable.polls_eq_limit {a : Asynchronous σ} {s : Session σ} (h : s.Reachable a) {run : RunId}
    (once : FiresOnce (s.journalOf run)) {f : Failure} (failed : s.promise? run = some (.concluded (.failure f)))
    (kind : f.fault.kind = .retriesExhausted) :
    (s.journalOf run).countP Event.isPolled = a.waiter.strategy.limit := by
  obtain ⟨limit, reason⟩ := Failure.exists_exhausted kind
  obtain ⟨x, hx, concluded⟩ := Option.map_eq_some_iff.1 failed
  obtain ⟨follows, attempts⟩ := (h.inPace run x hx once).reports _ concluded
  exact (Waiter.accounts_of_follows follows attempts).polls_eq_limit (h.runsOut_of_concluded failed reason)

/-- What a wait has waited when it ends at some call of its operation, with an uncapped built-in backoff whose
parameter is an integer: nothing for the first call, and for each other one the delay that the backoff gives after
the call before it. If its attempts are exhausted, this is the last call that the limit allows.

A blocking run must not be hindered by a hook, nor by what it sleeps with for the delays that it spends, nor be
ended by its signal. An execution must not be hindered by a hook, nor by its scheduler for the delays that it hands
over, nor be cancelled, and its scheduler has to call it back no more often than it was asked to. -/
theorem delays_add_up {b : Int} {backoff : Backoff σ} {total : Nat → Int} (adds : backoff.Adds b total) :
    (∀ r : Blocking σ, r.waiter.strategy.backoff = backoff → ∀ w, ¬ Blocking.Interrupted (r.run w).1 →
      ∃ es, (r.run w).2.history = w.history ++ es ∧
        (r.Unhindered (delaysOf es) → AddsUp total (es.countP Event.isPolled) (delaysOf es)) ∧
        ∀ f, (r.run w).1 = .ok (.failure f) → f.fault.kind = .retriesExhausted →
          es.countP Event.isPolled = r.waiter.strategy.limit) ∧
    ∀ (a : Asynchronous σ) (run : RunId), a.waiter.strategy.backoff = backoff →
      ∀ s : Session σ, s.Reachable a → FiresOnce (s.journalOf run) →
      a.Unhindered run (scheduledOf (s.journalOf run)) → ∀ p, s.promise? run = some p → p.isSettled = true → p ≠ .cancelled →
        AddsUp total ((s.journalOf run).countP Event.isPolled) (scheduledOf (s.journalOf run)) ∧
        ∀ f, p = .concluded (.failure f) → f.fault.kind = .retriesExhausted →
          (s.journalOf run).countP Event.isPolled = a.waiter.strategy.limit := by
  constructor
  · rintro r rfl w uninterrupted
    obtain ⟨es, history, paces, counts⟩ := r.run_waits w
    exact ⟨es, history, fun unhindered => adds.addsUp paces (counts unhindered uninterrupted),
      fun f => r.polls_eq_limit history⟩
  · rintro a run rfl s reachable once unhindered p promise settled uncancelled
    have counts := reachable.waited unhindered once promise settled uncancelled
    refine ⟨adds.addsUp (reachable.paces once) counts, ?_⟩
    rintro f rfl
    exact reachable.polls_eq_limit once promise

/-! ## Examples -/

/-- Up to nine attempts with a capped delay between them, until a value is true. -/
def Waiter.patient (c : Capped) : Waiter Unit where
  strategy := ⟨9, .capped c, by omega⟩
  acceptors := [.onValue .success pure]

/-- A patient wait whose operation returns true when it has been called so often. -/
def Blocking.patient (c : Capped) (calls : Nat) : Blocking Unit where
  waiter := .patient c
  clock _ := .finite false 0
  sleep _ := pure ()
  operation call := pure (if call < calls then .null else .flag true)

/-- Patient executions whose polls end as soon as they are begun. The scheduler calls back at once, and so often as
it does for the delay. -/
def Asynchronous.patient (c : Capped) (calls : Nat) (times : Number → Nat) : Asynchronous Unit where
  waiter := { Waiter.patient c with
    scheduler := some (.custom
      (fun run d caller => (.ok 0,
        { caller with requests := caller.requests ++ List.replicate (times d) (.fire run) }))
      fun _ => pure ()) }
  operation _ call := do
    Code.ask (.finish call (.value (if call < calls then .null else .flag true)))
    return .poll call
  cancelPoll _ := pure ()
  resume _ := pure ()
  wake _ := pure ()

/-- A session in which a patient execution has been started and so many turns have been made. -/
def Session.patient (c : Capped) (calls : Nat) (times : Number → Nat) (turns : Nat) : Session Unit :=
  moves (.patient c calls times) .blank (.start :: List.replicate turns .turn)

theorem Session.patient_reachable (c : Capped) (calls : Nat) (times : Number → Nat) (turns : Nat) :
    (Session.patient c calls times turns).Reachable (.patient c calls times) :=
  (Reachable.init _ _).moves _

/-- Nothing hinders patient waits, since they have no hooks. -/
theorem Blocking.patient_unhindered (c : Capped) (calls : Nat) (ds : List Number) :
    (Blocking.patient c calls).Unhindered ds where
  hooks := ⟨nofun, nofun, nofun, nofun⟩
  sleep := fun _ _ _ _ _ raised => nomatch raised
  signal := nofun

theorem Asynchronous.patient_unhindered (c : Capped) (calls : Nat) (times : Number → Nat) (run : RunId)
    (ds : List Number) : (Asynchronous.patient c calls times).Unhindered run ds where
  hooks := ⟨nofun, nofun, nofun, nofun⟩
  scheduler := by
    intro schedule cancel same _ _ _ _ raised
    obtain ⟨rfl, -⟩ := Scheduler.custom.inj same
    exact nomatch raised

/-- A promise that has come to a conclusion is settled, and not cancelled. -/
theorem Promise.settled_of_isConcluded {p : Promise} (h : p.isConcluded = true) :
    p.isSettled = true ∧ p ≠ .cancelled := by
  cases p with
  | concluded c => exact ⟨rfl, by simp⟩
  | _ => exact absurd h Bool.false_ne_true

/-- So many seconds that grow, without a cap. -/
def Capped.seconds (b : Nat) (g : Growth) : Capped := ⟨g, .int b, none, by simp, uncapped_ok⟩

/-- With seconds that grow along the Fibonacci numbers, a patient wait whose operation never returns true has waited
for 54 seconds when its nine attempts are exhausted, and a patient execution has waited for four seconds when its
fourth poll returns true. -/
theorem delays_add_up_fibonacci :
    (Backoff.capped (.seconds 1 .fibonacci) : Backoff Unit).Adds 1 (fun k => 1 * (Nat.fib (k + 1) - 1)) ∧
    (∃ ds : List Int, delaysOf ((Blocking.patient (.seconds 1 .fibonacci) 100).run ⟨⟨(), 0, []⟩, []⟩).2.history =
      ds.map .int ∧ ds.sum = 54) ∧
    ∃ ds : List Int, scheduledOf ((Session.patient (.seconds 1 .fibonacci) 4 (fun _ => 1) 8).journalOf 0) =
      ds.map .int ∧ ds.sum = 4 := by
  have adds : (Backoff.capped (.seconds 1 .fibonacci) : Backoff Unit).Adds 1
      (fun k => 1 * (Nat.fib (k + 1) - 1)) := .fibonacci rfl
  obtain ⟨blocking, asynchronous⟩ := delays_add_up adds
  refine ⟨adds, ?_, ?_⟩
  · have exhausted : (((Blocking.patient (.seconds 1 .fibonacci) 100).run ⟨⟨(), 0, []⟩, []⟩).1.map fun
        | .failure f => some f.fault.kind
        | .success _ => none).toOption = some (some .retriesExhausted) := by decide +kernel
    rcases hr : ((Blocking.patient (.seconds 1 .fibonacci) 100).run ⟨⟨(), 0, []⟩, []⟩).1 with e | r | f <;>
      rw [hr] at exhausted
    · exact nomatch exhausted
    · exact nomatch exhausted
    · have kind : f.fault.kind = .retriesExhausted := Option.some.inj (Option.some.inj exhausted)
      have uninterrupted :
          ¬ Blocking.Interrupted ((Blocking.patient (.seconds 1 .fibonacci) 100).run ⟨⟨(), 0, []⟩, []⟩).1 := by
        rintro ⟨f', ends, interrupted⟩
        obtain rfl := Conclusion.failure.inj (Except.ok.inj (hr.symm.trans ends))
        rw [kind] at interrupted
        exact absurd interrupted (by decide)
      obtain ⟨es, history, adds, limit⟩ := blocking (.patient (.seconds 1 .fibonacci) 100) rfl
        ⟨⟨(), 0, []⟩, []⟩ uninterrupted
      obtain ⟨-, ds, delays, sum⟩ := adds (Blocking.patient_unhindered _ _ _)
      rw [List.nil_append] at history
      rw [limit f hr kind] at sum
      exact ⟨ds, by rw [history, delays], sum⟩
  · have ends : ((Session.patient (.seconds 1 .fibonacci) 4 (fun _ => 1) 8).promise? 0).any
        Promise.isConcluded = true := by decide +kernel
    obtain ⟨p, promise, concluded⟩ := (Option.any_eq_true _ _).1 ends
    have polls : ((Session.patient (.seconds 1 .fibonacci) 4 (fun _ => 1) 8).journalOf 0).countP Event.isPolled =
        4 := by decide +kernel
    obtain ⟨settled, uncancelled⟩ := Promise.settled_of_isConcluded concluded
    obtain ⟨⟨-, ds, delays, sum⟩, -⟩ := asynchronous _ 0 rfl _
      (Session.patient_reachable (.seconds 1 .fibonacci) 4 (fun _ => 1) 8) (by decide +kernel)
      (Asynchronous.patient_unhindered _ _ _ _ _) p promise settled uncancelled
    rw [polls] at sum
    exact ⟨ds, delays, sum⟩

/-- The scheduler has to keep to calling back once: called back twice for each delay, a patient execution has waited
for one second and for three when its third poll returns true, since the delay of the second attempt is asked for
when the third one has already begun. -/
theorem delays_of_overlapping_polls :
    ¬ ∀ (b : Int) (backoff : Backoff Unit) (total : Nat → Int), backoff.Adds b total →
      ∀ (a : Asynchronous Unit) (run : RunId), a.waiter.strategy.backoff = backoff →
      ∀ s : Session Unit, s.Reachable a → a.Unhindered run (scheduledOf (s.journalOf run)) →
      ∀ p, s.promise? run = some p → p.isSettled = true → p ≠ .cancelled →
        AddsUp total ((s.journalOf run).countP Event.isPolled) (scheduledOf (s.journalOf run)) := by
  intro sums
  have ends : ((Session.patient (.seconds 1 .linear) 3 (fun _ => 2) 8).promise? 0).any
      Promise.isConcluded = true := by decide +kernel
  obtain ⟨p, promise, concluded⟩ := (Option.any_eq_true _ _).1 ends
  obtain ⟨settled, uncancelled⟩ := Promise.settled_of_isConcluded concluded
  obtain ⟨-, ds, delays, sum⟩ := sums 1 (.capped (.seconds 1 .linear)) _ (.linear rfl) _ 0 rfl
    _ (Session.patient_reachable (.seconds 1 .linear) 3 (fun _ => 2) 8) (Asynchronous.patient_unhindered _ _ _ _ _) p
    promise settled uncancelled
  have polls : ((Session.patient (.seconds 1 .linear) 3 (fun _ => 2) 8).journalOf 0).countP Event.isPolled = 3 := by
    decide +kernel
  have waits : scheduledOf ((Session.patient (.seconds 1 .linear) 3 (fun _ => 2) 8).journalOf 0) =
      [1, 3].map .int := by decide +kernel
  have same : ds = [1, 3] :=
    List.map_injective_iff.2 (fun _ _ => Number.int.inj) (delays.symm.trans waits)
  rw [polls, same] at sum
  exact absurd sum (by decide)

end Polling
