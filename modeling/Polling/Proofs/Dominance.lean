import Polling.Proofs.Totals

/-!
# Delays that double are the longest

Multipliers that at most double from one attempt to the next are at most the powers of two
(`Growth.Scales.le_two_pow`), and this is what those of a linear growth and the Fibonacci numbers do. With the
same base and the same cap, the delays of an exponential backoff are therefore at least those of the other two, and
a wait that is paced by it waits at least as long between its attempts, position by position
(`exponential_dominates`). Nothing else of the two waits has to agree.

For executions, the scheduler has to keep to calling back once. `fibonacci_overtakes` shows a scheduler that
does not, and lets attempts begin in between, so that a delay is asked for that belongs to a later attempt.
-/

namespace Polling

/-! ## Multipliers that at most double -/

namespace Growth

/-- From one attempt to the next, these multipliers at most double. -/
def AtMostDoubles (k : Nat → Nat) : Prop := ∀ n, 0 < n → k (n + 1) ≤ 2 * k n

theorem atMostDoubles_linear : AtMostDoubles fun n => n := by
  intro n hn
  change n + 1 ≤ 2 * n
  omega

theorem atMostDoubles_fib : AtMostDoubles Nat.fib := by
  intro n hn
  obtain ⟨m, rfl⟩ := Nat.exists_eq_add_of_le' hn
  -- each one is the sum of the latest two, of which the older one is not greater
  have grows : Nat.fib m ≤ Nat.fib (m + 1) := Nat.fib_le_fib_succ
  change Nat.fib (m + 2) ≤ 2 * Nat.fib (m + 1)
  rw [Nat.fib_add_two]
  omega

theorem AtMostDoubles.le_mul_two_pow {k : Nat → Nat} (h : AtMostDoubles k) {m : Nat} (hm : 0 < m) (i : Nat) :
    k (m + i) ≤ k m * 2 ^ i := by
  induction i with
  | zero => simp
  | succ i ih =>
    calc k (m + (i + 1)) ≤ 2 * k (m + i) := h (m + i) (by omega)
      _ ≤ 2 * (k m * 2 ^ i) := Nat.mul_le_mul_left 2 ih
      _ = k m * 2 ^ (i + 1) := by rw [Nat.pow_succ, Nat.mul_comm 2, Nat.mul_assoc]

/-- The multipliers of a growth are at most the powers of two, if they at most double. -/
theorem Scales.le_two_pow {g : Growth} {k : Nat → Nat} (h : g.Scales k) (doubles : AtMostDoubles k) {n : Nat}
    (hn : 0 < n) : k n ≤ 2 ^ (n - 1) := by
  have le := doubles.le_mul_two_pow Nat.one_pos (n - 1)
  rwa [h.first, Nat.one_mul, Nat.add_sub_cancel' hn] at le

/-- From the second one on, the Fibonacci numbers are less. -/
theorem fib_lt_two_pow {n : Nat} (hn : 2 ≤ n) : Nat.fib n < 2 ^ (n - 1) := by
  have le := atMostDoubles_fib.le_mul_two_pow Nat.two_pos (n - 2)
  rw [Nat.fib_two, Nat.one_mul, Nat.add_sub_cancel' hn] at le
  exact le.trans_lt (Nat.pow_lt_pow_right (by omega) (by omega))

end Growth

/-- Without a cap and with a base above zero, greater multipliers give longer delays. -/
theorem scaledDelay_lt {k k' : Nat → Nat} {base : Int} (hbase : 0 < base) {n : Int} (hn : 1 ≤ n)
    (lt : k n.toNat < k' n.toNat) : scaledDelay k base ⊤ n < scaledDelay k' base ⊤ n := by
  rw [scaledDelay_of_pos hn, scaledDelay_of_pos hn, clip_top, clip_top]
  exact Int.mul_lt_mul_of_pos_left (by exact_mod_cast lt) hbase

/-! ## Waits, position by position -/

/-- At each position where there is a delay in both, the delay in the one is at most the delay in the other. -/
def Outwaited (ds es : List Number) : Prop :=
  ∀ (i : Nat) (d e : Number), ds[i]? = some d → es[i]? = some e → d.le e = true

theorem outwaited_iff_zip {ds es : List Number} :
    Outwaited ds es ↔ ∀ p ∈ ds.zip es, p.1.le p.2 = true := by
  constructor
  · rintro positions ⟨d, e⟩ paired
    obtain ⟨i, at_i⟩ := List.mem_iff_getElem?.1 paired
    obtain ⟨hd, he⟩ := List.getElem?_zip_eq_some.1 at_i
    exact positions i d e hd he
  · intro all i d e hd he
    have paired : (ds.zip es)[i]? = some (d, e) := List.getElem?_zip_eq_some.2 ⟨hd, he⟩
    exact all (d, e) (List.mem_of_getElem? paired)

instance (ds es : List Number) : Decidable (Outwaited ds es) := decidable_of_iff _ outwaited_iff_zip.symm

/-- Where one backoff gives at least what the other gives after the same attempt, its delays outwait those of the
other. -/
theorem Backoff.Paces.outwaited {b : Backoff σ} {b' : Backoff τ}
    (le : ∀ n d e, b.GrantsAfter n d → b'.GrantsAfter n e → d.le e = true) {n : Nat} {ds es : List Number}
    (h : b.Paces n ds) (h' : b'.Paces n es) : Outwaited ds es :=
  fun i d e hd he => le (n + i) d e (h.get hd) (h'.get he)

/-- Integer delays are compared where they are calculated. -/
theorem Capped.Gives.outwaited {c e : Capped} {slow fast : Int → Int} (hc : c.Gives slow) (he : e.Gives fast)
    (le : ∀ n, slow n ≤ fast n) {n : Nat} {ds es : List Number} (h : (Backoff.capped c : Backoff σ).Paces n ds)
    (h' : (Backoff.capped e : Backoff τ).Paces n es) : Outwaited ds es := by
  refine Backoff.Paces.outwaited (fun n d d' given given' => ?_) h h'
  rw [hc.of_grantsAfter given, he.of_grantsAfter given']
  simpa using le n

/-- With the same base and the same cap, no delay of a linear backoff or of one along the Fibonacci numbers is longer
than that of an exponential backoff after the same attempt; without a cap, the Fibonacci numbers make shorter ones
from the second attempt on, unless the base is zero. Hence no wait that is paced by such a backoff waits longer at
some position than one that is paced by the exponential backoff, whatever else they differ in. -/
theorem exponential_dominates {g : Growth} (slower : g = .fibonacci ∨ g = .linear) {base : Int}
    {cap : WithTop Int} (hbase : 0 ≤ base) (hcap : 0 < cap) :
    ∃ c e, Capped.make g (.int base) (.ofCap cap) = .ok c ∧
      Capped.make .exponential (.int base) (.ofCap cap) = .ok e ∧
      (∃ slow fast, c.Gives slow ∧ e.Gives fast ∧ (∀ n, slow n ≤ fast n) ∧
        (g = .fibonacci → cap = ⊤ → 0 < base → ∀ n, 2 ≤ n → slow n < fast n)) ∧
      (∀ ⦃σ τ : Type⦄ (b : Blocking σ) (b' : Blocking τ), b.waiter.strategy.backoff = .capped c →
        b'.waiter.strategy.backoff = .capped e → ∀ w w', ∃ es es', (b.run w).2.history = w.history ++ es ∧
          (b'.run w').2.history = w'.history ++ es' ∧ Outwaited (delaysOf es) (delaysOf es')) ∧
      ∀ ⦃σ τ : Type⦄ (a : Asynchronous σ) (a' : Asynchronous τ), a.waiter.strategy.backoff = .capped c →
        a'.waiter.strategy.backoff = .capped e → ∀ (s : Session σ) (s' : Session τ), s.Reachable a →
          s'.Reachable a' → ∀ run run' : RunId, FiresOnce (s.journalOf run) → FiresOnce (s'.journalOf run') →
            Outwaited (scheduledOf (s.journalOf run)) (scheduledOf (s'.journalOf run')) := by
  obtain ⟨k, scales, doubles, strict⟩ : ∃ k : Nat → Nat, g.Scales k ∧ Growth.AtMostDoubles k ∧
      (g = .fibonacci → ∀ n, 2 ≤ n → k n < 2 ^ (n - 1)) := by
    obtain rfl | rfl := slower
    · exact ⟨_, Growth.scales_fibonacci, Growth.atMostDoubles_fib, fun _ _ => Growth.fib_lt_two_pow⟩
    · exact ⟨_, Growth.scales_linear, Growth.atMostDoubles_linear,
        fun same => absurd (congrArg Growth.name same) (by decide)⟩
  -- both delays are the base times a multiplier, cut off at the same cap
  obtain ⟨c, made, gives⟩ := scales.delays hbase hcap
  obtain ⟨e, made', gives'⟩ := Growth.scales_exponential.delays hbase hcap
  have le : ∀ n, scaledDelay k base cap n ≤ scaledDelay (fun n => 2 ^ (n - 1)) base cap n :=
    scaledDelay_le hbase fun n hn => scales.le_two_pow doubles hn
  refine ⟨c, e, made, made', ⟨_, _, gives, gives', le, ?_⟩, ?_, ?_⟩
  · rintro fibonacci rfl positive n hn
    exact scaledDelay_lt positive (by omega) (strict fibonacci n.toNat (by omega))
  · intro σ τ b b' hb hb' w w'
    obtain ⟨es, history, paces, -⟩ := b.run_waits w
    obtain ⟨es', history', paces', -⟩ := b'.run_waits w'
    exact ⟨es, es', history, history', gives.outwaited gives' le (hb ▸ paces) (hb' ▸ paces')⟩
  · intro σ τ a a' ha ha' s s' reachable reachable' run run' once once'
    have paces := reachable.paces once
    have paces' := reachable'.paces once'
    exact gives.outwaited gives' le (ha ▸ paces) (ha' ▸ paces')

/-- With seconds that grow, a patient wait along the Fibonacci numbers is outwaited by one that doubles: both the
blocking runs, which are exhausted, and executions whose sixth poll returns true. -/
theorem exponential_dominates_patient : (0 : Int) ≤ 1 ∧ (0 : WithTop Int) < ⊤ ∧
    Outwaited (delaysOf ((Blocking.patient (.seconds 1 .fibonacci) 100).run ⟨⟨(), 0, []⟩, []⟩).2.history)
      (delaysOf ((Blocking.patient (.seconds 1 .exponential) 100).run ⟨⟨(), 0, []⟩, []⟩).2.history) ∧
    Outwaited (scheduledOf ((Session.patient (.seconds 1 .fibonacci) 6 (fun _ => 1) 14).journalOf 0))
      (scheduledOf ((Session.patient (.seconds 1 .exponential) 6 (fun _ => 1) 14).journalOf 0)) := by
  have nonneg : (0 : Int) ≤ 1 := by decide
  have uncapped : (0 : WithTop Int) < ⊤ := WithTop.coe_lt_top 0
  obtain ⟨c, e, made, made', -, blocking, asynchronous⟩ := exponential_dominates (.inl rfl) nonneg uncapped
  obtain rfl : Capped.seconds 1 .fibonacci = c := Except.ok.inj made
  obtain rfl : Capped.seconds 1 .exponential = e := Except.ok.inj made'
  refine ⟨nonneg, uncapped, ?_, ?_⟩
  · obtain ⟨es, es', history, history', outwaited⟩ := blocking (.patient (.seconds 1 .fibonacci) 100)
      (.patient (.seconds 1 .exponential) 100) rfl rfl ⟨⟨(), 0, []⟩, []⟩ ⟨⟨(), 0, []⟩, []⟩
    rwa [history, history', List.nil_append, List.nil_append]
  · exact asynchronous _ _ rfl rfl _ _ (Session.patient_reachable (.seconds 1 .fibonacci) 6 (fun _ => 1) 14)
      (Session.patient_reachable (.seconds 1 .exponential) 6 (fun _ => 1) 14) 0 0 (by decide +kernel)
      (by decide +kernel)

/-- A scheduler that calls back four times for three seconds and else once. -/
def overeager (d : Number) : Nat := if d.same (.int 3) then 4 else 1

/-- The scheduler has to keep to calling back once: it may call back more often for a delay that only the Fibonacci
numbers have. The fifth delay of the execution is then 21 seconds, which belongs to the eighth attempt, and that
of the one that doubles is 16 seconds, although the sixth poll ends both. -/
theorem fibonacci_overtakes :
    ¬ ∀ c e, Capped.make .fibonacci (.int 1) .null = .ok c → Capped.make .exponential (.int 1) .null = .ok e →
      ∀ a a' : Asynchronous Unit, a.waiter.strategy.backoff = .capped c → a'.waiter.strategy.backoff = .capped e →
        a.waiter.acceptors = a'.waiter.acceptors → a.waiter.scheduler = a'.waiter.scheduler →
        a.operation = a'.operation → ∀ s s' : Session Unit, s.Reachable a → s'.Reachable a' → ∀ run : RunId,
          Outwaited (scheduledOf (s.journalOf run)) (scheduledOf (s'.journalOf run)) := by
  intro outwaited
  have compared := outwaited _ _ rfl rfl (.patient (.seconds 1 .fibonacci) 6 overeager)
    (.patient (.seconds 1 .exponential) 6 overeager) rfl rfl rfl rfl rfl _ _
    (Session.patient_reachable (.seconds 1 .fibonacci) 6 overeager 14)
    (Session.patient_reachable (.seconds 1 .exponential) 6 overeager 14) 0
  revert compared
  decide +kernel

end Polling
