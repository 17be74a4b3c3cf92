import Mathlib
import Polling.Proofs.Delays

/-!
# Delays that are integers

With an integer for its base and an integer or nothing for its cap, a built-in backoff computes with
integers only: the delay after an attempt is the base times the multiplier of the attempt, cut off
(`Growth.Scales.delays`). A missing cap counts as the top of `WithTop Int`, so that one law speaks of both
cases.

What is known of these delays follows from what is known of the multipliers and of `clip`, which cuts off:
they grow with the attempt, with the base, with the cap (`integer_delays_lawful`) and with the multipliers
(`scaledDelay_le`), and it does not matter whether they are computed from the attempt alone or one from the other,
since summands may be cut off before they are added up (`integer_delays_recur`).
-/

namespace Polling

/-! ## Cutting off -/

/-- An integer cut off at a cap. -/
def clip (cap : WithTop Int) (d : Int) : Int :=
  match cap with
  | none => d
  | some m => min d m

section Clip

variable {cap cap' : WithTop Int} {d e : Int}

@[simp] theorem clip_top (d : Int) : clip ⊤ d = d := rfl

@[simp] theorem clip_coe (m d : Int) : clip m d = min d m := rfl

/-- Cutting off gives the smaller one of what is cut off and the cap. -/
theorem coe_clip (cap : WithTop Int) (d : Int) : (clip cap d : WithTop Int) = min (d : WithTop Int) cap := by
  cases cap with
  | top => simp
  | coe m => exact WithTop.coe_min d m

theorem clip_nonneg (hd : 0 ≤ d) (hcap : 0 < cap) : 0 ≤ clip cap d := by
  have least : (0 : WithTop Int) ≤ min (d : WithTop Int) cap := le_min (WithTop.coe_le_coe.2 hd) hcap.le
  rw [← coe_clip] at least
  exact WithTop.coe_le_coe.1 least

theorem clip_mono (le : d ≤ e) (cap_le : cap ≤ cap') : clip cap d ≤ clip cap' e := by
  rw [← WithTop.coe_le_coe, coe_clip, coe_clip]
  exact min_le_min (WithTop.coe_le_coe.2 le) cap_le

/-- One summand may be cut off before the sum is, if the other one is not below zero. -/
theorem clip_clip_add (he : 0 ≤ e) : clip cap (clip cap d + e) = clip cap (d + e) := by
  cases cap with
  | top => rfl
  | coe m =>
    simp only [clip_coe]
    omega

/-- Both summands may be cut off before the sum is, if they are not below zero. -/
theorem clip_add (hd : 0 ≤ d) (he : 0 ≤ e) (hcap : 0 < cap) :
    clip cap (clip cap d + clip cap e) = clip cap (d + e) := by
  rw [clip_clip_add (clip_nonneg he hcap), Int.add_comm d, clip_clip_add hd, Int.add_comm]

end Clip

/-! ## The delays of a growth -/

/-- A cap as a backoff takes it: an integer, or nothing. -/
def Value.ofCap : WithTop Int → Value
  | none => .null
  | some m => .int m

/-- The delay after an attempt, for the multipliers of a growth, a base and a cap. Attempts below the first
count as the first. -/
def scaledDelay (k : Nat → Nat) (base : Int) (cap : WithTop Int) (n : Int) : Int :=
  clip cap (base * k (max n 1).toNat)

section ScaledDelay

variable {k k' : Nat → Nat} {base : Int} {cap : WithTop Int}

theorem scaledDelay_of_pos {n : Int} (hn : 1 ≤ n) :
    scaledDelay k base cap n = clip cap (base * k n.toNat) := by
  rw [scaledDelay, max_eq_left hn]

theorem scaledDelay_nonneg (hbase : 0 ≤ base) (hcap : 0 < cap) (n : Int) : 0 ≤ scaledDelay k base cap n :=
  clip_nonneg (Int.mul_nonneg hbase (Int.natCast_nonneg _)) hcap

theorem scaledDelay_le_cap (n : Int) : (scaledDelay k base cap n : WithTop Int) ≤ cap := by
  rw [scaledDelay, coe_clip]
  exact min_le_right _ _

/-- Greater multipliers give greater delays. -/
theorem scaledDelay_le (hbase : 0 ≤ base) (le : ∀ n, 0 < n → k n ≤ k' n) (n : Int) :
    scaledDelay k base cap n ≤ scaledDelay k' base cap n := by
  have multiplier : k (max n 1).toNat ≤ k' (max n 1).toNat := le _ (by omega)
  exact clip_mono (Int.mul_le_mul_of_nonneg_left (by exact_mod_cast multiplier) hbase) (le_refl cap)

/-- If a multiplier is the sum of two others, the delay is that of the two delays, cut off. -/
theorem scaledDelay_add (hbase : 0 ≤ base) (hcap : 0 < cap) {l m n : Int} (hl : 1 ≤ l) (hm : 1 ≤ m)
    (hn : 1 ≤ n) (sum : k n.toNat = k m.toNat + k l.toNat) :
    scaledDelay k base cap n = clip cap (scaledDelay k base cap m + scaledDelay k base cap l) := by
  have nonneg : ∀ i : Nat, 0 ≤ base * i := fun i => Int.mul_nonneg hbase (Int.natCast_nonneg i)
  rw [scaledDelay_of_pos hl, scaledDelay_of_pos hm, scaledDelay_of_pos hn, sum,
    clip_add (nonneg _) (nonneg _) hcap, Nat.cast_add, Int.mul_add]

end ScaledDelay

/-- A backoff gives these integers as delays. -/
def Capped.Gives (c : Capped) (delay : Int → Int) : Prop :=
  ∀ ⦃σ : Type⦄ (n : Int) (caller : Caller σ),
    (Backoff.capped c).calculate (.int n) caller = (.ok (.int (delay n)), caller)

/-- What such a backoff gives to a wait is the integer that belongs to the attempt. -/
theorem Capped.Gives.of_grantsAfter {c : Capped} {delay : Int → Int} (h : c.Gives delay) {n : Nat} {d : Number}
    (given : (Backoff.capped c : Backoff σ).GrantsAfter n d) : d = .int (delay n) := by
  obtain ⟨w, given⟩ := given
  have calculated := (Backoff.nextDelay_eq_ok.1 given).1
  rw [h] at calculated
  exact (Value.number.inj (Except.ok.inj calculated)).symm

/-- From an integer and a cap, a growth makes a backoff that gives these integers as delays. -/
def Growth.Delays (g : Growth) (base : Int) (cap : WithTop Int) (delay : Int → Int) : Prop :=
  ∃ c, Capped.make g (.int base) (.ofCap cap) = .ok c ∧ c.Gives delay

/-- A cap that is missing is not refused. -/
theorem Capped.uncapped_ok (c : Number) (h : none = some c) : c.le (.int 0) = false := by
  cases h

/-- A base that is not below zero is not refused, without a cap. -/
theorem Capped.make_uncapped (g : Growth) {base : Number} (base_ok : base.lt (.int 0) = false) :
    make g (.number base) .null = .ok ⟨g, base, none, base_ok, uncapped_ok⟩ := by
  simp only [make]
  split
  · next below => exact absurd below (by simp [base_ok])
  · rfl

/-- A base that is not below zero is not refused, with a cap that is above zero. -/
theorem Capped.make_capped (g : Growth) {base cap : Number} (base_ok : base.lt (.int 0) = false)
    (cap_ok : cap.le (.int 0) = false) :
    make g (.number base) (.number cap) = .ok ⟨g, base, some cap, base_ok, by simp [cap_ok]⟩ := by
  simp only [make]
  split
  · next below => exact absurd below (by simp [base_ok])
  · split
    · next below => exact absurd below (by simp [cap_ok])
    · rfl

/-- An integer that is not below zero and a cap above zero are not refused. -/
theorem Capped.make_int (g : Growth) {base : Int} {cap : WithTop Int} (hbase : 0 ≤ base) (hcap : 0 < cap) :
    ∃ c, make g (.int base) (.ofCap cap) = .ok c ∧ c.growth = g ∧ c.base = .int base ∧
      ∀ d : Int, cutOff c.cap (.int d) = .int (clip cap d) := by
  have base_ok : (Number.int base).lt (.int 0) = false := by simpa using hbase
  cases cap with
  | top => exact ⟨_, make_uncapped g base_ok, rfl, rfl, fun d => rfl⟩
  | coe m =>
    have positive : 0 < m := WithTop.coe_lt_coe.1 hcap
    have cap_ok : (Number.int m).le (.int 0) = false := by simpa using positive
    refine ⟨_, make_capped g base_ok cap_ok, rfl, rfl, fun d => ?_⟩
    simp only [cutOff, Number.min, Number.int_lt_int, decide_eq_true_eq, clip_coe]
    split <;> congr 1 <;> omega

namespace Growth.Scales

variable {g : Growth} {k : Nat → Nat} (h : g.Scales k) {base : Int} {cap : WithTop Int}
include h

/-- The delays that a growth makes of integers. -/
theorem delays (hbase : 0 ≤ base) (hcap : 0 < cap) : g.Delays base cap (scaledDelay k base cap) := by
  obtain ⟨c, made, growth, integer, cuts⟩ := Capped.make_int g hbase hcap
  refine ⟨c, made, fun σ n caller => ?_⟩
  have factor := c.factor_of_scales (growth.symm ▸ h) n
  have delay : c.delay (.int n) = .ok (.int (scaledDelay k base cap n)) := by
    rw [Capped.delay_eq factor, integer]
    exact congrArg Except.ok (cuts _)
  rw [Backoff.calculate_capped, delay]
  rfl

/-- Delays grow with the attempt. -/
theorem scaledDelay_mono (hbase : 0 ≤ base) {m n : Int} (le : m ≤ n) :
    scaledDelay k base cap m ≤ scaledDelay k base cap n := by
  have multiplier : k (max m 1).toNat ≤ k (max n 1).toNat := h.mono (by omega) (by omega)
  exact clip_mono (Int.mul_le_mul_of_nonneg_left (by exact_mod_cast multiplier) hbase) (le_refl cap)

end Growth.Scales

/-! ## Laws of growth -/

/-- The laws of integer delays, by base, cap and attempt. -/
structure DelayLaws (delay : Int → WithTop Int → Int → Int) : Prop where
  nonneg : ∀ base cap n, 0 ≤ base → 0 < cap → 0 ≤ delay base cap n
  le_cap : ∀ base cap n, 0 ≤ base → 0 < cap → (delay base cap n : WithTop Int) ≤ cap
  grows : ∀ base cap n, 0 ≤ base → 0 < cap → delay base cap n ≤ delay base cap (n + 1)
  /-- Attempts below the first count as the first. -/
  first : ∀ base cap n, 0 ≤ base → 0 < cap → n ≤ 1 → delay base cap n = delay base cap 1
  /-- A delay that has come to the cap stays there. -/
  stays : ∀ base cap m n, 0 ≤ base → 0 < cap → m ≤ n → (delay base cap m : WithTop Int) = cap →
    (delay base cap n : WithTop Int) = cap
  mono_base : ∀ base base' cap n, 0 ≤ base → base ≤ base' → 0 < cap → delay base cap n ≤ delay base' cap n
  mono_cap : ∀ base cap cap' n, 0 ≤ base → 0 < cap → cap ≤ cap' → delay base cap n ≤ delay base cap' n
  /-- A delay is what it would be without a cap, or the cap if that is less. -/
  cut : ∀ base cap n, 0 ≤ base → 0 < cap →
    (delay base cap n : WithTop Int) = min (delay base ⊤ n : WithTop Int) cap

theorem Growth.Scales.delayLaws {g : Growth} {k : Nat → Nat} (h : g.Scales k) : DelayLaws (scaledDelay k) where
  nonneg _ _ n hbase hcap := scaledDelay_nonneg hbase hcap n
  le_cap _ _ n _ _ := scaledDelay_le_cap n
  grows _ _ n hbase _ := h.scaledDelay_mono hbase (by omega)
  first base cap n _ _ hn := by
    rw [scaledDelay, scaledDelay, show max n 1 = max 1 1 by omega]
  stays base cap m n hbase hcap le here := by
    have later : (scaledDelay k base cap m : WithTop Int) ≤ scaledDelay k base cap n :=
      WithTop.coe_le_coe.2 (h.scaledDelay_mono hbase le)
    exact le_antisymm (scaledDelay_le_cap n) (here.symm.le.trans later)
  mono_base base base' cap n _ le _ :=
    clip_mono (Int.mul_le_mul_of_nonneg_right le (Int.natCast_nonneg _)) (le_refl cap)
  mono_cap base cap cap' n _ _ le := clip_mono (le_refl _) le
  cut base cap n _ _ := coe_clip cap _

/-- From an integer that is not below zero, and from an integer above zero or nothing for a cap, every built-in
growth makes a backoff. It gives integers for all attempts, which obey the laws, and what it gives is what a wait
is given that asks for a delay: none is refused. -/
theorem integer_delays_lawful {g : Growth} (builtIn : g.BuiltIn) :
    ∃ delay : Int → WithTop Int → Int → Int, DelayLaws delay ∧
      ∀ base cap, 0 ≤ base → 0 < cap → ∃ c, Capped.make g (.int base) (.ofCap cap) = .ok c ∧
        c.Gives (delay base cap) ∧ ∀ ⦃σ : Type⦄ (n : Int) (w : World σ),
          (Backoff.capped c).nextDelay (.int n) w =
            (.ok (.int (delay base cap n)), { w with history := w.history ++ [.asked (.int n)] }) := by
  obtain ⟨k, scales⟩ := builtIn.scales
  refine ⟨scaledDelay k, scales.delayLaws, fun base cap hbase hcap => ?_⟩
  obtain ⟨c, made, gives⟩ := scales.delays hbase hcap
  refine ⟨c, made, gives, fun σ n w => ?_⟩
  have nonneg : 0 ≤ scaledDelay k base cap n := scaledDelay_nonneg hbase hcap n
  exact nextDelay_apply (gives n w.caller) (by simpa using nonneg)

/-- Three seconds that are doubled and cut off at ten: twelve would be the third delay, and so from there on all
delays are ten. -/
theorem integer_delays_lawful_doubling : Growth.exponential.BuiltIn ∧
    ∃ c, Capped.make .exponential (.int 3) (.int 10) = .ok c ∧
      ((Backoff.capped c).calculate (.int 2) (⟨(), 0, []⟩ : Caller Unit)).1 = .ok (.int 6) ∧
      ∀ n : Int, 3 ≤ n →
        ((Backoff.capped c).calculate (.int n) (⟨(), 0, []⟩ : Caller Unit)).1 = .ok (.int 10) := by
  refine ⟨.exponential, ?_⟩
  obtain ⟨delay, laws, makes⟩ := integer_delays_lawful .exponential
  obtain ⟨c, made, gives, -⟩ := makes 3 (10 : Int) (by decide) (by decide)
  obtain rfl : (⟨.exponential, .int 3, some (.int 10), by decide, by simp⟩ : Capped) = c :=
    Except.ok.inj made
  have third : delay 3 (10 : Int) 3 = 10 := by
    have given := congrArg Prod.fst (gives 3 (⟨(), 0, []⟩ : Caller Unit))
    exact Number.int.inj (Value.number.inj (Except.ok.inj given.symm))
  refine ⟨_, made, rfl, fun n hn => ?_⟩
  have later := laws.stays 3 (10 : Int) 3 n (by decide) (by decide) hn (congrArg WithTop.some third)
  rw [gives, show delay 3 (10 : Int) n = 10 from WithTop.coe_inj.1 later]

/-! ## One delay from the other -/

/-- The first delay is the base, cut off. -/
theorem Growth.Scales.scaledDelay_one {g : Growth} {k : Nat → Nat} (h : g.Scales k) {base : Int}
    {cap : WithTop Int} : scaledDelay k base cap 1 = clip cap base := by
  rw [scaledDelay_of_pos (le_refl 1), show (1 : Int).toNat = 1 from rfl, h.first, Nat.cast_one, Int.mul_one]

/-- For every built-in growth, the delays that are computed from the attempt are those that are computed one from
the other and cut off each time: doubling the latest one, adding up the latest two, and adding the base to the
latest one. -/
theorem integer_delays_recur {base : Int} {cap : WithTop Int} (hbase : 0 ≤ base) (hcap : 0 < cap) :
    (∃ delay, Growth.exponential.Delays base cap delay ∧
      (delay 1 : WithTop Int) = min (base : WithTop Int) cap ∧
      ∀ n, 1 ≤ n → (delay (n + 1) : WithTop Int) = min ((2 * delay n : Int) : WithTop Int) cap) ∧
    (∃ delay, Growth.fibonacci.Delays base cap delay ∧
      (delay 1 : WithTop Int) = min (base : WithTop Int) cap ∧
      (delay 2 : WithTop Int) = min (base : WithTop Int) cap ∧
      ∀ n, 1 ≤ n → (delay (n + 2) : WithTop Int) = min ((delay (n + 1) + delay n : Int) : WithTop Int) cap) ∧
    ∃ delay, Growth.linear.Delays base cap delay ∧
      (delay 1 : WithTop Int) = min (base : WithTop Int) cap ∧
      ∀ n, 1 ≤ n → (delay (n + 1) : WithTop Int) = min ((delay n + base : Int) : WithTop Int) cap := by
  simp only [← coe_clip, WithTop.coe_inj]
  refine ⟨⟨_, Growth.scales_exponential.delays hbase hcap, Growth.scales_exponential.scaledDelay_one, ?_⟩,
    ⟨_, Growth.scales_fibonacci.delays hbase hcap, Growth.scales_fibonacci.scaledDelay_one, ?_, ?_⟩,
    ⟨_, Growth.scales_linear.delays hbase hcap, Growth.scales_linear.scaledDelay_one, ?_⟩⟩
  · intro n hn
    rw [Int.two_mul]
    refine scaledDelay_add hbase hcap hn hn (by omega) ?_
    rw [show (n + 1).toNat - 1 = n.toNat - 1 + 1 by omega, pow_succ, mul_two]
  · rw [scaledDelay_of_pos (by decide), show (2 : Int).toNat = 2 from rfl, Nat.fib_two, Nat.cast_one,
      Int.mul_one]
  · intro n hn
    refine scaledDelay_add hbase hcap hn (by omega) (by omega) ?_
    rw [show (n + 2).toNat = n.toNat + 2 by omega, show (n + 1).toNat = n.toNat + 1 by omega,
      Nat.fib_add_two, Nat.add_comm]
  · intro n hn
    have next : base * ((n + 1).toNat : Int) = base * (n.toNat : Int) + base := by
      rw [show (n + 1).toNat = n.toNat + 1 by omega, Nat.cast_succ, Int.mul_add, Int.mul_one]
    rw [scaledDelay_of_pos hn, scaledDelay_of_pos (by omega), clip_clip_add hbase, next]

/-- Two seconds that grow along the Fibonacci numbers and are cut off at seven: the fourth delay is six, and the
fifth one is cut off although it is computed from delays that are not. -/
theorem integer_delays_recur_fibonacci : (0 : Int) ≤ 2 ∧ (0 : WithTop Int) < (7 : Int) ∧
    ∃ delay, Growth.fibonacci.Delays 2 (7 : Int) delay ∧
      delay 1 = 2 ∧ delay 2 = 2 ∧ delay 3 = 4 ∧ delay 4 = 6 ∧ delay 5 = 7 ∧ delay 6 = 7 := by
  obtain ⟨-, ⟨delay, gives, first, second, next⟩, -⟩ :=
    integer_delays_recur (show (0 : Int) ≤ 2 by decide) (show (0 : WithTop Int) < (7 : Int) by decide)
  simp only [← coe_clip, WithTop.coe_inj, clip_coe] at first second next
  have third := next 1 (by decide)
  have fourth := next 2 (by decide)
  have fifth := next 3 (by decide)
  have sixth := next 4 (by decide)
  norm_num at first second third fourth fifth sixth
  rw [first, second] at third
  rw [third, second] at fourth
  rw [fourth, third] at fifth
  rw [fifth, fourth] at sixth
  exact ⟨by decide, by decide, delay, gives, first, second, third, fourth, fifth, sixth⟩

end Polling
