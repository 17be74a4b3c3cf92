import Mathlib.Data.Nat.Fib.Basic
import Polling.Proofs.Agreement
import Polling.Proofs.Magnitude
import Polling.Proofs.RunProtocol
import Polling.Proofs.Transitions

/-!
# The delays of a wait

The walk along the Fibonacci numbers computes what their recursion tells (`fibonacci_by_recursion`): a pair
of neighbours stays one at every step (`fibonacciWalk_fib`).

The growths of the built-in backoffs multiply by positive integers (`Growth.Scales`). Hence the delay after
an attempt is not below zero, and it is a number if the base is one; it fails to be there only where the
base is a double and the multiplier does not fit into one, since the product is formed before it is cut off
(`Capped.calculate_within`). A delay that is cut off is at most the cap, unless one of them is not
a number (`Capped.delay_le_cap_iff`).

What is not below zero is at least zero or not a number, and this is what the check lets pass that stands
between a backoff and a wait (`delays_nonneg_or_nan`). Everything that a wait spends has passed it:
`Blocking.run_grants` and `Session.Reachable.grants` say that each delay of a run is one that the backoff
has given.
-/

namespace Polling

/-! ## Built-in growths -/

theorem fibonacciWalk_fib (steps i : Nat) :
    fibonacciWalk steps ((Nat.fib i : Int), (Nat.fib (i + 1) : Int)) =
      ((Nat.fib (i + steps) : Int), (Nat.fib (i + steps + 1) : Int)) := by
  induction steps generalizing i with
  | zero => rfl
  | succ steps ih =>
    have next : (Nat.fib i : Int) + Nat.fib (i + 1) = Nat.fib (i + 1 + 1) := by
      rw [Nat.fib_add_two, Nat.cast_add]
    rw [fibonacciWalk, next, ih (i + 1), Nat.add_right_comm, Nat.add_assoc i steps 1]

/-- The walk computes the Fibonacci numbers. -/
theorem fibonacci_eq_fib (n : Nat) : fibonacci n = Nat.fib n := by
  cases n with
  | zero => rfl
  | succ k =>
    have walked := fibonacciWalk_fib k 0
    simp only [Nat.fib_zero, Nat.fib_one, Nat.zero_add, Nat.cast_zero, Nat.cast_one] at walked
    rw [fibonacci, show ((k + 1 : Nat) : Int).toNat - 1 = k by simp, walked]
    exact if_pos (by omega)

/-- Of negative numbers, there is nothing to compute. -/
theorem fibonacci_eq_fib_toNat (n : Int) : fibonacci n = Nat.fib n.toNat := by
  rcases Int.le_total 0 n with nonneg | below
  · obtain ⟨m, rfl⟩ := Int.eq_ofNat_of_zero_le nonneg
    exact fibonacci_eq_fib m
  · rw [Int.toNat_of_nonpos below, fibonacci]
    exact if_neg (by omega)

/-- The Fibonacci numbers are told by their recursion. -/
theorem eq_fib_of_recursion {F : Nat → Int} (zero : F 0 = 0) (one : F 1 = 1)
    (next : ∀ n, F (n + 2) = F (n + 1) + F n) (n : Nat) : F n = Nat.fib n := by
  induction n using Nat.twoStepInduction with
  | zero => exact zero
  | one => exact one
  | more n ih ih' => rw [next, ih, ih', Nat.fib_add_two, Nat.cast_add, Int.add_comm]

/-- A whole number is an index of the Fibonacci numbers, and there is one at every index. -/
theorem Growth.fibonacciAt_of_whole {x : Number} {n : Int} (whole : x.whole? = some n) :
    fibonacciAt x = .ok (.int (Nat.fib n.toNat)) := by
  rw [← fibonacci_eq_fib_toNat]
  cases x with
  | flag b =>
    obtain rfl := Option.some.inj whole
    rfl
  | int m =>
    obtain rfl := Option.some.inj whole
    rfl
  | real y => exact nomatch whole

/-- For each whole number there is the Fibonacci number at its place, in the sequence that begins with zero and
one and goes on with the sum of the latest two numbers; below zero there is zero. The growth gives the same
number as the function, and neither fails, however large the number is. -/
theorem fibonacci_by_recursion {F : Nat → Int} (zero : F 0 = 0) (one : F 1 = 1)
    (next : ∀ n, F (n + 2) = F (n + 1) + F n) {x : Number} {n : Int} (whole : x.whole? = some n) :
    Growth.fibonacciOf (.number x) = .ok (.int (if 0 ≤ n then F n.toNat else 0)) ∧
      Growth.fibonacci.factor x = .ok (.int (if 0 ≤ n then F n.toNat else 0)) := by
  have value : (if 0 ≤ n then F n.toNat else 0) = (Nat.fib n.toNat : Int) := by
    split
    · exact eq_fib_of_recursion zero one next n.toNat
    · next below => rw [Int.toNat_of_nonpos (by omega), Nat.fib_zero, Nat.cast_zero]
  rw [value]
  refine ⟨?_, Growth.fibonacciAt_of_whole whole⟩
  have cut : (max n 0).toNat = n.toNat := by omega
  have atLeast := Growth.fibonacciAt_of_whole (Number.whole?_max whole (b := .int 0) rfl)
  rwa [cut] at atLeast

/-- The tenth number is fifty-five, the number for a raised flag is the first, and before the sequence begins
there is zero. -/
theorem fibonacci_by_recursion_tenth :
    ∃ F : Nat → Int, F 0 = 0 ∧ F 1 = 1 ∧ (∀ n, F (n + 2) = F (n + 1) + F n) ∧ F 10 = 55 ∧
      Growth.fibonacciOf (.int 10) = .ok (.int 55) ∧
      Growth.fibonacciOf (.flag true) = .ok (.int 1) ∧
      Growth.fibonacciOf (.int (-3)) = .ok (.int 0) := by
  have next : ∀ n, (Nat.fib (n + 2) : Int) = Nat.fib (n + 1) + Nat.fib n := by
    intro n
    rw [Nat.fib_add_two, Nat.cast_add, Int.add_comm]
  have number {x : Number} {n : Int} (whole : x.whole? = some n) :=
    (fibonacci_by_recursion (F := fun n => Nat.fib n) rfl rfl next whole).1
  refine ⟨fun n => Nat.fib n, rfl, rfl, next, rfl, ?_, ?_, ?_⟩
  · exact number (x := .int 10) rfl
  · exact number (x := .flag true) rfl
  · exact number (x := .int (-3)) rfl

namespace Growth

/-- A growth of a built-in backoff. -/
inductive BuiltIn : Growth → Prop where
  | linear : BuiltIn linear
  | exponential : BuiltIn exponential
  | fibonacci : BuiltIn fibonacci

/-- A growth multiplies by these integers: by one after the first attempt, and by no less after a later one. -/
structure Scales (g : Growth) (k : Nat → Nat) : Prop where
  factor : ∀ n : Nat, 0 < n → g.factor (.int n) = .ok (.int (k n))
  first : k 1 = 1
  grows : ∀ n, 0 < n → k n ≤ k (n + 1)

theorem scales_linear : linear.Scales fun n => n where
  factor _ _ := rfl
  first := rfl
  grows n _ := Nat.le_succ n

theorem scales_exponential : exponential.Scales fun n => 2 ^ (n - 1) where
  factor := by
    intro n hn
    have power : Int.pow 2 ((n : Int) - 1).toNat = ((2 ^ (n - 1) : Nat) : Int) := by
      rw [show ((n : Int) - 1).toNat = n - 1 by omega, Nat.cast_pow]
      rfl
    exact congrArg (fun k => Except.ok (Number.int k)) power
  first := rfl
  grows n _ := Nat.pow_le_pow_right (by omega) (by omega)

theorem scales_fibonacci : fibonacci.Scales Nat.fib where
  factor n _ := congrArg (fun k => Except.ok (Number.int k)) (fibonacci_eq_fib n)
  first := Nat.fib_one
  grows _ _ := Nat.fib_le_fib_succ

theorem BuiltIn.scales {g : Growth} (h : g.BuiltIn) : ∃ k, g.Scales k := by
  cases h with
  | linear => exact ⟨_, scales_linear⟩
  | exponential => exact ⟨_, scales_exponential⟩
  | fibonacci => exact ⟨_, scales_fibonacci⟩

namespace Scales

variable {g : Growth} {k : Nat → Nat} (h : g.Scales k)
include h

theorem mono {m n : Nat} (hm : 0 < m) (le : m ≤ n) : k m ≤ k n := by
  induction n, le using Nat.le_induction with
  | base => exact le_refl _
  | succ n le ih => exact ih.trans (h.grows n (by omega))

theorem pos {n : Nat} (hn : 0 < n) : 0 < k n := by
  have first := h.mono one_pos hn
  rw [h.first] at first
  exact first

end Scales

end Growth

/-! ## Capped delays -/

namespace Capped

variable {c : Capped}

/-- The delay after an attempt is the base times the growth, cut off. -/
theorem delay_eq {n : Int} {k : Number} (factor : c.growth.factor (.int (max n 1)) = .ok k) :
    c.delay (.int n) =
      (c.base.mul? k).elim (.error .integerTooLarge) fun d => .ok (cutOff c.cap d) := by
  have least : (Value.int n).atLeast 1 = .ok (.int (max n 1)) := by
    have greater : (Number.int n).max (.int 1) = .int (max n 1) := by
      simp only [Number.max, Number.int_lt_int, decide_eq_true_eq]
      split <;> congr 1 <;> omega
    exact congrArg Except.ok greater
  simp only [Capped.delay, least, factor, bind, Except.bind]
  cases c.base.mul? k <;> rfl

/-- The delay after an attempt for which the growth is a positive integer: it is there unless the base is a
double and the integer is too large for one, and it is what the product is cut off to. -/
theorem delay_of_factor {n : Int} {k : Nat} (factor : c.growth.factor (.int (max n 1)) = .ok (.int k))
    (hk : 0 < k) :
    if c.base.whole? = none ∧ Binary64.tooLarge ≤ k then c.delay (.int n) = .error .integerTooLarge
    else ∃ d, c.delay (.int n) = .ok (cutOff c.cap d) ∧ d.lt (.int 0) = false ∧
      (d = .real .nan ↔ c.base = .real .nan) := by
  have product := Number.mul?_int c.base_ok hk
  rw [delay_eq factor]
  split at product
  · next spills =>
    rw [if_pos spills, product]
    rfl
  · next fits =>
    obtain ⟨d, product, nonneg, number⟩ := product
    rw [if_neg fits, product]
    exact ⟨d, rfl, nonneg, number⟩

/-- The growth of an attempt is that of the first one or of a later one. -/
theorem factor_of_scales {k : Nat → Nat} (scales : c.growth.Scales k) (n : Int) :
    c.growth.factor (.int (max n 1)) = .ok (.int (k (max n 1).toNat)) := by
  have least := scales.factor (max n 1).toNat (by omega)
  rwa [Int.toNat_of_nonneg (by omega)] at least

/-- Every attempt has a positive integer for its growth, if the growth is a built-in one. -/
theorem exists_factor (builtIn : c.growth.BuiltIn) (n : Int) :
    ∃ k : Nat, 0 < k ∧ c.growth.factor (.int (max n 1)) = .ok (.int k) := by
  obtain ⟨k, scales⟩ := builtIn.scales
  exact ⟨_, scales.pos (by omega), c.factor_of_scales scales n⟩

/-- Cutting off gives what is cut off or the cap, so it keeps what both of them are. -/
theorem cutOff_of_both {p : Number → Prop} {d : Number} (hd : p d) (hc : ∀ m ∈ c.cap, p m) :
    p (cutOff c.cap d) := by
  cases hcap : c.cap with
  | none => exact hd
  | some m => exact Number.min_of_both hd (hc m (by simp [hcap]))

theorem cutOff_eq_nan {d : Number} : cutOff c.cap d = .real .nan ↔ d = .real .nan := by
  cases c.cap with
  | none => exact Iff.rfl
  | some m => exact Number.min_eq_nan

/-- A delay that is there, for a built-in growth, is not below zero, and it is a number if the base is
one. -/
theorem delay_nonneg (builtIn : c.growth.BuiltIn) {n : Int} {d : Number}
    (h : c.delay (.int n) = .ok d) :
    d.lt (.int 0) = false ∧ (d = .real .nan ↔ c.base = .real .nan) := by
  obtain ⟨k, hk, factor⟩ := c.exists_factor builtIn n
  have delay := delay_of_factor factor hk
  split at delay
  · exact nomatch h.symm.trans delay
  · obtain ⟨x, hx, nonneg, number⟩ := delay
    obtain rfl := Except.ok.inj (h.symm.trans hx)
    refine ⟨cutOff_of_both (p := (·.lt (.int 0) = false)) nonneg fun m hm => ?_, ?_⟩
    · exact Number.lt_eq_false_of_le (c.cap_ok m hm)
    · rw [cutOff_eq_nan]
      exact number

/-- A delay is at most the cap exactly if both are numbers. -/
theorem delay_le_cap_iff {cap : Number} (hcap : c.cap = some cap) {attempt : Value} {d : Number}
    (h : c.delay attempt = .ok d) : d.le cap = true ↔ d ≠ .real .nan ∧ cap ≠ .real .nan := by
  have cut : ∃ x : Number, d = x.min cap := by
    simp only [Capped.delay, hcap, bind, Except.bind] at h
    split at h
    · exact nomatch h
    · split at h
      · exact nomatch h
      · split at h
        · exact ⟨_, (Except.ok.inj h).symm⟩
        · exact nomatch h
  obtain ⟨x, rfl⟩ := cut
  rw [Number.min_le_right_iff]
  exact and_congr_left' (not_congr Number.min_eq_nan.symm)

end Capped

theorem Backoff.calculate_capped (c : Capped) (attempt : Value) (caller : Caller σ) :
    (Backoff.capped c).calculate attempt caller =
      (((c.delay attempt).map Value.number).mapError Misuse.fault, caller) := by
  rw [calculate, Code.lift]
  cases c.delay attempt <;> rfl

/-- The delay that a built-in backoff gives, with a base and a cap that are numbers: it lies between zero
and the cap, and it is there for every attempt, except where the base is a double and the multiplier is too
large for one. -/
theorem Capped.calculate_within {c : Capped} (builtIn : c.growth.BuiltIn) (base : c.base ≠ .real .nan)
    {cap : Number} (hcap : c.cap = some cap) (number : cap ≠ .real .nan) (n : Int) (caller : Caller σ) :
    ∃ k : Nat, c.growth.factor (.int (max n 1)) = .ok (.int k) ∧
      if c.base.whole? = none ∧ Binary64.tooLarge ≤ k then
        (Backoff.capped c).calculate (.int n) caller = (.error Misuse.integerTooLarge.fault, caller)
      else ∃ d, (Backoff.capped c).calculate (.int n) caller = (.ok (.number d), caller) ∧
        (Number.int 0).le d = true ∧ d.le cap = true := by
  obtain ⟨k, hk, factor⟩ := c.exists_factor builtIn n
  have delay := delay_of_factor factor hk
  refine ⟨k, factor, ?_⟩
  split at delay
  · next spills =>
    rw [if_pos spills, Backoff.calculate_capped, delay]
    rfl
  · next fits =>
    obtain ⟨x, delay, -, -⟩ := delay
    obtain ⟨nonneg, notNumber⟩ := delay_nonneg builtIn delay
    have real : cutOff c.cap x ≠ .real .nan := mt notNumber.1 base
    rw [if_neg fits, Backoff.calculate_capped, delay]
    refine ⟨cutOff c.cap x, rfl, ?_, (delay_le_cap_iff hcap delay).2 ⟨real, number⟩⟩
    exact ((Number.lt_eq_false_iff (by simp)).1 nonneg).resolve_right real

/-- A double that is doubled after every attempt has a delay for the first 1024 attempts. -/
theorem Capped.delay_exponential {c : Capped} (growth : c.growth = .exponential)
    (double : c.base.whole? = none) (n : Int) :
    c.delay (.int n) = .error .integerTooLarge ↔ 1025 ≤ n := by
  obtain ⟨j, hj⟩ : ∃ j : Nat, (max n 1).toNat - 1 = j := ⟨_, rfl⟩
  have factor : c.growth.factor (.int (max n 1)) = .ok (.int (2 ^ j : Nat)) := by
    rw [← hj]
    exact c.factor_of_scales (growth ▸ Growth.scales_exponential) n
  have delay := delay_of_factor factor (Nat.two_pow_pos j)
  have bound : 1024 ≤ j ↔ 1025 ≤ n := by omega
  rw [← bound, ← Binary64.tooLarge_le_two_pow_iff]
  split at delay
  · next spills => exact iff_of_true delay spills.2
  · next fits =>
    obtain ⟨x, delay, -⟩ := delay
    exact iff_of_false (by rw [delay]; exact nofun) fun large => fits ⟨double, large⟩

/-- Half a second, doubled after every attempt and cut off at five seconds. -/
def Capped.doubling : Capped where
  growth := .exponential
  base := .real (.finite false (Binary64.unitsPerOne / 2))
  cap := some (.real (.finite false (5 * Binary64.unitsPerOne)))
  base_ok := by decide +kernel
  cap_ok := by
    intro c hc
    obtain rfl := Option.some.inj hc
    decide +kernel

/-- The delay after the fourth attempt is there and within the cap. -/
theorem Capped.calculate_within_doubling :
    doubling.growth.BuiltIn ∧ doubling.base ≠ .real .nan ∧
      ∃ cap, doubling.cap = some cap ∧ cap ≠ .real .nan ∧
        ∃ d, (Backoff.capped doubling).calculate (.int 4) (⟨(), 0, []⟩ : Caller Unit) =
          (.ok (.number d), ⟨(), 0, []⟩) ∧ (Number.int 0).le d = true ∧ d.le cap = true := by
  refine ⟨.exponential, by simp [doubling], _, rfl, by simp, ?_⟩
  obtain ⟨k, factor, within⟩ := calculate_within (c := doubling) .exponential (by simp [doubling]) rfl
    (by simp) 4 (⟨(), 0, []⟩ : Caller Unit)
  have eight : (Except.ok (.int (2 ^ 3 : Nat)) : Except Misuse Number) = .ok (.int k) := factor
  obtain rfl : 2 ^ 3 = k := by exact_mod_cast Number.int.inj (Except.ok.inj eight)
  have fits : ¬(doubling.base.whole? = none ∧ Binary64.tooLarge ≤ 2 ^ 3) := by
    rw [Binary64.tooLarge_le_two_pow_iff]
    omega
  rwa [if_neg fits] at within

/-- Past the first 1024 attempts there is no delay, although there is a cap. -/
theorem Capped.doubling_spills :
    (Backoff.capped doubling).calculate (.int 1025) (⟨(), 0, []⟩ : Caller Unit) =
      (.error Misuse.integerTooLarge.fault, ⟨(), 0, []⟩) := by
  have spills : doubling.delay (.int 1025) = .error .integerTooLarge :=
    (delay_exponential rfl rfl 1025).2 (by decide)
  rw [Backoff.calculate_capped, spills]
  rfl

/-! ## What a backoff gives to a wait -/

/-- The check between a backoff and a wait lets a number pass if it is at least zero, and not-a-number. -/
theorem Backoff.nextDelay_eq_ok {b : Backoff σ} {attempt : Value} {w : World σ} {d : Number} :
    (b.nextDelay attempt w).1 = .ok d ↔ (b.calculate attempt w.caller).1 = .ok (.number d) ∧
      ((Number.int 0).le d = true ∨ d = .real .nan) := by
  rw [← Number.lt_eq_false_iff (by simp : (Number.int 0) ≠ .real .nan)]
  rcases hc : b.calculate attempt w.caller with ⟨e | v, c⟩
  · have raised : (b.nextDelay attempt w).1 = .error e := by
      simp only [nextDelay, Act.bind_apply, Act.call_apply, hc]
    simp [raised]
  · have checked : (b.nextDelay attempt w).1 = (v.nonNegative .negativeBackoff).mapError Misuse.fault := by
      simp only [nextDelay, Act.bind_apply, Act.call_apply, hc]
      rfl
    rw [checked]
    constructor
    · intro passes
      cases passed : v.nonNegative .negativeBackoff with
      | error m => simp [passed, Except.mapError] at passes
      | ok d' =>
        obtain rfl : d' = d := by simpa [passed, Except.mapError] using passes
        obtain ⟨rfl, nonneg⟩ := of_nonNegative passed
        exact ⟨rfl, nonneg⟩
    · rintro ⟨given, nonneg⟩
      obtain rfl := Except.ok.inj given
      rw [nonNegative_number nonneg]
      rfl

/-- A backoff gives a delay to a wait that asks for one. -/
def Backoff.Grants (b : Backoff σ) (d : Number) : Prop := ∃ attempt w, (b.nextDelay attempt w).1 = .ok d

theorem Backoff.GrantsAfter.grants {b : Backoff σ} {n : Nat} {d : Number} (h : b.GrantsAfter n d) :
    b.Grants d := by
  obtain ⟨w, given⟩ := h
  exact ⟨.int n, w, given⟩

/-! ## What a wait spends -/

namespace Blocking

variable (b : Blocking σ)

/-- An entry spends what the backoff has given, if it spends a delay. -/
def Granted (e : Event) : Prop := ∀ d, e.delay? = some d → b.waiter.strategy.backoff.Grants d

theorem judge_grants {n : Notifier σ} {wt : Waiter σ} {o : Outcome} {i : Nat} {started : Value} {w : World σ}
    {d : Number} (h : (n.judge wt o i started w).1 = .ok (.inr d)) :
    wt.strategy.backoff.GrantsAfter i d := by
  have judged : n.judge wt o i started w = (.ok (.inr d), (n.judge wt o i started w).2) := Prod.ext h rfl
  obtain ⟨t, w₁, evaluated, judged⟩ := Act.bind_eq_ok.1 judged
  obtain ⟨⟨⟩, w₂, -, told⟩ := Act.bind_eq_ok.1 judged
  obtain rfl := Transition.next_eq_inr (Act.pure_eq_ok.1 told).1
  exact (evaluate_eq_retry (congrArg Prod.fst evaluated)).given

/-- A round spends no delay and is the last one, or it closes with a delay that the backoff has given after its
attempt. Up to there it calls the operation once, unless the hook before raises a fault. -/
theorem round_parts (started : Value) (i : Nat) (w : World σ) : ∃ es w',
    w'.history = w.history ++ es ∧ (∀ e ∈ es, e.delay? = none) ∧
      ((b.waiter.hooks.getD {}).RaisesOnly (fun _ => False) → es.countP Event.isPolled = 1) ∧
      ((∃ r, b.round started i w = (r, w') ∧ r ≠ .ok none) ∨
        ∃ d, b.waiter.strategy.backoff.GrantsAfter i d ∧
          b.round started i w = b.close started i (.inr d) w') := by
  have silent : ∀ {es : List Event}, (∀ e ∈ es, e.delay? = none ∧ e.isPolled = false) →
      (∀ e ∈ es, e.delay? = none) ∧ es.countP Event.isPolled = 0 := fun h =>
    ⟨fun e he => (h e he).1, List.countP_eq_zero.2 fun e he => by simp [(h e he).2]⟩
  obtain ⟨es, opened, before⟩ := Notifier.opening_enters
    (P := fun e => e.delay? = none ∧ e.isPolled = false) (fun _ _ => ⟨rfl, rfl⟩) (fun _ => ⟨rfl, rfl⟩)
    b.notifier i b.waiter.strategy.limit w
  obtain ⟨undelayed, unpolled⟩ := silent before
  rw [round_eq, Act.bind_apply]
  rcases ho : b.notifier.opening i b.waiter.strategy.limit w with ⟨e | ⟨⟩, w₁⟩ <;> rw [ho] at opened
  · refine ⟨es, w₁, opened, undelayed, fun hooks => ?_, .inl ⟨_, rfl, by simp⟩⟩
    exact (Notifier.opening_raisesOnly (n := b.notifier) hooks i _ w e (congrArg Prod.fst ho)).elim
  -- the operation is called once, and nothing behind its call calls it again
  have once : ∀ {later : List Event}, (∀ e ∈ later, e.delay? = none ∧ e.isPolled = false) →
      (∀ e ∈ es ++ Event.polled i :: later, e.delay? = none) ∧
        (es ++ Event.polled i :: later).countP Event.isPolled = 1 := by
    intro later h
    obtain ⟨undelayed', unpolled'⟩ := silent h
    constructor
    · exact List.forall_mem_append.2 ⟨undelayed, List.forall_mem_cons.2 ⟨rfl, undelayed'⟩⟩
    · rw [List.countP_append, unpolled, List.countP_cons_of_pos rfl, unpolled']
  have polled := (b.poll_history i w₁).1
  simp only [Act.bind_apply]
  rcases hp : b.poll i w₁ with ⟨e | o, w₂⟩ <;> rw [hp] at polled <;> dsimp only at opened polled
  · obtain ⟨undelayed', counts⟩ := @once [] (by simp)
    exact ⟨_, w₂, by rw [polled, opened, List.append_assoc], undelayed', fun _ => counts, .inl ⟨_, rfl, by simp⟩⟩
  obtain ⟨later, judged, behind⟩ := judge_enters (P := fun e => e.delay? = none ∧ e.isPolled = false)
    (fun _ _ => ⟨rfl, rfl⟩) (fun _ => ⟨rfl, rfl⟩) (fun _ _ => ⟨rfl, rfl⟩) (fun _ => ⟨rfl, rfl⟩)
    b.notifier b.waiter o i started ⟨rfl, rfl⟩ w₂
  obtain ⟨undelayed', counts⟩ := once behind
  dsimp only
  rcases hj : b.notifier.judge b.waiter o i started w₂ with ⟨e | next, w₃⟩ <;> rw [hj] at judged <;>
    dsimp only at judged
  all_goals
    have history : w₃.history = w.history ++ (es ++ Event.polled i :: later) := by
      rw [judged, polled, opened, List.append_assoc, List.append_assoc, List.singleton_append]
  · exact ⟨_, w₃, history, undelayed', fun _ => counts, .inl ⟨_, rfl, by simp⟩⟩
  · refine ⟨_, w₃, history, undelayed', fun _ => counts, ?_⟩
    cases next with
    | inl c => exact .inl ⟨.ok (some c), rfl, by simp⟩
    | inr d => exact .inr ⟨d, judge_grants (congrArg Prod.fst hj), rfl⟩

/-- A round spends what the backoff has given. -/
theorem round_grants (started : Value) (i : Nat) : (b.round started i).Enters b.Granted := by
  intro w
  obtain ⟨es, w', history, undelayed, -, ⟨r, ends, -⟩ | ⟨d, given, closes⟩⟩ := b.round_parts started i w
  all_goals
    have before : ∀ e ∈ es, b.Granted e := fun e he d delay => nomatch delay.symm.trans (undelayed e he)
  · exact ⟨es, by rw [ends, history], before⟩
  · have spent : ∀ d', (.inr d : Conclusion ⊕ Number) = .inr d' → ∀ x, some d' = some x →
        b.waiter.strategy.backoff.Grants x := by
      rintro d' ⟨⟩ x ⟨⟩
      exact given.grants
    obtain ⟨es', history', granted⟩ := b.close_enters (P := b.Granted) (fun _ _ => nofun) (fun _ => nofun)
      started i (.inr d) spent spent w'
    exact ⟨es ++ es', by rw [closes, history', history, List.append_assoc],
      List.forall_mem_append.2 ⟨before, granted⟩⟩

theorem rounds_grants (started : Value) (left i : Nat) : (b.rounds started left i).Enters b.Granted := by
  induction left generalizing i with
  | zero => exact Act.enters_pure _
  | succ left ih =>
    refine Act.enters_bind (b.round_grants started i) fun conclusion => ?_
    cases conclusion with
    | some c => exact Act.enters_pure _
    | none => exact ih (i + 1)

/-- A run spends what the backoff has given. -/
theorem run_grants : b.run.Enters b.Granted :=
  Act.enters_bind (Act.enters_read _) fun _ => b.rounds_grants _ _ _

end Blocking

namespace Asynchronous

variable {a : Asynchronous σ} {run : RunId} {f f' : Frame σ} {es : List Event} {os : List Order}

/-- Every delay that is handed to the scheduler has been given by the backoff. -/
def Granted (a : Asynchronous σ) (es : List Event) : Prop :=
  ∀ d, .scheduled d ∈ es → a.waiter.strategy.backoff.Grants d

theorem granted_of_quiet (h : Quiet es) : a.Granted es := by
  intro d mem
  exact nomatch h _ mem

theorem Granted.append {es' : List Event} (h : a.Granted es) (h' : a.Granted es') :
    a.Granted (es ++ es') := by
  intro d mem
  rcases List.mem_append.1 mem with mem | mem
  · exact h d mem
  · exact h' d mem

theorem Concludes.granted {o : Outcome} {n : Nat} (h : a.Concludes run o n f f' es os) : a.Granted es := by
  rcases h.entries with quiet | ⟨d, E, q, q', rfl, evaluates, quiet, quiet'⟩
  · exact granted_of_quiet quiet
  · have given : a.Granted [.scheduled d] := by
      intro d' mem
      obtain rfl := Event.scheduled.inj (List.mem_singleton.1 mem)
      obtain ⟨w, w', evaluated, -⟩ := evaluates
      exact ((evaluate_eq_retry (congrArg Prod.fst evaluated)).given).grants
    exact (((granted_of_quiet evaluates.quiet).append (granted_of_quiet quiet)).append given).append
      (granted_of_quiet quiet')

theorem granted_polled (n : Nat) : a.Granted [.polled n] := by
  intro d mem
  exact nomatch List.mem_singleton.1 mem

theorem Attempts.granted (h : a.Attempts run f f' es os) : a.Granted es := by
  cases h with
  | stops grows quiet => exact granted_of_quiet quiet
  | polls grows quiet => exact (granted_of_quiet quiet).append (granted_polled _)
  | fails grows quiet unwatched attempt fails concludes =>
    exact ((granted_of_quiet quiet).append (granted_polled _)).append concludes.granted

theorem Takes.granted {ending : Ending} (h : a.Takes run ending f f' es os) : a.Granted es := by
  rcases h.result with ⟨quiet, -⟩ | ⟨o, g, -, concludes⟩
  · exact granted_of_quiet quiet
  · exact concludes.granted

theorem granted_fires (k : Nat) : a.Granted (List.replicate k Event.fired) := by
  intro d mem
  exact nomatch List.eq_of_mem_replicate mem

end Asynchronous

namespace Session

variable {a : Asynchronous σ} {s : Session σ}

/-- A move hands nothing to the scheduler but what the backoff has given. -/
theorem Sound.granted_move (h : s.Sound) (m : Move σ) {run : RunId}
    (before : a.Granted (s.journalOf run)) : a.Granted ((s.move a m).journalOf run) := by
  -- whatever the move is to the execution, what it adds schedules nothing or what an evaluation gave
  cases move_effect a h m run with
  | @other k aside shifts =>
    rw [shifts.journal]
    exact before.append (Asynchronous.granted_fires k)
  | @start x k new fresh ran =>
    obtain ⟨es, os, attempts⟩ := a.attempt_attempts run s.loop.time (s.frame run x)
    obtain ⟨p, -, grown⟩ := ran.grown attempts.grows
    rw [grown.journal]
    exact (before.append attempts.granted).append (Asynchronous.granted_fires k)
  | @attempt l x k taken ran =>
    obtain ⟨es, os, attempts⟩ := a.attempt_attempts run l.time (s.frame run x)
    obtain ⟨p, -, grown⟩ := ran.grown attempts.grows
    rw [grown.journal]
    exact (before.append attempts.granted).append (Asynchronous.granted_fires k)
  | @pollEnded l ending x k taken ran =>
    obtain ⟨es, os, takes⟩ := a.pollEnded_takes run l.time ending (s.frame run x)
    obtain ⟨p, -, grown⟩ := ran.grown takes.grows
    have ended : a.Granted [.ended ending] := fun d mem => nomatch List.mem_singleton.1 mem
    rw [grown.journal, journalOf_enter]
    exact ((before.append ended).append takes.granted).append (Asynchronous.granted_fires k)
  | @settled l x k taken ran =>
    obtain ⟨es, os, tidies⟩ := a.settled_tidies (s.frame run x)
    obtain ⟨p, -, grown⟩ := ran.grown tidies.toGrows
    rw [grown.journal]
    exact (before.append (Asynchronous.granted_of_quiet (quiet_of_isTidying tidies.tidying))).append
      (Asynchronous.granted_fires k)

/-- In every session that can be reached, an execution hands to its scheduler what the backoff has
given. -/
theorem Reachable.grants (h : s.Reachable a) (run : RunId) : a.Granted (s.journalOf run) := by
  induction h with
  | init time caller => exact fun d mem => absurd mem (by simp [journalOf])
  | move m h ih => exact h.sound.granted_move m ih

end Session

/-! ## No delay below zero -/

/-- Whatever backoff a wait has, a delay that it is given is one that the backoff has calculated and that is
at least zero, or it is not a number. The delay of a built-in backoff is not a number exactly if its base is
not, and it is at most its cap if both are numbers. What a blocking run sleeps and what an execution hands
to its scheduler has been given by the backoff. -/
theorem delays_nonneg_or_nan :
    (∀ (b : Backoff σ) (attempt : Value) (w : World σ) (d : Number),
      (b.nextDelay attempt w).1 = .ok d ↔ (b.calculate attempt w.caller).1 = .ok (.number d) ∧
        ((Number.int 0).le d = true ∨ d = .real .nan)) ∧
    (∀ c : Capped, c.growth.BuiltIn → ∀ (n : Int) (caller : Caller σ) (d : Number),
      ((Backoff.capped c).calculate (.int n) caller).1 = .ok (.number d) →
        (d = .real .nan ↔ c.base = .real .nan) ∧
        ∀ cap, c.cap = some cap → (d.le cap = true ↔ c.base ≠ .real .nan ∧ cap ≠ .real .nan)) ∧
    (∀ (b : Blocking σ) (w : World σ), ∃ es, (b.run w).2.history = w.history ++ es ∧
      ∀ e ∈ es, ∀ d, e.delay? = some d → b.waiter.strategy.backoff.Grants d) ∧
    ∀ (a : Asynchronous σ) (s : Session σ), s.Reachable a → ∀ run d,
      .scheduled d ∈ s.journalOf run → a.waiter.strategy.backoff.Grants d := by
  refine ⟨fun b attempt w d => Backoff.nextDelay_eq_ok, ?_, fun b w => b.run_grants w,
    fun a s reachable run d scheduled => reachable.grants run d scheduled⟩
  intro c builtIn n caller d calculated
  rw [Backoff.calculate_capped] at calculated
  cases delay : c.delay (.int n) with
  | error m => simp [delay, Except.map, Except.mapError] at calculated
  | ok x =>
    obtain rfl : x = d := by simpa [delay, Except.map, Except.mapError] using calculated
    have number := (Capped.delay_nonneg builtIn delay).2
    refine ⟨number, fun cap hcap => ?_⟩
    rw [Capped.delay_le_cap_iff hcap delay]
    exact and_congr_left' (not_congr number)

/-- One second more after every attempt, up to a cap. -/
def Capped.climbing (cap : { c : Number // c.le (.int 0) = false }) : Capped where
  growth := .linear
  base := .int 1
  cap := some cap.1
  base_ok := by decide
  cap_ok := by
    rintro c ⟨⟩
    exact cap.2

/-- A brisk wait has slept, and a brisk execution has scheduled, what the backoff has given, which is at
least zero. A delay that climbs is cut off at its cap. -/
theorem delays_nonneg_brisk :
    (∃ d e, e ∈ ((Blocking.brisk {}).run ⟨⟨(), 0, []⟩, []⟩).2.history ∧ e.delay? = some d ∧
      (Waiter.brisk {}).strategy.backoff.Grants d) ∧
    (∃ d, .scheduled d ∈ (Session.brisk {} 4).journalOf 0 ∧ (Waiter.brisk {}).strategy.backoff.Grants d ∧
      ((Number.int 0).le d = true ∨ d = .real .nan)) ∧
    ((Backoff.capped (.climbing ⟨.int 2, rfl⟩)).calculate (.int 3) (⟨(), 0, []⟩ : Caller Unit)).1 =
      .ok (.int 2) ∧ (Number.int 2).le (.int 2) = true := by
  obtain ⟨checked, within, blocking, asynchronous⟩ := delays_nonneg_or_nan (σ := Unit)
  refine ⟨?_, ?_, rfl, ?_⟩
  · obtain ⟨es, history, grants⟩ := blocking (.brisk {}) ⟨⟨(), 0, []⟩, []⟩
    have slept : (((Blocking.brisk {}).run ⟨⟨(), 0, []⟩, []⟩).2.history.filterMap Event.delay?) =
        [.instant] := by decide +kernel
    obtain ⟨e, mem, delay⟩ := List.mem_filterMap.1 (slept ▸ List.mem_singleton_self Number.instant)
    have entered : e ∈ es := by
      rw [history, List.nil_append] at mem
      exact mem
    exact ⟨.instant, e, mem, delay, grants e entered _ delay⟩
  · have once : 0 < ((Session.brisk {} 4).journalOf 0).countP Event.isScheduled := by decide +kernel
    obtain ⟨e, mem, he⟩ := List.countP_pos_iff.1 once
    cases e with
    | scheduled d =>
      have grants := asynchronous _ _ (Session.brisk_reachable {} 4) 0 d mem
      obtain ⟨attempt, w, given⟩ := grants
      exact ⟨d, mem, ⟨attempt, w, given⟩, ((checked _ attempt w d).1 given).2⟩
    | _ => exact nomatch he
  · have bounds := (within (.climbing ⟨.int 2, rfl⟩) .linear 3 ⟨(), 0, []⟩ (.int 2) rfl).2 (.int 2) rfl
    exact bounds.2 ⟨nofun, nofun⟩

/-- A brisk wait with a delay that is not a number. -/
def Blocking.endless : Blocking Unit :=
  { brisk {} with
    waiter := { Waiter.brisk {} with
      strategy := { (Waiter.brisk {}).strategy with backoff := .constant ⟨.real .nan, by decide⟩ } } }

/-- A delay that is not a number is given to a wait, which sleeps it, and a cap that is not a number cuts
nothing off. -/
theorem nan_passes :
    (Blocking.endless.waiter.strategy.backoff.nextDelay (.int 1) ⟨⟨(), 0, []⟩, []⟩).1 = .ok (.real .nan) ∧
    (Number.int 0).le (.real .nan) = false ∧
    (Blocking.endless.run ⟨⟨(), 0, []⟩, []⟩).2.history.filterMap Event.delay? = [.real .nan] ∧
    ((Backoff.capped (.climbing ⟨.real .nan, rfl⟩)).calculate (.int 3) (⟨(), 0, []⟩ : Caller Unit)).1 =
      .ok (.int 3) ∧ (Number.int 3).le (.real .nan) = false := by
  refine ⟨rfl, rfl, ?_, rfl, rfl⟩
  decide +kernel

end Polling
