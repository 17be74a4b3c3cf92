import Mathlib.Algebra.Group.Nat.Defs
import Mathlib.Data.Nat.Log
import Polling.Backoff.Growth

/-!
# How large numbers are

Comparisons of numbers are comparisons of their places, and the only number without a place is
not-a-number (`Number.place?_eq_none`). A check that rejects what is below a bound therefore lets pass
what is at least the bound and, beside it, not-a-number (`Number.lt_eq_false_iff`).

The second half is about the product of a number that is not below zero with a positive integer. The product
is not below zero, and it is a number if the first factor is one (`Number.mul?_int`). It fails only for a
double, and only when the integer does not fit into one, that is, from `Binary64.tooLarge` on
(`Binary64.ofInt?_of_pos`): at half a unit in the last place below `2 ^ 1024`, where a tie is rounded to the
even neighbour, and this is the one beyond the range.
-/

namespace Polling

-- what is written with it is not to be evaluated: it is `2 ^ 1074`
attribute [local irreducible] Binary64.unitsPerOne

/-! ## Places -/

namespace Number

/-- Not-a-number is the only number without a place. -/
theorem place?_eq_none {a : Number} : a.place? = none ↔ a = .real .nan := by
  rcases a with _ | _ | (_ | ⟨_ | _⟩ | _) <;> simp [place?, Binary64.place?]

theorem exists_place {a : Number} (h : a ≠ .real .nan) : ∃ x, a.place? = some x :=
  Option.ne_none_iff_exists'.1 fun none => h (place?_eq_none.1 none)

/-- Whole numbers are ordered as their places are, with equal ones. -/
theorem le_eq_places (a b : Number) :
    a.le b = match a.place?, b.place? with
      | some x, some y => !y.lt x
      | _, _ => false := by
  have unit_pos : (0 : Int) < Binary64.unitsPerOne := Int.natCast_pos.2 Binary64.unitsPerOne_pos
  rw [le, related]
  split
  · next m n ha hb =>
    rw [place?_of_whole? ha, place?_of_whole? hb]
    simp only [Extended.lt_exactly, ← decide_not, Int.not_lt]
    exact decide_eq_decide.2 (Int.mul_le_mul_left unit_pos).symm
  · rfl

/-- What is not below a number is at least that number, or it is not a number. -/
theorem lt_eq_false_iff {a b : Number} (hb : b ≠ .real .nan) :
    a.lt b = false ↔ b.le a = true ∨ a = .real .nan := by
  obtain ⟨y, hy⟩ := exists_place hb
  rw [lt_eq_places, le_eq_places, hy]
  by_cases ha : a = .real .nan
  · simp [ha, place?, Binary64.place?]
  · obtain ⟨x, hx⟩ := exists_place ha
    simp [hx, ha]

/-- What is below a number is at most that number. -/
theorem lt_eq_false_of_le {a b : Number} (h : a.le b = false) : a.lt b = false := by
  rw [le_eq_places] at h
  rw [lt_eq_places]
  cases ha : a.place? <;> cases hb : b.place? <;> simp only [ha, hb] at h ⊢
  exact Extended.lt_asymm (by simpa using h)

/-- Every number is at most itself, except not-a-number. -/
theorem le_self_iff {a : Number} : a.le a = true ↔ a ≠ .real .nan := by
  rw [le_eq_places]
  by_cases ha : a = .real .nan
  · simp [ha, place?, Binary64.place?]
  · obtain ⟨x, hx⟩ := exists_place ha
    simp [hx, ha, Extended.lt_irrefl]

theorem ne_nan_of_lt {a b : Number} (h : a.lt b = true) : a ≠ .real .nan ∧ b ≠ .real .nan := by
  rw [lt_eq_places] at h
  constructor <;> rintro rfl <;> simp [place?, Binary64.place?] at h

/-- The first of two numbers stays not-a-number beside a second that is one. -/
theorem min_eq_nan {a b : Number} : a.min b = .real .nan ↔ a = .real .nan := by
  unfold min
  split
  · next below =>
    obtain ⟨hb, ha⟩ := ne_nan_of_lt below
    simp [hb, ha]
  · exact Iff.rfl

/-- The smaller of two numbers is at most the second, if both are numbers. -/
theorem min_le_right_iff {a b : Number} :
    (a.min b).le b = true ↔ a ≠ .real .nan ∧ b ≠ .real .nan := by
  unfold min
  split
  · next below =>
    obtain ⟨hb, ha⟩ := ne_nan_of_lt below
    simp [le_self_iff, hb, ha]
  · next notBelow =>
    by_cases hb : b = .real .nan
    · simp [hb, le_eq_places, place?, Binary64.place?]
    · have others := lt_eq_false_iff (b := a) (a := b)
      by_cases ha : a = .real .nan
      · simp [ha, le_eq_places, place?, Binary64.place?]
      · simpa [ha, hb, notBelow] using others ha

/-- What both of two numbers are, the smaller one is. -/
theorem min_of_both {p : Number → Prop} {a b : Number} (ha : p a) (hb : p b) : p (a.min b) := by
  unfold min
  split
  · exact hb
  · exact ha

/-- The greater of two whole numbers is a whole number. -/
theorem whole?_max {a b : Number} {m n : Int} (ha : a.whole? = some m) (hb : b.whole? = some n) :
    (a.max b).whole? = some (Max.max m n) := by
  have less : a.lt b = decide (m < n) := by rw [lt, related, ha, hb]
  rw [max, less]
  by_cases h : m < n
  · rw [if_pos (decide_eq_true h), hb, Int.max_eq_right (by omega)]
  · rw [if_neg (by simpa using h), ha, Int.max_eq_left (by omega)]

end Number

/-! ## Rounding to doubles -/

namespace Binary64

theorem spacing_pos (whole : Nat) : 0 < spacing whole := Nat.two_pow_pos _

/-- Rounding does not lose a unit or more. -/
theorem roundUnits_pos {num den : Nat} (hden : 0 < den) (h : den ≤ num) : 0 < roundUnits num den := by
  have whole_pos : 0 < num / den := Nat.div_pos h hden
  -- a step between neighbours is no longer than the number itself
  have step_le : spacing (num / den) ≤ num / den :=
    calc 2 ^ ((num / den).log2 + 1 - 53)
        ≤ 2 ^ (num / den).log2 := Nat.pow_le_pow_right Nat.two_pos (by omega)
      _ ≤ num / den := Nat.log2_self_le whole_pos.ne'
  have steps_pos : 0 < num / (den * spacing (num / den)) := by
    rw [← Nat.div_div_eq_div_mul]
    exact Nat.div_pos step_le (spacing_pos _)
  exact Nat.mul_pos (steps_pos.trans_le (le_nearestEven _ _)) (spacing_pos _)

@[simp] theorem roundUnits_zero (den : Nat) : roundUnits 0 den = 0 := by
  simp [roundUnits, nearestEven]

/-- Rounding stays below an even number exactly if the quotient lies nearer to the number before. -/
theorem nearestEven_lt_iff {n d m : Nat} (hd : 0 < d) (even : m % 2 = 0) :
    nearestEven n d < m ↔ 2 * n < (2 * m - 1) * d := by
  have split : d * (n / d) + n % d = n := Nat.div_add_mod n d
  have rest : n % d < d := Nat.mod_lt n hd
  obtain ⟨q, hq⟩ : ∃ q, n / d = q := ⟨_, rfl⟩
  obtain ⟨r, hr⟩ : ∃ r, n % d = r := ⟨_, rfl⟩
  have bound : (2 * m - 1) * d = 2 * (m * d) - d := by rw [Nat.sub_mul, Nat.mul_assoc, Nat.one_mul]
  rw [hq, hr, Nat.mul_comm] at split
  rw [hr] at rest
  simp only [nearestEven, hq, hr, bound]
  rcases Nat.lt_trichotomy (q + 1) m with below | at_m | above
  · have := Nat.mul_le_mul_right d (show q + 2 ≤ m by omega)
    rw [Nat.add_mul] at this
    constructor
    · omega
    · split <;> [skip; split] <;> omega
  · have := congrArg (· * d) at_m
    simp only [Nat.add_mul, Nat.one_mul] at this
    split
    · omega
    · split <;> omega
  · have := Nat.mul_le_mul_right d (show m ≤ q by omega)
    constructor
    · split <;> [skip; split] <;> omega
    · omega

/-- In units that are fine enough, the step between the neighbours of a positive integer is a power of two, and
the integer has 53 bits in such steps. -/
theorem spacing_units {p k : Nat} (fine : 52 ≤ p) (hk : 0 < k) : ∃ t, p + k.log2 = t + 52 ∧
    spacing (2 ^ p * k) = 2 ^ t ∧ 2 ^ 52 * 2 ^ t ≤ 2 ^ p * k ∧ 2 ^ p * k < 2 ^ 53 * 2 ^ t := by
  obtain ⟨L, hL⟩ : ∃ L, k.log2 = L := ⟨_, rfl⟩
  have low : 2 ^ p * 2 ^ L ≤ 2 ^ p * k := Nat.mul_le_mul_left _ (hL ▸ Nat.log2_self_le hk.ne')
  have high : 2 ^ p * k < 2 ^ p * 2 ^ (L + 1) :=
    Nat.mul_lt_mul_of_pos_left (hL ▸ Nat.lt_log2_self) (Nat.two_pow_pos p)
  rw [← Nat.pow_add] at low high
  have log : (2 ^ p * k).log2 = p + L :=
    (Nat.log2_eq_iff (Nat.mul_pos (Nat.two_pow_pos p) hk).ne').2 ⟨low, high⟩
  obtain ⟨t, ht⟩ : ∃ t, p + L = t + 52 := ⟨p + L - 52, by omega⟩
  refine ⟨t, hL ▸ ht, ?_, ?_, ?_⟩
  · rw [spacing, log, show p + L + 1 - 53 = t by omega]
    rfl
  · rwa [← Nat.pow_add, Nat.add_comm 52 t, ← ht]
  · rwa [← Nat.pow_add, show 53 + t = p + (L + 1) by omega]

/-- A positive integer below `2 ^ (h + 54)`, in units that are fine enough, is rounded to less than that
unless it lies above the last half step. -/
theorem roundUnits_lt_iff {p h k : Nat} (fine : 52 ≤ p) (hk : 0 < k) :
    roundUnits (2 ^ p * k) 1 < 2 ^ (p + (h + 54)) ↔ k < 2 ^ h * (2 ^ 54 - 1) := by
  obtain ⟨t, ht, step, least, greatest⟩ := spacing_units fine hk
  obtain ⟨L, hL⟩ : ∃ L, k.log2 = L := ⟨_, rfl⟩
  have low : 2 ^ L ≤ k := hL ▸ Nat.log2_self_le hk.ne'
  have high : k < 2 ^ (L + 1) := hL ▸ Nat.lt_log2_self
  have step_pos : 0 < 2 ^ t := Nat.two_pow_pos t
  rw [hL] at ht
  rw [roundUnits, Nat.div_one, step, Nat.one_mul]
  rcases Nat.lt_trichotomy L (h + 53) with small | last | large
  · have rounded : nearestEven (2 ^ p * k) (2 ^ t) ≤ 2 ^ 53 :=
      (nearestEven_le _ _).trans ((Nat.div_lt_iff_lt_mul step_pos).2 greatest)
    have lt : 2 ^ 53 * 2 ^ t < 2 ^ (p + (h + 54)) := by
      rw [← Nat.pow_add]
      exact Nat.pow_lt_pow_right (by omega) (by omega)
    have fits : k < 2 ^ h * (2 ^ 54 - 1) :=
      calc k < 2 ^ (L + 1) := high
        _ ≤ 2 ^ (h + 53) := Nat.pow_le_pow_right Nat.two_pos (by omega)
        _ = 2 ^ h * 2 ^ 53 := Nat.pow_add ..
        _ ≤ 2 ^ h * (2 ^ 54 - 1) := Nat.mul_le_mul_left _ (by decide)
    exact iff_of_true ((Nat.mul_le_mul_right _ rounded).trans_lt lt) fits
  · -- the quotient is to be compared with the last half step
    have limit : 2 ^ (p + (h + 54)) = 2 ^ 53 * 2 ^ t := by
      rw [← Nat.pow_add, show p + (h + 54) = 53 + t by omega]
    have half : 2 ^ t = 2 ^ (p + 1) * 2 ^ h := by
      rw [← Nat.pow_add, show t = p + 1 + h by omega]
    have odd : 2 * 2 ^ 53 - 1 = 2 ^ 54 - 1 := by decide
    rw [limit, Nat.mul_lt_mul_right step_pos, nearestEven_lt_iff step_pos (by decide), half, odd,
      ← Nat.mul_assoc 2, ← Nat.pow_succ', Nat.mul_left_comm, Nat.mul_lt_mul_left (Nat.two_pow_pos _),
      Nat.mul_comm]
  · have rounded : 2 ^ 52 ≤ nearestEven (2 ^ p * k) (2 ^ t) :=
      ((Nat.le_div_iff_mul_le step_pos).2 least).trans (le_nearestEven _ _)
    have ge : 2 ^ (p + (h + 54)) ≤ 2 ^ 52 * 2 ^ t := by
      rw [← Nat.pow_add]
      exact Nat.pow_le_pow_right Nat.two_pos (by omega)
    have spills : 2 ^ h * (2 ^ 54 - 1) ≤ k :=
      calc 2 ^ h * (2 ^ 54 - 1) ≤ 2 ^ h * 2 ^ 54 := Nat.mul_le_mul_left _ (by decide)
        _ = 2 ^ (h + 54) := (Nat.pow_add ..).symm
        _ ≤ 2 ^ L := Nat.pow_le_pow_right Nat.two_pos (by omega)
        _ ≤ k := low
    exact iff_of_false (Nat.not_lt.2 (ge.trans (Nat.mul_le_mul_right _ rounded))) (Nat.not_lt.2 spills)

/-- The first integer that does not fit into a double: it lies half a step below `2 ^ 1024`, and the even
one of its neighbours is the one beyond the range. -/
@[irreducible] def tooLarge : Nat := Nat.pow 2 970 * (2 ^ 54 - 1)

/-- A positive integer fits into a double if it is not too large. -/
theorem roundUnits_lt_unitLimit_iff {k : Nat} (hk : 0 < k) :
    roundUnits (unitsPerOne * k) 1 < unitLimit ↔ k < tooLarge := by
  unfold unitsPerOne unitLimit tooLarge
  generalize hp : 1074 = p, hh : 970 = h, hn : 2098 = n
  obtain rfl : n = p + (h + 54) := by omega
  exact roundUnits_lt_iff (by omega) hk

/-- A power of two is too large from `2 ^ 1024` on. -/
theorem tooLarge_le_two_pow_iff {j : Nat} : tooLarge ≤ 2 ^ j ↔ 1024 ≤ j := by
  unfold tooLarge
  generalize hh : 970 = h
  constructor
  · intro large
    by_contra small
    have lt : 2 ^ h * 2 ^ 53 < 2 ^ h * (2 ^ 54 - 1) :=
      Nat.mul_lt_mul_of_pos_left (by decide) (Nat.two_pow_pos h)
    have le : 2 ^ j ≤ 2 ^ h * 2 ^ 53 := by
      rw [← Nat.pow_add]
      exact Nat.pow_le_pow_right Nat.two_pos (by omega)
    exact absurd (large.trans le) (Nat.not_le.2 lt)
  · intro large
    calc 2 ^ h * (2 ^ 54 - 1) ≤ 2 ^ h * 2 ^ 54 := Nat.mul_le_mul_left _ (by decide)
      _ = 2 ^ (h + 54) := (Nat.pow_add ..).symm
      _ ≤ 2 ^ j := Nat.pow_le_pow_right Nat.two_pos (by omega)

theorem unitLimit_pos : 0 < unitLimit := by
  unfold unitLimit
  apply Nat.pow_pos
  exact Nat.two_pos

/-- The double nearest to a positive integer is there if the integer is not too large, and it is
positive. -/
theorem ofInt?_of_pos {k : Nat} (hk : 0 < k) :
    (k < tooLarge → ∃ u, 0 < u ∧ ofInt? k = some (.finite false u)) ∧
      (tooLarge ≤ k → ofInt? k = none) := by
  have units_pos : 0 < roundUnits (unitsPerOne * k) 1 :=
    roundUnits_pos Nat.one_pos (Nat.mul_pos unitsPerOne_pos hk)
  have fits := roundUnits_lt_unitLimit_iff hk
  have rounded : ofUnits (decide ((k : Int) < 0)) (unitsPerOne * (k : Int).natAbs) 1 =
      if roundUnits (unitsPerOne * k) 1 < unitLimit then .finite false (roundUnits (unitsPerOne * k) 1)
      else .infinite false := by
    rw [show decide ((k : Int) < 0) = false by simp, Int.natAbs_natCast]
    rfl
  unfold ofInt?
  generalize ofUnits (decide ((k : Int) < 0)) (unitsPerOne * (k : Int).natAbs) 1 = x at rounded
  constructor
  · intro h
    rw [if_pos (fits.2 h)] at rounded
    exact ⟨_, units_pos, by rw [rounded]⟩
  · intro h
    rw [if_neg (mt fits.1 (Nat.not_lt.2 h))] at rounded
    rw [rounded]

/-- A finite double is below zero if its units are, counted with the sign. -/
theorem finite_lt_zero (s : Bool) (u : Nat) :
    (Number.real (.finite s u)).lt (.int 0) = decide (signed s u < 0) := by
  rw [Number.lt_eq_places]
  simp [Number.place?, place?]

/-- The product of a double that is not below zero with a positive finite one is not below zero, and it is
a number if the first factor is one. -/
theorem mul_finite {x : Binary64} {u : Nat} (hx : (Number.real x).lt (.int 0) = false) (hu : 0 < u) :
    (Number.real (x.mul (.finite false u))).lt (.int 0) = false ∧
      (x.mul (.finite false u) = .nan ↔ x = .nan) := by
  cases x with
  | nan => exact ⟨rfl, iff_of_true rfl rfl⟩
  | infinite s =>
    cases s with
    | true => exact nomatch hx
    | false => simp [mul, hu.ne', Number.lt_eq_places, Number.place?, place?, Extended.lt]
  | finite s v =>
    rw [finite_lt_zero] at hx
    -- a negative sign is there with a zero only
    have signed_zero : s = true → v = 0 := by
      rintro rfl
      simpa [signed] using hx
    simp only [mul, ofUnits, Bool.bne_false]
    split
    · refine ⟨?_, by simp⟩
      rw [finite_lt_zero]
      cases s with
      | true => simp [signed_zero rfl, signed]
      | false => simp [signed]
    · next spills =>
      cases s with
      | true => simp [signed_zero rfl, unitLimit_pos] at spills
      | false => simp [Number.lt_eq_places, Number.place?, place?, Extended.lt]

end Binary64

/-- Multiplying a number that is not below zero by a positive integer fails only if the number is a double
and the integer is too large for one. The product is not below zero, and it is a number if the first factor
is one. -/
theorem Number.mul?_int {b : Number} {k : Nat} (hb : b.lt (.int 0) = false) (hk : 0 < k) :
    if b.whole? = none ∧ Binary64.tooLarge ≤ k then b.mul? (.int k) = none
    else ∃ d, b.mul? (.int k) = some d ∧ d.lt (.int 0) = false ∧
      (d = .real .nan ↔ b = .real .nan) := by
  have of_whole : ∀ m : Int, 0 ≤ m → (Number.int (m * k)).lt (.int 0) = false := by
    intro m hm
    simpa using Int.mul_nonneg hm (Int.natCast_nonneg k)
  cases b with
  | flag b =>
    rw [if_neg fun h => nomatch h.1]
    exact ⟨_, rfl, of_whole _ (by cases b <;> simp), by simp⟩
  | int m =>
    rw [if_neg fun h => nomatch h.1]
    exact ⟨_, rfl, of_whole m (by simpa using hb), by simp⟩
  | real x =>
    -- the integer is converted first, and this is what may fail
    obtain ⟨fits, spills⟩ := Binary64.ofInt?_of_pos hk
    have product : (Number.real x).mul? (.int k) = (Binary64.ofInt? k).map fun y => .real (x.mul y) := by
      cases h : Binary64.ofInt? k <;> simp [mul?, arith?, whole?, toReal?, h]
    rw [product]
    rcases Nat.lt_or_ge k Binary64.tooLarge with small | large
    · obtain ⟨u, hu, converted⟩ := fits small
      obtain ⟨nonneg, number⟩ := Binary64.mul_finite hb hu
      rw [if_neg (fun h => Nat.not_le.2 small h.2), converted]
      exact ⟨_, rfl, nonneg, by simpa using number⟩
    · rw [if_pos ⟨rfl, large⟩, spills large]
      rfl

end Polling
