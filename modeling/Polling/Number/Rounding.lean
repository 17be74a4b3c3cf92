/-!
# Rounding a quotient

Every inexact number in this library comes from one rule: take the exact quotient of two natural
numbers and move to the nearest natural number, ties to the even neighbour. `nearestEven` is that
rule; binary and decimal formats differ only in the quotient they hand to it.

* `nearestEven_mul`: an exact quotient is its own rounding;
* `nearestEven_le`, `le_nearestEven`: the result is the quotient rounded down or one more.
-/

namespace Polling

/-- The natural number nearest to `n / d`; of two equally near ones, the even one. -/
def nearestEven (n d : Nat) : Nat :=
  let quotient := n / d
  let twice := 2 * (n % d)
  if twice < d then quotient
  else if d < twice then quotient + 1
  else quotient + quotient % 2

theorem nearestEven_mul (q : Nat) {d : Nat} (h : 0 < d) : nearestEven (q * d) d = q := by
  simp [nearestEven, Nat.mul_div_cancel q h, h]

theorem le_nearestEven (n d : Nat) : n / d ≤ nearestEven n d := by
  unfold nearestEven
  dsimp only
  split
  · exact Nat.le_refl _
  · split <;> omega

theorem nearestEven_le (n d : Nat) : nearestEven n d ≤ n / d + 1 := by
  unfold nearestEven
  dsimp only
  split
  · omega
  · split <;> omega

end Polling
