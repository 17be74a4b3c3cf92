/-!
# Sets of characters as ranges of code points

A set of characters is written as the ranges of its code points, each with its first and its last
one, in order.
-/

namespace Polling.Text

/-- First and last code point of each range, in order. -/
abbrev CodeRanges := List (Nat × Nat)

/-- Does a code point lie in one of the ranges? The look-up ends at the first range behind it. -/
def CodeRanges.holds (n : Nat) : CodeRanges → Bool
  | [] => false
  | (first, last) :: rest => first ≤ n && (n ≤ last || holds n rest)

end Polling.Text
