import Polling.Text.CodeRanges

/-!
# Whole numbers in text

A whole number is written with decimal digits of any script behind an optional sign. One underscore
may stand between two digits, and blanks may stand around the whole. A text with more digits than
`digitLimit` is not read.
-/

namespace Polling.Text

/-- The zeros of the scripts with decimal digits; in each the digits from one to nine follow. -/
def decimalZeros : List Nat :=
  [0x30, 0x660, 0x6f0, 0x7c0, 0x966, 0x9e6, 0xa66, 0xae6, 0xb66, 0xbe6, 0xc66, 0xce6, 0xd66, 0xde6,
   0xe50, 0xed0, 0xf20, 0x1040, 0x1090, 0x17e0, 0x1810, 0x1946, 0x19d0, 0x1a80, 0x1a90, 0x1b50,
   0x1bb0, 0x1c40, 0x1c50, 0xa620, 0xa8d0, 0xa900, 0xa9d0, 0xa9f0, 0xaa50, 0xabf0, 0xff10, 0x104a0,
   0x10d30, 0x11066, 0x110f0, 0x11136, 0x111d0, 0x112f0, 0x11450, 0x114d0, 0x11650, 0x116c0,
   0x11730, 0x118e0, 0x11950, 0x11c50, 0x11d50, 0x11da0, 0x16a60, 0x16ac0, 0x16b50, 0x1d7ce,
   0x1d7d8, 0x1d7e2, 0x1d7ec, 0x1d7f6, 0x1e140, 0x1e2f0, 0x1e950, 0x1fbf0]

/-- The value of a decimal digit. -/
def digit? (c : Char) : Option Nat :=
  (decimalZeros.find? fun first => first ≤ c.toNat && c.toNat ≤ first + 9).map (c.toNat - ·)

/-- Blanks: the line and page breaks, the tabs, and the spaces of any width. -/
def blankRanges : CodeRanges :=
  [(0x9, 0xd), (0x20, 0x20), (0x85, 0x85), (0xa0, 0xa0), (0x1680, 0x1680), (0x2000, 0x200a),
   (0x2028, 0x2029), (0x202f, 0x202f), (0x205f, 0x205f), (0x3000, 0x3000)]

/-- Is the character a blank? -/
def isBlank (c : Char) : Bool := blankRanges.holds c.toNat

/-- How many digits are read. -/
def digitLimit : Nat := 4300

/-- Why a text is not read as a whole number. -/
inductive Unreadable where
  | malformed
  /-- It begins with so many digits. -/
  | tooLong (digits : Nat)
deriving DecidableEq, Repr

/-- The values of digits, one underscore being allowed between two of them. There has to be a digit
at either end. -/
def digitValues? : List Char → Option (List Nat)
  | [] => none
  | [c] => (digit? c).map ([·])
  | c :: '_' :: rest => do return (← digit? c) :: (← digitValues? rest)
  | c :: d :: rest => do return (← digit? c) :: (← digitValues? (d :: rest))

/-- The sign in front of a text, and the rest of it. Is the sign a minus? -/
def signed : List Char → Bool × List Char
  | '-' :: rest => (true, rest)
  | '+' :: rest => (false, rest)
  | cs => (false, cs)

/-- The whole number that a text is. That it has too many digits is noticed before what follows
them. -/
def readWhole (s : String) : Except Unreadable Int := do
  let (negative, cs) := signed (s.toList.dropWhile isBlank)
  let (front, rest) := cs.span fun c => c == '_' || (digit? c).isSome
  match digitValues? front with
  | none => throw .malformed
  | some values =>
    if digitLimit < values.length then throw (.tooLong values.length)
    else if rest.all isBlank then
      let magnitude : Nat := values.foldl (fun n d => 10 * n + d) 0
      return if negative then -(magnitude : Int) else magnitude
    else throw .malformed

end Polling.Text
