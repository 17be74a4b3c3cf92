import Polling.Text.Unprintable

/-!
# Quoted text

A text is shown between quotes on one line. Single quotes are preferred; double quotes are taken
when the text holds a single quote and no double one. The backslash, the quote in use and the
characters that leave no mark are escaped, so the quoted form shows every character.
-/

namespace Polling.Text

/-- The quote that a text is written between. -/
def quoteFor (cs : List Char) : Char :=
  if cs.contains '\'' && !cs.contains '"' then '"' else '\''

/-- `width` hexadecimal digits of a number. -/
def hexDigits (width n : Nat) : List Char :=
  let ds := Nat.toDigits 16 n
  List.replicate (width - ds.length) '0' ++ ds

/-- A code point by its number, in the shortest of the three forms that holds it. -/
def numbered (c : Char) : List Char :=
  if c.toNat < 0x100 then '\\' :: 'x' :: hexDigits 2 c.toNat
  else if c.toNat < 0x10000 then '\\' :: 'u' :: hexDigits 4 c.toNat
  else '\\' :: 'U' :: hexDigits 8 c.toNat

/-- One character as it stands between the quotes `quote`. -/
def escaped (quote c : Char) : List Char :=
  if c = quote ∨ c = '\\' then ['\\', c]
  else if c = '\n' then ['\\', 'n']
  else if c = '\r' then ['\\', 'r']
  else if c = '\t' then ['\\', 't']
  else if isUnprintable c then numbered c
  else [c]

/-- The quoted form of a text. -/
def quoted (s : String) : String :=
  let cs := s.toList
  let quote := quoteFor cs
  String.ofList (quote :: (cs.flatMap (escaped quote) ++ [quote]))

/-- Does `whole` hold `part` as a run of neighbouring characters? -/
def holds (whole part : List Char) : Bool :=
  match whole with
  | [] => part.isEmpty
  | _ :: rest => part.isPrefixOf whole || holds rest part

end Polling.Text
