import Corelink.Decimal

/-!
# Ports as text

A port is written in decimal digits, with an optional plus sign and any number of leading
zeros.
-/

namespace Corelink.Port

/-- One or more digits of a number up to 65535. -/
def ofDigits? (cs : List Char) : Option UInt16 :=
  if !cs.isEmpty && cs.all Char.isDigit && Decimal.ofDigits cs < UInt16.size then
    some (UInt16.ofNat (Decimal.ofDigits cs))
  else none

/-- The port that the characters spell, if they spell one. -/
def ofChars? : List Char → Option UInt16
  | '+' :: cs => ofDigits? cs
  | cs => ofDigits? cs

example : ofChars? ['+', '0', '8', '0'] = some 80 ∧ ofChars? ['-', '1'] = none ∧
    ofChars? ['+'] = none ∧ ofChars? ['6', '5', '5', '3', '6'] = none := by decide

end Corelink.Port
