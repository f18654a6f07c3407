/-!
# Hexadecimal digits

A digit is read in either case. JSON writes its escapes in lower case, TOML in upper case.
-/

namespace Corelink.Text

def hexValue? (c : Char) : Option Nat :=
  if '0' ≤ c ∧ c ≤ '9' then some (c.toNat - '0'.toNat)
  else if 'a' ≤ c ∧ c ≤ 'f' then some (c.toNat - 'a'.toNat + 10)
  else if 'A' ≤ c ∧ c ≤ 'F' then some (c.toNat - 'A'.toNat + 10)
  else none

/-- The digit for `n`, in upper case or in lower case. -/
def hexDigit (upper : Bool) (n : Nat) : Char :=
  if upper then n.digitChar.toUpper else n.digitChar

theorem hexValue?_hexDigit (upper : Bool) : ∀ n < 16, hexValue? (hexDigit upper n) = some n := by
  cases upper <;> decide

end Corelink.Text
