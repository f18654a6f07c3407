/-!
# Decimals too large for a double

A decimal rounds to infinity in double precision exactly from `2 ^ 1024 - 2 ^ 970` on,
the midpoint between the largest double and the next power of two. `roundsToInfinity`
decides that for the decimal itself; the digit count decides all but the decimals near the
limit. `productOverflows` decides it for a product of doubles: of the digits, rounded, and
of the power of ten, rounded. Near the limit the two differ, since the product is rounded
up to three times.
-/

namespace Corelink.Decimal

/-- The value of a decimal digit. -/
def digitValue (c : Char) : Nat :=
  c.toNat - '0'.toNat

/-- The number that decimal digits spell. -/
def ofDigits (cs : List Char) : Nat :=
  cs.foldl (fun n c => 10 * n + digitValue c) 0

/-- The least number that rounds to infinity. -/
def infinityLimit : Nat :=
  Nat.pow 2 1024 - Nat.pow 2 970

/-- Whether the digits, times ten to the `exponent`, round to infinity. -/
def roundsToInfinity (digits : List Char) (exponent : Int) : Bool :=
  let ds := digits.dropWhile (· = '0')
  let magnitude := exponent + ds.length
  if ds.isEmpty || magnitude ≤ 308 then false
  else if magnitude ≥ 310 then true
  else if exponent ≥ 0 then ofDigits ds * Nat.pow 10 exponent.toNat ≥ infinityLimit
  else ofDigits ds ≥ infinityLimit * Nat.pow 10 (-exponent).toNat

example : roundsToInfinity ['1'] 400 ∧ roundsToInfinity ['1', '8'] 307 ∧
    !roundsToInfinity ['1', '7'] 307 ∧ !roundsToInfinity ['0'] 999 := by decide +kernel

/-- The nearest whole number with at most 53 binary digits before its zeros; a tie goes to
the even one. -/
def toDouble (n : Nat) : Nat :=
  let unit := Nat.pow 2 (n.log2 + 1 - 53)
  let q := n / unit
  let r := n % unit
  (if 2 * r < unit || (2 * r = unit && q % 2 = 0) then q else q + 1) * unit

/-- Whether `n` times ten to the `exponent` is infinite when both factors and the product are
rounded to doubles. A power of ten that is no double makes it so, unless `n` is zero. -/
def productOverflows (n : Nat) (exponent : Int) : Bool :=
  if n = 0 || exponent < 0 then false
  else if exponent > 308 then true
  else toDouble n * toDouble (Nat.pow 10 exponent.toNat) ≥ infinityLimit

example : toDouble 9007199254740993 = 9007199254740992 ∧
    toDouble 9007199254740995 = 9007199254740996 := by decide +kernel

example : productOverflows 17976931348623158 292 ∧ !productOverflows 179769313486231581 291 ∧
    !productOverflows 0 999 := by decide +kernel

end Corelink.Decimal
