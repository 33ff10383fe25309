import FireControl.Decimal.Digits

/-!
# Reading Decimals

The floating-point number nearest to a decimal, a tie going to the even mantissa. A decimal beyond
the range gives infinity.

## Main definitions

* `Decimal.nearest`, `Decimal.nearestSingle`: The nearest number in double and single precision.
* `Decimal.ofDigits`, `Decimal.ofParts`: The number of a list of digits, and the decimal of the
  digits around a point.
-/

namespace FireControl

namespace Decimal

/-- The value of a digit in bases up to sixteen. -/
def digitValue (c : Char) : Nat :=
  if c.isDigit then c.toNat - '0'.toNat
  else if 'a' ≤ c ∧ c ≤ 'f' then c.toNat - 'a'.toNat + 10
  else c.toNat - 'A'.toNat + 10

/-- The number of a list of digits, the highest first. -/
def ofDigits (base : Nat) (digits : List Char) : Nat :=
  digits.foldl (fun n c => base * n + digitValue c) 0

/-- The decimal of the digits before and after a point, and an exponent. -/
def ofParts (whole fraction : List Char) (exponent : Int) : Decimal :=
  ⟨ofDigits 10 (whole ++ fraction), exponent - fraction.length⟩

/-- The double-precision number nearest to a decimal. -/
def nearest (d : Decimal) : Float :=
  .ofModel (.ofScientific d.significand d.exponent)

/-- The single-precision number nearest to a decimal. -/
def nearestSingle (d : Decimal) : Float32 :=
  .ofModel (.ofScientific d.significand d.exponent)

end Decimal

end FireControl
