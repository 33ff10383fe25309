import FireControl.Decimal.Digits

/-!
# Decimals Rounded to a Place

The nearest multiple of a power of ten to a binary number. The number is taken exactly, and a number
half-way between two multiples goes to the even one.

## Main definitions

* `divNearestEven`: A quotient of natural numbers rounded to the nearest.
* `roundedAt`: A binary number rounded to a power of ten.
* `significant`: A binary number rounded to a number of digits.
-/

namespace FireControl

/-- The natural number nearest to `n / d`; half-way, the even one. -/
def divNearestEven (n d : Nat) : Nat :=
  let quotient := n / d
  let twice := 2 * (n % d)
  if twice < d then quotient
  else if d < twice then quotient + 1
  else quotient + quotient % 2

/-- The multiple of `10 ^ k` nearest to `mantissa · 2 ^ exponent`, counted in that unit. -/
def roundedAt (k : Int) (mantissa : Nat) (exponent : Int) : Nat :=
  divNearestEven (mantissa * Nat.pow 2 exponent.toNat * Nat.pow 10 (-k).toNat)
    (Nat.pow 2 (-exponent).toNat * Nat.pow 10 k.toNat)

/-- The number `mantissa · 2 ^ binary` rounded to the power of ten at which it has `digits` digits
before the point, looked for from an exponent `k` of its first digit that is not too large. -/
def significantFrom (digits mantissa : Nat) (binary : Int) : Nat → Int → Nat × Int
  | 0, k => (roundedAt (k + 1 - digits) mantissa binary, k)
  | fuel + 1, k =>
    let n := roundedAt (k + 1 - digits) mantissa binary
    if n < Nat.pow 10 digits then (n, k) else significantFrom digits mantissa binary fuel (k + 1)

/-- The first `digits` digits of `mantissa · 2 ^ binary`, rounded, and the exponent of the first
one. The logarithm of two is a little more than 0.30102. -/
def significant (digits mantissa : Nat) (binary : Int) : Nat × Int :=
  significantFrom digits mantissa binary 4
    (((Nat.log2 mantissa : Int) + binary) * 30103 / 100000 - 1)

end FireControl
