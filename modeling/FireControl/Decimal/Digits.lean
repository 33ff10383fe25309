/-!
# Decimal Digits

Texts of natural numbers and the placing of a decimal point. A decimal is a pair of a significand
and a power of ten; its plain text never uses an exponent.

## Main definitions

* `Decimal`: A significand times a power of ten.
* `Decimal.trimmed`: The same decimal without trailing zeros in the significand.
* `Decimal.plain`: The positional text.
* `padLeft`: A text filled up to a width.
-/

namespace FireControl

/-- The text `s` with copies of `fill` in front, so that it has at least `width` characters. -/
def padLeft (width : Nat) (fill : Char) (s : List Char) : List Char :=
  List.replicate (width - s.length) fill ++ s

/-- The number `significand · 10 ^ exponent`. -/
structure Decimal where
  significand : Nat
  exponent : Int
deriving Repr, DecidableEq

namespace Decimal

/-- At most `fuel` trailing zeros of the significand moved into the exponent. -/
def trimZeros : Nat → Nat → Int → Decimal
  | 0, significand, exponent => ⟨significand, exponent⟩
  | fuel + 1, significand, exponent =>
    if significand ≠ 0 ∧ significand % 10 = 0 then trimZeros fuel (significand / 10) (exponent + 1)
    else ⟨significand, exponent⟩

/-- The same number with no trailing zero in the significand. -/
def trimmed (d : Decimal) : Decimal :=
  trimZeros d.significand d.significand d.exponent

/-- The digits of `n` with a point before the last `places` of them. -/
def pointed (places : Nat) (n : Nat) : List Char :=
  let digits := padLeft (places + 1) '0' (Nat.toDigits 10 n)
  if places = 0 then digits
  else digits.take (digits.length - places) ++ '.' :: digits.drop (digits.length - places)

/-- The positional text: all digits, with a point only where a fraction follows it. -/
def plain (d : Decimal) : List Char :=
  if 0 ≤ d.exponent then
    Nat.toDigits 10 (if d.significand = 0 then 0 else d.significand * Nat.pow 10 d.exponent.toNat)
  else pointed (-d.exponent).toNat d.significand

end Decimal

end FireControl
