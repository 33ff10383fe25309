import FireControl.Decimal.Digits

/-!
# Shortest Decimals

The shortest decimal that reads back as a given binary number. The reals that round to
`m · 2 ^ q` form an interval around it, whose ends belong to it exactly when `m` is even. For one
digit, two digits and so on, only two decimals can be in that interval first: the neighbours of the
number on the decimal grid. The first grid that has one in the interval gives the answer, of two the
nearer, and of two equally near the larger.

Bounds are written in quarters of the last binary place, because the gap below a power of two is
half the gap above it. All comparisons are between natural numbers.

## Main definitions

* `Binary`: A positive number `mantissa · 2 ^ exponent` of a binary format.
* `Binary.low`, `Binary.high`: The ends of the interval of reals that round to it.
* `Binary.candidate?`: The neighbour on a decimal grid that reads back.
* `Binary.shortest`: The shortest decimal that reads back.
-/

namespace FireControl

open Float.Model (Format)

/-- A positive number `mantissa · 2 ^ exponent` of a binary format. -/
structure Binary where
  format : Format
  mantissa : Nat
  exponent : Int

namespace Binary

/-- The lower end of the interval of reals that round to `b`, in quarters of `2 ^ exponent`. -/
def low (b : Binary) : Nat :=
  let least := Nat.pow 2 b.format.mantissaBitsWithoutImplicit
  if b.mantissa = least ∧ b.format.minExponent < b.exponent then 4 * b.mantissa - 1
  else 4 * b.mantissa - 2

/-- The upper end of the interval of reals that round to `b`, in quarters of `2 ^ exponent`. -/
def high (b : Binary) : Nat :=
  4 * b.mantissa + 2

/-- Whether the ends of the interval round to `b` themselves: a tie goes to the even mantissa. -/
def closed (b : Binary) : Bool :=
  b.mantissa % 2 = 0

/-- `n` quarters of `2 ^ exponent`, over the common denominator with grid `10 ^ k`. -/
def scaledQuarters (b : Binary) (k : Int) (n : Nat) : Nat :=
  n * Nat.pow 2 (b.exponent - 2).toNat * Nat.pow 10 (-k).toNat

/-- The grid point `d · 10 ^ k`, over the common denominator with quarters of `2 ^ exponent`. -/
def scaledPoint (b : Binary) (k : Int) (d : Nat) : Nat :=
  d * Nat.pow 10 k.toNat * Nat.pow 2 (2 - b.exponent).toNat

/-- Whether `d · 10 ^ k` rounds to `b`. -/
def readsBack (b : Binary) (k : Int) (d : Nat) : Bool :=
  let point := b.scaledPoint k d
  let low := b.scaledQuarters k b.low
  let high := b.scaledQuarters k b.high
  if b.closed then low ≤ point && point ≤ high else low < point && point < high

/-- The greatest `d` such that `d · 10 ^ k` is not above `b`. -/
def below (b : Binary) (k : Int) : Nat :=
  b.scaledQuarters k (4 * b.mantissa) / b.scaledPoint k 1

/-- Whether the grid point above `b` is at least as near as the one below it. -/
def aboveIsNearer (b : Binary) (k : Int) : Bool :=
  b.scaledPoint k (2 * b.below k + 1) ≤ 2 * b.scaledQuarters k (4 * b.mantissa)

/-- The neighbour of `b` on the grid of multiples of `10 ^ k` that reads back, if there is one. -/
def candidate? (b : Binary) (k : Int) : Option Decimal :=
  let lower := b.below k
  match b.readsBack k lower, b.readsBack k (lower + 1) with
  | true, true => some ⟨if b.aboveIsNearer k then lower + 1 else lower, k⟩
  | true, false => some ⟨lower, k⟩
  | false, true => some ⟨lower + 1, k⟩
  | false, false => none

/-- The number of digits that `b` has before the point; zero or negative for a fraction, when as
many zeros follow the point. -/
def integerDigits (b : Binary) : Int :=
  let shift := (-b.exponent).toNat
  let shifted :=
    b.mantissa * Nat.pow 2 b.exponent.toNat * Nat.pow 10 shift / Nat.pow 2 shift
  (Nat.toDigits 10 shifted).length - shift

/-- The decimal of the fewest digits that reads back as `b`, without trailing zeros. -/
def shortest (b : Binary) : Decimal :=
  let first := b.integerDigits - 1
  let grids := (List.range (b.format.mantissaBits + 1)).map (fun (i : Nat) => first - i)
  ((grids.findSome? b.candidate?).getD ⟨b.below b.exponent, b.exponent⟩).trimmed

end Binary

end FireControl
