/-!
# Bit Patterns

A single-precision number stands in memory as a pattern of 32 bits. There is one pattern for every
number, but there are many that are no number, and they differ in their sign and in their fraction.
Arithmetic asks for neither, and `Float32` knows one NaN. The total order asks for both: a NaN with
its sign bit set lies below negative infinity, and every other NaN lies above infinity. What is put
in that order is therefore computed on patterns.

Which NaN an operation gives is left open by the standard of binary arithmetic. Here it is the one
that the x86 processors give. The first operand that is a NaN is handed on and made quiet, and an
operation between numbers that has no result gives the NaN `invalid`.

## Main definitions

* `Pattern`: The bits of a single-precision number.
* `Pattern.number`: The number that a pattern stands for.
* `Pattern.lift₂`: An operation on patterns from one on numbers.
* `Pattern.rank`: A key whose order is the total order.
-/

namespace FireControl

/-- The bits of a single-precision number: its sign, its exponent and its fraction. -/
structure Pattern where
  bits : UInt32
deriving DecidableEq, Inhabited

namespace Pattern

/-- The number that a pattern stands for. -/
def number (p : Pattern) : Float32 := .ofBits p.bits

/-- The pattern of a number. -/
def ofNumber (x : Float32) : Pattern := ⟨x.toBits⟩

/-- The quiet NaN of the same sign and with the same fraction otherwise. -/
def quiet (p : Pattern) : Pattern := ⟨p.bits ||| 0x00400000⟩

/-- The NaN of an operation that has no result. -/
def invalid : Pattern := ⟨0xFFC00000⟩

/-- The pattern of the result of an operation between numbers. -/
def ofResult (x : Float32) : Pattern :=
  if x.isNaN then invalid else ofNumber x

/-- An operation with one operand. -/
def lift₁ (f : Float32 → Float32) (p : Pattern) : Pattern :=
  if p.number.isNaN then p.quiet else ofResult (f p.number)

/-- An operation with two operands. -/
def lift₂ (f : Float32 → Float32 → Float32) (p q : Pattern) : Pattern :=
  if p.number.isNaN then p.quiet
  else if q.number.isNaN then q.quiet
  else ofResult (f p.number q.number)

instance : Add Pattern := ⟨lift₂ (· + ·)⟩

instance : Mul Pattern := ⟨lift₂ (· * ·)⟩

instance : Div Pattern := ⟨lift₂ (· / ·)⟩

/-- The square root. -/
def sqrt : Pattern → Pattern := lift₁ Float32.sqrt

/-- The weight of the sign bit. -/
def signBit : Nat := 2147483648

/-- The place of a pattern in the total order
`-NaN < -∞ < … < -0 < 0 < … < ∞ < NaN`. -/
def rank (p : Pattern) : Int :=
  let bits := p.bits.toNat
  if bits < signBit then bits else -(bits - signBit : Int) - 1

end Pattern

end FireControl
