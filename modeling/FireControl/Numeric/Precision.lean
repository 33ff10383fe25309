/-!
# Changes of Precision

Exact conversions between the two binary formats and the integers. Core has such conversions, but
they are opaque to proofs; here each is a rule on the unpacked number, so that a theorem can follow
a value from a decimal text through double precision into single precision.

## Main definitions

* `Float.narrow`: The nearest single-precision number.
* `Float32.widen`: The same number in double precision.
* `Float32.floorInt`: The greatest integer that is not above a number.
* `Float32.ofInteger`, `Float.ofInteger`: The nearest number to an integer.
-/

open Float.Model (UnpackedFloat Format)
open Float.Model.UnpackedFloat (Sign)

/-- The number closest to `x` in a binary format, ties going to the even mantissa. A number beyond
the format's range is left with an exponent that packs to infinity. -/
def Float.Model.UnpackedFloat.convert (format : Format) : UnpackedFloat → UnpackedFloat
  | .finite sign mantissa exponent _ => UnpackedFloat.round format sign mantissa exponent
  | special => special

/-- The greatest integer that is not above `± mantissa · 2 ^ exponent`. -/
def Float.Model.UnpackedFloat.floorOf (sign : Sign) (mantissa : Nat) (exponent : Int) : Int :=
  if 0 ≤ exponent then sign.apply (mantissa <<< exponent.toNat)
  else sign.apply mantissa / (Nat.pow 2 (-exponent).toNat : Nat)

/-- The single-precision number nearest to `x`, ties going to the even mantissa; a number beyond
the range becomes infinite. -/
def Float.narrow (x : Float) : Float32 :=
  .ofModel (.pack (x.toModel.unpack.convert .binary32))

/-- The double-precision number equal to `x`. -/
def Float32.widen (x : Float32) : Float :=
  .ofModel (.pack (x.toModel.unpack.convert .binary64))

/-- The greatest integer that is not above `x`, or `none` when `x` is not finite. -/
def Float32.floorInt (x : Float32) : Option Int :=
  match x.toModel.unpack with
  | .finite sign mantissa exponent _ => some (UnpackedFloat.floorOf sign mantissa exponent)
  | .zero _ => some 0
  | .infinity _ => none
  | .notANumber => none

/-- The single-precision number nearest to an integer. -/
def Float32.ofInteger (n : Int) : Float32 :=
  .ofModel (.ofInt n)

/-- The double-precision number nearest to an integer. -/
def Float.ofInteger (n : Int) : Float :=
  .ofModel (.ofInt n)
