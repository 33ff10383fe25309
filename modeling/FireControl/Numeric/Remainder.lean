import FireControl.Numeric.Precision

/-!
# Floating-Point Remainder

The remainder of a truncated division is always representable, so it is computed exactly: both
operands are brought to one exponent, and the remainder is taken of the two integers. The Euclidean
remainder then adds the divisor once where the truncated one is negative, and that addition rounds:
a tiny negative dividend gives the divisor itself.

## Main definitions

* `UnpackedFloat.remainder`: The exact remainder on unpacked numbers.
* `Float32.truncatedRemainder`: The remainder with the sign of the dividend.
* `Float32.remEuclid`: The remainder brought into `[0, divisor]`.
-/

open Float.Model (UnpackedFloat Format)

/-- The remainder of `x / y` after truncation, with the sign of `x`. It is exact: both numbers are
written over the smaller exponent, and the mantissas leave an integer remainder. -/
def Float.Model.UnpackedFloat.remainder (format : Format) :
    UnpackedFloat → UnpackedFloat → UnpackedFloat
  | .finite sign m e _, .finite _ m' e' _ =>
    let least := min e e'
    let rest := (m <<< (e - least).toNat) % (m' <<< (e' - least).toNat)
    if rest = 0 then .zero sign else UnpackedFloat.round format sign rest least
  | .zero sign, .finite _ _ _ _ => .zero sign
  | .zero sign, .infinity _ => .zero sign
  | .finite sign m e h, .infinity _ => .finite sign m e h
  | _, _ => .notANumber

namespace Float32

/-- The remainder of `x / y` after truncation, with the sign of `x`. -/
def truncatedRemainder (x y : Float32) : Float32 :=
  .ofModel (.pack (UnpackedFloat.remainder .binary32 x.toModel.unpack y.toModel.unpack))

/-- The remainder of `x / y` with `|y|` added where it would be negative. -/
def remEuclid (x y : Float32) : Float32 :=
  let rest := x.truncatedRemainder y
  if rest < 0 then rest + y.abs else rest

end Float32
