import FireControl.Numeric.Elementary
import FireControl.Numeric.Remainder

/-!
# Angles

Angles in radians, and their folding onto one turn. Folding takes a Euclidean remainder, and the
remainder of a tiny negative number rounds up to the whole turn; `Angle.wrap` therefore checks the
upper end once more.

## Main definitions

* `Angle.wrap`: An angle folded into `[-π, π)`.
* `Angle.distance`: The distance of two angles on the circle.
* `Angle.ofDegrees`, `Angle.toDegrees`: The conversions between radians and degrees.
* `Angle.circularMean`: The weighted mean of directions.
-/

namespace FireControl

namespace Angle

/-- The number π, rounded to single precision. -/
def pi : Float32 := 3.14159265358979323846264338327950288

/-- A whole turn, rounded to single precision. -/
def tau : Float32 := 6.28318530717958647692528676655900577

/-- A quarter turn, rounded to single precision. -/
def halfPi : Float32 := 1.57079632679489661923132169163975144

/-- An eighth of a turn, rounded to single precision. -/
def quarterPi : Float32 := 0.785398163397448309615660845819875721

/-- An angle folded onto the turn that starts at `-π`, without a check of the upper end. -/
def fold (angle : Float32) : Float32 :=
  (angle + pi).remEuclid tau - pi

/-- An angle folded into `[-π, π)`. -/
def wrap (angle : Float32) : Float32 :=
  let folded := fold angle
  if pi ≤ folded then folded - tau else folded

/-- The distance of two angles on the circle, in `[0, π]`. -/
def distance (a b : Float32) : Float32 :=
  (wrap (a - b)).abs

/-- An angle in radians from degrees. -/
def ofDegrees (degrees : Float32) : Float32 :=
  degrees * (pi / 180)

/-- An angle in degrees from radians, by the quotient of 180 and the rounded π. -/
def toDegrees (radians : Float32) : Float32 :=
  radians * (180 / pi)

/-- An angle in degrees for display, by the rounded quotient of 180 and π. -/
def displayDegrees (radians : Float32) : Float32 :=
  radians * 57.2957795130823208767981548141051703

/-- The sums that a weighted mean of directions is made of. -/
structure DirectionSum where
  sine : Float32
  cosine : Float32
  weight : Float32

variable [ElementaryFunctions]

/-- One more weighted direction in the sums. -/
def DirectionSum.add (sum : DirectionSum) (angle weight : Float32) : DirectionSum :=
  { sine := sum.sine + weight * ElementaryFunctions.sin angle,
    cosine := sum.cosine + weight * ElementaryFunctions.cos angle,
    weight := sum.weight + weight }

/-- The weighted mean of directions, each given with its weight. There is none when the weights do
not add up to a positive number, or when the directions cancel out. -/
def circularMean (directions : List (Float32 × Float32)) : Option Float32 :=
  let sum := directions.foldl
    (fun (sum : DirectionSum) direction => sum.add direction.1 direction.2) ⟨0, 0, 0⟩
  if sum.weight ≤ 0 ∨ (sum.sine == 0 && sum.cosine == 0) then none
  else some (wrap (ElementaryFunctions.atan2 sum.sine sum.cosine))

end Angle

end FireControl
