/-!
# Elementary Functions

The transcendental functions that the turret needs. IEEE 754 does not fix their last bit, so they
are a parameter: every definition that uses one takes an `ElementaryFunctions` instance, and every
theorem about such a definition holds whichever library supplies them. What a theorem needs to know
about the library it states as a hypothesis on the instance.

Arithmetic, comparison and square roots are not part of the parameter. IEEE 754 fixes them to the
last bit, and so does `Float32`.

## Main definitions

* `ElementaryFunctions`: sine, cosine, exponential, logarithm and the angle of a point.
* `ElementaryFunctions.native`: The functions of the mathematical library of the platform.
-/

namespace FireControl

/-- The single-precision functions whose last bit depends on the mathematical library in use. -/
class ElementaryFunctions where
  /-- The sine of an angle in radians. -/
  sin : Float32 → Float32
  /-- The cosine of an angle in radians. -/
  cos : Float32 → Float32
  /-- The natural exponential. -/
  exp : Float32 → Float32
  /-- The natural logarithm. -/
  log : Float32 → Float32
  /-- The angle from the positive `x` axis to the point `(x, y)`, given as `atan2 y x`. -/
  atan2 : Float32 → Float32 → Float32

/-- The mathematical library of the platform. -/
@[reducible] def ElementaryFunctions.native : ElementaryFunctions where
  sin := Float32.sin
  cos := Float32.cos
  exp := Float32.exp
  log := Float32.log
  atan2 := Float32.atan2

end FireControl
