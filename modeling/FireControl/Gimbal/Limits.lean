import FireControl.Decimal.Text
import FireControl.Geometry.Angle
import FireControl.Numeric.Order

/-!
# Gimbal Limits

The soft limits that every command passes before it reaches the gimbal. Pitch is always kept inside
its range, shortened by a safety margin at both ends. Yaw is kept inside its range on a gimbal with
end stops and only folded onto one turn on a gimbal without them.

## Main definitions

* `GimbalLimits`: The ranges and the margin, in radians.
* `GimbalLimits.clamp`: The permitted angles nearest to requested ones.
* `GimbalLimits.Valid`: Limits that are finite and leave room inside the margin.
* `GimbalLimits.status`: The state of the gimbal for the operator.
-/

namespace FireControl

/-- The soft limits of the gimbal, in radians. -/
structure GimbalLimits where
  pitchMin : Float32
  pitchMax : Float32
  yawMin : Float32
  yawMax : Float32
  /-- How far commands stay away from the ends of a range. -/
  safetyMargin : Float32
  /-- Whether the gimbal has end stops in yaw. -/
  yawLimited : Bool
deriving DecidableEq

/-- The limits of a gimbal that turns freely, from about 10° down to about 50° up. -/
instance : Inhabited GimbalLimits where
  default :=
    { pitchMin := -0.17, pitchMax := 0.87, yawMin := -3.14, yawMax := 3.14,
      safetyMargin := 0.05, yawLimited := false }

/-- The number nearest to `x` between `low` and `high`, each moved inwards by `margin`. Where the
margin leaves nothing between them, it is their midpoint. -/
def clampInside (x low high margin : Float32) : Float32 :=
  let lower := low + margin
  let upper := high - margin
  if upper < lower then 0.5 * (low + high) else (x.maxNum lower).minNum upper

namespace GimbalLimits

/-- How near to an end of its range the pitch counts as being at it, about 4.5°. -/
def band : Float32 := 0.08

/-- The permitted pitch nearest to a requested one. -/
def clampPitch (limits : GimbalLimits) (pitch : Float32) : Float32 :=
  clampInside pitch limits.pitchMin limits.pitchMax limits.safetyMargin

/-- The permitted yaw nearest to a requested one. -/
def clampYaw (limits : GimbalLimits) (yaw : Float32) : Float32 :=
  if limits.yawLimited then clampInside yaw limits.yawMin limits.yawMax limits.safetyMargin
  else Angle.fold yaw

/-- The permitted yaw and pitch nearest to requested ones. -/
def clamp (limits : GimbalLimits) (yaw pitch : Float32) : Float32 × Float32 :=
  (limits.clampYaw yaw, limits.clampPitch pitch)

/-- Whether the angles lie in the full ranges. A gimbal without end stops reaches every yaw. -/
def reaches (limits : GimbalLimits) (yaw pitch : Float32) : Bool :=
  limits.pitchMin ≤ pitch && pitch ≤ limits.pitchMax &&
    (!limits.yawLimited || (limits.yawMin ≤ yaw && yaw ≤ limits.yawMax))

/-- Whether the pitch is near the lower end of its range. -/
def atLowerEnd (limits : GimbalLimits) (pitch : Float32) : Bool :=
  pitch < limits.pitchMin + band

/-- Whether the pitch is near the upper end of its range. -/
def atUpperEnd (limits : GimbalLimits) (pitch : Float32) : Bool :=
  limits.pitchMax - band < pitch

/-- Whether the pitch is near an end of its range. -/
def atEnd (limits : GimbalLimits) (pitch : Float32) : Bool :=
  limits.atLowerEnd pitch || limits.atUpperEnd pitch

/-- The state of the gimbal for the operator. -/
def status (limits : GimbalLimits) (yaw pitch : Float32) : String :=
  let mark :=
    if limits.atLowerEnd pitch then " [AT MIN]"
    else if limits.atUpperEnd pitch then " [AT MAX]"
    else ""
  "yaw=" ++ (Angle.displayDegrees yaw).fixedText 2 ++ "° pitch=" ++
    (Angle.displayDegrees pitch).fixedText 2 ++ "°" ++ mark

/-- Whether the limits are finite, in order, and leave room for the pitch inside the margin. -/
def isValid (limits : GimbalLimits) : Bool :=
  limits.pitchMin.isFinite && limits.pitchMax.isFinite && limits.yawMin.isFinite &&
    limits.yawMax.isFinite && limits.safetyMargin.isFinite &&
    0 ≤ limits.safetyMargin &&
    limits.pitchMin + limits.safetyMargin < limits.pitchMax - limits.safetyMargin &&
    limits.yawMin < limits.yawMax

/-- Limits that can be used. -/
def Valid (limits : GimbalLimits) : Prop :=
  limits.isValid = true

instance (limits : GimbalLimits) : Decidable limits.Valid :=
  inferInstanceAs (Decidable (_ = _))

end GimbalLimits

end FireControl
