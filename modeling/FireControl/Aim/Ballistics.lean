import FireControl.Geometry.Vector
import FireControl.Numeric.Elementary

/-!
# Ballistics

The formulas behind a shot: how long the bullet flies, how far it falls meanwhile, and by which
angles the gimbal has to turn. The bullet flies in a straight line at constant speed, apart from the
fall.

## Main definitions

* `timeOfFlight`: Distance over speed.
* `bulletDrop`: The fall of a bullet over a distance.
* `gimbalCorrection`: The angles from the optical axis to a point.
* `lowPass`: A filtered value after one more sample.
-/

namespace FireControl

/-- The filtered value after one more sample, which counts with weight `alpha`. -/
def lowPass (value sample alpha : Float32) : Float32 :=
  alpha * sample + (1 - alpha) * value

/-- The seconds that a bullet needs to a point. -/
def timeOfFlight (target : Vec3) (speed : Float32) : Float32 :=
  target.norm / speed

/-- How far a bullet falls over a distance: `½ · g · d² / v²`. -/
def bulletDrop (distance speed gravity : Float32) : Float32 :=
  let inverseSpeed := 1 / speed
  0.5 * gravity * distance * distance * inverseSpeed * inverseSpeed

/-- The yaw and pitch from the optical axis to a point in the camera frame. Pitch points down, along
the camera's `y` axis. -/
def gimbalCorrection [ElementaryFunctions] (target : Vec3) : Float32 × Float32 :=
  (ElementaryFunctions.atan2 target.x target.z, ElementaryFunctions.atan2 target.y target.z)

end FireControl
