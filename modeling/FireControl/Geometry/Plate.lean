import FireControl.Geometry.Angle
import FireControl.Geometry.Vector

/-!
# Armor Plates

A robot carries four armor plates at quarter turns around its centre. Opposite plates are at the
same distance from the centre: plates of even sectors at one radius, plates of odd sectors at the
other. The plate that can be hit is the one that faces the camera, and its direction is the robot's
heading folded into the quarter turn around the optical axis.

## Main definitions

* `Plate.sector`: The quarter turn in which a heading lies.
* `Plate.radius`: The radius of the plates of a heading's sector.
* `Plate.facing`: A heading folded into the quarter turn that faces the camera.
* `Plate.offset`: The way from the centre of rotation to a plate.
-/

namespace FireControl

namespace Plate

/-- The least signed integer of 32 bits. -/
def least32 : Int := -2147483648

/-- The greatest signed integer of 32 bits. -/
def greatest32 : Int := 2147483647

/-- The greatest integer not above `x`, limited to 32 bits; zero for a number that is not one. -/
def floor32 (x : Float32) : Int :=
  match x.floorInt with
  | some n => max least32 (min n greatest32)
  | none => if x.isNaN then 0 else if x < 0 then least32 else greatest32

/-- The quarter turn in which a heading lies, from 0 to 3. Sectors are centred on the multiples of a
quarter turn. -/
def sector (yaw : Float32) : Nat :=
  (floor32 ((Angle.wrap yaw + Angle.quarterPi) / Angle.halfPi) % 4).toNat

/-- The radius of the plates in a heading's sector: `even` or `odd`. -/
def radius (yaw even odd : Float32) : Float32 :=
  if sector yaw % 2 = 0 then even else odd

/-- A heading folded into the quarter turn `[-π/4, π/4)` that faces the camera. -/
def facing (yaw : Float32) : Float32 :=
  (yaw + Angle.quarterPi).remEuclid Angle.halfPi - Angle.quarterPi

/-- The way from the centre of rotation to the plate that looks in direction `yaw`. -/
def offset [ElementaryFunctions] (radius yaw : Float32) : Vec3 :=
  ⟨radius * ElementaryFunctions.sin yaw, 0, -radius * ElementaryFunctions.cos yaw⟩

end Plate

end FireControl
