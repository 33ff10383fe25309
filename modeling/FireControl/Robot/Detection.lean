import FireControl.Robot.State

/-!
# Detections

What the detection model reports for one armor plate.

## Main definitions

* `Keypoint`: A corner of a plate in the image.
* `Detection`: A plate with its corners and its pose.
* `Detection.position`: Where the plate is.
* `Detection.distance`: How far the plate is from the camera.
-/

namespace FireControl

/-- A corner of a plate, in pixels. -/
structure Keypoint where
  x : Float32
  y : Float32
  confidence : Float32
deriving DecidableEq, Inhabited

/-- The four corners of a plate. -/
structure Corners where
  first : Keypoint
  second : Keypoint
  third : Keypoint
  fourth : Keypoint
deriving DecidableEq, Inhabited

namespace Corners

/-- A function applied to each corner. -/
def map (f : Keypoint → Keypoint) (c : Corners) : Corners :=
  ⟨f c.first, f c.second, f c.third, f c.fourth⟩

/-- The corners in order. -/
def toList (c : Corners) : List Keypoint :=
  [c.first, c.second, c.third, c.fourth]

end Corners

/-- A plate found by the detection model. Place and heading are given in the camera frame until they
are moved to the world frame. -/
structure Detection where
  robot : RobotId
  corners : Corners
  confidence : Float32
  /-- The centre of the plate, in metres. Its bits are kept, since the total order of distances
  tells one NaN from another. -/
  place : Vec3Bits
  /-- The direction in which the plate looks, in radians. -/
  yaw : Float32
deriving DecidableEq, Inhabited

namespace Detection

/-- The centre of a plate. -/
def position (d : Detection) : Vec3 :=
  d.place.vector

/-- The bits of the distance of a plate from the origin of its frame. -/
def distance (d : Detection) : Pattern :=
  d.place.norm

end Detection

end FireControl
