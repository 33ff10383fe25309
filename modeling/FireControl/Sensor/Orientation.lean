import FireControl.Geometry.Angle
import FireControl.Geometry.Rotation
import FireControl.Sensor.Time

/-!
# Orientation of the Turret

What the inertial measurement unit reports, and the rotation between the camera frame and the world
frame that follows from it. Where no orientation has been measured, the two frames coincide.

## Main definitions

* `Orientation`: Roll, pitch and yaw in degrees, with the time of the reading.
* `Orientation.cameraToWorld`, `Orientation.worldToCamera`: The rotations of a latest reading.
-/

namespace FireControl

/-- A reading of the inertial measurement unit, in degrees. -/
structure Orientation where
  time : Instant
  roll : Float32
  pitch : Float32
  yaw : Float32
deriving DecidableEq

namespace Orientation

/-- The orientation in which camera frame and world frame coincide. -/
def level (time : Instant) : Orientation :=
  ⟨time, 0, 0, 0⟩

/-- The roll angle in radians. -/
def rollAngle (o : Orientation) : Float32 := Angle.ofDegrees o.roll

/-- The pitch angle in radians. -/
def pitchAngle (o : Orientation) : Float32 := Angle.ofDegrees o.pitch

/-- The yaw angle in radians. -/
def yawAngle (o : Orientation) : Float32 := Angle.ofDegrees o.yaw

variable [ElementaryFunctions]

/-- The rotation about the camera's horizontal axis. -/
def pitchRotation (pitch : Float32) : Rotation :=
  Rotation.about ⟨1, 0, 0⟩ pitch

/-- The rotation about the vertical axis. -/
def yawRotation (yaw : Float32) : Rotation :=
  Rotation.about ⟨0, 1, 0⟩ yaw

/-- The rotation from camera frame to world frame: pitch first, then yaw. -/
def outward (yaw pitch : Float32) : Rotation :=
  (yawRotation yaw).comp (pitchRotation pitch)

/-- The rotation from world frame to camera frame. -/
def inward (yaw pitch : Float32) : Rotation :=
  (outward yaw pitch).inverse

/-- The rotation from camera frame to world frame under the latest reading, if there is one. -/
def cameraToWorld (latest : Option Orientation) : Rotation :=
  match latest with
  | none => Rotation.identity
  | some o => outward o.yawAngle o.pitchAngle

/-- The rotation from world frame to camera frame under the latest reading, if there is one. -/
def worldToCamera (latest : Option Orientation) : Rotation :=
  (cameraToWorld latest).inverse

end Orientation

end FireControl
