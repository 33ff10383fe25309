import FireControl.Aim.Solver
import FireControl.Gimbal.Limits
import FireControl.Packet.Basic

/-!
# Gimbal Commands

A correction says how far the gimbal has to turn from where it looks. Limits are absolute, so a
correction is added to the present direction, brought inside the limits, and turned into a
correction again. A correction in pitch points down while the gimbal's pitch points up, so it is
subtracted.

## Main definitions

* `GimbalLimits.limit`: The correction that stays inside the limits.
* `AimOutput.packet`: The packet of a correction, in degrees.
-/

namespace FireControl

/-- The correction nearest to the given one that keeps the gimbal inside its limits, under the
latest reading of the orientation. -/
def GimbalLimits.limit (limits : GimbalLimits) (latest : Option Orientation) (yaw pitch : Float32) :
    Float32 × Float32 :=
  let currentYaw := (latest.map Orientation.yawAngle).getD 0
  let currentPitch := (latest.map Orientation.pitchAngle).getD 0
  let (targetYaw, targetPitch) := limits.clamp (currentYaw + yaw) (currentPitch - pitch)
  (Angle.wrap (targetYaw - currentYaw), currentPitch - targetPitch)

/-- The packet of a correction, brought inside the limits and given in degrees. -/
def AimOutput.packet (output : AimOutput) (limits : GimbalLimits) (latest : Option Orientation) :
    Packet :=
  let (yaw, pitch) := limits.limit latest output.yaw output.pitch
  Packet.ofAngles (Angle.toDegrees yaw) (Angle.toDegrees pitch) output.fire

end FireControl
