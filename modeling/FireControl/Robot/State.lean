import FireControl.Geometry.Vector
import FireControl.Sensor.Time

/-!
# State of a Robot

Where a robot is and how it moves. Fifteen numbers describe the motion; the filter works on them
alone, while the stages exchange them together with the robot's number and the time.

## Main definitions

* `RobotId`: The number on a robot's armor.
* `Motion`: Position, velocity, acceleration, heading and shape.
* `Motion.toList`, `Motion.ofList?`: The fifteen numbers in order.
* `RobotState`: The motion of a robot at a time.
* `RobotState.atRest`: A robot of which only place and heading are known.
-/

namespace FireControl

/-- The number on a robot's armor. -/
structure RobotId where
  number : UInt32
deriving DecidableEq, Inhabited, Repr

/-- The text of a robot's number. -/
def RobotId.text (id : RobotId) : String :=
  "#" ++ toString id.number.toNat

/-- The motion and the shape of a robot. -/
structure Motion where
  /-- The centre of rotation, in metres. -/
  position : Vec3
  velocity : Vec3
  acceleration : Vec3
  /-- The heading in radians. -/
  yaw : Float32
  yawRate : Float32
  yawAcceleration : Float32
  /-- The radius of the plates of even sectors. -/
  evenRadius : Float32
  /-- The radius of the plates of odd sectors. -/
  oddRadius : Float32
  /-- How far the plates are below the centre. -/
  heightOffset : Float32
deriving DecidableEq, Inhabited

namespace Motion

/-- The motion of fifteen zeros. -/
def zero : Motion :=
  { position := Vec3.zero, velocity := Vec3.zero, acceleration := Vec3.zero,
    yaw := 0, yawRate := 0, yawAcceleration := 0,
    evenRadius := 0, oddRadius := 0, heightOffset := 0 }

/-- The fifteen numbers in order. -/
def toList (m : Motion) : List Float32 :=
  [m.position.x, m.position.y, m.position.z, m.velocity.x, m.velocity.y, m.velocity.z,
    m.acceleration.x, m.acceleration.y, m.acceleration.z, m.yaw, m.yawRate, m.yawAcceleration,
    m.evenRadius, m.oddRadius, m.heightOffset]

/-- The motion of fifteen numbers. -/
def ofList? : List Float32 → Option Motion
  | [px, py, pz, vx, vy, vz, ax, ay, az, yaw, yawRate, yawAcceleration, even, odd, height] =>
    some
      { position := ⟨px, py, pz⟩, velocity := ⟨vx, vy, vz⟩, acceleration := ⟨ax, ay, az⟩,
        yaw := yaw, yawRate := yawRate, yawAcceleration := yawAcceleration,
        evenRadius := even, oddRadius := odd, heightOffset := height }
  | _ => none

end Motion

/-- The motion of a robot at a time. -/
structure RobotState extends Motion where
  robot : RobotId
  time : Instant
  /-- Whether this is the first state of a newly locked target, from which the filter has to start
  again. -/
  reset : Bool
deriving DecidableEq, Inhabited

namespace RobotState

/-- The state with the motion `m` of a robot at a time. -/
def ofMotion (m : Motion) (robot : RobotId) (time : Instant) : RobotState :=
  { toMotion := m, robot := robot, time := time, reset := false }

/-- The state of a robot of which only place and heading are known. -/
def atRest (robot : RobotId) (position : Vec3) (yaw radius : Float32) (time : Instant) :
    RobotState :=
  ofMotion
    { Motion.zero with
      position := position, yaw := yaw, evenRadius := radius, oddRadius := radius }
    robot time

end RobotState

end FireControl
