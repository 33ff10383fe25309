import FireControl.Gimbal.Limits

/-!
# Settings

The settings of the turret, in the six sections of the settings file. Each section has defaults, so
that a file only has to name what differs from them.

## Main definitions

* `Settings`: All settings.
* `PipelineSettings`, `TrackerSettings`, `EstimatorSettings`, `AimSettings`, `SerialSettings`: The
  sections; the section `gimbal` is a `GimbalLimits`.
-/

namespace FireControl

/-- How the stages are scheduled. -/
structure PipelineSettings where
  /-- How long a stage rests when there is nothing new, in microseconds. -/
  pollBackoff : UInt64
  /-- How long a stage may take to end, in milliseconds. -/
  joinTimeout : UInt64
deriving DecidableEq

instance : Inhabited PipelineSettings where
  default := { pollBackoff := 1000, joinTimeout := 2000 }

/-- How a target is chosen and followed. -/
structure TrackerSettings where
  /-- How long a target that is out of sight is held, in seconds. -/
  ttl : Float
  /-- The radius assumed of a robot seen for the first time, in metres. -/
  defaultRadius : Float32
  /-- The confidence below which a detection is dropped. -/
  minConfidence : Float32
deriving DecidableEq

instance : Inhabited TrackerSettings where
  default := { ttl := 1, defaultRadius := 0.25, minConfidence := 0.5 }

/-- How the motion of the target is estimated. -/
structure EstimatorSettings where
  /-- The time between two estimates, in milliseconds. -/
  period : UInt64
  particleCount : UInt64
  /-- The seed of the random numbers; without one they differ from run to run. -/
  seed : Option UInt64
  /-- The standard deviation of a measured position, in metres. -/
  positionNoise : Float32
  /-- The standard deviation of a measured heading, in radians. -/
  yawNoise : Float32
deriving DecidableEq

instance : Inhabited EstimatorSettings where
  default :=
    { period := 10, particleCount := 512, seed := none, positionNoise := 0.05, yawNoise := 0.1 }

/-- How the lead is computed and when to fire. -/
structure AimSettings where
  /-- The bullet speed assumed until one is measured, in metres per second. -/
  initialBulletSpeed : Float32
  /-- The processing time assumed at the start, in seconds. -/
  initialProcessingTime : Float32
  /-- The weight of a new sample in the filtered bullet speed. -/
  speedAlpha : Float32
  /-- The weight of a new sample in the filtered processing time. -/
  latencyAlpha : Float32
  /-- The time that the gimbal takes to respond, in seconds. -/
  actuationLatency : Float32
  /-- The change of the lead time, in seconds, below which it counts as found. -/
  convergenceThreshold : Float32
  /-- How often the lead time is improved at most. -/
  maxIterations : UInt32
  /-- The gravitational acceleration, in metres per second squared. -/
  gravity : Float32
  /-- The distance beyond which the chassis is asked to follow, in metres. -/
  chaseDistance : Float32
  /-- The yaw correction below which the turret fires, in radians. -/
  fireYawTolerance : Float32
  /-- The pitch correction below which the turret fires, in radians. -/
  firePitchTolerance : Float32
deriving DecidableEq

instance : Inhabited AimSettings where
  default :=
    { initialBulletSpeed := 20, initialProcessingTime := 0.05, speedAlpha := 0.1,
      latencyAlpha := 0.1, actuationLatency := 0.1, convergenceThreshold := 0.01,
      maxIterations := 10, gravity := 9.81, chaseDistance := 6,
      fireYawTolerance := 0.065, firePitchTolerance := 0.065 }

/-- The link to the gimbal controller. -/
structure SerialSettings where
  device : String
  /-- The line speed in bits per second. -/
  baud : UInt32
deriving DecidableEq

instance : Inhabited SerialSettings where
  default := { device := "/dev/ttyUSB0", baud := 115200 }

/-- All settings of the turret. -/
structure Settings where
  pipeline : PipelineSettings
  tracker : TrackerSettings
  estimator : EstimatorSettings
  aim : AimSettings
  gimbal : GimbalLimits
  serial : SerialSettings
deriving DecidableEq, Inhabited

end FireControl
