import FireControl.Numeric.Order
import FireControl.Random.Sampling
import FireControl.Robot.State

/-!
# Particles

A particle is one guess of the target's motion, with a weight that says how well it agrees with what
was measured. Between measurements a particle moves with constant acceleration, and its
accelerations take a random walk. A measurement is compared by place, heading and radii.

## Main definitions

* `Particle`: A guess with its weight.
* `Motion.advance`: The guess a while later.
* `Motion.scatter`: A guess near a measurement.
* `Motion.misfit`: How badly a guess agrees with a measurement.
* `SensorNoise`: The deviations of the measurements.
-/

namespace FireControl

/-- The standard deviations of a measured place and a measured heading. -/
structure SensorNoise where
  position : Float32
  yaw : Float32
deriving DecidableEq

/-- A guess of the target's motion with its weight. -/
structure Particle where
  motion : Motion
  weight : Float32
deriving DecidableEq

namespace Particle

/-- The spread of the velocity of a first guess, in metres per second. -/
def velocitySpread : Float32 := 0.5

/-- The spread of the yaw rate of a first guess, in radians per second. -/
def yawRateSpread : Float32 := 1

/-- The random walk of the acceleration within a second. -/
def accelerationNoise : Float32 := 4

/-- The random walk of the yaw acceleration within a second. -/
def yawAccelerationNoise : Float32 := 8

/-- The standard deviation of a measured radius, in metres. -/
def radiusNoise : Float32 := 0.05

/-- The least radius of a robot. -/
def leastRadius : Float32 := 0.05

/-- The greatest radius of a robot. -/
def greatestRadius : Float32 := 0.6

end Particle

/-- Place, velocity and acceleration along one axis. -/
structure AxisMotion where
  position : Float32
  velocity : Float32
  acceleration : Float32
deriving DecidableEq

namespace AxisMotion

variable [ElementaryFunctions]

/-- The motion along an axis `dt` seconds later, with noise of deviation `sigma` in the
acceleration. -/
def advance (dt halfSquare sigma : Float32) (a : AxisMotion) : Draw AxisMotion := do
  let noise ← Draw.normal sigma
  return { position := a.position + (a.velocity * dt + a.acceleration * halfSquare),
           velocity := a.velocity + a.acceleration * dt, acceleration := a.acceleration + noise }

/-- A guess near a measured place, without acceleration. -/
def scatter (sigma : Float32) (a : AxisMotion) : Draw AxisMotion := do
  let place ← Draw.normal sigma
  let speed ← Draw.normal Particle.velocitySpread
  return { position := a.position + place, velocity := a.velocity + speed, acceleration := 0 }

end AxisMotion

namespace Motion

/-- A function of two numbers applied to each of the fifteen pairs. -/
def zipWith (f : Float32 → Float32 → Float32) (m n : Motion) : Motion :=
  { position := Vec3.zipWith f m.position n.position,
    velocity := Vec3.zipWith f m.velocity n.velocity,
    acceleration := Vec3.zipWith f m.acceleration n.acceleration,
    yaw := f m.yaw n.yaw, yawRate := f m.yawRate n.yawRate,
    yawAcceleration := f m.yawAcceleration n.yawAcceleration,
    evenRadius := f m.evenRadius n.evenRadius, oddRadius := f m.oddRadius n.oddRadius,
    heightOffset := f m.heightOffset n.heightOffset }

/-- All fifteen numbers multiplied by `k`. -/
def scale (m : Motion) (k : Float32) : Motion :=
  zipWith (fun x _ => x * k) m m

/-- The fifteen sums of two motions. -/
def add (m n : Motion) : Motion :=
  zipWith (· + ·) m n

/-- The motion along the `x` axis. -/
def alongX (m : Motion) : AxisMotion := ⟨m.position.x, m.velocity.x, m.acceleration.x⟩

/-- The motion along the `y` axis. -/
def alongY (m : Motion) : AxisMotion := ⟨m.position.y, m.velocity.y, m.acceleration.y⟩

/-- The motion along the `z` axis. -/
def alongZ (m : Motion) : AxisMotion := ⟨m.position.z, m.velocity.z, m.acceleration.z⟩

/-- The motion with another motion of its centre. -/
def withAxes (m : Motion) (x y z : AxisMotion) : Motion :=
  { m with
    position := ⟨x.position, y.position, z.position⟩
    velocity := ⟨x.velocity, y.velocity, z.velocity⟩
    acceleration := ⟨x.acceleration, y.acceleration, z.acceleration⟩ }

variable [ElementaryFunctions]

/-- The motion `dt` seconds later, with noise in the accelerations. -/
def advance (dt : Float32) (m : Motion) : Draw Motion := do
  let root := dt.sqrt
  let halfSquare := 0.5 * dt * dt
  let x ← m.alongX.advance dt halfSquare (Particle.accelerationNoise * root)
  let y ← m.alongY.advance dt halfSquare (Particle.accelerationNoise * root)
  let z ← m.alongZ.advance dt halfSquare (Particle.accelerationNoise * root)
  let noise ← Draw.normal (Particle.yawAccelerationNoise * root)
  return { m.withAxes x y z with
    yaw := Angle.wrap (m.yaw + m.yawRate * dt + m.yawAcceleration * halfSquare)
    yawRate := m.yawRate + m.yawAcceleration * dt
    yawAcceleration := m.yawAcceleration + noise }

/-- A radius near a measured one, within the bounds of a robot. -/
def scatterRadius (radius : Float32) : Draw Float32 := do
  let noise ← Draw.normal (Particle.radiusNoise * 0.5)
  return (radius + noise).clampTo Particle.leastRadius Particle.greatestRadius

/-- A guess near a measured motion, without acceleration. -/
def scatter (noise : SensorNoise) (m : Motion) : Draw Motion := do
  let x ← m.alongX.scatter noise.position
  let y ← m.alongY.scatter noise.position
  let z ← m.alongZ.scatter noise.position
  let turn ← Draw.normal noise.yaw
  let rate ← Draw.normal Particle.yawRateSpread
  let even ← scatterRadius m.evenRadius
  let odd ← scatterRadius m.oddRadius
  return { m.withAxes x y z with
    yaw := Angle.wrap (m.yaw + turn), yawRate := m.yawRate + rate, yawAcceleration := 0
    evenRadius := even, oddRadius := odd }

end Motion

/-- What the squares of the differences from a measurement are multiplied by. -/
structure Precisions where
  position : Float32
  yaw : Float32
  radius : Float32
deriving DecidableEq

namespace SensorNoise

/-- The distance from one to the next number in single precision, the least variance that is
used. -/
def leastVariance : Float32 := 1.19209290e-7

/-- The reciprocal variances, each variance being kept away from zero. -/
def precisions (noise : SensorNoise) : Precisions :=
  { position := 1 / (noise.position * noise.position).maxNum leastVariance,
    yaw := 1 / (noise.yaw * noise.yaw).maxNum leastVariance,
    radius := 1 / (Particle.radiusNoise * Particle.radiusNoise) }

end SensorNoise

/-- How badly a guess agrees with a measurement: half the sum of the squared differences, each
measured by its deviation. -/
def Motion.misfit (precisions : Precisions) (measured guess : Motion) : Float32 :=
  let distance := (guess.position - measured.position).normSquared
  let turn := Angle.distance guess.yaw measured.yaw
  let even := guess.evenRadius - measured.evenRadius
  let odd := guess.oddRadius - measured.oddRadius
  0.5 *
    (distance * precisions.position + turn * turn * precisions.yaw +
      (even * even + odd * odd) * precisions.radius)

end FireControl
