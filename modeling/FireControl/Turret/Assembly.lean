import FireControl.Turret.Basic
import FireControl.Turret.Error

/-!
# Assembly

A turret is built from its parts. Whatever can be wrong is found before the first stage starts, in a
fixed order: the settings, the camera, the inertial measurement unit, the filter.

## Main definitions

* `TurretParts`: The parts of a turret.
* `Turret.build`: The turret of settings and parts.
-/

namespace FireControl

/-- The parts of a turret. -/
structure TurretParts (δ φ σ : Type) where
  camera : Option Camera
  imu : Option InertialUnit
  detector : Detector δ
  model : δ
  filter : Filter φ
  /-- The filter with a number of particles, and what it reports. -/
  prepare : Nat → Except FilterError (φ × List Log.Line)
  link : Link σ
  /-- The state of the link; without it nothing is sent. -/
  linkState : Option σ

namespace TurretParts

/-- A part that cannot be missing. -/
def require {α : Type} (name : String) (part : Option α) : Except TurretError α :=
  match part with
  | some part => .ok part
  | none => .error (.missing name)

end TurretParts

/-- What the particle filter gives when it is prepared. -/
def ParticleFilter.prepare (filter : ParticleFilter) (n : Nat) :
    Except FilterError (ParticleFilter × List Log.Line) :=
  (filter.init n).map fun ready => (ready, [ParticleFilter.startLog n])

namespace Turret

variable {δ φ σ : Type}

/-- The turret of settings and parts, and what is reported while it starts. -/
def build (settings : Settings) (parts : TurretParts δ φ σ) :
    Except TurretError (Turret δ φ σ × List Log.Line) := do
  settings.validate.mapError TurretError.settings
  let camera ← TurretParts.require "camera" parts.camera
  let imu ← TurretParts.require "imu" parts.imu
  let (filter, log) ←
    (parts.prepare settings.estimator.particleCount.toNat).mapError TurretError.filter
  let stages := Stage.started parts.linkState.isSome
  let turret : Turret δ φ σ :=
    { equipment := ⟨parts.detector, parts.filter, parts.link.optional⟩,
      camera := camera, imu := imu,
      pipeline := Pipeline.new settings parts.model filter parts.linkState,
      stages := stages, crashed := [], running := true,
      backoff := .ofMicroseconds settings.pipeline.pollBackoff.toNat,
      period := .ofMilliseconds settings.estimator.period.toNat,
      joinTimeout := .ofMilliseconds settings.pipeline.joinTimeout.toNat }
  let started := "Turret pipeline started with threads: " ++ Stage.list stages
  return (turret, log ++ [Log.info .assembly started])

end Turret

end FireControl
