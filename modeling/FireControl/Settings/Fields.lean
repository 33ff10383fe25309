import FireControl.Settings.Sections
import FireControl.Toml.Value

/-!
# Fields of the Settings

Every setting has a section and a key, can be read off and can be replaced. Reading a settings file
and writing one both go by this one table, so that they cannot disagree on a name.

## Main definitions

* `SettingsField`: A setting with its key.
* `SettingsSection`, `SettingsSection.all`: The sections with their fields, in the order of the
  file.
* `SettingsField.single` and its siblings: A field of a given type.
-/

namespace FireControl

open Toml (Scalar)

/-- A setting with its key. -/
structure SettingsField where
  key : String
  /-- The value; none where the setting is left open. -/
  get? : Settings → Option Scalar
  /-- The settings with another value, if the value has the right type. -/
  set? : Scalar → Settings → Option Settings

namespace SettingsField

/-- A number in double precision. -/
def double (key : String) (get : Settings → Float) (set : Float → Settings → Settings) :
    SettingsField where
  key := key
  get? s := some (.float (get s))
  set? v s := v.asDouble.map fun x => set x s

/-- A number in single precision. -/
def single (key : String) (get : Settings → Float32) (set : Float32 → Settings → Settings) :
    SettingsField where
  key := key
  get? s := some (.single (get s))
  set? v s := v.asSingle.map fun x => set x s

/-- A word of 64 bits. -/
def word64 (key : String) (get : Settings → UInt64) (set : UInt64 → Settings → Settings) :
    SettingsField where
  key := key
  get? s := some (.integer (get s).toNat)
  set? v s := v.asWord64.map fun x => set x s

/-- A word of 64 bits that may be left open. -/
def word64? (key : String) (get : Settings → Option UInt64)
    (set : Option UInt64 → Settings → Settings) : SettingsField where
  key := key
  get? s := (get s).map fun x => .integer x.toNat
  set? v s := v.asWord64.map fun x => set (some x) s

/-- A word of 32 bits. -/
def word32 (key : String) (get : Settings → UInt32) (set : UInt32 → Settings → Settings) :
    SettingsField where
  key := key
  get? s := some (.integer (get s).toNat)
  set? v s := v.asWord32.map fun x => set x s

/-- A flag. -/
def flag (key : String) (get : Settings → Bool) (set : Bool → Settings → Settings) :
    SettingsField where
  key := key
  get? s := some (.boolean (get s))
  set? v s := v.asFlag.map fun x => set x s

/-- A text. -/
def text (key : String) (get : Settings → String) (set : String → Settings → Settings) :
    SettingsField where
  key := key
  get? s := some (.string (get s))
  set? v s := v.asText.map fun x => set x s

end SettingsField

/-- A section with its fields. -/
structure SettingsSection where
  name : String
  fields : List SettingsField

namespace SettingsSection

open SettingsField

/-- The scheduling of the stages. -/
def pipeline : SettingsSection where
  name := "pipeline"
  fields :=
    [word64 "poll_backoff_us" (·.pipeline.pollBackoff)
      fun x s => { s with pipeline.pollBackoff := x },
    word64 "join_timeout_ms" (·.pipeline.joinTimeout)
      fun x s => { s with pipeline.joinTimeout := x }]

/-- The choice of a target. -/
def tracker : SettingsSection where
  name := "tracker"
  fields :=
    [double "ttl_s" (·.tracker.ttl) fun x s => { s with tracker.ttl := x },
    single "default_radius" (·.tracker.defaultRadius)
      fun x s => { s with tracker.defaultRadius := x },
    single "min_confidence" (·.tracker.minConfidence)
      fun x s => { s with tracker.minConfidence := x }]

/-- The estimate of its motion. -/
def estimator : SettingsSection where
  name := "estimator"
  fields :=
    [word64 "period_ms" (·.estimator.period) fun x s => { s with estimator.period := x },
    word64 "particle_count" (·.estimator.particleCount)
      fun x s => { s with estimator.particleCount := x },
    word64? "seed" (·.estimator.seed) fun x s => { s with estimator.seed := x },
    single "position_noise" (·.estimator.positionNoise)
      fun x s => { s with estimator.positionNoise := x },
    single "yaw_noise" (·.estimator.yawNoise) fun x s => { s with estimator.yawNoise := x }]

/-- The lead and the fire decision. -/
def aim : SettingsSection where
  name := "aim"
  fields :=
    [single "initial_bullet_speed" (·.aim.initialBulletSpeed)
      fun x s => { s with aim.initialBulletSpeed := x },
    single "initial_processing_time_s" (·.aim.initialProcessingTime)
      fun x s => { s with aim.initialProcessingTime := x },
    single "speed_alpha" (·.aim.speedAlpha) fun x s => { s with aim.speedAlpha := x },
    single "latency_alpha" (·.aim.latencyAlpha) fun x s => { s with aim.latencyAlpha := x },
    single "actuation_latency_s" (·.aim.actuationLatency)
      fun x s => { s with aim.actuationLatency := x },
    single "convergence_threshold_s" (·.aim.convergenceThreshold)
      fun x s => { s with aim.convergenceThreshold := x },
    word32 "max_iterations" (·.aim.maxIterations) fun x s => { s with aim.maxIterations := x },
    single "gravity" (·.aim.gravity) fun x s => { s with aim.gravity := x },
    single "chase_distance_m" (·.aim.chaseDistance) fun x s => { s with aim.chaseDistance := x },
    single "fire_yaw_tolerance_rad" (·.aim.fireYawTolerance)
      fun x s => { s with aim.fireYawTolerance := x },
    single "fire_pitch_tolerance_rad" (·.aim.firePitchTolerance)
      fun x s => { s with aim.firePitchTolerance := x }]

/-- The limits of the gimbal. -/
def gimbal : SettingsSection where
  name := "gimbal"
  fields :=
    [single "pitch_min" (·.gimbal.pitchMin) fun x s => { s with gimbal.pitchMin := x },
    single "pitch_max" (·.gimbal.pitchMax) fun x s => { s with gimbal.pitchMax := x },
    single "yaw_min" (·.gimbal.yawMin) fun x s => { s with gimbal.yawMin := x },
    single "yaw_max" (·.gimbal.yawMax) fun x s => { s with gimbal.yawMax := x },
    single "safety_margin" (·.gimbal.safetyMargin) fun x s => { s with gimbal.safetyMargin := x },
    flag "yaw_limited" (·.gimbal.yawLimited) fun x s => { s with gimbal.yawLimited := x }]

/-- The link to the gimbal controller. -/
def serial : SettingsSection where
  name := "serial"
  fields :=
    [text "device" (·.serial.device) fun x s => { s with serial.device := x },
    word32 "baud" (·.serial.baud) fun x s => { s with serial.baud := x }]

/-- The sections in the order of the file. -/
def all : List SettingsSection :=
  [pipeline, tracker, estimator, aim, gimbal, serial]

/-- The field of a key. -/
def field? (part : SettingsSection) (key : String) : Option SettingsField :=
  part.fields.find? fun f => f.key = key

/-- The section of a name. -/
def ofName? (name : String) : Option SettingsSection :=
  all.find? fun part => part.name = name

end SettingsSection

end FireControl
