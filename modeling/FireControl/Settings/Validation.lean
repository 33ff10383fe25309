import FireControl.IoFailure
import FireControl.Settings.Sections

/-!
# Validation of Settings

Settings that cannot work are refused before anything starts. The rules are checked in a fixed
order, and the first one that is broken is reported.

Every rule is stated so that a NaN breaks it.

## Main definitions

* `SettingsFault`: A broken rule, with the values that break it.
* `Settings.fault?`: The first rule that settings break.
* `Settings.Valid`: Settings that break no rule.
* `SettingsError`: Why settings cannot be used.
-/

namespace FireControl

/-- A broken rule. -/
inductive SettingsFault where
  | trackerTtl (found : Float)
  | trackerRadius
  | estimatorPeriod
  | particleCount
  | bulletSpeed
  | maxIterations
  | convergenceThreshold
  | alpha
  | pitchRange (low high : Float32)
  | yawRange (low high : Float32)
  | gimbalRoom (margin : Float32)
  | device
deriving DecidableEq

/-- The broken rule in words. -/
def SettingsFault.message : SettingsFault → String
  | .trackerTtl found => "tracker.ttl_s must be > 0, got " ++ found.text
  | .trackerRadius => "tracker.default_radius must be > 0"
  | .estimatorPeriod => "estimator.period_ms must be > 0"
  | .particleCount => "estimator.particle_count must be > 0"
  | .bulletSpeed => "aim.initial_bullet_speed must be > 0"
  | .maxIterations => "aim.max_iterations must be > 0"
  | .convergenceThreshold => "aim.convergence_threshold_s must be > 0"
  | .alpha => "aim.speed_alpha and aim.latency_alpha must be in (0, 1]"
  | .pitchRange low high =>
    "gimbal.pitch_min (" ++ low.text ++ ") must be below gimbal.pitch_max (" ++ high.text ++ ")"
  | .yawRange low high =>
    "gimbal.yaw_min (" ++ low.text ++ ") must be below gimbal.yaw_max (" ++ high.text ++ ")"
  | .gimbalRoom margin =>
    "gimbal limits are not finite or leave no room inside safety_margin (" ++ margin.text ++ ")"
  | .device => "serial.device must not be empty"

/-- Whether a number can weigh a sample against a filtered value. -/
def isAlpha (a : Float32) : Bool :=
  0 < a && a ≤ 1

namespace Settings

/-- The rules in order, each with whether it is kept. -/
def rules (s : Settings) : List (Bool × SettingsFault) :=
  [(0 < s.tracker.ttl, .trackerTtl s.tracker.ttl),
    (0 < s.tracker.defaultRadius, .trackerRadius),
    (s.estimator.period ≠ 0, .estimatorPeriod),
    (s.estimator.particleCount ≠ 0, .particleCount),
    (0 < s.aim.initialBulletSpeed, .bulletSpeed),
    (s.aim.maxIterations ≠ 0, .maxIterations),
    (0 < s.aim.convergenceThreshold, .convergenceThreshold),
    (isAlpha s.aim.speedAlpha && isAlpha s.aim.latencyAlpha, .alpha),
    (s.gimbal.pitchMin < s.gimbal.pitchMax, .pitchRange s.gimbal.pitchMin s.gimbal.pitchMax),
    (s.gimbal.yawMin < s.gimbal.yawMax, .yawRange s.gimbal.yawMin s.gimbal.yawMax),
    (s.gimbal.isValid, .gimbalRoom s.gimbal.safetyMargin),
    (!s.serial.device.isEmpty, .device)]

/-- The first rule that the settings break. -/
def fault? (s : Settings) : Option SettingsFault :=
  (s.rules.find? fun rule => !rule.1).map Prod.snd

/-- Settings that break no rule. -/
def Valid (s : Settings) : Prop :=
  s.fault? = none

instance (s : Settings) : Decidable s.Valid :=
  inferInstanceAs (Decidable (_ = _))

end Settings

/-- Why settings cannot be used. -/
inductive SettingsError where
  /-- The file cannot be read or written. -/
  | io (cause : IoFailure)
  /-- The text is not a settings file. -/
  | parse (text : String)
  /-- A rule is broken. -/
  | invalid (text : String)
deriving DecidableEq, Repr

/-- The reason in words. -/
def SettingsError.message : SettingsError → String
  | .io cause => "Failed to read config file: " ++ cause.text
  | .parse text => "Failed to parse config: " ++ text
  | .invalid text => "Invalid config: " ++ text

/-- Refuses settings that break a rule. -/
def Settings.validate (s : Settings) : Except SettingsError Unit :=
  match s.fault? with
  | some fault => .error (.invalid fault.message)
  | none => .ok ()

end FireControl
