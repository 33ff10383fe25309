import FireControl.Estimation.ParticleFilter
import FireControl.Serial.Link
import FireControl.Settings.Validation

/-!
# Errors of a Turret

Whatever can go wrong between the settings and the running stages, in one type.

## Main definitions

* `TurretError`: A failure, with its cause.
* `TurretError.message`, `TurretError.causeMessage`: The failure in words, and its cause.
-/

namespace FireControl

/-- Why a turret cannot start or go on. -/
inductive TurretError where
  | link (cause : LinkError)
  | packet (cause : PacketError)
  | filter (cause : FilterError)
  | thread (text : String)
  | settings (cause : SettingsError)
  /-- A part without which there is no turret. -/
  | missing (part : String)
deriving DecidableEq, Repr

/-- The failure in words. -/
def TurretError.message : TurretError → String
  | .link cause => "Serial link error: " ++ cause.message
  | .packet cause => "Protocol error: " ++ cause.message
  | .filter cause => "Estimator initialization failed: " ++ cause.message
  | .thread text => "Failed to spawn worker thread: " ++ text
  | .settings cause => "Config error: " ++ cause.message
  | .missing part => "Missing component: " ++ part

/-- The cause of the failure in words, without what it is the cause of. -/
def TurretError.causeMessage : TurretError → String
  | .link cause => cause.message
  | .packet cause => cause.message
  | .filter cause => cause.message
  | .thread text => text
  | .settings cause => cause.message
  | .missing part => part

end FireControl
