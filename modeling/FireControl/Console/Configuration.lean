import FireControl.Console.Failure
import FireControl.Console.Host
import FireControl.Console.Request
import FireControl.Settings.File

/-!
# Configuration

Settings that a command reads, merges with its options, shows or writes. What an operator gives on
the command line goes before what is in a file, and the merged settings are checked again.

## Main definitions

* `Host.loadSettings`, `Host.saveSettings`: The settings in a file.
* `RunOptions.merge`: Settings with the options of a run.
* `RunOptions.Fault`: Why there are no settings for a run.
* `Host.resolve`: The settings of a run.
* `Host.configure`: The command that shows settings.
-/

namespace FireControl

/-- Why there are no settings for a run. -/
inductive RunOptions.Fault where
  /-- The settings file cannot be used. -/
  | loading (path : String) (cause : SettingsError)
  /-- The settings with the options of the run break a rule. -/
  | settings (cause : SettingsError)
  /-- No bullet has such a speed. -/
  | bulletSpeed (speed : Float32)
deriving DecidableEq

namespace RunOptions

/-- The fault as a failure of the command. -/
def Fault.failure : Fault → CommandFailure
  | .loading path cause => .during ("Failed to load config " ++ path) cause.chain
  | .settings cause => .ofChain cause.chain
  | .bulletSpeed speed =>
    ⟨"--bullet-speed must be a positive number of m/s, got " ++ speed.text, []⟩

/-- Settings with the options of a run in place of what they say about the device. -/
def override (options : RunOptions) (s : Settings) : Settings :=
  { s with
    serial.device := options.device.getD s.serial.device
    serial.baud := options.baud.getD s.serial.baud }

/-- Whether a bullet can have a speed. -/
def isSpeed (speed : Float32) : Bool :=
  speed.isFinite && 0 < speed

/-- Settings with the options of a run, if both can be used. -/
def merge (options : RunOptions) (s : Settings) : Except Fault Settings :=
  match (options.override s).validate with
  | .error e => .error (.settings e)
  | .ok () =>
    match options.bulletSpeed with
    | some speed => if isSpeed speed then .ok (options.override s) else .error (.bulletSpeed speed)
    | none => .ok (options.override s)

end RunOptions

namespace Host

variable {m : Type → Type} [Monad m]

/-- The settings in a file. -/
def loadSettings (host : Host m) (path : String) : m (Except SettingsError Settings) := do
  match ← host.readFile path with
  | .error e => return .error (.io e)
  | .ok bytes =>
    match Settings.ofBytes bytes with
    | .error e => return .error e
    | .ok settings =>
      host.log (Log.info .settings ("Loaded config from " ++ path))
      return .ok settings

/-- Writes settings to a file. -/
def saveSettings (host : Host m) (path : String) (s : Settings) :
    m (Except SettingsError Unit) := do
  return (← host.writeFile path s.text).mapError SettingsError.io

/-- The settings of a run. -/
def resolve (host : Host m) (options : RunOptions) : m (Except RunOptions.Fault Settings) := do
  match options.config with
  | none => return options.merge default
  | some path =>
    match ← host.loadSettings path with
    | .error e => return .error (.loading path e)
    | .ok s => return options.merge s

/-- The settings that are to be shown. -/
def checkedSettings (host : Host m) : Option String → m (Except CommandFailure Settings)
  | none => return .ok default
  | some path => do
    return (← host.loadSettings path).mapError fun e =>
      .during ("Invalid config file " ++ path) e.chain

/-- Shows settings, or writes them to a file. -/
def configure (host : Host m) (options : ConfigOptions) : m (Except CommandFailure Unit) := do
  match ← host.checkedSettings options.check with
  | .error e => return .error e
  | .ok s =>
    match options.output with
    | none =>
      host.print s.text
      return .ok ()
    | some path =>
      match ← host.saveSettings path s with
      | .error e => return .error (.during ("Failed to write " ++ path) e.chain)
      | .ok () =>
        host.print ("✅ Config written to " ++ path ++ "\n")
        return .ok ()

end Host

end FireControl
