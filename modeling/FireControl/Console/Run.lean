import FireControl.Console.Configuration
import FireControl.Console.Connection
import FireControl.Turret.Assembly

/-!
# Run

The command that runs the turret. Neither a camera nor a detection model is part of it: the camera
shows nothing and the model sees nothing, so that the stages and the link can be tried without
hardware. The turret runs until the operator asks for the end, and then the counters are shown.

## Main definitions

* `Counters.status`, `Counters.summary`: The counters while the turret runs, and at the end.
* `RunOptions.parts`: The parts of the turret.
* `Host.run`: The command.
-/

namespace FireControl

namespace Counters

/-- The counters in the log while the turret runs. -/
def status (c : Counters) : Log.Line :=
  let produced := s!"frames={c.framesCaptured} states={c.rawStatesPublished} aims={c.aimUpdates}"
  Log.info .runCommand (produced ++ s!" sent={c.packetsSent} failed={c.sendFailures}")

/-- The counters after a run of a length. -/
def summary (c : Counters) (elapsed : Span) : List String :=
  let notConverged := c.nonConvergenceRate.fixedText 1
  let success := c.sendSuccessRate.fixedText 1
  [s!"=== Pipeline summary ({elapsed.seconds.fixedText 1}s) ===",
    s!"  frames captured      : {c.framesCaptured}",
    s!"  orientation updates  : {c.orientationUpdates}",
    s!"  device errors        : {c.deviceErrors}",
    s!"  perception cycles    : {c.perceptionCycles}",
    s!"  targets acquired/lost: {c.targetsAcquired}/{c.targetsLost}",
    s!"  robot states         : {c.rawStatesPublished}",
    s!"  estimator ticks      : {c.estimatorTicks} ({c.estimatorMeasurements} measurements)",
    s!"  aim updates          : {c.aimUpdates} ({notConverged}% not converged)",
    s!"  packets sent/failed  : {c.packetsSent}/{c.sendFailures} ({success}% success)"]

end Counters

/-- The turret of the command. -/
abbrev ConsoleTurret := Turret Unit ParticleFilter Connection

/-- The turret with an outcome for the next write. -/
def ConsoleTurret.expecting (outcome : Except LinkError Unit) (t : ConsoleTurret) :
    ConsoleTurret :=
  { t with pipeline.link := t.pipeline.link.map (·.expecting outcome) }

namespace RunOptions

/-- The parts of the turret; the filter takes its random numbers from `entropy` unless the settings
give a seed. -/
def parts [ElementaryFunctions] (settings : Settings) (entropy : UInt64) (connection : Connection) :
    TurretParts Unit ParticleFilter Connection where
  camera := some (.blank 640 480)
  imu := some .level
  detector := .blind
  model := ()
  filter := .particle
  prepare := (ParticleFilter.new settings.estimator (ChaCha.ofSeed entropy)).prepare
  link := Connection.link
  linkState := some connection

/-- Passes the measured bullet speed on to the turret. -/
def applyBulletSpeed {δ φ σ : Type} (options : RunOptions) (t : Turret δ φ σ) :
    Turret δ φ σ × List Log.Line :=
  match options.bulletSpeed with
  | none => (t, [])
  | some speed =>
    (t.setBulletSpeed speed,
      [Log.info .runCommand s!"Measured bullet speed set to {speed.fixedText 2} m/s"])

end RunOptions

/-- A turret in operation. -/
structure Operation where
  turret : ConsoleTurret
  /-- When each stage is to take its next turn; at once if it has taken none. -/
  due : List (Stage × Instant)
  /-- The moment of the last tick of the estimator. -/
  lastTick : Instant
  /-- The moment of the last report. -/
  lastStatus : Instant

namespace Operation

/-- The operation of a turret that has started. -/
def start (turret : ConsoleTurret) (now : Instant) : Operation :=
  ⟨turret, turret.stages.map fun stage => (stage, now), now, now⟩

/-- When a stage is to take its next turn. -/
def dueAt (op : Operation) (stage : Stage) : Instant :=
  (op.due.lookup stage).getD ⟨0⟩

/-- The stages whose turn has come. -/
def ready (op : Operation) (now : Instant) : List Stage :=
  op.turret.stages.filter fun stage => (op.dueAt stage).nanoseconds ≤ now.nanoseconds

/-- When a stage is to take its turn after the one at `now`. The estimator keeps to a grid of its
period; the other stages rest after each turn. -/
def nextDue (op : Operation) (now : Instant) (stage : Stage) : Instant :=
  (if stage = .estimation then op.dueAt stage else now).after (op.turret.rest stage)

/-- The operation after the turns of stages, which left the turret as it is given. -/
def advance (op : Operation) (now : Instant) (stages : List Stage) (turret : ConsoleTurret) :
    Operation :=
  { op with
    turret := turret
    due := turret.stages.map fun stage =>
      (stage, if stage ∈ stages then op.nextDue now stage else op.dueAt stage)
    lastTick := if Stage.estimation ∈ stages then now else op.lastTick }

/-- The time between two reports. -/
def statusInterval : Span := .ofMilliseconds 5000

/-- Whether it is time for a report. -/
def reports (op : Operation) (now : Instant) : Bool :=
  statusInterval.nanoseconds ≤ (now.since op.lastStatus).nanoseconds

end Operation

namespace Host

variable {m : Type → Type} [Monad m] [ElementaryFunctions]

/-- The turns of the stages whose turn has come, and a report if it is time for one. -/
def operate (host : Host m) (op : Operation) : m Operation := do
  let now ← host.now
  let stages := op.ready now
  let dt := (now.since op.lastTick).secondsSingle
  let turret ← host.settle (·.pipeline.link) ConsoleTurret.expecting
    (Turret.turns dt now stages) op.turret
  host.pause (.ofMilliseconds 1)
  let after := op.advance now stages turret
  if after.reports now then
    host.log turret.pipeline.counters.status
    return { after with lastStatus := now }
  return after

/-- Runs a turret that has started until the operator asks for the end, and shows its counters. -/
def oversee (host : Host m) (device : String) (turret : ConsoleTurret) : m Unit := do
  host.log (Log.info .runCommand "Running, press Ctrl-C to stop")
  let started ← host.now
  let op ← host.untilInterrupted host.operate (.start turret started)
  host.log (Log.info .runCommand "Stopping...")
  let (turret, log) := op.turret.stop
  turret.pipeline.link.forM (host.disconnect device)
  host.logAll log
  let elapsed := (← host.now).since started
  host.print (String.join
    ((turret.pipeline.counters.summary elapsed).map fun line => line ++ "\n"))

/-- Runs the turret. -/
def run (host : Host m) (options : RunOptions) : m (Except CommandFailure Unit) := do
  match ← host.resolve options with
  | .error e => return .error e.failure
  | .ok settings =>
    match ← host.connect settings.serial.device settings.serial.baud.toNat options.dryRun with
    | .error e => return .error e
    | .ok connection =>
      let entropy ← host.entropy
      match Turret.build settings (RunOptions.parts settings entropy connection) with
      | .error e => return .error ⟨e.message, []⟩
      | .ok (turret, log) =>
        host.logAll log
        let (turret, log) := options.applyBulletSpeed turret
        host.logAll log
        host.oversee settings.serial.device turret
        return .ok ()

end Host

end FireControl
