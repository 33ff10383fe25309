import FireControl.Stages.Pipeline
import FireControl.Turret.Stage

/-!
# Turrets

A turret is a pipeline whose stages have been started. As long as it runs, its stages take turns; a
stage whose device crashes takes no more turns, and the others go on.

A turret that is stopped waits for each stage in the order in which they were started, but not
longer for one than the settings allow. A stage looks at the running flag between two turns, so it
ends at the latest when its longest rest is over; the waiting for one stage counts for those after
it.

## Main definitions

* `Turret`: A turret.
* `Turret.turns`, `Turret.round`: One turn of several stages, and of every stage.
* `Turret.awaitPackets`: Rounds until packets were sent.
* `Turret.stop`: The end, and what it reports about stages that did not end.
-/

namespace FireControl

/-- A pipeline whose stages have been started. -/
structure Turret (δ φ σ : Type) where
  equipment : Equipment δ φ (Option σ)
  camera : Camera
  imu : InertialUnit
  pipeline : Pipeline δ φ (Option σ)
  /-- The stages that have been started and not waited for. -/
  stages : List Stage
  crashed : List Stage
  running : Bool
  /-- How long a stage rests when there is nothing new. -/
  backoff : Span
  /-- The time between two ticks of the estimator. -/
  period : Span
  /-- How long a stage may take to end. -/
  joinTimeout : Span

namespace Turret

variable {δ φ σ : Type}

/-- Sets the measured bullet speed. -/
def setBulletSpeed (t : Turret δ φ σ) (speed : Float32) : Turret δ φ σ :=
  { t with pipeline.board := t.pipeline.board.setBulletSpeed speed }

/-- The newest correction. -/
def latestAim (t : Turret δ φ σ) : Option AimOutput :=
  t.pipeline.board.aim.latest

/-- The newest smoothed state. -/
def latestState (t : Turret δ φ σ) : Option RobotState :=
  t.pipeline.board.smoothed.latest

/-- The turn of a stage at a moment, `dt` seconds after the one before; nothing if its device
crashes. -/
def turnOf (t : Turret δ φ σ) (dt : Float32) (now : Instant) : Stage → Option Turn
  | .capture => (t.camera.read now).map .capture
  | .orientation => (t.imu.read now).map .orient
  | .perception => some .perceive
  | .estimation => some (.estimate dt now)
  | .aim => some (.aim now)
  | .transmit => some .transmit

/-- One turn of a stage. -/
def step [ElementaryFunctions] (dt : Float32) (now : Instant) (t : Turret δ φ σ) (stage : Stage) :
    Turret δ φ σ × List Log.Line :=
  if stage ∈ t.crashed then (t, [])
  else
    match t.turnOf dt now stage with
    | none => ({ t with crashed := stage :: t.crashed }, [])
    | some turn =>
      let (pipeline, log) := t.pipeline.turn t.equipment turn
      ({ t with pipeline := pipeline }, log)

/-- One turn of each of several stages, if the turret runs. -/
def turns [ElementaryFunctions] (dt : Float32) (now : Instant) (stages : List Stage)
    (t : Turret δ φ σ) : Turret δ φ σ × List Log.Line :=
  if t.running then
    stages.foldl
      (fun (t, log) stage =>
        let (after, lines) := t.step dt now stage
        (after, log ++ lines))
      (t, [])
  else (t, [])

/-- One turn of every stage. -/
def round [ElementaryFunctions] (dt : Float32) (now : Instant) (t : Turret δ φ σ) :
    Turret δ φ σ × List Log.Line :=
  t.turns dt now t.stages

/-- Rounds of a turret, at most `fuel` of them and at least one, until `n` packets were sent. The
camera has a new frame in every round. -/
def awaitPackets [ElementaryFunctions] (n : Nat) (dt : Float32) :
    Nat → Turret δ φ σ → Turret δ φ σ
  | 0, t => t
  | fuel + 1, t =>
    let now : Instant := ⟨(t.pipeline.board.frame.version + 1) * t.camera.interval.nanoseconds⟩
    let after := (t.round dt now).1
    if n ≤ after.pipeline.counters.packetsSent then after else after.awaitPackets n dt fuel

/-! ### The end -/

/-- How long a stage goes on at most after the running flag was cleared. -/
def rest (t : Turret δ φ σ) : Stage → Span
  | .capture => t.camera.interval
  | .orientation => t.imu.interval
  | .perception => t.backoff
  | .estimation => t.period
  | .aim => t.backoff
  | .transmit => t.backoff

/-- What the log says about a stage that did not end. -/
def overdue (t : Turret δ φ σ) (stage : Stage) : Log.Line :=
  Log.error .turret (stage.label ++ " thread panicked or failed to shut down within " ++
    t.joinTimeout.text)

/-- What is reported while waiting for stages, when `elapsed` has passed since the running flag was
cleared. -/
def join (t : Turret δ φ σ) (elapsed : Span) : List Stage → List Log.Line
  | [] => []
  | stage :: stages =>
    let limit := elapsed.nanoseconds + t.joinTimeout.nanoseconds
    let needed := (t.rest stage).nanoseconds
    if stage ∈ t.crashed then t.overdue stage :: t.join elapsed stages
    else if needed ≤ limit then t.join ⟨max elapsed.nanoseconds needed⟩ stages
    else t.overdue stage :: t.join ⟨limit⟩ stages

/-- Ends all stages and waits for them. A turret that was stopped before has nothing to report. -/
def stop (t : Turret δ φ σ) : Turret δ φ σ × List Log.Line :=
  ({ t with running := false, stages := [] },
    if t.stages.isEmpty then []
    else t.join ⟨0⟩ t.stages ++ [Log.info .turret "Turret pipeline stopped"])

end Turret

end FireControl
