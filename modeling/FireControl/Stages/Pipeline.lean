import FireControl.Estimation.Estimator
import FireControl.Exchange.Counters
import FireControl.Stages.Aimer
import FireControl.Stages.Perceiver
import FireControl.Stages.Transmitter

/-!
# Pipeline

The six stages between the devices and the gimbal. They share nothing but the board and the
counters, and each goes on at its own pace, so a run of the pipeline is a sequence of turns in any
order: every turn belongs to one stage, takes what is newest on the board and publishes at most one
value.

Whatever comes from outside is part of the turn: what a device returned, and the time.

## Main definitions

* `Equipment`: The detection model, the filter and the link.
* `Pipeline`: The board, the counters and the state of every stage.
* `Turn`: A stage's turn, with what it gets from outside.
* `Pipeline.turn`: What a turn does.
* `Pipeline.run`: A sequence of turns.
-/

namespace FireControl

/-- The parts of a turret that can be exchanged, each with a state of its own. -/
structure Equipment (δ φ σ : Type) where
  detector : Detector δ
  filter : Filter φ
  link : Link σ

/-- The board, the counters and the state of every stage. -/
structure Pipeline (δ φ σ : Type) where
  board : Board
  counters : Counters
  perceiver : Perceiver δ
  estimator : Estimator φ
  aimer : Aimer
  transmitter : Transmitter
  link : σ

/-- A stage's turn. -/
inductive Turn where
  /-- The camera has returned something. -/
  | capture (result : Except DeviceError Frame)
  /-- The inertial measurement unit has returned something. -/
  | orient (result : Except DeviceError Orientation)
  /-- The tracker looks for a new frame. -/
  | perceive
  /-- The estimator ticks, `dt` seconds after the tick before, and publishes with the time `now`. -/
  | estimate (dt : Float32) (now : Instant)
  /-- The solver looks for a new state. -/
  | aim (now : Instant)
  /-- The transmitter looks for a new correction. -/
  | transmit

namespace Pipeline

variable {δ φ σ : Type}

/-- The pipeline before its first turn. -/
def new (settings : Settings) (model : δ) (filter : φ) (link : σ) : Pipeline δ φ σ :=
  { board := .empty, counters := .zero,
    perceiver := Perceiver.new settings.tracker model,
    estimator := Estimator.new filter,
    aimer := Aimer.new settings.aim,
    transmitter := Transmitter.new settings.gimbal,
    link := link }

/-- What the log says about a failed reading; nothing about a timeout. -/
def deviceLog (device : String) (failure : DeviceError) : List Log.Line :=
  if failure.isTimeout then []
  else [Log.warn .stages (device ++ " error: " ++ failure.message ++ ", retrying")]

/-- The pipeline after a failed reading. Timeouts are not counted. -/
def failed (p : Pipeline δ φ σ) (failure : DeviceError) : Pipeline δ φ σ :=
  if failure.isTimeout then p else { p with counters := p.counters.recordDeviceError }

/-- The camera has returned something. -/
def capture (p : Pipeline δ φ σ) : Except DeviceError Frame → Pipeline δ φ σ × List Log.Line
  | .ok frame =>
    ({ p with board := p.board.publishFrame frame, counters := p.counters.recordFrame }, [])
  | .error failure => (p.failed failure, deviceLog "Camera" failure)

/-- The inertial measurement unit has returned something. -/
def orient (p : Pipeline δ φ σ) : Except DeviceError Orientation → Pipeline δ φ σ × List Log.Line
  | .ok o =>
    ({ p with board := p.board.publishOrientation o, counters := p.counters.recordOrientation },
      [])
  | .error failure => (p.failed failure, deviceLog "IMU" failure)

variable [ElementaryFunctions]

/-- Publishes the state that a frame gave, if it gave one. -/
def publishTracked (p : Pipeline δ φ σ) (state : Option RobotState) : Pipeline δ φ σ :=
  match state with
  | none => p
  | some s => { p with board := p.board.publishRaw s, counters := p.counters.recordRawState }

/-- The tracker looks for a new frame. -/
def perceive (detector : Detector δ) (p : Pipeline δ φ σ) : Pipeline δ φ σ :=
  match p.perceiver.poll detector p.board with
  | (none, stage) => { p with perceiver := stage }
  | (some report, stage) =>
    { p with
      perceiver := stage
      counters := p.counters.recordTracking report.event }.publishTracked report.state

/-- The estimator ticks. -/
def estimate (filter : Filter φ) (p : Pipeline δ φ σ) (dt : Float32) (now : Instant) :
    Pipeline δ φ σ :=
  let (report, stage) := p.estimator.tick filter p.board dt now
  let ticked := { p with estimator := stage, counters := p.counters.recordTick report.measured }
  match report.state with
  | none => ticked
  | some s => { ticked with board := ticked.board.publishSmoothed { s with time := now } }

/-- The solver looks for a new state. -/
def aim (p : Pipeline δ φ σ) (now : Instant) : Pipeline δ φ σ :=
  match p.aimer.poll p.board now with
  | (none, stage) => { p with aimer := stage }
  | (some report, stage) =>
    { p with
      aimer := stage
      counters := p.counters.recordAim report.converged
      board := p.board.publishAim report.output }

/-- The transmitter looks for a new correction. -/
def transmit (link : Link σ) (p : Pipeline δ φ σ) : Pipeline δ φ σ × List Log.Line :=
  match p.transmitter.poll link p.link p.board with
  | (none, stage) => ({ p with transmitter := stage }, [])
  | (some sending, stage) =>
    ({ p with
        transmitter := stage
        link := sending.state
        counters := p.counters.recordPacket sending.sent },
      sending.log)

/-- What a turn does, and what it reports. -/
def turn (equipment : Equipment δ φ σ) (p : Pipeline δ φ σ) :
    Turn → Pipeline δ φ σ × List Log.Line
  | .capture result => p.capture result
  | .orient result => p.orient result
  | .perceive => (p.perceive equipment.detector, [])
  | .estimate dt now => (p.estimate equipment.filter dt now, [])
  | .aim now => (p.aim now, [])
  | .transmit => p.transmit equipment.link

/-- A sequence of turns, and what they report. -/
def run (equipment : Equipment δ φ σ) (p : Pipeline δ φ σ) (turns : List Turn) :
    Pipeline δ φ σ × List Log.Line :=
  turns.foldl
    (fun (sofar, log) t =>
      let (after, lines) := sofar.turn equipment t
      (after, log ++ lines))
    (p, [])

end Pipeline

end FireControl
