import FireControl.Aim.Solver
import FireControl.Exchange.Slot
import FireControl.Sensor.Device

/-!
# The Board

What the stages of the pipeline share: a slot for the result of each stage, and the bullet speed
that was measured last. Every slot has one stage that publishes to it:

| slot | published by | read by |
|---|---|---|
| `frame` | capture | perception |
| `orientation` | orientation | perception, aim, transmission |
| `raw` | perception | estimation |
| `smoothed` | estimation | aim |
| `aim` | aim | transmission |

## Main definitions

* `Board`: The slots and the bullet speed.
* `Board.latestOrientation`: The newest orientation.
-/

namespace FireControl

/-- What the stages share. -/
structure Board where
  frame : Slot Frame
  orientation : Slot Orientation
  raw : Slot RobotState
  smoothed : Slot RobotState
  aim : Slot AimOutput
  /-- The bullet speed measured last, in metres per second; zero before the first measurement. -/
  bulletSpeed : Float32

namespace Board

/-- A board on which nothing has been published. -/
def empty : Board :=
  { frame := .empty, orientation := .empty, raw := .empty, smoothed := .empty, aim := .empty,
    bulletSpeed := 0 }

instance : Inhabited Board := ⟨empty⟩

/-- The newest orientation, if there is one. -/
def latestOrientation (board : Board) : Option Orientation :=
  board.orientation.latest

/-- The board with a new frame. -/
def publishFrame (board : Board) (frame : Frame) : Board :=
  { board with frame := board.frame.publish frame }

/-- The board with a new orientation. -/
def publishOrientation (board : Board) (o : Orientation) : Board :=
  { board with orientation := board.orientation.publish o }

/-- The board with a new state from the tracker. -/
def publishRaw (board : Board) (state : RobotState) : Board :=
  { board with raw := board.raw.publish state }

/-- The board with a new state from the estimator. -/
def publishSmoothed (board : Board) (state : RobotState) : Board :=
  { board with smoothed := board.smoothed.publish state }

/-- The board with a new correction. -/
def publishAim (board : Board) (output : AimOutput) : Board :=
  { board with aim := board.aim.publish output }

/-- The board with a newly measured bullet speed. -/
def setBulletSpeed (board : Board) (speed : Float32) : Board :=
  { board with bulletSpeed := speed }

end Board

end FireControl
