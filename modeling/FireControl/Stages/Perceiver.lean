import FireControl.Exchange.Board
import FireControl.Tracking.Tracker

/-!
# Perception Stage

Takes the newest frame from the board, if it is new, and hands it to the tracker together with the
newest orientation.

## Main definitions

* `Perceiver`: The tracker, the detection model's state and a cursor.
* `Perceiver.poll`: One turn.
-/

namespace FireControl

/-- The tracker with the state of its detection model, and the version of the frame taken last. -/
structure Perceiver (δ : Type) where
  tracker : Tracker
  model : δ
  cursor : Cursor

namespace Perceiver

/-- The stage before its first frame. -/
def new {δ : Type} (settings : TrackerSettings) (model : δ) : Perceiver δ :=
  { tracker := Tracker.new settings.ttl settings.defaultRadius settings.minConfidence,
    model := model, cursor := .start }

variable [ElementaryFunctions]

/-- What becomes of a frame. -/
def process {δ : Type} (detector : Detector δ) (stage : Perceiver δ) (frame : Frame)
    (latest : Option Orientation) : TrackingReport × Perceiver δ :=
  let (report, tracker, model) := stage.tracker.processFrame detector stage.model frame latest
  (report, { stage with tracker := tracker, model := model })

/-- One turn: what became of the newest frame, or nothing where no frame is new. -/
def poll {δ : Type} (detector : Detector δ) (stage : Perceiver δ) (board : Board) :
    Option TrackingReport × Perceiver δ :=
  let (news, cursor) := stage.cursor.poll board.frame
  match news with
  | none => (none, stage)
  | some snapshot =>
    let (report, after) :=
      { stage with cursor := cursor }.process detector snapshot.value board.latestOrientation
    (some report, after)

end Perceiver

end FireControl
