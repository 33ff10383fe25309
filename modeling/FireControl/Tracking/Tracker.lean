import FireControl.Sensor.Device
import FireControl.Tracking.Fusion
import FireControl.Tracking.Refinement
import FireControl.Tracking.TargetLock

/-!
# Tracker

From a camera frame to the raw state of the target. The detection model finds plates and their
poses; the tracker drops doubtful ones, files the others by robot, lets the lock choose, moves the
chosen plates to the world frame and fuses them.

Whenever the lock takes a robot, what was known of the robot before is forgotten, and the first
state that is fused from a plate afterwards carries the reset flag. The flag waits as long as it has
to: a frame from which nothing can be fused does not use it up.

## Main definitions

* `Detector`: A detection model with a state of its own.
* `Tracker`: The lock, the fuser and what has to be remembered between frames.
* `TrackingReport`: What a frame did to the lock, and the state it gave.
* `Tracker.processFrame`: One frame.
-/

namespace FireControl

/-- A detection model with a state of type `δ`. -/
structure Detector (δ : Type) where
  /-- The plates found in a frame. -/
  detect : δ → Frame → List Detection × δ
  /-- The same plates with their poses in the camera frame. -/
  estimatePose : δ → List Detection → List Detection × δ

/-- The detection model that finds nothing. -/
def Detector.blind : Detector Unit where
  detect := fun _ _ => ([], ())
  estimatePose := fun _ ds => (ds, ())

/-- The lock, the fuser and what has to be remembered between frames. -/
structure Tracker where
  lock : TargetLock
  fuser : Fuser
  /-- The confidence below which a detection is dropped. -/
  minConfidence : Float32
  /-- The time of the frame before. -/
  lastFrame : Option Instant
  /-- Whether the next fused state has to carry the reset flag. -/
  pendingReset : Bool

/-- What a frame did to the lock, and the state it gave. -/
structure TrackingReport where
  event : LockEvent
  state : Option RobotState

namespace Tracker

variable [ElementaryFunctions]

/-- A tracker that has seen nothing. -/
def new (ttlMax : Float) (defaultRadius minConfidence : Float32) : Tracker :=
  { lock := TargetLock.new ttlMax, fuser := Fuser.new defaultRadius,
    minConfidence := minConfidence, lastFrame := none, pendingReset := false }

/-- The seconds between the frame before and this one; none before the first. -/
def elapsed (tracker : Tracker) (time : Instant) : Float :=
  (tracker.lastFrame.map fun last => (time.since last).seconds).getD 0

/-- Forgets a robot that was given up, and prepares for one that was taken. -/
def apply (tracker : Tracker) (event : LockEvent) : Tracker :=
  let forgotten :=
    if event.dropped.isSome then
      { tracker with fuser := tracker.fuser.clear, pendingReset := false }
    else tracker
  match event with
  | .acquired _ _ => { forgotten with fuser := forgotten.fuser.clear, pendingReset := true }
  | _ => forgotten

/-- The state fused from the chosen plates, with the reset flag where it is due. -/
def fuse (tracker : Tracker) (armors : List Detection) (time : Instant) :
    Option RobotState × Tracker :=
  let (fused, fuser) := tracker.fuser.fuse armors time
  let after := { tracker with fuser := fuser }
  match fused with
  | none => (none, after)
  | some state =>
    if after.pendingReset && !armors.isEmpty then
      (some { state with reset := true }, { after with pendingReset := false })
    else (some state, after)

/-- What follows once the plates of a frame and their poses are known. -/
def observe (tracker : Tracker) (time : Instant) (latest : Option Orientation)
    (ds : List Detection) : TrackingReport × Tracker :=
  let (selection, lock) := tracker.lock.update (Group.ofDetections ds) (tracker.elapsed time)
  let chosen := { tracker with lock := lock, lastFrame := some time }.apply selection.event
  let (state, after) := chosen.fuse (selection.armors.map (Detection.toWorld latest)) time
  (⟨selection.event, state⟩, after)

/-- One frame, with the detection model in state `model` and the latest orientation. -/
def processFrame {δ : Type} (tracker : Tracker) (detector : Detector δ) (model : δ) (frame : Frame)
    (latest : Option Orientation) : TrackingReport × Tracker × δ :=
  let (found, seen) := detector.detect model frame
  let refined := Detection.refine frame.width frame.height tracker.minConfidence found
  let (posed, posing) := detector.estimatePose seen refined
  let (report, after) := tracker.observe frame.time latest posed
  (report, after, posing)

end Tracker

end FireControl
