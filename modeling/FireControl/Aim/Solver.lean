import FireControl.Aim.Lead
import FireControl.Sensor.Orientation
import FireControl.Settings.Sections

/-!
# Aim Solver

From the smoothed state of the target to the correction for the gimbal. Two numbers live from one
cycle to the next, the filtered bullet speed and the filtered processing time; samples that cannot
be right are ignored, so that one bad measurement does not spoil them.

## Main definitions

* `AimOutput`: A correction, with what the other stages want to know about it.
* `AimSolver`: The settings and the filtered numbers.
* `AimSolver.solve`: One correction.
-/

namespace FireControl

/-- A correction for the gimbal. -/
structure AimOutput where
  /-- The yaw correction in radians, to the right. -/
  yaw : Float32
  /-- The pitch correction in radians, downwards. -/
  pitch : Float32
  fire : Bool
  /-- Whether the chassis is asked to follow the target. -/
  chase : Bool
  /-- Whether there is a target at all. -/
  aim : Bool
  leadTime : Float32
  iterations : Nat
  /-- The point aimed at, in the camera frame. -/
  target : Vec3
  robot : RobotId
  time : Instant
deriving DecidableEq

/-- The settings and the filtered numbers. -/
structure AimSolver where
  settings : AimSettings
  /-- The filtered bullet speed in metres per second. -/
  bulletSpeed : Float32
  /-- The filtered processing time in seconds. -/
  processingTime : Float32
  /-- The lead found last. -/
  lastLead : Option LeadSolution

namespace AimSolver

/-- A solver before its first sample. -/
def new (settings : AimSettings) : AimSolver :=
  { settings := settings, bulletSpeed := settings.initialBulletSpeed,
    processingTime := settings.initialProcessingTime, lastLead := none }

/-- Takes a sample of the bullet speed. A sample that is not a positive finite number is ignored. -/
def updateBulletSpeed (solver : AimSolver) (sample : Float32) : AimSolver :=
  if sample.isPositiveFinite then
    { solver with bulletSpeed := lowPass solver.bulletSpeed sample solver.settings.speedAlpha }
  else solver

/-- Takes a sample of the processing time. A negative or infinite sample is ignored. -/
def updateProcessingTime (solver : AimSolver) (sample : Float32) : AimSolver :=
  if sample.isFinite && 0 ≤ sample then
    { solver with
      processingTime := lowPass solver.processingTime sample solver.settings.latencyAlpha }
  else solver

/-- Takes the samples of a cycle: the measured bullet speed and the age of the state. -/
def sample (solver : AimSolver) (state : RobotState) (measuredSpeed : Float32) (now : Instant) :
    AimSolver :=
  (solver.updateBulletSpeed measuredSpeed).updateProcessingTime (now.since state.time).secondsSingle

variable [ElementaryFunctions]

/-- The search for the lead on a target, with the numbers of the solver. -/
def leadProblem (solver : AimSolver) (target : Motion) : LeadProblem :=
  { target := target, speed := solver.bulletSpeed,
    latency := solver.processingTime + solver.settings.actuationLatency,
    threshold := solver.settings.convergenceThreshold }

/-- The lead on a target. -/
def lead (solver : AimSolver) (target : Motion) : LeadSolution :=
  (solver.leadProblem target).solve solver.settings.maxIterations.toNat

/-- The point to aim at in the camera frame. The `y` axis points down, so a point that makes up for
the fall of the bullet lies above the plate by its drop. -/
def aimPoint (solver : AimSolver) (plate : Vec3) (latest : Option Orientation) : Vec3 :=
  let target := (Orientation.worldToCamera latest).apply plate
  { target with
    y := target.y - bulletDrop target.norm solver.bulletSpeed solver.settings.gravity }

/-- The output that aims at a point. -/
def outputAt (solver : AimSolver) (target : Vec3) (lead : LeadSolution) (robot : RobotId)
    (now : Instant) : AimOutput :=
  let (yaw, pitch) := gimbalCorrection target
  { yaw := yaw, pitch := pitch,
    fire := yaw.abs < solver.settings.fireYawTolerance &&
      pitch.abs < solver.settings.firePitchTolerance,
    chase := solver.settings.chaseDistance < target.z, aim := true,
    leadTime := lead.leadTime, iterations := lead.iterations, target := target, robot := robot,
    time := now }

/-- The correction for a state of the target, and the solver afterwards. -/
def solve (solver : AimSolver) (state : RobotState) (latest : Option Orientation)
    (measuredSpeed : Float32) (now : Instant) : AimOutput × AimSolver :=
  let ready := solver.sample state measuredSpeed now
  let lead := ready.lead state.toMotion
  (ready.outputAt (ready.aimPoint lead.position latest) lead state.robot now,
    { ready with lastLead := some lead })

end AimSolver

end FireControl
