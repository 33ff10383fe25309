import FireControl.Geometry.Plate
import FireControl.Robot.Detection

/-!
# Fusion of Plates

The state of a robot from the plates in view. One plate fixes the heading up to a quarter turn, so
the heading of the state before is needed to tell which plate it is: of the four headings that are a
whole number of quarter turns away from it, the one nearest to the plate's direction. Two plates are
fused one after the other and then averaged. Without a plate, or with more than two, the last state
is repeated.

## Main definitions

* `Face`: A number of quarter turns from the heading before.
* `Face.nearest`: The face that looks most nearly in an observed direction.
* `Fuser`: The radius of unknown robots and the last fused state.
* `Fuser.fuse`: The state from the plates of a cycle.
-/

namespace FireControl

/-- A heading that is `step` quarter turns away from the heading before. -/
structure Face where
  yaw : Float32
  step : Int
deriving DecidableEq

namespace Face

/-- The heading `step` quarter turns after `previous`. -/
def turned (previous : Float32) (step : Int) : Face :=
  ⟨Angle.wrap (previous + Float32.ofInteger step * Angle.halfPi), step⟩

/-- The heading itself. -/
def same (previous : Float32) : Face :=
  ⟨Angle.wrap previous, 0⟩

/-- Of two faces the one strictly nearer to a direction, or else the first. -/
def nearer (observed : Float32) (f g : Face) : Face :=
  if Angle.distance g.yaw observed < Angle.distance f.yaw observed then g else f

/-- The face that looks most nearly in the direction `observed`. Of equally near ones the first of
0, 1, -1 and 2 quarter turns is taken. -/
def nearest (previous observed : Float32) : Face :=
  [turned previous 1, turned previous (-1), turned previous 2].foldl (nearer observed)
    (same previous)

end Face

/-- What is known of the robot that is followed. -/
structure Fuser where
  /-- The radius assumed of a robot seen for the first time. -/
  defaultRadius : Float32
  /-- The last fused state. -/
  previous : Option RobotState

namespace Fuser

variable [ElementaryFunctions]

/-- A fuser that knows of no robot. -/
def new (defaultRadius : Float32) : Fuser :=
  ⟨defaultRadius, none⟩

/-- Forgets the robot. -/
def clear (fuser : Fuser) : Fuser :=
  { fuser with previous := none }

/-- The state of a robot seen for the first time, by one plate. -/
def firstState (radius : Float32) (armor : Detection) (time : Instant) : RobotState :=
  let centre := armor.position - Plate.offset radius armor.yaw
  RobotState.atRest armor.robot { centre with y := armor.position.y } (Angle.wrap armor.yaw) radius
    time

/-- The state of a robot known from before, by one plate: the plate's face is found from the old
heading, the centre lies behind the plate, and all else is carried over. -/
def nextState (previous : RobotState) (armor : Detection) (time : Instant) : RobotState :=
  let face := Face.nearest previous.yaw armor.yaw
  let radius := Plate.radius face.yaw previous.evenRadius previous.oddRadius
  let centre := armor.position - Plate.offset radius armor.yaw
  { previous with
    position := { centre with y := armor.position.y - previous.heightOffset }
    yaw := Angle.wrap (armor.yaw - Float32.ofInteger face.step * Angle.halfPi)
    robot := armor.robot
    time := time
    reset := false }

/-- The state by one plate. -/
def single (fuser : Fuser) (armor : Detection) (time : Instant) : RobotState :=
  match fuser.previous with
  | none => firstState fuser.defaultRadius armor time
  | some previous => nextState previous armor time

/-- Fuses one plate. -/
def fuseOne (fuser : Fuser) (armor : Detection) (time : Instant) : RobotState × Fuser :=
  let state := fuser.single armor time
  (state, { fuser with previous := some state })

/-- The second of two states with the mean place and the mean heading of both. -/
def average (first second : RobotState) : RobotState :=
  { second with
    position := (first.position + second.position).scale 0.5
    yaw := (Angle.circularMean [(first.yaw, 1), (second.yaw, 1)]).getD first.yaw }

/-- Fuses two plates, the second on top of the first, and averages the two states. -/
def fuseTwo (fuser : Fuser) (first second : Detection) (time : Instant) : RobotState × Fuser :=
  let (a, afterFirst) := fuser.fuseOne first time
  let (b, afterSecond) := afterFirst.fuseOne second time
  let state := average a b
  (state, { afterSecond with previous := some state })

/-- The last state at a later time, if there is one. -/
def coast (fuser : Fuser) (time : Instant) : Option RobotState :=
  fuser.previous.map fun previous => { previous with time := time, reset := false }

/-- The state from the plates of a cycle. -/
def fuse (fuser : Fuser) (armors : List Detection) (time : Instant) : Option RobotState × Fuser :=
  match armors with
  | [armor] =>
    let (state, after) := fuser.fuseOne armor time
    (some state, after)
  | [first, second] =>
    let (state, after) := fuser.fuseTwo first second time
    (some state, after)
  | _ => (fuser.coast time, fuser)

end Fuser

end FireControl
