import FireControl.Aim.Ballistics
import FireControl.Geometry.Plate
import FireControl.Robot.State

/-!
# Lead

Where the plate will be when the bullet arrives. The flight time depends on that place, and the
place on the flight time, so a lead time is improved step by step: from the time of flight to the
plate as it will be after the lead time so far. The search ends at the first step that changes the
lead time by less than a threshold, or after a number of steps.

## Main definitions

* `Motion.plateAfter`: The plate that faces the camera after a time.
* `LeadProblem`: A target, a bullet and the limits of the search.
* `LeadProblem.time`: The lead times in order.
* `LeadProblem.solve`: The outcome of the search.
-/

namespace FireControl

variable [ElementaryFunctions]

/-- The plate that faces the camera `t` seconds later, in the world frame. The centre moves with
constant acceleration, the heading likewise; the heading's sector decides on the radius, and the
plate stands in the direction of the heading folded into the quarter turn that faces the camera. -/
def Motion.plateAfter (m : Motion) (t : Float32) : Vec3 :=
  let halfSquare := 0.5 * t * t
  let centre := m.position + m.velocity.scale t + m.acceleration.scale halfSquare
  let yaw := m.yaw + m.yawRate * t + m.yawAcceleration * halfSquare
  let plate := centre + Plate.offset (Plate.radius yaw m.evenRadius m.oddRadius) (Plate.facing yaw)
  { plate with y := plate.y + m.heightOffset }

/-- A target, a bullet and the limits of the search. -/
structure LeadProblem where
  target : Motion
  /-- The bullet speed in metres per second. -/
  speed : Float32
  /-- The seconds that pass before the bullet leaves the barrel. -/
  latency : Float32
  /-- The change of the lead time below which it counts as found. -/
  threshold : Float32

/-- The outcome of the search for a lead. -/
structure LeadSolution where
  /-- The plate at the time of the hit. -/
  position : Vec3
  /-- The latency and the time of flight, in seconds. -/
  leadTime : Float32
  iterations : Nat
  converged : Bool
deriving DecidableEq

namespace LeadProblem

/-- The lead time to a point. -/
def timeTo (p : LeadProblem) (point : Vec3) : Float32 :=
  timeOfFlight point p.speed + p.latency

/-- The next lead time after `t`. -/
def next (p : LeadProblem) (t : Float32) : Float32 :=
  p.timeTo (p.target.plateAfter t)

/-- The lead times in order: first the one to the centre of the robot, then one from the other. -/
def time (p : LeadProblem) : Nat → Float32
  | 0 => p.timeTo p.target.position
  | n + 1 => p.next (p.time n)

/-- Whether a step from `t` to `t'` is small enough to end the search. -/
def settled (p : LeadProblem) (t t' : Float32) : Bool :=
  (t' - t).abs < p.threshold

/-- The solution before the first step. -/
def start (p : LeadProblem) : LeadSolution :=
  { position := p.target.position, leadTime := p.timeTo p.target.position, iterations := 0,
    converged := false }

/-- One step of the search. -/
def advance (p : LeadProblem) (s : LeadSolution) : LeadSolution :=
  let position := p.target.plateAfter s.leadTime
  let leadTime := p.timeTo position
  { position := position, leadTime := leadTime, iterations := s.iterations + 1,
    converged := p.settled s.leadTime leadTime }

/-- At most the given number of further steps. -/
def search (p : LeadProblem) : Nat → LeadSolution → LeadSolution
  | 0, s => s
  | n + 1, s =>
    let s' := p.advance s
    if s'.converged then s' else p.search n s'

/-- The outcome of a search of at most `cap` steps. -/
def solve (p : LeadProblem) (cap : Nat) : LeadSolution :=
  p.search cap p.start

end LeadProblem

end FireControl
