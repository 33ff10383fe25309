import FireControl.Robot.Detection

/-!
# Groups of Plates

Detections filed by robot. Groups stand in the order in which their robots first appear, and the
plates of a group in the order of the detections.

## Main definitions

* `Group`: The plates of one robot.
* `Group.ofDetections`: The groups of a list of detections.
* `Group.meanDistance`: The mean distance of the plates of a group.
* `Group.nearest?`: The group of the least mean distance.
-/

namespace FireControl

/-- The plates of one robot. -/
structure Group where
  robot : RobotId
  armors : List Detection
deriving DecidableEq

namespace Group

/-- The groups with one more detection, which joins the group of its robot or opens one at the
end. -/
def file : List Group → Detection → List Group
  | [], d => [⟨d.robot, [d]⟩]
  | g :: rest, d =>
    if g.robot = d.robot then { g with armors := g.armors ++ [d] } :: rest
    else g :: file rest d

/-- The groups of a list of detections. -/
def ofDetections (ds : List Detection) : List Group :=
  ds.foldl file []

/-- The bits of the mean distance of the plates: their distances added in order, divided by their
number. A group without plates is infinitely far away. -/
def meanDistance (g : Group) : Pattern :=
  if g.armors.isEmpty then .ofNumber (1 / 0)
  else
    g.armors.foldl (fun sum d => sum + d.distance) (.ofNumber 0) /
      .ofNumber (Float32.ofInteger g.armors.length)

/-- The nearer of two groups in the total order of their mean distances; of equally near ones the
first. -/
def nearer (g h : Group) : Group :=
  if h.meanDistance.rank < g.meanDistance.rank then h else g

/-- The nearest group that has plates. -/
def nearest? (groups : List Group) : Option Group :=
  match groups.filter (fun g => !g.armors.isEmpty) with
  | [] => none
  | g :: rest => some (rest.foldl nearer g)

end Group

end FireControl
