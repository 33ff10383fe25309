/-!
# Stages

The stages of the pipeline, as the operator knows them.

## Main definitions

* `Stage`: A stage.
* `Stage.label`: Its name.
* `Stage.list`: A list of names as the log shows it.
-/

namespace FireControl

/-- A stage of the pipeline. -/
inductive Stage where
  | capture
  | orientation
  | perception
  | estimation
  | aim
  | transmit
deriving DecidableEq, Repr

namespace Stage

/-- The name of a stage. -/
def label : Stage → String
  | .capture => "Capture"
  | .orientation => "Orientation"
  | .perception => "Perception"
  | .estimation => "Estimation"
  | .aim => "Aim"
  | .transmit => "Transmit"

/-- The stages of a turret, in the order in which they start. Without a link nothing is sent. -/
def started (linked : Bool) : List Stage :=
  [.capture, .orientation, .perception, .estimation, .aim] ++ if linked then [.transmit] else []

/-- A list of names in brackets and quotes. -/
def list (stages : List Stage) : String :=
  "[" ++ ", ".intercalate (stages.map fun s => "\"" ++ s.label ++ "\"") ++ "]"

end Stage

end FireControl
