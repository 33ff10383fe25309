import FireControl.Estimation.Estimator

/-!
# Recording

A filter that estimates nothing: it notes what it is told and gives the mean state that it was
given. With it the commands of an estimator can be looked at.

## Main definitions

* `Recording`: The commands so far, and the mean state to give.
* `Filter.recording`: The filter.
-/

namespace FireControl

/-- The commands that a filter was told to obey, and the mean state that it gives. -/
structure Recording where
  commands : List FilterCommand
  mean : Option RobotState

/-- The recording with one more command. -/
def Recording.note (r : Recording) (command : FilterCommand) : Recording :=
  { r with commands := r.commands ++ [command] }

/-- The filter that only notes. -/
def Filter.recording : Filter Recording where
  reset r measured := r.note (.reset measured)
  predict r dt := r.note (.predict dt)
  step r measured dt := r.note (.step measured dt)
  mean r _ := r.mean

end FireControl
