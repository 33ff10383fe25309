import FireControl.Tracking.Fusion

/-!
# What Fusion Says of a Robot

Whatever the fused place and heading are, a state that comes out of fusion names the robot of the
plate that was fused last, carries the time of the frame and never asks for a reset. There are three
ways in which fusion can go, by the number of plates and by what is known from before;
`Fuser.Outcome` lists them, and `fuse_outcome` says that fusion goes one of these ways. Only one or
two plates teach the fuser anything.

## Main definitions

* `Fuser.Outcome`: What fusion can do.

## Theorems

* `single_labels`: The labels of a state that was fused from one plate.
* `fuse_outcome`: Fusion does what it can do.
* `fuse_isSome`: One or two plates give a state, whatever is known from before.
-/

namespace FireControl

namespace Fuser

/-- What fusion can do with the plates of a frame. -/
inductive Outcome (fuser : Fuser) (armors : List Detection) (time : Instant) :
    Option RobotState × Fuser → Prop
  /-- One or two plates give a new state, which is remembered as it is given. -/
  | learn (state : RobotState) (plate : Detection) (last : armors.getLast? = some plate)
      (robot : state.robot = plate.robot) (sameTime : state.time = time)
      (unmarked : state.reset = false) :
      Outcome fuser armors time (some state, { fuser with previous := some state })
  /-- Other numbers of plates give the remembered state once more. -/
  | repeated (known : RobotState) (remembered : fuser.previous = some known) :
      Outcome fuser armors time (some { known with time := time, reset := false }, fuser)
  /-- Other numbers of plates give nothing where nothing is remembered. -/
  | miss (forgotten : fuser.previous = none) :
      Outcome fuser armors time (none, fuser)

theorem coast_outcome (fuser : Fuser) (armors : List Detection) (time : Instant) :
    Outcome fuser armors time (fuser.coast time, fuser) := by
  unfold coast
  cases h : fuser.previous with
  | none => exact Outcome.miss h
  | some known => exact Outcome.repeated known h

variable [ElementaryFunctions]

/-- The labels of a state that was fused from one plate. -/
theorem single_labels (fuser : Fuser) (armor : Detection) (time : Instant) :
    (fuser.single armor time).robot = armor.robot ∧ (fuser.single armor time).time = time ∧
      (fuser.single armor time).reset = false := by
  unfold single
  cases fuser.previous with
  | none => exact ⟨rfl, rfl, rfl⟩
  | some previous => exact ⟨rfl, rfl, rfl⟩

/-- Fusion does what it can do. -/
theorem fuse_outcome (fuser : Fuser) (armors : List Detection) (time : Instant) :
    Outcome fuser armors time (fuser.fuse armors time) := by
  cases armors with
  | nil => exact coast_outcome fuser [] time
  | cons first rest =>
      cases rest with
      | nil =>
          rcases single_labels fuser first time with ⟨hrobot, htime, hreset⟩
          exact Outcome.learn (fuser.single first time) first rfl hrobot htime hreset
      | cons second rest =>
          cases rest with
          | nil =>
              -- The average takes all labels from the state of the second plate.
              rcases single_labels (fuser.fuseOne first time).2 second time with
                ⟨hrobot, htime, hreset⟩
              exact Outcome.learn (fuser.fuseTwo first second time).1 second rfl hrobot htime hreset
          | cons third rest => exact coast_outcome fuser (first :: second :: third :: rest) time

/-- One or two plates give a state, whatever is known from before. -/
theorem fuse_isSome (fuser : Fuser) (armors : List Detection) (time : Instant)
    (h : armors.length = 1 ∨ armors.length = 2) : (fuser.fuse armors time).1.isSome = true := by
  match armors, h with
  | [], h => exact absurd h (by decide)
  | [_], _ => rfl
  | [_, _], _ => rfl
  | _ :: _ :: _ :: rest, h =>
      simp only [List.length_cons] at h
      omega

end Fuser

end FireControl
