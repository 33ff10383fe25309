import FireControl.Estimation.Estimator
import FireControl.Proofs.Estimation.CloudSize

/-!
# The Robot That a Filter Follows

The particle filter follows the robot of the measurement that it took last, whichever command the
measurement came with, and keeps following it while time passes. Only a filter without particles
follows nobody for ever.

A measurement of another robot restarts the filter by itself. A measurement of the same robot does
not, and it takes the command to start again to get rid of what the filter believes.

## Main definitions

* `ParticleFilter.Following`: A filter that has particles and follows a robot, or nobody yet.

## Theorems

* `step_of_other`: A measurement of another robot restarts the filter.
* `following_reset`, `following_predict`, `following_step`: What the commands do to the robot that
  is followed.
* `following_commands`: After a measurement the filter follows its robot.
-/

namespace FireControl

namespace ParticleFilter

/-- A filter that has particles and follows the robot `id`, or nobody yet. -/
structure Following (filter : ParticleFilter) (id : Option RobotId) : Prop where
  particles : filter.cloud ≠ []
  robot : filter.robot = id

/-- A cloud that has kept its size has kept its particles. -/
theorem particles_of_length_eq {before after : ParticleFilter} (particles : before.cloud ≠ [])
    (hlength : after.cloud.length = before.cloud.length) : after.cloud ≠ [] := by
  intro hempty
  rw [hempty] at hlength
  exact particles (List.eq_nil_of_length_eq_zero hlength.symm)

theorem following_init (filter started : ParticleFilter) (n : Nat)
    (h : filter.init n = .ok started) : started.Following none := by
  unfold init at h
  by_cases hn : n = 0
  · rw [if_pos hn] at h
    exact absurd h (by simp only [reduceCtorEq, not_false_eq_true])
  · rw [if_neg hn] at h
    have hstarted := Except.ok.inj h
    rw [← hstarted]
    -- The started cloud is blank and has no robot yet; it is as long as was asked for.
    refine ⟨fun hempty => hn ?_, rfl⟩
    have hlength := congrArg List.length hempty
    simpa only [Cloud.blank, List.length_replicate, List.length_nil] using hlength

variable [ElementaryFunctions] {filter : ParticleFilter} {id : Option RobotId}

/-- A measurement of another robot restarts the filter. -/
theorem step_of_other (measured : RobotState) (dt : Float32)
    (other : filter.robot ≠ some measured.robot) :
    filter.step measured dt = filter.reset measured :=
  if_neg other

theorem following_reset (h : filter.Following id) (measured : RobotState) :
    (filter.reset measured).Following (some measured.robot) := by
  refine ⟨particles_of_length_eq h.particles (length_reset filter measured), ?_⟩
  unfold reset
  rw [if_neg (fun hempty => h.particles (List.isEmpty_iff.mp hempty))]

theorem following_predict (h : filter.Following id) (dt : Float32) :
    (filter.predict dt).Following id := by
  refine ⟨particles_of_length_eq h.particles (length_predict filter dt), ?_⟩
  unfold predict
  by_cases hsome : filter.robot.isSome = true
  · rw [if_pos hsome]
    exact h.robot
  · rw [if_neg hsome]
    exact h.robot

theorem following_step (h : filter.Following id) (measured : RobotState) (dt : Float32) :
    (filter.step measured dt).Following (some measured.robot) := by
  by_cases hsame : filter.robot = some measured.robot
  · refine ⟨particles_of_length_eq h.particles (length_step filter measured dt), ?_⟩
    unfold step
    rw [if_pos hsame]
    exact hsame
  · rw [step_of_other measured dt hsame]
    exact following_reset h measured

/-- After a measurement the filter follows its robot. -/
theorem following_commands (h : filter.Following id) (measured : RobotState) (dt : Float32) :
    ((Estimator.commandsFor measured dt).foldl Filter.particle.obey filter).Following
      (some measured.robot) := by
  unfold Estimator.commandsFor
  by_cases hreset : measured.reset = true
  · rw [if_pos hreset]
    exact following_step (following_reset h measured) measured dt
  · rw [if_neg hreset]
    exact following_step h measured dt

end ParticleFilter

end FireControl
