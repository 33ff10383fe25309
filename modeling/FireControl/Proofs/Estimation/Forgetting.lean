import FireControl.Proofs.Estimation.Buffers
import FireControl.Proofs.Estimation.FollowedRobot

/-!
# A Restarted Filter Has No Past

A filter that starts again with another robot must not let anything show that it believed about the
robot before. What it believed is in its motions and in its weights, and since the last resampling
also in the spare buffer, where no operation was meant to look for it. It could show in a second way
as well: if the number of random numbers that a restart draws depended on the old motions, then
every later guess would.

Two memories of equal size, with equal noise and equal generators, are therefore compared. They may
hold anything else. After a restart with the same measurement they stand for one filter, and by
`FilterMemory.Means` this is all that counts afterwards.

## Main definitions

* `FilterCommand.Restarts`: The commands with which a filter starts again.
* `FilterMemory.Comparable`: Memories that differ in nothing but what they hold.

## Theorems

* `Draw.run_mapM_const`: Drawing the same for every member looks at no member.
* `ParticleFilter.reset_eq_reset`: A restart depends on nothing that the cloud held.
* `FilterMemory.restart_forgets`: Nothing shows of what was there before a restart.
-/

namespace FireControl

/-- Drawing the same for every member of a list looks at no member. -/
theorem Draw.run_mapM_const {α β γ : Type} (drawn : Draw γ) {xs : List α} {ys : List β}
    (h : xs.length = ys.length) (g : ChaCha) :
    (xs.mapM fun _ => drawn).run g = (ys.mapM fun _ => drawn).run g := by
  induction xs generalizing ys g with
  | nil =>
      rw [List.eq_nil_of_length_eq_zero h.symm]
      rfl
  | cons x xs ih =>
      cases ys with
      | nil => exact absurd h (Nat.succ_ne_zero _)
      | cons y ys =>
          rw [Draw.run_mapM_cons, Draw.run_mapM_cons, ih (Nat.succ.inj h)]

/-- The commands with which a filter that follows `followed` starts again from a measurement: to do
so, or to take a step with the measurement of another robot. -/
inductive FilterCommand.Restarts (followed : Option RobotId) (measured : RobotState) :
    FilterCommand → Prop
  | reset : Restarts followed measured (.reset measured)
  | step (dt : Float32) (other : followed ≠ some measured.robot) :
      Restarts followed measured (.step measured dt)

section

variable [ElementaryFunctions]

namespace ParticleFilter

/-- A restart depends on the number of the particles, but on nothing that the cloud held. -/
theorem reset_eq_reset {a b : ParticleFilter} (particles : a.cloud ≠ [])
    (size : b.cloud.length = a.cloud.length) (noise : b.noise = a.noise)
    (generator : b.generator = a.generator) (measured : RobotState) :
    a.reset measured = b.reset measured := by
  have hother : b.cloud ≠ [] := particles_of_length_eq particles size
  have hscatter : (b.cloud.scatter b.noise measured.toMotion).run b.generator =
      (a.cloud.scatter a.noise measured.toMotion).run a.generator := by
    -- No particle is looked at, so the clouds may differ in all of them.
    rw [noise, generator, Cloud.scatter, Cloud.scatter, size]
    exact Draw.run_mapM_const _ size _
  unfold reset withCloud
  rw [if_neg (fun hempty => particles (List.isEmpty_iff.mp hempty)),
    if_neg (fun hempty => hother (List.isEmpty_iff.mp hempty)), hscatter, noise]
  rfl

theorem obey_restarts {filter : ParticleFilter} {measured : RobotState} {c : FilterCommand}
    (h : c.Restarts filter.robot measured) :
    Filter.particle.obey filter c = filter.reset measured := by
  cases h with
  | reset => rfl
  | step dt other => exact step_of_other measured dt other

end ParticleFilter

namespace FilterMemory

/-- Memories with particles that differ in nothing but what they hold. -/
structure Comparable (a b : FilterMemory) : Prop where
  particles : a.motions ≠ []
  motions : b.motions.length = a.motions.length
  weights : a.weights.length = a.motions.length
  otherWeights : b.weights.length = a.motions.length
  noise : b.noise = a.noise
  generator : b.generator = a.generator

/-- Restarted with one measurement, comparable memories stand for one filter. -/
theorem Comparable.restart {a b : FilterMemory} (h : a.Comparable b) {measured : RobotState}
    {first second : FilterCommand} (hfirst : first.Restarts a.robot measured)
    (hsecond : second.Restarts b.robot measured) :
    ∃ filter, (a.obey first).Means filter ∧ (b.obey second).Means filter ∧
      filter = Filter.particle.obey a.filter first ∧
      filter = Filter.particle.obey b.filter second := by
  have hfits : b.weights.length = b.motions.length := h.otherWeights.trans h.motions.symm
  -- Both clouds have particles, and equally many, so both are scattered.
  have hparticles : a.filter.cloud ≠ [] := by
    intro hempty
    have hlength := cloud_length h.weights
    rw [show a.cloud = [] from hempty] at hlength
    exact h.particles (List.eq_nil_of_length_eq_zero hlength.symm)
  have hsize : b.filter.cloud.length = a.filter.cloud.length :=
    (cloud_length hfits).trans (h.motions.trans (cloud_length h.weights).symm)
  -- Whichever command it was, what it does is to scatter the cloud.
  have ha : Filter.particle.obey a.filter first = a.filter.reset measured :=
    ParticleFilter.obey_restarts hfirst
  have hb : Filter.particle.obey b.filter second = b.filter.reset measured :=
    ParticleFilter.obey_restarts hsecond
  have hsame := ParticleFilter.reset_eq_reset hparticles hsize h.noise h.generator measured
  refine ⟨Filter.particle.obey a.filter first, Means.obey ⟨h.weights, rfl⟩ first, ?_, rfl, ?_⟩
  · rw [ha, hsame, ← hb]
    exact Means.obey ⟨hfits, rfl⟩ second
  · rw [ha, hsame, ← hb]

/-- Nothing shows of what was there before a restart. Two memories of one size are restarted with
one measurement, be it by a command to start again or by a step with a robot that they do not
follow, for which the span does not matter. Whatever they are told from then on, their motions,
weights, robots and generators are equal, and all their means but for the time that is put on
them. Both do what the filters do that they stood for at first. -/
theorem restart_forgets {a b : FilterMemory} (h : a.Comparable b) {measured : RobotState}
    {first second : FilterCommand} (hfirst : first.Restarts a.robot measured)
    (hsecond : second.Restarts b.robot measured) (rest : List FilterCommand) :
    let a' := (a.obey first).run rest
    let b' := (b.obey second).run rest
    (a'.motions = b'.motions ∧ a'.weights = b'.weights ∧ a'.robot = b'.robot ∧
      a'.generator = b'.generator) ∧
    (∀ now later, (a'.mean now).map (fun state => { state with time := later }) = b'.mean later) ∧
    a'.filter = (first :: rest).foldl Filter.particle.obey a.filter ∧
    b'.filter = (second :: rest).foldl Filter.particle.obey b.filter := by
  intro a' b'
  rcases h.restart hfirst hsecond with ⟨filter, hameans, hbmeans, hafilter, hbfilter⟩
  have ha : a'.Means (rest.foldl Filter.particle.obey filter) := hameans.run rest
  have hb : b'.Means (rest.foldl Filter.particle.obey filter) := hbmeans.run rest
  have hfilter : a'.filter = b'.filter := ha.filter.trans hb.filter.symm
  -- The buffers can be read off the filter, except for the spare one.
  refine ⟨⟨?_, ?_, ?_, ?_⟩, fun now later => ?_, ?_, ?_⟩
  · rw [ha.motions_eq, hb.motions_eq]
  · rw [ha.weights_eq, hb.weights_eq]
  · exact congrArg ParticleFilter.robot hfilter
  · exact congrArg ParticleFilter.generator hfilter
  · change (a'.filter.mean now).map _ = b'.filter.mean later
    rw [← hfilter, ParticleFilter.mean, ParticleFilter.mean, Option.map_map]
    rfl
  · rw [List.foldl_cons, ← hafilter]
    exact ha.filter
  · rw [List.foldl_cons, ← hbfilter]
    exact hb.filter

end FilterMemory

end

/-- A memory of three particles at rest that follows nobody. -/
def FilterMemory.unused : FilterMemory :=
  { motions := List.replicate 3 .zero, weights := List.replicate 3 (1 / 3), spare := []
    generator := ChaCha.ofSeed 0, noise := ⟨0.1, 0.1⟩, robot := none }

/-- A memory that has followed robot 3. It favours one of three particles, and it holds motions from
before the last resampling. -/
def FilterMemory.used : FilterMemory :=
  let turned (yaw : Float32) : Motion := { Motion.zero with yaw := yaw }
  { motions := [turned 1, turned 1.5, turned 2], weights := [0.25, 0.5, 0.25]
    spare := [turned 2.5, .zero, turned 3], generator := ChaCha.ofSeed 0
    noise := ⟨0.1, 0.1⟩, robot := some ⟨3⟩ }

/-- A memory without a past, restarted by command, and one with a past, restarted by a step with
another robot. Both are then told of two places of that robot, of which the second is far away. -/
theorem FilterMemory.restart_forgets_used :
    let _ : ElementaryFunctions := .native
    let measured := RobotState.atRest ⟨1⟩ ⟨4, 0, 0⟩ 0 0.2 ⟨0⟩
    let rest :=
      [.predict 0.5, .step measured 0.5, .step { measured with position := ⟨9, 0, 0⟩ } 0.5]
    let a := (unused.obey (.reset measured)).run rest
    let b := (used.obey (.step measured 0.25)).run rest
    unused.Comparable used ∧ used.robot ≠ unused.robot ∧ used.cloud ≠ unused.cloud ∧
      a.motions = b.motions ∧ a.weights = b.weights ∧ a.robot = b.robot ∧
      a.generator = b.generator := by
  intro _ measured rest a b
  have comparable : unused.Comparable used :=
    ⟨List.cons_ne_nil _ _, rfl, rfl, rfl, rfl, rfl⟩
  have other : used.robot ≠ some measured.robot := by decide
  exact ⟨comparable, Option.some_ne_none _, by decide +kernel,
    (restart_forgets comparable .reset (.step 0.25 other) rest).1⟩

end FireControl
