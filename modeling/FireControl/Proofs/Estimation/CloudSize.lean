import FireControl.Estimation.ParticleFilter

/-!
# The Size of a Cloud

Nothing that happens to a cloud adds or removes a particle. Scattering and advancing replace the
particles one by one; weighing puts one weight on each of them; resampling sets as many marks as
there are particles, and every mark chooses one.

A filter therefore keeps the size that it was started with, and a filter that was started with any
particle at all can always be scattered around a measurement.

## Theorems

* `Draw.run_mapM_cons`: Members are drawn for one after the other.
* `Draw.length_mapM`: Drawing for every member of a list gives a list of the same length.
* `Cloud.length_scatter`, `Cloud.length_advance`: Scattering and advancing keep the size.
* `Cloud.length_choose`: There are as many chosen particles as marks.
* `Cloud.length_update`: A measurement keeps the size.
* `ParticleFilter.length_step`: A step keeps the size.
-/

namespace FireControl

/-- The rest is drawn with the generator that the first member leaves. -/
theorem Draw.run_mapM_cons {α β : Type} (f : α → Draw β) (x : α) (rest : List α) (g : ChaCha) :
    ((x :: rest).mapM f).run g =
      (((f x).run g).1 :: ((rest.mapM f).run ((f x).run g).2).1,
        ((rest.mapM f).run ((f x).run g).2).2) := by
  rw [List.mapM_cons]
  rfl

/-- Drawing for every member of a list gives a list of the same length, whatever is drawn. -/
theorem Draw.length_mapM {α β : Type} (f : α → Draw β) (xs : List α) (g : ChaCha) :
    ((xs.mapM f).run g).1.length = xs.length := by
  induction xs generalizing g with
  | nil => rfl
  | cons x rest ih => rw [run_mapM_cons, List.length_cons, List.length_cons, ih]

namespace Cloud

/-- There are as many chosen particles as marks. -/
theorem length_choose (distance : Float32) (n : Nat) (mark : Float32) (place : Place) :
    (choose distance n mark place).length = n := by
  induction n generalizing mark place with
  | zero => rfl
  | succ k ih => rw [choose, List.length_cons, ih]

theorem length_resampleAt (cloud : Cloud) (random : Float32) :
    (cloud.resampleAt random).length = cloud.length := by
  cases cloud with
  | nil => rfl
  | cons p rest => exact length_choose _ _ _ _

theorem length_resample (cloud : Cloud) (g : ChaCha) :
    (cloud.resample.run g).1.length = cloud.length := by
  unfold resample
  by_cases h : cloud.isEmpty = true
  · rw [if_pos h]
    rfl
  · rw [if_neg h]
    exact length_resampleAt cloud _

theorem length_refresh (cloud : Cloud) (g : ChaCha) :
    (cloud.refresh.run g).1.length = cloud.length := by
  unfold refresh
  by_cases h : cloud.effectiveSize < Float32.ofInteger cloud.length * 0.5
  · rw [if_pos h]
    exact length_resample cloud g
  · rw [if_neg h]
    rfl

variable [ElementaryFunctions]

theorem length_scatter (cloud : Cloud) (noise : SensorNoise) (measured : Motion) (g : ChaCha) :
    ((cloud.scatter noise measured).run g).1.length = cloud.length :=
  Draw.length_mapM _ cloud g

theorem length_advance (cloud : Cloud) (dt : Float32) (g : ChaCha) :
    ((cloud.advance dt).run g).1.length = cloud.length := by
  unfold advance
  by_cases h : dt ≤ 0
  · rw [if_pos h]
    rfl
  · rw [if_neg h]
    exact Draw.length_mapM _ cloud g

/-- Weighing puts a weight on each particle. -/
theorem length_weigh? (cloud weighed : Cloud) (noise : SensorNoise) (measured : Motion)
    (h : cloud.weigh? noise measured = some weighed) : weighed.length = cloud.length := by
  unfold weigh? at h
  generalize hlogs : cloud.logWeights noise.precisions measured = logs at h
  have hlength : logs.length = cloud.length := by
    rw [← hlogs]
    exact List.length_map _
  -- A cloud comes out only where the likelihoods add up to something.
  simp only at h
  split at h
  · split at h
    · exact absurd h.symm (Option.some_ne_none weighed)
    · rw [← Option.some.inj h, withWeights, List.length_zipWith, List.length_map, List.length_map,
        hlength, Nat.min_self]
  · exact absurd h.symm (Option.some_ne_none weighed)

/-- A measurement keeps the size, whether the cloud agrees with it or not. -/
theorem length_update (cloud : Cloud) (noise : SensorNoise) (measured : Motion) (g : ChaCha) :
    ((cloud.update noise measured).run g).1.length = cloud.length := by
  unfold update
  cases h : cloud.weigh? noise measured with
  | none => exact length_scatter cloud noise measured g
  | some weighed =>
      rw [← length_weigh? cloud weighed noise measured h]
      exact length_refresh weighed g

end Cloud

namespace ParticleFilter

variable [ElementaryFunctions]

theorem length_reset (filter : ParticleFilter) (measured : RobotState) :
    (filter.reset measured).cloud.length = filter.cloud.length := by
  unfold reset
  by_cases h : filter.cloud.isEmpty = true
  · rw [if_pos h]
  · rw [if_neg h]
    exact Cloud.length_scatter filter.cloud filter.noise measured.toMotion filter.generator

theorem length_predict (filter : ParticleFilter) (dt : Float32) :
    (filter.predict dt).cloud.length = filter.cloud.length := by
  unfold predict
  by_cases h : filter.robot.isSome = true
  · rw [if_pos h]
    exact Cloud.length_advance filter.cloud dt filter.generator
  · rw [if_neg h]

/-- A step keeps the size of the cloud. -/
theorem length_step (filter : ParticleFilter) (measured : RobotState) (dt : Float32) :
    (filter.step measured dt).cloud.length = filter.cloud.length := by
  unfold step
  by_cases h : filter.robot = some measured.robot
  · rw [if_pos h]
    exact (Cloud.length_update _ _ _ _).trans (Cloud.length_advance _ _ _)
  · rw [if_neg h]
    exact length_reset filter measured

end ParticleFilter

end FireControl
