import FireControl.Estimation.Estimator
import FireControl.Proofs.Estimation.CloudSize

/-!
# The Buffers of a Filter

A cloud is a list of particles, and a new cloud takes the place of the old one. A filter that is to
run for hours does not make new lists; it keeps its motions and its weights in two buffers of fixed
size and writes over them, member by member. Resampling copies motions, so it cannot write over the
buffer that it reads from: it fills a spare buffer, and the two change places. What the spare buffer
holds then is left over from the cloud before.

`FilterMemory` is a filter laid out in this way, and its operations say which buffer is written,
in which order and how far. A shorter loop than the buffer would leave old members behind it, and a
spare buffer that is not emptied first would show what it held. `FilterMemory.filter` is the filter
that a memory stands for. As long as the two buffers fit together, every operation on the memory is
the operation of the same name on the filter, so the left-over motions never show.

## Main definitions

* `FilterMemory`: The buffers of a filter.
* `FilterMemory.filter`: The filter that they stand for.
* `FilterMemory.new`, `FilterMemory.init`: Buffers of no particle, and of the given number.
* `FilterMemory.obey`: What a command does to the buffers.
* `FilterMemory.Means`: Buffers of one size that stand for a filter.

## Theorems

* `overwrite_eq`: A buffer that is written over to its end keeps nothing.
* `fill_eq`: A buffer that is filled keeps what it held, in front.
* `run_mapM_zip`: Drawing for the particles of a cloud is drawing for their motions.
* `Means.init`, `Means.reset`, `Means.predict`, `Means.step`: What the operations mean.
* `Means.run`: What a sequence of commands means.
-/

namespace FireControl

/-- A buffer whose members are replaced one after the other, as long as there are new ones. -/
def overwrite {α : Type} : List α → List α → List α
  | [], _ => []
  | old, [] => old
  | _ :: old, x :: new => x :: overwrite old new

/-- A buffer that is written over to its end keeps nothing. -/
theorem overwrite_eq {α : Type} {old new : List α} (h : old.length = new.length) :
    overwrite old new = new := by
  induction old generalizing new with
  | nil =>
      rw [overwrite]
      exact (List.eq_nil_of_length_eq_zero h.symm).symm
  | cons a old ih =>
      cases new with
      | nil => exact absurd h (Nat.succ_ne_zero _)
      | cons x new => rw [overwrite, ih (Nat.succ.inj h)]

/-- The buffers of a filter. -/
structure FilterMemory where
  motions : List Motion
  weights : List Float32
  /-- The buffer that the cloud is resampled into. -/
  spare : List Motion
  generator : ChaCha
  noise : SensorNoise
  robot : Option RobotId

namespace FilterMemory

/-- The particles, each a motion and the weight at the same place. -/
def cloud (memory : FilterMemory) : Cloud :=
  List.zipWith Particle.mk memory.motions memory.weights

/-- The filter that the buffers stand for. The spare buffer is no part of it. -/
def filter (memory : FilterMemory) : ParticleFilter :=
  { cloud := memory.cloud, generator := memory.generator, noise := memory.noise,
    robot := memory.robot }

/-- The buffers of a filter without particles, as `ParticleFilter.new` has it. -/
def new (settings : EstimatorSettings) (entropy : ChaCha) : FilterMemory :=
  { motions := [], weights := [], spare := []
    generator := (settings.seed.map ChaCha.ofSeed).getD entropy
    noise := ⟨settings.positionNoise, settings.yawNoise⟩, robot := none }

/-- New buffers for `n` particles that know of no robot. -/
def init (memory : FilterMemory) (n : Nat) : Except FilterError FilterMemory :=
  if n = 0 then .error .noParticles
  else
    .ok
      { memory with
        motions := List.replicate n Motion.zero
        weights := List.replicate n (1 / Float32.ofInteger n)
        spare := []
        robot := none }

/-- The buffer with the motions chosen by `n` marks put behind what it holds. -/
def fill (distance : Float32) : Nat → Float32 → Cloud.Place → List Motion → List Motion
  | 0, _, _, buffer => buffer
  | n + 1, mark, place, buffer =>
    let found := place.seek mark
    fill distance n (mark + distance) found (buffer ++ [found.particle.motion])

/-- The cloud resampled into the spare buffer, which is emptied before and changes places with the
motions afterwards. -/
def resample (memory : FilterMemory) : FilterMemory :=
  match memory.cloud with
  | [] => memory
  | p :: rest =>
    let drawn := Draw.uniform.run memory.generator
    let distance := 1 / Float32.ofInteger memory.motions.length
    let emptied := memory.spare.take 0
    { memory with
      motions :=
        fill distance memory.motions.length (drawn.1 * distance) ⟨p, p.weight, rest⟩ emptied
      weights := memory.weights.map fun _ => distance
      spare := memory.motions
      generator := drawn.2 }

/-- How many guesses count, read off the weights. -/
def effectiveSize (memory : FilterMemory) : Float32 :=
  let squares := Cloud.sum (memory.weights.map fun w => w * w)
  if 0 < squares then 1 / squares else 0

/-- The cloud resampled where too few guesses count. -/
def refresh (memory : FilterMemory) : FilterMemory :=
  if memory.effectiveSize < Float32.ofInteger memory.motions.length * 0.5 then memory.resample
  else memory

variable [ElementaryFunctions]

/-- Every motion is written over by a motion near the measured one, and every weight by the same
weight. -/
def scatter (memory : FilterMemory) (measured : Motion) : FilterMemory :=
  let drawn := (memory.motions.mapM fun _ => measured.scatter memory.noise).run memory.generator
  { memory with
    motions := overwrite memory.motions drawn.1
    weights := memory.weights.map fun _ => 1 / Float32.ofInteger memory.motions.length
    generator := drawn.2 }

/-- Starts again from a measurement, where there are particles. -/
def reset (memory : FilterMemory) (measured : RobotState) : FilterMemory :=
  if memory.motions.isEmpty then memory
  else { memory.scatter measured.toMotion with robot := some measured.robot }

/-- Every motion is written over by itself `dt` seconds later. -/
def advance (memory : FilterMemory) (dt : Float32) : FilterMemory :=
  if dt ≤ 0 then memory
  else
    let drawn := (memory.motions.mapM (Motion.advance dt)).run memory.generator
    { memory with motions := overwrite memory.motions drawn.1, generator := drawn.2 }

/-- The logarithms of the weights after a measurement, one for each motion that has a weight. -/
def logWeights (memory : FilterMemory) (measured : Motion) : List Float32 :=
  List.zipWith
    (fun motion weight =>
      ElementaryFunctions.log (weight.maxNum Draw.leastNormal) -
        Motion.misfit memory.noise.precisions measured motion)
    memory.motions memory.weights

/-- The weights written over by those after a measurement, or `none` where no guess agrees. -/
def weigh? (memory : FilterMemory) (measured : Motion) : Option FilterMemory :=
  let logs := memory.logWeights measured
  let best := Cloud.greatest logs
  if Cloud.hopeless < best then
    let likelihoods := logs.map fun l => ElementaryFunctions.exp (l - best)
    let total := Cloud.sum likelihoods
    if !total.isFinite || total ≤ 0 then none
    else some { memory with weights := overwrite memory.weights (likelihoods.map (· / total)) }
  else none

/-- A measurement at its own time. Where no guess agrees with it, the filter starts again. -/
def update (memory : FilterMemory) (measured : RobotState) : FilterMemory :=
  match memory.weigh? measured.toMotion with
  | some weighed => weighed.refresh
  | none => memory.reset measured

/-- A span of time without a measurement. -/
def predict (memory : FilterMemory) (dt : Float32) : FilterMemory :=
  if memory.robot.isSome then memory.advance dt else memory

/-- A span of time and a measurement after it. -/
def step (memory : FilterMemory) (measured : RobotState) (dt : Float32) : FilterMemory :=
  if memory.robot = some measured.robot then (memory.advance dt).update measured
  else memory.reset measured

/-- What a command does to the buffers. -/
def obey (memory : FilterMemory) : FilterCommand → FilterMemory
  | .reset measured => memory.reset measured
  | .step measured dt => memory.step measured dt
  | .predict dt => memory.predict dt

/-- The mean state of the robot that is followed. -/
def mean (memory : FilterMemory) (now : Instant) : Option RobotState :=
  memory.robot.map fun id => RobotState.ofMotion memory.cloud.mean id now

/-- What a sequence of commands does. -/
def run (memory : FilterMemory) (commands : List FilterCommand) : FilterMemory :=
  commands.foldl obey memory

end FilterMemory

/-! ### Buffers and clouds -/

namespace Cloud

variable {motions : List Motion} {weights : List Float32}

theorem map_motion_zip (h : weights.length = motions.length) :
    (List.zipWith Particle.mk motions weights).map Particle.motion = motions := by
  rw [← List.map_uncurry_zip_eq_zipWith, List.map_map]
  exact List.map_fst_zip (Nat.le_of_eq h.symm)

theorem map_weight_zip (h : weights.length = motions.length) :
    (List.zipWith Particle.mk motions weights).map Particle.weight = weights := by
  rw [← List.map_uncurry_zip_eq_zipWith, List.map_map]
  exact List.map_snd_zip (Nat.le_of_eq h)

theorem length_zip (h : weights.length = motions.length) :
    (List.zipWith Particle.mk motions weights).length = motions.length := by
  rw [List.length_zipWith, h, Nat.min_self]

/-- Drawing for the particles of a cloud is drawing for their motions. -/
theorem run_mapM_zip (f : Motion → Draw Motion) (v : Float32 → Float32)
    (h : weights.length = motions.length) (g : ChaCha) :
    (List.mapM (fun p : Particle => (do return ⟨← f p.motion, v p.weight⟩ : Draw Particle))
      (List.zipWith Particle.mk motions weights)).run g =
      (List.zipWith Particle.mk ((motions.mapM f).run g).1 (weights.map v),
        ((motions.mapM f).run g).2) := by
  induction motions generalizing weights g with
  | nil => rfl
  | cons m motions ih =>
      cases weights with
      | nil => exact absurd h.symm (Nat.succ_ne_zero _)
      | cons w weights =>
          -- Both lists go on with the generator that the first motion leaves.
          have hrest := ih (Nat.succ.inj h) ((f m).run g).2
          rw [List.zipWith_cons_cons, Draw.run_mapM_cons, Draw.run_mapM_cons]
          exact congrArg
            (fun drawn : Cloud × ChaCha => (⟨((f m).run g).1, v w⟩ :: drawn.1, drawn.2)) hrest

/-- Weights that are put on the motions of a cloud replace all others. -/
theorem withWeights_zip {new : List Float32} (h : weights.length = motions.length)
    (hnew : new.length = motions.length) :
    withWeights (List.zipWith Particle.mk motions weights) new =
      List.zipWith Particle.mk motions new := by
  -- The lists have one length, so they are gone through together.
  induction motions generalizing weights new with
  | nil => rfl
  | cons m motions ih =>
      cases weights with
      | nil => exact absurd h.symm (Nat.succ_ne_zero _)
      | cons w weights =>
          cases new with
          | nil => exact absurd hnew.symm (Nat.succ_ne_zero _)
          | cons x new =>
              have hrest := ih (Nat.succ.inj h) (Nat.succ.inj hnew)
              exact congrArg (⟨m, x⟩ :: ·) hrest

/-- The chosen particles are their motions with one weight. -/
theorem zip_motions_choose (distance : Float32) (n : Nat) (mark : Float32) (place : Place)
    (hn : weights.length = n) :
    List.zipWith Particle.mk ((choose distance n mark place).map Particle.motion)
      (weights.map fun _ => distance) = choose distance n mark place := by
  induction n generalizing mark place weights with
  | zero => rfl
  | succ n ih =>
      cases weights with
      | nil => exact absurd hn.symm (Nat.succ_ne_zero n)
      | cons w weights => exact congrArg (_ :: ·) (ih _ _ (Nat.succ.inj hn))

end Cloud

/-- A buffer that is filled keeps what it held, in front. -/
theorem FilterMemory.fill_eq (distance : Float32) (n : Nat) (mark : Float32) (place : Cloud.Place)
    (buffer : List Motion) :
    fill distance n mark place buffer =
      buffer ++ (Cloud.choose distance n mark place).map Particle.motion := by
  induction n generalizing mark place buffer with
  | zero => exact (List.append_nil buffer).symm
  | succ n ih =>
      rw [fill, ih, List.append_assoc]
      rfl

/-! ### What the operations mean -/

/-- Buffers of one size that stand for a filter. -/
structure FilterMemory.Means (memory : FilterMemory) (filter : ParticleFilter) : Prop where
  fits : memory.weights.length = memory.motions.length
  filter : memory.filter = filter

namespace FilterMemory

variable {memory : FilterMemory} {filter : ParticleFilter}

theorem cloud_length (fits : memory.weights.length = memory.motions.length) :
    memory.cloud.length = memory.motions.length :=
  Cloud.length_zip fits

theorem cloud_isEmpty (fits : memory.weights.length = memory.motions.length) :
    memory.cloud.isEmpty = memory.motions.isEmpty := by
  rw [Bool.eq_iff_iff, List.isEmpty_iff_length_eq_zero, cloud_length fits,
    List.isEmpty_iff_length_eq_zero]

theorem new_means (settings : EstimatorSettings) (entropy : ChaCha) :
    (new settings entropy).Means (ParticleFilter.new settings entropy) :=
  ⟨rfl, rfl⟩

/-- New buffers are as long as there are particles, or there are none and nothing is started. -/
theorem Means.init (h : memory.Means filter) (n : Nat) :
    memory.init n = .error .noParticles ∧ filter.init n = .error .noParticles ∨
      ∃ started blank, memory.init n = .ok started ∧ filter.init n = .ok blank ∧
        started.Means blank := by
  obtain ⟨fits, rfl⟩ := h
  unfold FilterMemory.init ParticleFilter.init
  -- Both refuse an empty cloud before anything is allocated.
  by_cases hn : n = 0
  · rw [if_pos hn, if_pos hn]
    exact Or.inl ⟨rfl, rfl⟩
  · rw [if_neg hn, if_neg hn]
    refine Or.inr ⟨_, _, rfl, rfl, ?_, ?_⟩
    · rw [List.length_replicate, List.length_replicate]
    · rw [FilterMemory.filter, FilterMemory.cloud, List.zipWith_replicate, Nat.min_self]
      rfl

theorem Means.robot (h : memory.Means filter) : memory.robot = filter.robot := by
  rw [← h.filter]
  rfl

theorem Means.length_eq (h : memory.Means filter) :
    memory.motions.length = filter.cloud.length ∧ memory.weights.length = filter.cloud.length := by
  obtain ⟨fits, rfl⟩ := h
  rw [fits]
  exact ⟨(cloud_length fits).symm, (cloud_length fits).symm⟩

theorem Means.motions_eq (h : memory.Means filter) :
    memory.motions = filter.cloud.map Particle.motion := by
  obtain ⟨fits, rfl⟩ := h
  exact (Cloud.map_motion_zip fits).symm

theorem Means.weights_eq (h : memory.Means filter) :
    memory.weights = filter.cloud.map Particle.weight := by
  obtain ⟨fits, rfl⟩ := h
  exact (Cloud.map_weight_zip fits).symm

theorem Means.follow (h : memory.Means filter) (id : Option RobotId) :
    Means { memory with robot := id } { filter with robot := id } := by
  obtain ⟨fits, rfl⟩ := h
  exact ⟨fits, rfl⟩

/-- What is drawn for every particle fills both buffers to their ends. -/
theorem Means.draw (h : memory.Means filter) (f : Motion → Draw Motion) (v : Float32 → Float32) :
    Means
      { memory with
        motions := overwrite memory.motions ((memory.motions.mapM f).run memory.generator).1
        weights := memory.weights.map v
        generator := ((memory.motions.mapM f).run memory.generator).2 }
      (filter.withCloud (filter.cloud.mapM fun p => do return ⟨← f p.motion, v p.weight⟩)) := by
  obtain ⟨fits, rfl⟩ := h
  -- What is drawn is as long as what it was drawn from, so it overwrites all of the buffer.
  have hlength := Draw.length_mapM f memory.motions memory.generator
  have hdrawn := Cloud.run_mapM_zip f v fits memory.generator
  rw [overwrite_eq hlength.symm]
  refine ⟨?_, ?_⟩
  · rw [List.length_map, fits, hlength]
  · exact congrArg (fun drawn : Cloud × ChaCha =>
      ({ memory.filter with cloud := drawn.1, generator := drawn.2 } : ParticleFilter)) hdrawn.symm

theorem Means.resample (h : memory.Means filter) :
    memory.resample.Means (filter.withCloud filter.cloud.resample) := by
  obtain ⟨fits, rfl⟩ := h
  have hlength := cloud_length fits
  rw [show memory.filter.cloud = memory.cloud from rfl]
  unfold FilterMemory.resample Cloud.resample
  cases hcloud : memory.cloud with
  | nil =>
      refine ⟨fits, ?_⟩
      rw [FilterMemory.filter, hcloud]
      rfl
  | cons p rest =>
      rw [hcloud] at hlength
      -- The spare buffer was emptied, so it holds what is chosen and nothing else.
      simp only [List.take_zero, fill_eq, List.nil_append]
      refine ⟨?_, ?_⟩
      · rw [List.length_map, List.length_map, Cloud.length_choose, fits]
      · rw [FilterMemory.filter, FilterMemory.cloud, Cloud.zip_motions_choose _ _ _ _ fits,
          ← hlength]
        rfl

theorem Means.effectiveSize (h : memory.Means filter) :
    memory.effectiveSize = filter.cloud.effectiveSize := by
  obtain ⟨fits, rfl⟩ := h
  -- The cloud squares the weights that it pairs with motions, and the buffer squares its members.
  have hsquares : memory.filter.cloud.map (fun p => p.weight * p.weight) =
      memory.weights.map fun w => w * w := by
    rw [← Cloud.map_weight_zip fits, List.map_map]
    rfl
  rw [Cloud.effectiveSize, hsquares]
  rfl

theorem Means.refresh (h : memory.Means filter) :
    memory.refresh.Means (filter.withCloud filter.cloud.refresh) := by
  -- The effective size is compared with half the size, which both forms agree on.
  have hsize : filter.cloud.length = memory.motions.length := by
    rw [← h.filter]
    exact cloud_length h.fits
  unfold FilterMemory.refresh Cloud.refresh
  rw [h.effectiveSize, hsize]
  by_cases hfew : filter.cloud.effectiveSize < Float32.ofInteger memory.motions.length * 0.5
  · rw [if_pos hfew, if_pos hfew]
    exact h.resample
  · rw [if_neg hfew, if_neg hfew]
    exact h

variable [ElementaryFunctions]

theorem Means.scatter (h : memory.Means filter) (measured : Motion) :
    (memory.scatter measured).Means
      (filter.withCloud (filter.cloud.scatter filter.noise measured)) := by
  have hdraw := h.draw (fun _ => measured.scatter filter.noise)
    (fun _ => 1 / Float32.ofInteger filter.cloud.length)
  obtain ⟨fits, rfl⟩ := h
  rw [show memory.filter.cloud.length = memory.motions.length from cloud_length fits] at hdraw
  unfold Cloud.scatter
  rw [show memory.filter.cloud.length = memory.motions.length from cloud_length fits]
  exact hdraw

theorem Means.reset (h : memory.Means filter) (measured : RobotState) :
    (memory.reset measured).Means (filter.reset measured) := by
  have hscatter := h.scatter measured.toMotion
  obtain ⟨fits, rfl⟩ := h
  unfold FilterMemory.reset ParticleFilter.reset
  rw [show memory.filter.cloud.isEmpty = memory.motions.isEmpty from cloud_isEmpty fits]
  split
  · exact ⟨fits, rfl⟩
  · exact hscatter.follow (some measured.robot)

theorem Means.advance (h : memory.Means filter) (dt : Float32) :
    (memory.advance dt).Means (filter.withCloud (filter.cloud.advance dt)) := by
  have hdraw := h.draw (Motion.advance dt) id
  rw [List.map_id] at hdraw
  unfold FilterMemory.advance Cloud.advance
  split
  · exact h
  · exact hdraw

/-- Buffers and cloud are weighed alike, or neither agrees with the measurement. -/
theorem Means.weigh (h : memory.Means filter) (measured : Motion) :
    memory.weigh? measured = none ∧ filter.cloud.weigh? filter.noise measured = none ∨
      ∃ weighed cloud, memory.weigh? measured = some weighed ∧
        filter.cloud.weigh? filter.noise measured = some cloud ∧
        weighed.Means { filter with cloud := cloud } := by
  obtain ⟨fits, rfl⟩ := h
  have hlogs : memory.filter.cloud.logWeights memory.noise.precisions measured =
      memory.logWeights measured :=
    List.map_zipWith
  have hlength : (memory.logWeights measured).length = memory.motions.length := by
    rw [FilterMemory.logWeights, List.length_zipWith, fits, Nat.min_self]
  unfold FilterMemory.weigh? Cloud.weigh?
  -- The logarithms are one list, so the two decide alike from here on.
  rw [show memory.filter.noise = memory.noise from rfl, hlogs]
  generalize memory.logWeights measured = logs at hlength
  simp only
  split
  · split
    · exact Or.inl ⟨rfl, rfl⟩
    · refine Or.inr ⟨_, _, rfl, rfl, ?_⟩
      generalize hnew : (logs.map _).map _ = new
      have hnew : new.length = memory.motions.length := by
        rw [← hnew, List.length_map, List.length_map, hlength]
      rw [overwrite_eq (fits.trans hnew.symm)]
      refine ⟨hnew, ?_⟩
      rw [FilterMemory.filter, FilterMemory.cloud, show memory.filter.cloud =
        List.zipWith Particle.mk memory.motions memory.weights from rfl,
        Cloud.withWeights_zip fits hnew]
      rfl
  · exact Or.inl ⟨rfl, rfl⟩

theorem Means.update (h : memory.Means filter) (measured : RobotState)
    (follows : filter.robot = some measured.robot) :
    (memory.update measured).Means
      (filter.withCloud (filter.cloud.update filter.noise measured.toMotion)) := by
  unfold FilterMemory.update Cloud.update
  rcases h.weigh measured.toMotion with
    ⟨hmemory, hcloud⟩ | ⟨weighed, cloud, hmemory, hcloud, hmeans⟩
  · rw [hmemory, hcloud]
    -- To start again from a measurement of the robot that is followed is to scatter the cloud.
    have hreset : filter.reset measured =
        filter.withCloud (filter.cloud.scatter filter.noise measured.toMotion) := by
      unfold ParticleFilter.reset
      by_cases hempty : filter.cloud.isEmpty = true
      · rw [if_pos hempty, ParticleFilter.withCloud, List.isEmpty_iff.mp hempty]
        change filter = { filter with cloud := [] }
        rw [← List.isEmpty_iff.mp hempty]
      · rw [if_neg hempty, ← follows]
        rfl
    have hrestarted := h.reset measured
    rw [hreset] at hrestarted
    exact hrestarted
  · rw [hmemory, hcloud]
    exact hmeans.refresh

theorem Means.predict (h : memory.Means filter) (dt : Float32) :
    (memory.predict dt).Means (filter.predict dt) := by
  unfold FilterMemory.predict ParticleFilter.predict
  rw [h.robot]
  by_cases hsome : filter.robot.isSome = true
  · rw [if_pos hsome, if_pos hsome]
    exact h.advance dt
  · rw [if_neg hsome, if_neg hsome]
    exact h

theorem Means.step (h : memory.Means filter) (measured : RobotState) (dt : Float32) :
    (memory.step measured dt).Means (filter.step measured dt) := by
  unfold FilterMemory.step ParticleFilter.step
  rw [h.robot]
  by_cases hsame : filter.robot = some measured.robot
  · rw [if_pos hsame, if_pos hsame]
    exact (h.advance dt).update measured hsame
  · rw [if_neg hsame, if_neg hsame]
    exact h.reset measured

/-- What a command does to the buffers is what it does to the filter. -/
theorem Means.obey (h : memory.Means filter) (c : FilterCommand) :
    (memory.obey c).Means (Filter.particle.obey filter c) := by
  cases c with
  | reset measured => exact h.reset measured
  | step measured dt => exact h.step measured dt
  | predict dt => exact h.predict dt

/-- What a sequence of commands does to the buffers is what it does to the filter. -/
theorem Means.run (h : memory.Means filter) (commands : List FilterCommand) :
    (memory.run commands).Means (commands.foldl Filter.particle.obey filter) := by
  induction commands generalizing memory filter with
  | nil => exact h
  | cons c rest ih => exact ih (h.obey c)

end FilterMemory

end FireControl
