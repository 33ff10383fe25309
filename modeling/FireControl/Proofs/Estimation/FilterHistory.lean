import FireControl.Proofs.Estimation.Buffers
import FireControl.Proofs.Estimation.CloudShape
import FireControl.Proofs.Estimation.FollowedRobot

/-!
# What a Filter Owes to Its History

A particle filter can be started with any number of particles, again and again, and between its
starts it can be told anything in any order. The numbers of its guesses depend on the generator and
on the last bit of every sum, but some things about it can be told from the calls that it has had:
how many guesses there are, which robot they are about, and which measurement they were scattered
around.

The first two can be told from the calls alone. For the third the filter has to be asked, because
whether a measurement that comes with a step scatters the cloud anew depends on whether any guess
agrees with it. `FilterHistory` keeps these three, and `Tells` says how they show in the filter.

A filter is a list of pairs, but it lies in memory as two buffers, and that these are of one length
is no more than an invariant there. So the calls are made to the buffers as well, from their first
start on, and both are found to have the length that the history says.

## Main definitions

* `FilterCall`, `ParticleFilter.run`: What a filter can be told, and what becomes of it.
* `FilterMemory.told`: What becomes of the buffers.
* `ParticleFilter.scatters`: Whether a step scatters the cloud anew.
* `FilterHistory`: The size, the last measurement and the measurement behind the cloud.
* `FilterHistory.Tells`: How a history shows in the filter.

## Theorems

* `Tells.call`: Every call keeps the history and the filter together.
* `FilterMemory.Means.told`: Every sequence of calls keeps the buffers and the filter together.
* `ParticleFilter.told_by_history`: What holds of the filter after every sequence of calls.
-/

namespace FireControl

/-- What a filter can be told. -/
inductive FilterCall where
  /-- To start with `n` particles. -/
  | init (n : Nat)
  /-- To do what an estimator tells it. -/
  | command (command : FilterCommand)

/-- What is remembered of the calls that a filter has had. -/
structure FilterHistory where
  /-- The number of particles at the last start, zero before the first. -/
  size : Nat
  /-- The last measurement since then. -/
  measured : Option RobotState
  /-- The last measurement since then that the cloud was scattered around. -/
  seed : Option RobotState

/-- The history of a filter that has had no call. -/
def FilterHistory.start : FilterHistory :=
  ⟨0, none, none⟩

/-- How a history shows in the filter. Without particles a filter follows nobody, whatever it was
told. -/
structure FilterHistory.Tells (history : FilterHistory) (filter : ParticleFilter) : Prop where
  size : filter.cloud.length = history.size
  robot : filter.robot =
    if history.size = 0 then none else history.measured.map RobotState.robot
  seed : filter.robot ≠ none →
    ∃ seed, history.seed = some seed ∧ filter.cloud.Shaped seed.heightOffset

theorem FilterHistory.start_tells (settings : EstimatorSettings) (entropy : ChaCha) :
    FilterHistory.start.Tells (ParticleFilter.new settings entropy) :=
  ⟨rfl, rfl, fun hne => absurd rfl hne⟩

variable [ElementaryFunctions]

namespace ParticleFilter

/-- What a call does. A start that fails does nothing. -/
def call (filter : ParticleFilter) : FilterCall → ParticleFilter
  | .init n =>
    match filter.init n with
    | .ok started => started
    | .error _ => filter
  | .command command => Filter.particle.obey filter command

/-- What a sequence of calls does. -/
def run (filter : ParticleFilter) (calls : List FilterCall) : ParticleFilter :=
  calls.foldl call filter

/-- Whether a measurement that comes with a step scatters the cloud anew: it is of another robot, or
no guess agrees with it. -/
def scatters (filter : ParticleFilter) (measured : RobotState) (dt : Float32) : Bool :=
  let moved := filter.withCloud (filter.cloud.advance dt)
  filter.robot != some measured.robot ||
    (moved.cloud.weigh? moved.noise measured.toMotion).isNone

end ParticleFilter

namespace FilterMemory

/-- What a call does to the buffers. A start that fails does nothing. -/
def call (memory : FilterMemory) : FilterCall → FilterMemory
  | .init n =>
    match memory.init n with
    | .ok started => started
    | .error _ => memory
  | .command command => memory.obey command

/-- What a sequence of calls does to the buffers. -/
def told (memory : FilterMemory) (calls : List FilterCall) : FilterMemory :=
  calls.foldl call memory

/-- What a call does to the buffers is what it does to the filter. -/
theorem Means.call {memory : FilterMemory} {filter : ParticleFilter} (h : memory.Means filter)
    (c : FilterCall) : (memory.call c).Means (filter.call c) := by
  cases c with
  | init n =>
      unfold FilterMemory.call ParticleFilter.call
      rcases h.init n with ⟨hmemory, hfilter⟩ | ⟨started, blank, hmemory, hfilter, hmeans⟩
      · simp only [hmemory, hfilter]
        exact h
      · simp only [hmemory, hfilter]
        exact hmeans
  | command command => exact h.obey command

/-- What a sequence of calls does to the buffers is what it does to the filter. -/
theorem Means.told {memory : FilterMemory} {filter : ParticleFilter} (h : memory.Means filter)
    (calls : List FilterCall) : (memory.told calls).Means (filter.run calls) := by
  induction calls generalizing memory filter with
  | nil => exact h
  | cons c rest ih => exact ih (h.call c)

end FilterMemory

namespace FilterHistory

/-- The history after a call to a filter. -/
def after (history : FilterHistory) (filter : ParticleFilter) : FilterCall → FilterHistory
  | .init n => if n = 0 then history else ⟨n, none, none⟩
  | .command (.reset measured) => { history with measured := some measured, seed := some measured }
  | .command (.step measured dt) =>
    { history with
      measured := some measured
      seed := if filter.scatters measured dt then some measured else history.seed }
  | .command (.predict _) => history

/-- The history after a sequence of calls to a filter. -/
def afterAll (history : FilterHistory) (filter : ParticleFilter) : List FilterCall → FilterHistory
  | [] => history
  | c :: rest => (history.after filter c).afterAll (filter.call c) rest

variable {history : FilterHistory} {filter : ParticleFilter}

theorem Tells.init (h : history.Tells filter) (n : Nat) :
    (history.after filter (.init n)).Tells (filter.call (.init n)) := by
  rw [after, ParticleFilter.call, ParticleFilter.init]
  by_cases hn : n = 0
  · rw [if_pos hn, if_pos hn]
    exact h
  · rw [if_neg hn, if_neg hn]
    exact
      { size := List.length_replicate
        robot := (ite_self none).symm
        seed := fun hsome => absurd rfl hsome }

theorem Tells.predict (h : history.Tells filter) (dt : Float32) :
    history.Tells (filter.predict dt) := by
  unfold ParticleFilter.predict
  by_cases hsome : filter.robot.isSome = true
  · rw [if_pos hsome]
    refine ⟨(Cloud.length_advance _ dt _).trans h.size, h.robot, fun hne => ?_⟩
    rcases h.seed hne with ⟨seed, hseed, hshaped⟩
    exact ⟨seed, hseed, Cloud.shaped_advance hshaped dt _⟩
  · rw [if_neg hsome]
    exact h

/-- A cloud that is scattered around a measurement forgets every other one. -/
theorem Tells.reset (h : history.Tells filter) (measured : RobotState) :
    (⟨history.size, some measured, some measured⟩ : FilterHistory).Tells
      (filter.reset measured) := by
  unfold ParticleFilter.reset
  -- Without particles there is nothing to scatter, and no robot is followed either.
  by_cases hempty : filter.cloud.isEmpty = true
  · rw [if_pos hempty]
    have hzero : history.size = 0 := by
      rw [← h.size, List.isEmpty_iff.mp hempty, List.length_nil]
    have hnone : filter.robot = none := by rw [h.robot, if_pos hzero]
    exact ⟨h.size, by rw [hnone, if_pos hzero], fun hne => absurd hnone hne⟩
  · rw [if_neg hempty]
    have hsize : history.size ≠ 0 := by
      rw [← h.size]
      exact fun hzero => hempty (List.isEmpty_iff.mpr (List.eq_nil_of_length_eq_zero hzero))
    exact
      { size := (Cloud.length_scatter _ _ _ _).trans h.size
        robot := (if_neg hsize).symm
        seed := fun _ => ⟨measured, rfl, Cloud.shaped_scatter _ _ measured.toMotion _⟩ }

theorem Tells.step (h : history.Tells filter) (measured : RobotState) (dt : Float32) :
    (history.after filter (.command (.step measured dt))).Tells (filter.step measured dt) := by
  by_cases hsame : filter.robot = some measured.robot
  · have hsize : history.size ≠ 0 := by
      intro hzero
      rw [h.robot, if_pos hzero] at hsame
      exact absurd hsame.symm (Option.some_ne_none _)
    refine ⟨(ParticleFilter.length_step filter measured dt).trans h.size, ?_, fun _ => ?_⟩
    · rw [ParticleFilter.step, if_pos hsame]
      exact hsame.trans (if_neg hsize).symm
    · rcases h.seed (hsame ▸ Option.some_ne_none _) with ⟨seed, hseed, hshaped⟩
      rw [after, ParticleFilter.scatters, ParticleFilter.step, if_pos hsame, hsame,
        bne_self_eq_false, Bool.false_or]
      generalize hmoved : filter.withCloud (filter.cloud.advance dt) = moved
      have hcloud : moved.cloud.Shaped seed.heightOffset := by
        rw [← hmoved]
        exact Cloud.shaped_advance hshaped dt filter.generator
      -- Whether any guess agrees decides which measurement the cloud goes back to.
      have hupdate := Cloud.shaped_update hcloud moved.noise measured.toMotion moved.generator
      by_cases hnone : (moved.cloud.weigh? moved.noise measured.toMotion).isNone = true
      · rw [if_pos hnone] at hupdate
        exact ⟨measured, if_pos hnone, hupdate⟩
      · rw [if_neg hnone] at hupdate
        exact ⟨seed, (if_neg hnone).trans hseed, hupdate⟩
  -- A measurement of another robot, or the first one, is a reset.
  · have hscatters : filter.scatters measured dt = true := by
      rw [ParticleFilter.scatters, bne_iff_ne.mpr hsame, Bool.true_or]
    rw [ParticleFilter.step_of_other measured dt hsame, after, hscatters, if_pos rfl]
    exact h.reset measured

/-- Every call keeps the history and the filter together. -/
theorem Tells.call (h : history.Tells filter) (c : FilterCall) :
    (history.after filter c).Tells (filter.call c) := by
  cases c with
  | init n => exact h.init n
  | command command =>
      cases command with
      | reset measured => exact h.reset measured
      | step measured dt => exact h.step measured dt
      | predict dt => exact h.predict dt

theorem Tells.run (h : history.Tells filter) (calls : List FilterCall) :
    (history.afterAll filter calls).Tells (filter.run calls) := by
  induction calls generalizing history filter with
  | nil => exact h
  | cons c rest ih => exact ih (h.call c)

end FilterHistory

namespace ParticleFilter

/-- What holds of a filter after every sequence of calls. To start it without particles fails and
changes nothing. It has as many particles as at its last start, and in memory its motions and its
weights both fill buffers of that length. It has a mean exactly when it has been started and has had
a measurement since, and the mean is of the robot that was measured last; then every guess has
plausible radii, and all have the height offset of the measurement that the cloud was last scattered
around. -/
theorem told_by_history (settings : EstimatorSettings) (entropy : ChaCha)
    (calls : List FilterCall) :
    let filter := (new settings entropy).run calls
    let memory := (FilterMemory.new settings entropy).told calls
    let history := FilterHistory.start.afterAll (new settings entropy) calls
    (filter.init 0 = .error .noParticles ∧ filter.call (.init 0) = filter) ∧
    filter.cloud.length = history.size ∧
    (memory.filter = filter ∧ memory.motions.length = history.size ∧
      memory.weights.length = history.size) ∧
    (∀ now, (filter.mean now).isSome ↔ history.size ≠ 0 ∧ history.measured.isSome) ∧
    ∀ now state, filter.mean now = some state →
      (∃ measured, history.measured = some measured ∧ state.robot = measured.robot) ∧
      ∃ seed, history.seed = some seed ∧
        ∀ p ∈ filter.cloud, PlausibleRadius p.motion.evenRadius ∧
          PlausibleRadius p.motion.oddRadius ∧ p.motion.heightOffset = seed.heightOffset := by
  intro filter memory history
  -- History and buffers are both kept in step with one filter, and that tells all.
  have h : history.Tells filter := (FilterHistory.start_tells settings entropy).run calls
  have hmeans : memory.Means filter := (FilterMemory.new_means settings entropy).told calls
  have hlength := hmeans.length_eq
  rw [h.size] at hlength
  refine ⟨⟨rfl, rfl⟩, h.size, ⟨hmeans.filter, hlength⟩, fun now => ?_, fun now state hmean => ?_⟩
  · rw [mean, Option.isSome_map, h.robot]
    by_cases hzero : history.size = 0
    · simp [hzero]
    · rw [if_neg hzero, Option.isSome_map]
      exact ⟨fun hsome => ⟨hzero, hsome⟩, And.right⟩
  · rcases Option.map_eq_some_iff.mp hmean with ⟨id, hid, rfl⟩
    constructor
    · have hrobot := hid.symm.trans h.robot
      -- Without particles no robot was followed, and there would have been no mean.
      by_cases hzero : history.size = 0
      · rw [if_pos hzero] at hrobot
        exact absurd hrobot (Option.some_ne_none id)
      · rw [if_neg hzero] at hrobot
        rcases Option.map_eq_some_iff.mp hrobot.symm with ⟨measured, hmeasured, heq⟩
        exact ⟨measured, hmeasured, heq.symm⟩
    · rcases h.seed (hid ▸ Option.some_ne_none id) with ⟨seed, hseed, hshaped⟩
      exact ⟨seed, hseed, fun p hp =>
        ⟨(hshaped p hp).evenRadius, (hshaped p hp).oddRadius, (hshaped p hp).heightOffset⟩⟩

end ParticleFilter

end FireControl
