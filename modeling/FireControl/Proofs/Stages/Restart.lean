import FireControl.Proofs.Stages.Handover

/-!
# When the Filter Starts Again

A new lock is a new target, even where it is the robot that was lost before, and the filter should
start again from it. There are two ways in which it comes to that: the measurement carries the reset
flag, or it is of another robot than the measurement before.

The flag travels on the first state of the lock, and the board keeps the newest state only. Where
the estimator ticks between the first and the second state of a lock, the flag arrives. Where it
does not, the second state takes the place of the first, and the flag is gone. If the robot is
another one the filter starts again none the less; if it is the same robot, lost and found again, it
goes on with what it believed of the robot before. So the filter starts again on every new lock
exactly in the runs in which no lock that returns to a robot has its first state overwritten.

## Main definitions

* `Handover.Successive`: Two measurements that the filter took one after the other.
* `Intake.Restarts`: The filter starts again from a measurement.
* `Handover.RestartsOnNewLocks`: The filter starts again on every new lock.
* `Relayed`: Measurements of a filter that followed the robot of each until the next.

## Theorems

* `restarts_iff_first_or_other`: The filter starts again from the first state of a lock or of
  another robot.
* `run_relayed`: The particle filter follows the robot of the measurement it took last.
* `restartsOnNewLocks_iff`: The filter starts again on every new lock exactly when no first state of
  a lock on the same robot is missed.
* `lockedAgain_not_restartsOnNewLocks`: A run in which one is missed.
-/

namespace FireControl

/-- The filter starts again from the state `now`, after a measurement of the state `before`: it is
told to before it takes the measurement, or it sees that the robot is another one. -/
def Intake.Restarts {φ : Type} (i : Intake φ) (before now : Emission) : Prop :=
  i.commands = [.reset now.state, .step now.state i.dt] ∨ now.state.robot ≠ before.state.robot

namespace Handover

variable {δ φ : Type}

/-- Two states that the filter took one right after the other. -/
structure Successive (h : Handover δ φ) (previous i : Intake φ) (before now : Emission) :
    Prop where
  adjacent : ∃ newer older, h.intakes = newer ++ i :: previous :: older
  before_taken : before.snapshot = previous.taken
  now_taken : now.snapshot = i.taken
  before_mem : before ∈ h.emitted
  now_mem : now ∈ h.emitted

/-- The filter starts again whenever it takes a measurement of a newer lock than the one before. -/
def RestartsOnNewLocks (h : Handover δ φ) : Prop :=
  ∀ previous i before now, h.Successive previous i before now → before.lock < now.lock →
    i.Restarts before now

variable {filter : Filter φ} {h : Handover δ φ} {phase : Phase}

/-- The filter is told to start again exactly by the first state of a lock. -/
theorem commands_eq_iff (kept : Kept filter h phase) (i : Intake φ) (now : Emission)
    (hnow : now ∈ h.emitted) (hsnapshot : now.snapshot = i.taken) :
    i.commands = [.reset now.state, .step now.state i.dt] ↔ now.First h.emitted := by
  rw [← kept.log.reset_iff_first now hnow]
  have hcommands : i.commands = Estimator.commandsFor now.state i.dt := by
    unfold Intake.commands
    rw [← hsnapshot]
    rfl
  rw [hcommands]
  unfold Estimator.commandsFor
  by_cases hreset : now.state.reset = true
  · rw [if_pos hreset]
    exact ⟨fun _ => hreset, fun _ => rfl⟩
  · -- Without the flag there is one command, and not two.
    rw [if_neg hreset]
    exact ⟨fun hc => absurd (List.cons.inj hc).2 (List.cons_ne_nil _ _).symm,
      fun hc => absurd hc hreset⟩

/-- The filter starts again from the first state of a lock or of another robot. -/
theorem restarts_iff_first_or_other (kept : Kept filter h phase) (previous i : Intake φ)
    (before now : Emission) (successive : h.Successive previous i before now) :
    i.Restarts before now ↔
      now.First h.emitted ∨ now.state.robot ≠ before.state.robot := by
  unfold Intake.Restarts
  rw [commands_eq_iff kept i now successive.now_mem successive.now_taken]

/-- Measurements that were taken one right after the other are states that the tracker gave. -/
theorem exists_successive (kept : Kept filter h phase) (newer older : List (Intake φ))
    (i previous : Intake φ) (hintakes : h.intakes = newer ++ i :: previous :: older) :
    ∃ before now, h.Successive previous i before now := by
  have hi : i ∈ h.intakes := by
    rw [hintakes]
    exact List.mem_append_right newer List.mem_cons_self
  have hprevious : previous ∈ h.intakes := by
    rw [hintakes]
    exact List.mem_append_right newer (List.mem_cons_of_mem i List.mem_cons_self)
  rcases kept.origin i hi with ⟨now, hnow, hsnapshot⟩
  rcases kept.origin previous hprevious with ⟨before, hbefore, hbefore'⟩
  exact ⟨before, now, ⟨newer, older, hintakes⟩, hbefore', hsnapshot, hbefore, hnow⟩

end Handover

/-- Measurements of a particle filter, the newest first, each of which found the filter following
the robot of the one before. -/
inductive Relayed : List (Intake ParticleFilter) → Option RobotId → Prop
  | nil : Relayed [] none
  | cons (i : Intake ParticleFilter) (older : List (Intake ParticleFilter)) (id : Option RobotId)
      (relayed : Relayed older id) (followed : i.before.robot = id) :
      Relayed (i :: older) (some i.taken.value.robot)

theorem Relayed.robot_eq {newer older : List (Intake ParticleFilter)}
    {i previous : Intake ParticleFilter} {id : Option RobotId}
    (h : Relayed (newer ++ i :: previous :: older) id) :
    i.before.robot = some previous.taken.value.robot := by
  induction newer generalizing id with
  | nil =>
      cases h with
      | cons _ _ _ relayed followed =>
          cases relayed with
          | cons _ _ _ _ _ => exact followed
  | cons first rest ih =>
      cases h with
      | cons _ _ _ relayed followed => exact ih relayed

namespace Handover

section Run

variable {δ : Type} [ElementaryFunctions] (detector : Detector δ)
  {h : Handover δ ParticleFilter}

/-- A tick takes over the robot of the measurement, or it keeps the one that is followed. -/
theorem tick_relayed {id : Option RobotId} (relayed : Relayed h.intakes id)
    (following : h.estimator.filter.Following id) (dt : Float32) (now : Instant) :
    ∃ next, Relayed (h.tick Filter.particle dt now).intakes next ∧
      (h.tick Filter.particle dt now).estimator.filter.Following next := by
  have hfilter : (h.estimator.tick Filter.particle h.board dt now).2.filter =
      (Estimator.commands (h.estimator.cursor.poll h.board.raw).1 dt).foldl Filter.particle.obey
        h.estimator.filter := rfl
  unfold tick
  generalize h.estimator.tick Filter.particle h.board dt now = outcome at hfilter
  -- With no news the filter predicts and keeps its robot; else it takes the snapshot's.
  cases hpoll : (h.estimator.cursor.poll h.board.raw).1 with
  | none =>
      rw [hpoll] at hfilter
      refine ⟨id, relayed, ?_⟩
      change outcome.2.filter.Following id
      rw [hfilter]
      exact ParticleFilter.following_predict following dt
  | some taken =>
      rw [hpoll] at hfilter
      refine ⟨some taken.value.robot, Relayed.cons _ h.intakes id relayed following.robot, ?_⟩
      change outcome.2.filter.Following (some taken.value.robot)
      rw [hfilter]
      exact ParticleFilter.following_commands following taken.value dt

/-- A frame does not reach the filter. -/
theorem frame_intakes {φ : Type} (h : Handover δ φ) (view : View) :
    (h.frame detector view).intakes = h.intakes ∧
      (h.frame detector view).estimator = h.estimator := by
  unfold frame
  generalize h.watch.next detector view = outcome
  rcases outcome with ⟨⟨event, state⟩, watch⟩
  cases state with
  | none => exact ⟨rfl, rfl⟩
  | some s => exact ⟨rfl, rfl⟩

/-- The particle filter follows the robot of the measurement that it took last. -/
theorem run_relayed {id : Option RobotId} (relayed : Relayed h.intakes id)
    (following : h.estimator.filter.Following id) (steps : List HandoverStep) :
    ∃ last, Relayed (h.run detector Filter.particle steps).intakes last := by
  induction steps generalizing h id with
  | nil => exact ⟨id, relayed⟩
  -- A frame touches neither the intakes nor the filter; a tick hands on the robot it takes.
  | cons step rest ih =>
      cases step with
      | frame view =>
          rcases frame_intakes detector h view with ⟨hintakes, hestimator⟩
          have hrelayed : Relayed (h.frame detector view).intakes id := by
            rw [hintakes]
            exact relayed
          have hfollowing : (h.frame detector view).estimator.filter.Following id := by
            rw [hestimator]
            exact following
          exact ih hrelayed hfollowing
      | tick dt now =>
          rcases tick_relayed relayed following dt now with ⟨next, hnext, hfollowing⟩
          exact ih hnext hfollowing

/-- The filter starts again on every new lock exactly when no first state of a lock on the same
robot is missed, whatever order frames and ticks come in.

The records say what they should: of two measurements taken one after the other, both are states
that the tracker gave, and what became of the filter is what it was told. The particle filter
follows the robot of the measurement before, so that it starts again from a measurement of another
robot although it is not told to. -/
theorem restartsOnNewLocks_iff (settings : TrackerSettings) (model : δ)
    (steps : List HandoverStep) :
    (∀ (φ : Type) (filter : Filter φ) (start : φ),
      let h := (new settings model start).run detector filter steps
      (∀ (newer older : List (Intake φ)) (i previous : Intake φ),
        h.intakes = newer ++ i :: previous :: older →
          ∃ before now, h.Successive previous i before now) ∧
      (∀ i ∈ h.intakes, i.after = i.commands.foldl filter.obey i.before) ∧
      (h.RestartsOnNewLocks ↔
        ∀ previous i before now, h.Successive previous i before now → before.lock < now.lock →
          now.state.robot = before.state.robot → now.First h.emitted)) ∧
    ∀ (fresh started : ParticleFilter) (n : Nat), fresh.init n = .ok started →
      let h := (new settings model started).run detector Filter.particle steps
      ∀ previous i before now, h.Successive previous i before now →
        i.before.robot = some before.state.robot ∧
        (now.state.robot ≠ before.state.robot →
          i.before.step now.state i.dt = i.before.reset now.state) := by
  refine ⟨fun φ filter start => ?_, fun fresh started n hinit => ?_⟩
  · intro h
    rcases run_kept detector (new_kept filter settings model start) steps with ⟨phase, hkept⟩
    -- By the kept invariant a restart is ordered exactly for the first state of a lock or for
    -- another robot; the second cannot be lost, so only the first is in question.
    refine ⟨exists_successive hkept, hkept.obeyed, ?_⟩
    constructor
    · intro hrestarts previous i before now hsuccessive hlock hsame
      rcases (restarts_iff_first_or_other hkept previous i before now hsuccessive).mp
        (hrestarts previous i before now hsuccessive hlock) with hfirst | hother
      · exact hfirst
      · exact absurd hsame hother
    · intro hfirst previous i before now hsuccessive hlock
      rw [restarts_iff_first_or_other hkept previous i before now hsuccessive]
      by_cases hsame : now.state.robot = before.state.robot
      · exact Or.inl (hfirst previous i before now hsuccessive hlock hsame)
      · exact Or.inr hsame
  · intro h previous i before now hsuccessive
    -- The particle filter remembers the robot of the state that it took last.
    have hstarted : started.Following none := ParticleFilter.following_init fresh started n hinit
    have hrun : ∃ last, Relayed h.intakes last :=
      run_relayed detector (h := new settings model started) Relayed.nil hstarted steps
    rcases hrun with ⟨last, hrelayed⟩
    rcases hsuccessive.adjacent with ⟨newer, older, hintakes⟩
    have hrobot : i.before.robot = some before.state.robot := by
      rw [hintakes] at hrelayed
      rw [hrelayed.robot_eq, ← hsuccessive.before_taken]
      rfl
    refine ⟨hrobot, fun hother => ParticleFilter.step_of_other now.state i.dt ?_⟩
    rw [hrobot]
    exact fun hc => hother (Option.some.inj hc).symm

end Run

/-- A plate of robot 1, four metres ahead. -/
def plateAhead : Detection :=
  { robot := ⟨1⟩, corners := default, confidence := 1, place := (Vec3.mk 0 0 4).bits, yaw := 0 }

/-- A detection model that sees the plate in every image that has any width. -/
def plateInLight : Detector Unit where
  detect := fun _ frame => (if frame.width = 0 then [] else [plateAhead], ())
  estimatePose := fun _ ds => (ds, ())

/-- An image taken after some seconds, in which the plate is seen or not. -/
def image (seen : Bool) (seconds : Nat) : HandoverStep :=
  .frame ⟨⟨⟨seconds * 1000000000⟩, if seen then 640 else 0, 480, .empty⟩, none⟩

/-- Robot 1 is seen and measured, lost for longer than its grace period, and seen twice before the
estimator ticks again. -/
def lockedAgain : List HandoverStep :=
  [image true 0, .tick 0.01 ⟨1⟩, image false 2, image true 3, image true 4, .tick 0.01 ⟨4000000001⟩]

/-- A particle filter that has just started. -/
def freshFilter : ParticleFilter :=
  { ParticleFilter.new default (ChaCha.ofSeed 7) with cloud := Cloud.blank 512 }

/-- The run, with the default settings. -/
def afterLockedAgain : Handover Unit ParticleFilter :=
  @run _ _ .native plateInLight (@Filter.particle .native) (new default () freshFilter) lockedAgain

set_option maxRecDepth 4096 in
theorem afterLockedAgain_emitted :
    afterLockedAgain.emitted.map (fun e => (e.version, e.lock, e.state.robot, e.state.reset)) =
      [(3, 2, ⟨1⟩, false), (2, 2, ⟨1⟩, true), (1, 1, ⟨1⟩, true)] := by
  decide +kernel

set_option maxRecDepth 4096 in
theorem afterLockedAgain_intakes :
    afterLockedAgain.intakes.map (fun i => i.taken.version) = [3, 1] := by
  decide +kernel

theorem afterLockedAgain_labels (e : Emission) (he : e ∈ afterLockedAgain.emitted) :
    (e.version, e.lock, e.state.robot, e.state.reset) ∈
      [(3, 2, (⟨1⟩ : RobotId), false), (2, 2, ⟨1⟩, true), (1, 1, ⟨1⟩, true)] := by
  rw [← afterLockedAgain_emitted]
  exact List.mem_map_of_mem he

/-- The filter takes the second state of the second lock and is not told to start again. -/
theorem lockedAgain_not_restartsOnNewLocks : ¬ afterLockedAgain.RestartsOnNewLocks := by
  intro hrestarts
  rcases @run_kept _ _ _ _ _ .native plateInLight
    (new_kept (@Filter.particle .native) default () freshFilter) lockedAgain with ⟨phase, hkept⟩
  change Kept _ afterLockedAgain phase at hkept
  rcases List.map_eq_cons_iff.mp afterLockedAgain_intakes with ⟨i, _, hi, hthree, hrest⟩
  rcases List.map_eq_cons_iff.mp hrest with ⟨previous, older, rfl, hone, _⟩
  rcases exists_successive hkept [] older i previous hi with ⟨before, now, hsuccessive⟩
  have hnow : now.lock = 2 ∧ now.state.robot = ⟨1⟩ ∧ now.state.reset = false := by
    have hversion : now.version = 3 :=
      (congrArg Versioned.version hsuccessive.now_taken).trans hthree
    simpa [hversion] using afterLockedAgain_labels now hsuccessive.now_mem
  have hbefore : before.lock = 1 ∧ before.state.robot = ⟨1⟩ ∧ before.state.reset = true := by
    have hversion : before.version = 1 :=
      (congrArg Versioned.version hsuccessive.before_taken).trans hone
    simpa [hversion] using afterLockedAgain_labels before hsuccessive.before_mem
  -- The locks are the first and the second, both on robot 1, and no flag came with the second.
  have hlock : before.lock < now.lock := by
    rw [hbefore.1, hnow.1]
    exact Nat.one_lt_two
  rcases (restarts_iff_first_or_other hkept previous i before now hsuccessive).mp
    (hrestarts previous i before now hsuccessive hlock) with hfirst | hother
  · rw [← hkept.log.reset_iff_first now hsuccessive.now_mem, hnow.2.2] at hfirst
    exact absurd hfirst Bool.false_ne_true
  · exact hother (hnow.2.1.trans hbefore.2.1.symm)

end Handover

end FireControl
