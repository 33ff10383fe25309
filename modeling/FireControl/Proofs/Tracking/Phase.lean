import FireControl.Tracking.Tracker
import FireControl.Proofs.Tracking.FusedState
import FireControl.Proofs.Tracking.LockCycle

/-!
# Phases of the Tracker

Three things that are kept apart have to stay in step: the robot that the lock holds, the state that
the fuser remembers, and the reset flag that waits for a state to carry it. Together they are in one
of three phases. Either no robot is held, nothing is remembered and nothing waits; or a robot is
held of which nothing has been fused yet, and the flag waits; or a robot is held and remembered, and
the flag is spent.

Phases have a dynamics of their own, which needs neither groups nor plates nor any arithmetic. The
event of a frame moves to a phase: to the start of a robot, to no robot, or nowhere. Then the phase
may give a state: none where no robot is held; none or the one marked state where the flag waits;
always an unmarked one afterwards. `processFrame_step` says that the tracker follows these dynamics
frame by frame, whatever the detection model finds.

## Main definitions

* `LockEvent.Follows`: An event that can happen while a given robot, or none, is held.
* `Phase`: How far the tracker has come with a robot.
* `Phase.hear`: The phase after the event of a frame.
* `Phase.Gives`: What a phase can give, and the phase after it.
* `Phase.Step`: What a frame can do to a phase.
* `Tracker.InPhase`: The phase that a tracker is in.
* `Tracker.chosen`: The plates of a frame that the lock hands on to fusion.

## Theorems

* `Cycle.follows`: The lock reports what can happen.
* `new_inPhase`: A tracker that has seen nothing holds no robot.
* `apply_inPhase`: The event of a frame moves the tracker as it moves the phase.
* `fuse_inPhase`: Fusion gives what the phase can give.
* `processFrame_step`: A frame does to the tracker what it can do to the phase.
* `processFrame_isSome`: A frame from which one or two plates are chosen gives a state.
-/

namespace FireControl

/-- An event that can happen while the robot `held`, or none, is held. -/
def LockEvent.Follows (held : Option RobotId) : LockEvent → Prop
  | .acquired _ previous => previous = held
  | .tracking id => held = some id
  | .coasting id _ => held = some id
  | .lost id => held = some id
  | .idle => held = none

/-- The lock reports what can happen to it. -/
theorem TargetLock.Cycle.follows {lock after : TargetLock} {groups : List Group} {dt : Float}
    {selection : Selection} (h : Cycle lock groups dt selection after) :
    selection.event.Follows lock.target := by
  cases h with
  | take g free nearest => exact free.symm
  | rest free nobody => exact free
  | see id g held seen => exact held
  | wait id held unseen grace => exact held
  | exchange id g held unseen spent nearest => exact held.symm
  | lose id held unseen spent nobody => exact held

/-- How far the tracker has come with a robot. -/
inductive Phase where
  /-- No robot is held. -/
  | free
  /-- A robot is held, and no state of it has been fused yet. -/
  | waiting (id : RobotId)
  /-- A robot is held, and a state of it has been fused. -/
  | following (id : RobotId)
deriving DecidableEq

namespace Phase

/-- The robot that is held. -/
def target : Phase → Option RobotId
  | .free => none
  | .waiting id => some id
  | .following id => some id

/-- The robot that is remembered. -/
def known : Phase → Option RobotId
  | .free => none
  | .waiting _ => none
  | .following id => some id

/-- Whether the next fused state has to carry the reset flag. -/
def owesReset : Phase → Bool
  | .free => false
  | .waiting _ => true
  | .following _ => false

/-- The phase after the event of a frame. -/
def hear (phase : Phase) : LockEvent → Phase
  | .acquired id _ => .waiting id
  | .lost _ => .free
  | .tracking _ => phase
  | .coasting _ _ => phase
  | .idle => phase

/-- What a phase can give in a frame, and the phase after it. -/
inductive Gives (time : Instant) : Phase → Option RobotState → Phase → Prop
  /-- Without a robot there is nothing to give. -/
  | idle : Gives time .free none .free
  /-- Nothing can be fused yet. -/
  | nothing (id : RobotId) : Gives time (.waiting id) none (.waiting id)
  /-- The first state of a robot carries the reset flag. -/
  | first (id : RobotId) (s : RobotState) (robot : s.robot = id) (sameTime : s.time = time)
      (marked : s.reset = true) : Gives time (.waiting id) (some s) (.following id)
  /-- All later states do not. -/
  | again (id : RobotId) (s : RobotState) (robot : s.robot = id) (sameTime : s.time = time)
      (unmarked : s.reset = false) : Gives time (.following id) (some s) (.following id)

/-- What a frame can do to a phase. -/
structure Step (time : Instant) (phase : Phase) (report : TrackingReport) (next : Phase) :
    Prop where
  follows : report.event.Follows phase.target
  gives : Gives time (phase.hear report.event) report.state next

/-- The robot that is remembered is the one that is held. -/
theorem target_of_known (phase : Phase) (id : RobotId) (h : phase.known = some id) :
    phase.target = some id := by
  cases phase with
  | free => exact h
  | waiting held => exact absurd h.symm (Option.some_ne_none id)
  | following held => exact h

/-- The reset flag waits exactly where a robot is held and none is remembered. -/
theorem owesReset_iff (phase : Phase) :
    phase.owesReset = true ↔ phase.target.isSome = true ∧ phase.known = none := by
  cases phase with
  | free => exact ⟨fun h => absurd h Bool.false_ne_true, fun h => absurd h.1 Bool.false_ne_true⟩
  | waiting id => exact ⟨fun _ => ⟨rfl, rfl⟩, fun _ => rfl⟩
  | following id =>
      exact ⟨fun h => absurd h Bool.false_ne_true, fun h => absurd h.2 (Option.some_ne_none id)⟩

/-- An event that can happen holds the robot that the phase after it holds. -/
theorem hear_target (phase : Phase) (event : LockEvent) (h : event.Follows phase.target) :
    (phase.hear event).target = event.target := by
  cases event with
  | acquired id previous => rfl
  | tracking id => exact h
  | coasting id ttl => exact h
  | lost id => rfl
  | idle => exact h

/-- An event that changes nothing leaves the phase as it is. -/
theorem hear_of_not_changes (phase : Phase) (event : LockEvent) (h : ¬ event.Changes) :
    phase.hear event = phase := by
  cases event with
  | acquired id previous => exact absurd trivial h
  | tracking id => rfl
  | coasting id ttl => rfl
  | lost id => exact absurd trivial h
  | idle => rfl

variable {time : Instant} {phase next : Phase}

/-- Giving a state changes nothing about which robot is held. -/
theorem Gives.target_eq {state : Option RobotState} (h : Gives time phase state next) :
    next.target = phase.target := by
  cases h with
  | idle => rfl
  | nothing id => rfl
  | first id s robot sameTime marked => rfl
  | again id s robot sameTime unmarked => rfl

/-- A state is of the robot that is held, and of the time of the frame. -/
theorem Gives.state_eq {s : RobotState} (h : Gives time phase (some s) next) :
    next.target = some s.robot ∧ s.time = time := by
  cases h with
  | first id s robot sameTime marked => exact ⟨congrArg some robot.symm, sameTime⟩
  | again id s robot sameTime unmarked => exact ⟨congrArg some robot.symm, sameTime⟩

theorem Step.target_eq {report : TrackingReport} (h : Step time phase report next) :
    next.target = report.event.target :=
  h.gives.target_eq.trans (hear_target phase report.event h.follows)

end Phase

namespace Tracker

/-- The phase that a tracker is in: what it holds, remembers and owes. -/
structure InPhase (tracker : Tracker) (phase : Phase) : Prop where
  target : tracker.lock.target = phase.target
  known : tracker.fuser.previous.map RobotState.robot = phase.known
  owes : tracker.pendingReset = phase.owesReset

/-- A tracker that has seen nothing holds no robot. -/
theorem new_inPhase (ttlMax : Float) (defaultRadius minConfidence : Float32) :
    (new ttlMax defaultRadius minConfidence).InPhase .free :=
  ⟨rfl, rfl, rfl⟩

/-- The event of a frame moves the tracker as it moves the phase. -/
theorem apply_inPhase (tracker : Tracker) (phase : Phase) (event : LockEvent)
    (follows : event.Follows phase.target) (target : tracker.lock.target = event.target)
    (known : tracker.fuser.previous.map RobotState.robot = phase.known)
    (owes : tracker.pendingReset = phase.owesReset) :
    (tracker.apply event).InPhase (phase.hear event) := by
  cases event with
  | acquired id previous =>
      -- Whether a robot was given up or not, everything about it is forgotten.
      cases previous with
      | none => exact ⟨target, rfl, rfl⟩
      | some dropped => exact ⟨target, rfl, rfl⟩
  | tracking id => exact ⟨target.trans follows.symm, known, owes⟩
  | coasting id ttl => exact ⟨target.trans follows.symm, known, owes⟩
  | lost id => exact ⟨target, rfl, rfl⟩
  | idle => exact ⟨target.trans follows.symm, known, owes⟩

variable [ElementaryFunctions]

/-- Fusion gives what the phase can give, as long as all plates are of the robot that is held. -/
theorem fuse_inPhase (tracker : Tracker) (phase : Phase) (h : tracker.InPhase phase)
    (armors : List Detection) (own : ∀ d ∈ armors, phase.target = some d.robot)
    (time : Instant) :
    ∃ next, Phase.Gives time phase (tracker.fuse armors time).1 next ∧
      (tracker.fuse armors time).2.InPhase next := by
  have houtcome := Fuser.fuse_outcome tracker.fuser armors time
  unfold fuse
  generalize tracker.fuser.fuse armors time = outcome at houtcome
  rcases h with ⟨htarget, hknown, howes⟩
  cases houtcome with
  | learn state plate last robot sameTime unmarked =>
      have hplate : plate ∈ armors := List.mem_of_getLast? last
      have hnonempty : armors.isEmpty = false := by
        cases armors with
        | nil => exact absurd hplate List.not_mem_nil
        | cons d rest => rfl
      -- The new state is of the robot that is held, so the phase is not free.
      have hheld : phase.target = some state.robot := robot.symm ▸ own plate hplate
      cases phase with
      | free => exact absurd hheld.symm (Option.some_ne_none state.robot)
      | waiting id =>
          have hid : state.robot = id := (Option.some.inj hheld).symm
          have hpending : tracker.pendingReset = true := howes
          simp only [hpending, hnonempty, Bool.not_false, Bool.and_true, if_true]
          exact ⟨.following id, .first id _ hid sameTime rfl, htarget, congrArg some hid, rfl⟩
      | following id =>
          have hid : state.robot = id := (Option.some.inj hheld).symm
          have hpending : tracker.pendingReset = false := howes
          simp only [hpending, Bool.false_and, Bool.false_eq_true, if_false]
          exact ⟨.following id, .again id state hid sameTime unmarked, htarget,
            congrArg some hid, rfl⟩
  | repeated state remembered =>
      -- Something is remembered, so the flag is spent and the state is given unmarked.
      rw [remembered] at hknown
      cases phase with
      | free => exact absurd hknown (Option.some_ne_none state.robot)
      | waiting id => exact absurd hknown (Option.some_ne_none state.robot)
      | following id =>
          have hid : state.robot = id := Option.some.inj hknown
          have hpending : tracker.pendingReset = false := howes
          simp only [hpending, Bool.false_and, Bool.false_eq_true, if_false]
          exact ⟨.following id, .again id _ hid rfl rfl, htarget,
            by rw [remembered]; exact hknown, rfl⟩
  | miss forgotten =>
      -- Nothing is remembered, so no state has been fused of the robot yet.
      rw [forgotten] at hknown
      cases phase with
      | free => exact ⟨.free, .idle, htarget, by rw [forgotten]; exact hknown, howes⟩
      | waiting id =>
          exact ⟨.waiting id, .nothing id, htarget, by rw [forgotten]; exact hknown, howes⟩
      | following id => exact absurd hknown.symm (Option.some_ne_none id)

/-- What is done with the plates of a frame is what can be done to the phase. -/
theorem observe_step (tracker : Tracker) (phase : Phase) (h : tracker.InPhase phase)
    (time : Instant) (latest : Option Orientation) (ds : List Detection) :
    ∃ next, phase.Step time (tracker.observe time latest ds).1 next ∧
      (tracker.observe time latest ds).2.InPhase next := by
  have hcycle := TargetLock.update_cycle tracker.lock (Group.ofDetections ds) (tracker.elapsed time)
  unfold observe
  generalize tracker.lock.update (Group.ofDetections ds) (tracker.elapsed time) = outcome at hcycle
  rcases outcome with ⟨selection, lock⟩
  have hfollows : selection.event.Follows phase.target := h.target ▸ hcycle.follows
  have hchosen := apply_inPhase { tracker with lock := lock, lastFrame := some time } phase
    selection.event hfollows hcycle.target_eq h.known h.owes
  -- The plates keep their robot on the way to the world frame.
  have hown : ∀ d ∈ selection.armors.map (Detection.toWorld latest),
      (phase.hear selection.event).target = some d.robot := by
    intro d hd
    rcases List.mem_map.mp hd with ⟨plate, hplate, rfl⟩
    rw [Phase.hear_target phase selection.event hfollows, ← hcycle.target_eq]
    exact hcycle.armors_robot (Group.filed_of_mem_ofDetections ds) plate hplate
  rcases fuse_inPhase _ _ hchosen _ hown time with ⟨next, hgives, hnext⟩
  exact ⟨next, ⟨hfollows, hgives⟩, hnext⟩

/-- A frame does to the tracker what it can do to the phase. -/
theorem processFrame_step {δ : Type} (detector : Detector δ) (tracker : Tracker) (phase : Phase)
    (h : tracker.InPhase phase) (model : δ) (frame : Frame) (latest : Option Orientation) :
    ∃ next, phase.Step frame.time (tracker.processFrame detector model frame latest).1 next ∧
      (tracker.processFrame detector model frame latest).2.1.InPhase next :=
  observe_step tracker phase h frame.time latest _

/-- The plates of a frame that the lock hands on to fusion. -/
def chosen {δ : Type} (detector : Detector δ) (tracker : Tracker) (model : δ) (frame : Frame) :
    List Detection :=
  let (found, seen) := detector.detect model frame
  let refined := Detection.refine frame.width frame.height tracker.minConfidence found
  let posed := (detector.estimatePose seen refined).1
  (tracker.lock.update (Group.ofDetections posed) (tracker.elapsed frame.time)).1.armors

/-- A state that was fused is given, with the reset flag or without it. -/
theorem fuse_isSome (tracker : Tracker) (armors : List Detection) (time : Instant)
    (h : armors.length = 1 ∨ armors.length = 2) : (tracker.fuse armors time).1.isSome = true := by
  have hfused := Fuser.fuse_isSome tracker.fuser armors time h
  unfold fuse
  generalize tracker.fuser.fuse armors time = outcome at hfused
  rcases outcome with ⟨fused, fuser⟩
  cases fused with
  | none => exact absurd hfused Bool.false_ne_true
  | some state =>
      simp only
      split
      · rfl
      · rfl

/-- A frame from which one or two plates are chosen gives a state. -/
theorem processFrame_isSome {δ : Type} (detector : Detector δ) (tracker : Tracker) (model : δ)
    (frame : Frame) (latest : Option Orientation)
    (h : (tracker.chosen detector model frame).length = 1 ∨
      (tracker.chosen detector model frame).length = 2) :
    (tracker.processFrame detector model frame latest).1.state.isSome = true := by
  rw [← List.length_map (Detection.toWorld latest)] at h
  exact fuse_isSome _ _ frame.time h

end Tracker

end FireControl
