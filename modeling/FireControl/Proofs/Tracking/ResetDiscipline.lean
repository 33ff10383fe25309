import FireControl.Exchange.Counters
import FireControl.Stages.Perceiver
import FireControl.Proofs.Tracking.Phase

/-!
# The Reset Discipline

The filter behind the tracker starts again from a state that carries the reset flag, so the flag has
to stand on the right states: on the first state of every robot that the lock takes, and on no other
one. It may take a while until there is such a state, because a frame can show too few plates of the
robot or too many; once there is one, every frame of the lock gives a state, seen or repeated.

The stage is followed through a run of frames together with its counters. `processFrame_step` says
what each frame does to the phase of the tracker, and the claims about the whole run are read off
the phases: an invariant by induction on the frames so far, and the flags of the states of one lock
by induction on the frames that follow its first.

## Main definitions

* `View`: A frame, and the orientation that is known when it is processed.
* `Watch`: The perception stage at work, with the counters.
* `Watch.run`, `Watch.reports`: A run of frames, and what they gave.
* `OpensWithReset`: The states of a lock, of which exactly the first carries the flag.

## Theorems

* `recordTracking_balance`: The targets taken and not given up are the one that is held.
* `next_step`: A frame does to a stage at work what it can do to the phase.
* `run_inPhase`: After every run the stage is in some phase.
* `reports_following`: Once a robot is remembered, every frame gives a state without the flag.
* `opens_of_gives`: The states of a lock open with a reset.
* `reset_discipline`: The flag stands on the first state of a robot and on no other.
-/

namespace FireControl

/-- One for a robot that is held, and zero for none. -/
def holding (target : Option RobotId) : Nat :=
  if target.isSome then 1 else 0

/-- The targets taken and not given up are the one that is held. -/
theorem Counters.recordTracking_balance (c : Counters) (event : LockEvent)
    (held : Option RobotId) (follows : event.Follows held)
    (balance : c.targetsAcquired = c.targetsLost + holding held) :
    (c.recordTracking event).targetsAcquired =
      (c.recordTracking event).targetsLost + holding event.target := by
  cases event with
  | acquired id previous =>
      -- One more is taken, and the one that was held, if any, is given up.
      have hprevious : previous = held := follows
      subst hprevious
      change c.targetsAcquired + 1 = c.targetsLost + holding previous + 1
      rw [balance]
  | tracking id =>
      have hheld : held = some id := follows
      rw [hheld] at balance
      exact balance
  | coasting id ttl =>
      have hheld : held = some id := follows
      rw [hheld] at balance
      exact balance
  | lost id =>
      have hheld : held = some id := follows
      rw [hheld] at balance
      exact balance
  | idle =>
      have hheld : held = none := follows
      rw [hheld] at balance
      exact balance

/-- A frame, and the orientation that is known when it is processed. -/
structure View where
  frame : Frame
  latest : Option Orientation

/-- The perception stage at work, with the counters. -/
structure Watch (δ : Type) where
  stage : Perceiver δ
  counters : Counters

/-- The states of consecutive frames of a lock: none for a while, then one that carries the reset
flag, then one without it in every frame. -/
inductive OpensWithReset : List (Option RobotState) → Prop
  /-- No state has come yet. -/
  | silent (n : Nat) : OpensWithReset (List.replicate n none)
  /-- A first state has come after `n` frames. -/
  | marked (n : Nat) (first : RobotState) (later : List RobotState) (reset : first.reset = true)
      (unmarked : ∀ s ∈ later, s.reset = false) :
      OpensWithReset (List.replicate n none ++ some first :: later.map some)

theorem OpensWithReset.cons_none {states : List (Option RobotState)} (h : OpensWithReset states) :
    OpensWithReset (none :: states) := by
  cases h with
  | silent n => exact OpensWithReset.silent (n + 1)
  | marked n first later reset unmarked =>
      exact OpensWithReset.marked (n + 1) first later reset unmarked

namespace Watch

variable {δ : Type}

/-- A stage that has seen nothing, with counters at zero. -/
def new (settings : TrackerSettings) (model : δ) : Watch δ :=
  ⟨Perceiver.new settings model, .zero⟩

/-- A stage at work is in a phase: its tracker is, and the counters agree with it. -/
structure InPhase (watch : Watch δ) (phase : Phase) : Prop where
  tracker : watch.stage.tracker.InPhase phase
  balance : watch.counters.targetsAcquired = watch.counters.targetsLost + holding phase.target

theorem new_inPhase (settings : TrackerSettings) (model : δ) : (new settings model).InPhase .free :=
  ⟨Tracker.new_inPhase settings.ttl settings.defaultRadius settings.minConfidence, rfl⟩

variable [ElementaryFunctions] (detector : Detector δ)

/-- One frame: what it gave, and the stage after it. -/
def next (watch : Watch δ) (view : View) : TrackingReport × Watch δ :=
  let (report, stage) := watch.stage.process detector view.frame view.latest
  (report, ⟨stage, watch.counters.recordTracking report.event⟩)

/-- The stage after a run of frames. -/
def run (watch : Watch δ) (views : List View) : Watch δ :=
  views.foldl (fun watch view => (watch.next detector view).2) watch

/-- What the frames of a run gave. -/
def reports (watch : Watch δ) : List View → List TrackingReport
  | [] => []
  | view :: rest =>
    (watch.next detector view).1 :: reports (watch.next detector view).2 rest

/-- A frame does to a stage at work what it can do to the phase. -/
theorem next_step (watch : Watch δ) (phase : Phase) (h : watch.InPhase phase) (view : View) :
    ∃ next, phase.Step view.frame.time (watch.next detector view).1 next ∧
      (watch.next detector view).2.InPhase next := by
  rcases Tracker.processFrame_step detector watch.stage.tracker phase h.tracker watch.stage.model
    view.frame view.latest with ⟨next, hstep, hnext⟩
  refine ⟨next, hstep, hnext, ?_⟩
  rw [hstep.target_eq]
  exact Counters.recordTracking_balance watch.counters _ phase.target hstep.follows h.balance

/-- After every run the stage is in some phase. -/
theorem run_inPhase (watch : Watch δ) (phase : Phase) (h : watch.InPhase phase)
    (views : List View) : ∃ last, (watch.run detector views).InPhase last := by
  induction views generalizing watch phase with
  | nil => exact ⟨phase, h⟩
  | cons view rest ih =>
      rcases next_step detector watch phase h view with ⟨next, _, hnext⟩
      exact ih (watch.next detector view).2 next hnext

/-- Once a robot is remembered, every frame of its lock gives a state without the flag. -/
theorem reports_following (watch : Watch δ) (id : RobotId) (h : watch.InPhase (.following id))
    (views : List View) (same : ∀ r ∈ watch.reports detector views, ¬ r.event.Changes) :
    ∃ states : List RobotState,
      (watch.reports detector views).map TrackingReport.state = states.map some ∧
        ∀ s ∈ states, s.reset = false := by
  induction views generalizing watch with
  | nil => exact ⟨[], rfl, fun s hs => absurd hs List.not_mem_nil⟩
  | cons view rest ih =>
      rcases next_step detector watch (.following id) h view with ⟨next, ⟨_, hgives⟩, hnext⟩
      rw [Phase.hear_of_not_changes _ _ (same _ List.mem_cons_self)] at hgives
      -- A phase that follows a robot can only give a state, and follows it afterwards.
      generalize hstate : (watch.next detector view).1.state = state at hgives
      cases hgives with
      | again _ s robot sameTime unmarked =>
          rcases ih (watch.next detector view).2 hnext
            (fun r hr => same r (List.mem_cons_of_mem _ hr)) with ⟨states, hstates, hunmarked⟩
          refine ⟨s :: states, ?_, fun t ht => ?_⟩
          · rw [reports, List.map_cons, List.map_cons, hstate, hstates]
          · rcases List.mem_cons.mp ht with rfl | ht
            · exact unmarked
            · exact hunmarked t ht

/-- The states of a lock open with a reset: what the frame gave in which the lock began, or any
later one before the first state, and what the frames after it give. -/
theorem opens_of_gives (watch : Watch δ) (id : RobotId) (time : Instant)
    (state : Option RobotState) (phase : Phase)
    (gives : Phase.Gives time (.waiting id) state phase) (h : watch.InPhase phase)
    (views : List View) (same : ∀ r ∈ watch.reports detector views, ¬ r.event.Changes) :
    OpensWithReset (state :: (watch.reports detector views).map TrackingReport.state) := by
  induction views generalizing watch time state phase with
  | nil =>
      cases gives with
      | nothing => exact OpensWithReset.silent 1
      | first _ s robot sameTime marked =>
          exact OpensWithReset.marked 0 s [] marked (fun t ht => absurd ht List.not_mem_nil)
  | cons view rest ih =>
      cases gives with
      | nothing =>
          -- The flag still waits, so the next frame stands where this one stood.
          rcases next_step detector watch (.waiting id) h view with ⟨next, ⟨_, hgives⟩, hnext⟩
          rw [Phase.hear_of_not_changes _ _ (same _ List.mem_cons_self)] at hgives
          exact OpensWithReset.cons_none
            (ih (watch.next detector view).2 view.frame.time _ next hgives hnext
              (fun r hr => same r (List.mem_cons_of_mem _ hr)))
      | first _ s robot sameTime marked =>
          -- From here on the robot is followed.
          rcases reports_following detector watch id h (view :: rest) same with
            ⟨states, hstates, hunmarked⟩
          rw [hstates]
          exact OpensWithReset.marked 0 s states marked hunmarked

/-- The reset flag stands on the first state of a robot and on no other, whatever the detection
model finds. After every run of frames the remembered state is of the robot that is held; the flag
waits exactly where a robot is held and none is remembered; and the targets taken and not given up
are the one that is held. The state of the next frame is of the robot that is held after it and of
the time of the frame; without a robot there is none, and one or two plates are enough for it. Where
the next frame takes a robot, the states of that frame and of all later ones up to the next change
of the lock open with a reset. -/
theorem reset_discipline (settings : TrackerSettings) (model : δ) (views : List View) :
    let watch := (new settings model).run detector views
    let tracker := watch.stage.tracker
    (∀ known, tracker.fuser.previous = some known → tracker.lock.target = some known.robot) ∧
    (tracker.pendingReset = true ↔
      tracker.lock.target.isSome = true ∧ tracker.fuser.previous = none) ∧
    watch.counters.targetsAcquired = watch.counters.targetsLost + holding tracker.lock.target ∧
    ∀ view : View,
      (∀ s, (watch.next detector view).1.state = some s →
        (watch.next detector view).2.stage.tracker.lock.target = some s.robot ∧
          s.time = view.frame.time) ∧
      ((watch.next detector view).2.stage.tracker.lock.target = none →
        (watch.next detector view).1.state = none) ∧
      ((tracker.chosen detector watch.stage.model view.frame).length = 1 ∨
          (tracker.chosen detector watch.stage.model view.frame).length = 2 →
        (watch.next detector view).1.state.isSome = true) ∧
      ∀ id previous later, (watch.next detector view).1.event = .acquired id previous →
        (∀ r ∈ (watch.next detector view).2.reports detector later, ¬ r.event.Changes) →
        OpensWithReset ((watch.reports detector (view :: later)).map TrackingReport.state) := by
  intro watch tracker
  rcases run_inPhase detector (new settings model) .free (new_inPhase settings model) views with
    ⟨phase, ⟨htarget, hknown, howes⟩, hbalance⟩
  refine ⟨fun known hprevious => ?_, ?_, ?_, fun view => ?_⟩
  · rw [hprevious] at hknown
    exact htarget.trans (Phase.target_of_known phase known.robot hknown.symm)
  · have hnone : tracker.fuser.previous = none ↔ phase.known = none := by
      rw [← hknown, Option.map_eq_none_iff]
    rw [howes, htarget, hnone]
    exact Phase.owesReset_iff phase
  · rw [hbalance, htarget]
  · rcases next_step detector watch phase ⟨⟨htarget, hknown, howes⟩, hbalance⟩ view with
      ⟨next, ⟨hfollows, hgives⟩, hnext⟩
    refine ⟨fun s hs => ?_, fun hfree => ?_, fun hchosen => ?_,
      fun id previous later hacquired hsame => ?_⟩
    · rw [hs] at hgives
      rw [hnext.tracker.target]
      exact hgives.state_eq
    · cases hstate : (watch.next detector view).1.state with
      | none => rfl
      | some s =>
          rw [hstate] at hgives
          rw [hnext.tracker.target, hgives.state_eq.1] at hfree
          exact absurd hfree (Option.some_ne_none s.robot)
    · exact Tracker.processFrame_isSome detector tracker watch.stage.model view.frame view.latest
        hchosen
    · -- Taking a robot puts the phase at its start, whatever it was before.
      rw [hacquired] at hgives
      exact opens_of_gives detector _ id view.frame.time _ next hgives hnext later hsame

end Watch

end FireControl
