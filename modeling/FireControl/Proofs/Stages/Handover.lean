import FireControl.Proofs.Estimation.FollowedRobot
import FireControl.Proofs.Tracking.ResetDiscipline

/-!
# The Handover to the Estimator

The tracker puts its states on the board as frames come in, and the estimator takes what it finds
there whenever it ticks. Neither waits for the other, so a run is a sequence of frames and ticks in
any order, and between two ticks there may be any number of states of which the estimator sees the
last one only.

Two records are kept beside the run and decide nothing in it. One has every state that the tracker
gave, with the version that the board gave to it and the number of the lock that it belongs to; a
lock is numbered by the robots that had been taken when it began. The other has every measurement
that the estimator took, with the filter before and after it.

What is known of the records is an invariant of the run. It joins the phase of the tracker to the
record of its states: a phase in which the reset flag waits is one in which nothing has been given
for the newest lock, and so the flag stands on the first state of every lock.

## Main definitions

* `Emission`: A state that the tracker gave.
* `Emission.First`: The first state of a lock.
* `Emission.Log`: Records of states in which exactly the first ones carry the flag.
* `Intake`: A measurement that the estimator took.
* `Handover`: The tracker, the board and the estimator, with both records.
* `Handover.run`: A sequence of frames and ticks.
* `Handover.Kept`: What every run keeps.

## Theorems

* `Log.reset_iff_first`: In a record the flag tells the first state of a lock.
* `publish_kept`, `frame_kept`, `tick_kept`: What a published state, a frame and a tick keep.
* `run_kept`: What every run keeps.
-/

namespace FireControl

/-- A state that the tracker gave, with its version on the board and the number of its lock. -/
structure Emission where
  version : Nat
  lock : Nat
  state : RobotState

namespace Emission

/-- The state as the board holds it. -/
def snapshot (e : Emission) : Versioned RobotState :=
  ⟨e.version, e.state⟩

/-- No state of the same lock was given before. -/
def First (e : Emission) (emitted : List Emission) : Prop :=
  ∀ o ∈ emitted, o.lock = e.lock → e.version ≤ o.version

/-- Records of states, the newest first: versions count from one, locks follow one another, and a
state carries the reset flag where no state of its lock came before. -/
inductive Log : List Emission → Prop
  | nil : Log []
  | cons (e : Emission) (older : List Emission) (log : Log older)
      (counted : e.version = older.length + 1) (ordered : ∀ o ∈ older, o.lock ≤ e.lock)
      (flagged : e.state.reset = true ↔ ∀ o ∈ older, o.lock ≠ e.lock) : Log (e :: older)

variable {emitted : List Emission}

theorem Log.version_le (h : Log emitted) : ∀ e ∈ emitted, e.version ≤ emitted.length := by
  induction h with
  | nil => exact fun e he => absurd he List.not_mem_nil
  | cons e older log counted ordered flagged ih =>
      intro o ho
      rw [List.length_cons]
      rcases List.mem_cons.mp ho with rfl | ho
      · omega
      · have hversion := ih o ho
        omega

/-- The version of the newest state is the number of states. -/
theorem Log.versionOf_head (h : Log emitted) :
    Slot.versionOf (emitted.head?.map snapshot) = emitted.length := by
  cases h with
  | nil => rfl
  | cons e older log counted ordered flagged => exact counted

/-- In a record the flag tells the first state of a lock. -/
theorem Log.reset_iff_first (h : Log emitted) :
    ∀ e ∈ emitted, (e.state.reset = true ↔ e.First emitted) := by
  induction h with
  | nil => exact fun e he => absurd he List.not_mem_nil
  | cons newest older log counted ordered flagged ih =>
      intro e he
      rcases List.mem_cons.mp he with rfl | hold
      · rw [flagged]
        constructor
        · intro hnone o ho hlock
          rcases List.mem_cons.mp ho with rfl | hmem
          · exact Nat.le_refl _
          · exact absurd hlock (hnone o hmem)
        · intro hfirst o ho hlock
          have hle := hfirst o (List.mem_cons_of_mem e ho) hlock
          have hversion := log.version_le o ho
          omega
      · -- A newer state cannot make an older one come later.
        rw [ih e hold]
        constructor
        · intro hfirst o ho hlock
          rcases List.mem_cons.mp ho with rfl | hmem
          · have hversion := log.version_le e hold
            omega
          · exact hfirst o hmem hlock
        · intro hfirst o ho hlock
          exact hfirst o (List.mem_cons_of_mem newest ho) hlock

end Emission

/-- How the locks of the states given so far go with a phase, after a number of robots taken. -/
def Phase.Numbers (taken : Nat) (emitted : List Emission) : Phase → Prop
  | .free => ∀ e ∈ emitted, e.lock ≤ taken
  | .waiting _ => ∀ e ∈ emitted, e.lock < taken
  | .following _ => (∀ e ∈ emitted, e.lock ≤ taken) ∧ ∃ e ∈ emitted, e.lock = taken

namespace Phase

variable {phase : Phase} {taken : Nat} {emitted : List Emission}

theorem Numbers.le (h : phase.Numbers taken emitted) : ∀ e ∈ emitted, e.lock ≤ taken := by
  cases phase with
  | free => exact h
  | waiting id => exact fun e he => Nat.le_of_lt (h e he)
  | following id => exact h.1

/-- The event of a frame opens a lock where it takes a robot. -/
theorem Numbers.hear (h : phase.Numbers taken emitted) (c : Counters)
    (htaken : c.targetsAcquired = taken) (event : LockEvent) :
    (phase.hear event).Numbers (c.recordTracking event).targetsAcquired emitted := by
  subst htaken
  cases event with
  | acquired id previous => exact fun e he => Nat.lt_succ_of_le (h.le e he)
  | tracking id => exact h
  | coasting id ttl => exact h
  | lost id => exact h.le
  | idle => exact h

end Phase

/-- A measurement that the estimator took, with the filter before and after it. -/
structure Intake (φ : Type) where
  taken : Versioned RobotState
  dt : Float32
  before : φ
  after : φ

/-- What the filter was told to do with a measurement. -/
def Intake.commands {φ : Type} (i : Intake φ) : List FilterCommand :=
  Estimator.commands (some i.taken) i.dt

/-- The tracker, the board and the estimator, with the records of what passed between them, the
newest first. -/
structure Handover (δ φ : Type) where
  watch : Watch δ
  board : Board
  estimator : Estimator φ
  emitted : List Emission
  intakes : List (Intake φ)

/-- A frame for the tracker or a tick of the estimator. -/
inductive HandoverStep where
  | frame (view : View)
  | tick (dt : Float32) (now : Instant)

namespace Handover

variable {δ φ : Type}

/-- The handover before the first frame and the first tick. -/
def new (settings : TrackerSettings) (model : δ) (filter : φ) : Handover δ φ :=
  { watch := Watch.new settings model, board := .empty, estimator := Estimator.new filter,
    emitted := [], intakes := [] }

/-- The tracker has given a state. -/
def publish (h : Handover δ φ) (state : RobotState) : Handover δ φ :=
  let board := h.board.publishRaw state
  { h with
    board := board
    emitted := ⟨board.raw.version, h.watch.counters.targetsAcquired, state⟩ :: h.emitted }

/-- The estimator ticks. -/
def tick (filter : Filter φ) (h : Handover δ φ) (dt : Float32) (now : Instant) : Handover δ φ :=
  let estimator := (h.estimator.tick filter h.board dt now).2
  match (h.estimator.cursor.poll h.board.raw).1 with
  | none => { h with estimator := estimator }
  | some taken =>
    { h with
      estimator := estimator
      intakes := ⟨taken, dt, h.estimator.filter, estimator.filter⟩ :: h.intakes }

section Steps

variable [ElementaryFunctions] (detector : Detector δ) (filter : Filter φ)

/-- The tracker processes a frame. -/
def frame (h : Handover δ φ) (view : View) : Handover δ φ :=
  let (report, watch) := h.watch.next detector view
  match report.state with
  | none => { h with watch := watch }
  | some state => { h with watch := watch }.publish state

/-- A frame or a tick. -/
def step (h : Handover δ φ) : HandoverStep → Handover δ φ
  | .frame view => h.frame detector view
  | .tick dt now => h.tick filter dt now

/-- A sequence of frames and ticks. -/
def run (h : Handover δ φ) (steps : List HandoverStep) : Handover δ φ :=
  steps.foldl (step detector filter) h

end Steps

/-- What every run keeps, with the phase of the tracker. -/
structure Kept (filter : Filter φ) (h : Handover δ φ) (phase : Phase) : Prop where
  watch : h.watch.InPhase phase
  log : Emission.Log h.emitted
  numbers : phase.Numbers h.watch.counters.targetsAcquired h.emitted
  /-- The board holds the newest state. -/
  newest : h.board.raw.current = h.emitted.head?.map Emission.snapshot
  /-- Every measurement is one of the states. -/
  origin : ∀ i ∈ h.intakes, ∃ e ∈ h.emitted, e.snapshot = i.taken
  /-- The filter has done what it was told. -/
  obeyed : ∀ i ∈ h.intakes, i.after = i.commands.foldl filter.obey i.before

theorem new_kept (filter : Filter φ) (settings : TrackerSettings) (model : δ) (start : φ) :
    Kept filter (new settings model start) .free where
  watch := Watch.new_inPhase settings model
  log := Emission.Log.nil
  numbers := fun _ he => absurd he List.not_mem_nil
  newest := rfl
  origin := fun _ hi => absurd hi List.not_mem_nil
  obeyed := fun _ hi => absurd hi List.not_mem_nil

variable {filter : Filter φ} {h : Handover δ φ} {phase next : Phase}

/-- A frame without a state keeps what a change of phase keeps. -/
theorem silent_kept (kept : Kept filter h phase) (watch : Watch δ) (inPhase : watch.InPhase next)
    (numbers : next.Numbers watch.counters.targetsAcquired h.emitted) :
    Kept filter { h with watch := watch } next where
  watch := inPhase
  log := kept.log
  numbers := numbers
  newest := kept.newest
  origin := kept.origin
  obeyed := kept.obeyed

/-- A state that is published with the right flag belongs to the lock of its robot. -/
theorem publish_kept (kept : Kept filter h phase) (watch : Watch δ) (id : RobotId)
    (inPhase : watch.InPhase (.following id)) (s : RobotState)
    (ordered : ∀ e ∈ h.emitted, e.lock ≤ watch.counters.targetsAcquired)
    (flagged : s.reset = true ↔ ∀ e ∈ h.emitted, e.lock ≠ watch.counters.targetsAcquired) :
    Kept filter ({ h with watch := watch }.publish s) (.following id) := by
  -- Every emission takes the next version, so the version counts the emissions.
  have hversion : (h.board.publishRaw s).raw.version = h.emitted.length + 1 := by
    change Slot.versionOf h.board.raw.current + 1 = h.emitted.length + 1
    rw [kept.newest, kept.log.versionOf_head]
  -- Only the log grows; the intakes keep the emissions that they came from.
  refine ⟨inPhase, ?_, ⟨?_, ?_⟩, ?_, fun i hi => ?_, kept.obeyed⟩
  · exact Emission.Log.cons _ h.emitted kept.log hversion ordered flagged
  · intro e he
    rcases List.mem_cons.mp he with rfl | he
    · exact Nat.le_refl _
    · exact ordered e he
  · exact ⟨_, List.mem_cons_self, rfl⟩
  · rfl
  · rcases kept.origin i hi with ⟨e, he, hsnapshot⟩
    exact ⟨e, List.mem_cons_of_mem _ he, hsnapshot⟩

/-- A measurement that a cursor takes is the one in the slot. -/
theorem current_of_poll {α : Type} (cursor : Cursor) (slot : Slot α) (taken : Versioned α)
    (h : (cursor.poll slot).1 = some taken) : slot.current = some taken := by
  unfold Cursor.poll at h
  cases hcurrent : slot.current with
  | none =>
      rw [hcurrent] at h
      exact absurd h.symm (Option.some_ne_none taken)
  | some snapshot =>
      rw [hcurrent] at h
      by_cases hold : snapshot.version = cursor.last
      · simp only [if_pos hold] at h
        exact absurd h.symm (Option.some_ne_none taken)
      · simpa only [if_neg hold] using h

/-- A tick takes the newest state or nothing. -/
theorem tick_kept (kept : Kept filter h phase) (dt : Float32) (now : Instant) :
    Kept filter (h.tick filter dt now) phase := by
  unfold tick
  cases hpoll : (h.estimator.cursor.poll h.board.raw).1 with
  | none => exact ⟨kept.watch, kept.log, kept.numbers, kept.newest, kept.origin, kept.obeyed⟩
  | some taken =>
      refine ⟨kept.watch, kept.log, kept.numbers, kept.newest, fun i hi => ?_, fun i hi => ?_⟩
      · rcases List.mem_cons.mp hi with rfl | hi
        · -- The new measurement was on the board, and the board holds the newest state.
          have hhead := current_of_poll h.estimator.cursor h.board.raw taken hpoll
          rw [kept.newest] at hhead
          rcases Option.map_eq_some_iff.mp hhead with ⟨e, he, hsnapshot⟩
          exact ⟨e, List.mem_of_mem_head? he, hsnapshot⟩
        · exact kept.origin i hi
      · rcases List.mem_cons.mp hi with rfl | hi
        · change (Estimator.commands (h.estimator.cursor.poll h.board.raw).1 dt).foldl filter.obey
              h.estimator.filter = _
          rw [hpoll]
          rfl
        · exact kept.obeyed i hi

variable [ElementaryFunctions] (detector : Detector δ)

/-- A frame moves the phase and keeps the records. -/
theorem frame_kept (kept : Kept filter h phase) (view : View) :
    ∃ next, Kept filter (h.frame detector view) next := by
  rcases Watch.next_step detector h.watch phase kept.watch view with ⟨next, ⟨_, hgives⟩, hnext⟩
  -- The event counts a new lock before the frame gives its state.
  have hnumbers := kept.numbers.hear h.watch.counters rfl (h.watch.next detector view).1.event
  have hcounters : (h.watch.next detector view).2.counters =
      h.watch.counters.recordTracking (h.watch.next detector view).1.event := rfl
  rw [← hcounters] at hnumbers
  unfold frame
  generalize h.watch.next detector view = outcome at hgives hnext hnumbers
  rcases outcome with ⟨⟨event, state⟩, watch⟩
  simp only at hgives hnext hnumbers ⊢
  generalize phase.hear event = heard at hgives hnumbers
  cases hgives with
  | idle => exact ⟨.free, silent_kept kept watch hnext hnumbers⟩
  | nothing id => exact ⟨.waiting id, silent_kept kept watch hnext hnumbers⟩
  | first id s robot sameTime marked =>
      -- The flag has waited, so nothing was given for this lock before.
      have hflagged : s.reset = true ↔ ∀ e ∈ h.emitted, e.lock ≠ watch.counters.targetsAcquired :=
        ⟨fun _ e he => Nat.ne_of_lt (hnumbers e he), fun _ => marked⟩
      exact ⟨.following id, publish_kept kept watch id hnext s hnumbers.le hflagged⟩
  | again id s robot sameTime unmarked =>
      have hflagged : s.reset = true ↔
          ∀ e ∈ h.emitted, e.lock ≠ watch.counters.targetsAcquired := by
        rcases hnumbers.2 with ⟨e, he, hlock⟩
        rw [unmarked]
        exact ⟨fun h => absurd h Bool.false_ne_true, fun hnone => absurd hlock (hnone e he)⟩
      exact ⟨.following id, publish_kept kept watch id hnext s hnumbers.le hflagged⟩

/-- What every run keeps. -/
theorem run_kept (kept : Kept filter h phase) (steps : List HandoverStep) :
    ∃ last, Kept filter (h.run detector filter steps) last := by
  induction steps generalizing h phase with
  | nil => exact ⟨phase, kept⟩
  | cons step rest ih =>
      cases step with
      | frame view =>
          rcases frame_kept detector kept view with ⟨next, hnext⟩
          exact ih hnext
      | tick dt now => exact ih (tick_kept kept dt now)

end Handover

end FireControl
