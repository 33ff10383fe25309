import FireControl.Proofs.Numeric.Double
import FireControl.Proofs.Tracking.GracePeriod
import FireControl.Proofs.Tracking.Phase

/-!
# The Events of the Lock Tell the Truth

Whoever works with the lock goes by its events: fusion forgets a robot, and the losses are counted,
when an event says so. Nobody looks at the lock itself. So an event has to say what happened to it:
which robot is held now, and which one was given up. `Truthful` lists what an event, the plates that
come with it and the lock before and after it have to do with one another.

Most of it holds of a single cycle of any lock. What needs the past is the rest of the grace period:
that it is zero while no robot is held, and never more than the whole period. The first is so from
the start. The second holds because a sighting sets the rest to the whole period and an absence
takes an interval off it, which does not make it greater, however the difference is rounded.

## Main definitions

* `LockStep.Regular`: A step with groups made from detections, in which time does not run backwards.
* `TargetLock.Truthful`: What an event says is what happened to the lock.
* `TargetLock.Bounded`: The rest of the grace period is in its range.

## Theorems

* `Cycle.dropped_iff`: The robot that an event drops is the one that is no longer held.
* `Cycle.armors_ne_nil_iff`: There are plates exactly when the robot was seen.
* `Cycle.bounded`: A cycle keeps the rest of the grace period in its range.
* `run_bounded`: So does every history.
* `events_tell_truth`: Every event of every run is truthful.
-/

namespace FireControl

/-- A step with groups made from detections, in which time does not run backwards. -/
def LockStep.Regular : LockStep → Prop
  | .update s => (∃ ds, s.groups = Group.ofDetections ds) ∧ 0 ≤ s.dt
  | .release => True

namespace TargetLock

/-- What an event says is what happened to the lock. -/
structure Truthful (before : TargetLock) (outcome : Selection) (after : TargetLock) : Prop where
  /-- The event names the robot that is held. -/
  target : outcome.event.target = after.target
  /-- The event drops the robot that is no longer held, and no other. -/
  dropped : ∀ id, outcome.event.dropped = some id ↔
    before.target = some id ∧ after.target ≠ some id
  /-- A robot is taken in exchange for another one. -/
  exchanged : ∀ id previous, outcome.event = .acquired id (some previous) → id ≠ previous
  /-- A robot is taken without exchange only by a free lock. -/
  taken : ∀ id, outcome.event = .acquired id none → before.target = none
  /-- There are plates exactly when a robot was taken or seen. -/
  plates : outcome.armors ≠ [] ↔ ∃ id, outcome.event.Sights id
  /-- All plates are of the robot that is held. -/
  robots : ∀ d ∈ outcome.armors, after.target = some d.robot
  /-- A free lock has no grace period left. -/
  free : after.target = none → after.ttl = 0
  /-- A robot that was taken or seen has the whole grace period. -/
  full : (∃ id, outcome.event.Sights id) → after.ttl = after.ttlMax
  /-- A robot that is held unseen has more than the negligible and at most the whole. -/
  coasting : ∀ id ttl, outcome.event = .coasting id ttl →
    after.ttl = ttl ∧ negligible < ttl ∧ ttl ≤ after.ttlMax

/-- The rest of the grace period is in its range. -/
structure Bounded (lock : TargetLock) : Prop where
  free : lock.target = none → lock.ttl = 0
  held : lock.target ≠ none → lock.ttl ≤ lock.ttlMax

section Cycle

variable {lock after : TargetLock} {groups : List Group} {dt : Float} {selection : Selection}

/-- The robot that an event drops is the one that is no longer held. -/
theorem Cycle.dropped_iff (h : Cycle lock groups dt selection after) (id : RobotId) :
    selection.event.dropped = some id ↔ lock.target = some id ∧ after.target ≠ some id := by
  -- Where no robot is dropped, the lock was free or still holds its robot.
  have kept {r : Option RobotId} (hbefore : lock.target = r)
      (hafter : r = none ∨ after.target = r) :
      (none : Option RobotId) = some id ↔ lock.target = some id ∧ after.target ≠ some id := by
    refine iff_of_false (Option.some_ne_none id).symm ?_
    rintro ⟨hheld, hgone⟩
    rw [hbefore] at hheld
    rcases hafter with hnone | hsame
    · exact absurd (hnone.symm.trans hheld) (Option.some_ne_none id).symm
    · exact hgone (hsame.trans hheld)
  cases h with
  | take g free nearest => exact kept free (Or.inl rfl)
  | rest free nobody => exact kept free (Or.inl rfl)
  | see i g held seen => exact kept held (Or.inr rfl)
  | wait i held unseen grace => exact kept held (Or.inr held)
  | exchange i g held unseen spent nearest =>
      have hother := unseen g (Group.nearest?_mem groups g nearest).1
      constructor
      · intro hdropped
        rw [← Option.some.inj hdropped]
        exact ⟨held, fun hc => hother (Option.some.inj hc)⟩
      · exact fun hheld => held.symm.trans hheld.1
  | lose i held unseen spent nobody =>
      constructor
      · intro hdropped
        rw [← Option.some.inj hdropped]
        exact ⟨held, (Option.some_ne_none i).symm⟩
      · exact fun hheld => held.symm.trans hheld.1

/-- A robot that is taken in exchange for another is not that one. -/
theorem Cycle.exchanged_ne (h : Cycle lock groups dt selection after) {id previous : RobotId}
    (hevent : selection.event = .acquired id (some previous)) : id ≠ previous := by
  have hgone := ((h.dropped_iff previous).mp (by rw [hevent]; rfl)).2
  have htarget : after.target = some id := by
    rw [h.target_eq, hevent]
    rfl
  exact fun hc => hgone (htarget.trans (congrArg some hc))

/-- There are plates exactly when a robot was taken or seen, provided that the groups are filed. -/
theorem Cycle.armors_ne_nil_iff (h : Cycle lock groups dt selection after)
    (hfiled : ∀ g ∈ groups, g.Filed) :
    selection.armors ≠ [] ↔ ∃ id, selection.event.Sights id := by
  cases h with
  | take g free nearest =>
      exact iff_of_true (Group.nearest?_mem groups g nearest).2 ⟨g.robot, rfl⟩
  | rest free nobody => exact iff_of_false (fun h => h rfl) (fun h => h.elim fun _ => id)
  | see i g held seen =>
      exact iff_of_true (hfiled g (List.mem_of_find?_eq_some seen)).nonempty ⟨i, rfl⟩
  | wait i held unseen grace => exact iff_of_false (fun h => h rfl) (fun h => h.elim fun _ => id)
  | exchange i g held unseen spent nearest =>
      exact iff_of_true (Group.nearest?_mem groups g nearest).2 ⟨g.robot, rfl⟩
  | lose i held unseen spent nobody =>
      exact iff_of_false (fun h => h rfl) (fun h => h.elim fun _ => id)

theorem Cycle.full_of_sights (h : Cycle lock groups dt selection after) {id : RobotId}
    (hsights : selection.event.Sights id) : after.ttl = after.ttlMax := by
  cases h with
  | take g free nearest => rfl
  | rest free nobody => exact False.elim hsights
  | see i g held seen => rfl
  | wait i held unseen grace => exact False.elim hsights
  | exchange i g held unseen spent nearest => rfl
  | lose i held unseen spent nobody => exact False.elim hsights

theorem sub_le_ttlMax (bounded : lock.Bounded) (held : lock.target ≠ none) (hdt : 0 ≤ dt)
    (grace : negligible < lock.ttl - dt) : lock.ttl - dt ≤ lock.ttlMax := by
  have hle := bounded.held held
  have hnumber := (Float.not_isNaN_of_le (Float.le_of_lt grace)).2
  exact Float.le_trans (Float.sub_le hdt hnumber) hle

theorem Cycle.bounded (h : Cycle lock groups dt selection after) (hmax : lock.ttlMax.isNaN = false)
    (hdt : 0 ≤ dt) (bounded : lock.Bounded) : after.Bounded := by
  have whole (id : RobotId) : (lock.hold id).Bounded :=
    ⟨fun hc => absurd hc (Option.some_ne_none id), fun _ => Float.le_refl hmax⟩
  cases h with
  | take g free nearest => exact whole g.robot
  | rest free nobody => exact bounded
  | see i g held seen => exact whole i
  | wait i held unseen grace =>
      -- The only cycle in which the rest changes without being set anew.
      have hheld : lock.target ≠ none := held ▸ Option.some_ne_none i
      exact ⟨fun hc => absurd hc hheld, fun _ => sub_le_ttlMax bounded hheld hdt grace⟩
  | exchange i g held unseen spent nearest => exact whole g.robot
  | lose i held unseen spent nobody => exact ⟨fun _ => rfl, fun hc => absurd rfl hc⟩

/-- A robot that is held unseen has more than the negligible and at most the whole. -/
theorem Cycle.coasting_range (h : Cycle lock groups dt selection after) (hdt : 0 ≤ dt)
    (bounded : lock.Bounded) {id : RobotId} {ttl : Float}
    (hevent : selection.event = .coasting id ttl) :
    after.ttl = ttl ∧ negligible < ttl ∧ ttl ≤ after.ttlMax := by
  -- Only the row that waits reports coasting, with what is left of the grace period.
  cases h with
  | take g free nearest => exact LockEvent.noConfusion hevent
  | rest free nobody => exact LockEvent.noConfusion hevent
  | see i g held seen => exact LockEvent.noConfusion hevent
  | wait i held unseen grace =>
      have hheld : lock.target ≠ none := held ▸ Option.some_ne_none i
      have hrest : lock.ttl - dt = ttl := (LockEvent.coasting.inj hevent).2
      rw [← hrest]
      exact ⟨rfl, grace, sub_le_ttlMax bounded hheld hdt grace⟩
  | exchange i g held unseen spent nearest => exact LockEvent.noConfusion hevent
  | lose i held unseen spent nobody => exact LockEvent.noConfusion hevent

/-- A cycle of a lock whose rest is in its range is truthful. -/
theorem Cycle.truthful (h : Cycle lock groups dt selection after) (hfiled : ∀ g ∈ groups, g.Filed)
    (hmax : lock.ttlMax.isNaN = false) (hdt : 0 ≤ dt) (bounded : lock.Bounded) :
    Truthful lock selection after where
  target := h.target_eq.symm
  dropped := h.dropped_iff
  exchanged _ _ hevent := h.exchanged_ne hevent
  -- An event that names no robot given up follows on a free lock.
  taken id hevent := by
    have hfollows := h.follows
    rw [hevent] at hfollows
    exact hfollows.symm
  plates := h.armors_ne_nil_iff hfiled
  robots := h.armors_robot hfiled
  free := (h.bounded hmax hdt bounded).free
  full hsights := hsights.elim fun _ => h.full_of_sights
  coasting _ _ hevent := h.coasting_range hdt bounded hevent

end Cycle

/-- The rest of the grace period is in its range along every history. -/
theorem run_bounded (lock : TargetLock) (history : List LockStep)
    (hmax : lock.ttlMax.isNaN = false) (regular : ∀ step ∈ history, step.Regular)
    (bounded : lock.Bounded) : (lock.run history).Bounded := by
  induction history generalizing lock with
  | nil => exact bounded
  | cons step rest ih =>
      have hrest : ∀ t ∈ rest, t.Regular := fun t ht => regular t (List.mem_cons_of_mem step ht)
      have hstep := regular step List.mem_cons_self
      cases step with
      | update s =>
          have hcycle := see_cycle lock s
          exact ih (lock.see s).2 (hcycle.ttlMax_eq ▸ hmax) hrest
            (hcycle.bounded hmax hstep.2 bounded)
      | release => exact ih lock.release hmax hrest ⟨fun _ => rfl, fun hc => absurd rfl hc⟩

theorem new_bounded (ttlMax : Float) : (new ttlMax).Bounded :=
  ⟨fun _ => rfl, fun hc => absurd rfl hc⟩

/-- The events of a lock tell the truth. Take a lock with a positive grace period and any history of
cycles with groups made from detections, in which time does not run backwards and the lock may also
be told to give up its robot. In every further cycle of this kind the event is truthful about the
lock before and after it, and the length of the grace period is what it was at the start. -/
theorem events_tell_truth (ttlMax : Float) (history : List LockStep) (s : Sight)
    (positive : 0 < ttlMax) (regular : ∀ step ∈ history, step.Regular)
    (next : (LockStep.update s).Regular) :
    Truthful ((new ttlMax).run history) (((new ttlMax).run history).see s).1
      (((new ttlMax).run history).see s).2 ∧
    (((new ttlMax).run history).see s).2.ttlMax = ttlMax := by
  have hnew : (new ttlMax).ttlMax.isNaN = false :=
    -- A positive grace period is a number, which every update keeps.
    (Float.not_isNaN_of_le (Float.le_of_lt positive)).2
  have hmax : ((new ttlMax).run history).ttlMax = ttlMax := run_ttlMax (new ttlMax) history
  have hnumber : ((new ttlMax).run history).ttlMax.isNaN = false := by
    rw [hmax]
    exact hnew
  have hcycle := see_cycle ((new ttlMax).run history) s
  have hfiled : ∀ g ∈ s.groups, g.Filed := by
    rcases next.1 with ⟨ds, hds⟩
    rw [hds]
    exact Group.filed_of_mem_ofDetections ds
  refine ⟨?_, hcycle.ttlMax_eq.trans hmax⟩
  exact hcycle.truthful hfiled hnumber next.2
    (run_bounded (new ttlMax) history hnew regular (new_bounded ttlMax))

/-- Robot 1 is taken and missed once, and then the grace period ends with robot 2 in view. The event
of the exchange drops robot 1. -/
theorem events_tell_truth_exchange :
    let plate (id : UInt32) : Detection := { (default : Detection) with robot := ⟨id⟩ }
    let history : List LockStep :=
      [.update ⟨Group.ofDetections [plate 1], 0⟩, .update ⟨Group.ofDetections [plate 2], 0.4⟩]
    let s : Sight := ⟨Group.ofDetections [plate 2], 0.7⟩
    0 < (1 : Float) ∧ (∀ step ∈ history, step.Regular) ∧ (LockStep.update s).Regular ∧
    ((new 1).run history).target = some ⟨1⟩ ∧
    (((new 1).run history).see s).2.target ≠ some ⟨1⟩ ∧
    (((new 1).run history).see s).1.event.dropped = some ⟨1⟩ := by
  intro plate history s
  have positive : 0 < (1 : Float) := by decide +kernel
  have regular : ∀ step ∈ history, step.Regular := by
    intro step hstep
    rcases List.mem_cons.mp hstep with rfl | hstep
    · exact ⟨⟨_, rfl⟩, by decide +kernel⟩
    · rw [List.mem_singleton.mp hstep]
      exact ⟨⟨_, rfl⟩, by decide +kernel⟩
  have next : (LockStep.update s).Regular := ⟨⟨_, rfl⟩, by decide +kernel⟩
  have hbefore : ((new 1).run history).target = some ⟨1⟩ := by decide +kernel
  have hafter : (((new 1).run history).see s).2.target ≠ some ⟨1⟩ := by decide +kernel
  exact ⟨positive, regular, next, hbefore, hafter,
    ((events_tell_truth 1 history s positive regular next).1.dropped ⟨1⟩).mpr ⟨hbefore, hafter⟩⟩

end TargetLock

end FireControl
