import FireControl.Tracking.TargetLock
import FireControl.Proofs.Tracking.Group

/-!
# The Cycles of the Target Lock

One cycle of the lock looks at the held robot, at the groups in view and at the rest of the grace
period, and there are six ways in which it can go. `TargetLock.Cycle` lists them, each with the
conditions under which it is taken and with everything it does. `update_cycle` says that the lock
goes through one of them; whoever needs a fact about the lock takes the six cases apart and never
looks at `TargetLock.update` again.

A cycle is told apart by its event, and the target after the cycle is the one that the event names.
The plates handed on are those of a group of that robot, or none.

## Main definitions

* `LockEvent.Changes`: An event in which a robot is taken or given up.
* `TargetLock.Cycle`: What a cycle can do.

## Theorems

* `not_mem_of_find?_eq_none`: A robot that is not found has no group.
* `update_cycle`: The lock goes through one of the cycles.
* `target_eq`: After a cycle the target is the one that its event names.
* `armors_robot`: Plates that are handed on are of the target.
* `ttlMax_eq`: No cycle changes the length of the grace period.
-/

namespace FireControl

/-- An event in which a robot is taken or given up. -/
def LockEvent.Changes : LockEvent → Prop
  | .acquired _ _ => True
  | .lost _ => True
  | .tracking _ => False
  | .coasting _ _ => False
  | .idle => False

namespace TargetLock

/-- What a cycle can do to a lock, with the groups in view and the seconds since the last cycle. -/
inductive Cycle (lock : TargetLock) (groups : List Group) (dt : Float) :
    Selection → TargetLock → Prop
  /-- A free lock takes the nearest robot. -/
  | take (g : Group) (free : lock.target = none) (nearest : Group.nearest? groups = some g) :
      Cycle lock groups dt ⟨.acquired g.robot none, g.armors⟩ (lock.hold g.robot)
  /-- A free lock finds no robot. -/
  | rest (free : lock.target = none) (nobody : Group.nearest? groups = none) :
      Cycle lock groups dt ⟨.idle, []⟩ lock
  /-- The held robot is seen. -/
  | see (id : RobotId) (g : Group) (held : lock.target = some id)
      (seen : groups.find? (fun g => g.robot = id) = some g) :
      Cycle lock groups dt ⟨.tracking id, g.armors⟩ (lock.hold id)
  /-- The held robot is not seen, and there is grace left. -/
  | wait (id : RobotId) (held : lock.target = some id) (unseen : ∀ g ∈ groups, g.robot ≠ id)
      (grace : negligible < lock.ttl - dt) :
      Cycle lock groups dt ⟨.coasting id (lock.ttl - dt), []⟩ { lock with ttl := lock.ttl - dt }
  /-- The grace period is over, and the nearest robot is taken in the same cycle. -/
  | exchange (id : RobotId) (g : Group) (held : lock.target = some id)
      (unseen : ∀ g ∈ groups, g.robot ≠ id) (spent : ¬ negligible < lock.ttl - dt)
      (nearest : Group.nearest? groups = some g) :
      Cycle lock groups dt ⟨.acquired g.robot (some id), g.armors⟩ (lock.hold g.robot)
  /-- The grace period is over, and there is no robot to take. -/
  | lose (id : RobotId) (held : lock.target = some id) (unseen : ∀ g ∈ groups, g.robot ≠ id)
      (spent : ¬ negligible < lock.ttl - dt) (nobody : Group.nearest? groups = none) :
      Cycle lock groups dt ⟨.lost id, []⟩ lock.release

/-- A robot that is not found among the groups has no group there. -/
theorem not_mem_of_find?_eq_none (groups : List Group) (id : RobotId)
    (h : groups.find? (fun g => g.robot = id) = none) : ∀ g ∈ groups, g.robot ≠ id := by
  intro g hg hid
  exact List.find?_eq_none.mp h g hg (decide_eq_true hid)

/-- The lock goes through one of its cycles. -/
theorem update_cycle (lock : TargetLock) (groups : List Group) (dt : Float) :
    Cycle lock groups dt (lock.update groups dt).1 (lock.update groups dt).2 := by
  unfold update
  cases held : lock.target with
  | none =>
      simp only [acquire]
      cases nearest : Group.nearest? groups with
      | none => exact Cycle.rest held nearest
      | some g => exact Cycle.take g held nearest
  | some id =>
      simp only
      cases seen : groups.find? (fun g => g.robot = id) with
      | some g => exact Cycle.see id g held seen
      | none =>
          -- Out of sight: the rest of the grace period decides.
          have unseen := not_mem_of_find?_eq_none groups id seen
          simp only [coast]
          by_cases grace : negligible < lock.ttl - dt
          · rw [if_pos grace]
            exact Cycle.wait id held unseen grace
          · rw [if_neg grace]
            simp only [acquire]
            cases nearest : Group.nearest? groups with
            | none => exact Cycle.lose id held unseen grace nearest
            | some g => exact Cycle.exchange id g held unseen grace nearest

variable {lock after : TargetLock} {groups : List Group} {dt : Float} {selection : Selection}

/-- After a cycle the target is the one that its event names. -/
theorem Cycle.target_eq (h : Cycle lock groups dt selection after) :
    after.target = selection.event.target := by
  cases h with
  | take g free nearest => rfl
  | rest free nobody => exact free
  | see id g held seen => rfl
  | wait id held unseen grace => exact held
  | exchange id g held unseen spent nearest => rfl
  | lose id held unseen spent nobody => rfl

/-- No cycle changes the length of the grace period. -/
theorem Cycle.ttlMax_eq (h : Cycle lock groups dt selection after) :
    after.ttlMax = lock.ttlMax := by
  cases h with
  | take g free nearest => rfl
  | rest free nobody => rfl
  | see id g held seen => rfl
  | wait id held unseen grace => rfl
  | exchange id g held unseen spent nearest => rfl
  | lose id held unseen spent nobody => rfl

/-- Plates that are handed on are of the target, provided that the groups are filed. -/
theorem Cycle.armors_robot (h : Cycle lock groups dt selection after)
    (hfiled : ∀ g ∈ groups, g.Filed) :
    ∀ d ∈ selection.armors, after.target = some d.robot := by
  -- Plates are handed on in the rows that take, see or exchange, from the group of the robot.
  cases h with
  | take g free nearest =>
      intro d hd
      rw [(hfiled g (Group.nearest?_mem groups g nearest).1).robot d hd]
      rfl
  | rest free nobody => exact fun d hd => absurd hd List.not_mem_nil
  | see id g held seen =>
      intro d hd
      have hid : g.robot = id := by simpa only [decide_eq_true_eq] using List.find?_some seen
      rw [(hfiled g (List.mem_of_find?_eq_some seen)).robot d hd, hid]
      rfl
  | wait id held unseen grace => exact fun d hd => absurd hd List.not_mem_nil
  | exchange id g held unseen spent nearest =>
      intro d hd
      rw [(hfiled g (Group.nearest?_mem groups g nearest).1).robot d hd]
      rfl
  | lose id held unseen spent nobody => exact fun d hd => absurd hd List.not_mem_nil

end TargetLock

end FireControl
