import FireControl.Tracking.Group

/-!
# Target Lock

The lock decides which robot the turret follows. It takes the nearest robot when it is free, holds
it while it is seen, and holds it for a grace period while it is not. A nearer robot that comes into
view does not break the lock. When the grace period is over, the lock is released, and in the same
cycle it may take another robot.

The grace period counts down by the time between frames. A remainder of at most a nanosecond counts
as none, so that a period of whole frame times ends on the frame that completes it, whatever the
subtractions lost to rounding.

## Main definitions

* `TargetLock`: The robot that is held and the rest of its grace period.
* `LockEvent`: What a cycle did to the lock.
* `TargetLock.update`: One cycle.
-/

namespace FireControl

/-- What a cycle did to the lock. -/
inductive LockEvent where
  /-- A robot was taken; `previous` is the robot that was given up for it. -/
  | acquired (id : RobotId) (previous : Option RobotId)
  /-- The robot that is held was seen. -/
  | tracking (id : RobotId)
  /-- The robot that is held was not seen and has `ttl` seconds of grace left. -/
  | coasting (id : RobotId) (ttl : Float)
  /-- The robot was given up, and there was no other. -/
  | lost (id : RobotId)
  /-- No robot is held, and there was none to take. -/
  | idle
deriving DecidableEq

namespace LockEvent

/-- The robot that is held after the cycle. -/
def target : LockEvent → Option RobotId
  | .acquired id _ => some id
  | .tracking id => some id
  | .coasting id _ => some id
  | .lost _ => none
  | .idle => none

/-- The robot that was given up in the cycle. -/
def dropped : LockEvent → Option RobotId
  | .acquired _ previous => previous
  | .lost id => some id
  | .tracking _ => none
  | .coasting _ _ => none
  | .idle => none

end LockEvent

/-- The robot that is held and the rest of its grace period, in seconds. -/
structure TargetLock where
  ttlMax : Float
  ttl : Float
  target : Option RobotId
deriving DecidableEq

/-- The outcome of a cycle: what it did, and the plates to follow. -/
structure Selection where
  event : LockEvent
  armors : List Detection
deriving DecidableEq

namespace TargetLock

/-- A remaining grace period that counts as none, in seconds. -/
def negligible : Float := 1e-9

/-- A free lock with the given grace period. -/
def new (ttlMax : Float) : TargetLock :=
  ⟨ttlMax, 0, none⟩

/-- The lock without a robot. -/
def release (lock : TargetLock) : TargetLock :=
  { lock with ttl := 0, target := none }

/-- The lock with a robot that has just been seen. -/
def hold (lock : TargetLock) (id : RobotId) : TargetLock :=
  { lock with ttl := lock.ttlMax, target := some id }

/-- Takes the nearest robot, if there is one; `previous` has just been given up. -/
def acquire (lock : TargetLock) (groups : List Group) (previous : Option RobotId) :
    Selection × TargetLock :=
  match Group.nearest? groups with
  | some g => (⟨.acquired g.robot previous, g.armors⟩, lock.hold g.robot)
  | none => (⟨(previous.map LockEvent.lost).getD .idle, []⟩, lock)

/-- A cycle in which the robot `id` is held and not seen. -/
def coast (lock : TargetLock) (id : RobotId) (groups : List Group) (dt : Float) :
    Selection × TargetLock :=
  let ttl := lock.ttl - dt
  if negligible < ttl then (⟨.coasting id ttl, []⟩, { lock with ttl := ttl })
  else lock.release.acquire groups (some id)

/-- One cycle with the groups in view, `dt` seconds after the one before. -/
def update (lock : TargetLock) (groups : List Group) (dt : Float) : Selection × TargetLock :=
  match lock.target with
  | none => lock.acquire groups none
  | some id =>
    match groups.find? (fun g => g.robot = id) with
    | some g => (⟨.tracking id, g.armors⟩, lock.hold id)
    | none => lock.coast id groups dt

end TargetLock

end FireControl
