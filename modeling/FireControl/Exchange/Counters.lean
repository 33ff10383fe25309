import FireControl.Numeric.Precision
import FireControl.Tracking.TargetLock

/-!
# Counters

What the stages have done since the start, for the operator. A counter is a natural number here;
what is shown of it is a word of 64 bits, which wraps around.

## Main definitions

* `Counter`, `Counters`: The thirteen counters and their values.
* `Counters.recordFrame` and its siblings: What each event of the pipeline adds.
* `Counters.readings`: What is shown of them.
* `Counters.sendSuccessRate`, `Counters.nonConvergenceRate`: Rates in percent.
-/

namespace FireControl

/-- What is counted. -/
inductive Counter where
  /-- Frames from the camera. -/
  | framesCaptured
  /-- Readings of the orientation. -/
  | orientationUpdates
  /-- Failed readings of a device, timeouts excepted. -/
  | deviceErrors
  /-- Frames that the tracker has seen. -/
  | perceptionCycles
  /-- Targets that the lock has taken. -/
  | targetsAcquired
  /-- Targets that the lock has given up. -/
  | targetsLost
  /-- States published by the tracker. -/
  | rawStatesPublished
  /-- Ticks of the estimator. -/
  | estimatorTicks
  /-- Measurements that the estimator has taken. -/
  | estimatorMeasurements
  /-- Corrections computed. -/
  | aimUpdates
  /-- Corrections whose lead time was not found. -/
  | leadsNotConverged
  /-- Packets that went out. -/
  | packetsSent
  /-- Packets that did not go out. -/
  | sendFailures
deriving DecidableEq, Repr

namespace Counter

/-- The counters in order. -/
def all : List Counter :=
  [.framesCaptured, .orientationUpdates, .deviceErrors, .perceptionCycles, .targetsAcquired,
    .targetsLost, .rawStatesPublished, .estimatorTicks, .estimatorMeasurements, .aimUpdates,
    .leadsNotConverged, .packetsSent, .sendFailures]

/-- The name under which a counter is shown. -/
def label : Counter → String
  | .framesCaptured => "frames_captured"
  | .orientationUpdates => "orientation_updates"
  | .deviceErrors => "device_errors"
  | .perceptionCycles => "perception_cycles"
  | .targetsAcquired => "targets_acquired"
  | .targetsLost => "targets_lost"
  | .rawStatesPublished => "robot_states_published"
  | .estimatorTicks => "estimator_ticks"
  | .estimatorMeasurements => "estimator_measurements"
  | .aimUpdates => "aim_updates"
  | .leadsNotConverged => "lead_not_converged"
  | .packetsSent => "packets_sent"
  | .sendFailures => "send_failures"

/-- The counter of a name. -/
def ofLabel? (name : String) : Option Counter :=
  all.find? fun c => c.label = name

end Counter

/-- What the stages have done since the start. -/
structure Counters where
  framesCaptured : Nat
  orientationUpdates : Nat
  deviceErrors : Nat
  perceptionCycles : Nat
  targetsAcquired : Nat
  targetsLost : Nat
  rawStatesPublished : Nat
  estimatorTicks : Nat
  estimatorMeasurements : Nat
  aimUpdates : Nat
  leadsNotConverged : Nat
  packetsSent : Nat
  sendFailures : Nat
deriving DecidableEq, Repr

namespace Counters

/-- Counters at the start. -/
def zero : Counters :=
  { framesCaptured := 0, orientationUpdates := 0, deviceErrors := 0, perceptionCycles := 0,
    targetsAcquired := 0, targetsLost := 0, rawStatesPublished := 0, estimatorTicks := 0,
    estimatorMeasurements := 0, aimUpdates := 0, leadsNotConverged := 0, packetsSent := 0,
    sendFailures := 0 }

instance : Inhabited Counters := ⟨zero⟩

/-- The value of a counter. -/
def get (c : Counters) : Counter → Nat
  | .framesCaptured => c.framesCaptured
  | .orientationUpdates => c.orientationUpdates
  | .deviceErrors => c.deviceErrors
  | .perceptionCycles => c.perceptionCycles
  | .targetsAcquired => c.targetsAcquired
  | .targetsLost => c.targetsLost
  | .rawStatesPublished => c.rawStatesPublished
  | .estimatorTicks => c.estimatorTicks
  | .estimatorMeasurements => c.estimatorMeasurements
  | .aimUpdates => c.aimUpdates
  | .leadsNotConverged => c.leadsNotConverged
  | .packetsSent => c.packetsSent
  | .sendFailures => c.sendFailures

/-- The counters with `n` added to one of them. -/
def add (c : Counters) (n : Nat) : Counter → Counters
  | .framesCaptured => { c with framesCaptured := c.framesCaptured + n }
  | .orientationUpdates => { c with orientationUpdates := c.orientationUpdates + n }
  | .deviceErrors => { c with deviceErrors := c.deviceErrors + n }
  | .perceptionCycles => { c with perceptionCycles := c.perceptionCycles + n }
  | .targetsAcquired => { c with targetsAcquired := c.targetsAcquired + n }
  | .targetsLost => { c with targetsLost := c.targetsLost + n }
  | .rawStatesPublished => { c with rawStatesPublished := c.rawStatesPublished + n }
  | .estimatorTicks => { c with estimatorTicks := c.estimatorTicks + n }
  | .estimatorMeasurements => { c with estimatorMeasurements := c.estimatorMeasurements + n }
  | .aimUpdates => { c with aimUpdates := c.aimUpdates + n }
  | .leadsNotConverged => { c with leadsNotConverged := c.leadsNotConverged + n }
  | .packetsSent => { c with packetsSent := c.packetsSent + n }
  | .sendFailures => { c with sendFailures := c.sendFailures + n }

/-- One frame from the camera. -/
def recordFrame (c : Counters) : Counters :=
  { c with framesCaptured := c.framesCaptured + 1 }

/-- One reading of the orientation. -/
def recordOrientation (c : Counters) : Counters :=
  { c with orientationUpdates := c.orientationUpdates + 1 }

/-- One failed reading of a device. -/
def recordDeviceError (c : Counters) : Counters :=
  { c with deviceErrors := c.deviceErrors + 1 }

/-- One frame seen by the tracker, and what it did to the lock. -/
def recordTracking (c : Counters) (event : LockEvent) : Counters :=
  { c with
    perceptionCycles := c.perceptionCycles + 1
    targetsLost := c.targetsLost + (if event.dropped.isSome then 1 else 0)
    targetsAcquired :=
      c.targetsAcquired + (match event with
        | .acquired _ _ => 1
        | _ => 0) }

/-- One state published by the tracker. -/
def recordRawState (c : Counters) : Counters :=
  { c with rawStatesPublished := c.rawStatesPublished + 1 }

/-- One tick of the estimator, which may have taken a measurement. -/
def recordTick (c : Counters) (measured : Bool) : Counters :=
  { c with
    estimatorTicks := c.estimatorTicks + 1
    estimatorMeasurements := c.estimatorMeasurements + (if measured then 1 else 0) }

/-- One correction, whose lead time may have been found. -/
def recordAim (c : Counters) (converged : Bool) : Counters :=
  { c with
    aimUpdates := c.aimUpdates + 1
    leadsNotConverged := c.leadsNotConverged + (if converged then 0 else 1) }

/-- One packet, which may have gone out. -/
def recordPacket (c : Counters) (sent : Bool) : Counters :=
  if sent then { c with packetsSent := c.packetsSent + 1 }
  else { c with sendFailures := c.sendFailures + 1 }

/-- What is shown of a counter. -/
def reading (n : Nat) : UInt64 :=
  UInt64.ofNat n

/-- The counters that do not show zero, by name. -/
def readings (c : Counters) : List (String × UInt64) :=
  (Counter.all.map fun k => (k.label, reading (c.get k))).filter fun shown => shown.2 ≠ 0

/-- The quotient of two readings in percent. -/
def percent (part whole : UInt64) : Float :=
  Float.ofInteger part.toNat / Float.ofInteger whole.toNat * 100

/-- The packets that went out, in percent; 100 when there was none to send. -/
def sendSuccessRate (c : Counters) : Float :=
  let total := reading c.packetsSent + reading c.sendFailures
  if total = 0 then 100 else percent (reading c.packetsSent) total

/-- The corrections whose lead time was not found, in percent; zero when there was none. -/
def nonConvergenceRate (c : Counters) : Float :=
  if reading c.aimUpdates = 0 then 0
  else percent (reading c.leadsNotConverged) (reading c.aimUpdates)

end Counters

end FireControl
