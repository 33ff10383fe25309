import FireControl.Console.Connection
import FireControl.Console.Request
import FireControl.Console.Sweep

/-!
# Send Test

The command that sends the test sweep, one packet after the other with a pause behind each, until
the number of packets is reached or the operator asks for the end.

## Main definitions

* `SendTally`: How many packets went out and how many did not.
* `Host.sendSweep`: The packets of the sweep.
* `Host.sendTest`: The command.
-/

namespace FireControl

/-- How many packets went out and how many did not. -/
structure SendTally where
  sent : Nat
  failed : Nat
deriving DecidableEq, Repr

namespace SendTally

/-- The tally with one more packet. -/
def count (tally : SendTally) (sent : Bool) : SendTally :=
  if sent then { tally with sent := tally.sent + 1 } else { tally with failed := tally.failed + 1 }

/-- The tally in words. -/
def text (tally : SendTally) : String :=
  s!"Sent {tally.sent} packets, {tally.failed} failed\n"

end SendTally

/-- What the log says about a packet of the sweep. -/
def Packet.sweepLog (p : Packet) (sent : Bool) : Log.Line :=
  if sent then
    let fire := if p.fire then "TRUE" else "FALSE"
    Log.info .sendTest s!"Sent: yaw={p.yawAngle.text}, pitch={p.pitchAngle.text}, fire={fire}"
  else Log.error .sendTest "Failed to send data"

namespace Host

variable {m : Type → Type} [Monad m]

/-- Sends at most `n` packets of the sweep. -/
def sendSweep (host : Host m) (interval : Span) :
    Nat → Sweep → Connection → SendTally → m (Connection × SendTally)
  | 0, _, connection, tally => return (connection, tally)
  | n + 1, sweep, connection, tally => do
    if ← host.interrupted then return (connection, tally)
    let (packet, sweep) := sweep.next
    let (connection, sent) ← host.send connection packet
    host.log (packet.sweepLog sent)
    host.pause interval
    host.sendSweep interval n sweep connection (tally.count sent)

/-- Sends the test sweep. -/
def sendTest (host : Host m) (options : SendTestOptions) : m (Except CommandFailure Unit) := do
  host.log (Log.info .sendTest "=== Serial send test (yaw, pitch, fire) ===")
  match ← host.connect options.device options.baud options.dryRun with
  | .error e => return .error e
  | .ok connection =>
    let interval := Span.ofMilliseconds options.interval
    let (connection, tally) ←
      host.sendSweep interval options.count Sweep.start connection ⟨0, 0⟩
    host.print tally.text
    host.disconnect options.device connection
    return .ok ()

end Host

end FireControl
