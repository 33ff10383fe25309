import FireControl.Decimal.Text
import FireControl.Serial.Link

/-!
# Dry Run

A link that touches no device: every packet is counted, decoded and logged, and every write
succeeds.

## Main definitions

* `DryRun`: The number of packets so far.
* `DryRun.link`: The link.
-/

namespace FireControl

/-- The number of packets that a dry run has taken. -/
structure DryRun where
  packets : Nat
deriving DecidableEq, Repr, Inhabited

namespace DryRun

/-- A dry run before its first packet. -/
def start : DryRun := ⟨0⟩

/-- What the log says about the bytes of packet number `n`. -/
def report (n : Nat) (bytes : List UInt8) : Log.Line :=
  match Packet.decode bytes with
  | .ok p =>
    let yaw := p.yawAngle.fixedText 3
    let pitch := p.pitchAngle.fixedText 3
    Log.info .dryRun s!"[dry-run #{n}] yaw={yaw} pitch={pitch} fire={p.fire}"
  | .error e => Log.warn .dryRun s!"[dry-run #{n}] malformed packet: {e.message}"

/-- The link that only logs. -/
def link : Link DryRun where
  write run bytes :=
    let n := run.packets + 1
    ⟨⟨n⟩, .ok (), [report n bytes]⟩

end DryRun

end FireControl
