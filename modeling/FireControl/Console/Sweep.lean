import FireControl.Packet.Basic

/-!
# Test Sweep

The packets with which a gimbal controller is tested. From packet to packet yaw goes on by one
degree and starts again at zero after 360, pitch goes on by half a degree and starts again at -90
after 90, and the fire flag changes with every fifth packet.

## Main definitions

* `Sweep`: What the packet before held.
* `Sweep.next`: The next packet.
* `Sweep.packets`: The packets in order.
-/

namespace FireControl

/-- What the packet before held, and its number. -/
structure Sweep where
  yaw : Float32
  pitch : Float32
  fire : Bool
  count : Nat
deriving DecidableEq

namespace Sweep

/-- The sweep before its first packet. -/
def start : Sweep := ⟨0, 0, false, 0⟩

/-- An angle moved on by a step, back to `first` where it goes beyond `last`. -/
def stepAngle (angle step first last : Float32) : Float32 :=
  if last < angle + step then first else angle + step

/-- The sweep after one more packet. -/
def advance (s : Sweep) : Sweep :=
  { yaw := stepAngle s.yaw 1 0 360, pitch := stepAngle s.pitch 0.5 (-90) 90,
    fire := if (s.count + 1) % 5 = 0 then !s.fire else s.fire, count := s.count + 1 }

/-- The packet that a sweep stands at. -/
def packet (s : Sweep) : Packet :=
  Packet.ofAngles s.yaw s.pitch s.fire

/-- The next packet, and the sweep after it. -/
def next (s : Sweep) : Packet × Sweep :=
  (s.advance.packet, s.advance)

/-- The sweep after `n` packets. -/
def after : Nat → Sweep → Sweep
  | 0, s => s
  | n + 1, s => after n s.advance

/-- The next `n` packets. -/
def packets : Nat → Sweep → List Packet
  | 0, _ => []
  | n + 1, s => s.advance.packet :: packets n s.advance

end Sweep

end FireControl
