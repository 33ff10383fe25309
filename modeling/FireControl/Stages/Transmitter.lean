import FireControl.Exchange.Board
import FireControl.Gimbal.Command
import FireControl.Serial.Link

/-!
# Transmission Stage

Takes the newest correction from the board, if it is new, and hands its packet to the link once. A
correction counts as taken whether the packet goes out or not.

## Main definitions

* `Transmitter`: The limits of the gimbal and a cursor.
* `Transmitter.poll`: One turn.
-/

namespace FireControl

/-- The limits of the gimbal and the version of the correction taken last. -/
structure Transmitter where
  limits : GimbalLimits
  cursor : Cursor

namespace Transmitter

/-- The stage before its first correction. -/
def new (limits : GimbalLimits) : Transmitter :=
  ⟨limits, .start⟩

/-- Sends the packet of a correction. -/
def send {σ : Type} (stage : Transmitter) (link : Link σ) (state : σ) (output : AimOutput)
    (latest : Option Orientation) : Transmission σ :=
  link.send state (output.packet stage.limits latest)

/-- One turn: what became of the packet of the newest correction, or nothing where no correction is
new. -/
def poll {σ : Type} (stage : Transmitter) (link : Link σ) (state : σ) (board : Board) :
    Option (Transmission σ) × Transmitter :=
  let (news, cursor) := stage.cursor.poll board.aim
  match news with
  | none => (none, stage)
  | some snapshot =>
    (some (stage.send link state snapshot.value board.latestOrientation),
      { stage with cursor := cursor })

end Transmitter

end FireControl
