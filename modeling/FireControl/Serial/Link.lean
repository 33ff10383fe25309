import FireControl.IoFailure
import FireControl.Log
import FireControl.Packet.Basic

/-!
# Serial Links

A link takes the eleven bytes of a packet and either delivers all of them or fails. There is no
second attempt: a correction that is late is worth less than the next one.

A link is a write function over a state of its own, so that one development covers the real device,
the dry run and the link in memory.

## Main definitions

* `LinkError`: Why a link failed.
* `Link`: A way to deliver packets.
* `Link.send`: Encodes a packet, delivers it, and reports a failure.
* `Link.optional`: A link that may be missing.
* `fullWrite`: The check that nothing of a packet is missing.
-/

namespace FireControl

/-- Why a link failed. -/
inductive LinkError where
  /-- The operating system refused. -/
  | io (cause : IoFailure)
  /-- The device could not be configured as a terminal. -/
  | terminal (text : String)
  /-- The device has been closed. -/
  | notOpen
  /-- Only a part of the packet was written. -/
  | shortWrite (expected written : Nat)
  /-- There is no driver for this platform. -/
  | unsupportedPlatform
deriving DecidableEq, Repr

/-- The failure in words. -/
def LinkError.message : LinkError → String
  | .io cause => "IO Error: " ++ cause.text
  | .terminal text => "Termios configuration failed: " ++ text
  | .notOpen => "Device not open"
  | .shortWrite expected written => s!"Short write: expected {expected} bytes, wrote {written}"
  | .unsupportedPlatform => "Serial backend is not supported on this platform"

/-- Whether all bytes of a packet were written. -/
def fullWrite (written : Nat) : Except LinkError Unit :=
  if written = Packet.length then .ok () else .error (.shortWrite Packet.length written)

/-- What became of the bytes handed to a link. -/
structure Delivery (σ : Type) where
  /-- The link afterwards. -/
  state : σ
  /-- Whether all bytes were written. -/
  result : Except LinkError Unit
  /-- What the link reports. -/
  log : List Log.Line

/-- A way to deliver packets, with a state of type `σ`. -/
structure Link (σ : Type) where
  write : σ → List UInt8 → Delivery σ

/-- What became of a packet. -/
structure Transmission (σ : Type) where
  /-- The link afterwards. -/
  state : σ
  /-- Whether the packet went out. -/
  sent : Bool
  /-- What the link reports, and the failure if there was one. -/
  log : List Log.Line

/-- Encodes a packet and hands it to the link once. A failure is reported and not repeated. -/
def Link.send {σ : Type} (link : Link σ) (state : σ) (packet : Packet) : Transmission σ :=
  let delivery := link.write state packet.encode
  match delivery.result with
  | .ok () => ⟨delivery.state, true, delivery.log⟩
  | .error e =>
    ⟨delivery.state, false,
      delivery.log ++ [Log.error .serial ("Failed to send aim packet: " ++ e.message)]⟩

/-- A link that may be missing. Without it every write fails. -/
def Link.optional {σ : Type} (link : Link σ) : Link (Option σ) where
  write state bytes :=
    match state with
    | some s =>
      let delivery := link.write s bytes
      ⟨some delivery.state, delivery.result, delivery.log⟩
    | none => ⟨none, .error .notOpen, []⟩

end FireControl
