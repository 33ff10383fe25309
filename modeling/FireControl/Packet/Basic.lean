import FireControl.Packet.Error

/-!
# Aim Packets

The fixed eleven bytes that carry one correction to the gimbal controller:

| bytes | content |
|---|---|
| 0 | the header `AA` |
| 1 to 4 | the yaw correction, a binary32 pattern, low byte first |
| 5 to 8 | the pitch correction, likewise |
| 9 | `01` to fire, `00` to hold |
| 10 | the exclusive or of the ten bytes before it |

A packet holds the two angles as bit patterns, not as numbers. The wire can carry every pattern, and
two patterns that are both no number are still different packets.

## Main definitions

* `Packet`: An aim packet.
* `Packet.encode`: Its eleven bytes.
* `Packet.decode`: The packet that bytes stand for, or the first fault found in the order length,
  header, checksum, fire flag.
* `checksum`: The exclusive or of bytes.
-/

namespace FireControl

/-- The exclusive or of all bytes. -/
def checksum (bytes : List UInt8) : UInt8 :=
  bytes.foldl (· ^^^ ·) 0

/-- The four bytes of a word, the lowest first. -/
def littleEndian (word : UInt32) : List UInt8 :=
  [word.toUInt8, (word >>> 8).toUInt8, (word >>> 16).toUInt8, (word >>> 24).toUInt8]

/-- The word of four bytes, the lowest first. -/
def ofLittleEndian (b₀ b₁ b₂ b₃ : UInt8) : UInt32 :=
  b₀.toUInt32 ||| (b₁.toUInt32 <<< 8) ||| (b₂.toUInt32 <<< 16) ||| (b₃.toUInt32 <<< 24)

/-- A correction for the gimbal controller. Both angles are binary32 patterns. -/
structure Packet where
  yaw : UInt32
  pitch : UInt32
  fire : Bool
deriving DecidableEq, Repr

namespace Packet

/-- The byte that opens a packet. -/
def header : UInt8 := 0xAA

/-- The number of bytes of a packet. -/
def length : Nat := 11

/-- The byte of a fire flag. -/
def fireByte (fire : Bool) : UInt8 :=
  if fire then 0x01 else 0x00

/-- The packet of two angles. -/
def ofAngles (yaw pitch : Float32) (fire : Bool) : Packet :=
  ⟨yaw.toBits, pitch.toBits, fire⟩

/-- The yaw correction as a number. -/
def yawAngle (p : Packet) : Float32 := Float32.ofBits p.yaw

/-- The pitch correction as a number. -/
def pitchAngle (p : Packet) : Float32 := Float32.ofBits p.pitch

/-- The ten bytes that the checksum covers. -/
def body (p : Packet) : List UInt8 :=
  header :: littleEndian p.yaw ++ littleEndian p.pitch ++ [fireByte p.fire]

/-- The eleven bytes of a packet. -/
def encode (p : Packet) : List UInt8 :=
  p.body ++ [checksum p.body]

/-- The fire flag that a byte stands for. -/
def decodeFire (b : UInt8) : Except PacketError Bool :=
  if b = 0x01 then .ok true
  else if b = 0x00 then .ok false
  else .error (.value "fire" b)

/-- The packet that bytes stand for. The first fault counts, in the order length, header, checksum,
fire flag. -/
def decode (bytes : List UInt8) : Except PacketError Packet :=
  match bytes with
  | [b₀, b₁, b₂, b₃, b₄, b₅, b₆, b₇, b₈, b₉, b₁₀] =>
    let expected := checksum [b₀, b₁, b₂, b₃, b₄, b₅, b₆, b₇, b₈, b₉]
    if b₀ ≠ header then .error (.header b₀)
    else if b₁₀ ≠ expected then .error (.checksum expected b₁₀)
    else
      (decodeFire b₉).map fun fire =>
        { yaw := ofLittleEndian b₁ b₂ b₃ b₄, pitch := ofLittleEndian b₅ b₆ b₇ b₈, fire := fire }
  | _ => .error (.length length bytes.length)

end Packet

end FireControl
