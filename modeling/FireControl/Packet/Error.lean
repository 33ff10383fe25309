import FireControl.Decimal.Digits

/-!
# Faults of a Packet

The four ways in which received bytes are no packet. Each carries the values that were found.

## Main definitions

* `PacketError`: A fault of received bytes.
* `PacketError.message`: The fault in words.
-/

namespace FireControl

/-- A fault of received bytes. -/
inductive PacketError where
  /-- The number of bytes is wrong. -/
  | length (expected actual : Nat)
  /-- The first byte does not open a packet. -/
  | header (found : UInt8)
  /-- The last byte is not the checksum of the others. -/
  | checksum (expected actual : UInt8)
  /-- A field holds a byte that has no meaning there. -/
  | value (field : String) (found : UInt8)
deriving DecidableEq, Repr

/-- A byte as two upper-case hexadecimal digits. -/
def hexByte (b : UInt8) : String :=
  String.ofList ((padLeft 2 '0' (Nat.toDigits 16 b.toNat)).map Char.toUpper)

/-- The fault in words. -/
def PacketError.message : PacketError → String
  | .length expected actual => s!"Invalid packet length: expected {expected}, got {actual}"
  | .header found => "Invalid packet header: 0x" ++ hexByte found
  | .checksum expected actual =>
    "Checksum mismatch: expected 0x" ++ hexByte expected ++ ", got 0x" ++ hexByte actual
  | .value field found => s!"Invalid value for field {field}: {found.toNat}"

end FireControl
