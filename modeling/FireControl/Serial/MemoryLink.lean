import FireControl.Serial.Link

/-!
# A Link in Memory

A link for tests. It records what was delivered, can be told to fail, and holds bytes that the
controller is supposed to have sent. All handles of one link share this state.

A write ends in one of three ways. While failures are ordered, it fails and uses one up. Otherwise,
while a short write is ordered, that number of bytes counts as written and nothing is recorded.
Otherwise the packet is recorded.

## Main definitions

* `MemoryLink`: The record, the orders and the bytes to read.
* `MemoryLink.link`: The link.
* `MemoryLink.read`: Takes pending bytes into a buffer.
-/

namespace FireControl

/-- The state of a link in memory. -/
structure MemoryLink where
  /-- The packets delivered, the oldest first. -/
  sent : List (List UInt8)
  /-- The bytes that wait to be read. -/
  pending : List UInt8
  /-- How many of the next writes fail. -/
  failures : Nat
  /-- How many bytes each write is to write, if not all. -/
  short : Option Nat
deriving DecidableEq, Repr, Inhabited

namespace MemoryLink

/-- A link with nothing sent, nothing to read and no failure ordered. -/
def start : MemoryLink := ⟨[], [], 0, none⟩

/-- Lets the next `n` writes fail. -/
def failNext (m : MemoryLink) (n : Nat) : MemoryLink := { m with failures := n }

/-- Lets every write stop after the given number of bytes, or lets writes be whole again. -/
def setShort (m : MemoryLink) (written : Option Nat) : MemoryLink := { m with short := written }

/-- Adds bytes to be read. -/
def push (m : MemoryLink) (bytes : List UInt8) : MemoryLink :=
  { m with pending := m.pending ++ bytes }

/-- The failure of an ordered fault. -/
def orderedFailure : LinkError := .io ⟨.other, "mock write failure"⟩

/-- One write, which fails, stays short or is recorded. -/
def write (m : MemoryLink) (bytes : List UInt8) : Delivery MemoryLink :=
  match m.failures, m.short with
  | n + 1, _ => ⟨{ m with failures := n }, .error orderedFailure, []⟩
  | 0, some written => ⟨m, fullWrite written, []⟩
  | 0, none => ⟨{ m with sent := m.sent ++ [bytes] }, .ok (), []⟩

/-- The link over this state. -/
def link : Link MemoryLink := ⟨write⟩

/-- Takes as many pending bytes as the buffer holds. The result is their number, the buffer with its
first bytes replaced, and the link without them. -/
def read (m : MemoryLink) (buffer : List UInt8) : Nat × List UInt8 × MemoryLink :=
  let n := min buffer.length m.pending.length
  (n, m.pending.take n ++ buffer.drop n, { m with pending := m.pending.drop n })

/-- The packets delivered that decode. -/
def sentPackets (m : MemoryLink) : List Packet :=
  m.sent.filterMap (fun bytes => (Packet.decode bytes).toOption)

end MemoryLink

end FireControl
