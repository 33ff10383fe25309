import FireControl.Log
import FireControl.Sensor.Time
import FireControl.Serial.BaudRate
import FireControl.Serial.Link

/-!
# Hosts

What a command needs from the system it runs on. Commands are written against this interface, so
that the same command runs on a real system and on one in memory.

## Main definitions

* `Host`: The operations of a system.
* `Host.logAll`: Several lines of the log.
-/

namespace FireControl

/-- The operations of a system, with effects in `m`. -/
structure Host (m : Type → Type) where
  readFile : String → m (Except IoFailure ByteArray)
  /-- Writes a text to a file, as a new one or over an old one. -/
  writeFile : String → String → m (Except IoFailure Unit)
  /-- Creates a directory, and all directories on the way to it, for the files of the log. -/
  openLog : String → m (Except IoFailure Unit)
  /-- Opens a serial device for reading and writing. -/
  openDevice : String → m (Except IoFailure Unit)
  /-- Makes the open device a raw terminal of a line speed. -/
  configureDevice : BaudRate → m (Except String Unit)
  /-- Writes bytes to the open device, once. -/
  writeDevice : List UInt8 → m (Except LinkError Unit)
  log : Log.Line → m Unit
  /-- Shows a text to the operator. -/
  print : String → m Unit
  /-- Shows the report of a failure to the operator. -/
  printError : String → m Unit
  now : m Instant
  /-- Something that differs from run to run. -/
  entropy : m UInt64
  /-- Whether the operator has asked for the end. -/
  interrupted : m Bool
  /-- Waits, but not beyond the moment at which the operator asks for the end. -/
  pause : Span → m Unit
  /-- Repeats a step until the operator asks for the end. -/
  untilInterrupted : {σ : Type} → (σ → m σ) → σ → m σ

/-- Writes several lines to the log. -/
def Host.logAll {m : Type → Type} [Monad m] (host : Host m) (lines : List Log.Line) : m Unit :=
  lines.forM host.log

end FireControl
