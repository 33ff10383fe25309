import FireControl.IoFailure
import FireControl.Sensor.Orientation

/-!
# Devices

The camera and the inertial measurement unit, as far as the pipeline sees them: each reading is a
value or a failure. A timeout is the ordinary case that nothing new is there yet.

## Main definitions

* `Frame`: A camera image.
* `DeviceError`: Why a reading failed.
* `DeviceError.isTimeout`: Whether the failure is the ordinary case.
* `Frame.blank`: The image of a camera without a sensor.
* `Device`: A device that is read again and again.
* `Camera.blank`, `InertialUnit.level`: Devices that stand in for real ones.
-/

namespace FireControl

/-- A camera image with its raw bytes. -/
structure Frame where
  time : Instant
  width : UInt32
  height : UInt32
  data : ByteArray
deriving Inhabited

/-- The image of a camera without a sensor: three zero bytes for each pixel. -/
def Frame.blank (time : Instant) (width height : UInt32) : Frame :=
  { time := time, width := width, height := height,
    data := ⟨Array.replicate (width.toNat * height.toNat * 3) 0⟩ }

/-- Why a reading failed. -/
inductive DeviceError where
  /-- Nothing new is there yet. -/
  | timeout
  /-- The device is gone. -/
  | disconnected (text : String)
  /-- The operating system refused. -/
  | io (cause : IoFailure)
deriving DecidableEq, Repr

namespace DeviceError

/-- The failure in words. -/
def message : DeviceError → String
  | .timeout => "Device read timeout"
  | .disconnected text => "Device disconnected: " ++ text
  | .io cause => "Device IO error: " ++ cause.text

/-- Whether the failure only says that nothing new is there yet. -/
def isTimeout : DeviceError → Bool
  | .timeout => true
  | .disconnected _ => false
  | .io _ => false

end DeviceError

/-- A device that is read again and again. -/
structure Device (α : Type) where
  /-- How long a reading takes. -/
  interval : Span
  /-- What a reading gives that ends at a moment; nothing if the reader crashes. -/
  read : Instant → Option (Except DeviceError α)

/-- A camera. -/
abbrev Camera := Device Frame

/-- An inertial measurement unit. -/
abbrev InertialUnit := Device Orientation

/-- A camera without a sensor, a hundred times a second. -/
def Camera.blank (width height : UInt32) : Camera where
  interval := .ofMilliseconds 10
  read now := some (.ok (Frame.blank now width height))

/-- An inertial measurement unit that never moves, a thousand times a second. -/
def InertialUnit.level : InertialUnit where
  interval := .ofMilliseconds 1
  read now := some (.ok (Orientation.level now))

end FireControl
