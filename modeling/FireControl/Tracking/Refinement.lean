import FireControl.Numeric.Order
import FireControl.Robot.Detection
import FireControl.Sensor.Orientation

/-!
# Refinement of Detections

What happens to detections besides the detection model: doubtful ones are dropped, corners are
brought inside the image, and poses are moved from the camera frame to the world frame.

## Main definitions

* `Detection.refine`: Drops doubtful detections and clamps the corners of the others.
* `Detection.toWorld`: A detection in the world frame.
-/

namespace FireControl

namespace Detection

/-- The greatest pixel coordinate along an edge of `size` pixels; zero for an empty edge. -/
def lastPixel (size : UInt32) : Float32 :=
  Float32.ofInteger (size.toNat - 1 : Nat)

/-- The detection with its corners inside an image. -/
def clampCorners (width height : UInt32) (d : Detection) : Detection :=
  { d with
    corners := d.corners.map fun k =>
      { k with x := k.x.clampTo 0 (lastPixel width), y := k.y.clampTo 0 (lastPixel height) } }

/-- The detections of at least the given confidence, with their corners inside the image. -/
def refine (width height : UInt32) (minConfidence : Float32) (ds : List Detection) :
    List Detection :=
  (ds.filter (fun d => minConfidence ≤ d.confidence)).map (clampCorners width height)

/-- The detection in the world frame, under the latest reading of the orientation. -/
def toWorld [ElementaryFunctions] (latest : Option Orientation) (d : Detection) : Detection :=
  { d with
    place := ((Orientation.cameraToWorld latest).apply d.position).bits
    yaw := d.yaw + (latest.map Orientation.yawAngle).getD 0 }

end Detection

end FireControl
