import FireControl.Tracking.Tracker

/-!
# Playback

A detection model that plays back detections and poses, to try the stages behind it without one.

## Main definitions

* `Playback`: What the model plays back.
* `Detector.playback`: The model.
-/

namespace FireControl

/-- What a detection model plays back. -/
structure Playback where
  detections : List Detection
  /-- Places and headings for the first detections whose poses are asked for. -/
  poses : List (Vec3Bits × Float32)
  /-- How many detections there were when poses were asked for last. -/
  refined : Nat
deriving Inhabited

namespace Playback

/-- Detections with poses in order; those beyond the poses stay as they are. -/
def place : List (Vec3Bits × Float32) → List Detection → List Detection
  | (centre, yaw) :: poses, d :: ds => { d with place := centre, yaw := yaw } :: place poses ds
  | [], ds => ds
  | _, [] => []

end Playback

/-- The detection model that plays back. -/
def Detector.playback : Detector Playback where
  detect p _ := (p.detections, p)
  estimatePose p ds := (Playback.place p.poses ds, { p with refined := ds.length })

end FireControl
