import FireControl.Proofs.Numeric.Single
import FireControl.Tracking.Refinement

/-!
# What Refinement Leaves

Refinement drops the detections that are not sure enough and moves the corners of the others into
the image. Both steps meet numbers that are none: a confidence that is NaN is not sure enough,
whatever is asked for, and a coordinate that is NaN stays one, since a clamp compares and no
comparison with it comes out true.

A clamp needs bounds that are not exchanged, and it is the size of the image that gives the upper
one. The last pixel is found in whole numbers, where an empty edge counts as one pixel, and then
rounded once; rounding does not take a number below zero. So the bounds are in order for every
image, and `Detection.refine?`, which has no answer where a clamp finds them exchanged, always has
one.

## Main definitions

* `Float32.clampTo?`, `Detection.refine?`: A clamp that checks its bounds, and refinement with it.
* `Detection.OnEdge`: What becomes of a coordinate along an edge of the image.
* `Detection.Refined`: What becomes of a detection.

## Theorems

* `lastPixel_hasValue`, `zero_le_lastPixel`: The upper bound of an edge.
* `onEdge_clampTo`, `refined_clampCorners`: A clamped coordinate, and a detection with its corners
  clamped.
* `clampCorners_clampCorners`: What has been moved into the image stays where it is.
* `refine?_eq`: No image has bounds that are exchanged.
* `keeps_orders_bounds`: What refinement does to every list of detections.
-/

/-- The number of `[low, high]` nearest to `x`, or nothing where the bounds are exchanged. -/
def Float32.clampTo? (x low high : Float32) : Option Float32 :=
  if low ≤ high then some (x.clampTo low high) else none

namespace FireControl

namespace Detection

open Float.Model

/-! ### Refinement with a check of the bounds -/

/-- The corner inside an image, or nothing where the image gives exchanged bounds. -/
def clampCorner? (width height : UInt32) (k : Keypoint) : Option Keypoint := do
  let x ← k.x.clampTo? 0 (lastPixel width)
  let y ← k.y.clampTo? 0 (lastPixel height)
  return { k with x := x, y := y }

/-- The detection with its corners inside an image, or nothing where the image gives exchanged
bounds. -/
def clampCorners? (width height : UInt32) (d : Detection) : Option Detection := do
  let first ← clampCorner? width height d.corners.first
  let second ← clampCorner? width height d.corners.second
  let third ← clampCorner? width height d.corners.third
  let fourth ← clampCorner? width height d.corners.fourth
  return { d with corners := ⟨first, second, third, fourth⟩ }

/-- The detections of at least the given confidence, with their corners inside the image, or nothing
where the image gives exchanged bounds. -/
def refine? (width height : UInt32) (minConfidence : Float32) (ds : List Detection) :
    Option (List Detection) :=
  (ds.filter (fun d => minConfidence ≤ d.confidence)).mapM (clampCorners? width height)

/-! ### What becomes of a detection -/

/-- What becomes of a coordinate along an edge of `size` pixels: it is NaN exactly where it was;
otherwise it lies on the edge, and where it was if that is on the edge. -/
structure OnEdge (size : UInt32) (before after : Float32) : Prop where
  isNaN : after.isNaN = before.isNaN
  within : before.isNaN = false → 0 ≤ after ∧ after ≤ lastPixel size
  kept : 0 ≤ before → before ≤ lastPixel size → after = before

/-- What becomes of a corner: nothing but its coordinates changes, and each of them comes to lie on
its edge of the image. -/
structure CornerInside (width height : UInt32) (before after : Keypoint) : Prop where
  rest : after = { before with x := after.x, y := after.y }
  horizontal : OnEdge width before.x after.x
  vertical : OnEdge height before.y after.y

/-- What becomes of a detection: nothing but its corners changes, and they come to lie inside the
image. -/
structure Refined (width height : UInt32) (before after : Detection) : Prop where
  rest : after = { before with corners := after.corners }
  corners :
    List.Forall₂ (CornerInside width height) before.corners.toList after.corners.toList

/-! ### Bounds -/

/-- The last pixel is the number nearest to the last of `size` pixels, an empty edge counting as one
pixel. -/
theorem lastPixel_hasValue (size : UInt32) :
    (lastPixel size).HasValue (Format.binary32.rounded ((max size.toNat 1 - 1 : ℕ) : ℚ)) := by
  have hlast : max size.toNat 1 - 1 = size.toNat - 1 := by omega
  have hsmall : size.toNat - 1 ≤ 2 ^ 32 := by
    have := size.toNat_lt
    omega
  rw [hlast]
  exact (Float32.ofInteger_small hsmall (by decide)).1

/-- The bounds of a clamp along an edge are in order, whatever the size of the image. -/
theorem zero_le_lastPixel (size : UInt32) : 0 ≤ lastPixel size := by
  rw [hasValue_zero.le_iff (lastPixel_hasValue size)]
  exact Format.rounded_nonneg (Nat.cast_nonneg _)

/-! ### Coordinates, corners, detections -/

theorem onEdge_clampTo (size : UInt32) (x : Float32) :
    OnEdge size x (x.clampTo 0 (lastPixel size)) where
  isNaN := Float32.isNaN_clampTo x (zero_le_lastPixel size)
  within h := by
    -- A clamped number is a number, and those lie within the bounds.
    have hnumber := (Float32.isNaN_clampTo x (zero_le_lastPixel size)).trans h
    rcases Float32.clampTo_within x (zero_le_lastPixel size) with hnan | hwithin
    · exact absurd (hnumber.symm.trans hnan) Bool.false_ne_true
    · exact hwithin
  kept := Float32.clampTo_eq_self

theorem refined_clampCorners (width height : UInt32) (d : Detection) :
    Refined width height d (d.clampCorners width height) where
  rest := rfl
  corners := by
    have hcorner (k : Keypoint) : CornerInside width height k
        { k with x := k.x.clampTo 0 (lastPixel width), y := k.y.clampTo 0 (lastPixel height) } :=
      ⟨rfl, onEdge_clampTo width k.x, onEdge_clampTo height k.y⟩
    exact .cons (hcorner _) (.cons (hcorner _) (.cons (hcorner _) (.cons (hcorner _) .nil)))

/-- What has been moved into the image stays where it is. -/
theorem clampCorners_clampCorners (width height : UInt32) (d : Detection) :
    (d.clampCorners width height).clampCorners width height = d.clampCorners width height := by
  simp only [clampCorners, Corners.map, Float32.clampTo_clampTo _ (zero_le_lastPixel _)]

theorem clampCorners?_eq (width height : UInt32) (d : Detection) :
    d.clampCorners? width height = some (d.clampCorners width height) := by
  have hcoordinate (size : UInt32) (x : Float32) :
      x.clampTo? 0 (lastPixel size) = some (x.clampTo 0 (lastPixel size)) :=
    if_pos (zero_le_lastPixel size)
  simp only [clampCorners?, clampCorner?, hcoordinate]
  rfl

/-! ### Lists of detections -/

/-- No image has bounds that are exchanged. -/
theorem refine?_eq (width height : UInt32) (minConfidence : Float32) (ds : List Detection) :
    refine? width height minConfidence ds = some (refine width height minConfidence ds) := by
  -- No clamp fails, so neither does the sequence of them.
  have hclamp : clampCorners? width height = fun d => pure (d.clampCorners width height) :=
    funext (clampCorners?_eq width height)
  rw [refine?, hclamp, List.mapM_pure]
  rfl

/-- Refined detections are as sure as they were, so none of them is dropped a second time. -/
theorem refine_refine (width height : UInt32) (minConfidence : Float32) (ds : List Detection) :
    refine width height minConfidence (refine width height minConfidence ds) =
      refine width height minConfidence ds := by
  -- Clamping does not touch the confidence, so the second filter lets everything pass.
  have hsure : ∀ d ∈ refine width height minConfidence ds, minConfidence ≤ d.confidence := by
    intro d hd
    rcases List.mem_map.mp hd with ⟨given, hgiven, rfl⟩
    exact of_decide_eq_true (List.mem_filter.mp hgiven).2
  have hall : (refine width height minConfidence ds).filter
      (fun d => minConfidence ≤ d.confidence) = refine width height minConfidence ds :=
    List.filter_eq_self.mpr fun d hd => decide_eq_true (hsure d hd)
  rw [refine, hall, refine, List.map_map]
  exact List.map_congr_left fun d _ => clampCorners_clampCorners width height d

/-- What refinement does to every list of detections, for an image of any size and whatever
confidence is asked for. Along each edge the upper bound is the single-precision number nearest to
the last pixel, an empty edge counting as one pixel, and it is not below zero, so no clamp finds its
bounds exchanged. What is left are the detections that have at least the confidence asked for, in
their order. None of them has a confidence that is NaN, and none is left where the confidence asked
for is NaN. Of each only the coordinates of its corners have changed: a coordinate is NaN where it
was NaN, it lies on its edge of the image otherwise, and it is the same if it lay there. Refining
them once more changes nothing. -/
theorem keeps_orders_bounds (width height : UInt32) (minConfidence : Float32)
    (ds : List Detection) :
    let refined := refine width height minConfidence ds
    (∀ size : UInt32,
      (lastPixel size).HasValue (Format.binary32.rounded ((max size.toNat 1 - 1 : ℕ) : ℚ)) ∧
      0 ≤ lastPixel size) ∧
    refine? width height minConfidence ds = some refined ∧
    List.Forall₂ (Refined width height) (ds.filter fun d => minConfidence ≤ d.confidence)
      refined ∧
    (∀ d ∈ refined, d.confidence.isNaN = false ∧ minConfidence.isNaN = false) ∧
    refine width height minConfidence refined = refined := by
  intro refined
  refine ⟨fun size => ⟨lastPixel_hasValue size, zero_le_lastPixel size⟩,
    refine?_eq width height minConfidence ds, ?_, fun d hd => ?_,
    refine_refine width height minConfidence ds⟩
  · exact List.forall₂_map_right_iff.mpr
      (List.forall₂_same.mpr fun d _ => refined_clampCorners width height d)
  -- A comparison that holds excludes a NaN on either side.
  · rcases List.mem_map.mp hd with ⟨given, hgiven, rfl⟩
    have hsure : minConfidence ≤ given.confidence :=
      of_decide_eq_true (List.mem_filter.mp hgiven).2
    exact ⟨(Float32.not_isNaN_of_le hsure).2, (Float32.not_isNaN_of_le hsure).1⟩

end Detection

end FireControl
