import FireControl.Proofs.Gimbal.FiniteAngles

/-!
# The Yaw Between End Stops

On a gimbal with end stops the yaw takes the way of the pitch: it is brought between two bounds, the
ends of its range moved inwards by the margin. For the pitch the room between the bounds is part of
what makes limits valid. For the yaw it is not, since limits ask only that the ends of its range are
in order, and a margin of more than half of the range passes.

So the yaw is kept inside its soft limits exactly where the margin leaves room. Where it does not,
there is no number between the bounds that the clamp could answer with. It answers every request
with the middle of the range, which is off the end stops themselves but inside no margin.

The middle is computed by a sum that may overflow, and only then does it leave the range. Otherwise
it stays inside because rounding keeps the order and doubling a number does not round.

## Main definitions

* `GimbalLimits.KeepsYaw`: Every clamped yaw is inside the soft limits, and one that was inside is
  left alone.

## Theorems

* `middle_between`: The middle of a range lies in it unless the sum of its ends overflows.
* `GimbalLimits.clampYaw_of_exchanged`: Without room every request has the same answer.
* `GimbalLimits.keepsYaw_iff`: The yaw is kept inside exactly where the margin leaves room.
-/

namespace FireControl

open Float.Model

/-- The middle of a range lies in it, unless the sum of its ends overflows. -/
theorem middle_between {low high : Float32} (hlow : low.isFinite = true)
    (hhigh : high.isFinite = true) (hle : low ≤ high) (hsum : (low + high).isFinite = true) :
    low ≤ 0.5 * (low + high) ∧ 0.5 * (low + high) ≤ high := by
  rcases Float32.exists_hasValue hlow with ⟨x, hx, -⟩
  rcases Float32.exists_hasValue hhigh with ⟨y, hy, -⟩
  have hxy : x ≤ y := (hx.le_iff hy).mp hle
  have hs : (low + high).HasValue (Format.binary32.rounded (x + y)) :=
    hx.add hy ((Float32.isFinite_pack_iff (UnpackedFloat.add_hasValue hx hy)).mp hsum)
  have hmiddle := UnpackedFloat.mul_hasValue hasValue_half hs (by decide)
  -- The sum lies between the doubled ends, which are numbers of the format.
  have hlower : 2 * x ≤ Format.binary32.rounded (x + y) := by
    rw [← Format.rounded_two_mul hx.rounded]
    exact Format.rounded_mono (by linarith)
  have hupper : Format.binary32.rounded (x + y) ≤ 2 * y := by
    rw [← Format.rounded_two_mul hy.rounded]
    exact Format.rounded_mono (by linarith)
  constructor
  · refine hx.le_pack hmiddle ?_
    calc x = Format.binary32.rounded x := hx.rounded.symm
      _ ≤ Format.binary32.rounded (1 / 2 * Format.binary32.rounded (x + y)) :=
        Format.rounded_mono (by linarith)
  · refine hy.pack_le hmiddle ?_
    calc Format.binary32.rounded (1 / 2 * Format.binary32.rounded (x + y))
        ≤ Format.binary32.rounded y := Format.rounded_mono (by linarith)
      _ = y := hy.rounded

namespace GimbalLimits

/-- Every clamped yaw is inside the soft limits, and a yaw that was inside is left as it is. -/
def KeepsYaw (limits : GimbalLimits) : Prop :=
  ∀ yaw pitch : Float32,
    let kept := (limits.clamp yaw pitch).1
    let lower := limits.yawMin + limits.safetyMargin
    let upper := limits.yawMax - limits.safetyMargin
    (lower ≤ kept ∧ kept ≤ upper) ∧ (lower ≤ yaw → yaw ≤ upper → kept = yaw)

variable {limits : GimbalLimits}

theorem Valid.yaw_lt (valid : limits.Valid) : limits.yawMin < limits.yawMax := by
  unfold Valid isValid at valid
  simp only [Bool.and_eq_true, decide_eq_true_eq] at valid
  exact valid.2

theorem clampYaw_of_limited (limited : limits.yawLimited = true) (yaw : Float32) :
    limits.clampYaw yaw =
      clampInside yaw limits.yawMin limits.yawMax limits.safetyMargin := by
  rw [clampYaw, if_pos limited]

/-- Without room between the bounds every request has the same answer. -/
theorem clampYaw_of_exchanged (limited : limits.yawLimited = true)
    (hlt : limits.yawMax - limits.safetyMargin < limits.yawMin + limits.safetyMargin)
    (yaw : Float32) : limits.clampYaw yaw = 0.5 * (limits.yawMin + limits.yawMax) := by
  rw [clampYaw_of_limited limited, clampInside, if_pos hlt]

/-- With room between the bounds the yaw is kept inside them. -/
theorem keepsYaw_of_room (limited : limits.yawLimited = true)
    (room : limits.yawMin + limits.safetyMargin ≤ limits.yawMax - limits.safetyMargin) :
    limits.KeepsYaw := by
  intro yaw pitch kept lower upper
  have hkept : kept = clampInside yaw limits.yawMin limits.yawMax limits.safetyMargin :=
    clampYaw_of_limited limited yaw
  rw [hkept]
  exact ⟨clampInside_between yaw room, clampInside_eq_self room⟩

/-- Which limits keep the yaw of a gimbal with end stops inside. A clamped yaw lies between the
bounds, and is the requested one wherever that lies between them, for all requests exactly if the
margin leaves room between the bounds; validation does not see to that. Where there is no room, no
number lies between the bounds, and every request is answered with one and the same yaw. This one
lies between the end stops, unless the sum of the two overflows. -/
theorem keepsYaw_iff (limits : GimbalLimits) (valid : limits.Valid)
    (limited : limits.yawLimited = true) :
    let lower := limits.yawMin + limits.safetyMargin
    let upper := limits.yawMax - limits.safetyMargin
    (limits.KeepsYaw ↔ lower ≤ upper) ∧
    (¬ lower ≤ upper →
      (∀ yaw : Float32, ¬ (lower ≤ yaw ∧ yaw ≤ upper)) ∧
      ∃ middle, (∀ yaw pitch, (limits.clamp yaw pitch).1 = middle) ∧
        ((limits.yawMin + limits.yawMax).isFinite = true →
          limits.yawMin ≤ middle ∧ middle ≤ limits.yawMax)) := by
  intro lower upper
  rcases valid.finite with ⟨-, ⟨hmin, hmax⟩, hmargin, hnonneg⟩
  refine ⟨⟨fun h => ?_, keepsYaw_of_room limited⟩, fun hroom => ⟨?_, ?_⟩⟩
  · -- Whatever the answer to some request is, it separates the bounds.
    rcases (h 0 0).1 with ⟨hlower, hupper⟩
    exact Float32.le_trans hlower hupper
  · rintro yaw ⟨hlower, hupper⟩
    exact hroom (Float32.le_trans hlower hupper)
  · have hlt := bounds_exchanged hmin hmax hmargin hnonneg hroom
    refine ⟨_, fun yaw _ => clampYaw_of_exchanged limited hlt yaw, fun hsum => ?_⟩
    exact middle_between hmin hmax (Float32.le_of_lt valid.yaw_lt) hsum

/-- A gimbal that may turn by a quarter of a radian to either side keeps its yaw inside. -/
theorem keepsYaw_iff_sector :
    let limits : GimbalLimits :=
      { (default : GimbalLimits) with yawMin := -0.25, yawMax := 0.25, yawLimited := true }
    limits.Valid ∧ limits.yawLimited = true ∧ limits.KeepsYaw := by
  intro limits
  have valid : limits.Valid := by decide +kernel
  exact ⟨valid, rfl, (keepsYaw_iff limits valid rfl).1.mpr (by decide +kernel)⟩

/-- Valid limits whose margin is larger than half of the yaw range. The answer to every request is
zero, and the bounds on both sides of it are the wrong ones. -/
theorem not_keepsYaw_narrow :
    let limits : GimbalLimits :=
      { (default : GimbalLimits) with yawMin := -0.04, yawMax := 0.04, yawLimited := true }
    limits.Valid ∧ limits.yawLimited = true ∧ ¬ limits.KeepsYaw := by
  intro limits
  refine ⟨by decide +kernel, rfl, fun h => ?_⟩
  have hlower : ¬ limits.yawMin + limits.safetyMargin ≤ (limits.clamp 0 0).1 := by decide +kernel
  exact hlower (h 0 0).1.1

end GimbalLimits

end FireControl
