import FireControl.Proofs.Geometry.Degrees
import FireControl.Proofs.Gimbal.PitchLimit
import FireControl.Proofs.Packet.Codec
import FireControl.Proofs.Stages.Transmission

/-!
# Which Angles Reach the Wire

The correction that a packet is made of comes out of trigonometry and divisions, and need not be
finite. The limits are the last thing between it and the wire, and the two axes take different ways
through them.

A clamp answers every number with one between its bounds, a NaN included. It does so for the pitch,
and for the yaw of a gimbal with end stops. Two things are left that can go wrong with finite
limits. The bounds may be so large that they do not fit into degrees; and where the margin leaves no
room between the end stops, which only the pitch is validated for, the middle of the range may be
too large for a number.

Without end stops the yaw is folded, and folding has no answer for what is not finite. Such a yaw
goes out as NaN, so no limits of such a gimbal keep it off the wire.

## Main definitions

* `Orientation.Moderate`: A reading of at most a million degrees.
* `GimbalLimits.YawAnswers`, `GimbalLimits.PitchFits`: What finite angles ask of the limits.
* `AimOutput.ofAngles`: A correction by two angles.

## Theorems

* `clampInside_isFinite_iff`: When the result of a clamp is finite.
* `GimbalLimits.clampPitch_fits_iff`: When every clamped pitch fits into degrees.
* `AimOutput.yaw_isFinite_iff`, `AimOutput.pitch_isFinite_iff`: When an angle of a packet is finite.
* `AimOutput.angles_finite_iff`: When the angles of all packets are finite.
-/

namespace FireControl

open Float.Model

/-- A reading of at most a million degrees in yaw and in pitch. -/
structure Orientation.Moderate (o : Orientation) : Prop where
  yaw_ge : -1000000 ≤ o.yaw
  yaw_le : o.yaw ≤ 1000000
  pitch_ge : -1000000 ≤ o.pitch
  pitch_le : o.pitch ≤ 1000000

/-! ### The clamp -/

section Clamp

variable {x low high margin : Float32}

/-- A margin moves the bounds of a range inwards. -/
theorem bounds_inwards (hlow : low.isFinite = true) (hhigh : high.isFinite = true)
    (hmargin : margin.isFinite = true) (hnonneg : 0 ≤ margin) :
    low ≤ low + margin ∧ high - margin ≤ high := by
  rcases Float32.exists_hasValue hlow with ⟨l, hl, -⟩
  rcases Float32.exists_hasValue hhigh with ⟨h, hh, -⟩
  rcases Float32.exists_hasValue hmargin with ⟨m, hm, -⟩
  have hm0 : 0 ≤ m := (hasValue_zero.le_iff hm).mp hnonneg
  exact ⟨hm.le_add hm0 hl.not_isNaN, hh.sub_le hm hm0⟩

/-- Where a margin leaves no room, the bounds have changed places. -/
theorem bounds_exchanged (hlow : low.isFinite = true) (hhigh : high.isFinite = true)
    (hmargin : margin.isFinite = true) (hnonneg : 0 ≤ margin)
    (hroom : ¬ low + margin ≤ high - margin) : high - margin < low + margin := by
  rcases bounds_inwards hlow hhigh hmargin hnonneg with ⟨hge, hle⟩
  by_contra hnot
  exact hroom (Float32.le_of_not_lt (Float32.not_isNaN_of_le hle).1
    (Float32.not_isNaN_of_le hge).2 hnot)

/-- The result of the clamp is finite where the margin leaves room, and where it does not, if the
middle of the range is. -/
theorem clampInside_isFinite_iff (hlow : low.isFinite = true) (hhigh : high.isFinite = true)
    (hmargin : margin.isFinite = true) (hnonneg : 0 ≤ margin) :
    (clampInside x low high margin).isFinite = true ↔
      low + margin ≤ high - margin ∨ (low + high).isFinite = true := by
  rcases bounds_inwards hlow hhigh hmargin hnonneg with ⟨hge, hle⟩
  by_cases hroom : low + margin ≤ high - margin
  · rcases clampInside_between x hroom with ⟨hlower, hupper⟩
    refine iff_of_true (Float32.isFinite_of_between hlow hhigh ?_ ?_) (Or.inl hroom)
    · exact Float32.le_trans hge hlower
    · exact Float32.le_trans hupper hle
  · -- The bounds have changed places, and the clamp answers with the middle of the range.
    have hexchanged := bounds_exchanged hlow hhigh hmargin hnonneg hroom
    have hmiddle : clampInside x low high margin = 0.5 * (low + high) := if_pos hexchanged
    rw [or_iff_right hroom, hmiddle]
    constructor
    · exact fun hfinite => (Float32.isFinite_of_mul hfinite).2
    · intro hfinite
      rcases Float32.exists_hasValue hfinite with ⟨s, hs, -⟩
      refine (hasValue_half.isFinite_mul_iff hs).mpr (abs_rounded_lt_limit ?_)
      have hgreatest := abs_le_greatest hs
      unfold greatestSingle at hgreatest
      rw [abs_mul, abs_of_pos (by norm_num : (0 : ℚ) < 1 / 2)]
      norm_num at hgreatest ⊢
      linarith

/-- NaN is answered with the lower bound. -/
theorem clampInside_of_isNaN (room : low + margin < high - margin) (hx : x.isNaN = true) :
    clampInside x low high margin = low + margin := by
  rw [clampInside_of_room x (Float32.le_of_lt room), Float32.maxNum, if_pos hx,
    Float32.minNum_eq_left (Float32.le_of_lt room)]

theorem clampInside_of_above (room : low + margin < high - margin) (hx : high - margin < x) :
    clampInside x low high margin = high - margin := by
  have hlower := Float32.le_trans (Float32.le_of_lt room) (Float32.le_of_lt hx)
  have hnumber := (Float32.not_isNaN_of_le (Float32.le_of_lt hx)).2
  rw [clampInside_of_room x (Float32.le_of_lt room), Float32.maxNum_eq_left hlower,
    Float32.minNum, hnumber, if_neg Bool.false_ne_true, if_pos hx]

end Clamp

namespace GimbalLimits

/-- Whether the clamp has an answer for the yaw: the margin leaves room between the end stops, or
the middle between them is a number. -/
def YawAnswers (limits : GimbalLimits) : Prop :=
  limits.yawMin + limits.safetyMargin ≤ limits.yawMax - limits.safetyMargin ∨
    (limits.yawMin + limits.yawMax).isFinite = true

/-- Whether the bounds of the pitch are finite in degrees. -/
def PitchFits (limits : GimbalLimits) : Prop :=
  (Angle.toDegrees (limits.pitchMin + limits.safetyMargin)).isFinite = true ∧
    (Angle.toDegrees (limits.pitchMax - limits.safetyMargin)).isFinite = true

instance (limits : GimbalLimits) : Decidable limits.YawAnswers :=
  inferInstanceAs (Decidable (_ ∨ _))

instance (limits : GimbalLimits) : Decidable limits.PitchFits :=
  inferInstanceAs (Decidable (_ ∧ _))

variable {limits : GimbalLimits} {small : Float32} {v : ℚ}

theorem Valid.finite (valid : limits.Valid) :
    (limits.pitchMin.isFinite = true ∧ limits.pitchMax.isFinite = true) ∧
      (limits.yawMin.isFinite = true ∧ limits.yawMax.isFinite = true) ∧
      limits.safetyMargin.isFinite = true ∧ 0 ≤ limits.safetyMargin := by
  unfold Valid isValid at valid
  simp only [Bool.and_eq_true, decide_eq_true_eq] at valid
  rcases valid with ⟨⟨⟨⟨⟨⟨⟨hpmin, hpmax⟩, hymin⟩, hymax⟩, hmargin⟩, hnonneg⟩, -⟩, -⟩
  exact ⟨⟨hpmin, hpmax⟩, ⟨hymin, hymax⟩, hmargin, hnonneg⟩

theorem Valid.upper_isFinite (valid : limits.Valid) :
    (limits.pitchMax - limits.safetyMargin).isFinite = true := by
  rcases valid.finite with ⟨⟨hmin, hmax⟩, -, hmargin, hnonneg⟩
  rcases bounds_inwards hmin hmax hmargin hnonneg with ⟨hge, hle⟩
  exact Float32.isFinite_of_between hmin hmax (Float32.le_trans hge (Float32.le_of_lt valid.room))
    hle

theorem clampYaw_isFinite_iff (valid : limits.Valid) (hv : small.HasValue v) (hsmall : |v| ≤ 2 ^ 15)
    (yaw : Float32) : (limits.clampYaw (small + yaw)).isFinite = true ↔
      if limits.yawLimited then limits.YawAnswers else yaw.isFinite = true := by
  rcases valid.finite with ⟨-, ⟨hmin, hmax⟩, hmargin, hnonneg⟩
  unfold clampYaw
  -- A limited yaw is clamped between finite ends; a free one is folded, as finite as the sum.
  cases limits.yawLimited with
  | true => exact clampInside_isFinite_iff hmin hmax hmargin hnonneg
  | false =>
      simp only [Bool.false_eq_true, if_false]
      rw [Angle.fold_isFinite_iff]
      constructor
      · exact fun h => (Float32.isFinite_of_add h).2
      · intro h
        rcases Float32.exists_hasValue h with ⟨y, hy, -⟩
        exact (hv.small_add hy (hsmall.trans (by norm_num))).isFinite

theorem clampPitch_isFinite (valid : limits.Valid) (pitch : Float32) :
    (limits.clampPitch pitch).isFinite = true := by
  rcases valid.finite with ⟨⟨hmin, hmax⟩, -, hmargin, hnonneg⟩
  exact (clampInside_isFinite_iff hmin hmax hmargin hnonneg).mpr
    (Or.inl (Float32.le_of_lt valid.room))

/-- The clamped pitch fits into degrees, whatever was asked for, if both bounds do. -/
theorem clampPitch_fits_iff (valid : limits.Valid) (hv : small.HasValue v) :
    (∀ pitch, (Angle.toDegrees (limits.clampPitch (small - pitch))).isFinite = true) ↔
      limits.PitchFits := by
  constructor
  · intro h
    -- The bounds are the answers to NaN and to what is above all numbers.
    have hlower := h (.ofBits 0x7FC00000)
    have hupper := h (.ofBits 0xFF800000)
    have hnan : (small - .ofBits 0x7FC00000).isNaN = true := hv.isNaN_sub rfl
    rcases Float32.exists_hasValue valid.upper_isFinite with ⟨u, hu, -⟩
    rw [clampPitch, clampInside_of_isNaN valid.room hnan] at hlower
    rw [clampPitch, clampInside_of_above valid.room (hu.lt_sub hv rfl)] at hupper
    exact ⟨hlower, hupper⟩
  · rintro ⟨hlow, hhigh⟩ pitch
    rcases clampInside_within (small - pitch) valid.room with ⟨hge, hle⟩
    exact Angle.toDegrees_isFinite_of_between hlow hhigh hge hle

end GimbalLimits

/-- What is read off a moderate reading, or is zero without one, is a small number. -/
theorem exists_hasValue_present {latest : Option Orientation} (angle : Orientation → Float32)
    (h : ∀ o ∈ latest, ∃ v : ℚ, |v| ≤ 2 ^ 15 ∧ (angle o).HasValue v) :
    ∃ v : ℚ, |v| ≤ 2 ^ 15 ∧ ((latest.map angle).getD 0).HasValue v := by
  cases latest with
  | none => exact ⟨0, by norm_num, hasValue_zero⟩
  | some o => exact h o rfl

namespace AimOutput

/-- A correction by two angles, which is all that the limits look at. -/
def ofAngles (yaw pitch : Float32) : AimOutput :=
  ⟨yaw, pitch, false, false, true, 0, 1, ⟨0, 0, 5⟩, ⟨1⟩, ⟨0⟩⟩

variable {limits : GimbalLimits} {latest : Option Orientation}

/-- The yaw of a packet is finite if the limits have an answer for it, or if it was finite where
there are no end stops. -/
theorem yaw_isFinite_iff (valid : limits.Valid) (moderate : ∀ o ∈ latest, o.Moderate)
    (output : AimOutput) : (output.packet limits latest).yawAngle.isFinite = true ↔
      if limits.yawLimited then limits.YawAnswers else output.yaw.isFinite = true := by
  have hpresent := exists_hasValue_present Orientation.yawAngle fun o ho =>
    Angle.ofDegrees_hasValue (moderate o ho).yaw_ge (moderate o ho).yaw_le
  rcases hpresent with ⟨v, hsmall, hv⟩
  have hangle : (output.packet limits latest).yawAngle = _ := Float32.ofBits_toBits _
  rw [← limits.clampYaw_isFinite_iff valid hv hsmall, hangle, Angle.toDegrees_wrap_isFinite_iff]
  constructor
  · exact fun h => (Float32.isFinite_of_sub h).1
  · intro h
    rcases Float32.exists_hasValue h with ⟨t, ht, -⟩
    exact (ht.sub_small hv (hsmall.trans (by norm_num))).isFinite

theorem exists_hasValue_present_pitch (moderate : ∀ o ∈ latest, o.Moderate) :
    ∃ v : ℚ, |v| ≤ 2 ^ 15 ∧ ((latest.map Orientation.pitchAngle).getD 0).HasValue v :=
  exists_hasValue_present Orientation.pitchAngle fun o ho =>
    Angle.ofDegrees_hasValue (moderate o ho).pitch_ge (moderate o ho).pitch_le

/-- The pitch of a packet is finite if the clamped one fits into degrees. -/
theorem pitch_isFinite_iff (valid : limits.Valid) (moderate : ∀ o ∈ latest, o.Moderate)
    (output : AimOutput) : (output.packet limits latest).pitchAngle.isFinite = true ↔
      (Angle.toDegrees (limits.clampPitch ((latest.map Orientation.pitchAngle).getD 0 -
        output.pitch))).isFinite = true := by
  rcases exists_hasValue_present_pitch moderate with ⟨v, hsmall, hv⟩
  have hangle : (output.packet limits latest).pitchAngle = _ := Float32.ofBits_toBits _
  rw [hangle]
  exact Angle.toDegrees_sub_isFinite_iff hv hsmall (limits.clampPitch_isFinite valid _)

/-- Which angles reach the wire, under valid limits and a moderate reading or none. On a gimbal with
end stops the yaw of a packet is finite if the limits have an answer for it, which does not depend
on the correction; on a gimbal without them it is finite if the yaw of the correction is. The pitch
is finite if the clamped pitch fits into degrees. A link is handed the bytes of the packet once, and
they are decoded to these angles. So all corrections lead to finite angles exactly if there are end
stops, the limits have an answer for the yaw, and the bounds of the pitch fit into degrees. -/
theorem angles_finite_iff (limits : GimbalLimits) (latest : Option Orientation)
    (valid : limits.Valid) (moderate : ∀ o ∈ latest, o.Moderate) :
    (∀ output : AimOutput,
      let packet := output.packet limits latest
      let present := (latest.map Orientation.pitchAngle).getD 0
      (packet.yawAngle.isFinite = true ↔
        if limits.yawLimited then limits.YawAnswers else output.yaw.isFinite = true) ∧
      (packet.pitchAngle.isFinite = true ↔
        (Angle.toDegrees (limits.clampPitch (present - output.pitch))).isFinite = true) ∧
      ∀ {σ : Type} (link : Link σ) (state : σ) (record : List WriteAttempt) (cursor : Cursor),
        ∃ attempt, ((⟨limits, cursor⟩ : Transmitter).send link.recorded (state, record) output
            latest).state.2 = record ++ [attempt] ∧ Packet.decode attempt.bytes = .ok packet) ∧
    ((∀ output : AimOutput, (output.packet limits latest).yawAngle.isFinite = true ∧
        (output.packet limits latest).pitchAngle.isFinite = true) ↔
      limits.yawLimited = true ∧ limits.YawAnswers ∧ limits.PitchFits) := by
  refine ⟨fun output => ⟨yaw_isFinite_iff valid moderate output,
    pitch_isFinite_iff valid moderate output, ?_⟩, ?_⟩
  · intro σ link state record cursor
    rw [Transmitter.send, Link.send_recorded]
    exact ⟨_, rfl, Packet.decode_encode _⟩
  · rcases exists_hasValue_present_pitch moderate with ⟨v, -, hv⟩
    have hpitch : (∀ output : AimOutput, (output.packet limits latest).pitchAngle.isFinite = true) ↔
        limits.PitchFits := by
      rw [← limits.clampPitch_fits_iff valid hv]
      -- Every pitch is that of some correction.
      constructor
      · exact fun h pitch => (pitch_isFinite_iff valid moderate (ofAngles 0 pitch)).mp (h _)
      · exact fun h output => (pitch_isFinite_iff valid moderate output).mpr (h output.pitch)
    have hyaw : (∀ output : AimOutput, (output.packet limits latest).yawAngle.isFinite = true) ↔
        limits.yawLimited = true ∧ limits.YawAnswers := by
      constructor
      · intro h
        -- A correction that is NaN in yaw is finite on the wire only where there are end stops.
        have hnan := (yaw_isFinite_iff valid moderate (ofAngles (.ofBits 0x7FC00000) 0)).mp (h _)
        split at hnan
        · exact ⟨‹_›, hnan⟩
        · exact absurd hnan (by decide)
      · rintro ⟨hlimited, hanswers⟩ output
        exact (yaw_isFinite_iff valid moderate output).mpr (by rwa [if_pos hlimited])
    rw [forall_and, hyaw, hpitch, and_assoc]

/-- A gimbal with end stops and the usual limits sends finite angles whatever the correction is. -/
theorem angles_finite_endStops :
    let limits : GimbalLimits := { (default : GimbalLimits) with yawLimited := true }
    let reading : Orientation := ⟨⟨0⟩, 0, -10, 30⟩
    limits.Valid ∧ reading.Moderate ∧ ∀ output : AimOutput,
      (output.packet limits (some reading)).yawAngle.isFinite = true ∧
        (output.packet limits (some reading)).pitchAngle.isFinite = true := by
  intro limits reading
  have valid : limits.Valid := by decide +kernel
  have moderate : reading.Moderate :=
    ⟨by decide +kernel, by decide +kernel, by decide +kernel, by decide +kernel⟩
  refine ⟨valid, moderate, (angles_finite_iff limits (some reading) valid ?_).2.mpr ?_⟩
  · rintro o ⟨⟩
    exact moderate
  · exact ⟨rfl, by decide +kernel, by decide +kernel⟩

/-- Three valid limits that let an angle through which is not finite: a NaN in yaw on a gimbal that
turns freely, a pitch range that does not fit into degrees, and a margin that leaves no room between
end stops in yaw whose middle overflows. -/
theorem angles_not_finite :
    let nan : Float32 := .ofBits 0x7FC00000
    let free : GimbalLimits := default
    let tall : GimbalLimits := { (default : GimbalLimits) with pitchMax := 3e38 }
    let narrow : GimbalLimits := ⟨-3e38, 3e38, 3e38, 3.1e38, 1e38, true⟩
    (free.Valid ∧ ((ofAngles nan 0).packet free none).yawAngle.isFinite = false) ∧
    (tall.Valid ∧ ((ofAngles 0 (-3e38)).packet tall none).pitchAngle.isFinite = false) ∧
    (narrow.Valid ∧ ((ofAngles 0 0).packet narrow none).yawAngle.isFinite = false) := by
  decide +kernel

end AimOutput

end FireControl
