import FireControl.Gimbal.Command
import FireControl.Proofs.Numeric.Order
import FireControl.Settings.Validation

/-!
# The Pitch Stays Inside Its Limits

A correction reaches the gimbal controller only after a detour: it is added to the present
direction, the sum is brought inside the limits, and the present direction is taken away again. The
pitch that is asked for can be any number or none, since it comes out of trigonometry and out of
divisions. What keeps the gimbal off its end stops is the step in the middle, and it does so
whatever the number is: `Float32.maxNum` answers a NaN with the lower bound.

The step needs room between the bounds, and there is room because limits are validated with the
same two sums that the step computes. The way out that `clampInside` has for limits without room,
the middle of the full range, would ignore the margin; with valid limits it is not taken for the
pitch. It may be taken for the yaw, whose range is validated without the margin.

## Theorems

* `clampInside_between`, `clampInside_within`: Where there is room, the result lies between the
  bounds.
* `clampInside_eq_self`: What lies between the bounds is left as it is.
* `Settings.Valid.gimbal`: Settings that break no rule have valid limits.
* `pitch_stays_inside`: The pitch of every packet leads to a direction inside the limits.
-/

namespace FireControl

section Clamp

variable {low high margin : Float32}

/-- Where the bounds are not exchanged, the middle of the full range is not asked for. -/
theorem clampInside_of_room (x : Float32) (hle : low + margin ≤ high - margin) :
    clampInside x low high margin = (x.maxNum (low + margin)).minNum (high - margin) :=
  if_neg (Float32.not_lt_of_le hle)

/-- Where the bounds are not exchanged, the result lies between them, whatever the number. -/
theorem clampInside_between (x : Float32) (hle : low + margin ≤ high - margin) :
    low + margin ≤ clampInside x low high margin ∧
      clampInside x low high margin ≤ high - margin := by
  -- Bounds that can be compared are numbers, and a number is never passed over for a NaN.
  rcases Float32.not_isNaN_of_le hle with ⟨hlower, hupper⟩
  rw [clampInside_of_room x hle]
  exact ⟨Float32.le_minNum (Float32.le_maxNum x hlower) hle, Float32.minNum_le _ hupper⟩

/-- Where there is room between the bounds, the result lies between them, whatever the number. -/
theorem clampInside_within (x : Float32) (room : low + margin < high - margin) :
    low + margin ≤ clampInside x low high margin ∧
      clampInside x low high margin ≤ high - margin :=
  clampInside_between x (Float32.le_of_lt room)

/-- A number between the bounds is left as it is. -/
theorem clampInside_eq_self {x : Float32} (hle : low + margin ≤ high - margin)
    (lower : low + margin ≤ x) (upper : x ≤ high - margin) : clampInside x low high margin = x := by
  rw [clampInside_of_room x hle, Float32.maxNum_eq_left lower, Float32.minNum_eq_left upper]

end Clamp

/-- Valid limits leave room for the pitch inside the margin. -/
theorem GimbalLimits.Valid.room {limits : GimbalLimits} (valid : limits.Valid) :
    limits.pitchMin + limits.safetyMargin < limits.pitchMax - limits.safetyMargin := by
  unfold Valid isValid at valid
  simp only [Bool.and_eq_true, decide_eq_true_eq] at valid
  exact valid.1.2

/-- Settings without a fault keep every rule. -/
theorem Settings.Valid.keeps {settings : Settings} (valid : settings.Valid)
    {rule : Bool × SettingsFault} (h : rule ∈ settings.rules) : rule.1 = true := by
  unfold Valid fault? at valid
  rw [Option.map_eq_none_iff, List.find?_eq_none] at valid
  have hkept := valid rule h
  rwa [Bool.not_eq_true', Bool.not_eq_false] at hkept

/-- Settings are accepted where they break no rule. -/
theorem Settings.validate_eq_ok_iff (settings : Settings) :
    settings.validate = .ok () ↔ settings.Valid := by
  unfold validate Valid
  cases settings.fault? with
  | none => simp
  | some fault => simp

/-- Settings that break no rule have valid limits. -/
theorem Settings.Valid.gimbal {settings : Settings} (valid : settings.Valid) :
    settings.gimbal.Valid := by
  have hmem : (settings.gimbal.isValid, SettingsFault.gimbalRoom settings.gimbal.safetyMargin) ∈
      settings.rules := by
    simp [rules]
  exact valid.keeps hmem

/-- Settings that pass validation have valid limits, and with valid limits the pitch of every packet
leads to a direction inside them. There is always room between the bounds, so the pitch is never
replaced by the middle of its range: it is raised to the lower bound and lowered to the upper one.
What is sent is the way, in degrees, from the present pitch to a pitch `t` between the bounds, and
`t` is the pitch that was asked for wherever that one lies between them. The fire flag goes along
as it is. -/
theorem AimOutput.pitch_stays_inside :
    (∀ settings : Settings, settings.validate = .ok () → settings.gimbal.Valid) ∧
    ∀ (limits : GimbalLimits) (output : AimOutput) (latest : Option Orientation), limits.Valid →
      let present := (latest.map Orientation.pitchAngle).getD 0
      let lower := limits.pitchMin + limits.safetyMargin
      let upper := limits.pitchMax - limits.safetyMargin
      ¬ upper < lower ∧
      (∀ pitch, limits.clampPitch pitch = (pitch.maxNum lower).minNum upper) ∧
      (∃ t, lower ≤ t ∧ t ≤ upper ∧
        (lower ≤ present - output.pitch ∧ present - output.pitch ≤ upper →
          t = present - output.pitch) ∧
        (output.packet limits latest).pitch = (Angle.toDegrees (present - t)).toBits) ∧
      (output.packet limits latest).fire = output.fire := by
  refine ⟨fun settings h => (settings.validate_eq_ok_iff.mp h).gimbal, ?_⟩
  intro limits output latest valid present lower upper
  have hroom := valid.room
  refine ⟨Float32.not_lt_of_le (Float32.le_of_lt hroom),
    fun pitch => clampInside_of_room pitch (Float32.le_of_lt hroom), ?_, rfl⟩
  -- The packet is made from the clamped pitch, so that is the `t` to name.
  have hwithin := clampInside_within (present - output.pitch) hroom
  refine ⟨limits.clampPitch (present - output.pitch), hwithin.1, hwithin.2, ?_, rfl⟩
  rintro ⟨hlower, hupper⟩
  exact clampInside_eq_self (Float32.le_of_lt hroom) hlower hupper

/-- Under the default settings, a gimbal that looks straight ahead and is asked to look up by a
tenth of a radian does so. -/
theorem AimOutput.pitch_stays_inside_default :
    let output : AimOutput := ⟨0, -0.1, true, false, true, 0, 1, ⟨0, 0, 5⟩, ⟨1⟩, ⟨0⟩⟩
    (default : Settings).validate = .ok () ∧ (default : GimbalLimits).Valid ∧
    ∃ t : Float32, t = 0 - output.pitch ∧
      (output.packet default none).pitch = (Angle.toDegrees (0 - t)).toBits := by
  intro output
  have hvalidate : (default : Settings).validate = .ok () :=
    (Settings.validate_eq_ok_iff default).mpr (by decide +kernel)
  have hvalid : (default : GimbalLimits).Valid := pitch_stays_inside.1 default hvalidate
  rcases pitch_stays_inside.2 default output none hvalid with
    ⟨_, _, ⟨t, _, _, hself, hpitch⟩, _⟩
  exact ⟨hvalidate, hvalid, t, hself (by decide +kernel), hpitch⟩

end FireControl
