import FireControl.Geometry.Plate
import FireControl.Gimbal.Limits
import FireControl.Proofs.Numeric.Accumulation
import FireControl.Proofs.Numeric.Grid

/-!
# The Seam of the Circle

A folded angle is at least minus half a turn and less than half a turn. The upper end is in danger:
folding takes a Euclidean remainder, and the remainder of a tiny negative number is rounded up to
the whole turn. `Angle.wrap` checks for that once more, while `Angle.fold`, which the gimbal limits
use, and `Plate.facing` do not.

They need not. A remainder is rounded only where the angle lies below minus half a turn. So far out
all numbers lie on the grid of the last place of half a turn, and with them the sum and its
remainder. The greatest remainder on that grid is half-way between the turn and the number before
it, and which way it goes is a matter of the digits of π: the mantissa of the rounded π is odd, so
the even neighbour is the lower one. An eighth of a turn has the digits of half a turn, so the
quarter turn that faces the camera is closed in the same way.

The same grid makes the last subtraction exact. So what was subtracted comes back when a folded
angle is folded again, and nothing changes the second time.

## Main definitions

* `Angle.halfAt`: Half of a turn with the digits of π.
* `Angle.centred`: An angle folded onto a turn around zero.
* `Angle.IsRest`: What is left of a sum after whole turns.

## Theorems

* `rounded_rest_lt`: A remainder on the grid is not rounded up to the turn.
* `rest_exact`: The remainder stays below the turn, and half a turn is subtracted exactly.
* `Halves.centred_range`, `Halves.centred_centred`: The range of a folded angle, and a second fold.
* `wrap_eq_fold`: The check of the upper end never finds anything.
* `folded_within_turn`: The ranges of all folded angles.
-/

namespace FireControl

open Float.Model

namespace Angle

/-- Half of a turn with the digits of the rounded π, in places of `2 ^ e`. -/
def halfAt (e : ℤ) : ℚ :=
  13176795 * 2 ^ e

/-- An angle folded onto the turn that starts at `-half`. -/
def centred (half turn angle : Float32) : Float32 :=
  (angle + half).remEuclid turn - half

/-- A turn and its half with the digits of the rounded π. -/
structure Halves (half turn : Float32) (e : ℤ) : Prop where
  half_hasValue : half.HasValue (halfAt e)
  turn_hasValue : turn.HasValue (2 * halfAt e)
  neg_hasValue : (-half).HasValue (-halfAt e)
  least : -148 ≤ e
  greatest : e ≤ 0

theorem halves_pi : Halves pi tau (-22) where
  half_hasValue := hasValue_positive (m := 13176795) (e := -22) (by decide) rfl rfl
  turn_hasValue := hasValue_positive (m := 13176795) (e := -21) (by decide) rfl
    (by norm_num [halfAt])
  neg_hasValue := hasValue_negative (m := 13176795) (e := -22) (by decide) rfl rfl
  least := by decide
  greatest := by decide

theorem halves_quarterPi : Halves quarterPi halfPi (-24) where
  half_hasValue := hasValue_positive (m := 13176795) (e := -24) (by decide) rfl rfl
  turn_hasValue := hasValue_positive (m := 13176795) (e := -23) (by decide) rfl
    (by norm_num [halfAt])
  neg_hasValue := hasValue_negative (m := 13176795) (e := -24) (by decide) rfl rfl
  least := by decide
  greatest := by decide

/-- The rest `r` of a sum after `q` whole turns. -/
structure IsRest (e : ℤ) (s : ℚ) (q : ℤ) (r : ℚ) : Prop where
  division : s = q * (2 * halfAt e) + r
  nonneg : 0 ≤ r
  lt : r < 2 * halfAt e

variable {e q q' : ℤ} {r r' s x : ℚ}

theorem halfAt_pos (e : ℤ) : 0 < halfAt e := by
  unfold halfAt
  positivity

/-- Between whole turns there is one place for a sum. -/
theorem IsRest.unique (h : IsRest e s q r) (h' : IsRest e s q' r') : q = q' ∧ r = r' := by
  have hpos := halfAt_pos e
  have hquotient {q : ℤ} {r : ℚ} (h : IsRest e s q r) : q = ⌊s / (2 * halfAt e)⌋ := by
    have hnonneg := h.nonneg
    have hlt := h.lt
    have hdivision := h.division
    refine (Int.floor_eq_iff.mpr ⟨?_, ?_⟩).symm
    · rw [le_div_iff₀ (by linarith)]
      linarith
    · rw [div_lt_iff₀ (by linarith)]
      linarith
  have hq : q = q' := (hquotient h).trans (hquotient h').symm
  subst hq
  exact ⟨rfl, by linarith [h.division, h'.division]⟩

theorem IsRest.of_lt_turn (hnonneg : 0 ≤ s) (hlt : s < 2 * halfAt e) : IsRest e s 0 s :=
  ⟨by simp, hnonneg, hlt⟩

/-! ### Remainders on a grid -/

theorem onGrid_halfAt (e : ℤ) : OnGrid e (halfAt e) :=
  ⟨13176795, by unfold halfAt; norm_num⟩

theorem onGrid_turn (e : ℤ) : OnGrid e (2 * halfAt e) :=
  ⟨2 * 13176795, by unfold halfAt; push_cast; ring⟩

/-- A remainder on the grid of half a turn is not rounded up to the turn. -/
theorem rounded_rest_lt (he : -148 ≤ e) (hr : OnGrid e r) (hlt : r < 2 * halfAt e) :
    Format.binary32.rounded r < 2 * halfAt e := by
  have hpos : (0 : ℚ) < 2 ^ e := by positivity
  have hdouble : (2 : ℚ) ^ (e + 1) = 2 * 2 ^ e := by
    rw [zpow_add_one₀ two_ne_zero, mul_comm]
  unfold halfAt at hlt ⊢
  have hgreatest : r ≤ 26353589 * 2 ^ e := by
    have hle := hr.le_of_lt (n := 26353590) (by push_cast; linarith)
    norm_num at hle
    exact hle
  -- The greatest remainder is half-way between two numbers, and the lower one is even.
  have hcanonical : Format.binary32.Canonical 13176794 (e + 1) :=
    ⟨by decide, by decide, by rw [binary32_minExponent]; omega, Or.inl (by decide)⟩
  have hhalfway : Format.binary32.rounded (26353589 * 2 ^ e) = 13176794 * 2 ^ (e + 1) := by
    have hrounded := hcanonical.rounded_eq (x := 26353589 * 2 ^ e)
      (by rw [hdouble]; norm_num; linarith) (by rw [hdouble]; norm_num; linarith)
      (fun h => absurd h (by decide)) (Or.inl (by decide))
    exact_mod_cast hrounded
  calc Format.binary32.rounded r ≤ Format.binary32.rounded (26353589 * 2 ^ e) :=
        Format.rounded_mono hgreatest
    _ = 13176794 * (2 * 2 ^ e) := by rw [hhalfway, hdouble]
    _ < 2 * (13176795 * 2 ^ e) := by linarith

/-- Half a turn is subtracted exactly from a remainder on its grid. -/
theorem rounded_rest_sub (he : -148 ≤ e) (hr : OnGrid e r) (hnonneg : 0 ≤ r)
    (hlt : r < 2 * halfAt e) :
    Format.binary32.rounded (Format.binary32.rounded r - halfAt e) =
      Format.binary32.rounded r - halfAt e := by
  have hbelow := rounded_rest_lt he hr hlt
  have habove := Format.rounded_nonneg (F := .binary32) hnonneg
  refine (hr.rounded.sub (onGrid_halfAt e)).rounded_eq (by rw [binary32_minExponent]; omega) ?_
  have hpos : (0 : ℚ) < 2 ^ e := by positivity
  unfold halfAt at hbelow ⊢
  rw [binary32_mantissaBits, abs_le]
  constructor <;> linarith

/-- The remainder of a sum with half a turn stays below the turn, and half a turn is subtracted from
it exactly. -/
theorem rest_exact (he : -148 ≤ e) (hx : Format.binary32.rounded x = x)
    (hrest : IsRest e (Format.binary32.rounded (x + halfAt e)) q r) :
    Format.binary32.rounded r < 2 * halfAt e ∧
      Format.binary32.rounded (Format.binary32.rounded r - halfAt e) =
        Format.binary32.rounded r - halfAt e := by
  have hpos : (0 : ℚ) < 2 ^ e := by positivity
  have hmin : Format.binary32.minExponent ≤ e - 1 := by rw [binary32_minExponent]; omega
  have hongrid (h : OnGrid e (Format.binary32.rounded (x + halfAt e))) :
      Format.binary32.rounded r < 2 * halfAt e ∧
        Format.binary32.rounded (Format.binary32.rounded r - halfAt e) =
          Format.binary32.rounded r - halfAt e := by
    have hr : OnGrid e r := by
      have hsub := h.sub ((onGrid_turn e).int_mul q)
      rwa [hrest.division, add_sub_cancel_left] at hsub
    exact ⟨rounded_rest_lt he hr hrest.lt, rounded_rest_sub he hr hrest.nonneg hrest.lt⟩
  rcases lt_or_ge x (-(2 ^ 23 * 2 ^ e)) with hfar | hnear
  · -- Far out the angle itself is on the grid.
    refine hongrid (OnGrid.rounded (OnGrid.add ?_ (onGrid_halfAt e)))
    exact Format.onGrid_of_rounded_eq hx ((le_neg.mp hfar.le).trans (neg_le_abs x))
  · have hleast : ((4788187 : ℤ) : ℚ) * 2 ^ e ≤ Format.binary32.rounded (x + halfAt e) := by
      refine Format.le_rounded ?_ (by decide) (hmin.trans (by omega))
      unfold halfAt
      push_cast
      linarith
    push_cast at hleast
    generalize hs : Format.binary32.rounded (x + halfAt e) = s at hrest hongrid hleast
    have hrounded : Format.binary32.rounded s = s := hs ▸ Format.rounded_rounded _
    rcases le_or_gt (2 ^ 24 * 2 ^ e) s with hlarge | hsmall
    · -- A large sum is on the grid.
      refine hongrid (Format.onGrid_of_rounded_eq hrounded ?_)
      calc (2 : ℚ) ^ 23 * 2 ^ e ≤ 2 ^ 24 * 2 ^ e := by gcongr <;> norm_num
        _ ≤ |s| := hlarge.trans (le_abs_self s)
    · -- A small one is its own remainder, and lies on a grid that is finer by one digit.
      have hturn : s < 2 * halfAt e := by
        unfold halfAt
        linarith
      have hself := (hrest.unique (IsRest.of_lt_turn (by linarith) hturn)).2
      subst hself
      rw [hrounded]
      refine ⟨hturn, ?_⟩
      have hhalf := two_zpow_eq_two_mul e
      have hfiner : OnGrid (e - 1) r := by
        refine Format.onGrid_of_rounded_eq hrounded ?_
        calc (2 : ℚ) ^ 23 * 2 ^ (e - 1) ≤ r := by linarith
          _ ≤ |r| := le_abs_self r
      refine (hfiner.sub ((onGrid_halfAt e).finer (by omega))).rounded_eq hmin ?_
      unfold halfAt
      rw [binary32_mantissaBits, abs_le]
      constructor <;> linarith

/-! ### Folded angles -/

variable {half turn angle : Float32}

theorem Halves.abs_halfAt_le (h : Halves half turn e) : |halfAt e| ≤ 2 ^ 102 := by
  have hone : (2 : ℚ) ^ e ≤ 1 := zpow_le_one_of_nonpos₀ one_le_two h.greatest
  rw [abs_of_pos (halfAt_pos e)]
  unfold halfAt
  linarith

/-- A folded angle is the rounded remainder less half a turn. -/
theorem Halves.centred_hasValue (h : Halves half turn e) (hx : angle.HasValue x) :
    ∃ q r, IsRest e (Format.binary32.rounded (x + halfAt e)) q r ∧
      ((angle + half).remEuclid turn).HasValue (Format.binary32.rounded r) ∧
      (centred half turn angle).HasValue (Format.binary32.rounded r - halfAt e) := by
  have hpos := halfAt_pos e
  have hsum := hx.add_small h.half_hasValue h.abs_halfAt_le
  rcases hsum.remEuclid h.turn_hasValue (by linarith) with ⟨q, r, hdivision, hnonneg, hlt, hrest⟩
  rw [abs_of_pos (by linarith)] at hlt
  have hisRest : IsRest e (Format.binary32.rounded (x + halfAt e)) q r := ⟨hdivision, hnonneg, hlt⟩
  have hvalue := hrest.sub_small h.half_hasValue h.abs_halfAt_le
  rw [(rest_exact h.least hx.rounded hisRest).2] at hvalue
  exact ⟨q, r, hisRest, hrest, hvalue⟩

/-- A folded angle is at least minus half a turn and less than half a turn. -/
theorem Halves.centred_range (h : Halves half turn e) (finite : angle.isFinite = true) :
    -half ≤ centred half turn angle ∧ centred half turn angle < half := by
  rcases Float32.exists_hasValue finite with ⟨x, hx, -⟩
  rcases h.centred_hasValue hx with ⟨q, r, hrest, -, hvalue⟩
  have hnonneg := Format.rounded_nonneg (F := .binary32) hrest.nonneg
  have hlt := (rest_exact h.least hx.rounded hrest).1
  rw [h.neg_hasValue.le_iff hvalue, hvalue.lt_iff h.half_hasValue]
  constructor <;> linarith

/-- Folding a folded angle changes nothing. -/
theorem Halves.centred_centred (h : Halves half turn e) (finite : angle.isFinite = true) :
    centred half turn (centred half turn angle) = centred half turn angle := by
  have hpos := halfAt_pos e
  rcases Float32.exists_hasValue finite with ⟨x, hx, -⟩
  rcases h.centred_hasValue hx with ⟨q, r, hrest, hremainder, hvalue⟩
  have hnonneg := Format.rounded_nonneg (F := .binary32) hrest.nonneg
  have hlt := (rest_exact h.least hx.rounded hrest).1
  -- The second sum gives back the first remainder, which is its own remainder.
  rcases h.centred_hasValue hvalue with ⟨q', r', hrest', hremainder', hvalue'⟩
  rw [sub_add_cancel, Format.rounded_rounded] at hrest'
  have hsame := (hrest'.unique (IsRest.of_lt_turn hnonneg hlt)).2
  subst hsame
  rw [Format.rounded_rounded] at hremainder' hvalue'
  by_cases hzero : Format.binary32.rounded r = 0
  · -- Zeros may differ in sign, but less half a turn they are one number.
    rw [hzero, zero_sub] at hvalue hvalue'
    exact hvalue'.eq hvalue (by linarith)
  · change (centred half turn angle + half).remEuclid turn - half = _
    rw [hremainder'.eq hremainder hzero]
    rfl

/-- What is not finite is folded to NaN. -/
theorem isFinite_of_centred (h : (centred half turn angle).isNaN = false) :
    angle.isFinite = true :=
  (Float32.isFinite_of_add (Float32.isFinite_of_remEuclid (Float32.not_isNaN_of_sub h))).1

/-- The check of the upper end never finds anything. -/
theorem wrap_eq_fold (angle : Float32) : wrap angle = fold angle := by
  unfold wrap
  refine if_neg fun hle => ?_
  have hnumber : (centred pi tau angle).isNaN = false := (Float32.not_isNaN_of_le hle).2
  have finite := isFinite_of_centred hnumber
  exact Float32.not_lt_of_le hle (halves_pi.centred_range finite).2

/-- The range of the turn around zero. -/
theorem wrap_range (finite : angle.isFinite = true) : -pi ≤ wrap angle ∧ wrap angle < pi := by
  rw [wrap_eq_fold]
  exact halves_pi.centred_range finite

/-- Folded angles are on the turn. An angle that is folded onto the whole turn is at least minus
half a turn and less than half a turn, a heading that is folded into the quarter turn that faces the
camera is at least minus an eighth and less than an eighth, and an angle that was folded is left as
it is. With and without the check of the upper end an angle is folded to the same number, infinities
and NaN included, and twice the rounded π is as good as the rounded whole turn. So limits without
end stops bring every finite yaw onto the turn, although they fold without the check. -/
theorem folded_within_turn :
    (∀ angle : Float32, angle.isFinite = true →
      (-pi ≤ wrap angle ∧ wrap angle < pi) ∧
      (-quarterPi ≤ Plate.facing angle ∧ Plate.facing angle < quarterPi) ∧
      wrap (wrap angle) = wrap angle) ∧
    (∀ angle : Float32, fold angle = wrap angle ∧
      (angle + pi).remEuclid (2 * pi) - pi = wrap angle) ∧
    (∀ (limits : GimbalLimits) (yaw pitch : Float32), limits.yawLimited = false →
      yaw.isFinite = true →
      -pi ≤ (limits.clamp yaw pitch).1 ∧ (limits.clamp yaw pitch).1 < pi) := by
  refine ⟨fun angle finite => ⟨wrap_range finite, ?_, ?_⟩, fun angle => ?_, ?_⟩
  · exact halves_quarterPi.centred_range finite
  · -- With or without its shortcut for small angles, wrapping is folding.
    rw [wrap_eq_fold, wrap_eq_fold]
    exact halves_pi.centred_centred finite
  · have hturn : 2 * pi = tau := by decide +kernel
    rw [wrap_eq_fold, hturn]
    exact ⟨rfl, rfl⟩
  · intro limits yaw pitch free finite
    have hclamp : (limits.clamp yaw pitch).1 = fold yaw :=
      if_neg (free ▸ Bool.false_ne_true)
    rw [hclamp]
    exact halves_pi.centred_range finite

/-- The number before minus the rounded π is where folding comes nearest to the upper end: a whole
turn less its last place remains, and less half a turn that is folded once more. -/
theorem folded_within_turn_belowSeam :
    let angle : Float32 := .ofBits 0xC0490FDC
    angle < -pi ∧ angle.isFinite = true ∧ wrap angle < pi ∧ wrap (wrap angle) = wrap angle ∧
      fold angle = wrap angle ∧ ((default : GimbalLimits).clamp angle 0).1 < pi := by
  intro angle
  have finite : angle.isFinite = true := by decide
  rcases folded_within_turn with ⟨hrange, hfold, hclamp⟩
  rcases hrange angle finite with ⟨⟨-, hlt⟩, -, htwice⟩
  exact ⟨by decide +kernel, finite, hlt, htwice, (hfold angle).1, (hclamp _ _ 0 rfl finite).2⟩

end Angle

end FireControl
