import FireControl.Proofs.Geometry.Folding

/-!
# Degrees and Radians

The two conversions are products with a rounded constant. The one to degrees makes an angle larger,
so a finite angle may not fit into degrees. Whether it does depends on its size alone, which makes
fitting a matter of the ends of a range.

What is measured is small, and what is subtracted from a small angle is either small itself or so
large that the small angle is lost. Either way the difference fits into degrees just as the angle
that was subtracted does.

## Theorems

* `ofDegrees_hasValue`: A reading of at most a million degrees is a small angle.
* `toDegrees_isFinite_of_between`: Between two angles that fit into degrees all angles do.
* `toDegrees_wrap_isFinite_iff`: A folded angle fits into degrees if it is finite.
* `toDegrees_sub_isFinite_iff`: Next to a small angle an angle fits into degrees by itself.
-/

namespace FireControl

open Float.Model

namespace Angle

theorem hasValue_perDegree : (pi / 180).HasValue (9370165 / 2 ^ 29) :=
  hasValue_positive (m := 9370165) (e := -29) (by decide) rfl (by norm_num)

theorem hasValue_perRadian : (180 / pi).HasValue (15019744 / 2 ^ 18) :=
  hasValue_positive (m := 15019744) (e := -18) (by decide) rfl (by norm_num)

/-- An angle of at most a million degrees is at most some ten thousands in radians. -/
theorem ofDegrees_hasValue {degrees : Float32} (hge : -1000000 ≤ degrees)
    (hle : degrees ≤ 1000000) : ∃ v : ℚ, |v| ≤ 2 ^ 15 ∧ (ofDegrees degrees).HasValue v := by
  have hmillion : (1000000 : Float32).HasValue 1000000 :=
    hasValue_positive (m := 16000000) (e := -4) (by decide) rfl (by norm_num)
  have hnegative : (-1000000 : Float32).HasValue (-1000000) :=
    hasValue_negative (m := 16000000) (e := -4) (by decide) rfl (by norm_num)
  have hfinite := Float32.isFinite_of_between hnegative.isFinite hmillion.isFinite hge hle
  rcases Float32.exists_hasValue hfinite with ⟨x, hx, -⟩
  have hlow := (hnegative.le_iff hx).mp hge
  have hhigh := (hx.le_iff hmillion).mp hle
  -- A million degrees are less than 2 ^ 15 radians, so the product cannot overflow.
  have hproduct : |x * (9370165 / 2 ^ 29)| ≤ 2 ^ 15 := by
    rw [abs_le]
    constructor <;> linarith
  have hround := Float32.abs_rounded_le_pow hproduct
  refine ⟨_, hround, hx.mul hasValue_perDegree (hround.trans_lt ?_)⟩
  rw [binary32_limit]
  norm_num

theorem toDegrees_isFinite_iff {angle : Float32} {v : ℚ} (hv : angle.HasValue v) :
    (toDegrees angle).isFinite = true ↔
      |Format.binary32.rounded (v * (15019744 / 2 ^ 18))| < Format.binary32.limit :=
  hv.isFinite_mul_iff hasValue_perRadian

theorem toDegrees_isFinite_of_le {angle : Float32} {v : ℚ} (hv : angle.HasValue v)
    (hle : |v| ≤ 2 ^ 100) : (toDegrees angle).isFinite = true := by
  rw [toDegrees_isFinite_iff hv]
  apply abs_rounded_lt_limit
  rw [abs_mul, abs_of_pos (by norm_num : (0 : ℚ) < 15019744 / 2 ^ 18)]
  linarith

/-- An angle between two that are finite in degrees is finite in degrees. -/
theorem toDegrees_isFinite_of_between {low angle high : Float32}
    (hlow : (toDegrees low).isFinite = true) (hhigh : (toDegrees high).isFinite = true)
    (hge : low ≤ angle) (hle : angle ≤ high) : (toDegrees angle).isFinite = true := by
  have hlow' := (Float32.isFinite_of_mul hlow).1
  have hhigh' := (Float32.isFinite_of_mul hhigh).1
  rcases Float32.exists_hasValue hlow' with ⟨l, hl, -⟩
  rcases Float32.exists_hasValue hhigh' with ⟨h, hh, -⟩
  rcases Float32.exists_hasValue (Float32.isFinite_of_between hlow' hhigh' hge hle) with ⟨v, hv, -⟩
  rw [toDegrees_isFinite_iff hl] at hlow
  rw [toDegrees_isFinite_iff hh] at hhigh
  rw [toDegrees_isFinite_iff hv]
  -- Rounding is monotone, so a product between two that do not overflow does not either.
  have hmono {a b : ℚ} (hab : a ≤ b) : Format.binary32.rounded (a * (15019744 / 2 ^ 18)) ≤
      Format.binary32.rounded (b * (15019744 / 2 ^ 18)) :=
    Format.rounded_mono (mul_le_mul_of_nonneg_right hab (by norm_num))
  exact abs_lt.mpr ⟨(abs_lt.mp hlow).1.trans_le (hmono ((hl.le_iff hv).mp hge)),
    (hmono ((hv.le_iff hh).mp hle)).trans_lt (abs_lt.mp hhigh).2⟩

/-- A folded angle is finite in degrees if it was finite before. -/
theorem toDegrees_wrap_isFinite_iff {angle : Float32} :
    (toDegrees (wrap angle)).isFinite = true ↔ angle.isFinite = true := by
  constructor
  · exact fun h => wrap_isFinite_iff.mp (Float32.isFinite_of_mul h).1
  · intro h
    rcases wrap_hasValue h with ⟨v, hv, hwrap⟩
    refine toDegrees_isFinite_of_le hwrap (hv.trans ?_)
    norm_num [halfTurn]

/-- Next to a small angle an angle fits into degrees by itself. -/
theorem toDegrees_sub_isFinite_iff {small angle : Float32} {v : ℚ} (hv : small.HasValue v)
    (hsmall : |v| ≤ 2 ^ 15) (hangle : angle.isFinite = true) :
    (toDegrees (small - angle)).isFinite = true ↔ (toDegrees angle).isFinite = true := by
  rcases Float32.exists_hasValue hangle with ⟨t, ht, -⟩
  have hsub := hv.small_sub ht (hsmall.trans (by norm_num))
  rcases le_total (2 ^ 60) |t| with hlarge | hle
  · -- The small angle is lost, and what is left differs from the other angle by its sign.
    have hround : Format.binary32.rounded (v - t) = -t := by
      rw [← neg_add_eq_sub, ← neg_neg v, ← neg_add, Format.rounded_neg,
        ht.rounded_add_small hlarge ((abs_neg v).trans_le (hsmall.trans (by norm_num)))]
    rw [toDegrees_isFinite_iff hsub, toDegrees_isFinite_iff ht, hround, neg_mul,
      Format.rounded_neg, abs_neg]
  · -- Both are small enough to fit.
    have hdifference : |v - t| ≤ 2 ^ 61 :=
      calc |v - t| ≤ |v| + |t| := abs_sub v t
        _ ≤ 2 ^ 15 + 2 ^ 60 := add_le_add hsmall hle
        _ ≤ 2 ^ 61 := by norm_num
    have hround := Float32.abs_rounded_le_pow hdifference
    exact iff_of_true (toDegrees_isFinite_of_le hsub (hround.trans (by norm_num)))
      (toDegrees_isFinite_of_le ht (hle.trans (by norm_num)))

end Angle

end FireControl
