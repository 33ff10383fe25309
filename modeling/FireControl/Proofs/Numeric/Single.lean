import FireControl.Numeric.Precision
import FireControl.Proofs.Numeric.Arithmetic
import FireControl.Proofs.Numeric.Interval

/-!
# Numbers in Single Precision

The format of the numbers that the turret computes with: 24 digits, none below `2 ^ -149`, and none
from `2 ^ 128` on. What lies beyond the greatest number by less than half of its last place is still
rounded to it, so a sum of numbers of very different size does not overflow because of the smaller
one.

## Main definitions

* `greatestSingle`: The greatest finite number in single precision.

## Theorems

* `le_greatestSingle`, `abs_le_greatest`: A number that has a value is at most the greatest one.
* `rounded_lt_limit`, `abs_rounded_lt_limit`: What is rounded below the limit.
* `Float32.HasValue.add_small`, `Float32.HasValue.sub_small`: Sum and difference with a small number
  are finite.
-/

namespace FireControl

open Float.Model Float.Model.Format

/-- The greatest finite number in single precision. -/
def greatestSingle : ℚ :=
  (2 ^ 24 - 1) * 2 ^ 104

theorem binary32_minExponent : binary32.minExponent = -149 := by
  decide

theorem binary32_mantissaBits : binary32.mantissaBits = 24 := by
  decide

theorem binary32_limit : binary32.limit = 2 ^ 128 := by
  norm_num [limit, exponentBias]

variable {x : ℚ}

/-- What a single-precision number can hold is at most the greatest one. -/
theorem le_greatestSingle (hx : binary32.rounded x = x) (hlt : x < 2 ^ 128) :
    x ≤ greatestSingle := by
  rcases le_or_gt x (2 ^ 127) with hle | hgt
  · refine hle.trans ?_
    norm_num [greatestSingle]
  · have hpos : 0 < x := lt_trans (by norm_num) hgt
    -- A number this large is a multiple of the greatest number's last place.
    have hplace : 104 ≤ binary32.lastPlace x := by
      rw [le_lastPlace_iff hpos.ne' (by decide), abs_of_pos hpos]
      exact le_of_eq_of_le (by norm_num [binary32_mantissaBits]) hgt.le
    rcases exists_rounded_eq hplace with ⟨n, hn⟩
    rw [hx] at hn
    rw [hn] at hlt ⊢
    have hint : n < 2 ^ 24 := by
      have hcast : (n : ℚ) < 2 ^ 24 := by
        norm_num at hlt ⊢
        linarith
      exact_mod_cast hcast
    have hle : (n : ℚ) ≤ 2 ^ 24 - 1 := by exact_mod_cast Int.le_sub_one_of_lt hint
    unfold greatestSingle
    norm_num at hle ⊢
    linarith

/-- What is below the middle between the greatest number and the limit is rounded below the
limit. -/
theorem rounded_lt_limit (hx : 0 ≤ x) (h : x < 2 ^ 128 - 2 ^ 103) :
    binary32.rounded x < binary32.limit := by
  -- Below 2 ^ 128 the last place is at most 2 ^ 104, so rounding adds at most half of it.
  have hlt : |x| < 2 ^ (binary32.mantissaBits + (104 : ℤ)) := by
    rw [abs_of_nonneg hx, binary32_mantissaBits]
    norm_num at h ⊢
    linarith
  have herror := (abs_le.mp (abs_rounded_sub_le_of_lt (by decide) hlt)).2
  rw [binary32_limit]
  norm_num at h herror ⊢
  linarith

/-- The same for numbers of either sign. -/
theorem abs_rounded_lt_limit (h : |x| < 2 ^ 128 - 2 ^ 103) :
    |binary32.rounded x| < binary32.limit := by
  rcases le_total 0 x with hx | hx
  · rw [abs_of_nonneg hx] at h
    rw [abs_of_nonneg (rounded_nonneg hx)]
    exact rounded_lt_limit hx h
  · have hneg : 0 ≤ -x := neg_nonneg.mpr hx
    have hlt := rounded_lt_limit hneg (abs_of_nonpos hx ▸ h)
    have hnonneg := rounded_nonneg (F := binary32) hneg
    rw [rounded_neg] at hlt hnonneg
    rwa [abs_of_nonpos (neg_nonneg.mp hnonneg)]

/-- The value of a number by its mantissa and exponent. -/
theorem hasValue_positive {f : Float32} {m : ℕ} {e : ℤ} (hm : 0 < m)
    (h : f.toModel.unpack = .finite .positive m e hm) (hx : (m : ℚ) * 2 ^ e = x) :
    f.HasValue x := by
  have hvalue := Float32.hasValue_of_unpack hm h
  rwa [UnpackedFloat.Sign.applied, hx] at hvalue

theorem hasValue_negative {f : Float32} {m : ℕ} {e : ℤ} (hm : 0 < m)
    (h : f.toModel.unpack = .finite .negative m e hm) (hx : -((m : ℚ) * 2 ^ e) = x) :
    f.HasValue x := by
  have hvalue := Float32.hasValue_of_unpack hm h
  rwa [UnpackedFloat.Sign.applied, hx] at hvalue

theorem hasValue_one : (1 : Float32).HasValue 1 :=
  hasValue_positive (m := 2 ^ 23) (e := -23) (by decide) rfl (by norm_num)

theorem hasValue_half : (0.5 : Float32).HasValue (1 / 2) :=
  hasValue_positive (m := 2 ^ 23) (e := -24) (by decide) rfl (by norm_num)

theorem hasValue_zero : (0 : Float32).HasValue 0 :=
  UnpackedFloat.hasValue_zero_iff.mpr rfl

theorem value_le_greatest {f : Float32} {v : ℚ} (h : f.HasValue v) :
    v ≤ greatestSingle :=
  le_greatestSingle h.rounded (lt_of_abs_lt (binary32_limit ▸ h.lt_limit))

theorem abs_le_greatest {f : Float32} {v : ℚ} (h : f.HasValue v) : |v| ≤ greatestSingle := by
  refine le_greatestSingle ?_ (binary32_limit ▸ h.lt_limit)
  rcases abs_cases v with ⟨habs, -⟩ | ⟨habs, -⟩
  · rw [habs, h.rounded]
  · rw [habs, rounded_neg, h.rounded]

end FireControl

namespace Float32

open Float.Model FireControl

variable {f g : Float32} {x y : ℚ}

/-- A number of the format bounds what it bounds before rounding. -/
theorem HasValue.abs_rounded_le (hy : g.HasValue y) (h : |x| ≤ y) :
    |Format.binary32.rounded x| ≤ y := by
  rcases abs_le.mp h with ⟨hlow, hhigh⟩
  have hneg := Format.rounded_mono (F := .binary32) hlow
  rw [Format.rounded_neg, hy.rounded] at hneg
  exact abs_le.mpr ⟨hneg, (Format.rounded_mono hhigh).trans_eq hy.rounded⟩

/-- A power of two bounds what it bounds before rounding. -/
theorem abs_rounded_le_pow {k : ℕ} (h : |x| ≤ 2 ^ k) : |Format.binary32.rounded x| ≤ 2 ^ k := by
  have hpow {z : ℚ} (hz : z ≤ 2 ^ k) : Format.binary32.rounded z ≤ 2 ^ k := by
    have hle : z ≤ ((1 : ℤ) : ℚ) * 2 ^ (k : ℤ) := by rwa [Int.cast_one, one_mul, zpow_natCast]
    have hround := Format.rounded_le (F := .binary32) hle (by decide)
      (binary32_minExponent ▸ by omega)
    rwa [Int.cast_one, one_mul, zpow_natCast] at hround
  -- The bound holds on either side, since rounding is odd.
  rcases abs_le.mp h with ⟨hlow, hhigh⟩
  have hneg := hpow (neg_le.mp hlow)
  rw [Format.rounded_neg] at hneg
  exact abs_le.mpr ⟨neg_le.mp hneg, hpow hhigh⟩

theorem ofInteger_hasValue {n : ℤ} (h : |Format.binary32.rounded n| < Format.binary32.limit) :
    (ofInteger n).HasValue (Format.binary32.rounded n) := by
  have hnormal := UnpackedFloat.normalize_hasValue (F := .binary32) n 0 .positive
  rw [zpow_zero, mul_one] at hnormal
  exact hasValue_pack hnormal h

/-- A whole number below a power of two that is far below the limit. -/
theorem ofInteger_small {n k : ℕ} (hn : n ≤ 2 ^ k) (hk : k ≤ 100) :
    (ofInteger n).HasValue (Format.binary32.rounded n) ∧ 0 ≤ Format.binary32.rounded (n : ℚ) ∧
      Format.binary32.rounded (n : ℚ) ≤ 2 ^ k := by
  have hcast : (n : ℚ) ≤ 2 ^ k := by exact_mod_cast hn
  have hnonneg : (0 : ℚ) ≤ n := Nat.cast_nonneg n
  have hle := abs_rounded_le_pow (abs_le.mpr ⟨by linarith, hcast⟩)
  have hpow : (2 : ℚ) ^ k ≤ 2 ^ 100 := pow_le_pow_right₀ one_le_two hk
  refine ⟨?_, Format.rounded_nonneg hnonneg, le_of_abs_le hle⟩
  have hvalue := ofInteger_hasValue (n := n) (by
    rw [Int.cast_natCast, binary32_limit]
    exact (hle.trans hpow).trans_lt (by norm_num))
  rwa [Int.cast_natCast] at hvalue

/-- What is next to a number of the format is rounded below the limit. -/
theorem HasValue.abs_rounded_add_lt (hx : f.HasValue x) (hsmall : |y| ≤ 2 ^ 102) :
    |Format.binary32.rounded (x + y)| < Format.binary32.limit := by
  have hgreatest := abs_le_greatest hx
  unfold greatestSingle at hgreatest
  apply abs_rounded_lt_limit
  calc |x + y| ≤ |x| + |y| := abs_add_le x y
    _ ≤ (2 ^ 24 - 1) * 2 ^ 104 + 2 ^ 102 := add_le_add hgreatest hsmall
    _ < 2 ^ 128 - 2 ^ 103 := by norm_num

/-- A sum with a small number is finite. -/
theorem HasValue.add_small (hx : f.HasValue x) (hy : g.HasValue y) (hsmall : |y| ≤ 2 ^ 102) :
    (f + g).HasValue (Format.binary32.rounded (x + y)) :=
  hx.add hy (hx.abs_rounded_add_lt hsmall)

theorem HasValue.small_add (hx : f.HasValue x) (hy : g.HasValue y) (hsmall : |x| ≤ 2 ^ 102) :
    (f + g).HasValue (Format.binary32.rounded (x + y)) :=
  hx.add hy (add_comm y x ▸ hy.abs_rounded_add_lt hsmall)

/-- A difference from a small number is finite. -/
theorem HasValue.sub_small (hx : f.HasValue x) (hy : g.HasValue y) (hsmall : |y| ≤ 2 ^ 102) :
    (f - g).HasValue (Format.binary32.rounded (x - y)) :=
  hx.sub hy (sub_eq_add_neg x y ▸ hx.abs_rounded_add_lt (abs_neg y ▸ hsmall))

theorem HasValue.small_sub (hx : f.HasValue x) (hy : g.HasValue y) (hsmall : |x| ≤ 2 ^ 102) :
    (f - g).HasValue (Format.binary32.rounded (x - y)) := by
  have hlt := hy.abs_rounded_add_lt ((abs_neg x).trans_le hsmall)
  rw [← abs_neg, ← Format.rounded_neg, neg_add, neg_neg, neg_add_eq_sub] at hlt
  exact hx.sub hy hlt

/-- A small number is lost in a large one. -/
theorem HasValue.rounded_add_small (hx : f.HasValue x) (hlarge : 2 ^ 60 ≤ |x|)
    (hsmall : |y| ≤ 2 ^ 20) : Format.binary32.rounded (x + y) = x := by
  rcases UnpackedFloat.HasValue.cases hx with ⟨s, -, rfl⟩ | ⟨s, m, e, hm, -, h, rfl⟩
  · norm_num at hlarge
  · -- The last place of the large number is more than four times the small one.
    have hplace : |y| < 2 ^ e / 4 := by
      have hpos : (0 : ℚ) < 2 ^ e := by positivity
      have hm : (m : ℚ) ≤ 2 ^ 24 := by exact_mod_cast h.lt.le
      rw [s.abs_applied (by positivity)] at hlarge
      have hle : (2 : ℚ) ^ 60 ≤ 2 ^ 24 * 2 ^ e :=
        hlarge.trans (mul_le_mul_of_nonneg_right hm hpos.le)
      norm_num at hle hsmall ⊢
      linarith
    cases s with
    | negative =>
        have hneg := h.rounded_add_small ((abs_neg y).trans_lt hplace)
        rw [UnpackedFloat.Sign.applied, ← neg_neg y, ← neg_add, Format.rounded_neg, hneg]
    | positive => exact h.rounded_add_small hplace

end Float32
