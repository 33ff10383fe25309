import FireControl.Proofs.Decimal.Shortest
import FireControl.Proofs.Numeric.Arithmetic
import FireControl.Decimal.Nearest
import FireControl.Numeric.Precision

/-!
# Decimals are Read by Value

A decimal is read as the rounded number that it means, so two decimals that mean one number are read
alike, whatever zeros they have. The reader guards itself against powers of ten that would take too
long to compute; what it answers there is what it would have computed.

A narrower number is the rounded one of the wider format. Together, what is read into single
precision by way of double precision is the decimal rounded twice.

## Theorems

* `Decimal.nearest_carries`: A decimal is read as the rounded number.
* `Float.narrow_carries`: A narrower number is the rounded one.
* `Float.unpack_inj`: A number is determined by what it unpacks to.
* `Float.eq_of_carries`, `Float32.eq_of_carries`: Sign and magnitude determine a number.
-/

open Float.Model
open Float.Model.UnpackedFloat (Sign)

namespace Float.Model.UnpackedFloat

variable {F : Format} {s : Sign} {u : UnpackedFloat} {v : ℚ}

theorem Carries.neg (h : u.Carries F s v) : u.neg.Carries F (-s) v := by
  cases h with
  | zero h => exact .zero h
  | finite m e hm canonical h => exact .finite m e hm canonical h

/-- A converted number is the rounded one of the other format. -/
theorem Carries.convert {G : Format} (h : u.Carries F s v) :
    (u.convert G).Carries G s (G.rounded v) := by
  cases h with
  | zero h =>
      rw [h, Format.rounded_zero]
      exact .zero rfl
  | finite m e hm canonical h =>
      rw [h]
      exact round_carries hm e s

end Float.Model.UnpackedFloat

namespace FireControl

open UnpackedFloat (Carries)

/-- A power of ten is at most the power of two with the same negative exponent. -/
theorem ten_zpow_le_two_zpow {e : ℤ} (h : e ≤ 0) : (10 : ℚ) ^ e ≤ 2 ^ e := by
  have hneg : e = -((-e).toNat : ℤ) := by omega
  rw [hneg, zpow_neg, zpow_neg, zpow_natCast, zpow_natCast]
  gcongr
  norm_num

theorem ofScientific_carries {n : ℕ} {e : ℤ}
    (h : Format.binary64.rounded (n * 10 ^ e) < Format.binary64.limit) :
    (UnpackedFloat.ofScientific .binary64 n e).Carries .binary64 .positive
      (Format.binary64.rounded (n * 10 ^ e)) := by
  unfold UnpackedFloat.ofScientific
  split_ifs with hzero hlarge hsmall hsign
  · rw [hzero, Nat.cast_zero, zero_mul, Format.rounded_zero]
    exact .zero rfl
  · -- A number this large is beyond the limit.
    have hn : (1 : ℚ) ≤ n := by exact_mod_cast Nat.pos_of_ne_zero hzero
    have hlimit : Format.binary64.limit = ((1 : ℤ) : ℚ) * 2 ^ (1024 : ℤ) := by
      rw [Format.limit, ← zpow_natCast, Int.cast_one, one_mul]
      rfl
    have hexponent : (1024 : ℤ) ≤ e := by
      have : (2 : ℤ) ^ Format.binary64.exponentBits = 2048 := by decide
      omega
    have hle : ((1 : ℤ) : ℚ) * 2 ^ (1024 : ℤ) ≤ n * 10 ^ e := by
      rw [Int.cast_one]
      have hpow : (2 : ℚ) ^ (1024 : ℤ) ≤ 10 ^ e :=
        calc (2 : ℚ) ^ (1024 : ℤ) ≤ 10 ^ (1024 : ℤ) :=
              zpow_le_zpow_left₀ (by norm_num) (by norm_num) (by norm_num)
          _ ≤ 10 ^ e := zpow_le_zpow_right₀ (by norm_num) hexponent
      gcongr
    rw [hlimit] at h
    exact absurd (Format.le_rounded hle (by decide) (by decide)) (not_le.mpr h)
  · -- A number this small is rounded to zero.
    have hlt : (n : ℚ) < 2 ^ ((n.log2 : ℤ) + 1) := by
      exact_mod_cast Nat.lt_log2_self (n := n)
    have hexponent : (n.log2 : ℤ) + 1 + e ≤ -1075 := by
      have : (2 : ℤ) ^ Format.binary64.exponentBits = 2048 := by decide
      omega
    have hle : (n : ℚ) * 10 ^ e ≤ 2 ^ (-1075 : ℤ) :=
      calc (n : ℚ) * 10 ^ e ≤ 2 ^ ((n.log2 : ℤ) + 1) * 2 ^ e :=
            mul_le_mul hlt.le (ten_zpow_le_two_zpow (by omega)) (by positivity) (by positivity)
        _ = 2 ^ ((n.log2 : ℤ) + 1 + e) := (zpow_add₀ two_ne_zero _ _).symm
        _ ≤ 2 ^ (-1075 : ℤ) := zpow_le_zpow_right₀ one_le_two hexponent
    have hmin : Format.binary64.minExponent - 1 = -1075 := by decide
    have hrounded : Format.binary64.rounded (n * 10 ^ e) = 0 := by
      refine le_antisymm (not_lt.mp ?_) (Format.rounded_nonneg (by positivity))
      rw [Format.rounded_pos_iff, hmin]
      exact not_lt.mpr hle
    rw [hrounded]
    exact .zero rfl
  · -- The shift by the length of a mantissa is undone by the exponent, so the number is exact.
    have hn := Nat.pos_of_ne_zero hzero
    have hvalue : ((n <<< Format.binary64.mantissaBits * 10 ^ e.toNat : ℕ) : ℚ) *
        2 ^ (-(Format.binary64.mantissaBits : ℤ) + 0) = n * 10 ^ e := by
      have hpow : (10 : ℚ) ^ e = 10 ^ e.toNat := by
        rw [← zpow_natCast, Int.toNat_of_nonneg hsign]
      rw [Nat.shiftLeft_eq, hpow, add_zero, zpow_neg, zpow_natCast]
      push_cast
      field_simp
    have hq : (0 : ℚ) < n := by exact_mod_cast hn
    refine UnpackedFloat.roundWithAccuracy_exact_carries .positive (by positivity) hvalue ?_
    rw [← hvalue]
    apply Format.le_lastPlace_of_full
    calc 2 ^ Format.binary64.mantissaBitsWithoutImplicit ≤ 2 ^ Format.binary64.mantissaBits := by
          decide
      _ ≤ n <<< Format.binary64.mantissaBits := by
          rw [Nat.shiftLeft_eq]
          exact Nat.le_mul_of_pos_left _ hn
      _ ≤ _ := Nat.le_mul_of_pos_right _ (Nat.pow_pos (by norm_num))
  · -- A negative power of ten is a quotient of two integers.
    have hvalue : (n : ℚ) * 2 ^ (0 : ℤ) / ((10 ^ (-e).toNat : ℕ) * 2 ^ (0 : ℤ)) = n * 10 ^ e := by
      have hneg : e = -((-e).toNat : ℤ) := by omega
      have hpow : (10 : ℚ) ^ e = (10 ^ (-e).toNat)⁻¹ := by
        rw [← zpow_natCast, ← zpow_neg, ← hneg]
      push_cast
      rw [hpow, mul_one, mul_one, div_eq_mul_inv]
    rw [← hvalue]
    exact UnpackedFloat.div_carries (s := .positive) (t := .positive) _ _

/-- A decimal is read as the rounded number. -/
theorem Decimal.nearest_carries {d : Decimal}
    (h : Format.binary64.rounded d.value < Format.binary64.limit) :
    d.nearest.toModel.unpack.Carries .binary64 .positive (Format.binary64.rounded d.value) := by
  have hcarries := ofScientific_carries h
  change (UnpackedFloat.unpack _ (UnpackedFloat.pack _ _)).Carries _ _ _
  rw [UnpackedFloat.unpack_pack_of_lt_limit hcarries (by decide) h]
  exact hcarries

end FireControl

open FireControl

namespace Float

variable {x y : Float} {s : Sign} {v : ℚ}

theorem unpack_inj : x.toModel.unpack = y.toModel.unpack ↔ x = y := by
  refine ⟨fun h => ?_, fun h => h ▸ rfl⟩
  have hbits := (UnpackedFloat.unpack_inj_of_valid x.toModel.valid y.toModel.valid).mp h
  exact toBits_inj.mp (UInt64.toBitVec_inj.mp hbits)

/-- Sign and magnitude determine a number. -/
theorem eq_of_carries (hx : x.toModel.unpack.Carries .binary64 s v)
    (hy : y.toModel.unpack.Carries .binary64 s v) : x = y :=
  unpack_inj.mp (hx.unique hy)

theorem lt_limit_of_carries (h : x.toModel.unpack.Carries .binary64 s v) :
    v < Format.binary64.limit := by
  -- Only a finite pattern carries a value, and unpacking bounds its exponent.
  cases hu : x.toModel.unpack with
  | infinity t => rw [hu] at h; cases h
  | notANumber => rw [hu] at h; cases h
  | zero t =>
      rw [hu] at h
      cases h with
      | zero h =>
          rw [h, Format.limit]
          positivity
  | finite t m e hm =>
      rcases UnpackedFloat.canonical_of_unpack (by decide) hu with ⟨canonical, he⟩
      rw [hu] at h
      cases h with
      | finite m e hm _ h =>
          rw [h]
          exact (canonical.lt_limit_iff (by decide)).mpr he

theorem neg_carries (h : x.toModel.unpack.Carries .binary64 s v) :
    (-x).toModel.unpack.Carries .binary64 (-s) v := by
  have hneg := h.neg
  change (UnpackedFloat.unpack _ (UnpackedFloat.pack _ _)).Carries _ _ _
  rw [UnpackedFloat.unpack_pack_of_lt_limit hneg (by decide) (lt_limit_of_carries h)]
  exact hneg

/-- A narrower number is the rounded one. -/
theorem narrow_carries (h : x.toModel.unpack.Carries .binary64 s v)
    (hlt : Format.binary32.rounded v < Format.binary32.limit) :
    x.narrow.toModel.unpack.Carries .binary32 s (Format.binary32.rounded v) := by
  have hconvert := h.convert (G := .binary32)
  change (UnpackedFloat.unpack _ (UnpackedFloat.pack _ _)).Carries _ _ _
  rw [UnpackedFloat.unpack_pack_of_lt_limit hconvert (by decide) hlt]
  exact hconvert

end Float

namespace Float32

variable {x y : Float32} {s : Sign} {v : ℚ}

theorem eq_of_carries (hx : x.toModel.unpack.Carries .binary32 s v)
    (hy : y.toModel.unpack.Carries .binary32 s v) : x = y :=
  unpack_inj.mp (hx.unique hy)

end Float32
