import FireControl.Proofs.Numeric.Infinity

/-!
# Products of Numbers That Are Not Negative

A product of numbers that are not negative grows with each of them, and rounding and overflow do not
change that: a greater product is rounded to a number that is not smaller, and once it overflows it
is infinite and at least everything else. Only zero and infinity do not go together, as their
product is NaN. So what has to be known of a factor is that no zero meets an infinity. A product of
finite numbers that overflows has no zero among them.

Inverses are taken of positive normal numbers. These are the ones whose inverse does not overflow,
and none of them is so large that its inverse is rounded to zero.

## Main definitions

* `leastNormal`: The least positive number that has all its digits.

## Theorems

* `pack_mono`: Packing keeps the order of any two values.
* `unpack_infinity_mul`: What becomes of an infinity under a positive factor.
* `not_isNaN_mul`: A finite factor makes no NaN where no zero meets an infinity.
* `mul_mono`, `mul_nonneg`: Products grow with their factors.
* `isFinite_mul_or_pos`: A product of finite numbers that overflows has a positive factor.
* `HasValue.inverse`: The inverse of a positive normal number is positive and finite.
* `inverse_antitone`: The greater the number, the smaller the inverse.
-/

open Float.Model FireControl

namespace Float32

variable {f f' g g' : Float32} {x y : ℚ}

/-! ### Packing and the order -/

/-- Packing keeps the order of any two values, since all that overflows upwards becomes one and the
same infinity. -/
theorem pack_mono {u w : UnpackedFloat} (hu : u.HasValue .binary32 x)
    (hw : w.HasValue .binary32 y) (hle : x ≤ y) : ofModel (.pack u) ≤ ofModel (.pack w) := by
  by_cases hlt : |x| < Format.binary32.limit
  · exact (hasValue_pack hu hlt).le_pack hw hle
  rcases unpack_pack_of_limit_le hu (not_lt.mp hlt) with ⟨s, hunpack, happlied⟩
  cases s with
  | negative =>
      rcases exists_stands (not_isNaN_pack hw) with ⟨b, hb⟩
      exact ((Stands.negativeInfinity hunpack).le_iff hb).mpr bot_le
  | positive =>
      have hx : |x| = x := happlied
      have hy : Format.binary32.limit ≤ y := (hx ▸ not_lt.mp hlt).trans hle
      rcases unpack_pack_of_limit_le hw (hy.trans (le_abs_self y)) with ⟨t, hunpack', happlied'⟩
      cases t with
      | negative =>
          -- The greater value is positive, so it does not overflow downwards.
          have hneg : -|y| = y := happlied'
          have hlimit : (0 : ℚ) < Format.binary32.limit := by rw [binary32_limit]; norm_num
          linarith [abs_nonneg y]
      | positive =>
          exact ((Stands.positiveInfinity hunpack).le_iff (.positiveInfinity hunpack')).mpr le_rfl

/-! ### Products -/

/-- A positive finite number has a positive value. -/
theorem exists_hasValue_of_pos (hpos : 0 < g) (hfinite : g.isFinite = true) :
    ∃ y, g.HasValue y ∧ 0 < y := by
  rcases exists_hasValue hfinite with ⟨y, hy, -⟩
  exact ⟨y, hy, (hasValue_zero.lt_iff hy).mp hpos⟩

/-- An infinity stays what it is under a positive factor. -/
theorem unpack_infinity_mul (hf : f.toModel.unpack = .infinity .positive) (hpos : 0 < g)
    (hfinite : g.isFinite = true) : (f * g).toModel.unpack = .infinity .positive := by
  rcases exists_hasValue_of_pos hpos hfinite with ⟨y, hy, hvalue⟩
  have hmul : UnpackedFloat.mul .binary32 f.toModel.unpack g.toModel.unpack =
      .infinity .positive := by
    rw [hf]
    -- `y` is positive, which leaves a finite number of positive sign.
    rcases UnpackedFloat.HasValue.cases hy with ⟨s, -, rfl⟩ | ⟨s, m, e, hm, hg, -, happlied⟩
    · exact absurd hvalue (lt_irrefl 0)
    · cases s with
      | negative =>
          have hneg : y = -(m * 2 ^ e) := happlied
          have hmagnitude : (0 : ℚ) ≤ m * 2 ^ e := by positivity
          linarith
      | positive =>
          rw [hg]
          rfl
  have hunpack : (f * g).toModel.unpack = _ := unpack_pack_of_not_finite (by rw [hmul]; rfl)
  rwa [hmul] at hunpack

theorem not_isFinite_of_infinity {s : UnpackedFloat.Sign}
    (h : f.toModel.unpack = .infinity s) : ¬ f.isFinite = true := by
  change ¬ f.toModel.unpack.isFinite = true
  rw [h]
  exact Bool.false_ne_true

/-- A number that is not negative is finite or the positive infinity. -/
theorem isFinite_or_infinity (hf : 0 ≤ f) :
    f.isFinite = true ∨ f.toModel.unpack = .infinity .positive := by
  rcases exists_stands (not_isNaN_of_le hf).2 with ⟨a, ha⟩
  rw [(Stands.value hasValue_zero).le_iff ha] at hf
  cases ha with
  | negativeInfinity _ => exact absurd hf (not_le.mpr (Extended.bot_lt _))
  | value hx => exact Or.inl hx.isFinite
  | positiveInfinity h => exact Or.inr h

/-- A finite factor makes no NaN where no zero meets an infinity. -/
theorem not_isNaN_mul (hf : 0 ≤ f) (hfinite : g.isFinite = true)
    (h : f.isFinite = true ∨ 0 < g) : (f * g).isNaN = false := by
  rcases isFinite_or_infinity hf with hf' | hinf
  · rcases exists_hasValue hf' with ⟨x, hx, -⟩
    rcases exists_hasValue hfinite with ⟨y, hy, -⟩
    exact hx.not_isNaN_mul hy
  · have hpos := h.resolve_left (not_isFinite_of_infinity hinf)
    change (f * g).toModel.unpack.isNaN = false
    rw [unpack_infinity_mul hinf hpos hfinite]
    rfl

/-- Products of numbers that are not negative grow with their factors, where the second ones are
finite and no zero meets an infinity. -/
theorem mul_mono (hf : 0 ≤ f) (hff : f ≤ f') (hg : 0 ≤ g) (hgg : g ≤ g')
    (hfinite : g'.isFinite = true) (h : f.isFinite = true ∨ 0 < g)
    (h' : f'.isFinite = true ∨ 0 < g') : f * g ≤ f' * g' := by
  have hfinite₀ : g.isFinite = true := isFinite_of_between hasValue_zero.isFinite hfinite hg hgg
  rcases exists_hasValue hfinite₀ with ⟨y, hy, -⟩
  rcases exists_hasValue hfinite with ⟨y', hy', -⟩
  rcases isFinite_or_infinity (le_trans hf hff) with hf' | hinf
  · rcases exists_hasValue (isFinite_of_between hasValue_zero.isFinite hf' hf hff) with ⟨x, hx, -⟩
    rcases exists_hasValue hf' with ⟨x', hx', -⟩
    rw [hasValue_zero.le_iff hx] at hf
    rw [hx.le_iff hx'] at hff
    rw [hasValue_zero.le_iff hy] at hg
    rw [hy.le_iff hy'] at hgg
    refine pack_mono (UnpackedFloat.mul_hasValue hx hy (by decide))
      (UnpackedFloat.mul_hasValue hx' hy' (by decide)) (Format.rounded_mono ?_)
    exact mul_le_mul hff hgg hg (hf.trans hff)
  · -- The greater product is infinite, and the other one is not NaN.
    have hpos := h'.resolve_left (not_isFinite_of_infinity hinf)
    have htop : (f' * g').Stands ⊤ := .positiveInfinity (unpack_infinity_mul hinf hpos hfinite)
    rcases exists_stands (not_isNaN_mul hf hfinite₀ h) with ⟨a, ha⟩
    exact (ha.le_iff htop).mpr le_top

/-- A product of numbers that are not negative is not negative. -/
theorem mul_nonneg (hf : 0 ≤ f) (hg : 0 ≤ g) (hfinite : g.isFinite = true)
    (h : f.isFinite = true ∨ 0 < g) : 0 ≤ f * g := by
  have hzero : (0 : Float32) * 0 = 0 := by decide +kernel
  have hmono := mul_mono (le_refl rfl) hf (le_refl rfl) hg hfinite (Or.inl rfl) h
  rwa [hzero] at hmono

/-- A product of finite numbers that overflows has a positive factor. -/
theorem isFinite_mul_or_pos (hf : f.isFinite = true) (hg : 0 ≤ g) (hfinite : g.isFinite = true) :
    (f * g).isFinite = true ∨ 0 < g := by
  rcases exists_hasValue hf with ⟨x, hx, -⟩
  rcases exists_hasValue hfinite with ⟨y, hy, -⟩
  rw [hasValue_zero.le_iff hy] at hg
  rw [hasValue_zero.lt_iff hy, hx.isFinite_mul_iff hy]
  rcases hg.eq_or_lt with rfl | hpos
  · left
    rw [mul_zero, Format.rounded_zero, abs_zero, binary32_limit]
    norm_num
  · exact Or.inr hpos

/-! ### Inverses -/

/-- The least positive number that has all its digits, `2 ^ -126`. -/
def leastNormal : Float32 := .ofBits 0x00800000

theorem hasValue_leastNormal : leastNormal.HasValue (2 ^ (-126 : ℤ)) :=
  hasValue_positive (m := 2 ^ 23) (e := -149) (by decide) rfl (by norm_num)

/-- A positive normal number is between `2 ^ -126` and `2 ^ 128`. -/
theorem exists_hasValue_of_leastNormal_le (hg : leastNormal ≤ g) (hfinite : g.isFinite = true) :
    ∃ y, g.HasValue y ∧ 2 ^ (-126 : ℤ) ≤ y ∧ y < 2 ^ (128 : ℤ) := by
  rcases exists_hasValue hfinite with ⟨y, hy, hlt⟩
  exact ⟨y, hy, (hasValue_leastNormal.le_iff hy).mp hg, lt_of_abs_lt (binary32_limit ▸ hlt)⟩

/-- The inverse of a positive normal number is rounded to a positive finite number. -/
theorem HasValue.inverse (hy : g.HasValue y) (hlow : 2 ^ (-126 : ℤ) ≤ y)
    (hhigh : y < 2 ^ (128 : ℤ)) :
    (1 / g).HasValue (Format.binary32.rounded (1 / y)) ∧
      0 < Format.binary32.rounded (1 / y) := by
  have hleast : (0 : ℚ) < 2 ^ (-126 : ℤ) := by positivity
  have hpos : 0 < y := hleast.trans_le hlow
  constructor
  · have hsmall : |1 / y| ≤ 2 ^ 126 := by
      rw [abs_of_pos (one_div_pos.mpr hpos), div_le_iff₀ hpos]
      norm_num at hlow ⊢
      linarith
    refine hasValue_one.div hy hpos.ne' ((abs_rounded_le_pow hsmall).trans_lt ?_)
    rw [binary32_limit]
    norm_num
  · -- Below `2 ^ 128` the inverse is far above the least number that is not rounded to zero.
    rw [Format.rounded_pos_iff, binary32_minExponent, lt_div_iff₀ hpos]
    norm_num at hhigh ⊢
    linarith

/-- The inverses of positive normal numbers are positive and finite, and the greater number has the
smaller inverse. -/
theorem inverse_antitone (hg : leastNormal ≤ g) (hgg : g ≤ g') (hfinite : g'.isFinite = true) :
    0 < 1 / g' ∧ 1 / g' ≤ 1 / g ∧ (1 / g).isFinite = true := by
  have hfinite₀ := isFinite_of_between hasValue_leastNormal.isFinite hfinite hg hgg
  rcases exists_hasValue_of_leastNormal_le hg hfinite₀ with ⟨y, hy, hlow, hhigh⟩
  rcases exists_hasValue_of_leastNormal_le (le_trans hg hgg) hfinite with ⟨y', hy', hlow', hhigh'⟩
  rcases hy.inverse hlow hhigh with ⟨hvalue, -⟩
  rcases hy'.inverse hlow' hhigh' with ⟨hvalue', hpos⟩
  refine ⟨(hasValue_zero.lt_iff hvalue').mpr hpos, ?_, hvalue.isFinite⟩
  rw [hvalue'.le_iff hvalue]
  rw [hy.le_iff hy'] at hgg
  have hleast : (0 : ℚ) < 2 ^ (-126 : ℤ) := by positivity
  exact Format.rounded_mono (one_div_le_one_div_of_le (hleast.trans_le hlow) hgg)

end Float32
