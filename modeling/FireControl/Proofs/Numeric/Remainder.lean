import FireControl.Numeric.Remainder
import FireControl.Proofs.Numeric.Infinity

/-!
# The Remainder by Values

The remainder of a truncated division has no more digits than the smaller of the two numbers and no
place below theirs, so the format holds it and no rounding takes place. It differs from the dividend
by a multiple of the divisor and is smaller than the divisor, whatever the signs are.

The Euclidean remainder adds the size of the divisor to a negative remainder. The sum lies between
zero and the divisor, and rounding keeps it there, though it may round it up to the divisor.

## Theorems

* `UnpackedFloat.remainder_hasValue`: The truncated remainder is exact.
* `Float32.HasValue.remEuclid`: The Euclidean remainder is rounded once.
* `isFinite_of_remEuclid`: Only a finite number has a remainder.
-/

namespace Float.Model.UnpackedFloat

variable {F : Format} {u w : UnpackedFloat} {x y : ℚ}

theorem Sign.applied_add (s : Sign) (v z : ℚ) : s.applied (v + z) = s.applied v + s.applied z := by
  cases s with
  | negative => exact neg_add v z
  | positive => rfl

theorem Sign.applied_div_mul (s t : Sign) (v z : ℚ) :
    (s / t).applied v * t.applied z = s.applied (v * z) := by
  cases s <;> cases t <;> simp only [Sign.applied] <;> first
    | exact mul_neg v z
    | exact neg_mul v z
    | exact neg_mul_neg v z
    | rfl

theorem Sign.cast_apply (s : Sign) (n : ℤ) : ((s.apply n : ℤ) : ℚ) = s.applied n := by
  cases s with
  | negative => exact Int.cast_neg n
  | positive => rfl

theorem abs_hasValue (hx : u.HasValue F x) : u.abs.HasValue F |x| := by
  rcases hx.cases with ⟨s, rfl, rfl⟩ | ⟨s, m, e, hm, rfl, h, rfl⟩
  · rw [abs_zero]
    exact hasValue_zero_iff.mpr rfl
  · exact hasValue_finite_iff.mpr ⟨h, s.abs_applied (by positivity)⟩

/-- A mantissa over a smaller exponent is an integer. -/
theorem shiftLeft_toNat_mul (m : ℕ) {e least : ℤ} (h : least ≤ e) :
    ((m <<< (e - least).toNat : ℕ) : ℚ) * 2 ^ least = m * 2 ^ e := by
  rw [Nat.shiftLeft_eq]
  push_cast
  rw [mul_assoc, ← zpow_natCast, ← zpow_add₀ two_ne_zero, Int.toNat_of_nonneg (by omega)]
  congr 2
  omega

/-- The rest of two mantissas over the smaller exponent is one of the format. -/
theorem rest_lt {m₁ m₂ : ℕ} {e₁ e₂ : ℤ} (h₁ : F.Canonical m₁ e₁) (h₂ : F.Canonical m₂ e₂) :
    (m₁ <<< (e₁ - min e₁ e₂).toNat) % (m₂ <<< (e₂ - min e₁ e₂).toNat) < 2 ^ F.mantissaBits := by
  rcases le_total e₁ e₂ with hle | hle
  · have hshift : (e₁ - min e₁ e₂).toNat = 0 := by omega
    rw [hshift, Nat.shiftLeft_zero]
    exact (Nat.mod_le _ _).trans_lt h₁.lt
  · have hshift : (e₂ - min e₁ e₂).toNat = 0 := by omega
    rw [hshift, Nat.shiftLeft_zero]
    exact (Nat.mod_lt _ h₂.pos).trans h₂.lt

/-- The remainder of a truncated division is exact. -/
theorem remainder_hasValue (hx : u.HasValue F x) (hy : w.HasValue F y) (hne : y ≠ 0) :
    ∃ (q : ℤ) (r : ℚ), x = q * y + r ∧ |r| < |y| ∧ (remainder F u w).HasValue F r := by
  rcases hy.cases with ⟨t, rfl, rfl⟩ | ⟨t, m₂, e₂, hm₂, rfl, h₂, rfl⟩
  · exact absurd rfl hne
  · rcases hx.cases with ⟨s, rfl, rfl⟩ | ⟨s, m₁, e₁, hm₁, rfl, h₁, rfl⟩
    · exact ⟨0, 0, by simp, by simpa using hne, hasValue_zero_iff.mpr rfl⟩
    · -- Over the smaller exponent both mantissas are integers, and these are what is divided.
      generalize hleast : min e₁ e₂ = least
      generalize ha : m₁ <<< (e₁ - least).toNat = a
      generalize hb : m₂ <<< (e₂ - least).toNat = b
      have hx : (m₁ : ℚ) * 2 ^ e₁ = a * 2 ^ least := by
        rw [← ha, shiftLeft_toNat_mul m₁ (by omega)]
      have hy : (m₂ : ℚ) * 2 ^ e₂ = b * 2 ^ least := by
        rw [← hb, shiftLeft_toNat_mul m₂ (by omega)]
      have hbpos : 0 < b := by
        rw [← hb, Nat.shiftLeft_eq]
        positivity
      have hdivision : (a : ℚ) = b * (a / b : ℕ) + (a % b : ℕ) := by
        exact_mod_cast (Nat.div_add_mod a b).symm
      have hsmall : ((a % b : ℕ) : ℚ) * 2 ^ least < b * 2 ^ least :=
        mul_lt_mul_of_pos_right (by exact_mod_cast Nat.mod_lt a hbpos) (by positivity)
      refine ⟨(s / t).apply (a / b : ℕ), s.applied ((a % b : ℕ) * 2 ^ least), ?_, ?_, ?_⟩
      · rw [Sign.cast_apply, Sign.applied_div_mul, ← Sign.applied_add, hx, hy, hdivision,
          Int.cast_natCast]
        congr 1
        ring
      · rw [Sign.abs_applied s (by positivity), Sign.abs_applied t (by positivity), hy]
        exact hsmall
      · -- The rest has no more digits than the format, so rounding leaves it as it is.
        have hrest : F.rounded ((a % b : ℕ) * 2 ^ least) = (a % b : ℕ) * 2 ^ least := by
          have hlt := rest_lt h₁ h₂
          rw [hleast, ha, hb] at hlt
          have hmin : F.minExponent ≤ least := hleast ▸ le_min h₁.minExponent_le h₂.minExponent_le
          exact_mod_cast Format.rounded_of_multiple (n := (a % b : ℕ)) (by
            rw [Nat.abs_cast]
            exact_mod_cast hlt.le) hmin
        change (if (m₁ <<< (e₁ - min e₁ e₂).toNat) % (m₂ <<< (e₂ - min e₁ e₂).toNat) = 0 then
          zero s else round F s ((m₁ <<< (e₁ - min e₁ e₂).toNat) %
            (m₂ <<< (e₂ - min e₁ e₂).toNat)) (min e₁ e₂)).HasValue F _
        rw [hleast, ha, hb]
        by_cases hzero : a % b = 0
        · rw [if_pos hzero, hzero, Nat.cast_zero, zero_mul]
          exact hasValue_zero_iff.mpr (by cases s <;> simp [Sign.applied])
        · rw [if_neg hzero]
          have hround := (round_carries (F := F) (Nat.pos_of_ne_zero hzero) least
            s).hasValue_rounded
          rwa [← Sign.applied_rounded, hrest] at hround

end Float.Model.UnpackedFloat

open Float.Model FireControl

namespace Float32

variable {f g : Float32} {x y : ℚ}

theorem HasValue.abs (hx : f.HasValue x) : f.abs.HasValue |x| :=
  hasValue_pack (UnpackedFloat.abs_hasValue hx) (by rw [abs_abs]; exact hx.lt_limit)

/-- The remainder of a truncated division is exact. -/
theorem HasValue.truncatedRemainder (hx : f.HasValue x) (hy : g.HasValue y) (hne : y ≠ 0) :
    ∃ (q : ℤ) (r : ℚ), x = q * y + r ∧ |r| < |y| ∧ (f.truncatedRemainder g).HasValue r := by
  rcases UnpackedFloat.remainder_hasValue hx hy hne with ⟨q, r, hdivision, hsmall, hvalue⟩
  exact ⟨q, r, hdivision, hsmall, hasValue_pack hvalue (hsmall.trans hy.lt_limit)⟩

/-- The Euclidean remainder is the exact one, rounded once. -/
theorem HasValue.remEuclid (hx : f.HasValue x) (hy : g.HasValue y) (hne : y ≠ 0) :
    ∃ (q : ℤ) (r : ℚ), x = q * y + r ∧ 0 ≤ r ∧ r < |y| ∧
      (f.remEuclid g).HasValue (Format.binary32.rounded r) := by
  rcases hx.truncatedRemainder hy hne with ⟨q, r, hdivision, hsmall, hvalue⟩
  rcases abs_lt.mp hsmall with ⟨hlow, hhigh⟩
  unfold Float32.remEuclid
  by_cases hneg : f.truncatedRemainder g < 0
  · have hr : r < 0 := (hvalue.lt_iff hasValue_zero).mp hneg
    have hsum : 0 ≤ r + |y| := by linarith
    -- The sum is between zero and the divisor, and both are numbers of the format.
    have hround : |Format.binary32.rounded (r + |y|)| < Format.binary32.limit := by
      rw [abs_of_nonneg (Format.rounded_nonneg hsum)]
      calc Format.binary32.rounded (r + |y|) ≤ Format.binary32.rounded |y| :=
            Format.rounded_mono (by linarith)
        _ = |y| := hy.abs.rounded
        _ < Format.binary32.limit := hy.lt_limit
    have hshifted : ∃ q' : ℤ, x = q' * y + (r + |y|) := by
      rcases abs_choice y with habs | habs
      · exact ⟨q - 1, by rw [hdivision, habs]; push_cast; ring⟩
      · exact ⟨q + 1, by rw [hdivision, habs]; push_cast; ring⟩
    rcases hshifted with ⟨q', hq'⟩
    refine ⟨q', r + |y|, hq', hsum, by linarith, ?_⟩
    simp only [if_pos hneg]
    exact hvalue.add hy.abs hround
  · have hr : 0 ≤ r := not_lt.mp fun h => hneg ((hvalue.lt_iff hasValue_zero).mpr h)
    refine ⟨q, r, hdivision, hr, hhigh, ?_⟩
    simp only [if_neg hneg]
    rwa [hvalue.rounded]

/-- What is not finite leaves no remainder. -/
theorem isFinite_of_truncatedRemainder (h : (f.truncatedRemainder g).isNaN = false) :
    f.isFinite = true := by
  by_contra hnot
  change ¬ f.toModel.unpack.isFinite = true at hnot
  -- Any dividend that is not finite has no remainder, whatever the divisor.
  have hremainder : UnpackedFloat.remainder .binary32 f.toModel.unpack g.toModel.unpack =
      .notANumber := by
    cases hu : f.toModel.unpack with
    | notANumber => rfl
    | infinity s => rfl
    | zero s => rw [hu] at hnot; exact absurd rfl hnot
    | finite s m e hm => rw [hu] at hnot; exact absurd rfl hnot
  have hunpack : (f.truncatedRemainder g).toModel.unpack = _ :=
    unpack_pack_of_not_finite (by rw [hremainder]; rfl)
  change (f.truncatedRemainder g).toModel.unpack.isNaN = false at h
  rw [hunpack, hremainder] at h
  exact absurd h.symm Bool.false_ne_true

theorem isFinite_of_remEuclid (h : (f.remEuclid g).isNaN = false) : f.isFinite = true := by
  unfold Float32.remEuclid at h
  simp only at h
  split at h
  · rename_i hneg
    exact isFinite_of_truncatedRemainder (not_isNaN_of_le (le_of_lt hneg)).1
  · exact isFinite_of_truncatedRemainder h

end Float32
