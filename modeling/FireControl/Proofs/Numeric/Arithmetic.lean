import FireControl.Proofs.Numeric.Order
import FireControl.Proofs.Numeric.Packing

/-!
# Floating-Point Arithmetic by Values

Sum, difference, product and quotient of two numbers that have a value are the exact result,
rounded, and numbers are compared by their values. The implementation gets there along many ways,
one for each pair of kinds and signs; here each operation is one statement about rational numbers.

The numbers of the two formats are packed, so their operations have one more case: a result that
reaches the limit becomes infinite. Where it does not, the value of the result is the rounded one.

## Main definitions

* `Float32.HasValue`: A single-precision number with a value.

## Theorems

* `UnpackedFloat.compare_of_hasValue`: Numbers are compared by their values.
* `add_hasValue`, `sub_hasValue`, `mul_hasValue`, `div_hasValue`: The operations round.
* `Float32.unpack_inj`, `Float32.eq_of_isNaN`: A number is determined by what it unpacks to, and
  there is one NaN.
* `Float32.HasValue.add`, `sub`, `mul`, `div`: Below the limit.
* `Float32.HasValue.lt_iff`, `Float32.HasValue.le_iff`: The order.
-/

namespace Float.Model

namespace Format

variable {F : Format}

theorem Canonical.lt_of_exponent_lt {m₁ m₂ : ℕ} {e₁ e₂ : ℤ} (h₁ : F.Canonical m₁ e₁)
    (h₂ : F.Canonical m₂ e₂) (h : e₁ < e₂) : (m₁ : ℚ) * 2 ^ e₁ < m₂ * 2 ^ e₂ := by
  have hfull := h₂.full.resolve_right (by have := h₁.minExponent_le; omega)
  have hlt : (m₁ : ℚ) < 2 * 2 ^ F.mantissaBitsWithoutImplicit := by
    exact_mod_cast F.two_pow_mantissaBits ▸ h₁.lt
  have hge : (2 : ℚ) ^ F.mantissaBitsWithoutImplicit ≤ m₂ := by exact_mod_cast hfull
  have hexp : (2 : ℚ) * 2 ^ e₁ ≤ 2 ^ e₂ := by
    rw [mul_comm, ← zpow_add_one₀ two_ne_zero]
    exact zpow_le_zpow_right₀ one_le_two h
  calc (m₁ : ℚ) * 2 ^ e₁ < 2 * 2 ^ F.mantissaBitsWithoutImplicit * 2 ^ e₁ := by gcongr
    _ = 2 ^ F.mantissaBitsWithoutImplicit * (2 * 2 ^ e₁) := by ring
    _ ≤ m₂ * 2 ^ e₂ := by gcongr

/-- Canonical numbers compare like their exponents first and their mantissas second. -/
theorem Canonical.compare_eq {m₁ m₂ : ℕ} {e₁ e₂ : ℤ} (h₁ : F.Canonical m₁ e₁)
    (h₂ : F.Canonical m₂ e₂) :
    (compare e₁ e₂).then (compare m₁ m₂) = compare ((m₁ : ℚ) * 2 ^ e₁) (m₂ * 2 ^ e₂) := by
  -- Of two canonical pairs, the one with the larger exponent is the larger number.
  rcases lt_trichotomy e₁ e₂ with hlt | rfl | hgt
  · rw [compare_lt_iff_lt.mpr hlt, compare_lt_iff_lt.mpr (h₁.lt_of_exponent_lt h₂ hlt)]
    rfl
  · have hpos : (0 : ℚ) < 2 ^ e₁ := by positivity
    rw [compare_eq_iff_eq.mpr rfl]
    rcases lt_trichotomy m₁ m₂ with hlt | rfl | hgt
    · have hmul : (m₁ : ℚ) * 2 ^ e₁ < m₂ * 2 ^ e₁ :=
        mul_lt_mul_of_pos_right (by exact_mod_cast hlt) hpos
      rw [compare_lt_iff_lt.mpr hlt, compare_lt_iff_lt.mpr hmul]
      rfl
    · rw [compare_eq_iff_eq.mpr rfl, compare_eq_iff_eq.mpr rfl]
      rfl
    · have hmul : (m₂ : ℚ) * 2 ^ e₁ < m₁ * 2 ^ e₁ :=
        mul_lt_mul_of_pos_right (by exact_mod_cast hgt) hpos
      rw [compare_gt_iff_gt.mpr hgt, compare_gt_iff_gt.mpr hmul]
      rfl
  · rw [compare_gt_iff_gt.mpr hgt, compare_gt_iff_gt.mpr (h₂.lt_of_exponent_lt h₁ hgt)]
    rfl

end Format

namespace UnpackedFloat

variable {F : Format} {u w : UnpackedFloat} {x y : ℚ}

/-- The value of a finite number, and what it is made of. -/
theorem hasValue_finite_iff {s : Sign} {m : ℕ} {e : ℤ} {hm : 0 < m} :
    (UnpackedFloat.finite s m e hm).HasValue F x ↔
      F.Canonical m e ∧ x = s.applied (m * 2 ^ e) := by
  constructor
  · rintro ⟨t, hcarries, happlied⟩
    cases hcarries with
    | finite m e hm canonical h => exact ⟨canonical, by rw [← happlied, h]⟩
  · rintro ⟨canonical, rfl⟩
    exact Carries.hasValue (.finite m e hm canonical rfl)

theorem hasValue_zero_iff {s : Sign} : (UnpackedFloat.zero s).HasValue F x ↔ x = 0 := by
  constructor
  · rintro ⟨t, hcarries, happlied⟩
    cases hcarries with
    | zero h => exact abs_eq_zero.mp h
  · rintro rfl
    exact ⟨s, .zero abs_zero, by cases s <;> simp [Sign.applied]⟩

theorem not_hasValue_infinity {s : Sign} : ¬ (UnpackedFloat.infinity s).HasValue F x := by
  rintro ⟨t, hcarries, -⟩
  cases hcarries

theorem not_hasValue_notANumber : ¬ UnpackedFloat.notANumber.HasValue F x := by
  rintro ⟨t, hcarries, -⟩
  cases hcarries

/-- A number that has a value is a zero or finite. -/
theorem HasValue.cases (h : u.HasValue F x) :
    (∃ s, u = .zero s ∧ x = 0) ∨
      ∃ s m e hm, u = .finite s m e hm ∧ F.Canonical m e ∧ x = s.applied (m * 2 ^ e) := by
  cases u with
  | infinity s => exact absurd h not_hasValue_infinity
  | notANumber => exact absurd h not_hasValue_notANumber
  | zero s => exact Or.inl ⟨s, rfl, hasValue_zero_iff.mp h⟩
  | finite s m e hm => exact Or.inr ⟨s, m, e, hm, rfl, hasValue_finite_iff.mp h⟩

/-- A number has one value. -/
theorem HasValue.unique (hx : u.HasValue F x) (hy : u.HasValue F y) : x = y := by
  rcases hx.cases with ⟨s, rfl, rfl⟩ | ⟨s, m, e, hm, rfl, -, rfl⟩
  · exact (hasValue_zero_iff.mp hy).symm
  · exact (hasValue_finite_iff.mp hy).2.symm

theorem HasValue.rounded (h : u.HasValue F x) : F.rounded x = x := by
  rcases h with ⟨s, hcarries, happlied⟩
  have habs := hcarries.rounded
  cases s with
  | negative => rw [← happlied, Sign.applied, Format.rounded_neg, habs]
  | positive => rw [← happlied, Sign.applied, habs]

theorem compare_neg_neg (a b : ℚ) : compare (-a) (-b) = (compare a b).swap := by
  rcases lt_trichotomy a b with hlt | rfl | hgt
  · rw [compare_lt_iff_lt.mpr hlt, compare_gt_iff_gt.mpr (neg_lt_neg hlt)]
    rfl
  · rw [compare_eq_iff_eq.mpr rfl, compare_eq_iff_eq.mpr rfl]
    rfl
  · rw [compare_gt_iff_gt.mpr hgt, compare_lt_iff_lt.mpr (neg_lt_neg hgt)]
    rfl

/-- Numbers are compared by their values. -/
theorem compare_of_hasValue (hx : u.HasValue F x) (hy : w.HasValue F y) :
    u.compare w = some (compare x y) := by
  have hpos {m : ℕ} {e : ℤ} (hm : 0 < m) : (0 : ℚ) < m * 2 ^ e := by
    have : (0 : ℚ) < m := by exact_mod_cast hm
    positivity
  -- A zero has no mantissa to compare: there the sign of the other number decides.
  rcases hx.cases with ⟨s, rfl, rfl⟩ | ⟨s, m₁, e₁, hm₁, rfl, h₁, rfl⟩
  · rcases hy.cases with ⟨t, rfl, rfl⟩ | ⟨t, m₂, e₂, hm₂, rfl, h₂, rfl⟩
    · rw [compare_eq_iff_eq.mpr rfl]
      rfl
    · have hpos₂ := hpos (e := e₂) hm₂
      cases t with
      | negative => rw [Sign.applied, compare_gt_iff_gt.mpr (neg_lt_zero.mpr hpos₂)]; rfl
      | positive => rw [Sign.applied, compare_lt_iff_lt.mpr hpos₂]; rfl
  · have hpos₁ := hpos (e := e₁) hm₁
    rcases hy.cases with ⟨t, rfl, rfl⟩ | ⟨t, m₂, e₂, hm₂, rfl, h₂, rfl⟩
    · cases s with
      | negative => rw [Sign.applied, compare_lt_iff_lt.mpr (neg_lt_zero.mpr hpos₁)]; rfl
      | positive => rw [Sign.applied, compare_gt_iff_gt.mpr hpos₁]; rfl
    · have hpos₂ := hpos (e := e₂) hm₂
      -- Both nonzero: equal signs leave the order of the magnitudes, reversed for negative ones.
      have heq := h₁.compare_eq h₂
      cases s with
      | negative =>
          cases t with
          | negative =>
              change some (((compare e₁ e₂).then (compare m₁ m₂)).swap) = _
              rw [heq, Sign.applied, Sign.applied, compare_neg_neg]
          | positive =>
              have hlt : -((m₁ : ℚ) * 2 ^ e₁) < m₂ * 2 ^ e₂ := by linarith
              rw [Sign.applied, Sign.applied, compare_lt_iff_lt.mpr hlt]
              rfl
      | positive =>
          cases t with
          | negative =>
              have hlt : -((m₂ : ℚ) * 2 ^ e₂) < m₁ * 2 ^ e₁ := by linarith
              rw [Sign.applied, Sign.applied, compare_gt_iff_gt.mpr hlt]
              rfl
          | positive => exact congrArg some heq

/-! ### Operations -/

theorem Sign.applied_neg (s : Sign) (v : ℚ) : (-s).applied v = -s.applied v := by
  cases s with
  | negative => exact (neg_neg v).symm
  | positive => rfl

theorem Sign.applied_mul (s t : Sign) (v z : ℚ) :
    (s * t).applied (v * z) = s.applied v * t.applied z := by
  cases s <;> cases t <;> simp only [Sign.applied] <;> first
    | exact (neg_mul_neg v z).symm
    | exact (neg_mul v z).symm
    | exact (mul_neg v z).symm

theorem Sign.applied_div (s t : Sign) (v z : ℚ) :
    (s / t).applied (v / z) = s.applied v / t.applied z := by
  cases s <;> cases t <;> simp only [Sign.applied] <;> first
    | exact (neg_div_neg_eq v z).symm
    | exact (neg_div z v).symm
    | exact (div_neg v).symm
    | rfl

theorem Sign.applied_rounded (s : Sign) (v : ℚ) :
    s.applied (F.rounded v) = F.rounded (s.applied v) := by
  cases s with
  | negative => exact (Format.rounded_neg v).symm
  | positive => rfl

theorem Carries.hasValue_rounded {s : Sign} {v : ℚ} (h : u.Carries F s (F.rounded v)) :
    u.HasValue F (F.rounded (s.applied v)) :=
  Sign.applied_rounded s v ▸ h.hasValue

/-- A product is exact up to rounding. -/
theorem mul_hasValue (hx : u.HasValue F x) (hy : w.HasValue F y)
    (hle : F.minExponent ≤ 0) : (mul F u w).HasValue F (F.rounded (x * y)) := by
  rcases hx.cases with ⟨s, rfl, rfl⟩ | ⟨s, m₁, e₁, hm₁, rfl, h₁, rfl⟩
  · rw [zero_mul, Format.rounded_zero]
    rcases hy.cases with ⟨t, rfl, rfl⟩ | ⟨t, m₂, e₂, hm₂, rfl, h₂, rfl⟩
    · exact hasValue_zero_iff.mpr rfl
    · exact hasValue_zero_iff.mpr rfl
  · rcases hy.cases with ⟨t, rfl, rfl⟩ | ⟨t, m₂, e₂, hm₂, rfl, h₂, rfl⟩
    · rw [mul_zero, Format.rounded_zero]
      exact hasValue_zero_iff.mpr rfl
    · have hq₁ : (0 : ℚ) < m₁ := by exact_mod_cast hm₁
      have hq₂ : (0 : ℚ) < m₂ := by exact_mod_cast hm₂
      have hpos : (0 : ℚ) < m₁ * 2 ^ e₁ * (m₂ * 2 ^ e₂) := by positivity
      have hvalue : ((m₁ * m₂ : ℕ) : ℚ) * 2 ^ (e₁ + e₂) = m₁ * 2 ^ e₁ * (m₂ * 2 ^ e₂) := by
        rw [zpow_add₀ two_ne_zero]
        push_cast
        ring
      rw [← Sign.applied_mul]
      refine (roundWithAccuracy_exact_carries (s * t) hpos hvalue ?_).hasValue_rounded
      rw [← hvalue]
      -- The product of the mantissas has all digits, or its exponent is below the least.
      rcases h₁.full with hfull | hmin₁
      · exact Format.le_lastPlace_of_full (hfull.trans (Nat.le_mul_of_pos_right m₁ hm₂)) _
      · rcases h₂.full with hfull | hmin₂
        · exact Format.le_lastPlace_of_full (hfull.trans (Nat.le_mul_of_pos_left m₂ hm₁)) _
        · exact le_trans (by omega) (F.minExponent_le_lastPlace _)

/-- A quotient is exact up to rounding, also of mantissas that the format does not have. -/
theorem div_carries {m₁ m₂ : ℕ} {e₁ e₂ : ℤ} {s t : Sign} (hm₁ : 0 < m₁) (hm₂ : 0 < m₂) :
    Carries F (s / t) (F.rounded (m₁ * 2 ^ e₁ / (m₂ * 2 ^ e₂)))
      (div F (.finite s m₁ e₁ hm₁) (.finite t m₂ e₂ hm₂)) := by
  have hq₁ : (0 : ℚ) < m₁ := by exact_mod_cast hm₁
  have hq₂ : (0 : ℚ) < m₂ := by exact_mod_cast hm₂
  generalize hx : (m₁ : ℚ) * 2 ^ e₁ / (m₂ * 2 ^ e₂) = x
  have hpos : 0 < x := hx ▸ by positivity
  generalize hp : min (e₁ - e₂)
    (F.targetExponent (totalExponent m₁ e₁ - totalExponent m₂ e₂)) = p
  generalize hn : m₁ <<< (e₁ - e₂ - p).toNat = n
  -- The dividend is shifted until the quotient counts places of size `2 ^ p`.
  have hquotient : x / 2 ^ p = n / m₂ := by
    have hshift : (n : ℚ) = m₁ * 2 ^ (e₁ - e₂ - p) := by
      rw [← hn, Nat.shiftLeft_eq]
      push_cast
      rw [← zpow_natCast, Int.toNat_of_nonneg (by omega)]
    rw [hshift, ← hx, zpow_sub₀ two_ne_zero, zpow_sub₀ two_ne_zero]
    field_simp
  have hdescribes : (ExtendedMantissa.ofMantissaAndAccuracy (n / m₂)
      (accuracyOfFraction (n % m₂) m₂)).Describes (x / 2 ^ p) := by
    have hdivision : (n : ℚ) / m₂ - (n / m₂ : ℕ) = (n % m₂ : ℕ) / m₂ := by
      have hcast : (n : ℚ) = m₂ * (n / m₂ : ℕ) + (n % m₂ : ℕ) := by
        exact_mod_cast (Nat.div_add_mod n m₂).symm
      field_simp
      linarith
    refine ExtendedMantissa.describes_ofMantissaAndAccuracy ?_
    rw [hquotient, hdivision]
    exact describes_accuracyOfFraction (Nat.mod_lt n hm₂)
  have hplace : p ≤ F.lastPlace x := by
    have hlow : (2 : ℚ) ^ (m₁.log2 : ℤ) ≤ m₁ := by
      exact_mod_cast Nat.log2_self_le hm₁.ne'
    have hhigh : (m₂ : ℚ) ≤ 2 ^ ((m₂.log2 : ℤ) + 1) := by
      exact_mod_cast (Nat.lt_log2_self (n := m₂)).le
    have hle : (2 : ℚ) ^ ((m₁.log2 : ℤ) + e₁ - (m₂.log2 + 1 + e₂)) ≤ x := by
      rw [← hx, zpow_sub₀ two_ne_zero, zpow_add₀ two_ne_zero, zpow_add₀ two_ne_zero _ e₂]
      gcongr
    have hlog := (Int.zpow_le_iff_le_log (b := 2) one_lt_two hpos).mp (by exact_mod_cast hle)
    have hbits := F.mantissaBits_eq
    rw [Format.lastPlace, abs_of_pos hpos]
    unfold Format.targetExponent totalExponent at hp
    omega
  change Carries F (s / t) (F.rounded x) (roundWithAccuracy F (s / t)
    (divCore F m₁ e₁ m₂ e₂).1 (divCore F m₁ e₁ m₂ e₂).2.1 (divCore F m₁ e₁ m₂ e₂).2.2)
  unfold divCore
  simp only
  rw [hp, hn]
  exact roundWithAccuracy_carries (s / t) hpos hdescribes hplace

theorem div_hasValue (hx : u.HasValue F x) (hy : w.HasValue F y) (hne : y ≠ 0) :
    (div F u w).HasValue F (F.rounded (x / y)) := by
  rcases hy.cases with ⟨t, rfl, rfl⟩ | ⟨t, m₂, e₂, hm₂, rfl, -, rfl⟩
  · exact absurd rfl hne
  · rcases hx.cases with ⟨s, rfl, rfl⟩ | ⟨s, m₁, e₁, hm₁, rfl, -, rfl⟩
    · rw [zero_div, Format.rounded_zero]
      exact hasValue_zero_iff.mpr rfl
    · rw [← Sign.applied_div]
      exact (div_carries hm₁ hm₂).hasValue_rounded

/-- A mantissa with a sign is rounded like one without. -/
theorem normalize_hasValue (n : ℤ) (e : ℤ) (zeroSign : Sign) :
    (normalize F n e zeroSign).HasValue F (F.rounded (n * 2 ^ e)) := by
  unfold normalize
  rcases lt_trichotomy n 0 with hneg | rfl | hpos
  · rw [compare_lt_iff_lt.mpr hneg]
    -- The magnitude is rounded and its sign put back: rounding to nearest is odd.
    have hcast : (n : ℚ) = Sign.negative.applied ((-n).toNat : ℚ) := by
      have hnat : (((-n).toNat : ℤ) : ℚ) = ((-n : ℤ) : ℚ) := by rw [Int.toNat_of_nonneg (by omega)]
      rw [Int.cast_natCast] at hnat
      rw [Sign.applied, hnat, Int.cast_neg, neg_neg]
    have hround := (round_carries (F := F) (m := (-n).toNat) (by omega) e
      .negative).hasValue_rounded
    rw [hcast, Sign.applied, neg_mul]
    exact hround
  · rw [compare_eq_iff_eq.mpr rfl, Int.cast_zero, zero_mul, Format.rounded_zero]
    exact hasValue_zero_iff.mpr rfl
  · rw [compare_gt_iff_gt.mpr hpos]
    have hcast : ((n.toNat : ℕ) : ℚ) = n := by
      exact_mod_cast congrArg (Int.cast (R := ℚ)) (Int.toNat_of_nonneg hpos.le)
    have hround := (round_carries (F := F) (m := n.toNat) (by omega) e
      .positive).hasValue_rounded
    rw [hcast] at hround
    exact hround

/-- Two numbers over one exponent, the smaller of theirs. -/
theorem decreaseExponent_min (s : Sign) (m : ℕ) (e f : ℤ) (h : f ≤ e) :
    ((s.apply (decreaseExponent m e f).1 : ℤ) : ℚ) * 2 ^ f = s.applied (m * 2 ^ e) := by
  rcases decreaseExponent_spec m e f with ⟨hexponent, hvalue⟩
  rw [hexponent, min_eq_right h] at hvalue
  cases s with
  | negative =>
      rw [Sign.apply, Sign.applied, ← hvalue]
      push_cast
      ring
  | positive =>
      rw [Sign.apply, Sign.applied, ← hvalue, Int.cast_natCast]

/-- A sum is exact up to rounding. -/
theorem add_hasValue (hx : u.HasValue F x) (hy : w.HasValue F y) :
    (add F u w).HasValue F (F.rounded (x + y)) := by
  -- A zero summand is passed over unrounded, and the other one is its own rounding.
  rcases hx.cases with ⟨s, rfl, rfl⟩ | ⟨s, m₁, e₁, hm₁, rfl, h₁, rfl⟩
  · rw [zero_add, hy.rounded]
    rcases hy.cases with ⟨t, rfl, rfl⟩ | ⟨t, m₂, e₂, hm₂, rfl, h₂, rfl⟩
    · cases s <;> cases t <;> exact hasValue_zero_iff.mpr rfl
    · exact hy
  · rcases hy.cases with ⟨t, rfl, rfl⟩ | ⟨t, m₂, e₂, hm₂, rfl, h₂, rfl⟩
    · rw [add_zero, hx.rounded]
      exact hx
    -- Both are brought to the lower exponent, where the sum of the integers is exact.
    · have hsum := normalize_hasValue (F := F)
        (s.apply (decreaseExponent m₁ e₁ (min e₁ e₂)).1 +
          t.apply (decreaseExponent m₂ e₂ (min e₁ e₂)).1) (min e₁ e₂) .positive
      rw [Int.cast_add, add_mul, decreaseExponent_min s m₁ e₁ _ (min_le_left _ _),
        decreaseExponent_min t m₂ e₂ _ (min_le_right _ _)] at hsum
      exact hsum

/-- A difference is exact up to rounding. -/
theorem sub_hasValue (hx : u.HasValue F x) (hy : w.HasValue F y) :
    (sub F u w).HasValue F (F.rounded (x - y)) := by
  -- As for the sum, with the sign of the second operand turned.
  rcases hx.cases with ⟨s, rfl, rfl⟩ | ⟨s, m₁, e₁, hm₁, rfl, h₁, rfl⟩
  · rcases hy.cases with ⟨t, rfl, rfl⟩ | ⟨t, m₂, e₂, hm₂, rfl, h₂, rfl⟩
    · rw [sub_zero, Format.rounded_zero]
      cases s <;> cases t <;> exact hasValue_zero_iff.mpr rfl
    · rw [zero_sub, Format.rounded_neg, hy.rounded, ← Sign.applied_neg]
      exact hasValue_finite_iff.mpr ⟨h₂, rfl⟩
  · rcases hy.cases with ⟨t, rfl, rfl⟩ | ⟨t, m₂, e₂, hm₂, rfl, h₂, rfl⟩
    · rw [sub_zero, hx.rounded]
      exact hx
    · have hsum := normalize_hasValue (F := F)
        (s.apply (decreaseExponent m₁ e₁ (min e₁ e₂)).1 -
          t.apply (decreaseExponent m₂ e₂ (min e₁ e₂)).1) (min e₁ e₂) .positive
      rw [Int.cast_sub, sub_mul, decreaseExponent_min s m₁ e₁ _ (min_le_left _ _),
        decreaseExponent_min t m₂ e₂ _ (min_le_right _ _)] at hsum
      exact hsum

end UnpackedFloat

end Float.Model

open Float.Model

namespace Float32

/-- A single-precision number with a value. -/
def HasValue (f : Float32) (x : ℚ) : Prop :=
  f.toModel.unpack.HasValue .binary32 x

variable {f g : Float32} {x y : ℚ}

/-- A number is determined by what it unpacks to. -/
theorem unpack_inj : f.toModel.unpack = g.toModel.unpack ↔ f = g := by
  refine ⟨fun h => ?_, fun h => h ▸ rfl⟩
  have hbits := (UnpackedFloat.unpack_inj_of_valid f.toModel.valid g.toModel.valid).mp h
  exact toBits_inj.mp (UInt32.toBitVec_inj.mp hbits)

theorem unpack_of_isNaN (h : f.isNaN = true) : f.toModel.unpack = .notANumber := by
  change f.toModel.unpack.isNaN = true at h
  cases hu : f.toModel.unpack with
  | notANumber => rfl
  | _ =>
      rw [hu] at h
      exact absurd h Bool.false_ne_true

/-- There is one NaN. -/
theorem eq_of_isNaN (hf : f.isNaN = true) (hg : g.isNaN = true) : f = g :=
  unpack_inj.mp ((unpack_of_isNaN hf).trans (unpack_of_isNaN hg).symm)

/-- A finite number has a value below the limit. -/
theorem exists_hasValue (h : f.isFinite = true) :
    ∃ x, f.HasValue x ∧ |x| < Format.binary32.limit :=
  UnpackedFloat.unpack_hasValue (by decide) h

/-- The value of a number by what it is made of. -/
theorem hasValue_of_unpack {s : UnpackedFloat.Sign} {m : ℕ} {e : ℤ} (hm : 0 < m)
    (h : f.toModel.unpack = .finite s m e hm) : f.HasValue (s.applied (m * 2 ^ e)) := by
  have canonical := (UnpackedFloat.canonical_of_unpack (by decide) h).1
  rw [HasValue, h]
  exact UnpackedFloat.hasValue_finite_iff.mpr ⟨canonical, rfl⟩

/-- A number that has a value is finite. -/
theorem HasValue.isFinite (h : f.HasValue x) : f.isFinite = true := by
  rcases UnpackedFloat.HasValue.cases h with ⟨s, heq, -⟩ | ⟨s, m, e, hm, heq, -⟩
  all_goals
    change f.toModel.unpack.isFinite = true
    rw [heq]
    rfl

theorem HasValue.unique (hx : f.HasValue x) (hy : f.HasValue y) : x = y :=
  UnpackedFloat.HasValue.unique hx hy

/-- A value other than zero determines the number. -/
theorem HasValue.eq (hf : f.HasValue x) (hg : g.HasValue x) (hx : x ≠ 0) : f = g := by
  rcases hf with ⟨s, hf, hs⟩
  rcases hg with ⟨t, hg, ht⟩
  have hsign : s = t := by
    have habs := abs_pos.mpr hx
    cases s <;> cases t <;> simp only [UnpackedFloat.Sign.applied] at hs ht <;> first
      | rfl
      | linarith
  subst hsign
  have hunpack := hf.unique hg
  have hbits := (UnpackedFloat.unpack_inj_of_valid f.toModel.valid g.toModel.valid).mp hunpack
  exact toBits_inj.mp (UInt32.toBitVec_inj.mp hbits)

theorem HasValue.lt_limit (h : f.HasValue x) : |x| < Format.binary32.limit := by
  rcases exists_hasValue h.isFinite with ⟨y, hy, hlt⟩
  rwa [h.unique hy]

/-- A number of the format is left as it is. -/
theorem HasValue.rounded (h : f.HasValue x) : Format.binary32.rounded x = x :=
  UnpackedFloat.HasValue.rounded h

theorem HasValue.order_eq (hx : f.HasValue x) (hy : g.HasValue y) :
    f.order g = some (compare x y) :=
  UnpackedFloat.compare_of_hasValue hx hy

theorem HasValue.lt_iff (hx : f.HasValue x) (hy : g.HasValue y) : f < g ↔ x < y := by
  rw [lt_iff_order, hx.order_eq hy, Option.some_inj, compare_lt_iff_lt]

theorem HasValue.le_iff (hx : f.HasValue x) (hy : g.HasValue y) : f ≤ g ↔ x ≤ y := by
  rw [le_iff_order, hx.order_eq hy, Option.some_inj, Option.some_inj, compare_lt_iff_lt,
    compare_eq_iff_eq, le_iff_lt_or_eq]

/-- A number between two finite ones is finite. -/
theorem HasValue.isFinite_between {low high : Float32} (hlow : low.HasValue x)
    (hhigh : high.HasValue y) (habove : low < f) (hbelow : f ≤ high) : f.isFinite = true := by
  rw [lt_iff_order, order] at habove
  rw [le_iff_order, order] at hbelow
  change f.toModel.unpack.isFinite = true
  -- Only a NaN and the infinities are in question: no bound compares with the one,
  -- and the strict lower and the upper bound exclude the others.
  cases hf : f.toModel.unpack with
  | zero s => rfl
  | finite s m e hm => rfl
  | notANumber =>
      rw [hf] at hbelow
      rcases hbelow with h | h <;> exact absurd h (Option.some_ne_none _).symm
  | infinity s =>
      rw [hf] at habove hbelow
      cases s with
      | negative =>
          rcases UnpackedFloat.HasValue.cases hlow with ⟨t, heq, -⟩ | ⟨t, m, e, hm, heq, -⟩
          all_goals
            rw [heq] at habove
            cases t <;> simp [UnpackedFloat.compare] at habove
      | positive =>
          rcases UnpackedFloat.HasValue.cases hhigh with ⟨t, heq, -⟩ | ⟨t, m, e, hm, heq, -⟩
          all_goals
            rw [heq] at hbelow
            simp [UnpackedFloat.compare] at hbelow

/-- A rounded number below the limit survives packing. -/
theorem hasValue_pack {u : UnpackedFloat} (h : u.HasValue .binary32 x)
    (hlt : |x| < Format.binary32.limit) : (ofModel (.pack u)).HasValue x := by
  rcases h with ⟨s, hcarries, happlied⟩
  have hpack := UnpackedFloat.unpack_pack_of_lt_limit hcarries (by decide) hlt
  refine ⟨s, ?_, happlied⟩
  change (UnpackedFloat.unpack _ (UnpackedFloat.pack _ u)).Carries _ s |x|
  rw [hpack]
  exact hcarries

theorem HasValue.add (hx : f.HasValue x) (hy : g.HasValue y)
    (hlt : |Format.binary32.rounded (x + y)| < Format.binary32.limit) :
    (f + g).HasValue (Format.binary32.rounded (x + y)) :=
  hasValue_pack (UnpackedFloat.add_hasValue hx hy) hlt

theorem HasValue.sub (hx : f.HasValue x) (hy : g.HasValue y)
    (hlt : |Format.binary32.rounded (x - y)| < Format.binary32.limit) :
    (f - g).HasValue (Format.binary32.rounded (x - y)) :=
  hasValue_pack (UnpackedFloat.sub_hasValue hx hy) hlt

theorem HasValue.mul (hx : f.HasValue x) (hy : g.HasValue y)
    (hlt : |Format.binary32.rounded (x * y)| < Format.binary32.limit) :
    (f * g).HasValue (Format.binary32.rounded (x * y)) :=
  hasValue_pack (UnpackedFloat.mul_hasValue hx hy (by decide)) hlt

theorem HasValue.div (hx : f.HasValue x) (hy : g.HasValue y) (hne : y ≠ 0)
    (hlt : |Format.binary32.rounded (x / y)| < Format.binary32.limit) :
    (f / g).HasValue (Format.binary32.rounded (x / y)) :=
  hasValue_pack (UnpackedFloat.div_hasValue hx hy hne) hlt

end Float32
