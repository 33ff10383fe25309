import FireControl.Proofs.Numeric.NearestEven

/-!
# Rounding to a Binary Format

A format keeps a fixed number of digits of a number, but no digit below its least exponent.
`Format.lastPlace` is the exponent of the last digit that it keeps, and `Format.rounded` is the
nearest multiple of that power of two. Both are functions of the rational number alone: neither the
sign nor the way in which an operation has come to its result plays a part, and there is no upper
limit, since a number beyond the range is only recognized when it is packed.

The implementation works on a mantissa and an exponent instead. It shifts the mantissa to the last
place, rounds it, and shifts it once more where rounding has carried into a new digit. What comes
out is canonical, so it is determined by its value: two results with one value are the same.

## Main definitions

* `Format.lastPlace`: The exponent of the last digit that is kept.
* `Format.rounded`: The nearest number with digits down to that one.
* `Format.Canonical`: The mantissas and exponents that a format uses.
* `UnpackedFloat.Carries`: An unpacked number with a sign and a magnitude.

## Theorems

* `rounded_mono`, `rounded_neg`: Rounding keeps order and sign.
* `rounded_of_multiple`: What a format can hold is left as it is.
* `abs_rounded_sub_le`: The error is at most half of the last place.
* `Carries.unique`: The sign and the magnitude determine the unpacked number.
* `roundWithAccuracy_carries`, `round_carries`: The implementation rounds.
-/

namespace Float.Model

namespace Format

variable (F : Format)

/-- The exponent of the last digit of `x` that is kept. -/
def lastPlace (x : ℚ) : ℤ :=
  max (Int.log 2 |x| + 1 - F.mantissaBits) F.minExponent

/-- The number nearest to `x` with digits down to the last place; half-way, the even one. -/
def rounded (x : ℚ) : ℚ :=
  nearestEven (x / 2 ^ F.lastPlace x) * 2 ^ F.lastPlace x

/-- The mantissas and exponents of positive numbers: all digits are used, or the exponent is the
least. -/
structure Canonical (m : ℕ) (e : ℤ) : Prop where
  pos : 0 < m
  lt : m < 2 ^ F.mantissaBits
  minExponent_le : F.minExponent ≤ e
  full : 2 ^ F.mantissaBitsWithoutImplicit ≤ m ∨ e = F.minExponent

theorem mantissaBits_eq : F.mantissaBits = F.mantissaBitsWithoutImplicit + 1 :=
  Nat.add_comm 1 _

theorem two_pow_mantissaBits :
    2 ^ F.mantissaBits = 2 * 2 ^ F.mantissaBitsWithoutImplicit := by
  rw [mantissaBits_eq, pow_succ, mul_comm]

theorem minExponent_le_lastPlace (x : ℚ) : F.minExponent ≤ F.lastPlace x :=
  le_max_right _ _

@[simp]
theorem lastPlace_neg (x : ℚ) : F.lastPlace (-x) = F.lastPlace x := by
  rw [lastPlace, abs_neg, lastPlace]

variable {F} {x y : ℚ}

/-- The last place by the size of the number. -/
theorem lastPlace_le_iff {e : ℤ} (hx : x ≠ 0) (he : F.minExponent ≤ e) :
    F.lastPlace x ≤ e ↔ |x| < 2 ^ (F.mantissaBits + e) := by
  have hlog := Int.lt_zpow_iff_log_lt (b := 2) (R := ℚ) one_lt_two (x := F.mantissaBits + e)
    (abs_pos.mpr hx)
  push_cast at hlog
  rw [lastPlace, max_le_iff, hlog]
  omega

theorem le_lastPlace_iff {e : ℤ} (hx : x ≠ 0) (he : F.minExponent < e) :
    e ≤ F.lastPlace x ↔ 2 ^ (F.mantissaBits + e - 1) ≤ |x| := by
  have hpred := lastPlace_le_iff hx (Int.le_sub_one_of_lt he)
  rw [← add_sub_assoc] at hpred
  have hiff := not_congr hpred
  rw [not_lt] at hiff
  rw [← hiff]
  omega

theorem abs_lt_of_lastPlace (F : Format) (hx : x ≠ 0) :
    |x| < 2 ^ (F.mantissaBits + F.lastPlace x) :=
  (lastPlace_le_iff hx (F.minExponent_le_lastPlace x)).mp (le_refl _)

/-- Above the least exponent the last place is a digit of the number. -/
theorem le_abs_of_lastPlace (hx : x ≠ 0) (h : F.lastPlace x ≠ F.minExponent) :
    2 ^ (F.mantissaBits + F.lastPlace x - 1) ≤ |x| := by
  have hlt := lt_of_le_of_ne (F.minExponent_le_lastPlace x) h.symm
  exact (le_lastPlace_iff hx hlt).mp (le_refl _)

theorem lastPlace_mono (hx : x ≠ 0) (h : |x| ≤ |y|) : F.lastPlace x ≤ F.lastPlace y := by
  have hlog := Int.log_mono_right (b := 2) (abs_pos.mpr hx) h
  unfold lastPlace
  omega

/-! ### The rounded number -/

@[simp]
theorem rounded_zero : F.rounded 0 = 0 := by
  simp [rounded]

theorem rounded_neg (x : ℚ) : F.rounded (-x) = -F.rounded x := by
  rw [rounded, lastPlace_neg, neg_div, nearestEven_neg, rounded]
  push_cast
  ring

/-- The error is at most half of the last place. -/
theorem abs_rounded_sub_le (F : Format) (x : ℚ) :
    |F.rounded x - x| ≤ 2 ^ F.lastPlace x / 2 := by
  have hpos : (0 : ℚ) < 2 ^ F.lastPlace x := by positivity
  -- In units of the last place the error is at most one half.
  have hle := (abs_sub_nearestEven (x / 2 ^ F.lastPlace x)).1
  have hsub : F.rounded x - x =
      -((x / 2 ^ F.lastPlace x - nearestEven (x / 2 ^ F.lastPlace x)) *
        2 ^ F.lastPlace x) := by
    rw [rounded, sub_mul, div_mul_cancel₀ x hpos.ne']
    ring
  rw [hsub, abs_neg, abs_mul, abs_of_pos hpos]
  calc _ ≤ 1 / 2 * 2 ^ F.lastPlace x := mul_le_mul_of_nonneg_right hle hpos.le
    _ = 2 ^ F.lastPlace x / 2 := by ring

/-- The error of a number below a limit is at most half of the place that belongs to the limit. -/
theorem abs_rounded_sub_le_of_lt {e : ℤ} (he : F.minExponent ≤ e)
    (h : |x| < 2 ^ (F.mantissaBits + e)) : |F.rounded x - x| ≤ 2 ^ e / 2 := by
  rcases eq_or_ne x 0 with rfl | hne
  · rw [rounded_zero, sub_zero, abs_zero]
    positivity
  · have hplace : F.lastPlace x ≤ e := (lastPlace_le_iff hne he).mpr h
    calc |F.rounded x - x| ≤ 2 ^ F.lastPlace x / 2 := abs_rounded_sub_le F x
      _ ≤ 2 ^ e / 2 := by
        gcongr
        exact one_le_two

theorem rounded_nonneg (hx : 0 ≤ x) : 0 ≤ F.rounded x := by
  have hle : (0 : ℤ) ≤ nearestEven (x / 2 ^ F.lastPlace x) :=
    le_nearestEven (by push_cast; positivity)
  exact mul_nonneg (by exact_mod_cast hle) (by positivity)

/-- A rounded mantissa has at most one digit too many. -/
theorem nearestEven_lastPlace_le (F : Format) (x : ℚ) :
    |nearestEven (x / 2 ^ F.lastPlace x)| ≤ 2 ^ F.mantissaBits := by
  by_cases hx : x = 0
  · rw [hx, zero_div, nearestEven_zero, abs_zero]
    positivity
  · have hlt := abs_lt_of_lastPlace F hx
    rw [zpow_add₀ two_ne_zero, zpow_natCast] at hlt
    -- In units of the last place the number is within the bound, which is an integer.
    have hdiv : |x / 2 ^ F.lastPlace x| ≤ 2 ^ F.mantissaBits := by
      rw [abs_div, abs_of_pos (by positivity : (0 : ℚ) < 2 ^ F.lastPlace x)]
      exact (div_le_iff₀ (by positivity)).mpr hlt.le
    rcases abs_le.mp hdiv with ⟨hlow, hhigh⟩
    rw [abs_le]
    exact ⟨le_nearestEven (by push_cast; exact hlow), nearestEven_le (by push_cast; exact hhigh)⟩

/-- A multiple of a place above the last one is left as it is. -/
theorem rounded_of_lastPlace_le {n e : ℤ} (h : F.lastPlace (n * 2 ^ e) ≤ e) :
    F.rounded (n * 2 ^ e) = n * 2 ^ e := by
  -- In units of the last place it is an integer, and an integer is nearest to itself.
  generalize hp : F.lastPlace (n * 2 ^ e) = p at h
  have hshift : (n : ℚ) * 2 ^ e / 2 ^ p = (n * 2 ^ (e - p).toNat : ℤ) := by
    push_cast
    rw [mul_div_assoc, ← zpow_sub₀ two_ne_zero, ← zpow_natCast, Int.toNat_of_nonneg (by omega)]
  rw [rounded, hp, hshift, nearestEven_intCast, ← hshift, div_mul_cancel₀ _ (by positivity)]

/-- What a format can hold is left as it is. -/
theorem rounded_of_multiple {n e : ℤ} (hn : |n| ≤ 2 ^ F.mantissaBits)
    (he : F.minExponent ≤ e) : F.rounded (n * 2 ^ e) = n * 2 ^ e := by
  by_cases hzero : n = 0
  · simp [hzero]
  have hpos : (0 : ℚ) < 2 ^ e := by positivity
  have hne : (n : ℚ) * 2 ^ e ≠ 0 := mul_ne_zero (by exact_mod_cast hzero) hpos.ne'
  have habs : |(n : ℚ) * 2 ^ e| = |(n : ℚ)| * 2 ^ e := by rw [abs_mul, abs_of_pos hpos]
  rcases lt_or_eq_of_le hn with hlt | heq
  · apply rounded_of_lastPlace_le
    rw [lastPlace_le_iff hne he, habs, zpow_add₀ two_ne_zero, zpow_natCast]
    exact mul_lt_mul_of_pos_right (by exact_mod_cast hlt) hpos
  · -- The mantissa is a power of two and one digit too long, so half of it is an integer.
    obtain ⟨k, hk⟩ : (2 : ℤ) ∣ n := by
      rw [← dvd_abs, heq]
      exact dvd_pow_self 2 (by rw [mantissaBits_eq]; omega)
    have hhalf : (n : ℚ) * 2 ^ e = k * 2 ^ (e + 1) := by
      rw [hk, zpow_add_one₀ two_ne_zero]
      push_cast
      ring
    rw [hhalf] at hne habs ⊢
    apply rounded_of_lastPlace_le
    have hn : |(n : ℚ)| = 2 ^ F.mantissaBits := by exact_mod_cast heq
    rw [lastPlace_le_iff hne (by omega), habs, hn, zpow_add₀ two_ne_zero, zpow_natCast]
    exact mul_lt_mul_of_pos_left (zpow_lt_zpow_right₀ one_lt_two (by omega)) (by positivity)

/-- A mantissa that uses all digits leaves none below its exponent. -/
theorem le_lastPlace_of_full {n : ℕ} (h : 2 ^ F.mantissaBitsWithoutImplicit ≤ n) (e : ℤ) :
    e ≤ F.lastPlace (n * 2 ^ e) := by
  rcases le_or_gt e F.minExponent with hle | hlt
  -- At the least exponent there is nothing to show: no last place lies below it.
  · exact hle.trans (F.minExponent_le_lastPlace _)
  · have hn : (2 : ℚ) ^ F.mantissaBitsWithoutImplicit ≤ n := by exact_mod_cast h
    have hpos : (0 : ℚ) < n * 2 ^ e := mul_pos (lt_of_lt_of_le (by positivity) hn) (by positivity)
    have hpow : (2 : ℚ) ^ (((F.mantissaBitsWithoutImplicit + 1 : ℕ) : ℤ) + e - 1) =
        2 ^ F.mantissaBitsWithoutImplicit * 2 ^ e := by
      rw [← zpow_natCast, ← zpow_add₀ two_ne_zero]
      congr 1
      push_cast
      ring
    rw [le_lastPlace_iff hpos.ne' hlt, abs_of_pos hpos, mantissaBits_eq, hpow]
    gcongr

/-- The exponent of a canonical number is its last place. -/
theorem Canonical.lastPlace {m : ℕ} {e : ℤ} (h : F.Canonical m e) :
    F.lastPlace (m * 2 ^ e) = e := by
  have hm : (0 : ℚ) < m := by exact_mod_cast h.pos
  have hpos : (0 : ℚ) < m * 2 ^ e := by positivity
  have hle : F.lastPlace (m * 2 ^ e) ≤ e := by
    rw [lastPlace_le_iff hpos.ne' h.minExponent_le, abs_of_pos hpos,
      zpow_add₀ two_ne_zero, zpow_natCast]
    exact mul_lt_mul_of_pos_right (by exact_mod_cast h.lt) (by positivity)
  -- From below it is a full mantissa that bounds the last place, or the least exponent.
  refine le_antisymm hle ?_
  rcases h.full with hfull | hmin
  · exact le_lastPlace_of_full hfull e
  · exact hmin ▸ F.minExponent_le_lastPlace _

theorem Canonical.rounded {m : ℕ} {e : ℤ} (h : F.Canonical m e) :
    F.rounded (m * 2 ^ e) = m * 2 ^ e := by
  have hm : |(m : ℤ)| ≤ 2 ^ F.mantissaBits := by
    rw [Nat.abs_cast]
    exact_mod_cast h.lt.le
  exact_mod_cast rounded_of_multiple hm h.minExponent_le

/-- Rounding twice is rounding once. -/
theorem rounded_rounded (x : ℚ) : F.rounded (F.rounded x) = F.rounded x :=
  rounded_of_multiple (nearestEven_lastPlace_le F x) (F.minExponent_le_lastPlace x)

/-- Twice a number of the format needs no more digits. -/
theorem rounded_two_mul (hx : F.rounded x = x) : F.rounded (2 * x) = 2 * x := by
  have hdouble : 2 * x =
      nearestEven (x / 2 ^ F.lastPlace x) * 2 ^ (F.lastPlace x + 1) := by
    rw [zpow_add_one₀ two_ne_zero, mul_comm _ (2 : ℚ), mul_left_comm]
    exact congrArg (2 * ·) hx.symm
  have hplace := F.minExponent_le_lastPlace x
  rw [hdouble]
  exact rounded_of_multiple (nearestEven_lastPlace_le F x) (by omega)

/-- A multiple of a place above the last one bounds the rounded number where it bounds the
number. -/
theorem rounded_le_multiple {n e : ℤ} (h : x ≤ n * 2 ^ e) (hplace : F.lastPlace x ≤ e) :
    F.rounded x ≤ n * 2 ^ e := by
  have hpos : (0 : ℚ) < 2 ^ F.lastPlace x := by positivity
  have hshift : (n : ℚ) * 2 ^ e / 2 ^ F.lastPlace x =
      (n * 2 ^ (e - F.lastPlace x).toNat : ℤ) := by
    push_cast
    rw [mul_div_assoc, ← zpow_sub₀ two_ne_zero, ← zpow_natCast, Int.toNat_of_nonneg (by omega)]
  -- In units of the last place the bound is an integer, which the nearest one cannot exceed.
  have hle : nearestEven (x / 2 ^ F.lastPlace x) ≤ n * 2 ^ (e - F.lastPlace x).toNat := by
    apply nearestEven_le
    rw [← hshift]
    gcongr
  rw [Format.rounded, ← div_mul_cancel₀ ((n : ℚ) * 2 ^ e) hpos.ne', hshift]
  gcongr

theorem rounded_mono_of_nonneg (hx : 0 ≤ x) (h : x ≤ y) : F.rounded x ≤ F.rounded y := by
  rcases hx.eq_or_lt with rfl | hpos
  · rw [rounded_zero]
    exact rounded_nonneg h
  have hypos := hpos.trans_le h
  have hplace : F.lastPlace x ≤ F.lastPlace y :=
    lastPlace_mono hpos.ne' (by rwa [abs_of_pos hpos, abs_of_pos hypos])
  rcases hplace.eq_or_lt with heq | hlt
  · have hle := nearestEven_mono (div_le_div_of_nonneg_right h
      (by positivity : (0 : ℚ) ≤ 2 ^ F.lastPlace y))
    rw [Format.rounded, Format.rounded, heq]
    gcongr
  · -- Between the two numbers lies the least one that has the last place of the larger.
    have hne : F.lastPlace y ≠ F.minExponent :=
      ne_of_gt ((F.minExponent_le_lastPlace x).trans_lt hlt)
    have hpow : (2 : ℚ) ^ (F.mantissaBits + F.lastPlace y - 1) =
        (2 ^ F.mantissaBitsWithoutImplicit : ℤ) * 2 ^ F.lastPlace y := by
      push_cast
      rw [← zpow_natCast, ← zpow_add₀ two_ne_zero, mantissaBits_eq]
      congr 1
      push_cast
      ring
    have hxlt := abs_lt_of_lastPlace F hpos.ne'
    have hyle := le_abs_of_lastPlace hypos.ne' hne
    rw [abs_of_pos hpos] at hxlt
    rw [abs_of_pos hypos, hpow] at hyle
    have hmid : x ≤ (2 ^ F.mantissaBitsWithoutImplicit : ℤ) * 2 ^ F.lastPlace y := by
      rw [← hpow]
      exact hxlt.le.trans (zpow_le_zpow_right₀ one_le_two (by omega))
    refine (rounded_le_multiple hmid hlt.le).trans ?_
    have hle := le_nearestEven ((le_div_iff₀ (by positivity)).mpr hyle)
    rw [Format.rounded]
    gcongr

/-- Rounding keeps the order. -/
theorem rounded_mono (h : x ≤ y) : F.rounded x ≤ F.rounded y := by
  rcases le_total 0 x with hx | hx
  · exact rounded_mono_of_nonneg hx h
  · rcases le_total 0 y with hy | hy
    -- Zero lies between numbers of two signs; of two negative ones the magnitudes are compared.
    · have hnonneg := rounded_nonneg (F := F) (neg_nonneg.mpr hx)
      rw [rounded_neg] at hnonneg
      exact (neg_nonneg.mp hnonneg).trans (rounded_nonneg hy)
    · have hneg := rounded_mono_of_nonneg (F := F) (neg_nonneg.mpr hy) (neg_le_neg h)
      rw [rounded_neg, rounded_neg] at hneg
      exact neg_le_neg_iff.mp hneg

/-- A number that a format can hold bounds the rounded number where it bounds the number. -/
theorem rounded_le {n e : ℤ} (h : x ≤ n * 2 ^ e) (hn : |n| ≤ 2 ^ F.mantissaBits)
    (he : F.minExponent ≤ e) : F.rounded x ≤ n * 2 ^ e :=
  rounded_of_multiple hn he ▸ rounded_mono h

theorem le_rounded {n e : ℤ} (h : n * 2 ^ e ≤ x) (hn : |n| ≤ 2 ^ F.mantissaBits)
    (he : F.minExponent ≤ e) : n * 2 ^ e ≤ F.rounded x :=
  rounded_of_multiple hn he ▸ rounded_mono h

/-- The rounded number is a multiple of every place up to the last one. -/
theorem exists_rounded_eq {e : ℤ} (h : e ≤ F.lastPlace x) :
    ∃ n : ℤ, F.rounded x = n * 2 ^ e := by
  refine ⟨nearestEven (x / 2 ^ F.lastPlace x) * 2 ^ (F.lastPlace x - e).toNat, ?_⟩
  push_cast
  rw [Format.rounded, mul_assoc, ← zpow_natCast, ← zpow_add₀ two_ne_zero,
    Int.toNat_of_nonneg (by omega), sub_add_cancel]

/-- A number is rounded to zero where it is at most half of the least positive one. -/
theorem rounded_pos_iff : 0 < F.rounded x ↔ 2 ^ (F.minExponent - 1) < x := by
  have hhalf : (2 : ℚ) ^ (F.minExponent - 1) = 2 ^ F.minExponent / 2 :=
    zpow_sub_one₀ two_ne_zero _
  have hpos : (0 : ℚ) < 2 ^ F.minExponent := by positivity
  have hbits : |(1 : ℤ)| ≤ 2 ^ F.mantissaBits := by
    rw [abs_one]
    exact_mod_cast Nat.one_le_two_pow
  constructor
  -- Half of the least number is a tie, broken downwards to the even zero,
  -- and whatever lies at or below it is rounded no higher.
  · intro h
    by_contra hle
    have hsmall : F.rounded (2 ^ F.minExponent / 2) = 0 := by
      have hplace : F.lastPlace (2 ^ F.minExponent / 2) = F.minExponent := by
        refine le_antisymm ?_ (F.minExponent_le_lastPlace _)
        rw [← hhalf, lastPlace_le_iff (by positivity) (le_refl _), abs_of_pos (by positivity)]
        exact zpow_lt_zpow_right₀ one_lt_two (by omega)
      have hquotient : (2 : ℚ) ^ F.minExponent / 2 / 2 ^ F.minExponent = 1 / 2 := by
        field_simp
      have hzero : nearestEven (1 / 2) = 0 :=
        nearestEven_eq_of_le (by norm_num) (by norm_num)
      rw [Format.rounded, hplace, hquotient, hzero, Int.cast_zero, zero_mul]
    have hmono := rounded_mono (F := F) (hhalf ▸ not_lt.mp hle)
    rw [hsmall] at hmono
    exact absurd h (not_lt.mpr hmono)
  · intro h
    -- From the least number up it is a bound itself; between its half and it, the quotient
    -- by the last place is rounded up to one.
    rcases le_or_gt (((1 : ℤ) : ℚ) * 2 ^ F.minExponent) x with hle | hlt
    · exact lt_of_lt_of_le (by simpa using hpos) (le_rounded hle hbits (le_refl _))
    · have hxpos : 0 < x := lt_trans (by positivity) h
      rw [Int.cast_one, one_mul] at hlt
      rw [hhalf] at h
      have hplace : F.lastPlace x = F.minExponent := by
        refine le_antisymm ?_ (F.minExponent_le_lastPlace _)
        rw [lastPlace_le_iff hxpos.ne' (le_refl _), abs_of_pos hxpos]
        exact hlt.trans (zpow_lt_zpow_right₀ one_lt_two (by rw [mantissaBits_eq]; omega))
      have hlow : 1 / 2 < x / 2 ^ F.minExponent := by
        rw [lt_div_iff₀ hpos]
        linarith
      have hhigh : x / 2 ^ F.minExponent < 1 := (div_lt_one hpos).mpr hlt
      have hone : nearestEven (x / 2 ^ F.minExponent) = 1 := by
        apply nearestEven_eq_of_lt
        rw [abs_lt]
        push_cast
        constructor <;> linarith
      rw [Format.rounded, hplace, hone]
      simpa using hpos

end Format

/-! ### Unpacked numbers -/

namespace UnpackedFloat

/-- An unpacked number with sign `s` and magnitude `v`, in the form that the format uses. -/
inductive Carries (F : Format) (s : Sign) (v : ℚ) : UnpackedFloat → Prop where
  | zero (h : v = 0) : Carries F s v (.zero s)
  | finite (m : ℕ) (e : ℤ) (hm : 0 < m) (canonical : F.Canonical m e) (h : v = m * 2 ^ e) :
    Carries F s v (.finite s m e hm)

variable {F : Format} {s : Sign} {v : ℚ}

theorem Carries.nonneg {u : UnpackedFloat} (h : u.Carries F s v) : 0 ≤ v := by
  cases h with
  | zero h => exact h.ge
  | finite m e hm canonical h =>
      rw [h]
      positivity

/-- What a format carries it can hold. -/
theorem Carries.rounded {u : UnpackedFloat} (h : u.Carries F s v) : F.rounded v = v := by
  cases h with
  | zero h => rw [h, Format.rounded_zero]
  | finite m e hm canonical h => rw [h, canonical.rounded]

/-- The sign and the magnitude determine the unpacked number. -/
theorem Carries.unique {u w : UnpackedFloat} (hu : u.Carries F s v) (hw : w.Carries F s v) :
    u = w := by
  have hpos {m : ℕ} {e : ℤ} (hm : 0 < m) : (m : ℚ) * 2 ^ e ≠ 0 :=
    mul_ne_zero (by exact_mod_cast hm.ne') (by positivity)
  cases hu with
  | zero h =>
      cases hw with
      | zero h' => rfl
      | finite m e hm canonical h' => exact absurd (h'.symm.trans h) (hpos hm)
  | finite m e hm canonical h =>
      cases hw with
      | zero h' => exact absurd (h.symm.trans h') (hpos hm)
      | finite m' e' hm' canonical' h' =>
          -- Equal values have equal last places, and a canonical pair stands at its last place.
          have heq : (m : ℚ) * 2 ^ e = m' * 2 ^ e' := h.symm.trans h'
          have he : e = e' := by rw [← canonical.lastPlace, heq, canonical'.lastPlace]
          subst he
          have hmm : (m : ℚ) = m' := mul_right_cancel₀ (by positivity) heq
          have hmm' : m = m' := by exact_mod_cast hmm
          subst hmm'
          rfl

/-! ### The implementation -/

/-- The exponent to which the implementation shifts is the last place of what is described. -/
theorem targetExponent_eq_lastPlace {x : ℚ} {m : ℕ} {e : ℤ} (hx : 0 < x)
    (hfloor : ⌊x / 2 ^ e⌋ = m) (he : 0 < m ∨ e ≤ F.lastPlace x) :
    F.targetExponent (totalExponent m e) = F.lastPlace x := by
  rw [Int.floor_eq_iff, Int.cast_natCast, le_div_iff₀ (by positivity),
    div_lt_iff₀ (by positivity)] at hfloor
  rcases hfloor with ⟨hlow, hhigh⟩
  have hlog (k : ℤ) : x < 2 ^ k ↔ Int.log 2 x < k := by
    exact_mod_cast Int.lt_zpow_iff_log_lt (b := 2) one_lt_two hx
  have hlog' (k : ℤ) : 2 ^ k ≤ x ↔ k ≤ Int.log 2 x := by
    exact_mod_cast Int.zpow_le_iff_le_log (b := 2) one_lt_two hx
  unfold Format.targetExponent totalExponent
  unfold Format.lastPlace at he ⊢
  rw [abs_of_pos hx] at he ⊢
  rcases Nat.eq_zero_or_pos m with rfl | hm
  · -- Nothing is left of the number above `e`, so the least exponent is the last place.
    have hplace := he.resolve_left (Nat.lt_irrefl 0)
    have hsmall : Int.log 2 x < e := by
      rw [← hlog]
      simpa using hhigh
    have hbits := F.mantissaBits_eq
    rw [Nat.log2_zero]
    omega
  · have hself := Nat.log2_self_le hm.ne'
    have hlt := Nat.lt_log2_self (n := m)
    have hle : (2 : ℚ) ^ (m.log2 + e) ≤ x := by
      rw [zpow_add₀ two_ne_zero, zpow_natCast]
      refine le_trans ?_ hlow
      gcongr
      exact_mod_cast hself
    have hge : x < (2 : ℚ) ^ (m.log2 + 1 + e) := by
      have hcast : (m : ℚ) + 1 ≤ 2 ^ (m.log2 + 1) := by exact_mod_cast hlt
      have hexp : (2 : ℚ) ^ ((m.log2 : ℤ) + 1 + e) = 2 ^ (m.log2 + 1) * 2 ^ e := by
        rw [zpow_add₀ two_ne_zero, ← zpow_natCast]
        push_cast
        ring
      rw [hexp]
      exact hhigh.trans_le (by gcongr)
    rw [hlog] at hge
    rw [hlog'] at hle
    omega

/-- The second shift makes up for a carry into a new digit. -/
theorem carries_of_shiftToTargetExponent {n : ℕ} {e : ℤ} (s : Sign) (hn : n ≤ 2 ^ F.mantissaBits)
    (he : F.minExponent ≤ e)
    (hfull : n = 0 ∨ 2 ^ F.mantissaBitsWithoutImplicit ≤ n ∨ e = F.minExponent) :
    let shifted := shiftToTargetExponent F n e .exact
    Carries F s (n * 2 ^ e)
      (if h : shifted.1.mantissa = 0 then .zero s
        else .finite s shifted.1.mantissa shifted.2 (Nat.pos_of_ne_zero h)) := by
  intro shifted
  have hbits := F.mantissaBits_eq
  rcases hn.lt_or_eq with hlt | heq
  · -- There is no carry, and nothing is shifted.
    have hlog : n.log2 < F.mantissaBits := by
      rcases Nat.eq_zero_or_pos n with rfl | hpos
      · rw [Nat.log2_zero]
        omega
      · exact (Nat.log2_lt hpos.ne').mpr hlt
    have htarget : F.targetExponent (totalExponent n e) ≤ e := by
      unfold Format.targetExponent totalExponent
      omega
    have hshifted : shifted = (ExtendedMantissa.ofMantissaAndAccuracy n .exact, e) := by
      have hamount : (F.targetExponent (totalExponent n e) - e).toNat = 0 := by omega
      change (_, _) = _
      rw [hamount, Nat.cast_zero, add_zero]
      rfl
    rw [hshifted]
    by_cases hzero : n = 0
    · subst hzero
      exact .zero (by simp)
    · have hpos := Nat.pos_of_ne_zero hzero
      rw [dif_neg (show (ExtendedMantissa.ofMantissaAndAccuracy n .exact).mantissa ≠ 0 from hzero)]
      exact .finite n e hpos ⟨hpos, hlt, he, hfull.resolve_left hzero⟩ rfl
  -- A carry has left a power of two, and one shift more halves it without loss.
  · have htarget : F.targetExponent (totalExponent n e) = e + 1 := by
      rw [heq]
      unfold Format.targetExponent totalExponent
      rw [Nat.log2_two_pow]
      omega
    have hhalf : n / 2 = 2 ^ F.mantissaBitsWithoutImplicit := by
      rw [heq, F.two_pow_mantissaBits, Nat.mul_div_cancel_left _ (by norm_num)]
    have hshifted : shifted.1.mantissa = 2 ^ F.mantissaBitsWithoutImplicit ∧
        shifted.2 = e + 1 := by
      have hamount : (F.targetExponent (totalExponent n e) - e).toNat = 1 := by omega
      change ExtendedMantissa.mantissa (ExtendedMantissa.ofMantissaAndAccuracy n .exact >>>
        (F.targetExponent (totalExponent n e) - e).toNat) = _ ∧
          e + ((F.targetExponent (totalExponent n e) - e).toNat : ℤ) = _
      rw [hamount]
      exact ⟨hhalf, rfl⟩
    rw [dif_neg (by rw [hshifted.1]; positivity)]
    refine .finite _ _ _ ⟨by rw [hshifted.1]; positivity, ?_, ?_, ?_⟩ ?_
    · rw [hshifted.1, F.two_pow_mantissaBits]
      have : 0 < 2 ^ F.mantissaBitsWithoutImplicit := by positivity
      omega
    · rw [hshifted.2]
      omega
    · exact Or.inl hshifted.1.ge
    · rw [hshifted.1, hshifted.2, heq, F.two_pow_mantissaBits, zpow_add_one₀ two_ne_zero]
      push_cast
      ring

/-- The implementation rounds: from a mantissa, an exponent that is not above the last place, and
the accuracy of the mantissa it makes the rounded number. -/
theorem roundWithAccuracy_carries {x : ℚ} {m : ℕ} {e : ℤ} {a : Accuracy} (s : Sign) (hx : 0 < x)
    (h : (ExtendedMantissa.ofMantissaAndAccuracy m a).Describes (x / 2 ^ e))
    (he : e ≤ F.lastPlace x) :
    Carries F s (F.rounded x) (roundWithAccuracy F s m e a) := by
  have hmantissa : (ExtendedMantissa.ofMantissaAndAccuracy m a).mantissa = m := by
    rcases a with _ | _ | _ | _ <;> rfl
  have htarget := targetExponent_eq_lastPlace hx (hmantissa ▸ h.floor) (Or.inr he)
  -- The first shift puts the last place at the unit.
  have hfirst : shiftToTargetExponent F m e a =
      (ExtendedMantissa.ofMantissaAndAccuracy m a >>> (F.lastPlace x - e).toNat,
        F.lastPlace x) := by
    unfold shiftToTargetExponent shiftToExponent
    rw [htarget]
    exact Prod.ext rfl (by simp only; omega)
  have hshift := (h.shiftRight (F.lastPlace x - e).toNat).roundedMantissa
  rw [div_div, ← zpow_natCast, ← zpow_add₀ two_ne_zero, Int.toNat_of_nonneg (by omega),
    add_sub_cancel] at hshift
  generalize hn : (ExtendedMantissa.ofMantissaAndAccuracy m a >>>
    (F.lastPlace x - e).toNat).roundedMantissa = n at hshift
  have hrounded : F.rounded x = n * 2 ^ F.lastPlace x := by
    rw [Format.rounded, ← hshift, Int.cast_natCast]
  have hle : n ≤ 2 ^ F.mantissaBits := by
    have habs := Format.nearestEven_lastPlace_le F x
    rw [← hshift, Nat.abs_cast] at habs
    exact_mod_cast habs
  have hfull : n = 0 ∨ 2 ^ F.mantissaBitsWithoutImplicit ≤ n ∨
      F.lastPlace x = F.minExponent := by
    by_cases hmin : F.lastPlace x = F.minExponent
    · exact Or.inr (Or.inr hmin)
    · have hbig := Format.le_abs_of_lastPlace hx.ne' hmin
      rw [abs_of_pos hx, F.mantissaBits_eq] at hbig
      have hexp : ((F.mantissaBitsWithoutImplicit + 1 : ℕ) : ℤ) + F.lastPlace x - 1 =
          F.mantissaBitsWithoutImplicit + F.lastPlace x := by
        push_cast
        ring
      rw [hexp, zpow_add₀ two_ne_zero, zpow_natCast, ← le_div_iff₀ (by positivity)] at hbig
      have hge : (2 ^ F.mantissaBitsWithoutImplicit : ℤ) ≤ n := by
        rw [hshift]
        exact le_nearestEven (by push_cast; exact hbig)
      exact Or.inr (Or.inl (by exact_mod_cast hge))
  have hcarries := carries_of_shiftToTargetExponent s hle (F.minExponent_le_lastPlace x) hfull
  rw [hrounded]
  unfold roundWithAccuracy
  rw [hfirst]
  simp only [hn]
  exact hcarries

theorem roundWithAccuracy_exact_carries {x : ℚ} {m : ℕ} {e : ℤ} (s : Sign) (hx : 0 < x)
    (h : (m : ℚ) * 2 ^ e = x) (he : e ≤ F.lastPlace x) :
    Carries F s (F.rounded x) (roundWithAccuracy F s m e .exact) := by
  refine roundWithAccuracy_carries s hx ?_ he
  rw [← h, mul_div_cancel_right₀ _ (by positivity)]
  exact ExtendedMantissa.describes_exact m

/-- To decrease an exponent does not change the number. -/
theorem decreaseExponent_spec (m : ℕ) (e t : ℤ) :
    (decreaseExponent m e t).2 = min e t ∧
      ((decreaseExponent m e t).1 : ℚ) * 2 ^ (decreaseExponent m e t).2 = m * 2 ^ e := by
  have hexponent : (decreaseExponent m e t).2 = min e t := by
    change e - ((e - t).toNat : ℤ) = _
    omega
  refine ⟨hexponent, ?_⟩
  have hmantissa : (decreaseExponent m e t).1 = m * 2 ^ (e - t).toNat := Nat.shiftLeft_eq _ _
  rw [hexponent, hmantissa]
  push_cast
  rw [mul_assoc, ← zpow_natCast, ← zpow_add₀ two_ne_zero]
  congr 2
  omega

/-- The implementation rounds a mantissa with any exponent. -/
theorem round_carries {m : ℕ} (hm : 0 < m) (e : ℤ) (s : Sign) :
    Carries F s (F.rounded (m * 2 ^ e)) (UnpackedFloat.round F s m e) := by
  have hmq : (0 : ℚ) < m := by exact_mod_cast hm
  have hx : (0 : ℚ) < m * 2 ^ e := by positivity
  have hfloor : ⌊(m : ℚ) * 2 ^ e / 2 ^ e⌋ = m := by
    rw [mul_div_cancel_right₀ _ (by positivity), Int.floor_natCast]
  have htarget : F.targetExponent (totalExponent m e) = F.lastPlace (m * 2 ^ e) :=
    targetExponent_eq_lastPlace hx hfloor (Or.inl hm)
  rcases decreaseExponent_spec m e (F.lastPlace (m * 2 ^ e)) with ⟨hexponent, hvalue⟩
  change Carries F s _ (roundWithAccuracy F s (decreaseExponent m e _).1
    (decreaseExponent m e _).2 .exact)
  rw [htarget]
  exact roundWithAccuracy_exact_carries s hx hvalue (hexponent ▸ min_le_right _ _)

end UnpackedFloat

end Float.Model
