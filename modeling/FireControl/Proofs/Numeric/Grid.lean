import FireControl.Proofs.Numeric.Remainder

/-!
# Multiples of a Power of Two

Where a format computes exactly is best seen on a grid: the multiples of `2 ^ e`. Sums, differences
and whole multiples stay on a grid, and so does rounding, whichever last place it keeps. What is on
a grid and small enough for its mantissa to fit is not rounded at all. A number of the format lies
on the grid of its size, so there is nothing of the format between two neighbours of that grid.

The greatest integer that is not above a number is read off the mantissa and the exponent, and it is
the floor of the value.

A loop that adds a step to a single-precision number is best followed by counting: as long as the
count fits into the mantissa, arithmetic on the numbers is that of the counts.

## Main definitions

* `OnGrid`: A number is a multiple of a power of two.
* `Float32.Counts`: A single-precision number by its place on a grid.

## Theorems

* `OnGrid.rounded`: Rounding leaves a number on its grid.
* `OnGrid.rounded_eq`: Which numbers of a grid are not rounded.
* `Format.onGrid_of_rounded_eq`: The grid of a number of the format.
* `Format.le_or_succ_le`: Between neighbours there is no number of the format.
* `Float32.HasValue.floorInt`: The greatest integer by the value.
* `Float32.Counts.add`, `Float32.Counts.sub`, `Float32.Counts.half`: Arithmetic by counts.
* `Float32.Counts.lt_iff`, `Float32.Counts.le_iff`: The order by counts.
-/

namespace Float.Model

/-- A number is a multiple of `2 ^ e`. -/
def OnGrid (e : ℤ) (x : ℚ) : Prop :=
  ∃ n : ℤ, x = n * 2 ^ e

namespace OnGrid

variable {e k : ℤ} {x y : ℚ} {F : Format}

theorem multiple (n e : ℤ) : OnGrid e (n * 2 ^ e) :=
  ⟨n, rfl⟩

theorem add (hx : OnGrid e x) (hy : OnGrid e y) : OnGrid e (x + y) := by
  rcases hx with ⟨n, rfl⟩
  rcases hy with ⟨m, rfl⟩
  exact ⟨n + m, by push_cast; ring⟩

theorem sub (hx : OnGrid e x) (hy : OnGrid e y) : OnGrid e (x - y) := by
  rcases hx with ⟨n, rfl⟩
  rcases hy with ⟨m, rfl⟩
  exact ⟨n - m, by push_cast; ring⟩

theorem int_mul (q : ℤ) (hx : OnGrid e x) : OnGrid e (q * x) := by
  rcases hx with ⟨n, rfl⟩
  exact ⟨q * n, by push_cast; ring⟩

/-- A grid contains every coarser one. -/
theorem finer (hx : OnGrid e x) (hle : k ≤ e) : OnGrid k x := by
  rcases hx with ⟨n, rfl⟩
  refine ⟨n * 2 ^ (e - k).toNat, ?_⟩
  push_cast
  rw [mul_assoc, ← zpow_natCast, ← zpow_add₀ two_ne_zero, Int.toNat_of_nonneg (by omega),
    sub_add_cancel]

/-- Rounding leaves a number on its grid. -/
theorem rounded (hx : OnGrid e x) : OnGrid e (F.rounded x) := by
  rcases le_total e (F.lastPlace x) with hle | hle
  · exact Format.exists_rounded_eq hle
  · -- Digits down to a finer place than the grid's are kept.
    rcases hx with ⟨n, rfl⟩
    rw [Format.rounded_of_lastPlace_le hle]
    exact multiple n e

/-- What the mantissa can hold is not rounded. -/
theorem rounded_eq (hx : OnGrid e x) (he : F.minExponent ≤ e)
    (hle : |x| ≤ 2 ^ F.mantissaBits * 2 ^ e) : F.rounded x = x := by
  rcases hx with ⟨n, rfl⟩
  have hpos : (0 : ℚ) < 2 ^ e := by positivity
  rw [abs_mul, abs_of_pos hpos] at hle
  have hn : |(n : ℚ)| ≤ 2 ^ F.mantissaBits := le_of_mul_le_mul_right hle hpos
  exact Format.rounded_of_multiple (by exact_mod_cast hn) he

theorem le_of_lt {n : ℤ} (hx : OnGrid e x) (hlt : x < n * 2 ^ e) : x ≤ (n - 1) * 2 ^ e := by
  rcases hx with ⟨m, rfl⟩
  have hpos : (0 : ℚ) < 2 ^ e := by positivity
  have hm : m < n := by exact_mod_cast lt_of_mul_lt_mul_right hlt hpos.le
  have hcast : (m : ℚ) ≤ n - 1 := by exact_mod_cast Int.le_sub_one_of_lt hm
  exact mul_le_mul_of_nonneg_right hcast hpos.le

end OnGrid

namespace Format

variable {F : Format} {e : ℤ} {x : ℚ}

/-- A number of the format lies on the grid of its size. -/
theorem onGrid_of_rounded_eq (hx : F.rounded x = x)
    (hle : 2 ^ F.mantissaBitsWithoutImplicit * 2 ^ e ≤ |x|) : OnGrid e x := by
  have hplace := le_lastPlace_of_le hle
  rw [lastPlace, abs_abs] at hplace
  rw [← hx]
  exact exists_rounded_eq hplace

/-- Between two neighbours on the grid of their size there is no number of the format. -/
theorem le_or_succ_le (hx : F.rounded x = x) {n : ℤ}
    (hn : 2 ^ F.mantissaBitsWithoutImplicit ≤ n) : x ≤ n * 2 ^ e ∨ (n + 1) * 2 ^ e ≤ x := by
  by_contra hnot
  rw [not_or, not_le, not_le] at hnot
  have hnq : (2 : ℚ) ^ F.mantissaBitsWithoutImplicit ≤ n := by exact_mod_cast hn
  have hsize : 2 ^ F.mantissaBitsWithoutImplicit * 2 ^ e ≤ |x| :=
    calc (2 : ℚ) ^ F.mantissaBitsWithoutImplicit * 2 ^ e ≤ n * 2 ^ e := by gcongr
      _ ≤ x := hnot.1.le
      _ ≤ |x| := le_abs_self x
  have hle := (onGrid_of_rounded_eq hx hsize).le_of_lt (n := n + 1) (by exact_mod_cast hnot.2)
  push_cast at hle
  rw [add_sub_cancel_right] at hle
  exact absurd hle (not_le.mpr hnot.1)

end Format

namespace UnpackedFloat

/-- The greatest integer that is not above a number is read off its mantissa and exponent. -/
theorem floorOf_eq_floor (s : Sign) (m : ℕ) (e : ℤ) : floorOf s m e = ⌊s.applied (m * 2 ^ e)⌋ := by
  unfold floorOf
  by_cases he : 0 ≤ e
  · rw [if_pos he, Nat.shiftLeft_eq]
    -- No fractional bits: the shifted mantissa is the number itself.
    have hpow : ((m * 2 ^ e.toNat : ℕ) : ℚ) = m * 2 ^ e := by
      push_cast
      rw [← zpow_natCast, Int.toNat_of_nonneg he]
    have hcast := Sign.cast_apply s (m * 2 ^ e.toNat : ℕ)
    rw [Int.cast_natCast] at hcast
    rw [← hpow, ← hcast, Int.floor_intCast]
  · rw [if_neg he]
    -- `-e` bits are shifted out, which divides by their power of two and rounds down.
    have hpow : ((2 ^ (-e).toNat : ℕ) : ℚ) = (2 ^ e)⁻¹ := by
      push_cast
      rw [← zpow_natCast, Int.toNat_of_nonneg (by omega), zpow_neg]
    have hquotient : s.applied ((m : ℚ) * 2 ^ e) =
        ((s.apply m : ℤ) : ℚ) / ((2 ^ (-e).toNat : ℕ) : ℚ) := by
      rw [hpow, div_inv_eq_mul, Sign.cast_apply, Int.cast_natCast]
      cases s with
      | negative => exact (neg_mul _ _).symm
      | positive => rfl
    rw [hquotient, Rat.floor_intCast_div_natCast]
    rfl

end UnpackedFloat

end Float.Model

namespace Float32

open Float.Model

variable {f : Float32} {x : ℚ}

/-- The greatest integer that is not above a number is the floor of its value. -/
theorem HasValue.floorInt (hx : f.HasValue x) : f.floorInt = some ⌊x⌋ := by
  unfold Float32.floorInt
  rcases UnpackedFloat.HasValue.cases hx with ⟨s, hunpack, rfl⟩ | ⟨s, m, e, hm, hunpack, -, rfl⟩
  · rw [hunpack, Int.floor_zero]
  · rw [hunpack, ← UnpackedFloat.floorOf_eq_floor]

/-! ### Counts -/

/-- A number that is `n` times `2 ^ e`. -/
def Counts (f : Float32) (e n : ℤ) : Prop :=
  f.HasValue (n * 2 ^ e)

variable {g : Float32} {e m n : ℤ}

theorem Counts.lt_iff (hf : f.Counts e m) (hg : g.Counts e n) : f < g ↔ m < n := by
  rw [HasValue.lt_iff hf hg, mul_lt_mul_iff_left₀ (by positivity), Int.cast_lt]

theorem Counts.le_iff (hf : f.Counts e m) (hg : g.Counts e n) : f ≤ g ↔ m ≤ n := by
  rw [HasValue.le_iff hf hg, mul_le_mul_iff_left₀ (by positivity), Int.cast_le]

/-- A count other than zero determines the number. -/
theorem Counts.eq (hf : f.Counts e n) (hg : g.Counts e n) (hn : n ≠ 0) : f = g :=
  HasValue.eq hf hg (mul_ne_zero (by exact_mod_cast hn) (by positivity))

/-- A count that fits into the mantissa is not rounded. -/
theorem counts_exact (hlow : -149 ≤ e) (hhigh : e ≤ 100) (hn : n.natAbs ≤ 2 ^ 24) :
    Format.binary32.rounded (n * 2 ^ e) = n * 2 ^ e ∧
      |Format.binary32.rounded (n * 2 ^ e)| < Format.binary32.limit := by
  have habs : |n| ≤ 2 ^ 24 := by
    rw [Int.abs_eq_natAbs]
    exact_mod_cast hn
  have hround : Format.binary32.rounded (n * 2 ^ e) = n * 2 ^ e :=
    Format.rounded_of_multiple habs hlow
  have hcast : |(n : ℚ)| ≤ 2 ^ 24 := by exact_mod_cast habs
  have hpow : (2 : ℚ) ^ e ≤ 2 ^ (100 : ℤ) := zpow_le_zpow_right₀ one_le_two hhigh
  refine ⟨hround, ?_⟩
  -- A full mantissa on the coarsest of these grids is still below the limit.
  rw [hround, abs_mul, abs_of_pos (by positivity : (0 : ℚ) < 2 ^ e), FireControl.binary32_limit]
  calc |(n : ℚ)| * 2 ^ e ≤ 2 ^ 24 * 2 ^ (100 : ℤ) := by gcongr
    _ < 2 ^ 128 := by norm_num

theorem ofInteger_counts (hn : n.natAbs ≤ 2 ^ 24) : (ofInteger n).Counts 0 n := by
  rcases counts_exact (e := 0) (by decide) (by decide) hn with ⟨hround, hlimit⟩
  rw [zpow_zero, mul_one] at hround hlimit
  have hvalue := ofInteger_hasValue hlimit
  rwa [hround, ← mul_one (n : ℚ), ← zpow_zero 2] at hvalue

section

variable (hlow : -149 ≤ e) (hhigh : e ≤ 100)
include hlow hhigh

theorem Counts.add (hf : f.Counts e m) (hg : g.Counts e n) (hsmall : (m + n).natAbs ≤ 2 ^ 24) :
    (f + g).Counts e (m + n) := by
  rcases counts_exact hlow hhigh hsmall with ⟨hround, hlimit⟩
  have hsum : (m : ℚ) * 2 ^ e + n * 2 ^ e = ((m + n : ℤ) : ℚ) * 2 ^ e := by
    push_cast
    ring
  rw [← hsum] at hround hlimit
  have hvalue := HasValue.add hf hg hlimit
  rwa [hround, hsum] at hvalue

theorem Counts.sub (hf : f.Counts e m) (hg : g.Counts e n) (hsmall : (m - n).natAbs ≤ 2 ^ 24) :
    (f - g).Counts e (m - n) := by
  rcases counts_exact hlow hhigh hsmall with ⟨hround, hlimit⟩
  have hdiff : (m : ℚ) * 2 ^ e - n * 2 ^ e = ((m - n : ℤ) : ℚ) * 2 ^ e := by
    push_cast
    ring
  rw [← hdiff] at hround hlimit
  have hvalue := HasValue.sub hf hg hlimit
  rwa [hround, hdiff] at hvalue

/-- Half of a number has its count on the finer grid. -/
theorem Counts.half (hf : f.Counts (e + 1) n) (hsmall : n.natAbs ≤ 2 ^ 24) :
    (f / 2).Counts e n := by
  rcases counts_exact hlow hhigh hsmall with ⟨hround, hlimit⟩
  have htwo : (2 : Float32).HasValue 2 :=
    FireControl.hasValue_positive (m := 2 ^ 23) (e := -22) (by decide) rfl (by norm_num)
  have hhalf : (n : ℚ) * 2 ^ (e + 1) / 2 = n * 2 ^ e := by
    rw [zpow_add_one₀ two_ne_zero, ← mul_assoc, mul_div_cancel_right₀ _ two_ne_zero]
  rw [← hhalf] at hround hlimit
  have hvalue := HasValue.div hf htwo two_ne_zero hlimit
  rwa [hround, hhalf] at hvalue

end

end Float32
