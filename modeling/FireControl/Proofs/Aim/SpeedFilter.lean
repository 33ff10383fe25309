import FireControl.Aim.Solver
import FireControl.Proofs.Gimbal.PitchLimit
import FireControl.Proofs.Numeric.Single

/-!
# When the Filtered Bullet Speed Stays Usable

The bullet speed is divided by, so the filter must not bring it to zero or to infinity. A sample
that is not a positive finite number is ignored, and the weights `α` and `1 - α` add up to one, or
nearly: what is computed is the sum of two rounded products, one of them with a rounded weight.

Upwards this is always enough. Each product is below the power of two that stands in for the largest
number, by at least the last place that the weight lacks, and so the sum rounds to a finite number.

Downwards it depends on `α`. A product of a positive number with a weight above one half is never
rounded to zero, and of the two weights one is above one half, unless `1 - α` is rounded to exactly
one half. That happens for two values of `α`: one half, and the number just below it. With these,
samples of the least positive number count for nothing and the speed is halved until it is zero.

So a speed that starts finite stays usable for all other weights, and a speed that starts infinite,
which the rules for settings allow, stays infinite.

## Main definitions

* `HalvesSpeed`: The two weights with which the speed can come to zero.

## Theorems

* `rounded_products_lt`: The sum of the two products is finite.
* `lowPass_hasValue`: The value of a filtered number.
* `filtered_pos`: With other weights the filtered number is positive.
* `AimSolver.exists_speed_zero`: With these weights some samples bring every speed to zero.
* `AimSolver.speed_usable_iff`: When the speed stays usable.
-/

namespace FireControl

open Float.Model Float.Model.Format

section Products

variable {a c s v x : ℚ}

/-- The product of a weight with the greatest number is rounded to less than the weight of the
limit. -/
theorem rounded_mul_greatest_lt (hc : binary32.rounded c = c) (hpos : 0 < c) :
    binary32.rounded (c * greatestSingle) < c * 2 ^ 128 := by
  have hleast : (2 : ℚ) ^ (-150 : ℤ) < c := by
    have hiff := rounded_pos_iff (F := binary32) (x := c)
    rw [hc, binary32_minExponent] at hiff
    exact hiff.mp hpos
  have hyeq : c * greatestSingle = c * 2 ^ 128 - c * 2 ^ 104 := by
    unfold greatestSingle
    ring
  have hypos : 0 < c * greatestSingle := by
    unfold greatestSingle
    positivity
  have herror := (abs_le.mp (abs_rounded_sub_le binary32 (c * greatestSingle))).2
  -- The error is less than what the greatest number lacks of the limit.
  have hlast : (2 : ℚ) ^ binary32.lastPlace (c * greatestSingle) < c * 2 ^ 105 := by
    -- Either the last place is the least of all, or the product is large against it.
    by_cases hmin : binary32.lastPlace (c * greatestSingle) = binary32.minExponent
    · rw [hmin, binary32_minExponent]
      norm_num at hleast ⊢
      linarith
    · have hle := le_abs_of_lastPlace hypos.ne' hmin
      generalize binary32.lastPlace (c * greatestSingle) = p at hle ⊢
      rw [abs_of_pos hypos, binary32_mantissaBits, add_sub_right_comm,
        zpow_add₀ two_ne_zero, hyeq] at hle
      norm_num at hle ⊢
      linarith
  norm_num at hlast hyeq ⊢
  linarith

/-- Above one half the weight lacks a whole last place. -/
theorem rounded_mul_greatest_le (hc : binary32.rounded c = c) (hhalf : 1 / 2 < c) :
    binary32.rounded (c * greatestSingle) ≤ (c - 2 ^ (-24 : ℤ)) * 2 ^ 128 := by
  have hpos : 0 < c := lt_trans (by norm_num) hhalf
  -- Numbers above one half are counted in places of 2 ^ -24, and so is the weight.
  have hplace : -24 ≤ binary32.lastPlace c := by
    rw [le_lastPlace_iff hpos.ne' (by decide), abs_of_pos hpos]
    exact le_of_eq_of_le (by norm_num [binary32_mantissaBits]) hhalf.le
  rcases exists_rounded_eq hplace with ⟨n, hn⟩
  rw [hc] at hn
  have hn' : (2 ^ 23 + 1 : ℚ) ≤ n := by
    have hint : (2 ^ 23 : ℤ) < n := by
      have hcast : (2 ^ 23 : ℚ) < n := by
        rw [hn] at hhalf
        norm_num at hhalf ⊢
        linarith
      exact_mod_cast hcast
    exact_mod_cast hint
  -- The product has places 2 ^ 128 times as large, and it counts fewer of them.
  have hplace' : 104 ≤ binary32.lastPlace (c * greatestSingle) := by
    have hypos : 0 < c * greatestSingle := by
      unfold greatestSingle
      positivity
    rw [le_lastPlace_iff hypos.ne' (by decide), abs_of_pos hypos, hn, binary32_mantissaBits]
    unfold greatestSingle
    norm_num at hn' ⊢
    linarith
  rcases exists_rounded_eq hplace' with ⟨k, hk⟩
  have hlt := rounded_mul_greatest_lt hc hpos
  have hkn : (k : ℚ) ≤ n - 1 := by
    have hint : k < n := by
      have hcast : (k : ℚ) < n := by
        rw [hk, hn] at hlt
        norm_num at hlt
        linarith
      exact_mod_cast hcast
    exact_mod_cast Int.le_sub_one_of_lt hint
  rw [hk, hn]
  norm_num
  linarith

/-- Below one half there is room for one more number of half the precision. -/
theorem le_of_lt_half (ha : binary32.rounded a = a) (h : a < 1 / 2) :
    a ≤ 1 / 2 - 2 ^ (-25 : ℤ) := by
  rcases le_or_gt a (1 / 4) with hle | hgt
  · refine hle.trans ?_
    norm_num
  · have hpos : 0 < a := lt_trans (by norm_num) hgt
    -- Above one quarter numbers are counted in places of 2 ^ -25, and so is one half.
    have hplace : -25 ≤ binary32.lastPlace a := by
      rw [le_lastPlace_iff hpos.ne' (by decide), abs_of_pos hpos]
      exact le_of_eq_of_le (by norm_num [binary32_mantissaBits]) hgt.le
    rcases exists_rounded_eq hplace with ⟨n, hn⟩
    rw [ha] at hn
    rw [hn] at h ⊢
    have hint : n < 2 ^ 24 := by
      have hcast : (n : ℚ) < 2 ^ 24 := by
        norm_num at h ⊢
        linarith
      exact_mod_cast hcast
    have hle : (n : ℚ) ≤ 2 ^ 24 - 1 := by exact_mod_cast Int.le_sub_one_of_lt hint
    norm_num at hle ⊢
    linarith

/-- Above one half the other weight is exact. -/
theorem rounded_one_sub_of_half_le (ha : binary32.rounded a = a) (h : 1 / 2 ≤ a) (hone : a ≤ 1) :
    binary32.rounded (1 - a) = 1 - a := by
  have hpos : 0 < a := lt_of_lt_of_le (by norm_num) h
  -- The weight is counted in places of 2 ^ -24, and what it lacks to one is counted alike.
  have hplace : -24 ≤ binary32.lastPlace a := by
    rw [le_lastPlace_iff hpos.ne' (by decide), abs_of_pos hpos]
    exact le_of_eq_of_le (by norm_num [binary32_mantissaBits]) h
  rcases exists_rounded_eq hplace with ⟨n, hn⟩
  rw [ha] at hn
  have hsub : 1 - a = (2 ^ 24 - n : ℤ) * 2 ^ (-24 : ℤ) := by
    rw [hn]
    push_cast
    norm_num
    ring
  have hbounds : 0 ≤ n ∧ n ≤ 2 ^ 24 := by
    have hlow : (0 : ℚ) ≤ n := by
      rw [hn] at hpos
      exact (pos_of_mul_pos_left hpos (by positivity)).le
    have hhigh : (n : ℚ) ≤ 2 ^ 24 := by
      rw [hn] at hone
      norm_num at hone ⊢
      linarith
    exact ⟨by exact_mod_cast hlow, by exact_mod_cast hhigh⟩
  rw [hsub]
  refine rounded_of_multiple ?_ (by decide)
  rw [binary32_mantissaBits, abs_le]
  omega

/-- Below one half the other weight is at least one half and off by at most half a place. -/
theorem rounded_one_sub_of_lt_half (hpos : 0 < a) (h : a < 1 / 2) :
    1 / 2 ≤ binary32.rounded (1 - a) ∧ binary32.rounded (1 - a) ≤ 1 - a + 2 ^ (-25 : ℤ) := by
  have hother : 0 < 1 - a := by linarith
  constructor
  -- One half is a number, so rounding does not go below it.
  · have hle : ((1 : ℤ) : ℚ) * 2 ^ (-1 : ℤ) ≤ 1 - a := by
      norm_num
      linarith
    have hrounded := le_rounded (F := binary32) hle (by decide) (by decide)
    norm_num at hrounded ⊢
    exact hrounded
  -- Below one the last place is 2 ^ -24, and the error is at most half of that.
  · have hlt : |1 - a| < 2 ^ (binary32.mantissaBits + (-24 : ℤ)) := by
      rw [abs_of_pos hother, binary32_mantissaBits]
      norm_num
      exact hpos
    have herror := (abs_le.mp (abs_rounded_sub_le_of_lt (by decide) hlt)).2
    norm_num at herror ⊢
    linarith

/-- The sum of the two products is below the middle between the greatest number and the limit. -/
theorem rounded_products_lt (ha : binary32.rounded a = a) (hpos : 0 < a) (hone : a ≤ 1)
    (hs : s ≤ greatestSingle) (hv : v ≤ greatestSingle) :
    binary32.rounded (a * s) + binary32.rounded (binary32.rounded (1 - a) * v) <
      2 ^ 128 - 2 ^ 103 := by
  have hb0 : 0 ≤ binary32.rounded (1 - a) := rounded_nonneg (by linarith)
  have hfirst : binary32.rounded (a * s) ≤ binary32.rounded (a * greatestSingle) :=
    rounded_mono (by gcongr)
  have hsecond : binary32.rounded (binary32.rounded (1 - a) * v) ≤
      binary32.rounded (binary32.rounded (1 - a) * greatestSingle) :=
    rounded_mono (by gcongr)
  refine lt_of_le_of_lt (add_le_add hfirst hsecond) ?_
  have hb := rounded_rounded (F := binary32) (1 - a)
  have hless := rounded_mul_greatest_lt ha hpos
  generalize hA : binary32.rounded (a * greatestSingle) = A at hless
  generalize hB : binary32.rounded (binary32.rounded (1 - a) * greatestSingle) = B
  -- Of the two weights the one above one half makes room for both.
  rcases lt_trichotomy a (1 / 2) with hlt | heq | hgt
  · rcases rounded_one_sub_of_lt_half hpos hlt with ⟨hhalf, herror⟩
    -- The other weight comes to one half, to which the weight lacks a place, or it is above.
    rcases hhalf.eq_or_lt with heq | habove
    · have hB' := rounded_mul_greatest_lt hb (lt_of_lt_of_le (by norm_num) hhalf)
      have hroom := le_of_lt_half ha hlt
      rw [hB, ← heq] at hB'
      norm_num at hless hB' hroom ⊢
      linarith
    · have hB' := rounded_mul_greatest_le hb habove
      rw [hB] at hB'
      norm_num at hless hB' herror ⊢
      linarith
  -- With equal weights the first product is exact, so the second may be off by all it can.
  · have hother : binary32.rounded (1 - a) = 1 / 2 := by
      rw [rounded_one_sub_of_half_le ha heq.ge hone, heq]
      norm_num
    have hB' := rounded_mul_greatest_lt hb (by rw [hother]; norm_num)
    have hexact : a * greatestSingle = ((2 ^ 24 - 1 : ℤ) : ℚ) * 2 ^ (103 : ℤ) := by
      rw [heq]
      norm_num [greatestSingle]
    have hA' : A = ((2 ^ 24 - 1 : ℤ) : ℚ) * 2 ^ (103 : ℤ) := by
      rw [← hA, hexact, rounded_of_multiple (by decide) (by decide)]
    rw [hB, hother] at hB'
    rw [hA']
    norm_num at hB' ⊢
    linarith
  -- Now the first product lacks a whole place, and the second weight has no error.
  · have hA' := rounded_mul_greatest_le ha hgt
    rw [hA] at hA'
    have hother := rounded_one_sub_of_half_le ha hgt.le hone
    have hB' : B ≤ (1 - a) * 2 ^ 128 := by
      rw [hother] at hB hb0 hb
      rcases hb0.eq_or_lt with hzero | hpos'
      · rw [← hB, ← hzero, zero_mul, zero_mul, rounded_zero]
      · rw [← hB]
        exact (rounded_mul_greatest_lt hb hpos').le
    norm_num at hA' hB' ⊢
    linarith

/-- The filtered value after one more sample. -/
def filtered (a v s : ℚ) : ℚ :=
  binary32.rounded (binary32.rounded (a * s) + binary32.rounded (binary32.rounded (1 - a) * v))

/-- A product that is not rounded to zero keeps the sum above zero. -/
theorem rounded_add_pos {y z : ℚ} (hy : 0 ≤ y) (hz : 0 ≤ z) (h : 0 < y ∨ 0 < z)
    (hyr : binary32.rounded y = y) (hzr : binary32.rounded z = z) :
    0 < binary32.rounded (y + z) := by
  -- The sum is at least the positive product, which is a number and stays what it is.
  rcases h with hpos | hpos
  · have hle := rounded_mono (F := binary32) (le_add_of_nonneg_right (a := y) hz)
    rw [hyr] at hle
    exact hpos.trans_le hle
  · have hle := rounded_mono (F := binary32) (le_add_of_nonneg_left (a := z) hy)
    rw [hzr] at hle
    exact hpos.trans_le hle

/-- A weight above one half does not bring a positive number to zero. -/
theorem rounded_mul_pos (hc : 1 / 2 < c) (hv : binary32.rounded v = v) (hpos : 0 < v) :
    0 < binary32.rounded (c * v) := by
  -- Counted in the least number there is at least one, and more than half of it is kept.
  have hplace : -149 ≤ binary32.lastPlace v := binary32.minExponent_le_lastPlace v
  rcases exists_rounded_eq hplace with ⟨n, hn⟩
  rw [hv] at hn
  have hn' : (1 : ℚ) ≤ n := by
    have hcast : (0 : ℚ) < n := by
      rw [hn] at hpos
      exact pos_of_mul_pos_left hpos (by positivity)
    exact_mod_cast hcast
  rw [rounded_pos_iff, binary32_minExponent, hn]
  have hle : c * (1 * 2 ^ (-149 : ℤ)) ≤ c * (n * 2 ^ (-149 : ℤ)) := by gcongr
  refine lt_of_lt_of_le ?_ hle
  norm_num
  linarith

/-- With every weight but two the filtered value is positive. -/
theorem filtered_pos (ha : binary32.rounded a = a) (hpos : 0 < a) (hone : a ≤ 1)
    (hne : a ≠ 1 / 2) (hne' : a ≠ 1 / 2 - 2 ^ (-25 : ℤ)) (hs : binary32.rounded s = s)
    (hv : binary32.rounded v = v) (hspos : 0 < s) (hvpos : 0 < v) : 0 < filtered a v s := by
  have hb0 : 0 ≤ binary32.rounded (1 - a) := rounded_nonneg (by linarith)
  refine rounded_add_pos (rounded_nonneg (by positivity)) (rounded_nonneg (by positivity)) ?_
    (rounded_rounded _) (rounded_rounded _)
  rcases lt_or_gt_of_ne hne with hlt | hgt
  · -- The weight is at least two numbers below one half, so the other one is above one half.
    have hroom : a ≤ 1 / 2 - 2 ^ (-24 : ℤ) := by
      have hle := lt_of_le_of_ne (le_of_lt_half ha hlt) hne'
      rcases le_or_gt a (1 / 4) with hquarter | hquarter
      · refine hquarter.trans ?_
        norm_num
      -- Here the numbers are counted in places of 2 ^ -25, and two of them are left out.
      · have hplace : -25 ≤ binary32.lastPlace a := by
          rw [le_lastPlace_iff hpos.ne' (by decide), abs_of_pos hpos]
          exact le_of_eq_of_le (by norm_num [binary32_mantissaBits]) hquarter.le
        rcases exists_rounded_eq hplace with ⟨n, hn⟩
        rw [ha] at hn
        rw [hn] at hle ⊢
        have hint : n < 2 ^ 24 - 1 := by
          have hcast : (n : ℚ) < 2 ^ 24 - 1 := by
            norm_num at hle ⊢
            linarith
          exact_mod_cast hcast
        have hcast : (n : ℚ) ≤ 2 ^ 24 - 1 - 1 := by exact_mod_cast Int.le_sub_one_of_lt hint
        norm_num at hcast ⊢
        linarith
    have hother : ((2 ^ 23 + 1 : ℤ) : ℚ) * 2 ^ (-24 : ℤ) ≤ binary32.rounded (1 - a) :=
      le_rounded (by norm_num at hroom ⊢; linarith) (by decide) (by decide)
    refine Or.inr (rounded_mul_pos ?_ hv hvpos)
    refine lt_of_lt_of_le ?_ hother
    norm_num
  · exact Or.inl (rounded_mul_pos hgt hs hspos)

/-- The two weights for which the other weight is rounded to one half. -/
theorem rounded_one_sub_of_halves (h : a = 1 / 2 ∨ a = 1 / 2 - 2 ^ (-25 : ℤ)) :
    binary32.rounded (1 - a) = 1 / 2 := by
  rcases h with rfl | rfl
  · rw [rounded_one_sub_of_half_le _ (le_refl _) (by norm_num)]
    · norm_num
    · have hhalf : (1 / 2 : ℚ) = ((1 : ℤ) : ℚ) * 2 ^ (-1 : ℤ) := by norm_num
      rw [hhalf]
      exact rounded_of_multiple (by decide) (by decide)
  · -- The exact weight lies half-way between one half and the next number, which is odd.
    have hvalue : (1 : ℚ) - (1 / 2 - 2 ^ (-25 : ℤ)) = (2 ^ 23 + 1 / 2) * 2 ^ (-24 : ℤ) := by
      norm_num
    have hplace : binary32.lastPlace ((2 ^ 23 + 1 / 2) * 2 ^ (-24 : ℤ)) = -24 := by
      apply le_antisymm
      · rw [lastPlace_le_iff (by positivity) (by decide), abs_of_pos (by positivity),
          binary32_mantissaBits]
        norm_num
      · rw [le_lastPlace_iff (by positivity) (by decide), abs_of_pos (by positivity),
          binary32_mantissaBits]
        norm_num
    have hnearest : nearestEven (2 ^ 23 + 1 / 2) = 2 ^ 23 :=
      nearestEven_eq_of_le (by norm_num) (by norm_num)
    rw [hvalue, rounded, hplace, mul_div_cancel_right₀ _ (by positivity), hnearest]
    norm_num

/-- With these two weights the least sample counts for nothing and the value is halved. -/
theorem filtered_least (h : a = 1 / 2 ∨ a = 1 / 2 - 2 ^ (-25 : ℤ)) (v : ℚ) :
    filtered a v (2 ^ (-149 : ℤ)) = binary32.rounded (v / 2) := by
  have hzero : binary32.rounded (a * 2 ^ (-149 : ℤ)) = 0 := by
    have hpos : 0 < a := by
      rcases h with rfl | rfl <;> norm_num
    -- No more than half of the least number is left of the sample.
    refine le_antisymm (not_lt.mp fun hlt => ?_) (rounded_nonneg (by positivity))
    rw [rounded_pos_iff, binary32_minExponent] at hlt
    rcases h with rfl | rfl
    · norm_num at hlt
    · norm_num at hlt
  rw [filtered, hzero, rounded_one_sub_of_halves h, zero_add, rounded_rounded]
  congr 1
  ring

/-- Halving makes every positive number smaller. -/
theorem rounded_half_lt (hv : binary32.rounded v = v) (hpos : 0 < v) :
    binary32.rounded (v / 2) < v := by
  have hle : binary32.rounded (v / 2) ≤ v := by
    have hmono := rounded_mono (F := binary32) (half_le_self hpos.le)
    rwa [hv] at hmono
  refine lt_of_le_of_ne hle fun heq => ?_
  -- Where halving changed nothing, the error of rounding would be half the number.
  have herror := (abs_le.mp (abs_rounded_sub_le binary32 (v / 2))).2
  rw [heq] at herror
  by_cases hmin : binary32.lastPlace (v / 2) = binary32.minExponent
  · have hpositive : 0 < binary32.rounded (v / 2) := by
      rw [heq]
      exact hpos
    rw [rounded_pos_iff] at hpositive
    rw [hmin] at herror
    rw [zpow_sub_one₀ two_ne_zero] at hpositive
    linarith
  -- Any other number is large against the last place, and so is half of it.
  · have hbig := le_abs_of_lastPlace (half_pos hpos).ne' hmin
    generalize binary32.lastPlace (v / 2) = p at herror hbig
    rw [abs_of_pos (half_pos hpos), binary32_mantissaBits, add_sub_right_comm,
      zpow_add₀ two_ne_zero] at hbig
    have hp : (0 : ℚ) < 2 ^ p := by positivity
    norm_num at hbig
    linarith

end Products

/-! ### The filter -/

/-- The weights with which the speed can come to zero. -/
def HalvesSpeed (alpha : Float32) : Prop :=
  alpha = 0.5 ∨ alpha = 0.49999997

theorem hasValue_belowHalf : (0.49999997 : Float32).HasValue (1 / 2 - 2 ^ (-25 : ℤ)) := by
  have h := Float32.hasValue_of_unpack (f := 0.49999997) (s := .positive) (m := 2 ^ 24 - 1)
    (e := -25) (by decide) rfl
  norm_num [UnpackedFloat.Sign.applied] at h ⊢
  exact h

theorem hasValue_least : (Float32.ofBits 1).HasValue (2 ^ (-149 : ℤ)) := by
  have h := Float32.hasValue_of_unpack (f := Float32.ofBits 1) (s := .positive) (m := 1)
    (e := -149) (by decide) rfl
  norm_num [UnpackedFloat.Sign.applied] at h ⊢
  exact h

/-- A number is usable as a speed where it has a positive value. -/
theorem isPositiveFinite_iff {f : Float32} :
    f.isPositiveFinite = true ↔ ∃ v, f.HasValue v ∧ 0 < v := by
  rw [Float32.isPositiveFinite, Bool.and_eq_true, decide_eq_true_eq]
  constructor
  · rintro ⟨hfinite, hpos⟩
    rcases Float32.exists_hasValue hfinite with ⟨v, hv, -⟩
    exact ⟨v, hv, (hasValue_zero.lt_iff hv).mp hpos⟩
  · rintro ⟨v, hv, hpos⟩
    exact ⟨hv.isFinite, (hasValue_zero.lt_iff hv).mpr hpos⟩

/-- The weight of a sample, and its value. -/
theorem exists_weight {alpha : Float32} (h : isAlpha alpha = true) :
    ∃ a, alpha.HasValue a ∧ 0 < a ∧ a ≤ 1 := by
  rw [isAlpha, Bool.and_eq_true, decide_eq_true_eq, decide_eq_true_eq] at h
  have hfinite := hasValue_zero.isFinite_between hasValue_one h.1 h.2
  rcases Float32.exists_hasValue hfinite with ⟨a, ha, -⟩
  exact ⟨a, ha, (hasValue_zero.lt_iff ha).mp h.1, (ha.le_iff hasValue_one).mp h.2⟩

section Filter

variable {value sample alpha : Float32} {a v s : ℚ}

/-- The value of a filtered number. -/
theorem lowPass_hasValue (ha : alpha.HasValue a) (hpos : 0 < a) (hone : a ≤ 1)
    (hs : sample.HasValue s) (hspos : 0 ≤ s) (hv : value.HasValue v) (hvpos : 0 ≤ v) :
    (lowPass value sample alpha).HasValue (filtered a v s) := by
  -- The sum is below the limit, and the products are at most the sum.
  have hsum := rounded_products_lt ha.rounded hpos hone (value_le_greatest hs)
    (value_le_greatest hv)
  have hlimit : (2 : ℚ) ^ 128 - 2 ^ 103 < binary32.limit := by
    rw [binary32_limit]
    norm_num
  have hb0 : 0 ≤ binary32.rounded (1 - a) := rounded_nonneg (by linarith)
  have hfirst : 0 ≤ binary32.rounded (a * s) := rounded_nonneg (by positivity)
  have hsecond : 0 ≤ binary32.rounded (binary32.rounded (1 - a) * v) :=
    rounded_nonneg (by positivity)
  -- The other weight is at most one, so it does not overflow.
  have hother := hasValue_one.sub ha (by
    rw [abs_of_nonneg hb0]
    have hle := rounded_mono (F := binary32) (sub_le_self (1 : ℚ) hpos.le)
    rw [hasValue_one.rounded] at hle
    exact hle.trans_lt (by rw [binary32_limit]; norm_num))
  exact (ha.mul hs (by rw [abs_of_nonneg hfirst]; linarith)).add
    (hother.mul hv (by rw [abs_of_nonneg hsecond]; linarith))
    (by
      rw [abs_of_nonneg (rounded_nonneg (by positivity))]
      exact rounded_lt_limit (by positivity) hsum)

/-- The value of a weight with which the speed can come to zero. -/
theorem HalvesSpeed.iff_value (ha : alpha.HasValue a) (hpos : 0 < a) :
    HalvesSpeed alpha ↔ a = 1 / 2 ∨ a = 1 / 2 - 2 ^ (-25 : ℤ) := by
  constructor
  · rintro (rfl | rfl)
    · exact Or.inl (ha.unique hasValue_half)
    · exact Or.inr (ha.unique hasValue_belowHalf)
  · rintro (rfl | rfl)
    · exact Or.inl (ha.eq hasValue_half hpos.ne')
    · exact Or.inr (ha.eq hasValue_belowHalf hpos.ne')

end Filter

/-- Settings that break no rule have a positive bullet speed at the start. -/
theorem Settings.Valid.bulletSpeed {settings : Settings} (valid : settings.Valid) :
    0 < settings.aim.initialBulletSpeed := by
  have hmem : (decide (0 < settings.aim.initialBulletSpeed), SettingsFault.bulletSpeed) ∈
      settings.rules := by
    simp [rules]
  exact of_decide_eq_true (valid.keeps hmem)

/-- Settings that break no rule have a weight for samples of the bullet speed. -/
theorem Settings.Valid.speedAlpha {settings : Settings} (valid : settings.Valid) :
    isAlpha settings.aim.speedAlpha = true := by
  have hmem : (isAlpha settings.aim.speedAlpha && isAlpha settings.aim.latencyAlpha,
      SettingsFault.alpha) ∈ settings.rules := by
    simp [rules]
  have hkept := valid.keeps hmem
  rw [Bool.and_eq_true] at hkept
  exact hkept.1

namespace AimSolver

/-- What a sample of the bullet speed does to the speed. -/
theorem bulletSpeed_update {solver : AimSolver} {sample : Float32}
    (h : sample.isPositiveFinite = true) :
    (solver.updateBulletSpeed sample).bulletSpeed =
      lowPass solver.bulletSpeed sample solver.settings.speedAlpha := by
  rw [updateBulletSpeed, if_pos h]

theorem settings_update (solver : AimSolver) (sample : Float32) :
    (solver.updateBulletSpeed sample).settings = solver.settings := by
  unfold updateBulletSpeed
  split <;> rfl

/-- A usable speed stays usable with every weight but two. -/
theorem speed_usable_update {solver : AimSolver}
    (hvalid : isAlpha solver.settings.speedAlpha = true)
    (hother : ¬ HalvesSpeed solver.settings.speedAlpha)
    (h : solver.bulletSpeed.isPositiveFinite = true) (sample : Float32) :
    (solver.updateBulletSpeed sample).bulletSpeed.isPositiveFinite = true := by
  by_cases hsample : sample.isPositiveFinite = true
  -- The weight has a value, and so have the speed and the sample.
  · rcases exists_weight hvalid with ⟨a, ha, hpos, hone⟩
    rcases isPositiveFinite_iff.mp h with ⟨v, hv, hvpos⟩
    rcases isPositiveFinite_iff.mp hsample with ⟨s, hs, hspos⟩
    rw [HalvesSpeed.iff_value ha hpos, not_or] at hother
    rw [bulletSpeed_update hsample, isPositiveFinite_iff]
    exact ⟨_, lowPass_hasValue ha hpos hone hs hspos.le hv hvpos.le,
      filtered_pos ha.rounded hpos hone hother.1 hother.2 hs.rounded hv.rounded hspos hvpos⟩
  · rw [updateBulletSpeed, if_neg hsample]
    exact h

theorem speed_usable_run (solver : AimSolver) (hvalid : isAlpha solver.settings.speedAlpha = true)
    (hother : ¬ HalvesSpeed solver.settings.speedAlpha)
    (h : solver.bulletSpeed.isPositiveFinite = true) (samples : List Float32) :
    (samples.foldl updateBulletSpeed solver).bulletSpeed.isPositiveFinite = true := by
  induction samples generalizing solver with
  | nil => exact h
  | cons sample rest ih =>
      have hsettings := settings_update solver sample
      exact ih _ (hsettings ▸ hvalid) (hsettings ▸ hother)
        (speed_usable_update hvalid hother h sample)

/-- With one of the two weights, enough of the least samples bring every speed to zero. -/
theorem exists_speed_zero (solver : AimSolver) {v : ℚ}
    (hvalid : isAlpha solver.settings.speedAlpha = true)
    (hhalves : HalvesSpeed solver.settings.speedAlpha) (hv : solver.bulletSpeed.HasValue v)
    (hvpos : 0 ≤ v) :
    ∃ k, ((List.replicate k (Float32.ofBits 1)).foldl updateBulletSpeed
      solver).bulletSpeed.HasValue 0 := by
  obtain ⟨n, hn⟩ : ∃ n : ℕ, v ≤ n * 2 ^ (-149 : ℤ) := by
    obtain ⟨n, hn⟩ := exists_nat_ge (v / 2 ^ (-149 : ℤ))
    exact ⟨n, (div_le_iff₀ (by positivity)).mp hn⟩
  -- Counted in the least number, the speed goes down with every sample.
  induction n generalizing solver v with
  | zero =>
      have hzero : v = 0 := by
        rw [Nat.cast_zero, zero_mul] at hn
        exact le_antisymm hn hvpos
      exact ⟨0, hzero ▸ hv⟩
  | succ n ih =>
      rcases hvpos.eq_or_lt with rfl | hpos
      · exact ⟨0, hv⟩
      · rcases exists_weight hvalid with ⟨a, ha, hapos, hone⟩
        have hleast : (Float32.ofBits 1).isPositiveFinite = true :=
          isPositiveFinite_iff.mpr ⟨_, hasValue_least, by positivity⟩
        have hnext := lowPass_hasValue ha hapos hone hasValue_least (by positivity) hv hvpos
        rw [filtered_least ((HalvesSpeed.iff_value ha hapos).mp hhalves),
          ← bulletSpeed_update hleast] at hnext
        have hsettings := settings_update solver (Float32.ofBits 1)
        have hless := rounded_half_lt hv.rounded hpos
        -- Both values are whole multiples of the least number, so the smaller is one less.
        have hfewer : binary32.rounded (v / 2) ≤ n * 2 ^ (-149 : ℤ) := by
          rcases exists_rounded_eq (binary32.minExponent_le_lastPlace (v / 2)) with ⟨k, hk⟩
          rcases exists_rounded_eq (binary32.minExponent_le_lastPlace v) with ⟨l, hl⟩
          rw [hv.rounded, binary32_minExponent] at hl
          rw [binary32_minExponent] at hk
          rw [hk, hl] at hless
          rw [hl] at hn
          have hscale : (0 : ℚ) < 2 ^ (-149 : ℤ) := by positivity
          have hkl : k < l := by exact_mod_cast lt_of_mul_lt_mul_right hless hscale.le
          have hln : l ≤ n + 1 := by
            have := le_of_mul_le_mul_right hn hscale
            exact_mod_cast this
          have hkn : (k : ℚ) ≤ n := by exact_mod_cast (by omega : k ≤ n)
          rw [hk]
          gcongr
        rcases ih _ (hsettings ▸ hvalid) (hsettings ▸ hhalves) hnext
          (rounded_nonneg (by positivity)) hfewer with ⟨k, hk⟩
        exact ⟨k + 1, hk⟩

/-- When the filtered bullet speed stays usable. With settings that break no rule it is positive and
finite after every sequence of samples, whatever they are, exactly when it is finite at the start
and its weight is neither one half nor the number just below. -/
theorem speed_usable_iff (settings : Settings) (valid : settings.validate = .ok ()) :
    (∀ samples : List Float32,
      (samples.foldl updateBulletSpeed (new settings.aim)).bulletSpeed.isPositiveFinite = true) ↔
    settings.aim.initialBulletSpeed.isFinite = true ∧ ¬ HalvesSpeed settings.aim.speedAlpha := by
  have hvalid := (settings.validate_eq_ok_iff).mp valid
  have hpositive := hvalid.bulletSpeed
  have halpha := hvalid.speedAlpha
  constructor
  · intro h
    -- No sample at all shows that the start is finite, and many samples show the weight.
    have hstart := h []
    rw [Float32.isPositiveFinite, Bool.and_eq_true] at hstart
    refine ⟨hstart.1, fun hhalves => ?_⟩
    rcases Float32.exists_hasValue hstart.1 with ⟨v, hv, -⟩
    have hvpos := (hasValue_zero.lt_iff hv).mp hpositive
    rcases exists_speed_zero (new settings.aim) halpha hhalves hv hvpos.le with ⟨k, hk⟩
    rcases isPositiveFinite_iff.mp (h (List.replicate k (Float32.ofBits 1))) with ⟨w, hw, hwpos⟩
    exact absurd (hk.unique hw) hwpos.ne
  · rintro ⟨hfinite, hother⟩ samples
    refine speed_usable_run (new settings.aim) halpha hother ?_ samples
    rw [Float32.isPositiveFinite, Bool.and_eq_true]
    exact ⟨hfinite, decide_eq_true hpositive⟩

/-- The default settings keep the speed usable. -/
theorem speed_usable_default :
    (default : Settings).validate = .ok () ∧
    ∀ samples : List Float32,
      (samples.foldl updateBulletSpeed
        (new (default : Settings).aim)).bulletSpeed.isPositiveFinite = true := by
  have hvalidate : (default : Settings).validate = .ok () :=
    (Settings.validate_eq_ok_iff default).mpr (by decide +kernel)
  exact ⟨hvalidate, (speed_usable_iff default hvalidate).mpr ⟨by decide +kernel, by
    unfold HalvesSpeed
    decide +kernel⟩⟩

/-- The default settings with an infinite bullet speed. -/
def infiniteSpeed : Settings :=
  { (default : Settings) with aim := { (default : AimSettings) with initialBulletSpeed := 1 / 0 } }

/-- The default settings with the least positive bullet speed and a weight of one half. -/
def leastSpeed : Settings :=
  { (default : Settings) with
    aim := { (default : AimSettings) with
      initialBulletSpeed := Float32.ofBits 1, speedAlpha := 0.5 } }

/-- Both settings break no rule. With the first a solver has no usable speed from the start, and
with the second one sample of the least positive number brings the speed to zero. -/
theorem speed_not_usable :
    (infiniteSpeed.validate = .ok () ∧
      (new infiniteSpeed.aim).bulletSpeed.isPositiveFinite = false) ∧
    leastSpeed.validate = .ok () ∧
      ((new leastSpeed.aim).updateBulletSpeed (Float32.ofBits 1)).bulletSpeed = 0 :=
  ⟨⟨(Settings.validate_eq_ok_iff infiniteSpeed).mpr (by decide +kernel), by decide +kernel⟩,
    (Settings.validate_eq_ok_iff leastSpeed).mpr (by decide +kernel), by decide +kernel⟩

end AimSolver

end FireControl
