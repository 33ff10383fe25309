import FireControl.Proofs.Numeric.Rounding

/-!
# The Numbers That Round to a Binary Number

The numbers that round to `m · 2 ^ e` reach half of the last place up and down, except that below a
power of two the last place is half as long and so is the way down. The ends belong to them where
the mantissa is even.

## Theorems

* `rounded_eq_of_lastPlace_eq`: The case of a number with the same last place.
* `rounded_eq_power`: The case of a number below a power of two.
* `Canonical.rounded_eq`: What is within these bounds rounds to the number.
* `Canonical.rounded_add_small`: A small number that is added is lost.
-/

namespace Float.Model

theorem two_zpow_eq_two_mul (e : ℤ) : (2 : ℚ) ^ e = 2 * 2 ^ (e - 1) := by
  rw [zpow_sub_one₀ two_ne_zero]
  ring

namespace Format

variable {F : Format} {m : ℕ} {e : ℤ} {x : ℚ}

/-- With the last place given, a number goes to the mantissa within one half. -/
theorem rounded_eq_of_lastPlace_eq {n : ℤ} (hplace : F.lastPlace x = e)
    (hlow : (n - 1 / 2) * 2 ^ e ≤ x) (hhigh : x ≤ (n + 1 / 2) * 2 ^ e)
    (htie : n % 2 = 0 ∨ (n - 1 / 2) * 2 ^ e < x ∧ x < (n + 1 / 2) * 2 ^ e) :
    F.rounded x = n * 2 ^ e := by
  have hpos : (0 : ℚ) < 2 ^ e := by positivity
  -- At either end the even multiple is taken; strictly inside, the bound alone decides.
  have hnearest : nearestEven (x / 2 ^ e) = n := by
    rcases htie with heven | ⟨hlow', hhigh'⟩
    · refine nearestEven_eq_of_le ?_ heven
      rw [← le_div_iff₀ hpos] at hlow
      rw [← div_le_iff₀ hpos] at hhigh
      rw [abs_le]
      constructor <;> linarith
    · apply nearestEven_eq_of_lt
      rw [← lt_div_iff₀ hpos] at hlow'
      rw [← div_lt_iff₀ hpos] at hhigh'
      rw [abs_lt]
      constructor <;> linarith
  rw [rounded, hplace, hnearest]

/-- The last place of a number that fills the mantissa. -/
theorem le_lastPlace_of_le (h : 2 ^ F.mantissaBitsWithoutImplicit * 2 ^ e ≤ x) :
    e ≤ F.lastPlace x := by
  have hmono : F.lastPlace (((2 ^ F.mantissaBitsWithoutImplicit : ℕ) : ℚ) * 2 ^ e) ≤
      F.lastPlace x := by
    refine lastPlace_mono (by positivity) ?_
    rw [abs_of_pos (by positivity)]
    push_cast
    exact h.trans (le_abs_self x)
  exact (le_lastPlace_of_full (le_refl _) e).trans hmono

/-- Below a power of two the last place is half as long, so a quarter of the one above it is half of
the one that counts. -/
theorem rounded_eq_power (hlow : (2 ^ F.mantissaBitsWithoutImplicit - 1 / 4) * 2 ^ e ≤ x)
    (hhigh : x < 2 ^ F.mantissaBitsWithoutImplicit * 2 ^ e) (hplace : F.lastPlace x < e) :
    F.rounded x = 2 ^ F.mantissaBitsWithoutImplicit * 2 ^ e := by
  have hpos : (0 : ℚ) < 2 ^ (e - 1) := by positivity
  have hone : (1 : ℚ) ≤ 2 ^ F.mantissaBitsWithoutImplicit := one_le_pow₀ one_le_two
  rw [two_zpow_eq_two_mul e] at hlow hhigh ⊢
  have hplace' : F.lastPlace x = e - 1 :=
    le_antisymm (by omega) (le_lastPlace_of_le (by nlinarith))
  -- Counted in the shorter last place the mantissa is twice as large, and even.
  have hrounded := rounded_eq_of_lastPlace_eq (n := 2 * 2 ^ F.mantissaBitsWithoutImplicit) hplace'
    (by push_cast; linarith) (by push_cast; nlinarith) (Or.inl (by omega))
  rw [hrounded]
  push_cast
  ring

/-- What is within the bounds of a number rounds to it. -/
theorem Canonical.rounded_eq (h : F.Canonical m e) (hlow : ((m : ℚ) - 1 / 2) * 2 ^ e ≤ x)
    (hhigh : x ≤ ((m : ℚ) + 1 / 2) * 2 ^ e)
    (hpower : m = 2 ^ F.mantissaBitsWithoutImplicit → F.minExponent < e →
      ((m : ℚ) - 1 / 4) * 2 ^ e ≤ x)
    (htie : m % 2 = 0 ∨ ((m : ℚ) - 1 / 2) * 2 ^ e < x ∧ x < ((m : ℚ) + 1 / 2) * 2 ^ e) :
    F.rounded x = m * 2 ^ e := by
  have hpos : (0 : ℚ) < 2 ^ e := by positivity
  have hm : (1 : ℚ) ≤ m := by exact_mod_cast h.pos
  have hxpos : 0 < x := lt_of_lt_of_le (mul_pos (by linarith) hpos) hlow
  have hle : F.lastPlace x ≤ e := by
    rw [lastPlace_le_iff hxpos.ne' h.minExponent_le, abs_of_pos hxpos, zpow_add₀ two_ne_zero,
      zpow_natCast]
    have hlt : (m : ℚ) + 1 ≤ 2 ^ F.mantissaBits := by exact_mod_cast h.lt
    exact hhigh.trans_lt (mul_lt_mul_of_pos_right (by linarith) hpos)
  rcases hle.eq_or_lt with heq | hlt
  · have htie' : (m : ℤ) % 2 = 0 ∨ (((m : ℤ) : ℚ) - 1 / 2) * 2 ^ e < x ∧
        x < (((m : ℤ) : ℚ) + 1 / 2) * 2 ^ e := by
      rcases htie with heven | hstrict
      · exact Or.inl (by omega)
      · exact Or.inr (by exact_mod_cast hstrict)
    have hrounded := rounded_eq_of_lastPlace_eq (n := m) heq (by exact_mod_cast hlow)
      (by exact_mod_cast hhigh) htie'
    exact_mod_cast hrounded
  · -- The number is a power of two, and `x` lies below it, where the last place is shorter.
    have hmin : F.minExponent < e := (F.minExponent_le_lastPlace x).trans_lt hlt
    have hfull := h.full.resolve_right (ne_of_gt hmin)
    have hsmall : x < 2 ^ F.mantissaBitsWithoutImplicit * 2 ^ e :=
      not_le.mp fun hge => absurd (le_lastPlace_of_le hge) (not_le.mpr hlt)
    have hmeq : m = 2 ^ F.mantissaBitsWithoutImplicit := by
      have hcast : (m : ℚ) - 1 / 2 < 2 ^ F.mantissaBitsWithoutImplicit :=
        lt_of_mul_lt_mul_right (hlow.trans_lt hsmall) hpos.le
      have hnat : m < 2 ^ F.mantissaBitsWithoutImplicit + 1 := by
        have : (m : ℚ) < 2 ^ F.mantissaBitsWithoutImplicit + 1 := by linarith
        exact_mod_cast this
      omega
    have hquarter := hpower hmeq hmin
    have hmq : (m : ℚ) = 2 ^ F.mantissaBitsWithoutImplicit := by exact_mod_cast hmeq
    rw [hmq] at hquarter ⊢
    exact rounded_eq_power hquarter hsmall hlt

/-- What is added to a number is lost where it is less than a quarter of the last place. -/
theorem Canonical.rounded_add_small {y : ℚ} (h : F.Canonical m e) (hy : |y| < 2 ^ e / 4) :
    F.rounded (m * 2 ^ e + y) = m * 2 ^ e := by
  rcases abs_lt.mp hy with ⟨hlow, hhigh⟩
  exact h.rounded_eq (by linarith) (by linarith) (fun _ _ => by linarith)
    (Or.inr ⟨by linarith, by linarith⟩)

end Format

end Float.Model
