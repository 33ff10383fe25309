import FireControl.Aim.Ballistics
import FireControl.Proofs.Numeric.Products

/-!
# The Drop Grows With the Distance and Shrinks With the Speed

A bullet falls `½ · g · d² / v²` over a distance `d`, and the formula is computed by one inverse and
five products. Each of them is rounded, and each may leave the range on either side: the square of a
distance overflows early, and that of an inverse underflows as early. The order survives, since
rounding and overflow keep it in every single step.

The order in which the factors come is what keeps NaN away. The distances come first: if the
distance is zero, all products are zero from there on, and if a product overflows, neither the
distance nor the inverse that is still to come is zero. The inverse is never zero because no speed
is large enough, and it is finite because the speed has all its digits.

## Theorems

* `half_gravity`: The first product neither overflows nor falls below zero.
* `products_mono`: The other four products grow with the distance and with the inverse.
* `bulletDrop_le`: The drop over a greater distance at a smaller speed is greater.
* `bulletDrop_monotone`: The drop grows with the distance and shrinks with the speed.
-/

namespace FireControl

open Float.Model

variable {a d d' v v' w w' gravity : Float32}

/-- Half of a finite number that is not negative is one too. -/
theorem half_gravity (hg : 0 ≤ gravity) (hfinite : gravity.isFinite = true) :
    (0.5 * gravity).isFinite = true ∧ 0 ≤ 0.5 * gravity := by
  rcases Float32.exists_hasValue hfinite with ⟨x, hx, -⟩
  rw [hasValue_zero.le_iff hx] at hg
  have hsmall : |1 / 2 * x| ≤ x := by
    rw [abs_of_nonneg (by positivity)]
    linarith
  have hvalue := hasValue_half.mul hx
    ((hx.abs_rounded_le hsmall).trans_lt (lt_of_abs_lt hx.lt_limit))
  exact ⟨hvalue.isFinite,
    (hasValue_zero.le_iff hvalue).mpr (Format.rounded_nonneg (by positivity))⟩

/-- Two products with a distance and two with an inverse: what is greater stays greater from step to
step, and no zero meets an infinity. -/
theorem products_mono (ha : 0 ≤ a) (hfinite : a.isFinite = true) (hd : 0 ≤ d) (hdd : d ≤ d')
    (hd' : d'.isFinite = true) (hw : 0 < w) (hww : w ≤ w') (hw' : w'.isFinite = true) :
    a * d * d * w * w ≤ a * d' * d' * w' * w' := by
  have hdfinite := Float32.isFinite_of_between hasValue_zero.isFinite hd' hd hdd
  have hwfinite := Float32.isFinite_of_between hasValue_zero.isFinite hw' (Float32.le_of_lt hw) hww
  have hw0 := Float32.le_of_lt hw
  have hwpos' : 0 < w' := Float32.lt_of_lt_of_le hw hww
  -- The first product may overflow only where the distance is not zero.
  have hclear := Float32.isFinite_mul_or_pos hfinite hd hdfinite
  have hclear' := Float32.isFinite_mul_or_pos hfinite (Float32.le_trans hd hdd) hd'
  have h₁ := Float32.mul_mono ha (Float32.le_refl (Float32.not_isNaN_of_le ha).2) hd hdd hd'
    (Or.inl hfinite) (Or.inl hfinite)
  have hnonneg₁ := Float32.mul_nonneg ha hd hdfinite (Or.inl hfinite)
  have h₂ := Float32.mul_mono hnonneg₁ h₁ hd hdd hd' hclear hclear'
  have hnonneg₂ := Float32.mul_nonneg hnonneg₁ hd hdfinite hclear
  -- From here on all factors are positive.
  have h₃ := Float32.mul_mono hnonneg₂ h₂ hw0 hww hw' (Or.inr hw) (Or.inr hwpos')
  have hnonneg₃ := Float32.mul_nonneg hnonneg₂ hw0 hwfinite (Or.inr hw)
  exact Float32.mul_mono hnonneg₃ h₃ hw0 hww hw' (Or.inr hw) (Or.inr hwpos')

/-- The drop over a greater distance at a smaller speed is greater. -/
theorem bulletDrop_le (hg : 0 ≤ gravity) (hfinite : gravity.isFinite = true) (hd : 0 ≤ d)
    (hdd : d ≤ d') (hd' : d'.isFinite = true) (hv : Float32.leastNormal ≤ v) (hvv : v ≤ v')
    (hv' : v'.isFinite = true) : bulletDrop d v' gravity ≤ bulletDrop d' v gravity := by
  rcases half_gravity hg hfinite with ⟨hhalf, hnonneg⟩
  rcases Float32.inverse_antitone hv hvv hv' with ⟨hpos, hle, hinverse⟩
  exact products_mono hnonneg hhalf hd hdd hd' hpos hle hinverse

/-- The drop grows with the distance and shrinks with the speed. This holds for every finite gravity
and all finite distances that are not negative, and for all finite speeds from `2 ^ -126` on,
whatever overflows or underflows on the way. None of the drops is NaN. -/
theorem bulletDrop_monotone {gravity d₁ d₂ v₁ v₂ : Float32} (hg : 0 ≤ gravity)
    (hfinite : gravity.isFinite = true) (hd : 0 ≤ d₁) (hdd : d₁ ≤ d₂) (hd₂ : d₂.isFinite = true)
    (hv : Float32.leastNormal ≤ v₁) (hvv : v₁ ≤ v₂) (hv₂ : v₂.isFinite = true) :
    bulletDrop d₁ v₁ gravity ≤ bulletDrop d₂ v₁ gravity ∧
    bulletDrop d₂ v₂ gravity ≤ bulletDrop d₂ v₁ gravity ∧
    (bulletDrop d₁ v₁ gravity).isNaN = false ∧ (bulletDrop d₂ v₁ gravity).isNaN = false ∧
    (bulletDrop d₂ v₂ gravity).isNaN = false := by
  have hv₁ := Float32.isFinite_of_between Float32.hasValue_leastNormal.isFinite hv₂ hv hvv
  have hv₁' := Float32.le_refl (Float32.not_isNaN_of_le hvv).1
  have hd₂' := Float32.le_refl (Float32.not_isNaN_of_le hdd).2
  have hdistance := bulletDrop_le hg hfinite hd hdd hd₂ hv hv₁' hv₁
  have hspeed := bulletDrop_le hg hfinite (Float32.le_trans hd hdd) hd₂' hd₂ hv hvv hv₂
  exact ⟨hdistance, hspeed, (Float32.not_isNaN_of_le hdistance).1,
    (Float32.not_isNaN_of_le hdistance).2, (Float32.not_isNaN_of_le hspeed).1⟩

/-- Over `10 ^ 38` metres the square of the distance overflows, and at the least speed so does that
of the inverse. -/
theorem bulletDrop_monotone_overflow :
    let far : Float32 := 1e38
    far.isFinite = true ∧ (bulletDrop far Float32.leastNormal 9.81).isFinite = false ∧
    bulletDrop 0 Float32.leastNormal 9.81 ≤ bulletDrop far Float32.leastNormal 9.81 ∧
    bulletDrop far 1e38 9.81 ≤ bulletDrop far Float32.leastNormal 9.81 := by
  intro far
  have hmonotone := @bulletDrop_monotone 9.81 0 far Float32.leastNormal 1e38
    (by decide +kernel) (by decide +kernel) (by decide +kernel) (by decide +kernel)
    (by decide +kernel) (by decide +kernel) (by decide +kernel) (by decide +kernel)
  exact ⟨by decide +kernel, by decide +kernel, hmonotone.1, hmonotone.2.1⟩

end FireControl
