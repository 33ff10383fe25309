import Mathlib

/-!
# Rounding to the Nearest Integer

What a floating-point operation does with a result that its format cannot hold is decided on an
integer scale: the last place that the format keeps is the unit, and the result goes to the nearest
integer, half-way to the even one. `nearestEven` is that rule on rational numbers, and one
characterization is enough to work with it: the rounded number is within a half, and where it is
exactly a half away it is even.

The implementation does not see the number. It sees the integer part and two bits, one for the first
digit after it and one for whether anything follows. `ExtendedMantissa.Describes` says what the two
bits stand for; a shift to the right keeps the description of half the number, and the rounded
mantissa is the nearest integer of what is described.

## Main definitions

* `Float.Model.nearestEven`: The nearest integer, half-way the even one.
* `Accuracy.Describes`: The fractions that an accuracy stands for.
* `ExtendedMantissa.Describes`: The numbers that a mantissa with two bits stands for.

## Theorems

* `nearestEven_eq_iff`: The nearest integer by its distance.
* `nearestEven_mono`, `nearestEven_neg`, `nearestEven_intCast`: Order, sign and integers are kept.
* `ExtendedMantissa.Describes.shiftRight`: A shift describes the quotient.
* `ExtendedMantissa.Describes.roundedMantissa`: The rounded mantissa is the nearest integer.
-/

namespace Float.Model

/-- The integer nearest to `y`; half-way between two, the even one. -/
def nearestEven (y : ℚ) : ℤ :=
  if Int.fract y < 1 / 2 then ⌊y⌋
  else if 1 / 2 < Int.fract y then ⌊y⌋ + 1
  else ⌊y⌋ + ⌊y⌋ % 2

theorem abs_sub_nearestEven (y : ℚ) :
    |y - nearestEven y| ≤ 1 / 2 ∧ (|y - nearestEven y| = 1 / 2 → nearestEven y % 2 = 0) := by
  have hfloor := Int.floor_add_fract y
  have hnonneg := Int.fract_nonneg y
  have hlt := Int.fract_lt_one y
  unfold nearestEven
  -- By the fraction: below one half, above it, and the tie.
  split_ifs with hbelow habove
  · have habs : |y - ⌊y⌋| = Int.fract y := abs_of_nonneg (Int.fract_nonneg y)
    rw [habs]
    exact ⟨hbelow.le, fun heq => absurd heq hbelow.ne⟩
  · have habs : |y - (⌊y⌋ + 1 : ℤ)| = 1 - Int.fract y := by
      rw [abs_of_nonpos] <;> push_cast <;> linarith
    rw [habs]
    exact ⟨by linarith, fun heq => by linarith⟩
  · have hhalf : Int.fract y = 1 / 2 := le_antisymm (not_lt.mp habove) (not_lt.mp hbelow)
    refine ⟨?_, fun _ => by omega⟩
    rcases Int.emod_two_eq_zero_or_one ⌊y⌋ with heven | hodd
    · rw [heven, abs_le]
      constructor <;> push_cast <;> linarith
    · rw [hodd, abs_le]
      constructor <;> push_cast <;> linarith

/-- The nearest integer is the one within a half, or the even one of two that are half away. -/
theorem nearestEven_eq_iff {y : ℚ} {n : ℤ} :
    nearestEven y = n ↔ |y - n| ≤ 1 / 2 ∧ (|y - n| = 1 / 2 → n % 2 = 0) := by
  refine ⟨fun h => h ▸ abs_sub_nearestEven y, fun ⟨hle, htie⟩ => ?_⟩
  rcases abs_sub_nearestEven y with ⟨hle', htie'⟩
  by_contra hne
  -- Two different integers within a half are neighbours with `y` half-way between them.
  rcases lt_or_gt_of_ne hne with hlt | hgt
  · have hcast : (nearestEven y : ℚ) + 1 ≤ n := by exact_mod_cast hlt
    rw [abs_le] at hle hle'
    have hn : (n : ℚ) = y + 1 / 2 := by linarith
    have hm : (nearestEven y : ℚ) = y - 1 / 2 := by linarith
    have h1 := htie (by rw [hn]; norm_num)
    have h2 := htie' (by rw [hm]; norm_num)
    have hsucc : n = nearestEven y + 1 := by
      have : (n : ℚ) = nearestEven y + 1 := by linarith
      exact_mod_cast this
    omega
  · have hcast : (n : ℚ) + 1 ≤ nearestEven y := by exact_mod_cast hgt
    rw [abs_le] at hle hle'
    have hn : (n : ℚ) = y - 1 / 2 := by linarith
    have hm : (nearestEven y : ℚ) = y + 1 / 2 := by linarith
    have h1 := htie (by rw [hn]; norm_num)
    have h2 := htie' (by rw [hm]; norm_num)
    have hsucc : nearestEven y = n + 1 := by
      have : (nearestEven y : ℚ) = n + 1 := by linarith
      exact_mod_cast this
    omega

/-- What is nearer than a half to an integer goes to that integer. -/
theorem nearestEven_eq_of_lt {y : ℚ} {n : ℤ} (h : |y - n| < 1 / 2) : nearestEven y = n :=
  nearestEven_eq_iff.mpr ⟨h.le, fun heq => absurd heq h.ne⟩

/-- What is half away from an even integer goes to that integer. -/
theorem nearestEven_eq_of_le {y : ℚ} {n : ℤ} (h : |y - n| ≤ 1 / 2) (heven : n % 2 = 0) :
    nearestEven y = n :=
  nearestEven_eq_iff.mpr ⟨h, fun _ => heven⟩

@[simp]
theorem nearestEven_intCast (n : ℤ) : nearestEven n = n :=
  nearestEven_eq_of_lt (by norm_num)

@[simp]
theorem nearestEven_zero : nearestEven 0 = 0 :=
  nearestEven_intCast 0

theorem nearestEven_neg (y : ℚ) : nearestEven (-y) = -nearestEven y := by
  rcases abs_sub_nearestEven y with ⟨hle, htie⟩
  have habs : |-y - (-nearestEven y : ℤ)| = |y - nearestEven y| := by
    rw [← abs_neg]
    push_cast
    ring_nf
  rw [nearestEven_eq_iff, habs]
  exact ⟨hle, fun heq => by have := htie heq; omega⟩

/-- Rounding keeps the order. -/
theorem nearestEven_mono {y z : ℚ} (h : y ≤ z) : nearestEven y ≤ nearestEven z := by
  by_contra hlt
  have hcast : (nearestEven z : ℚ) + 1 ≤ nearestEven y := by exact_mod_cast not_le.mp hlt
  have hy := abs_le.mp (abs_sub_nearestEven y).1
  have hz := abs_le.mp (abs_sub_nearestEven z).1
  have heq : y = z := by linarith
  exact hlt (heq ▸ le_refl _)

theorem le_nearestEven {y : ℚ} {n : ℤ} (h : (n : ℚ) ≤ y) : n ≤ nearestEven y :=
  nearestEven_intCast n ▸ nearestEven_mono h

theorem nearestEven_le {y : ℚ} {n : ℤ} (h : y ≤ n) : nearestEven y ≤ n :=
  nearestEven_intCast n ▸ nearestEven_mono h

namespace UnpackedFloat

/-- The fractions of a unit that an accuracy stands for. -/
def Accuracy.Describes : Accuracy → ℚ → Prop
  | .exact, f => f = 0
  | .inexact .lt, f => 0 < f ∧ f < 1 / 2
  | .inexact .eq, f => f = 1 / 2
  | .inexact .gt, f => 1 / 2 < f ∧ f < 1

/-- The numbers that a mantissa with its two bits stands for. -/
def ExtendedMantissa.Describes (em : ExtendedMantissa) (y : ℚ) : Prop :=
  em.accuracy.Describes (y - em.mantissa)

theorem Accuracy.Describes.bounds {a : Accuracy} {f : ℚ} (h : a.Describes f) : 0 ≤ f ∧ f < 1 := by
  rcases a with _ | _ | _ | _
  all_goals
    simp only [Accuracy.Describes] at h
    constructor <;> linarith

/-- The accuracy of a fraction describes it. -/
theorem describes_accuracyOfFraction {num den : ℕ} (h : num < den) :
    (accuracyOfFraction num den).Describes (num / den) := by
  have hden : (0 : ℚ) < den := by exact_mod_cast Nat.zero_lt_of_lt h
  have hone : (num : ℚ) / den < 1 := (div_lt_one hden).mpr (by exact_mod_cast h)
  unfold accuracyOfFraction
  by_cases hzero : num = 0
  · rw [if_pos hzero, hzero]
    simp [Accuracy.Describes]
  · rw [if_neg hzero]
    have hpos : (0 : ℚ) < num / den :=
      div_pos (by exact_mod_cast Nat.pos_of_ne_zero hzero) hden
    -- The truncated fraction is judged by comparing twice the remainder with the divisor.
    cases horder : compare (2 * num) den with
    | lt =>
        have hlt : (2 * num : ℚ) < den := by exact_mod_cast Nat.compare_eq_lt.mp horder
        exact ⟨hpos, by rw [div_lt_div_iff₀ hden (by norm_num)]; linarith⟩
    | eq =>
        have heq : (2 * num : ℚ) = den := by exact_mod_cast Nat.compare_eq_eq.mp horder
        simp only [Accuracy.Describes]
        rw [div_eq_div_iff hden.ne' (by norm_num)]
        linarith
    | gt =>
        have hgt : (den : ℚ) < 2 * num := by exact_mod_cast Nat.compare_eq_gt.mp horder
        exact ⟨by rw [div_lt_div_iff₀ (by norm_num) hden]; linarith, hone⟩

namespace ExtendedMantissa

variable {em : ExtendedMantissa} {y : ℚ}

theorem describes_ofMantissaAndAccuracy {m : ℕ} {a : Accuracy} (h : a.Describes (y - m)) :
    (ofMantissaAndAccuracy m a).Describes y := by
  rcases a with _ | _ | _ | _ <;> exact h

theorem describes_exact (m : ℕ) : (ofMantissaAndAccuracy m .exact).Describes m :=
  describes_ofMantissaAndAccuracy (sub_self _)

theorem Describes.floor (h : em.Describes y) : ⌊y⌋ = em.mantissa := by
  rcases Accuracy.Describes.bounds h with ⟨hnonneg, hlt⟩
  rw [Int.floor_eq_iff]
  push_cast
  constructor <;> linarith

/-- The rounded mantissa is the integer nearest to what is described. -/
theorem Describes.roundedMantissa (h : em.Describes y) :
    (em.roundedMantissa : ℤ) = nearestEven y := by
  have hfloor := h.floor
  have hfract : Int.fract y = y - em.mantissa := by rw [Int.fract, hfloor]; rfl
  unfold Describes at h
  rw [← hfract] at h
  unfold ExtendedMantissa.roundedMantissa nearestEven
  rw [hfloor]
  -- One case for each accuracy: it says on which side of one half the lost fraction lies.
  cases ha : em.accuracy with
  | exact =>
      rw [ha] at h
      simp only [Accuracy.Describes] at h
      rw [if_pos (by linarith)]
      rfl
  | inexact order =>
      rw [ha] at h
      cases order with
      | lt =>
          rw [if_pos h.2]
          rfl
      | eq =>
          rw [if_neg (not_lt.mpr h.ge), if_neg (not_lt.mpr h.le)]
          simp [Accuracy.roundToNearestEven]
      | gt =>
          rw [if_neg (not_lt.mpr h.1.le), if_pos h.1]
          simp [Accuracy.roundToNearestEven]

theorem Describes.shiftRightOne (h : em.Describes y) : em.shiftRightOne.Describes (y / 2) := by
  rcases em with ⟨m, roundBit, stickyBit⟩
  have hdiv : (m : ℚ) = 2 * (m / 2 : ℕ) + (m % 2 : ℕ) := by
    exact_mod_cast (Nat.div_add_mod m 2).symm
  have hone : (1 != 0) = true := rfl
  -- The bit that is shifted out of the mantissa is the new first digit after it.
  rcases Nat.mod_two_eq_zero_or_one m with hmod | hmod <;>
    rw [hmod] at hdiv <;>
    cases roundBit <;> cases stickyBit <;>
    simp only [Describes, accuracy, Accuracy.Describes, ExtendedMantissa.shiftRightOne, hmod, hone,
      bne_self_eq_false, Bool.or_true, Bool.or_false] at h ⊢ <;>
    push_cast at hdiv <;>
    first
      | linarith
      | (constructor <;> linarith)

/-- A shift to the right describes the quotient. -/
theorem Describes.shiftRight (h : em.Describes y) (n : ℕ) : (em >>> n).Describes (y / 2 ^ n) := by
  change (n.repeat ExtendedMantissa.shiftRightOne em).Describes _
  induction n with
  | zero => simpa [Nat.repeat] using h
  | succ n ih =>
      rw [Nat.repeat, pow_succ, ← div_div]
      exact ih.shiftRightOne

end ExtendedMantissa

end UnpackedFloat

end Float.Model
