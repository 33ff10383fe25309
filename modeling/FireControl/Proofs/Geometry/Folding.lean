import FireControl.Proofs.Geometry.Seam

/-!
# Folding an Angle

How large a folded angle is, and when there is one. Each of the three steps of folding gives a
finite number for a finite one, and the last leaves it no larger than half a turn. A number that is
not finite passes through all steps, so a folded angle is finite only if the angle was.

Half a turn is the rounded π here.

## Main definitions

* `Angle.halfTurn`: The value of the rounded π.

## Theorems

* `fold_hasValue`, `wrap_hasValue`: A folded angle is at most half a turn.
* `fold_isFinite_iff`, `wrap_isFinite_iff`: Only a finite angle is folded to a finite one.
-/

namespace FireControl

open Float.Model

namespace Angle

/-- The value of the rounded π. -/
def halfTurn : ℚ := 13176795 / 2 ^ 22

theorem halfAt_eq_halfTurn : halfAt (-22) = halfTurn := by
  norm_num [halfAt, halfTurn]

variable {angle : Float32}

/-- A folded angle is at most half a turn. -/
theorem fold_hasValue (h : angle.isFinite = true) :
    ∃ v : ℚ, |v| ≤ halfTurn ∧ (fold angle).HasValue v := by
  rcases Float32.exists_hasValue h with ⟨x, hx, -⟩
  rcases halves_pi.centred_hasValue hx with ⟨q, r, hrest, -, hvalue⟩
  have hnonneg := Format.rounded_nonneg (F := .binary32) hrest.nonneg
  -- The remainder lies within a turn, and half a turn less is within half a turn.
  have hlt := (rest_exact halves_pi.least hx.rounded hrest).1
  refine ⟨_, ?_, hvalue⟩
  rw [← halfAt_eq_halfTurn]
  exact abs_le.mpr ⟨by linarith, by linarith⟩

theorem wrap_hasValue (h : angle.isFinite = true) :
    ∃ v : ℚ, |v| ≤ halfTurn ∧ (wrap angle).HasValue v := by
  rw [wrap_eq_fold]
  exact fold_hasValue h

/-- Only a finite angle is folded to a finite one. -/
theorem fold_isFinite_iff : (fold angle).isFinite = true ↔ angle.isFinite = true := by
  constructor
  · intro h
    rcases Float32.exists_hasValue h with ⟨v, hv, -⟩
    have hnumber : (centred pi tau angle).isNaN = false := hv.not_isNaN
    exact isFinite_of_centred hnumber
  · intro h
    rcases fold_hasValue h with ⟨v, -, hv⟩
    exact hv.isFinite

theorem wrap_isFinite_iff : (wrap angle).isFinite = true ↔ angle.isFinite = true := by
  rw [wrap_eq_fold]
  exact fold_isFinite_iff

end Angle

end FireControl
