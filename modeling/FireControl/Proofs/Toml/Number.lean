import FireControl.Proofs.Decimal.DoubleRounding
import FireControl.Proofs.Toml.Bare

/-!
# Numbers Read Back

A number that was written in double precision is read as itself. A number that was written in single
precision is read in double precision, and a field of a settings file narrows it. Of all numbers in
single precision two do not come back in this way, a number and its negative: `Float32.reread` says
so.

## Main definitions

* `Float32.Slips`: The two numbers that do not come back.
* `Float32.reread`: The number that comes back.

## Theorems

* `Bare.reading_double`: A number in double precision comes back.
* `Bare.narrow_reading`: What comes back of a number in single precision.
-/

open Float.Model (Format UnpackedFloat)
open Float.Model.UnpackedFloat (Sign)

namespace Float32

/-- The numbers `± 11420669 · 2 ^ -107`. -/
def Slips (x : Float32) : Prop :=
  x = .ofBits 0x15AE43FD ∨ x = .ofBits 0x95AE43FD

instance (x : Float32) : Decidable x.Slips :=
  inferInstanceAs (Decidable (_ ∨ _))

/-- The number that comes back where `x` was written: twice it is the next one, away from zero. -/
def reread (x : Float32) : Float32 :=
  if x = .ofBits 0x15AE43FD then .ofBits 0x15AE43FE
  else if x = .ofBits 0x95AE43FD then .ofBits 0x95AE43FE
  else x

theorem reread_of_not_slips {x : Float32} (h : ¬ x.Slips) : x.reread = x := by
  rw [Slips, not_or] at h
  rw [reread, if_neg h.1, if_neg h.2]

theorem reread_eq_self_iff {x : Float32} : x.reread = x ↔ ¬ x.Slips := by
  refine ⟨fun heq hslips => ?_, reread_of_not_slips⟩
  rcases hslips with rfl | rfl
  · exact absurd heq (by decide)
  · exact absurd heq (by decide)

/-- What the numbers that slip are made of. -/
theorem slips_of_unpack {x : Float32} {s : Sign} {hm : 0 < 11420669}
    (h : x.toModel.unpack = .finite s 11420669 (-107) hm) : x.Slips := by
  cases s with
  | positive => exact Or.inl (unpack_inj.mp (h.trans rfl))
  | negative => exact Or.inr (unpack_inj.mp (h.trans rfl))

end Float32

namespace FireControl

namespace Toml

namespace Bare

theorem signed_carries {y : Float} {v : ℚ} (s : Sign)
    (h : y.toModel.unpack.Carries .binary64 .positive v) :
    (signed s.isNegative y).toModel.unpack.Carries .binary64 s v := by
  cases s with
  | positive => exact h
  | negative => exact Float.neg_carries h

theorem nearest_zero_carries :
    (Decimal.nearest ⟨0, 0⟩).toModel.unpack.Carries .binary64 .positive 0 :=
  .zero rfl

/-- A shortest decimal of double precision is within its range. -/
theorem rounded_shortest_lt_limit {m : ℕ} {e : ℤ} (h : Format.binary64.Canonical m e)
    (he : e ≤ Format.binary64.maxExponent) :
    Format.binary64.rounded (Binary.mk .binary64 m e).shortest.value < Format.binary64.limit := by
  have hrounded := Binary.rounded_shortest (b := .mk .binary64 m e) h
  exact hrounded.trans_lt ((h.lt_limit_iff (by decide)).mpr he)

/-- A number in double precision comes back. -/
theorem reading_double (x : Float) : reading .binary64 x.toModel.unpack = x := by
  cases hu : x.toModel.unpack with
  | notANumber => exact Float.unpack_inj.mp (Eq.trans rfl hu.symm)
  | infinity s => cases s <;> exact Float.unpack_inj.mp (Eq.trans rfl hu.symm)
  | zero s =>
      refine Float.eq_of_carries (signed_carries s nearest_zero_carries) ?_
      rw [hu]
      exact .zero rfl
  | finite s m e hm =>
      rcases UnpackedFloat.canonical_of_unpack (by decide) hu with ⟨canonical, he⟩
      -- The shortest text rounds back to the number it was written for.
      have hrounded : Format.binary64.rounded (Binary.mk .binary64 m e).shortest.value =
          m * 2 ^ e := Binary.rounded_shortest (b := .mk .binary64 m e) canonical
      have hlt := rounded_shortest_lt_limit canonical he
      refine Float.eq_of_carries (signed_carries s (Decimal.nearest_carries hlt)) ?_
      rw [hu, hrounded]
      exact .finite m e hm canonical rfl

/-- A shortest decimal of single precision is within the range of double precision. -/
theorem rounded_single_lt_limit {m : ℕ} {e : ℤ} (h : Format.binary32.Canonical m e)
    (he : e ≤ 104) :
    Format.binary64.rounded (Binary.mk .binary32 m e).shortest.value < Format.binary64.limit := by
  refine (Binary.rounded_shortest_between h).2.trans_lt ?_
  -- The text of a single lies within the number's neighbours, below 2 ^ 128.
  have hhigh : (Binary.mk .binary32 m e).high = 4 * m + 2 := rfl
  have hm : (m : ℚ) + 1 ≤ 2 ^ 24 := by exact_mod_cast h.lt
  have hpow : (2 : ℚ) ^ e ≤ 2 ^ (104 : ℤ) := zpow_le_zpow_right₀ one_le_two he
  have hlimit : Format.binary64.limit = 2 ^ 1024 := rfl
  rw [hhigh, hlimit]
  push_cast
  calc (4 * (m : ℚ) + 2) / 4 * 2 ^ e ≤ 2 ^ 24 * 2 ^ (104 : ℤ) := by
        gcongr
        linarith
    _ = 2 ^ 128 := by norm_num
    _ < 2 ^ 1024 := pow_lt_pow_right₀ one_lt_two (by norm_num)

/-- What comes back of a number in single precision. -/
theorem narrow_reading (x : Float32) : (reading .binary32 x.toModel.unpack).narrow = x.reread := by
  by_cases hslips : x.Slips
  · -- What comes back of these two is computed.
    rcases hslips with rfl | rfl
    · decide +kernel
    · decide +kernel
  rw [Float32.reread_of_not_slips hslips]
  cases hu : x.toModel.unpack with
  | notANumber => exact Float32.unpack_inj.mp (Eq.trans rfl hu.symm)
  | infinity s => cases s <;> exact Float32.unpack_inj.mp (Eq.trans rfl hu.symm)
  | zero s =>
      have hzero := Float.narrow_carries (signed_carries s nearest_zero_carries) (by
        rw [Format.rounded_zero, Format.limit]
        positivity)
      rw [Format.rounded_zero] at hzero
      refine Float32.eq_of_carries hzero ?_
      rw [hu]
      exact .zero rfl
  | finite s m e hm =>
      rcases UnpackedFloat.canonical_of_unpack (by decide) hu with ⟨canonical, he⟩
      have he' : e ≤ 104 := he
      -- The two numbers that slip are those of the one mantissa that cannot be rounded twice.
      have hne : ¬ (m = 11420669 ∧ e = -107) := by
        rintro ⟨rfl, rfl⟩
        exact hslips (Float32.slips_of_unpack hu)
      have hrounded := Binary.rounded_rounded_shortest canonical he' hne
      have hdouble := signed_carries s
        (Decimal.nearest_carries (rounded_single_lt_limit canonical he'))
      have hsingle := Float.narrow_carries hdouble (by
        rw [hrounded]
        exact (canonical.lt_limit_iff (by decide)).mpr he)
      rw [hrounded] at hsingle
      refine Float32.eq_of_carries hsingle ?_
      rw [hu]
      exact .finite m e hm canonical rfl

/-! ### The texts of numbers -/

theorem reads_double (x : Float) : Reads (Scalar.write (.float x)) (.scalar (.float x)) := by
  have hreads := reads_shortest (F := .binary64) (u := x.toModel.unpack) fun s m e hm hu => by
    rcases UnpackedFloat.canonical_of_unpack (by decide) hu with ⟨canonical, he⟩
    exact rounded_shortest_lt_limit canonical he
  rwa [reading_double] at hreads

theorem reads_single (x : Float32) :
    Reads (Scalar.write (.single x))
      (.scalar (.float (reading .binary32 x.toModel.unpack))) :=
  reads_shortest fun s m e hm hu => by
    rcases UnpackedFloat.canonical_of_unpack (by decide) hu with ⟨canonical, he⟩
    exact rounded_single_lt_limit canonical he

end Bare

end Toml

end FireControl
