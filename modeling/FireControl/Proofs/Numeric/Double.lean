import FireControl.Proofs.Numeric.Accumulation

/-!
# Numbers in Double Precision

Time is counted in double precision, and all that is done with it is to take intervals off a rest
and to compare the rest. So two operations are needed here, the comparison and the difference. Both
are those of the unpacked numbers, in a format with 53 digits.

A difference is exact up to rounding as long as it does not overflow, and what lies between two
numbers of the format does not. A difference from a number that is not negative is not greater, also
where infinities take part, provided that it is not NaN.

## Main definitions

* `Float.HasValue`: A double-precision number with a value.

## Theorems

* `HasValue.lt_iff`, `HasValue.le_iff`: Numbers are compared by their values.
* `HasValue.sub`: A difference is exact up to rounding.
* `lt_iff_of_stands`, `le_iff_of_stands`: The order of what is not NaN.
* `HasValue.sub_of_nonneg`: A difference of numbers that are not negative does not overflow.
* `le_trans`, `lt_of_lt_of_le`: Comparison is transitive.
* `not_isNaN_of_sub`: A difference that is not NaN is one from a number or an infinity.
* `sub_le`: A difference from a number that is not negative is not greater.
-/

open Float.Model

namespace Float

open Float32 (Extended)

/-- A double-precision number with a value. -/
def HasValue (f : Float) (x : ℚ) : Prop :=
  f.toModel.unpack.HasValue .binary64 x

variable {f g h : Float} {a b : Extended} {x y : ℚ}

/-! ### Comparison -/

theorem lt_iff_compare : f < g ↔ f.toModel.unpack.compare g.toModel.unpack = some .lt := by
  change decide ((f.toModel.unpack.compare g.toModel.unpack == some .lt) = true) = true ↔ _
  rw [decide_eq_true_iff, beq_iff_eq]

theorem le_iff_compare : f ≤ g ↔ f.toModel.unpack.compare g.toModel.unpack = some .lt ∨
    f.toModel.unpack.compare g.toModel.unpack = some .eq := by
  change decide ((f.toModel.unpack.compare g.toModel.unpack).any (·.isLE) = true) = true ↔ _
  rw [decide_eq_true_iff]
  cases f.toModel.unpack.compare g.toModel.unpack with
  | none => simp
  | some outcome => cases outcome <;> simp

theorem not_isNaN_of_le (hle : f ≤ g) : f.isNaN = false ∧ g.isNaN = false := by
  have hsome : f.toModel.unpack.compare g.toModel.unpack ≠ none := by
    rcases le_iff_compare.mp hle with hlt | heq
    · simp [hlt]
    · simp [heq]
  rw [Ne, Float32.compare_unpacked_eq_none_iff, not_or, Bool.not_eq_true, Bool.not_eq_true] at hsome
  exact hsome

theorem le_of_lt (hlt : f < g) : f ≤ g :=
  le_iff_compare.mpr (Or.inl (lt_iff_compare.mp hlt))

theorem lt_iff_of_stands (hf : f.toModel.unpack.Stands .binary64 a)
    (hg : g.toModel.unpack.Stands .binary64 b) : f < g ↔ a < b := by
  rw [lt_iff_compare, hf.compare_eq hg, Option.some_inj, compare_lt_iff_lt]

theorem le_iff_of_stands (hf : f.toModel.unpack.Stands .binary64 a)
    (hg : g.toModel.unpack.Stands .binary64 b) : f ≤ g ↔ a ≤ b := by
  rw [le_iff_compare, hf.compare_eq hg, Option.some_inj, Option.some_inj, compare_lt_iff_lt,
    compare_eq_iff_eq, le_iff_lt_or_eq]

theorem HasValue.lt_iff (hx : f.HasValue x) (hy : g.HasValue y) : f < g ↔ x < y := by
  rw [lt_iff_compare, UnpackedFloat.compare_of_hasValue hx hy, Option.some_inj, compare_lt_iff_lt]

theorem HasValue.le_iff (hx : f.HasValue x) (hy : g.HasValue y) : f ≤ g ↔ x ≤ y := by
  rw [le_iff_compare, UnpackedFloat.compare_of_hasValue hx hy, Option.some_inj, Option.some_inj,
    compare_lt_iff_lt, compare_eq_iff_eq, le_iff_lt_or_eq]

theorem exists_stands (hf : f.isNaN = false) : ∃ a, f.toModel.unpack.Stands .binary64 a := by
  change f.toModel.unpack.isNaN = false at hf
  by_cases hfinite : f.toModel.unpack.isFinite = true
  · rcases UnpackedFloat.unpack_hasValue (by decide) hfinite with ⟨x, hx, -⟩
    exact ⟨_, .value hx⟩
  -- What is neither finite nor a NaN is one of the infinities.
  · cases hu : f.toModel.unpack with
    | zero s => exact absurd rfl (hu ▸ hfinite)
    | finite s m e hm => exact absurd rfl (hu ▸ hfinite)
    | notANumber =>
        rw [hu] at hf
        exact absurd hf.symm Bool.false_ne_true
    | infinity s =>
        cases s with
        | negative => exact ⟨_, .negativeInfinity⟩
        | positive => exact ⟨_, .positiveInfinity⟩

theorem le_trans (hfg : f ≤ g) (hgh : g ≤ h) : f ≤ h := by
  -- A comparison that comes out true has no NaN on either side.
  rcases not_isNaN_of_le hfg with ⟨hf, hg⟩
  rcases exists_stands hf with ⟨a, ha⟩
  rcases exists_stands hg with ⟨b, hb⟩
  rcases exists_stands (not_isNaN_of_le hgh).2 with ⟨c, hc⟩
  rw [le_iff_of_stands ha hb] at hfg
  rw [le_iff_of_stands hb hc] at hgh
  rw [le_iff_of_stands ha hc]
  exact hfg.trans hgh

theorem lt_of_lt_of_le (hfg : f < g) (hgh : g ≤ h) : f < h := by
  rcases not_isNaN_of_le (le_of_lt hfg) with ⟨hf, hg⟩
  rcases exists_stands hf with ⟨a, ha⟩
  rcases exists_stands hg with ⟨b, hb⟩
  rcases exists_stands (not_isNaN_of_le hgh).2 with ⟨c, hc⟩
  rw [lt_iff_of_stands ha hb] at hfg
  rw [le_iff_of_stands hb hc] at hgh
  rw [lt_iff_of_stands ha hc]
  exact hfg.trans_le hgh

theorem le_refl (hf : f.isNaN = false) : f ≤ f := by
  rcases exists_stands hf with ⟨a, ha⟩
  exact (le_iff_of_stands ha ha).mpr le_rfl

/-! ### Differences -/

theorem hasValue_zero : (0 : Float).HasValue 0 :=
  UnpackedFloat.hasValue_zero_iff.mpr rfl

/-- The value of a number by its mantissa and exponent. -/
theorem hasValue_positive {m : ℕ} {e : ℤ} (hm : 0 < m)
    (hf : f.toModel.unpack = .finite .positive m e hm) (hx : (m : ℚ) * 2 ^ e = x) :
    f.HasValue x := by
  have canonical := (UnpackedFloat.canonical_of_unpack (by decide) hf).1
  rw [HasValue, hf]
  exact UnpackedFloat.hasValue_finite_iff.mpr ⟨canonical, hx.symm⟩

theorem HasValue.rounded (hx : f.HasValue x) : Format.binary64.rounded x = x :=
  UnpackedFloat.HasValue.rounded hx

theorem HasValue.unique (hx : f.HasValue x) (hy : f.HasValue y) : x = y :=
  UnpackedFloat.HasValue.unique hx hy

theorem HasValue.lt_limit (hx : f.HasValue x) : |x| < Format.binary64.limit := by
  have hfinite : f.toModel.unpack.isFinite = true := by
    rcases UnpackedFloat.HasValue.cases hx with ⟨s, heq, -⟩ | ⟨s, m, e, hm, heq, -⟩
    all_goals
      rw [heq]
      rfl
  rcases UnpackedFloat.unpack_hasValue (by decide) hfinite with ⟨y, hy, hlt⟩
  rwa [hx.unique hy]

/-- What is bounded by a number of the format is rounded below the limit. -/
theorem HasValue.abs_rounded_lt (hx : f.HasValue x) (hle : |y| ≤ x) :
    |Format.binary64.rounded y| < Format.binary64.limit := by
  rcases abs_le.mp hle with ⟨hlow, hhigh⟩
  have hneg := Format.rounded_mono (F := .binary64) hlow
  rw [Format.rounded_neg, hx.rounded] at hneg
  have hupper := (Format.rounded_mono hhigh).trans_eq hx.rounded
  exact (abs_le.mpr ⟨hneg, hupper⟩).trans_lt (lt_of_abs_lt hx.lt_limit)

theorem hasValue_pack {u : UnpackedFloat} (hu : u.HasValue .binary64 x)
    (hlt : |x| < Format.binary64.limit) : (ofModel (.pack u)).HasValue x := by
  rcases hu with ⟨s, hcarries, happlied⟩
  have hpack := UnpackedFloat.unpack_pack_of_lt_limit hcarries (by decide) hlt
  refine ⟨s, ?_, happlied⟩
  change (UnpackedFloat.unpack _ (UnpackedFloat.pack _ u)).Carries _ s |x|
  rw [hpack]
  exact hcarries

/-- A difference is exact up to rounding. -/
theorem HasValue.sub (hx : f.HasValue x) (hy : g.HasValue y)
    (hlt : |Format.binary64.rounded (x - y)| < Format.binary64.limit) :
    (f - g).HasValue (Format.binary64.rounded (x - y)) :=
  hasValue_pack (UnpackedFloat.sub_hasValue hx hy) hlt

/-- A difference of numbers that are not negative does not overflow. -/
theorem HasValue.sub_of_nonneg (hx : f.HasValue x) (hy : g.HasValue y) (hxpos : 0 ≤ x)
    (hypos : 0 ≤ y) : (f - g).HasValue (Format.binary64.rounded (x - y)) := by
  apply hx.sub hy
  -- The greater one of the two is a bound for the difference.
  rcases le_total y x with hle | hle
  · exact hx.abs_rounded_lt (abs_le.mpr ⟨by linarith, by linarith⟩)
  · exact hy.abs_rounded_lt (abs_le.mpr ⟨by linarith, by linarith⟩)

/-- What is not finite comes out of its packed form as it went in. -/
theorem unpack_pack_of_not_finite {u : UnpackedFloat} (hu : u.isFinite = false) :
    (ofModel (.pack u)).toModel.unpack = u := by
  cases u with
  | zero s => exact absurd hu.symm Bool.false_ne_true
  | finite s m e hm => exact absurd hu.symm Bool.false_ne_true
  | notANumber => rfl
  | infinity s => cases s <;> rfl

theorem not_isNaN_of_sub (hsub : (f - g).isNaN = false) : f.isNaN = false := by
  change f.toModel.unpack.isNaN = false
  cases hu : f.toModel.unpack with
  | zero s => rfl
  | finite s m e hm => rfl
  | infinity s => rfl
  | notANumber =>
      -- The difference is NaN as well, which it is not.
      have hmodel : UnpackedFloat.sub .binary64 f.toModel.unpack g.toModel.unpack =
          .notANumber := by
        rw [hu]
        exact UnpackedFloat.notANumber_sub _
      have hunpack : (f - g).toModel.unpack = _ := unpack_pack_of_not_finite (by rw [hmodel]; rfl)
      change (f - g).toModel.unpack.isNaN = false at hsub
      rw [hunpack, hmodel] at hsub
      exact absurd hsub.symm Bool.false_ne_true

/-- A difference that comes out as negative infinity is below everything. -/
theorem sub_le_of_negativeInfinity (hf : f.isNaN = false)
    (hsub : UnpackedFloat.sub .binary64 f.toModel.unpack g.toModel.unpack =
      .infinity .negative) : f - g ≤ f := by
  have hunpack : (f - g).toModel.unpack = _ := unpack_pack_of_not_finite (by rw [hsub]; rfl)
  have hbottom : (f - g).toModel.unpack.Stands .binary64 ⊥ := by
    rw [hunpack, hsub]
    exact .negativeInfinity
  rcases exists_stands hf with ⟨a, ha⟩
  exact (le_iff_of_stands hbottom ha).mpr bot_le

/-- A difference of numbers with a value, the second of which is not negative, is not greater than
the first, even where it overflows. -/
theorem HasValue.sub_le (hx : f.HasValue x) (hy : g.HasValue y) (hnonneg : 0 ≤ y) : f - g ≤ f := by
  have hsub := UnpackedFloat.sub_hasValue hx hy
  have hle : Format.binary64.rounded (x - y) ≤ x :=
    (Format.rounded_mono (sub_le_self x hnonneg)).trans_eq hx.rounded
  by_cases hlt : |Format.binary64.rounded (x - y)| < Format.binary64.limit
  · exact ((hx.sub hy hlt).le_iff hx).mpr hle
  · -- The difference overflows, and it does so downwards.
    rcases hsub with ⟨s, hcarries, happlied⟩
    have hunpack : (f - g).toModel.unpack = .infinity s :=
      UnpackedFloat.unpack_pack_of_limit_le hcarries (by decide) (not_lt.mp hlt)
    cases s with
    | negative =>
        have hbottom : (f - g).toModel.unpack.Stands .binary64 ⊥ := hunpack ▸ .negativeInfinity
        exact (le_iff_of_stands hbottom (.value hx)).mpr bot_le
    | positive =>
        have habove := (abs_lt.mp hx.lt_limit).2
        have hreach := not_lt.mp hlt
        simp only [UnpackedFloat.Sign.applied] at happlied
        linarith

/-- A difference from a number that is not negative is not greater, provided that it is a number. -/
theorem sub_le (hg : 0 ≤ g) (hsub : (f - g).isNaN = false) : f - g ≤ f := by
  have hf := not_isNaN_of_sub hsub
  rcases exists_stands hf with ⟨a, ha⟩
  rcases exists_stands (not_isNaN_of_le hg).2 with ⟨b, hb⟩
  have hnonneg := (le_iff_of_stands (.value hasValue_zero) hb).mp hg
  generalize hu : f.toModel.unpack = u at ha
  generalize hw : g.toModel.unpack = w at hb
  cases ha with
  | positiveInfinity =>
      -- Nothing is above infinity.
      rcases exists_stands hsub with ⟨c, hc⟩
      exact (le_iff_of_stands hc (hu ▸ .positiveInfinity)).mpr le_top
  | negativeInfinity =>
      -- Whatever is taken off negative infinity, it stays what it is.
      apply sub_le_of_negativeInfinity hf
      rw [hu, hw]
      cases hb with
      | negativeInfinity => exact absurd hnonneg (not_le.mpr (Extended.bot_lt _))
      | value hy => rcases hy.cases with ⟨_, rfl, -⟩ | ⟨_, m, e, hm, rfl, -⟩ <;> rfl
      | positiveInfinity => rfl
  | value hx =>
      cases hb with
      | negativeInfinity => exact absurd hnonneg (not_le.mpr (Extended.bot_lt _))
      | value hy =>
          have hfx : f.HasValue _ := hu ▸ hx
          have hgy : g.HasValue _ := hw ▸ hy
          exact hfx.sub_le hgy (Extended.coe_le_coe.mp hnonneg)
      | positiveInfinity =>
          apply sub_le_of_negativeInfinity hf
          rw [hu, hw]
          rcases hx.cases with ⟨_, rfl, -⟩ | ⟨_, m, e, hm, rfl, -⟩ <;> rfl

end Float
