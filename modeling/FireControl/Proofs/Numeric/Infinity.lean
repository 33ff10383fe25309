import FireControl.Proofs.Numeric.Single
import Mathlib.Order.WithBot

/-!
# Infinity and NaN

A number that is not NaN is a rational number or one of two infinities, and it is ordered as such,
in single precision as in any other format. What the order of numbers with a value leaves open is
then no longer a matter of kinds and signs: comparison is transitive wherever it comes out true.

Arithmetic gets out of the finite numbers but not back into them. A sum, a difference or a product
is finite only where both operands are, so an infinite or undefined number that enters a chain of
operations is still seen at its end.

## Main definitions

* `Float32.Extended`: The rational numbers and two infinities.
* `UnpackedFloat.Stands`, `Float32.Stands`: A number and what it stands for.

## Theorems

* `isFinite_of_add`, `isFinite_of_sub`, `isFinite_of_mul`: Operands of a finite result are finite.
* `HasValue.isFinite_mul_iff`: When a product is finite.
* `UnpackedFloat.Stands.compare_eq`: The order of what is not NaN.
* `le_trans`, `lt_of_lt_of_le`, `isFinite_of_between`: Comparison is transitive.
* `HasValue.le_pack`, `HasValue.pack_le`: Overflow does not exchange two numbers.
* `exists_hasValue_one_div`: The inverse of what is at least one.
* `HasValue.le_add`, `HasValue.sub_le`, `add_nonneg`: Sums and differences with a number that is not
  negative.
* `not_isNaN_add`: A finite number does not turn another number into NaN.
-/

namespace Float.Model.UnpackedFloat

variable {F : Format} {u w : UnpackedFloat}

theorem isFinite_of_add (h : (add F u w).isFinite = true) :
    u.isFinite = true ∧ w.isFinite = true := by
  rcases u with (_ | _) | _ | _ | _ <;> rcases w with (_ | _) | _ | _ | _
  all_goals first
    | exact ⟨rfl, rfl⟩
    | exact absurd h Bool.false_ne_true

theorem isFinite_of_sub (h : (sub F u w).isFinite = true) :
    u.isFinite = true ∧ w.isFinite = true := by
  rcases u with (_ | _) | _ | _ | _ <;> rcases w with (_ | _) | _ | _ | _
  all_goals first
    | exact ⟨rfl, rfl⟩
    | exact absurd h Bool.false_ne_true

theorem isFinite_of_mul (h : (mul F u w).isFinite = true) :
    u.isFinite = true ∧ w.isFinite = true := by
  rcases u with _ | _ | _ | _ <;> rcases w with _ | _ | _ | _
  all_goals first
    | exact ⟨rfl, rfl⟩
    | exact absurd h Bool.false_ne_true

end Float.Model.UnpackedFloat

open Float.Model FireControl

namespace Float32

/-- The rational numbers and two infinities. -/
abbrev Extended := WithBot (WithTop ℚ)

namespace Extended

theorem bot_lt (x : ℚ) : (⊥ : Extended) < ((x : WithTop ℚ) : Extended) :=
  WithBot.bot_lt_coe _

theorem lt_top (x : ℚ) : ((x : WithTop ℚ) : Extended) < ⊤ :=
  WithBot.coe_lt_coe.mpr (WithTop.coe_lt_top x)

theorem coe_le_coe {x y : ℚ} :
    ((x : WithTop ℚ) : Extended) ≤ ((y : WithTop ℚ) : Extended) ↔ x ≤ y :=
  WithBot.coe_le_coe.trans WithTop.coe_le_coe

theorem compare_coe (x y : ℚ) :
    compare ((x : WithTop ℚ) : Extended) ((y : WithTop ℚ) : Extended) = compare x y := by
  rcases lt_trichotomy x y with hlt | rfl | hgt
  · rw [compare_lt_iff_lt.mpr hlt, compare_lt_iff_lt]
    exact WithBot.coe_lt_coe.mpr (WithTop.coe_lt_coe.mpr hlt)
  · rw [compare_eq_iff_eq.mpr rfl, compare_eq_iff_eq.mpr rfl]
  · rw [compare_gt_iff_gt.mpr hgt, compare_gt_iff_gt]
    exact WithBot.coe_lt_coe.mpr (WithTop.coe_lt_coe.mpr hgt)

end Extended

end Float32

namespace Float.Model.UnpackedFloat

open Float32 (Extended)

/-- An unpacked number that is not NaN stands for a rational number or an infinity. -/
inductive Stands (F : Format) : UnpackedFloat → Extended → Prop
  | negativeInfinity : Stands F (.infinity .negative) ⊥
  | value {u : UnpackedFloat} {x : ℚ} (h : u.HasValue F x) :
      Stands F u ((x : WithTop ℚ) : Extended)
  | positiveInfinity : Stands F (.infinity .positive) ⊤

variable {F : Format} {u w : UnpackedFloat} {a b : Extended} {x : ℚ}

theorem compare_negativeInfinity (hx : u.HasValue F x) :
    u.compare (.infinity .negative) = some .gt ∧
      (UnpackedFloat.infinity .negative).compare u = some .lt := by
  rcases hx.cases with ⟨_ | _, rfl, -⟩ | ⟨_ | _, m, e, hm, rfl, -⟩ <;> exact ⟨rfl, rfl⟩

theorem compare_positiveInfinity (hx : u.HasValue F x) :
    u.compare (.infinity .positive) = some .lt ∧
      (UnpackedFloat.infinity .positive).compare u = some .gt := by
  rcases hx.cases with ⟨_ | _, rfl, -⟩ | ⟨_ | _, m, e, hm, rfl, -⟩ <;> exact ⟨rfl, rfl⟩

/-- What is not NaN is compared as what it stands for. -/
theorem Stands.compare_eq (hu : u.Stands F a) (hw : w.Stands F b) :
    u.compare w = some (compare a b) := by
  -- The unpacked comparison and the one of `Extended` agree on each of the nine pairs.
  cases hu with
  | negativeInfinity =>
      cases hw with
      | negativeInfinity => rw [compare_eq_iff_eq.mpr rfl]; rfl
      | value hy =>
          rw [(compare_negativeInfinity hy).2, compare_lt_iff_lt.mpr (Extended.bot_lt _)]
      | positiveInfinity => rw [compare_lt_iff_lt.mpr bot_lt_top]; rfl
  | value hx =>
      cases hw with
      | negativeInfinity =>
          rw [(compare_negativeInfinity hx).1, compare_gt_iff_gt.mpr (Extended.bot_lt _)]
      | value hy => rw [compare_of_hasValue hx hy, Extended.compare_coe]
      | positiveInfinity =>
          rw [(compare_positiveInfinity hx).1, compare_lt_iff_lt.mpr (Extended.lt_top _)]
  | positiveInfinity =>
      cases hw with
      | negativeInfinity => rw [compare_gt_iff_gt.mpr bot_lt_top]; rfl
      | value hy =>
          rw [(compare_positiveInfinity hy).2, compare_gt_iff_gt.mpr (Extended.lt_top _)]
      | positiveInfinity => rw [compare_eq_iff_eq.mpr rfl]; rfl

end Float.Model.UnpackedFloat

namespace Float32

/-- A number that is not NaN stands for a rational number or an infinity. -/
inductive Stands (f : Float32) : Extended → Prop
  | negativeInfinity (h : f.toModel.unpack = .infinity .negative) : Stands f ⊥
  | value {x : ℚ} (h : f.HasValue x) : Stands f ((x : WithTop ℚ) : Extended)
  | positiveInfinity (h : f.toModel.unpack = .infinity .positive) : Stands f ⊤

variable {f g h : Float32} {a b : Extended} {x y : ℚ}

/-! ### Finite results -/

/-- What is not finite comes out of its packed form as it went in. -/
theorem unpack_pack_of_not_finite {u : UnpackedFloat} (h : u.isFinite = false) :
    (ofModel (.pack u)).toModel.unpack = u := by
  cases u with
  | zero s => exact absurd h.symm Bool.false_ne_true
  | finite s m e hm => exact absurd h.symm Bool.false_ne_true
  | notANumber => rfl
  | infinity s => cases s <;> rfl

theorem isFinite_of_pack {u : UnpackedFloat} (h : (ofModel (.pack u)).isFinite = true) :
    u.isFinite = true := by
  by_contra hnot
  change (ofModel (.pack u)).toModel.unpack.isFinite = true at h
  rw [unpack_pack_of_not_finite (Bool.not_eq_true _ ▸ hnot)] at h
  exact hnot h

theorem isFinite_of_add (h : (f + g).isFinite = true) : f.isFinite = true ∧ g.isFinite = true :=
  UnpackedFloat.isFinite_of_add (isFinite_of_pack h)

theorem isFinite_of_sub (h : (f - g).isFinite = true) : f.isFinite = true ∧ g.isFinite = true :=
  UnpackedFloat.isFinite_of_sub (isFinite_of_pack h)

theorem isFinite_of_mul (h : (f * g).isFinite = true) : f.isFinite = true ∧ g.isFinite = true :=
  UnpackedFloat.isFinite_of_mul (isFinite_of_pack h)

/-- A number that reaches the limit is packed to an infinity. -/
theorem unpack_pack_of_limit_le {u : UnpackedFloat} (h : u.HasValue .binary32 x)
    (hle : Format.binary32.limit ≤ |x|) :
    ∃ s : UnpackedFloat.Sign, (ofModel (.pack u)).toModel.unpack = .infinity s ∧
      s.applied |x| = x := by
  rcases h with ⟨s, hcarries, happlied⟩
  exact ⟨s, UnpackedFloat.unpack_pack_of_limit_le hcarries (by decide) hle, happlied⟩

theorem isFinite_pack_iff {u : UnpackedFloat} (h : u.HasValue .binary32 x) :
    (ofModel (.pack u)).isFinite = true ↔ |x| < Format.binary32.limit := by
  constructor
  · intro hfinite
    by_contra hle
    rcases unpack_pack_of_limit_le h (not_lt.mp hle) with ⟨s, hunpack, -⟩
    change (ofModel (.pack u)).toModel.unpack.isFinite = true at hfinite
    rw [hunpack] at hfinite
    exact absurd hfinite Bool.false_ne_true
  · exact fun hlt => (hasValue_pack h hlt).isFinite

theorem HasValue.isFinite_mul_iff (hx : f.HasValue x) (hy : g.HasValue y) :
    (f * g).isFinite = true ↔ |Format.binary32.rounded (x * y)| < Format.binary32.limit :=
  isFinite_pack_iff (UnpackedFloat.mul_hasValue hx hy (by decide))

/-! ### The order -/

theorem exists_stands (h : f.isNaN = false) : ∃ a, f.Stands a := by
  -- Bit pattern by bit pattern: only the NaNs stand for nothing.
  cases hu : f.toModel.unpack with
  | notANumber =>
      change f.toModel.unpack.isNaN = false at h
      rw [hu] at h
      exact absurd h.symm Bool.false_ne_true
  | infinity s =>
      cases s with
      | negative => exact ⟨_, .negativeInfinity hu⟩
      | positive => exact ⟨_, .positiveInfinity hu⟩
  | zero s =>
      have hvalue : f.HasValue 0 := by
        rw [HasValue, hu]
        exact UnpackedFloat.hasValue_zero_iff.mpr rfl
      exact ⟨_, .value hvalue⟩
  | finite s m e hm => exact ⟨_, .value (hasValue_of_unpack hm hu)⟩

theorem Stands.unpacked (hf : f.Stands a) : f.toModel.unpack.Stands .binary32 a := by
  cases hf with
  | negativeInfinity h => exact h ▸ .negativeInfinity
  | value h => exact .value h
  | positiveInfinity h => exact h ▸ .positiveInfinity

theorem Stands.order_eq (hf : f.Stands a) (hg : g.Stands b) : f.order g = some (compare a b) :=
  hf.unpacked.compare_eq hg.unpacked

theorem Stands.lt_iff (hf : f.Stands a) (hg : g.Stands b) : f < g ↔ a < b := by
  rw [lt_iff_order, hf.order_eq hg, Option.some_inj, compare_lt_iff_lt]

theorem Stands.le_iff (hf : f.Stands a) (hg : g.Stands b) : f ≤ g ↔ a ≤ b := by
  rw [le_iff_order, hf.order_eq hg, Option.some_inj, Option.some_inj, compare_lt_iff_lt,
    compare_eq_iff_eq, le_iff_lt_or_eq]

theorem le_trans (hfg : f ≤ g) (hgh : g ≤ h) : f ≤ h := by
  -- A comparison that comes out true has no NaN on either side.
  rcases not_isNaN_of_le hfg with ⟨hf, hg⟩
  rcases exists_stands hf with ⟨a, ha⟩
  rcases exists_stands hg with ⟨b, hb⟩
  rcases exists_stands (not_isNaN_of_le hgh).2 with ⟨c, hc⟩
  rw [ha.le_iff hb] at hfg
  rw [hb.le_iff hc] at hgh
  rw [ha.le_iff hc]
  exact hfg.trans hgh

theorem lt_of_lt_of_le (hfg : f < g) (hgh : g ≤ h) : f < h := by
  rcases exists_stands (not_isNaN_of_le (le_of_lt hfg)).1 with ⟨a, ha⟩
  rcases exists_stands (not_isNaN_of_le hgh).1 with ⟨b, hb⟩
  rcases exists_stands (not_isNaN_of_le hgh).2 with ⟨c, hc⟩
  rw [ha.lt_iff hb] at hfg
  rw [hb.le_iff hc] at hgh
  rw [ha.lt_iff hc]
  exact hfg.trans_le hgh

/-- A finite number is between any two infinities. -/
theorem isFinite_of_between {low high : Float32} (hlow : low.isFinite = true)
    (hhigh : high.isFinite = true) (habove : low ≤ f) (hbelow : f ≤ high) : f.isFinite = true := by
  rcases exists_hasValue hlow with ⟨x, hx, -⟩
  rcases exists_hasValue hhigh with ⟨y, hy, -⟩
  rcases exists_stands (not_isNaN_of_le hbelow).1 with ⟨a, ha⟩
  rw [(Stands.value hx).le_iff ha] at habove
  rw [ha.le_iff (Stands.value hy)] at hbelow
  cases ha with
  | negativeInfinity h => exact absurd habove (not_le.mpr (Extended.bot_lt _))
  | value h => exact h.isFinite
  | positiveInfinity h => exact absurd hbelow (not_le.mpr (Extended.lt_top _))

theorem HasValue.not_isNaN (hx : f.HasValue x) : f.isNaN = false :=
  (not_isNaN_of_le ((hx.le_iff hx).mpr le_rfl)).1

/-- What has a value may overflow, but it is not packed to NaN. -/
theorem not_isNaN_pack {u : UnpackedFloat} (hu : u.HasValue .binary32 x) :
    (ofModel (.pack u)).isNaN = false := by
  by_cases hlt : |x| < Format.binary32.limit
  · exact (hasValue_pack hu hlt).not_isNaN
  · rcases unpack_pack_of_limit_le hu (not_lt.mp hlt) with ⟨s, hunpack, -⟩
    change (ofModel (.pack u)).toModel.unpack.isNaN = false
    rw [hunpack]
    rfl

/-- Finite numbers have a product and a difference that are not NaN. -/
theorem HasValue.not_isNaN_mul (hx : f.HasValue x) (hy : g.HasValue y) : (f * g).isNaN = false :=
  not_isNaN_pack (UnpackedFloat.mul_hasValue hx hy (by decide))

theorem HasValue.isNaN_sub (hx : f.HasValue x) (hg : g.toModel.unpack = .notANumber) :
    (f - g).isNaN = true := by
  have hsub : UnpackedFloat.sub .binary32 f.toModel.unpack g.toModel.unpack = .notANumber := by
    rw [hg]
    rcases UnpackedFloat.HasValue.cases hx with ⟨_, hf, -⟩ | ⟨_, m, e, hm, hf, -⟩
    all_goals
      rw [hf]
      rfl
  have hunpack : (f - g).toModel.unpack = _ := unpack_pack_of_not_finite (by rw [hsub]; rfl)
  change (f - g).toModel.unpack.isNaN = true
  rw [hunpack, hsub]
  rfl

/-- A difference from negative infinity is above every number with a value. -/
theorem HasValue.lt_sub (hy : h.HasValue y) (hx : f.HasValue x)
    (hg : g.toModel.unpack = .infinity .negative) : h < f - g := by
  have hsub : UnpackedFloat.sub .binary32 f.toModel.unpack g.toModel.unpack =
      .infinity .positive := by
    rw [hg]
    rcases UnpackedFloat.HasValue.cases hx with ⟨_, hf, -⟩ | ⟨_, m, e, hm, hf, -⟩
    all_goals
      rw [hf]
      rfl
  have hunpack : (f - g).toModel.unpack = _ := unpack_pack_of_not_finite (by rw [hsub]; rfl)
  rw [hsub] at hunpack
  rw [(Stands.value hy).lt_iff (.positiveInfinity hunpack)]
  exact Extended.lt_top _

/-- Packing keeps a number above another, since it only overflows upwards from there. -/
theorem HasValue.le_pack {u : UnpackedFloat} (hx : f.HasValue x) (hu : u.HasValue .binary32 y)
    (hle : x ≤ y) : f ≤ ofModel (.pack u) := by
  by_cases hlt : |y| < Format.binary32.limit
  · exact (hx.le_iff (hasValue_pack hu hlt)).mpr hle
  · rcases unpack_pack_of_limit_le hu (not_lt.mp hlt) with ⟨s, hunpack, happlied⟩
    cases s with
    | negative =>
        -- An overflow downwards would be below all numbers of the format.
        have hbelow := (abs_lt.mp hx.lt_limit).1
        have hreach := not_lt.mp hlt
        simp only [UnpackedFloat.Sign.applied] at happlied
        linarith
    | positive =>
        have htop : (ofModel (.pack u)).Stands ⊤ := .positiveInfinity hunpack
        exact ((Stands.value hx).le_iff htop).mpr le_top

/-- Packing keeps a number below another, since it only overflows downwards from there. -/
theorem HasValue.pack_le {u : UnpackedFloat} (hx : f.HasValue x) (hu : u.HasValue .binary32 y)
    (hle : y ≤ x) : ofModel (.pack u) ≤ f := by
  -- At the limit the pack overflows; to +∞ it cannot, for `y` is below the value of `f`.
  by_cases hlt : |y| < Format.binary32.limit
  · exact ((hasValue_pack hu hlt).le_iff hx).mpr hle
  · rcases unpack_pack_of_limit_le hu (not_lt.mp hlt) with ⟨s, hunpack, happlied⟩
    cases s with
    | negative =>
        have hbottom : (ofModel (.pack u)).Stands ⊥ := .negativeInfinity hunpack
        exact (hbottom.le_iff (.value hx)).mpr bot_le
    | positive =>
        have habove := (abs_lt.mp hx.lt_limit).2
        have hreach := not_lt.mp hlt
        simp only [UnpackedFloat.Sign.applied] at happlied
        linarith

/-- The number nearest to a positive integer is at least one. -/
theorem one_le_ofInteger {n : ℤ} (h : 1 ≤ n) : 1 ≤ ofInteger n := by
  have hnormal := UnpackedFloat.normalize_hasValue (F := .binary32) n 0 .positive
  rw [zpow_zero, mul_one] at hnormal
  refine hasValue_one.le_pack hnormal ?_
  exact hasValue_one.rounded.symm.trans_le (Format.rounded_mono (by exact_mod_cast h))

/-- What is at least one has an inverse between zero and one. -/
theorem exists_hasValue_one_div (h : 1 ≤ f) : ∃ x : ℚ, 0 ≤ x ∧ (1 / f).HasValue x := by
  rcases exists_stands (not_isNaN_of_le h).2 with ⟨a, ha⟩
  rw [(Stands.value hasValue_one).le_iff ha] at h
  cases ha with
  | negativeInfinity _ => exact absurd h (not_le.mpr (Extended.bot_lt _))
  | @value x hx =>
      have hle : 1 ≤ x := Extended.coe_le_coe.mp h
      have hpos : 0 < x := zero_lt_one.trans_le hle
      have hinverse : |1 / x| < 2 ^ 128 - 2 ^ 103 := by
        rw [abs_of_pos (one_div_pos.mpr hpos)]
        exact ((div_le_one hpos).mpr hle).trans_lt (by norm_num)
      exact ⟨_, Format.rounded_nonneg (one_div_pos.mpr hpos).le,
        hasValue_one.div hx hpos.ne' (abs_rounded_lt_limit hinverse)⟩
  | positiveInfinity hf =>
      -- The inverse of an infinity is zero, and exactly so.
      have hquotient : (ofModel (.pack (UnpackedFloat.div .binary32 (1 : Float32).toModel.unpack
          f.toModel.unpack))).HasValue 0 := by
        rw [hf]
        exact hasValue_zero
      exact ⟨0, le_rfl, hquotient⟩

/-! ### Sums -/

variable {s : UnpackedFloat.Sign}

theorem unpack_add_of_infinity
    (h : UnpackedFloat.add .binary32 f.toModel.unpack g.toModel.unpack = .infinity s) :
    (f + g).toModel.unpack = .infinity s := by
  have hunpack : (f + g).toModel.unpack = _ := unpack_pack_of_not_finite (by rw [h]; rfl)
  rwa [h] at hunpack

theorem unpack_infinity_add (hf : f.toModel.unpack = .infinity s) (hy : g.HasValue y) :
    (f + g).toModel.unpack = .infinity s := by
  apply unpack_add_of_infinity
  rw [hf]
  rcases UnpackedFloat.HasValue.cases hy with ⟨_, hg, -⟩ | ⟨_, m, e, hm, hg, -⟩
  all_goals
    rw [hg]
    rfl

/-- A sum with a number that is not negative is not smaller. -/
theorem HasValue.le_add (hy : g.HasValue y) (hnonneg : 0 ≤ y) (hf : f.isNaN = false) :
    f ≤ f + g := by
  rcases exists_stands hf with ⟨a, ha⟩
  -- An infinity absorbs the finite summand; a finite sum is rounded, and rounding is monotone.
  cases ha with
  | negativeInfinity h =>
      have hsum : (f + g).Stands ⊥ := .negativeInfinity (unpack_infinity_add h hy)
      exact ((Stands.negativeInfinity h).le_iff hsum).mpr le_rfl
  | positiveInfinity h =>
      have hsum := Stands.positiveInfinity (unpack_infinity_add h hy)
      exact ((Stands.positiveInfinity h).le_iff hsum).mpr le_rfl
  | value hx =>
      refine hx.le_pack (UnpackedFloat.add_hasValue hx hy) ?_
      exact hx.rounded.symm.trans_le (Format.rounded_mono (le_add_of_nonneg_right hnonneg))

/-- A difference from a number that is not negative is not greater. -/
theorem HasValue.sub_le (hx : f.HasValue x) (hy : g.HasValue y) (hnonneg : 0 ≤ y) : f - g ≤ f := by
  refine hx.pack_le (UnpackedFloat.sub_hasValue hx hy) ?_
  exact (Format.rounded_mono (sub_le_self x hnonneg)).trans_eq hx.rounded

/-- A finite number does not turn another number into NaN. -/
theorem not_isNaN_add (hf : f.isNaN = false) (hg : g.isFinite = true) :
    (f + g).isNaN = false := by
  rcases exists_hasValue hg with ⟨y, hy, -⟩
  rcases exists_stands hf with ⟨a, ha⟩
  change (f + g).toModel.unpack.isNaN = false
  cases ha with
  | negativeInfinity h => rw [unpack_infinity_add h hy]; rfl
  | positiveInfinity h => rw [unpack_infinity_add h hy]; rfl
  | value hx => exact not_isNaN_pack (UnpackedFloat.add_hasValue hx hy)

/-- Numbers that are not negative have a sum that is not negative. -/
theorem add_nonneg (hf : 0 ≤ f) (hg : 0 ≤ g) : 0 ≤ f + g := by
  rcases exists_stands (not_isNaN_of_le hf).2 with ⟨a, ha⟩
  rcases exists_stands (not_isNaN_of_le hg).2 with ⟨b, hb⟩
  have hzero := Stands.value hasValue_zero
  have hb' := (hzero.le_iff hb).mp hg
  cases hb with
  | negativeInfinity h => exact absurd hb' (not_le.mpr (Extended.bot_lt _))
  | value hy =>
      have hnonneg := Extended.coe_le_coe.mp hb'
      exact le_trans hf (hy.le_add hnonneg (not_isNaN_of_le hf).2)
  | positiveInfinity h =>
      have ha' := (hzero.le_iff ha).mp hf
      -- +∞ absorbs every summand but -∞, and `f` is at least 0.
      have hunpack : (f + g).toModel.unpack = .infinity .positive := by
        apply unpack_add_of_infinity
        rw [h]
        cases ha with
        | negativeInfinity h => exact absurd ha' (not_le.mpr (Extended.bot_lt _))
        | positiveInfinity h => rw [h]; rfl
        | value hx =>
            rcases UnpackedFloat.HasValue.cases hx with ⟨_, hu, -⟩ | ⟨_, m, e, hm, hu, -⟩
            all_goals
              rw [hu]
              rfl
      exact (hzero.le_iff (.positiveInfinity hunpack)).mpr le_top

end Float32
