import FireControl.Proofs.Numeric.Products

/-!
# Accumulation in Single Precision

A loop over a list keeps a running maximum or a running sum. What such a loop can hide is a NaN: the
larger of two numbers ignores it, so a maximum over a list says nothing about the members that are
NaN. A sum does not: once it is NaN or infinite it stays so, and a finite sum is one of finite
numbers only.

A sum of numbers that are not negative is at least each of them, also with rounding, because
rounding keeps the order and leaves a number of the format as it is. So what such numbers are
divided by to bring them to a common scale is at least the greatest of them.

## Theorems

* `sub_self`: A finite number less itself is positive zero.
* `isFinite_of_sub_self`, `not_isNaN_of_sub`: What a difference that is not NaN says.
* `not_isNaN_of_abs`: A magnitude that is not NaN is that of a number.
* `sub_le_zero`: A number less a greater one.
* `foldl_maxNum_mem`, `le_foldl_maxNum`: The greatest member of a list.
* `isFinite_of_foldl_add`: The members of a finite sum are finite.
* `le_foldl_add`: A sum of numbers that are not negative is at least each of them.
* `div_within`, `inverse_pos`: Quotients by what is at least one.
-/

namespace Float.Model.UnpackedFloat

variable {F : Format} {u w : UnpackedFloat}

theorem sub_self (h : u.isFinite = true) : sub F u u = .zero .positive := by
  cases u with
  | notANumber => exact absurd h Bool.false_ne_true
  | infinity s => exact absurd h Bool.false_ne_true
  | zero s => cases s <;> rfl
  | finite s m e hm =>
      -- Both mantissas are brought to one exponent and cancel there.
      change normalize F (s.apply (decreaseExponent m e (min e e)).1 -
        s.apply (decreaseExponent m e (min e e)).1) (min e e) .positive = _
      rw [Int.sub_self]
      rfl

theorem sub_self_of_not_finite (h : u.isFinite = false) : sub F u u = .notANumber := by
  cases u with
  | notANumber => rfl
  | infinity s => cases s <;> rfl
  | zero s => exact absurd h.symm Bool.false_ne_true
  | finite s m e hm => exact absurd h.symm Bool.false_ne_true

theorem notANumber_sub (w : UnpackedFloat) : sub F .notANumber w = .notANumber := by
  cases w <;> rfl

end Float.Model.UnpackedFloat

namespace Float32

open Float.Model FireControl

variable {f g : Float32} {x y : ℚ}

/-! ### Differences -/

/-- A finite number less itself is positive zero. -/
theorem sub_self (h : f.isFinite = true) : f - f = 0 := by
  change ofModel (.pack (UnpackedFloat.sub .binary32 f.toModel.unpack f.toModel.unpack)) = 0
  rw [UnpackedFloat.sub_self h]
  rfl

theorem isNaN_sub_of_eq
    (h : UnpackedFloat.sub .binary32 f.toModel.unpack g.toModel.unpack = .notANumber) :
    (f - g).isNaN = true := by
  have hunpack : (f - g).toModel.unpack = _ := unpack_pack_of_not_finite (by rw [h]; rfl)
  change (f - g).toModel.unpack.isNaN = true
  rw [hunpack, h]
  rfl

/-- What is not finite has no difference from itself. -/
theorem isFinite_of_sub_self (h : (f - f).isNaN = false) : f.isFinite = true := by
  by_contra hnot
  have hnan := isNaN_sub_of_eq (f := f) (g := f)
    (UnpackedFloat.sub_self_of_not_finite (Bool.not_eq_true _ ▸ hnot))
  exact absurd (h.symm.trans hnan) Bool.false_ne_true

/-- A NaN has no difference from anything. -/
theorem not_isNaN_of_sub (h : (f - g).isNaN = false) : f.isNaN = false := by
  by_contra hnot
  have hnan := isNaN_sub_of_eq (f := f) (g := g) (by
    rw [unpack_of_isNaN (Bool.not_eq_false _ ▸ hnot)]
    exact UnpackedFloat.notANumber_sub _)
  exact absurd (h.symm.trans hnan) Bool.false_ne_true

/-- A NaN has no size. -/
theorem not_isNaN_of_abs (h : f.abs.isNaN = false) : f.isNaN = false := by
  by_contra hnot
  have hnan := unpack_of_isNaN (Bool.not_eq_false _ ▸ hnot)
  have hunpack : f.abs.toModel.unpack = _ :=
    unpack_pack_of_not_finite (u := f.toModel.unpack.abs) (by rw [hnan]; rfl)
  change f.abs.toModel.unpack.isNaN = false at h
  rw [hunpack, hnan] at h
  exact absurd h.symm Bool.false_ne_true

/-- A number less a greater one that is finite is not positive. -/
theorem sub_le_zero (hle : f ≤ g) (hg : g.isFinite = true) : f - g ≤ 0 := by
  rcases exists_hasValue hg with ⟨y, hy, -⟩
  rcases exists_stands (not_isNaN_of_le hle).1 with ⟨a, ha⟩
  rw [ha.le_iff (.value hy)] at hle
  -- `g` is finite, so `f` can only be -∞ or a value below it.
  cases ha with
  | negativeInfinity h =>
      have hsub : UnpackedFloat.sub .binary32 f.toModel.unpack g.toModel.unpack =
          .infinity .negative := by
        rw [h]
        rcases UnpackedFloat.HasValue.cases hy with ⟨_, hu, -⟩ | ⟨_, m, e, hm, hu, -⟩
        all_goals
          rw [hu]
          rfl
      have hunpack : (f - g).toModel.unpack = _ := unpack_pack_of_not_finite (by rw [hsub]; rfl)
      rw [hsub] at hunpack
      exact ((Stands.negativeInfinity hunpack).le_iff (.value hasValue_zero)).mpr bot_le
  | value hx =>
      refine hasValue_zero.pack_le (UnpackedFloat.sub_hasValue hx hy) ?_
      have hdiff := sub_nonpos_of_le (Extended.coe_le_coe.mp hle)
      exact (Format.rounded_mono hdiff).trans_eq Format.rounded_zero
  | positiveInfinity h => exact absurd hle (not_le.mpr (Extended.lt_top _))

/-! ### The greatest of a list -/

theorem maxNum_eq_or (f g : Float32) : f.maxNum g = f ∨ f.maxNum g = g := by
  unfold maxNum
  split
  · exact Or.inr rfl
  · split
    · exact Or.inr rfl
    · exact Or.inl rfl

/-- A number that is not NaN is at most the larger of it and another, which may be NaN. -/
theorem self_le_maxNum (hf : f.isNaN = false) (g : Float32) : f ≤ f.maxNum g := by
  unfold maxNum
  rw [hf, if_neg Bool.false_ne_true]
  by_cases hlt : f < g
  · rw [if_pos hlt]
    exact le_of_lt hlt
  · rw [if_neg hlt]
    exact le_refl hf

/-- The greatest of a list is one of its members, or the number that the loop began with. -/
theorem foldl_maxNum_mem (xs : List Float32) (start : Float32) :
    xs.foldl maxNum start = start ∨ xs.foldl maxNum start ∈ xs := by
  induction xs generalizing start with
  | nil => exact Or.inl rfl
  | cons x rest ih =>
      rw [List.foldl_cons]
      rcases ih (start.maxNum x) with heq | hmem
      · rw [heq]
        rcases maxNum_eq_or start x with hstart | hx
        · exact Or.inl hstart
        · rw [hx]
          exact Or.inr List.mem_cons_self
      · exact Or.inr (List.mem_cons_of_mem x hmem)

/-- No member is greater, except that a NaN is not compared. -/
theorem le_foldl_maxNum (xs : List Float32) {start : Float32} (hstart : start.isNaN = false) :
    start ≤ xs.foldl maxNum start ∧ ∀ x ∈ xs, x.isNaN = false → x ≤ xs.foldl maxNum start := by
  induction xs generalizing start with
  | nil => exact ⟨le_refl hstart, fun x hx => absurd hx List.not_mem_nil⟩
  | cons x rest ih =>
      have hkept := self_le_maxNum hstart x
      rcases ih (not_isNaN_of_le hkept).2 with ⟨hfirst, hrest⟩
      rw [List.foldl_cons]
      refine ⟨le_trans hkept hfirst, ?_⟩
      rw [List.forall_mem_cons]
      exact ⟨fun hx => le_trans (le_maxNum start hx) hfirst, hrest⟩

/-! ### Sums -/

/-- The members of a finite sum are finite. -/
theorem isFinite_of_foldl_add {xs : List Float32} {start : Float32}
    (h : (xs.foldl (· + ·) start).isFinite = true) :
    start.isFinite = true ∧ ∀ x ∈ xs, x.isFinite = true := by
  induction xs generalizing start with
  | nil => exact ⟨h, fun x hx => absurd hx List.not_mem_nil⟩
  | cons x rest ih =>
      rw [List.foldl_cons] at h
      rcases ih h with ⟨hsum, hrest⟩
      rcases isFinite_of_add hsum with ⟨hstart, hx⟩
      exact ⟨hstart, List.forall_mem_cons.mpr ⟨hx, hrest⟩⟩

theorem HasValue.le_add_left (hx : f.HasValue x) (hy : g.HasValue y) (hnonneg : 0 ≤ y) :
    f ≤ g + f := by
  refine hx.le_pack (UnpackedFloat.add_hasValue hy hx) ?_
  exact hx.rounded.symm.trans_le (Format.rounded_mono (le_add_of_nonneg_left hnonneg))

/-- A finite sum of numbers that are not negative is at least each of them. -/
theorem le_foldl_add {xs : List Float32} {start : Float32}
    (h : (xs.foldl (· + ·) start).isFinite = true) (hstart : 0 ≤ start) (hxs : ∀ x ∈ xs, 0 ≤ x) :
    start ≤ xs.foldl (· + ·) start ∧ ∀ x ∈ xs, x ≤ xs.foldl (· + ·) start := by
  induction xs generalizing start with
  | nil => exact ⟨le_refl (not_isNaN_of_le hstart).2, fun x hx => absurd hx List.not_mem_nil⟩
  | cons x rest ih =>
      rcases List.forall_mem_cons.mp hxs with ⟨hx, hrest⟩
      -- The sum so far is finite because the whole sum is, so both of its parts have a value.
      rcases isFinite_of_foldl_add h with ⟨hfinite, hfiniteRest⟩
      rcases exists_hasValue hfinite with ⟨v, hv, -⟩
      rcases exists_hasValue (List.forall_mem_cons.mp hfiniteRest).1 with ⟨w, hw, -⟩
      have hv0 := (hasValue_zero.le_iff hv).mp hstart
      have hw0 := (hasValue_zero.le_iff hw).mp hx
      rw [List.foldl_cons] at h ⊢
      rcases ih h (add_nonneg hstart hx) hrest with ⟨hsum, hmembers⟩
      refine ⟨le_trans (hw.le_add hw0 (not_isNaN_of_le hstart).2) hsum, ?_⟩
      exact List.forall_mem_cons.mpr ⟨le_trans (hw.le_add_left hv hv0) hsum, hmembers⟩

/-! ### Quotients -/

theorem exists_hasValue_of_one_le (hg : 1 ≤ g) (hfinite : g.isFinite = true) :
    ∃ y, g.HasValue y ∧ 1 ≤ y ∧ y < 2 ^ 128 := by
  rcases exists_hasValue hfinite with ⟨y, hy, hlt⟩
  exact ⟨y, hy, (hasValue_one.le_iff hy).mp hg, lt_of_abs_lt (binary32_limit ▸ hlt)⟩

/-- A number between zero and one stays there when it is divided by what is at least one. -/
theorem div_within (hf : 0 ≤ f ∧ f ≤ 1) (hg : 1 ≤ g) (hfinite : g.isFinite = true) :
    0 ≤ f / g ∧ f / g ≤ 1 := by
  rcases exists_hasValue (isFinite_of_between hasValue_zero.isFinite hasValue_one.isFinite hf.1
    hf.2) with ⟨x, hx, -⟩
  rcases exists_hasValue_of_one_le hg hfinite with ⟨y, hy, hone, -⟩
  have hx0 := (hasValue_zero.le_iff hx).mp hf.1
  have hx1 := (hx.le_iff hasValue_one).mp hf.2
  have hpos : 0 < y := zero_lt_one.trans_le hone
  have hquotient0 : 0 ≤ x / y := div_nonneg hx0 hpos.le
  have hquotient1 : x / y ≤ 1 := (div_le_one hpos).mpr (hx1.trans hone)
  -- The quotient lies within 1 and 1 is representable, so rounding cannot leave the range.
  have habs : |x / y| ≤ 1 := abs_le.mpr ⟨by linarith, hquotient1⟩
  have hrounded := hasValue_one.abs_rounded_le habs
  have hvalue := hx.div hy hpos.ne' (hrounded.trans_lt (by rw [binary32_limit]; norm_num))
  exact ⟨(hasValue_zero.le_iff hvalue).mpr (Format.rounded_nonneg hquotient0),
    (hvalue.le_iff hasValue_one).mpr (le_of_abs_le hrounded)⟩

/-- The inverse of a finite number is never rounded to zero. -/
theorem inverse_pos (hg : 1 ≤ g) (hfinite : g.isFinite = true) : 0 < 1 / g := by
  have hnormal : leastNormal ≤ g := le_trans (by decide +kernel) hg
  exact (inverse_antitone hnormal (le_refl (not_isNaN_of_le hg).2) hfinite).1

end Float32
