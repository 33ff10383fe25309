import FireControl.Numeric.Order

/-!
# The Order of Floating-Point Numbers

Comparison of floating-point numbers is an order on everything but NaN: two numbers that are not NaN
compare one way or the other, and a comparison with NaN comes out false whichever way it is put.
`Float32.order` is the comparison with all four outcomes, and `<` and `≤` are read off it. Two facts
about it are enough for what the turret does with its limits: exchanging the numbers exchanges less
and greater, and there is an outcome exactly when neither number is NaN.

Transitivity is not among them. A larger and a smaller number are each one of the two numbers they
are made of, so a bound that holds of both holds of the result.

## Main definitions

* `Float32.order`: The outcome of a comparison, or none.

## Theorems

* `order_exchange`: Exchanging the numbers exchanges less and greater.
* `order_eq_none_iff`: Only NaN is without order.
* `le_of_not_lt`: Two numbers that are not NaN compare one way or the other.
* `le_maxNum`, `minNum_le`, `le_minNum`: Bounds of a larger and of a smaller number.
* `maxNum_eq_left`, `minNum_eq_left`: When the first number is kept.
* `clampTo_within`: A number brought between bounds is between them, or it is NaN.
* `clampTo_eq_self`, `isNaN_clampTo`, `clampTo_clampTo`: What a clamp leaves as it is.
-/

open Float.Model (UnpackedFloat)

namespace Float32

/-- Exponent and mantissa are compared in the order in which they are written, so exchanging the
numbers exchanges the outcome. -/
theorem compare_magnitudes_exchange (m₁ m₂ : Nat) (e₁ e₂ : Int) :
    (compare e₂ e₁).then (compare m₂ m₁) = ((compare e₁ e₂).then (compare m₁ m₂)).swap := by
  rw [Ordering.swap_then, ← Std.OrientedOrd.eq_swap, ← Std.OrientedOrd.eq_swap]

theorem compare_unpacked_exchange (u v : UnpackedFloat) :
    v.compare u = (u.compare v).map Ordering.swap := by
  rcases u with (_ | _) | _ | (_ | _) | ⟨_ | _, m₁, e₁, _⟩ <;>
    rcases v with (_ | _) | _ | (_ | _) | ⟨_ | _, m₂, e₂, _⟩
  -- Magnitudes decide between two finite numbers of one sign, and the kinds between all others.
  all_goals first
    | rfl
    | exact congrArg some (compare_magnitudes_exchange m₁ m₂ e₁ e₂)
    | exact congrArg (some ·.swap) (compare_magnitudes_exchange m₁ m₂ e₁ e₂)

theorem compare_unpacked_eq_none_iff (u v : UnpackedFloat) :
    u.compare v = none ↔ u.isNaN = true ∨ v.isNaN = true := by
  rcases u with (_ | _) | _ | (_ | _) | ⟨_ | _, m₁, e₁, _⟩ <;>
    rcases v with (_ | _) | _ | (_ | _) | ⟨_ | _, m₂, e₂, _⟩
  all_goals first
    | exact ⟨fun _ => Or.inl rfl, fun _ => rfl⟩
    | exact ⟨fun _ => Or.inr rfl, fun _ => rfl⟩
    | exact ⟨fun h => absurd h (Option.some_ne_none _),
        fun h => h.elim (absurd · Bool.false_ne_true) (absurd · Bool.false_ne_true)⟩

/-- The outcome of a comparison. There is none where one of the numbers is NaN. -/
def order (x y : Float32) : Option Ordering :=
  x.toModel.unpack.compare y.toModel.unpack

theorem order_exchange (x y : Float32) : y.order x = (x.order y).map Ordering.swap :=
  compare_unpacked_exchange x.toModel.unpack y.toModel.unpack

theorem order_eq_none_iff (x y : Float32) :
    x.order y = none ↔ x.isNaN = true ∨ y.isNaN = true :=
  compare_unpacked_eq_none_iff x.toModel.unpack y.toModel.unpack

theorem lt_iff_order {x y : Float32} : x < y ↔ x.order y = some .lt := by
  change decide ((x.order y == some .lt) = true) = true ↔ _
  rw [decide_eq_true_iff, beq_iff_eq]

theorem le_iff_order {x y : Float32} : x ≤ y ↔ x.order y = some .lt ∨ x.order y = some .eq := by
  change decide ((x.order y).any (·.isLE) = true) = true ↔ _
  rw [decide_eq_true_iff]
  cases x.order y with
  | none => simp
  | some outcome => cases outcome <;> simp

variable {x y : Float32}

theorem not_isNaN_of_le (h : x ≤ y) : x.isNaN = false ∧ y.isNaN = false := by
  have hsome : x.order y ≠ none := by
    rcases le_iff_order.mp h with hlt | heq
    · simp [hlt]
    · simp [heq]
  rw [Ne, order_eq_none_iff, not_or, Bool.not_eq_true, Bool.not_eq_true] at hsome
  exact hsome

theorem le_of_lt (h : x < y) : x ≤ y :=
  le_iff_order.mpr (Or.inl (lt_iff_order.mp h))

/-- What is at most another number is not greater. -/
theorem not_lt_of_le (h : x ≤ y) : ¬ y < x := by
  intro hlt
  have hswap := order_exchange y x
  rw [lt_iff_order.mp hlt] at hswap
  rcases le_iff_order.mp h with h | h
  · simp [h] at hswap
  · simp [h] at hswap

/-- Two numbers that are not NaN compare one way or the other. -/
theorem le_of_not_lt (hx : x.isNaN = false) (hy : y.isNaN = false) (h : ¬ x < y) : y ≤ x := by
  rw [le_iff_order, order_exchange x y]
  -- With no NaN the two are ordered, and of the three outcomes only `<` is excluded.
  cases horder : x.order y with
  | none =>
      rcases (order_eq_none_iff x y).mp horder with hnan | hnan
      · exact absurd (hx.symm.trans hnan) Bool.false_ne_true
      · exact absurd (hy.symm.trans hnan) Bool.false_ne_true
  | some outcome =>
      cases outcome with
      | lt => exact absurd (lt_iff_order.mpr horder) h
      | eq => simp
      | gt => simp

/-- A number that is not NaN is at most itself. -/
theorem le_refl (hx : x.isNaN = false) : x ≤ x := by
  by_cases h : x < x
  · exact le_of_lt h
  · exact le_of_not_lt hx hx h

/-- The larger of a number and a bound respects the bound, whatever the number is. -/
theorem le_maxNum (x : Float32) (hy : y.isNaN = false) : y ≤ x.maxNum y := by
  unfold maxNum
  by_cases hnan : x.isNaN = true
  · rw [if_pos hnan]
    exact le_refl hy
  · rw [if_neg hnan]
    by_cases hlt : x < y
    · rw [if_pos hlt]
      exact le_refl hy
    · rw [if_neg hlt]
      exact le_of_not_lt (Bool.not_eq_true _ ▸ hnan) hy hlt

/-- The smaller of a number and a bound respects the bound, whatever the number is. -/
theorem minNum_le (x : Float32) (hy : y.isNaN = false) : x.minNum y ≤ y := by
  unfold minNum
  by_cases hnan : x.isNaN = true
  · rw [if_pos hnan]
    exact le_refl hy
  · rw [if_neg hnan]
    by_cases hlt : y < x
    · rw [if_pos hlt]
      exact le_refl hy
    · rw [if_neg hlt]
      exact le_of_not_lt hy (Bool.not_eq_true _ ▸ hnan) hlt

/-- What is below two numbers is below the smaller of them. -/
theorem le_minNum {z : Float32} (hx : z ≤ x) (hy : z ≤ y) : z ≤ x.minNum y := by
  unfold minNum
  split
  · exact hy
  · split
    · exact hy
    · exact hx

theorem maxNum_eq_left (h : y ≤ x) : x.maxNum y = x := by
  have hnan := (not_isNaN_of_le h).2
  rw [maxNum, hnan, if_neg Bool.false_ne_true, if_neg (not_lt_of_le h)]

theorem minNum_eq_left (h : x ≤ y) : x.minNum y = x := by
  have hnan := (not_isNaN_of_le h).1
  rw [minNum, hnan, if_neg Bool.false_ne_true, if_neg (not_lt_of_le h)]

/-- A number brought between two bounds is between them, or it is NaN. -/
theorem clampTo_within (x : Float32) {low high : Float32} (hle : low ≤ high) :
    (x.clampTo low high).isNaN = true ∨
      (low ≤ x.clampTo low high ∧ x.clampTo low high ≤ high) := by
  rcases not_isNaN_of_le hle with ⟨hlow, hhigh⟩
  unfold clampTo
  -- The outer comparison is with the inner result: below `low` it is `low` that is compared.
  by_cases hbelow : x < low
  · simp only [if_pos hbelow, if_neg (not_lt_of_le hle)]
    exact Or.inr ⟨le_refl hlow, hle⟩
  · simp only [if_neg hbelow]
    by_cases habove : high < x
    · rw [if_pos habove]
      exact Or.inr ⟨hle, le_refl hhigh⟩
    · rw [if_neg habove]
      cases hnan : x.isNaN with
      | true => exact Or.inl rfl
      | false => exact Or.inr ⟨le_of_not_lt hnan hlow hbelow, le_of_not_lt hhigh hnan habove⟩

/-- A number between two bounds is left as it is. -/
theorem clampTo_eq_self {low high : Float32} (lower : low ≤ x) (upper : x ≤ high) :
    x.clampTo low high = x := by
  simp only [clampTo, if_neg (not_lt_of_le lower), if_neg (not_lt_of_le upper)]

/-- A NaN passes a clamp as it is, since no comparison with it comes out true. -/
theorem clampTo_of_isNaN (h : x.isNaN = true) (low high : Float32) : x.clampTo low high = x := by
  have hbelow : ¬ x < low := fun hlt =>
    Bool.false_ne_true ((not_isNaN_of_le (le_of_lt hlt)).1.symm.trans h)
  have habove : ¬ high < x := fun hlt =>
    Bool.false_ne_true ((not_isNaN_of_le (le_of_lt hlt)).2.symm.trans h)
  simp only [clampTo, if_neg hbelow, if_neg habove]

/-- A clamp makes a NaN of nothing else. -/
theorem isNaN_clampTo (x : Float32) {low high : Float32} (hle : low ≤ high) :
    (x.clampTo low high).isNaN = x.isNaN := by
  cases hnan : x.isNaN with
  | true => rw [clampTo_of_isNaN hnan, hnan]
  | false =>
      rcases not_isNaN_of_le hle with ⟨hlow, hhigh⟩
      unfold clampTo
      by_cases hbelow : x < low
      · simp only [if_pos hbelow, if_neg (not_lt_of_le hle)]
        exact hlow
      · simp only [if_neg hbelow]
        by_cases habove : high < x
        · rwa [if_pos habove]
        · rwa [if_neg habove]

/-- Clamping twice is clamping once. -/
theorem clampTo_clampTo (x : Float32) {low high : Float32} (hle : low ≤ high) :
    (x.clampTo low high).clampTo low high = x.clampTo low high := by
  rcases clampTo_within x hle with hnan | ⟨lower, upper⟩
  · exact clampTo_of_isNaN hnan low high
  · exact clampTo_eq_self lower upper

end Float32
