import FireControl.Numeric.Pattern
import FireControl.Proofs.Numeric.Infinity

/-!
# Bit Patterns and Their Numbers

The order of the numbers can be read off the bits. Below the sign stand the exponent and then the
fraction, so the bits without the sign count the numbers from zero upwards, the infinity comes after
the last of them, and what is beyond it is no number. A sign turns the order around. The total order
counts in just this way, so it puts numbers in their order, and besides it tells the zeros apart and
gives every NaN a place at the end to which its sign points.

Arithmetic on patterns is arithmetic on the numbers they stand for. All that it adds is which NaN
comes out, and that is more than a number knows.

## Main definitions

* `Pattern.sign`, `Pattern.magnitude`: The sign of a pattern, and its other bits.
* `Pattern.Shape`: What a sign and a magnitude stand for.

## Theorems

* `shape`: What a pattern stands for.
* `isNaN_iff`: A pattern beyond the infinities is a NaN.
* `rank_injective`, `rank_lt_of_lt`, `rank_nan`: The total order is one, it extends the order of the
  numbers, and it has a NaN below them or above them by its sign.
* `number_lift₁`, `number_lift₂`: An operation on patterns is one on numbers.
-/

namespace FireControl.Pattern

open Float.Model UnpackedFloat

variable {p q : Pattern} {x y : Float32}

/-- The sign of a pattern. -/
def sign (p : Pattern) : Sign :=
  if p.bits.toNat < signBit then .positive else .negative

/-- The bits of a pattern without its sign. -/
def magnitude (p : Pattern) : Nat := p.bits.toNat % signBit

/-- The magnitude of the infinities. -/
def infinite : Nat := 0x7F800000

/-- What a sign and a magnitude stand for. -/
inductive Shape (s : Sign) (n : ℕ) : UnpackedFloat → Prop
  | zero (h : n = 0) : Shape s n (.zero s)
  | finite {m : ℕ} {e : ℤ} (hm : 0 < m) (fields : (n : ℤ) = 2 ^ 23 * (e + 149) + m)
      (width : m < 2 ^ 24) (full : 2 ^ 23 ≤ m ∨ e = -149) (least : -149 ≤ e)
      (below : n < infinite) : Shape s n (.finite s m e hm)
  | infinity (h : n = infinite) : Shape s n (.infinity s)
  | notANumber (h : infinite < n) : Shape s n .notANumber

/-! ### Reading the bits -/

theorem exponent_toNat (b : BitVec 32) :
    (@unpackExponent .binary32 b).toNat = b.toNat / 2 ^ 23 % 2 ^ 8 := by
  change (BitVec.extractLsb 30 23 b).toNat = _
  rw [BitVec.extractLsb_toNat, Nat.shiftRight_eq_div_pow]

theorem mantissa_toNat (b : BitVec 32) :
    (@unpackMantissa .binary32 b).toNat = b.toNat % 2 ^ 23 := by
  change (BitVec.extractLsb 22 0 b).toNat = _
  rw [BitVec.extractLsb_toNat, Nat.shiftRight_zero]

theorem sign_eq (p : Pattern) :
    Sign.ofBitVec (@unpackSign .binary32 p.bits.toBitVec) = p.sign := by
  have hlt : p.bits.toNat < 2 ^ 32 := p.bits.toNat_lt
  -- The sign is the bit at place 31, which is set from 2 ^ 31 upwards.
  have hbit : (@unpackSign .binary32 p.bits.toBitVec).toNat = p.bits.toNat / 2 ^ 31 := by
    change (BitVec.extractLsb 31 31 p.bits.toBitVec).toNat = _
    rw [BitVec.extractLsb_toNat, Nat.shiftRight_eq_div_pow, UInt32.toNat_toBitVec]
    omega
  have hclear : @unpackSign .binary32 p.bits.toBitVec = 0#1 ↔ p.bits.toNat < signBit := by
    rw [← BitVec.toNat_inj, hbit, BitVec.toNat_zero, signBit]
    omega
  simp only [Sign.ofBitVec, hclear, sign]

theorem shape_unpack (p : Pattern) :
    Shape p.sign p.magnitude (UnpackedFloat.unpack .binary32 p.bits.toBitVec) := by
  have hlt : p.bits.toNat < 2 ^ 32 := p.bits.toNat_lt
  have hmagnitude : p.magnitude = p.bits.toNat % 2 ^ 31 := rfl
  have hinfinite : infinite = 255 * 2 ^ 23 := rfl
  have hbias : (Format.binary32.exponentBias : ℤ) + Format.binary32.mantissaBitsWithoutImplicit =
    150 := rfl
  have hexponent := exponent_toNat p.bits.toBitVec
  have hones : (-1#_ : BitVec Format.binary32.exponentBits).toNat = 255 := rfl
  have hmantissa := mantissa_toNat p.bits.toBitVec
  have himplicit : (1#1 ++ @unpackMantissa .binary32 p.bits.toBitVec).toNat =
      2 ^ 23 + p.bits.toNat % 2 ^ 23 := hmantissa ▸ append_implicit _
  rw [UInt32.toNat_toBitVec] at hexponent hmantissa
  unfold UnpackedFloat.unpack
  simp only [sign_eq, hbias, ← BitVec.toNat_inj, hexponent, hmantissa, hones, BitVec.toNat_zero]
  -- An exponent of ones is an infinity or a NaN, and an exponent of zeros has no implicit bit.
  split
  · split
    · exact .infinity (by omega)
    · exact .notANumber (by omega)
  · split
    · split
      · exact .zero (by omega)
      · exact .finite _ (by omega) (by omega) (by omega) (by omega) (by omega)
    · exact .finite _ (by omega) (by omega) (by omega) (by omega) (by omega)

/-- The number of a pattern is made of what the pattern is made of. -/
theorem unpack_number (p : Pattern) :
    p.number.toModel.unpack = UnpackedFloat.unpack .binary32 p.bits.toBitVec := by
  change UnpackedFloat.unpack .binary32
    (UnpackedFloat.pack .binary32 (UnpackedFloat.unpack .binary32 p.bits.toBitVec)) = _
  -- Only a NaN is packed to other bits than it came from, and it is a NaN there too.
  cases h : UnpackedFloat.unpack .binary32 p.bits.toBitVec with
  | finite s m e hm =>
      have hcanonical := canonical_of_unpack (F := .binary32) (by decide) h
      exact unpack_pack_finite hm hcanonical.1 hcanonical.2
  | zero s => cases s <;> rfl
  | infinity s => cases s <;> rfl
  | notANumber => rfl

/-- What a pattern stands for. -/
theorem shape (p : Pattern) : Shape p.sign p.magnitude p.number.toModel.unpack :=
  unpack_number p ▸ shape_unpack p

/-- A pattern beyond the infinities is a NaN. -/
theorem isNaN_iff (p : Pattern) : p.number.isNaN = true ↔ infinite < p.magnitude := by
  change p.number.toModel.unpack.isNaN = true ↔ _
  have hshape := shape p
  generalize p.number.toModel.unpack = u at hshape
  cases hshape with
  | zero h => simp [UnpackedFloat.isNaN, h]
  | finite hm fields width full least below => simp [UnpackedFloat.isNaN, below.le]
  | infinity h => simp [UnpackedFloat.isNaN, h]
  | notANumber h => simp [UnpackedFloat.isNaN, h]

/-! ### The total order -/

/-- The place of a pattern by its magnitude. A sign turns the order of the magnitudes around, and it
makes room for a second zero. -/
theorem rank_eq (p : Pattern) :
    p.rank = match p.sign with
      | .positive => (p.magnitude : ℤ)
      | .negative => -(p.magnitude : ℤ) - 1 := by
  have hp : p.bits.toNat < 2 ^ 32 := p.bits.toNat_lt
  unfold rank sign magnitude signBit
  by_cases h : p.bits.toNat < 2147483648
  · simp only [if_pos h]
    omega
  · simp only [if_neg h]
    omega

/-- The total order tells all patterns apart. -/
theorem rank_injective : Function.Injective rank := by
  rintro ⟨a⟩ ⟨b⟩ h
  have ha : a.toNat < 2 ^ 32 := a.toNat_lt
  have hb : b.toNat < 2 ^ 32 := b.toNat_lt
  have hbits : a.toNat = b.toNat := by
    simp only [rank, signBit] at h
    omega
  rw [UInt32.toNat_inj.mp hbits]

/-- Numbers in order have their magnitudes in order, each counted with its sign. -/
theorem Shape.lt_of_compare {s t : Sign} {n k : ℕ} {u v : UnpackedFloat} (hu : Shape s n u)
    (hv : Shape t k v) (h : u.compare v = some .lt) : s.apply n < t.apply k := by
  have hinfinite : infinite = 255 * 2 ^ 23 := rfl
  cases hu <;> cases hv <;> cases s <;> cases t
  all_goals
    simp only [UnpackedFloat.compare, Sign.apply, Option.some_inj, reduceCtorEq] at h ⊢
  -- What is left to read is the comparison of exponents, and then of mantissas.
  all_goals try
    simp only [Ordering.swap_eq_lt, Ordering.then_eq_lt, Ordering.then_eq_gt, compare_lt_iff_lt,
      compare_gt_iff_gt, compare_eq_iff_eq] at h
  all_goals omega

/-- The total order has numbers in their order. -/
theorem rank_lt_of_lt (h : p.number < q.number) : p.rank < q.rank := by
  rw [Float32.lt_iff_order, Float32.order] at h
  have hlt := (shape p).lt_of_compare (shape q) h
  rw [rank_eq, rank_eq]
  cases hp : p.sign <;> cases hq : q.sign <;> rw [hp, hq] at hlt <;>
    simp only [Sign.apply] at hlt ⊢ <;> omega

/-- A NaN lies below all numbers or above all of them, as its sign says. -/
theorem rank_nan (hp : p.number.isNaN = true) (hq : q.number.isNaN = false) :
    (p.sign = .negative → p.rank < q.rank) ∧ (p.sign = .positive → q.rank < p.rank) := by
  rw [isNaN_iff] at hp
  rw [← Bool.not_eq_true, isNaN_iff] at hq
  rw [rank_eq, rank_eq]
  constructor
  all_goals
    intro hs
    rw [hs]
    cases q.sign <;> simp only <;> omega

/-! ### Arithmetic -/

/-- A NaN that is made quiet is still a NaN. -/
theorem isNaN_quiet (h : p.number.isNaN = true) : p.quiet.number.isNaN = true := by
  rw [isNaN_iff] at h ⊢
  refine h.trans_le ?_
  change p.bits.toNat % 2 ^ 31 ≤ (p.bits ||| 0x00400000).toNat % 2 ^ 31
  rw [UInt32.toNat_or, Nat.or_mod_two_pow]
  exact Nat.left_le_or

@[simp] theorem number_ofNumber (x : Float32) : (ofNumber x).number = x :=
  Float32.ofBits_toBits x

theorem number_ofResult (x : Float32) : (ofResult x).number = x := by
  unfold ofResult
  by_cases h : x.isNaN = true
  · rw [if_pos h]
    exact Float32.eq_of_isNaN rfl h
  · rw [if_neg h]
    exact number_ofNumber x

/-- An operation on patterns is one on numbers, if it gives a NaN where its operand is one. -/
theorem number_lift₁ {f : Float32 → Float32} (hf : ∀ x, x.isNaN = true → (f x).isNaN = true)
    (p : Pattern) : (lift₁ f p).number = f p.number := by
  unfold lift₁
  by_cases h : p.number.isNaN = true
  · rw [if_pos h]
    exact Float32.eq_of_isNaN (isNaN_quiet h) (hf _ h)
  · rw [if_neg h]
    exact number_ofResult _

theorem number_lift₂ {f : Float32 → Float32 → Float32}
    (hf : ∀ x y, x.isNaN = true ∨ y.isNaN = true → (f x y).isNaN = true) (p q : Pattern) :
    (lift₂ f p q).number = f p.number q.number := by
  unfold lift₂
  -- A NaN operand is quieted and stays a NaN; as numbers all NaNs are one.
  by_cases hp : p.number.isNaN = true
  · rw [if_pos hp]
    exact Float32.eq_of_isNaN (isNaN_quiet hp) (hf _ _ (Or.inl hp))
  · rw [if_neg hp]
    by_cases hq : q.number.isNaN = true
    · rw [if_pos hq]
      exact Float32.eq_of_isNaN (isNaN_quiet hq) (hf _ _ (Or.inr hq))
    · rw [if_neg hq]
      exact number_ofResult _

/-- A NaN on either side of an operation that hands it on is handed on through the rounding. -/
theorem isNaN_pack {f : UnpackedFloat → UnpackedFloat → UnpackedFloat}
    (left : ∀ v, f .notANumber v = .notANumber) (right : ∀ u, f u .notANumber = .notANumber)
    (h : x.isNaN = true ∨ y.isNaN = true) :
    (Float32.ofModel (.pack (f x.toModel.unpack y.toModel.unpack))).isNaN = true := by
  have hnan : f x.toModel.unpack y.toModel.unpack = .notANumber := by
    rcases h with h | h
    · rw [Float32.unpack_of_isNaN h, left]
    · rw [Float32.unpack_of_isNaN h, right]
  rw [hnan]
  rfl

@[simp] theorem number_add (p q : Pattern) : (p + q).number = p.number + q.number := by
  refine number_lift₂ (fun x y => isNaN_pack (f := UnpackedFloat.add .binary32) ?_ ?_) p q
  · exact fun v => rfl
  · exact fun u => by cases u <;> rfl

@[simp] theorem number_mul (p q : Pattern) : (p * q).number = p.number * q.number := by
  refine number_lift₂ (fun x y => isNaN_pack (f := UnpackedFloat.mul .binary32) ?_ ?_) p q
  · exact fun v => rfl
  · exact fun u => by cases u <;> rfl

@[simp] theorem number_div (p q : Pattern) : (p / q).number = p.number / q.number := by
  refine number_lift₂ (fun x y => isNaN_pack (f := UnpackedFloat.div .binary32) ?_ ?_) p q
  · exact fun v => rfl
  · exact fun u => by cases u <;> rfl

@[simp] theorem number_sqrt (p : Pattern) : p.sqrt.number = p.number.sqrt := by
  refine number_lift₁ (fun x hx => ?_) p
  change (Float32.ofModel (.pack (UnpackedFloat.sqrt .binary32 x.toModel.unpack))).isNaN = true
  rw [Float32.unpack_of_isNaN hx]
  rfl

/-- Patterns added from the left stand for the sum of their numbers. -/
theorem number_foldl_add (ps : List Pattern) (p : Pattern) :
    (ps.foldl (· + ·) p).number = (ps.map number).foldl (· + ·) p.number := by
  induction ps generalizing p with
  | nil => rfl
  | cons q rest ih => rw [List.foldl_cons, ih, number_add, List.map_cons, List.foldl_cons]

end FireControl.Pattern
