import FireControl.Decimal.Shortest
import FireControl.Proofs.Numeric.Interval

/-!
# The Shortest Decimal Reads Back

A shortest decimal is looked for on coarser grids first, and the first grid with a neighbour of the
number among the reals that round to it gives the answer. Two facts about the answer matter to a
reader. It rounds to the number again, in the format that it was made for. And where the mantissa is
odd, so that the reals that round to the number lie symmetrically around it, the answer is the
point of its grid that is nearest to the number; a reader that goes through another format depends
on that.

That there is an answer at all follows from the finest grid, which has a point in every quarter of
the last place.

All tests are made on integers over a common denominator. `Binary.scale` is that denominator, and
with it each of them is a statement about rational numbers.

## Main definitions

* `Decimal.value`, `Binary.value`: The number that is meant.
* `Binary.scale`: The common denominator of a binary and a decimal grid.
* `Binary.Covers`: The numbers that round to a binary number.

## Theorems

* `Decimal.value_trimmed`: Trailing zeros do not count.
* `Binary.readsBack_iff`: What it means that a point of a grid reads back.
* `Binary.exists_shortest`: What is known of the shortest decimal.
* `Binary.rounded_shortest`: The shortest decimal rounds to the number.
-/

namespace FireControl

open Float.Model (Format)

/-- A power with a negative exponent leaves one of its factors to a natural exponent. -/
theorem zpow_mul_pow_toNat {a : ℚ} (ha : a ≠ 0) (k : ℤ) : a ^ k * a ^ (-k).toNat = a ^ k.toNat := by
  rw [← zpow_natCast, ← zpow_natCast, ← zpow_add₀ ha]
  congr 1
  omega

/-- The number that a decimal means. -/
def Decimal.value (d : Decimal) : ℚ :=
  d.significand * 10 ^ d.exponent

theorem Decimal.value_trimZeros (fuel n : ℕ) (e : ℤ) :
    (Decimal.trimZeros fuel n e).value = n * 10 ^ e := by
  induction fuel generalizing n e with
  | zero => rfl
  | succ fuel ih =>
      unfold Decimal.trimZeros
      split
      · rename_i h
        have hn : (n : ℚ) = (n / 10 : ℕ) * 10 := by
          exact_mod_cast (Nat.div_mul_cancel (Nat.dvd_of_mod_eq_zero h.2)).symm
        rw [ih, hn, zpow_add_one₀ (by norm_num)]
        ring
      · rfl

/-- Trailing zeros do not count. -/
theorem Decimal.value_trimmed (d : Decimal) : d.trimmed.value = d.value :=
  Decimal.value_trimZeros _ _ _

namespace Binary

variable {b : Binary} {k : ℤ}

/-- The number that is meant. -/
def value (b : Binary) : ℚ :=
  b.mantissa * 2 ^ b.exponent

/-- The common denominator of quarters of the last place and a grid of decimals. -/
def scale (b : Binary) (k : ℤ) : ℚ :=
  2 ^ (2 - b.exponent).toNat * 10 ^ (-k).toNat

theorem scale_pos (b : Binary) (k : ℤ) : 0 < b.scale k := by
  unfold scale
  positivity

theorem scaledPoint_eq (b : Binary) (k : ℤ) (n : ℕ) :
    (b.scaledPoint k n : ℚ) = n * 10 ^ k * b.scale k := by
  unfold scaledPoint scale
  rw [Nat.pow_eq, Nat.pow_eq]
  push_cast
  rw [← zpow_mul_pow_toNat (by norm_num) k]
  ring

theorem scaledQuarters_eq (b : Binary) (k : ℤ) (n : ℕ) :
    (b.scaledQuarters k n : ℚ) = n / 4 * 2 ^ b.exponent * b.scale k := by
  have hpow := zpow_mul_pow_toNat (two_ne_zero (α := ℚ)) (b.exponent - 2)
  rw [neg_sub, zpow_sub₀ two_ne_zero] at hpow
  unfold scaledQuarters scale
  rw [Nat.pow_eq, Nat.pow_eq]
  push_cast
  linear_combination (-(n : ℚ) * 10 ^ (-k).toNat) * hpow

/-- The numbers that round to a binary number: its ends are among them where the mantissa is
even. -/
structure Covers (b : Binary) (x : ℚ) : Prop where
  low_le : (b.low : ℚ) / 4 * 2 ^ b.exponent ≤ x
  le_high : x ≤ (b.high : ℚ) / 4 * 2 ^ b.exponent
  strict : b.closed = false →
    (b.low : ℚ) / 4 * 2 ^ b.exponent < x ∧ x < (b.high : ℚ) / 4 * 2 ^ b.exponent

/-- What it means that a point of a grid reads back. -/
theorem readsBack_iff {n : ℕ} : b.readsBack k n = true ↔ b.Covers (n * 10 ^ k) := by
  have hscale := b.scale_pos k
  -- The denominator drops out of each of the four comparisons.
  have hle (x y : ℚ) : x * b.scale k ≤ y * b.scale k ↔ x ≤ y := mul_le_mul_iff_left₀ hscale
  have hlt (x y : ℚ) : x * b.scale k < y * b.scale k ↔ x < y := mul_lt_mul_iff_left₀ hscale
  have hlow : (b.scaledQuarters k b.low ≤ b.scaledPoint k n ↔
        (b.low : ℚ) / 4 * 2 ^ b.exponent ≤ n * 10 ^ k) ∧
      (b.scaledQuarters k b.low < b.scaledPoint k n ↔
        (b.low : ℚ) / 4 * 2 ^ b.exponent < n * 10 ^ k) := by
    rw [← hle, ← hlt, ← scaledPoint_eq, ← scaledQuarters_eq, Nat.cast_le, Nat.cast_lt]
    exact ⟨Iff.rfl, Iff.rfl⟩
  have hhigh : (b.scaledPoint k n ≤ b.scaledQuarters k b.high ↔
        (n : ℚ) * 10 ^ k ≤ b.high / 4 * 2 ^ b.exponent) ∧
      (b.scaledPoint k n < b.scaledQuarters k b.high ↔
        (n : ℚ) * 10 ^ k < b.high / 4 * 2 ^ b.exponent) := by
    rw [← hle, ← hlt, ← scaledPoint_eq, ← scaledQuarters_eq, Nat.cast_le, Nat.cast_lt]
    exact ⟨Iff.rfl, Iff.rfl⟩
  unfold readsBack
  simp only
  cases hclosed : b.closed with
  | true =>
      rw [if_pos rfl, Bool.and_eq_true, decide_eq_true_iff, decide_eq_true_iff, hlow.1, hhigh.1]
      refine ⟨fun h => ⟨h.1, h.2, fun hopen => ?_⟩, fun h => ⟨h.low_le, h.le_high⟩⟩
      rw [hclosed] at hopen
      exact absurd hopen.symm Bool.false_ne_true
  | false =>
      rw [if_neg Bool.false_ne_true, Bool.and_eq_true, decide_eq_true_iff, decide_eq_true_iff,
        hlow.2, hhigh.2]
      exact ⟨fun h => ⟨h.1.le, h.2.le, fun _ => h⟩, fun h => h.strict hclosed⟩

/-- The number lies between the point below it and the next one. -/
theorem below_le (b : Binary) (k : ℤ) :
    (b.below k : ℚ) * 10 ^ k ≤ b.value ∧ b.value < (b.below k + 1 : ℕ) * 10 ^ k := by
  have hscale := b.scale_pos k
  have hone : (b.scaledPoint k 1 : ℚ) = 10 ^ k * b.scale k := by
    rw [scaledPoint_eq, Nat.cast_one, one_mul]
  have hvalue : (b.scaledQuarters k (4 * b.mantissa) : ℚ) = b.value * b.scale k := by
    rw [scaledQuarters_eq, value]
    push_cast
    ring
  have hpos : 0 < b.scaledPoint k 1 := by
    have : (0 : ℚ) < b.scaledPoint k 1 := by
      rw [hone]
      positivity
    exact_mod_cast this
  -- The point below is the quotient of a division by the step of the grid.
  have hle : ((b.below k * b.scaledPoint k 1 : ℕ) : ℚ) ≤ b.scaledQuarters k (4 * b.mantissa) := by
    exact_mod_cast Nat.div_mul_le_self _ _
  have hlt : (b.scaledQuarters k (4 * b.mantissa) : ℚ) <
      ((b.below k + 1) * b.scaledPoint k 1 : ℕ) := by
    exact_mod_cast Nat.lt_mul_of_div_lt (Nat.lt_succ_self _) hpos
  push_cast at hle hlt ⊢
  rw [hone, hvalue, ← mul_assoc] at hle hlt
  exact ⟨le_of_mul_le_mul_right hle hscale, lt_of_mul_lt_mul_right hlt hscale.le⟩

theorem aboveIsNearer_iff :
    b.aboveIsNearer k = true ↔ ((b.below k : ℚ) + 1 / 2) * 10 ^ k ≤ b.value := by
  have hscale := b.scale_pos k
  unfold aboveIsNearer
  rw [decide_eq_true_iff, ← mul_le_mul_iff_left₀ hscale]
  have hpoint := scaledPoint_eq b k (2 * b.below k + 1)
  have hquarters := scaledQuarters_eq b k (4 * b.mantissa)
  have hcast : b.scaledPoint k (2 * b.below k + 1) ≤ 2 * b.scaledQuarters k (4 * b.mantissa) ↔
      (b.scaledPoint k (2 * b.below k + 1) : ℚ) ≤ 2 * b.scaledQuarters k (4 * b.mantissa) := by
    norm_cast
  rw [hcast, hpoint, hquarters, value]
  push_cast
  constructor <;> intro h <;> linarith

/-- What is known of the point of a grid that reads back: with an odd mantissa it is the nearest
one. -/
structure Found (b : Binary) (k : ℤ) (n : ℕ) : Prop where
  covers : b.Covers (n * 10 ^ k)
  nearest : b.closed = false → |(n : ℚ) * 10 ^ k - b.value| ≤ 10 ^ k / 2

theorem closed_eq_false_iff : b.closed = false ↔ b.mantissa % 2 = 1 := by
  unfold closed
  rw [decide_eq_false_iff_not]
  omega

/-- An odd mantissa is no power of two, so the bounds are half of the last place away. -/
theorem low_of_odd (h : b.mantissa % 2 = 1) : (b.low : ℚ) = 4 * b.mantissa - 2 := by
  have hne : b.mantissa ≠ 2 ^ b.format.mantissaBitsWithoutImplicit := by
    intro heq
    have heven : 2 ^ b.format.mantissaBitsWithoutImplicit % 2 = 0 :=
      Nat.mod_eq_zero_of_dvd (dvd_pow_self 2 b.format.hm.ne')
    omega
  have hlow : b.low = 4 * b.mantissa - 2 := by
    unfold low
    rw [Nat.pow_eq]
    exact if_neg fun h => hne h.1
  rw [hlow, Nat.cast_sub (by omega)]
  push_cast
  ring

theorem high_eq (b : Binary) : (b.high : ℚ) = 4 * b.mantissa + 2 := by
  exact_mod_cast rfl

theorem not_covers {x : ℚ} (h : ¬ b.Covers x) :
    x ≤ (b.low : ℚ) / 4 * 2 ^ b.exponent ∨ (b.high : ℚ) / 4 * 2 ^ b.exponent ≤ x := by
  by_contra hinside
  rw [not_or, not_le, not_le] at hinside
  exact h ⟨hinside.1.le, hinside.2.le, fun _ => hinside⟩

/-- With an odd mantissa the bounds are symmetric, so what rounds to the number is not farther from
it than what does not. -/
theorem Covers.abs_sub_le {x y : ℚ} (hx : b.Covers x) (hy : ¬ b.Covers y)
    (hodd : b.closed = false) : |x - b.value| ≤ |y - b.value| := by
  have hmissed := not_covers hy
  have hbelow := hx.low_le
  have habove := hx.le_high
  rw [low_of_odd (closed_eq_false_iff.mp hodd)] at hmissed hbelow
  rw [high_eq] at hmissed habove
  unfold value
  calc |x - b.mantissa * 2 ^ b.exponent| ≤ 2 ^ b.exponent / 2 :=
        abs_le.mpr ⟨by linarith, by linarith⟩
    _ ≤ |y - b.mantissa * 2 ^ b.exponent| := by
      rcases hmissed with hmissed | hmissed
      · exact le_abs.mpr (Or.inr (by linarith))
      · exact le_abs.mpr (Or.inl (by linarith))

/-- A point of a grid that is chosen reads back, and where the mantissa is odd it is the nearest. -/
theorem candidate?_found {d : Decimal} (h : b.candidate? k = some d) :
    ∃ n, d = ⟨n, k⟩ ∧ b.Found k n := by
  rcases below_le b k with ⟨hbelow, habove⟩
  push_cast at habove
  have hgap : ((b.below k : ℚ) + 1) * 10 ^ k = b.below k * 10 ^ k + 10 ^ k := by ring
  have hunit : (0 : ℚ) < 10 ^ k := by positivity
  unfold candidate? at h
  simp only at h
  split at h
  · -- Both neighbours read back, and the nearer one is taken.
    rename_i hlower hupper
    rw [← Option.some.inj h]
    by_cases hnearer : b.aboveIsNearer k = true
    · rw [if_pos hnearer]
      refine ⟨_, rfl, readsBack_iff.mp hupper, fun _ => ?_⟩
      rw [aboveIsNearer_iff] at hnearer
      push_cast
      rw [abs_le]
      constructor <;> linarith
    · rw [if_neg hnearer]
      refine ⟨_, rfl, readsBack_iff.mp hlower, fun _ => ?_⟩
      rw [aboveIsNearer_iff, not_le] at hnearer
      rw [abs_le]
      constructor <;> linarith
  · rename_i hlower hupper
    rw [← Option.some.inj h]
    -- Only one reads back, and with symmetric bounds that is the nearer one.
    refine ⟨_, rfl, readsBack_iff.mp hlower, fun hodd => ?_⟩
    have hmissed := readsBack_iff.not.mp (Bool.not_eq_true _ ▸ hupper)
    have hnearer := (readsBack_iff.mp hlower).abs_sub_le hmissed hodd
    push_cast at hnearer
    rw [abs_of_nonpos (by linarith)] at hnearer ⊢
    rw [abs_of_nonneg (by linarith)] at hnearer
    linarith
  · rename_i hlower hupper
    rw [← Option.some.inj h]
    refine ⟨_, rfl, readsBack_iff.mp hupper, fun hodd => ?_⟩
    have hmissed := readsBack_iff.not.mp (Bool.not_eq_true _ ▸ hlower)
    have hnearer := (readsBack_iff.mp hupper).abs_sub_le hmissed hodd
    push_cast at hnearer ⊢
    rw [abs_of_nonneg (by linarith)] at hnearer ⊢
    rw [abs_of_nonpos (by linarith)] at hnearer
    linarith
  · exact absurd h (Option.some_ne_none d).symm

/-- The first digit of the number is not above it. -/
theorem integerDigits_le (hm : 0 < b.mantissa) : (10 : ℚ) ^ (b.integerDigits - 1) ≤ b.value := by
  unfold integerDigits
  simp only
  generalize hshift : (-b.exponent).toNat = shift
  generalize hn : b.mantissa * Nat.pow 2 b.exponent.toNat * Nat.pow 10 shift / Nat.pow 2 shift = n
  -- The shifted number is exact, since the power of ten makes up for that of two.
  have hexact : (n : ℚ) = b.value * 10 ^ shift := by
    have hfive : Nat.pow 10 shift = 5 ^ shift * 2 ^ shift := by
      rw [Nat.pow_eq, ← Nat.mul_pow]
    rw [hfive, Nat.pow_eq, Nat.pow_eq, ← mul_assoc,
      Nat.mul_div_cancel _ (Nat.two_pow_pos shift)] at hn
    have hten : (10 : ℚ) ^ shift = 5 ^ shift * 2 ^ shift := by
      rw [← mul_pow]
      norm_num
    have htwo : (2 : ℚ) ^ b.exponent * 2 ^ shift = 2 ^ b.exponent.toNat :=
      hshift ▸ zpow_mul_pow_toNat two_ne_zero b.exponent
    rw [← hn, hten, value]
    push_cast
    rw [← htwo]
    ring
  have hpos : 0 < n := by
    have hq : (0 : ℚ) < n := by
      rw [hexact, value]
      have : (0 : ℚ) < b.mantissa := by exact_mod_cast hm
      positivity
    exact_mod_cast hq
  have hdigits : 10 ^ ((Nat.toDigits 10 n).length - 1) ≤ n := by
    rcases Nat.eq_zero_or_pos ((Nat.toDigits 10 n).length - 1) with hzero | hlong
    · rw [hzero]
      exact hpos
    · by_contra hlt
      have hle := (Nat.length_toDigits_le_iff (by norm_num) hlong).mpr (not_le.mp hlt)
      omega
  have hlength := Nat.length_toDigits_pos (b := 10) (n := n)
  have hcast : (10 : ℚ) ^ ((Nat.toDigits 10 n).length - 1) ≤ n := by exact_mod_cast hdigits
  rw [hexact, ← div_le_iff₀ (by positivity)] at hcast
  refine le_of_eq_of_le ?_ hcast
  rw [← zpow_natCast, ← zpow_natCast, ← zpow_sub₀ (by norm_num)]
  congr 1
  omega

/-- The finest grid has a point that reads back. -/
theorem exists_candidate (h : b.format.Canonical b.mantissa b.exponent) :
    ∃ d, b.candidate? (b.integerDigits - 1 - b.format.mantissaBits) = some d := by
  have hbound : (b.mantissa : ℚ) < 2 ^ b.format.mantissaBits := by exact_mod_cast h.lt
  have hpos : (0 : ℚ) < 2 ^ b.exponent := by positivity
  -- A step of the grid is less than a quarter of the last place.
  have hstep : (10 : ℚ) ^ (b.integerDigits - 1 - b.format.mantissaBits) < 2 ^ b.exponent / 4 := by
    have hfour : (4 : ℚ) ≤ 5 ^ b.format.mantissaBits := by
      have hbits : 1 ≤ b.format.mantissaBits := by
        rw [Format.mantissaBits_eq]
        omega
      calc (4 : ℚ) ≤ 5 ^ 1 := by norm_num
        _ ≤ 5 ^ b.format.mantissaBits := pow_le_pow_right₀ (by norm_num) hbits
    have hten : (10 : ℚ) ^ b.format.mantissaBits =
        5 ^ b.format.mantissaBits * 2 ^ b.format.mantissaBits := by
      rw [← mul_pow]
      norm_num
    rw [zpow_sub₀ (by norm_num), zpow_natCast, div_lt_iff₀ (by positivity), hten]
    have hfirst := integerDigits_le h.pos
    unfold value at hfirst
    have htwo : (0 : ℚ) < 2 ^ b.format.mantissaBits := by positivity
    calc (10 : ℚ) ^ (b.integerDigits - 1) ≤ b.mantissa * 2 ^ b.exponent := hfirst
      _ < 2 ^ b.format.mantissaBits * 2 ^ b.exponent := mul_lt_mul_of_pos_right hbound hpos
      _ = 2 ^ b.exponent / 4 * (4 * 2 ^ b.format.mantissaBits) := by ring
      _ ≤ 2 ^ b.exponent / 4 * (5 ^ b.format.mantissaBits * 2 ^ b.format.mantissaBits) := by
        gcongr
  generalize b.integerDigits - 1 - b.format.mantissaBits = k at hstep ⊢
  rcases below_le b k with ⟨hbelow, habove⟩
  push_cast at habove
  have hlow : (b.low : ℚ) ≤ 4 * b.mantissa - 1 := by
    have hnat : b.low + 1 ≤ 4 * b.mantissa := by
      have := h.pos
      unfold low
      simp only
      split <;> omega
    have : (b.low : ℚ) + 1 ≤ 4 * b.mantissa := by exact_mod_cast hnat
    linarith
  have hreads : b.readsBack k (b.below k) = true := by
    have hinside : (b.low : ℚ) / 4 * 2 ^ b.exponent < b.below k * 10 ^ k ∧
        (b.below k : ℚ) * 10 ^ k < b.high / 4 * 2 ^ b.exponent := by
      unfold value at hbelow habove
      rw [high_eq]
      constructor
      · have hscaled : (b.low : ℚ) / 4 * 2 ^ b.exponent ≤
            (4 * b.mantissa - 1) / 4 * 2 ^ b.exponent := by gcongr
        linarith
      · linarith
    exact readsBack_iff.mpr ⟨hinside.1.le, hinside.2.le, fun _ => hinside⟩
  unfold candidate?
  simp only
  rw [hreads]
  cases b.readsBack k (b.below k + 1) with
  | true => exact ⟨_, rfl⟩
  | false => exact ⟨_, rfl⟩

/-- What is known of the shortest decimal: it is a point of a grid that was found. -/
theorem exists_shortest (h : b.format.Canonical b.mantissa b.exponent) :
    ∃ (k : ℤ) (n : ℕ), b.shortest.value = n * 10 ^ k ∧ b.Found k n := by
  unfold shortest
  simp only
  rw [Decimal.value_trimmed]
  generalize hgrids : (List.range (b.format.mantissaBits + 1)).map
    (fun (i : Nat) => b.integerDigits - 1 - i) = grids
  cases hfind : grids.findSome? b.candidate? with
  | none =>
      -- The finest grid is among those that are searched, so the search does not fail.
      rw [List.findSome?_eq_none_iff] at hfind
      have hfinest : b.integerDigits - 1 - b.format.mantissaBits ∈ grids := by
        rw [← hgrids]
        exact List.mem_map_of_mem (List.mem_range.mpr (Nat.lt_succ_self _))
      rcases exists_candidate h with ⟨d, hd⟩
      rw [hfind _ hfinest] at hd
      exact absurd hd (Option.some_ne_none d).symm
  | some d =>
      rcases List.exists_of_findSome?_eq_some hfind with ⟨k, -, hk⟩
      rcases candidate?_found hk with ⟨n, rfl, hfound⟩
      exact ⟨k, n, rfl, hfound⟩

/-- What is between the ends rounds to the number. -/
theorem Covers.rounded {x : ℚ} (hx : b.Covers x)
    (h : b.format.Canonical b.mantissa b.exponent) : b.format.rounded x = b.value := by
  have hlow : 4 * (b.mantissa : ℚ) - 2 ≤ b.low := by
    have hnat : 4 * b.mantissa ≤ b.low + 2 := by
      unfold low
      simp only
      split <;> omega
    have : 4 * (b.mantissa : ℚ) ≤ b.low + 2 := by exact_mod_cast hnat
    linarith
  have hlow' : (4 * (b.mantissa : ℚ) - 2) / 4 * 2 ^ b.exponent ≤ b.low / 4 * 2 ^ b.exponent := by
    gcongr
  have hbelow := hx.low_le
  have habove := hx.le_high
  rw [high_eq] at habove
  refine h.rounded_eq (by linarith) (by linarith) ?_ ?_
  · -- The lower bound of a power of two is a quarter of the last place away, not a half.
    intro hpower hmin
    have hlow1 : b.low = 4 * b.mantissa - 1 := by
      unfold low
      rw [Nat.pow_eq]
      exact if_pos ⟨hpower, hmin⟩
    have hcast : (b.low : ℚ) = 4 * b.mantissa - 1 := by
      rw [hlow1, Nat.cast_sub (by have := h.pos; omega)]
      push_cast
      ring
    rw [hcast] at hbelow
    linarith
  · -- The ends are left out exactly where a tie would go to the neighbour.
    by_cases heven : b.mantissa % 2 = 0
    · exact Or.inl heven
    · have hstrict := hx.strict (closed_eq_false_iff.mpr (by omega))
      rw [high_eq] at hstrict
      exact Or.inr ⟨by linarith [hstrict.1], by linarith [hstrict.2]⟩

/-- The shortest decimal rounds to the number. -/
theorem rounded_shortest (h : b.format.Canonical b.mantissa b.exponent) :
    b.format.rounded b.shortest.value = b.value := by
  rcases exists_shortest h with ⟨k, n, heq, hfound⟩
  rw [heq]
  exact hfound.covers.rounded h

end Binary

end FireControl
