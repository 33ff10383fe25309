import FireControl.Proofs.Decimal.Shortest
import FireControl.Decimal.Nearest

/-!
# The Digits of a Decimal

What a reader needs to know of the text of a decimal: it is digits, a point and digits, no zero
leads the ones before the point unless it stands alone, and the number of the digits around the
point is the number that was written. A decimal without a fraction gets one, so that there is always
a point.

## Main definitions

* `Decimal.Numeral`: The digits of an integer.
* `Decimal.Parts`: A text with a point, its two parts and the number that it means.

## Theorems

* `Decimal.ofDigits_toDigits`: The digits of a number mean that number.
* `Decimal.exists_parts`: The text of a decimal means that decimal.
-/

namespace FireControl

namespace Decimal

variable {cs : List Char}

theorem ofDigits_eq_ofDigitChars (h : ∀ c ∈ cs, c.isDigit = true) :
    ofDigits 10 cs = Nat.ofDigitChars 10 cs 0 := by
  rw [Nat.ofDigitChars_eq_foldl]
  refine List.foldl_ext _ _ _ fun n c hc => ?_
  rw [digitValue, if_pos (h c hc)]

theorem isDigit_of_mem_toDigits {n : ℕ} : ∀ c ∈ Nat.toDigits 10 n, c.isDigit = true := fun _ hc =>
  Nat.isDigit_of_mem_toDigits (by norm_num) (by norm_num) hc

/-- The digits of a number mean that number. -/
theorem ofDigits_toDigits (n : ℕ) : ofDigits 10 (Nat.toDigits 10 n) = n := by
  rw [ofDigits_eq_ofDigitChars isDigit_of_mem_toDigits, Nat.ofDigitChars_ten_toDigits]

theorem isDigit_of_mem_padLeft (width n : ℕ) :
    ∀ c ∈ padLeft width '0' (Nat.toDigits 10 n), c.isDigit = true := by
  intro c hc
  rcases List.mem_append.mp hc with hc | hc
  · rw [List.eq_of_mem_replicate hc]
    rfl
  · exact isDigit_of_mem_toDigits c hc

/-- Zeros in front do not count. -/
theorem ofDigits_padLeft (width n : ℕ) :
    ofDigits 10 (padLeft width '0' (Nat.toDigits 10 n)) = n := by
  rw [ofDigits_eq_ofDigitChars (isDigit_of_mem_padLeft width n), padLeft, Nat.ofDigitChars_append,
    Nat.ofDigitChars_replicate_zero, mul_zero, Nat.ofDigitChars_ten_toDigits]

/-- The digits of an integer: there is one, and no zero stands in front of others. -/
structure Numeral (cs : List Char) : Prop where
  ne_nil : cs ≠ []
  isDigit : ∀ c ∈ cs, c.isDigit = true
  eq_zero : cs.head? = some '0' → cs = ['0']

theorem head?_toDigits {n : ℕ} (hn : 0 < n) : (Nat.toDigits 10 n).head? ≠ some '0' := by
  induction n using Nat.strongRecOn with
  | ind n ih =>
      rw [Nat.toDigits_eq_if (by norm_num)]
      split
      · rename_i hlt
        rw [List.head?_cons, Ne, Option.some_inj, Nat.digitChar_eq_zero]
        omega
      · rename_i hge
        -- The first digit is that of the number without its last one, which is not zero either.
        rw [List.head?_append_of_ne_nil _ Nat.toDigits_ne_nil]
        exact ih (n / 10) (by omega) (by omega)

theorem numeral_toDigits (n : ℕ) : Numeral (Nat.toDigits 10 n) := by
  refine ⟨Nat.toDigits_ne_nil, isDigit_of_mem_toDigits, fun hhead => ?_⟩
  rcases Nat.eq_zero_or_pos n with rfl | hpos
  · rfl
  · exact absurd hhead (head?_toDigits hpos)

/-- The digits before the point: where zeros are put in front, just one of them is there. -/
theorem numeral_take_padLeft (places n : ℕ) :
    Numeral ((padLeft (places + 1) '0' (Nat.toDigits 10 n)).take
      ((padLeft (places + 1) '0' (Nat.toDigits 10 n)).length - places)) := by
  -- Zeros are put in front only where there are too few digits, and then one is before the point.
  rcases le_or_gt (places + 1) (Nat.toDigits 10 n).length with hlong | hshort
  · have hpad : padLeft (places + 1) '0' (Nat.toDigits 10 n) = Nat.toDigits 10 n := by
      rw [padLeft, Nat.sub_eq_zero_of_le hlong]
      rfl
    have hdigits := numeral_toDigits n
    rw [hpad]
    refine ⟨?_, fun c hc => hdigits.isDigit c (List.mem_of_mem_take hc), fun hhead => ?_⟩
    · rw [Ne, List.take_eq_nil_iff, not_or]
      exact ⟨by omega, hdigits.ne_nil⟩
    · rw [List.head?_take, if_neg (by omega)] at hhead
      have hone := hdigits.eq_zero hhead
      rw [hone, List.length_singleton] at hlong ⊢
      rw [Nat.le_zero.mp (Nat.le_of_succ_le_succ hlong)]
      rfl
  · have hpad : padLeft (places + 1) '0' (Nat.toDigits 10 n) =
        '0' :: (List.replicate (places - (Nat.toDigits 10 n).length) '0' ++
          Nat.toDigits 10 n) := by
      have hsucc : places + 1 - (Nat.toDigits 10 n).length =
          places - (Nat.toDigits 10 n).length + 1 := by omega
      rw [padLeft, hsucc, List.replicate_succ, List.cons_append]
    have hlen : (padLeft (places + 1) '0' (Nat.toDigits 10 n)).length - places = 1 := by
      rw [padLeft, List.length_append, List.length_replicate]
      omega
    rw [hlen, hpad]
    exact ⟨List.cons_ne_nil _ _, by simp, fun _ => rfl⟩

/-- A text with a point, the digits around the point, and the number that it means. -/
structure Parts (text whole fraction : List Char) (v : ℚ) : Prop where
  text_eq : text = whole ++ '.' :: fraction
  numeral : Numeral whole
  ne_nil : fraction ≠ []
  isDigit : ∀ c ∈ fraction, c.isDigit = true
  value_eq : (ofParts whole fraction 0).value = v

theorem exists_parts_pointed (places n : ℕ) (hplaces : 0 < places) :
    ∃ whole fraction, Parts (pointed places n) whole fraction (n * 10 ^ (-places : ℤ)) := by
  have hnumeral := numeral_take_padLeft places n
  have hnumber := ofDigits_padLeft (places + 1) n
  have hdigit := isDigit_of_mem_padLeft (places + 1) n
  have hlength : places + 1 ≤ (padLeft (places + 1) '0' (Nat.toDigits 10 n)).length := by
    rw [padLeft, List.length_append, List.length_replicate]
    omega
  have htext : pointed places n = (padLeft (places + 1) '0' (Nat.toDigits 10 n)).take
      ((padLeft (places + 1) '0' (Nat.toDigits 10 n)).length - places) ++
        '.' :: (padLeft (places + 1) '0' (Nat.toDigits 10 n)).drop
          ((padLeft (places + 1) '0' (Nat.toDigits 10 n)).length - places) :=
    if_neg (by omega)
  -- From here on it only matters that the digits are enough, and which number they mean.
  generalize padLeft (places + 1) '0' (Nat.toDigits 10 n) = digits at *
  have hdrop : (digits.drop (digits.length - places)).length = places := by
    rw [List.length_drop]
    omega
  refine ⟨_, _, htext, hnumeral, ?_, fun c hc => hdigit c (List.mem_of_mem_drop hc), ?_⟩
  · rw [← List.length_pos_iff, hdrop]
    exact hplaces
  · rw [ofParts, value, List.take_append_drop, hnumber, hdrop, zero_sub]

/-- The text of a decimal means that decimal. Where it has no fraction, a zero makes up for it. -/
theorem exists_parts (d : Decimal) :
    ∃ whole fraction, Parts (d.plain ++ if 0 ≤ d.exponent then ['.', '0'] else [])
      whole fraction d.value := by
  unfold plain
  split
  · rename_i hexponent
    have hn : (if d.significand = 0 then 0 else d.significand * Nat.pow 10 d.exponent.toNat) =
        d.significand * 10 ^ d.exponent.toNat := by
      split
      · rename_i hzero
        rw [hzero, zero_mul]
      · rfl
    rw [hn]
    -- The zero behind the point makes the number ten times as large, and its exponent makes up.
    refine ⟨_, ['0'], rfl, numeral_toDigits _, List.cons_ne_nil _ _, by simp, ?_⟩
    have hnumber : ofDigits 10 (Nat.toDigits 10 (d.significand * 10 ^ d.exponent.toNat) ++ ['0']) =
        10 * (d.significand * 10 ^ d.exponent.toNat) := by
      rw [ofDigits, List.foldl_append]
      exact congrArg (10 * ·) (ofDigits_toDigits _)
    rw [ofParts, value, hnumber, value, ← Int.toNat_of_nonneg hexponent, zpow_natCast,
      Int.toNat_natCast]
    simp
    ring
  · rename_i hexponent
    rcases exists_parts_pointed (-d.exponent).toNat d.significand (by omega) with
      ⟨whole, fraction, hparts⟩
    refine ⟨whole, fraction, ?_⟩
    rw [List.append_nil]
    rwa [Int.toNat_of_nonneg (by omega), neg_neg] at hparts

end Decimal

end FireControl
