import FireControl.Proofs.Decimal.Shortest
import FireControl.Proofs.Numeric.Packing

/-!
# Shortest Decimals Rounded Twice

A decimal that was made for single precision is read in double precision first and rounded to single
precision then. The first rounding can move it onto the end of the interval of numbers that round to
the number it was made for, and where the mantissa is odd the end is not part of it. For this a
decimal has to be closer to a point half-way between two numbers than a tenth of a billionth of
their distance, without being that point.

Such a decimal is a multiple `d` of a power of ten, the point is a multiple `M` of a power of two,
and `M / d` is an extraordinarily good approximation of the quotient of the two powers, for a
denominator of at most 24 bits. Good approximations are found between neighbours in a Farey series:
`Enclosure.eq_or_eq` says that one that good is one of two fractions that enclose the quotient, up
to a common factor. So one pair of fractions for each exponent of the format decides the matter, and
a search finds the pairs.

One number is left over, `11420669 · 2 ^ -107`. Its shortest decimal is `7.038531e-26`, which is
read as the next larger number.

## Main definitions

* `Enclosure`: Two neighbours of a Farey series that enclose a quotient.
* `Spacing`: A power of ten over a power of two.

## Theorems

* `Enclosure.eq_or_eq`: Very good approximations are the neighbours.
* `Binary.rounded_rounded_shortest`: All shortest decimals but one can be rounded twice.
-/

namespace FireControl

open Float.Model (Format two_zpow_eq_two_mul)

/-! ### Neighbours of a quotient -/

/-- The fractions `low / lowDen` and `high / highDen`. -/
structure Enclosure where
  low : ℕ
  lowDen : ℕ
  high : ℕ
  highDen : ℕ

namespace Enclosure

/-- The enclosure after as many steps of each end towards the other as keep `num / den` enclosed and
the denominators below the limit. -/
def tightened (limit num den : ℕ) (e : Enclosure) : Enclosure :=
  let room := (limit - e.lowDen) / e.highDen
  let reach := (num * e.lowDen - e.low * den) / (e.high * den - num * e.highDen)
  let steps := if e.high * den = num * e.highDen then room
    else if e.highDen = 0 then reach else min room reach
  let e := { e with low := e.low + steps * e.high, lowDen := e.lowDen + steps * e.highDen }
  let room := (limit - e.highDen) / e.lowDen
  let reach := (e.high * den - num * e.highDen) / (num * e.lowDen - e.low * den)
  let steps := if num * e.lowDen = e.low * den then room else min room reach
  { e with high := e.high + steps * e.low, highDen := e.highDen + steps * e.lowDen }

/-- An enclosure of `num / den`, searched for in a number of steps. -/
def search (limit num den : ℕ) : ℕ → Enclosure
  | 0 => ⟨0, 1, 1, 0⟩
  | fuel + 1 => (search limit num den fuel).tightened limit num den

/-- Neighbours that enclose `num / den`, with denominators that add up to more than the limit and
are small against the precision. -/
structure Tight (e : Enclosure) (limit precision num den : ℕ) : Prop where
  low_le : e.low * den ≤ num * e.lowDen
  le_high : num * e.highDen ≤ e.high * den
  adjacent : e.high * e.lowDen = e.low * e.highDen + 1
  limit_lt : limit < e.lowDen + e.highDen
  lowDen_lt : e.lowDen < precision
  highDen_lt : e.highDen < precision

instance (e : Enclosure) (limit precision num den : ℕ) :
    Decidable (e.Tight limit precision num den) :=
  decidable_of_iff (e.low * den ≤ num * e.lowDen ∧ num * e.highDen ≤ e.high * den ∧
      e.high * e.lowDen = e.low * e.highDen + 1 ∧ limit < e.lowDen + e.highDen ∧
      e.lowDen < precision ∧ e.highDen < precision)
    ⟨fun ⟨h₁, h₂, h₃, h₄, h₅, h₆⟩ => ⟨h₁, h₂, h₃, h₄, h₅, h₆⟩,
      fun ⟨h₁, h₂, h₃, h₄, h₅, h₆⟩ => ⟨h₁, h₂, h₃, h₄, h₅, h₆⟩⟩

variable {e : Enclosure} {limit precision num den : ℕ}

/-- A distance that a small denominator scales up to the unit is not small. -/
theorem lt_abs_mul {z f precision den : ℤ} (hden : 0 < den) (hf : 0 ≤ f) (hlt : f < precision)
    (h : den ≤ f * z) : den < |z| * precision := by
  have hz : 0 < z := by
    by_contra hz
    exact absurd (h.trans (mul_nonpos_of_nonneg_of_nonpos hf (not_lt.mp hz))) (not_le.mpr hden)
  calc den ≤ f * z := h
    _ < precision * z := mul_lt_mul_of_pos_right hlt hz
    _ = |z| * precision := by rw [abs_of_pos hz, mul_comm]

/-- Very good approximations are the neighbours, up to a common factor. -/
theorem Tight.eq_or_eq (h : e.Tight limit precision num den) {n d : ℕ} (hden : 0 < den)
    (hd : 0 < d) (hle : d ≤ limit)
    (hclose : |(d : ℤ) * num - n * den| * precision ≤ den) :
    ∃ t, 0 < t ∧ (n = t * e.low ∧ d = t * e.lowDen ∨ n = t * e.high ∧ d = t * e.highDen) := by
  rcases e with ⟨a, b, c, f⟩
  rcases h with ⟨hlow, hhigh, hadj, hlimit, hb, hf⟩
  simp only at hlow hhigh hadj hlimit hb hf ⊢
  zify at hlow hhigh hadj hlimit hb hf hd hle hden
  have hbpos : (0 : ℤ) ≤ b := Int.natCast_nonneg b
  have hfpos : (0 : ℤ) ≤ f := Int.natCast_nonneg f
  -- Every fraction is a combination of two neighbours with integer coefficients.
  obtain ⟨x, hx⟩ : ∃ x : ℤ, x = c * d - f * n := ⟨_, rfl⟩
  obtain ⟨y, hy⟩ : ∃ y : ℤ, y = b * n - a * d := ⟨_, rfl⟩
  have hn : (n : ℤ) = x * a + y * c := by
    rw [hx, hy]
    linear_combination (-(n : ℤ)) * hadj
  have hdxy : (d : ℤ) = x * b + y * f := by
    rw [hx, hy]
    linear_combination (-(d : ℤ)) * hadj
  rcases lt_trichotomy x 0 with hneg | hzero | hpos
  · -- The fraction lies above the upper neighbour, and by too much.
    have hgap : (den : ℤ) ≤ f * (n * den - d * num) := by
      have hexpand : (f : ℤ) * (n * den - d * num) = d * (c * den - num * f) - x * den := by
        rw [hx]
        ring
      rw [hexpand]
      nlinarith
    have hfar := lt_abs_mul hden hfpos hf hgap
    rw [abs_sub_comm] at hfar
    exact absurd hclose (not_le.mpr hfar)
  · rw [hzero, zero_mul, zero_add] at hn hdxy
    have hypos : 0 < y := pos_of_mul_pos_left (hdxy ▸ hd) hfpos
    lift y to ℕ using hypos.le
    exact ⟨y, by exact_mod_cast hypos, Or.inr ⟨by exact_mod_cast hn, by exact_mod_cast hdxy⟩⟩
  · rcases lt_trichotomy y 0 with hneg | hzero | hpos'
    · have hgap : (den : ℤ) ≤ b * (d * num - n * den) := by
        have hexpand : (b : ℤ) * (d * num - n * den) = d * (num * b - a * den) - y * den := by
          rw [hy]
          ring
        rw [hexpand]
        nlinarith
      exact absurd hclose (not_le.mpr (lt_abs_mul hden hbpos hb hgap))
    · rw [hzero, zero_mul, add_zero] at hn hdxy
      lift x to ℕ using hpos.le
      exact ⟨x, by exact_mod_cast hpos, Or.inl ⟨by exact_mod_cast hn, by exact_mod_cast hdxy⟩⟩
    · -- A combination of both has a denominator beyond the limit.
      nlinarith

end Enclosure

/-! ### Decimals near half-way points -/

/-- The exponent of the least power of ten that is not below `2 ^ q`. The logarithm of two is a
little more than 0.30102. -/
def tenExponent (q : ℤ) : ℤ :=
  -(-q * 30103 / 100000)

namespace Spacing

variable (q : ℤ)

/-- The numerator of `10 ^ tenExponent q` over `2 ^ (q - 1)`. -/
def num : ℕ :=
  Nat.pow 10 (tenExponent q).toNat * Nat.pow 2 (1 - q).toNat

/-- The denominator of `10 ^ tenExponent q` over `2 ^ (q - 1)`. -/
def den : ℕ :=
  Nat.pow 10 (-tenExponent q).toNat * Nat.pow 2 (q - 1).toNat

/-- Neighbours that enclose the quotient. -/
def enclosure : Enclosure :=
  .search (2 ^ 24) (num q) (den q) 16

/-- The neighbours that are too close and not exact. -/
def suspects : List (ℕ × ℕ) :=
  [((enclosure q).low, (enclosure q).lowDen), ((enclosure q).high, (enclosure q).highDen)].filter
    fun (n, d) => n < 2 ^ 25 ∧ (d : ℤ) * num q ≠ n * den q ∧
      |(d : ℤ) * num q - n * den q| * 2 ^ 29 ≤ den q

/-- The power of ten is the least one, up to the precision, that is not below `2 ^ q`, and only one
neighbour is suspect. -/
structure Sound : Prop where
  tight : (enclosure q).Tight (2 ^ 24) (2 ^ 29) (num q) (den q)
  reaches : 2 ^ 30 * den q ≤ 2 ^ 29 * num q + 2 * den q
  least : 2 ^ 29 * num q + 20 * den q < 20 * 2 ^ 29 * den q
  suspects_eq : suspects q = if q = -107 then [(22841339, 7038531)] else []

instance : Decidable (Sound q) :=
  decidable_of_iff ((enclosure q).Tight (2 ^ 24) (2 ^ 29) (num q) (den q) ∧
      2 ^ 30 * den q ≤ 2 ^ 29 * num q + 2 * den q ∧
      2 ^ 29 * num q + 20 * den q < 20 * 2 ^ 29 * den q ∧
      suspects q = if q = -107 then [(22841339, 7038531)] else [])
    ⟨fun ⟨h₁, h₂, h₃, h₄⟩ => ⟨h₁, h₂, h₃, h₄⟩, fun ⟨h₁, h₂, h₃, h₄⟩ => ⟨h₁, h₂, h₃, h₄⟩⟩

theorem sound_of_lt : ∀ i : ℕ, i < 254 → Sound ((i : ℤ) - 149) := by
  decide +kernel

variable {q}

/-- All exponents of single precision are sound. -/
theorem sound (hlow : -149 ≤ q) (hhigh : q ≤ 104) : Sound q := by
  have hsound := sound_of_lt (q + 149).toNat (by omega)
  rwa [Int.toNat_of_nonneg (by omega), add_sub_cancel_right] at hsound

/-- The common denominator of the two powers. -/
theorem exists_scale (q : ℤ) : ∃ s : ℚ, 0 < s ∧ (num q : ℚ) = 10 ^ tenExponent q * s ∧
    (den q : ℚ) = 2 ^ (q - 1) * s := by
  have hten : (10 : ℚ) ^ tenExponent q * 10 ^ (-tenExponent q).toNat =
      10 ^ (tenExponent q).toNat := zpow_mul_pow_toNat (by norm_num) _
  have htwo : (2 : ℚ) ^ (q - 1) * 2 ^ (1 - q).toNat = 2 ^ (q - 1).toNat :=
    neg_sub q 1 ▸ zpow_mul_pow_toNat two_ne_zero (q - 1)
  refine ⟨10 ^ (-tenExponent q).toNat * 2 ^ (1 - q).toNat, by positivity, ?_, ?_⟩
  · rw [num, Nat.pow_eq, Nat.pow_eq]
    push_cast
    rw [← hten]
    ring
  · rw [den, Nat.pow_eq, Nat.pow_eq]
    push_cast
    rw [← htwo]
    ring

/-- A multiple of the power of ten that is too close to a half-way point, without being it, belongs
to the one suspect. -/
theorem Sound.eq_of_close (h : Sound q) {n d : ℕ} (hd : 0 < d) (hle : d ≤ 2 ^ 24)
    (hn : n < 2 ^ 25) (hne : (d : ℚ) * 10 ^ tenExponent q ≠ n * 2 ^ (q - 1))
    (hclose : |(d : ℚ) * 10 ^ tenExponent q - n * 2 ^ (q - 1)| * 2 ^ 29 ≤ 2 ^ (q - 1)) :
    q = -107 ∧ n = 22841339 := by
  rcases exists_scale q with ⟨s, hs, hnum, hden⟩
  have hscaled (n d : ℕ) : (((d : ℤ) * num q - n * den q : ℤ) : ℚ) =
      (d * 10 ^ tenExponent q - n * 2 ^ (q - 1)) * s := by
    push_cast
    rw [hnum, hden]
    ring
  have hdenpos : 0 < den q := by
    have : (0 : ℚ) < den q := by
      rw [hden]
      positivity
    exact_mod_cast this
  -- Over the common denominator the distance is one of integers.
  have hclose' : |(d : ℤ) * num q - n * den q| * (2 ^ 29 : ℕ) ≤ den q := by
    have hq : |(((d : ℤ) * num q - n * den q : ℤ) : ℚ)| * 2 ^ 29 ≤ den q := by
      rw [hscaled, abs_mul, abs_of_pos hs, hden]
      calc _ = |(d : ℚ) * 10 ^ tenExponent q - n * 2 ^ (q - 1)| * 2 ^ 29 * s := by ring
        _ ≤ 2 ^ (q - 1) * s := mul_le_mul_of_nonneg_right hclose hs.le
    exact_mod_cast hq
  have hne' : (d : ℤ) * num q ≠ n * den q := by
    intro heq
    have hzero := hscaled n d
    rw [sub_eq_zero.mpr heq, Int.cast_zero, eq_comm, mul_eq_zero, sub_eq_zero] at hzero
    exact hzero.elim hne hs.ne'
  rcases h.tight.eq_or_eq hdenpos hd hle hclose' with ⟨t, ht, hfraction⟩
  -- Without the common factor the fraction is no farther from the quotient.
  have hsuspect (n' d' : ℕ) (hnt : n = t * n') (hdt : d = t * d')
      (hmem : (n', d') ∈ [((enclosure q).low, (enclosure q).lowDen),
        ((enclosure q).high, (enclosure q).highDen)]) : (n', d') ∈ suspects q := by
    have hfactor : (d : ℤ) * num q - n * den q = t * ((d' : ℤ) * num q - n' * den q) := by
      rw [hnt, hdt]
      push_cast
      ring
    have htz : (1 : ℤ) ≤ t := by exact_mod_cast ht
    refine List.mem_filter.mpr ⟨hmem, decide_eq_true ⟨?_, ?_, ?_⟩⟩
    · exact (Nat.le_mul_of_pos_left n' ht).trans_lt (hnt ▸ hn)
    · intro heq
      rw [sub_eq_zero.mpr heq, mul_zero, sub_eq_zero] at hfactor
      exact hne' hfactor
    · rw [hfactor, abs_mul, abs_of_nonneg (by omega)] at hclose'
      push_cast at hclose'
      have hnonneg := abs_nonneg ((d' : ℤ) * num q - n' * den q)
      nlinarith
  have hone (n' d' : ℕ) (hnt : n = t * n') (hdt : d = t * d')
      (hmem : (n', d') ∈ [((enclosure q).low, (enclosure q).lowDen),
        ((enclosure q).high, (enclosure q).highDen)]) : q = -107 ∧ n = 22841339 := by
    have hsus := hsuspect n' d' hnt hdt hmem
    rw [h.suspects_eq] at hsus
    split at hsus
    · rename_i hq
      rw [List.mem_singleton, Prod.mk.injEq] at hsus
      rw [hsus.1] at hnt
      exact ⟨hq, by omega⟩
    · exact absurd hsus List.not_mem_nil
  rcases hfraction with ⟨hnt, hdt⟩ | ⟨hnt, hdt⟩
  · exact hone _ _ hnt hdt (by simp)
  · exact hone _ _ hnt hdt (by simp)

/-- The power of ten is not below `2 ^ q`, up to the precision. -/
theorem Sound.le_power (h : Sound q) :
    2 ^ 30 * (2 : ℚ) ^ (q - 1) ≤ 2 ^ 29 * 10 ^ tenExponent q + 2 * 2 ^ (q - 1) := by
  rcases exists_scale q with ⟨s, hs, hnum, hden⟩
  have hcast : (2 ^ 30 * den q : ℚ) ≤ 2 ^ 29 * num q + 2 * den q := by
    exact_mod_cast h.reaches
  rw [hnum, hden] at hcast
  exact le_of_mul_le_mul_right (by linarith) hs

/-- The next smaller power of ten is below `2 ^ q`, up to the precision. -/
theorem Sound.power_lt (h : Sound q) :
    2 ^ 29 * (10 : ℚ) ^ tenExponent q + 20 * 2 ^ (q - 1) < 20 * 2 ^ 29 * 2 ^ (q - 1) := by
  rcases exists_scale q with ⟨s, hs, hnum, hden⟩
  have hcast : (2 ^ 29 * num q + 20 * den q : ℚ) < 20 * 2 ^ 29 * den q := by
    exact_mod_cast h.least
  rw [hnum, hden] at hcast
  exact lt_of_mul_lt_mul_right (by linarith) hs.le

/-- A number below the limit of a mantissa hardly moves when it is rounded to double precision. -/
theorem abs_sub_rounded_le {x : ℚ} (hq : -149 ≤ q) (hpos : 0 < x)
    (hlt : x < 2 ^ 25 * 2 ^ (q - 1)) :
    |x - Format.binary64.rounded x| * 2 ^ 29 ≤ 2 ^ (q - 1) := by
  -- `x` has at most 53 bits above the place `q - 29`, the last one that rounding keeps.
  have hbound : |x| < 2 ^ (Format.binary64.mantissaBits + (q - 29)) := by
    have hbits : (Format.binary64.mantissaBits : ℤ) = 53 := by decide
    have hpow : (2 : ℚ) ^ (53 + (q - 29)) = 2 ^ 25 * 2 ^ (q - 1) := by
      rw [← zpow_natCast, ← zpow_add₀ two_ne_zero]
      congr 1
      push_cast
      ring
    rw [abs_of_pos hpos, hbits, hpow]
    exact hlt
  have hleast : Format.binary64.minExponent = -1074 := by decide
  have herror := Format.abs_rounded_sub_le_of_lt (by omega) hbound
  have hpow : (2 : ℚ) ^ (q - 29) * 2 ^ 28 = 2 ^ (q - 1) := by
    rw [← zpow_natCast, ← zpow_add₀ two_ne_zero]
    congr 1
    push_cast
    ring
  -- Half of that place is the error: 2 ^ 29 of them make half a unit of the single.
  rw [abs_sub_comm] at herror
  calc |x - Format.binary64.rounded x| * 2 ^ 29 ≤ 2 ^ (q - 29) / 2 * 2 ^ 29 := by gcongr
    _ = 2 ^ (q - 29) * 2 ^ 28 := by ring
    _ = 2 ^ (q - 1) := hpow

/-- The nearest point of a grid that is almost half of the last place away belongs to a grid that
is not finer than the last place. -/
theorem Sound.tenExponent_le (h : Sound q) {k : ℤ} {x v : ℚ} (hnearest : |x - v| ≤ 10 ^ k / 2)
    (hfar : (2 ^ 29 - 1) * 2 ^ (q - 1) ≤ 2 ^ 29 * |x - v|) : tenExponent q ≤ k := by
  have hpower := h.power_lt
  have hlt : (10 : ℚ) ^ tenExponent q < 10 ^ (k + 1) := by
    rw [zpow_add_one₀ (by norm_num)]
    linarith
  have := (zpow_lt_zpow_iff_right₀ (by norm_num : (1 : ℚ) < 10)).mp hlt
  omega

end Spacing

namespace Binary

variable {m : ℕ} {q : ℤ}

/-- A shortest decimal that double precision moves onto a half-way point next to an odd mantissa
belongs to the one number that is left over. -/
theorem eq_of_rounded_half_way (h : Format.binary32.Canonical m q) (hq : q ≤ 104)
    (hodd : m % 2 = 1) {n : ℕ} (hn : n = 2 * m - 1 ∨ n = 2 * m + 1)
    (heq : Format.binary64.rounded (Binary.mk .binary32 m q).shortest.value = n * 2 ^ (q - 1)) :
    m = 11420669 ∧ q = -107 := by
  have hmin : -149 ≤ q := h.minExponent_le
  have hsound := Spacing.sound hmin hq
  have hmlt : m < 2 ^ 24 := h.lt
  have hm1 : (1 : ℚ) ≤ m := by exact_mod_cast h.pos
  have hm24 : (m : ℚ) + 1 ≤ 2 ^ 24 := by exact_mod_cast hmlt
  have hpos : (0 : ℚ) < 2 ^ (q - 1) := by positivity
  rcases exists_shortest (b := .mk .binary32 m q) h with ⟨k, d, hvalue, hfound⟩
  have hopen : (Binary.mk .binary32 m q).closed = false := closed_eq_false_iff.mpr hodd
  have hlow : ((Binary.mk .binary32 m q).low : ℚ) = 4 * m - 2 := low_of_odd hodd
  have hhigh : (Binary.mk .binary32 m q).high = 4 * m + 2 := rfl
  have hstrict : (4 * (m : ℚ) - 2) / 4 * 2 ^ q < d * 10 ^ k ∧
      (d : ℚ) * 10 ^ k < (4 * m + 2 : ℕ) / 4 * 2 ^ q :=
    hhigh ▸ hlow ▸ hfound.covers.strict hopen
  have hnearest : |(d : ℚ) * 10 ^ k - m * 2 ^ q| ≤ 10 ^ k / 2 := hfound.nearest hopen
  rw [hvalue] at heq
  rw [two_zpow_eq_two_mul q] at hstrict hnearest
  push_cast at hstrict
  generalize hx : (d : ℚ) * 10 ^ k = x at hstrict hnearest heq
  have hxpos : 0 < x := lt_trans (by nlinarith) hstrict.1
  have hxlt : x < 2 ^ 25 * 2 ^ (q - 1) := by nlinarith [hstrict.2]
  have hclose := Spacing.abs_sub_rounded_le hmin hxpos hxlt
  rw [heq] at hclose
  -- The half-way point is half of the last place away, and the decimal is inside.
  have hn' : (n : ℚ) = 2 * m - 1 ∨ (n : ℚ) = 2 * m + 1 := by
    rcases hn with rfl | rfl
    · exact Or.inl (by rw [Nat.cast_sub (by have := h.pos; omega)]; push_cast; ring)
    · exact Or.inr (by push_cast; ring)
  have hne : x ≠ n * 2 ^ (q - 1) := by
    rintro rfl
    rcases hn' with hn' | hn' <;> rw [hn'] at hstrict
    · exact absurd hstrict.1 (not_lt.mpr (by linarith))
    · exact absurd hstrict.2 (not_lt.mpr (by linarith))
  have hfar : (2 ^ 29 - 1) * 2 ^ (q - 1) ≤ 2 ^ 29 * |x - m * (2 * 2 ^ (q - 1))| := by
    have hsmall := abs_le.mp ((le_div_iff₀ (by norm_num)).mpr hclose)
    have hright := le_abs_self (x - m * (2 * 2 ^ (q - 1)))
    have hleft := neg_abs_le (x - m * (2 * 2 ^ (q - 1)))
    rcases hn' with hn' | hn' <;> rw [hn'] at hsmall <;> linarith
  have hcoarse := hsound.tenExponent_le hnearest hfar
  -- So the decimal is a multiple of the power of ten.
  have hmultiple : ((d * 10 ^ (k - tenExponent q).toNat : ℕ) : ℚ) * 10 ^ tenExponent q = x := by
    rw [← hx]
    push_cast
    rw [mul_assoc, ← zpow_natCast, ← zpow_add₀ (by norm_num)]
    congr 2
    omega
  generalize d * 10 ^ (k - tenExponent q).toNat = d' at hmultiple
  rw [← hmultiple] at hclose hne hxpos hxlt
  have hd : 0 < d' := by
    have hq := pos_of_mul_pos_left hxpos (by positivity)
    exact_mod_cast hq
  -- The mantissa bounds the multiplier, since the power of ten reaches the last place.
  have hle : d' ≤ 2 ^ 24 := by
    by_contra hlt
    have hge : (2 : ℚ) ^ 24 + 1 ≤ d' := by exact_mod_cast not_le.mp hlt
    nlinarith [hsound.le_power]
  rcases hsound.eq_of_close hd hle (by omega) hne hclose with ⟨hq', hn107⟩
  exact ⟨by omega, hq'⟩

/-- Both ends of the interval belong to double precision, so a number between them stays there. -/
theorem rounded_shortest_between (h : Format.binary32.Canonical m q) :
    ((Binary.mk .binary32 m q).low : ℚ) / 4 * 2 ^ q ≤
        Format.binary64.rounded (Binary.mk .binary32 m q).shortest.value ∧
      Format.binary64.rounded (Binary.mk .binary32 m q).shortest.value ≤
        ((Binary.mk .binary32 m q).high : ℚ) / 4 * 2 ^ q := by
  generalize hb : Binary.mk .binary32 m q = b
  have hmin : -149 ≤ q := h.minExponent_le
  have hmlt : m < 2 ^ 24 := h.lt
  have hbits : Format.binary64.mantissaBits = 53 := rfl
  have hleast : Format.binary64.minExponent = -1074 := by decide
  -- The ends are whole numbers of quarters, and those are doubles: rounding keeps bounds.
  have hquarter (n : ℕ) : (n : ℚ) / 4 * 2 ^ q = (n : ℤ) * 2 ^ (q - 2) := by
    rw [zpow_sub₀ two_ne_zero, Int.cast_natCast]
    ring
  have hlow : b.low ≤ 4 * m := by
    rw [← hb]
    unfold low
    simp only
    split <;> omega
  have hhigh : b.high = 4 * m + 2 := hb ▸ rfl
  -- The digits are found between the ends before they are rounded.
  rcases exists_shortest (b := b) (by rw [← hb]; exact h) with ⟨k, n, hvalue, hfound⟩
  have hcovers := hfound.covers
  rw [← hvalue] at hcovers
  have hbelow := hcovers.low_le
  have habove := hcovers.le_high
  have hexponent : b.exponent = q := hb ▸ rfl
  rw [hexponent, hquarter] at hbelow habove
  rw [hquarter, hquarter]
  exact ⟨Format.le_rounded hbelow (by rw [Nat.abs_cast, hbits]; omega) (by omega),
    Format.rounded_le habove (by rw [Nat.abs_cast, hbits]; omega) (by omega)⟩

/-- All shortest decimals but one can be rounded twice. -/
theorem rounded_rounded_shortest (h : Format.binary32.Canonical m q) (hq : q ≤ 104)
    (hne : ¬ (m = 11420669 ∧ q = -107)) :
    Format.binary32.rounded
      (Format.binary64.rounded (Binary.mk .binary32 m q).shortest.value) = m * 2 ^ q := by
  rcases rounded_shortest_between h with ⟨hle, hge⟩
  -- An end that is reached would be a half-way point.
  suffices hcovers : (Binary.mk .binary32 m q).Covers
      (Format.binary64.rounded (Binary.mk .binary32 m q).shortest.value) from hcovers.rounded h
  refine ⟨hle, hge, fun hopen => ?_⟩
  have hodd : m % 2 = 1 := closed_eq_false_iff.mp hopen
  have hlow : ((Binary.mk .binary32 m q).low : ℚ) = 4 * m - 2 := low_of_odd hodd
  have hhigh : (Binary.mk .binary32 m q).high = 4 * m + 2 := rfl
  rw [hlow, two_zpow_eq_two_mul q] at hle ⊢
  rw [hhigh, two_zpow_eq_two_mul q] at hge
  rw [hhigh]
  constructor
  · refine lt_of_le_of_ne hle fun heq => hne ?_
    refine eq_of_rounded_half_way h hq hodd (Or.inl rfl) ?_
    rw [← heq, Nat.cast_sub (by omega)]
    push_cast
    ring
  · refine lt_of_le_of_ne hge fun heq => hne ?_
    refine eq_of_rounded_half_way h hq hodd (Or.inr rfl) ?_
    rw [heq]
    push_cast
    ring

end Binary

end FireControl
