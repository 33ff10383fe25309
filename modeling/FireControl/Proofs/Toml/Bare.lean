import FireControl.Proofs.Decimal.Digits
import FireControl.Proofs.Decimal.Nearest
import FireControl.Toml.Bare
import FireControl.Toml.Printer

/-!
# Bare Values Read Back

Integers, flags and numbers are written without quotes. What is written has one of the forms that
the reader knows: digits that no other zero leads, alone or around a point, perhaps after a minus
sign, or one of a few words. So the reader takes it for a number and for nothing else, and it is
read as the number that its digits mean.

`Bare.reading` is what is read where the text of a number stands. It is defined through the shortest
decimal, and not through the text: the reader only sees digits, and any text with the same value
gives the same number.

## Main definitions

* `Bare.reading`: What is read where the text of a number stands.
* `Bare.Reads`: A text that reaches as far as a bare value does, and is read as a value.

## Theorems

* `Bare.unsigned?_numeral`, `Bare.unsigned?_parts`: Digits are read as what they mean.
* `Bare.number?_shortest`: The text of a number is read as a number.
* `Bare.Reads.read_eq`: A bare value ends with its line.
-/

open Float.Model (Format UnpackedFloat)
open Float.Model.UnpackedFloat (Sign)

/-- Whether a minus sign stands in front of a number. -/
def Float.Model.UnpackedFloat.Sign.isNegative : Sign → Bool
  | .negative => true
  | .positive => false

namespace FireControl

namespace Toml

namespace Bare

open Decimal (Numeral Parts)

variable {cs : List Char}

theorem grouped?_of_isDigit (hne : cs ≠ []) (h : ∀ c ∈ cs, c.isDigit = true) :
    grouped? Char.isDigit cs = some cs := by
  induction cs with
  | nil => exact absurd rfl hne
  | cons c cs ih =>
      have hc := h c List.mem_cons_self
      cases cs with
      | nil => exact if_pos hc
      | cons d cs =>
          have hd := h d (List.mem_cons_of_mem _ List.mem_cons_self)
          -- A digit is followed by digits only, so no underscore has to be passed over.
          have hunderscore : d ≠ '_' := by
            rintro rfl
            exact absurd hd (by decide)
          rw [grouped?, if_pos hc, if_neg hunderscore,
            ih (List.cons_ne_nil _ _) fun c hc => h c (List.mem_cons_of_mem _ hc)]
          rfl

theorem decimalDigits?_of_numeral (h : Numeral cs) : decimalDigits? cs = some cs := by
  unfold decimalDigits?
  rw [grouped?_of_isDigit h.ne_nil h.isDigit]
  split
  · -- The digits that are refused have a zero in front of others.
    rename_i heq
    have hzero := Option.some.inj heq
    rw [h.eq_zero (by rw [hzero]; rfl)] at hzero
    exact absurd hzero (by simp)
  · rfl

theorem not_marksExponent {c : Char} (h : c.isDigit = true ∨ c = '.') :
    marksExponent c = false := by
  unfold marksExponent
  rcases h with h | rfl
  · have he : c ≠ 'e' ∧ c ≠ 'E' := by
      constructor <;> rintro rfl <;> exact absurd h (by decide)
    simp [he]
  · rfl

theorem ne_point {c : Char} (h : c.isDigit = true) : c ≠ '.' := by
  rintro rfl
  exact absurd h (by decide)

/-- The digits of an integer are read as that integer. -/
theorem unsigned?_numeral (negative : Bool) (h : Numeral cs) :
    unsigned? negative cs = some (integer
      (if negative then -(Decimal.ofDigits 10 cs : ℤ) else Decimal.ofDigits 10 cs)) := by
  -- A numeral has no exponent mark and no point, so all of it is the whole part.
  have hmarks : cs.takeWhile (!marksExponent ·) = cs := by
    rw [List.takeWhile_eq_self_iff]
    intro c hc
    rw [not_marksExponent (Or.inl (h.isDigit c hc))]
    rfl
  have hpoint : cs.takeWhile (· ≠ '.') = cs := by
    rw [List.takeWhile_eq_self_iff]
    exact fun c hc => decide_eq_true (ne_point (h.isDigit c hc))
  have hall : (cs.all fun c => c ≠ '.' && !marksExponent c) = true := by
    rw [List.all_eq_true]
    intro c hc
    rw [not_marksExponent (Or.inl (h.isDigit c hc)), decide_eq_true (ne_point (h.isDigit c hc))]
    rfl
  unfold unsigned?
  rw [hmarks]
  simp only
  rw [hpoint, decimalDigits?_of_numeral h, hall]
  rfl

/-- Digits around a point are read as the decimal that they mean. -/
theorem unsigned?_parts (negative : Bool) {text whole fraction : List Char} {v : ℚ}
    (h : Parts text whole fraction v) :
    unsigned? negative text = some (float negative (.ofParts whole fraction 0)) := by
  have hmarks : ∀ c ∈ text, (!marksExponent c) = true := by
    intro c hc
    rw [h.text_eq, List.mem_append, List.mem_cons] at hc
    have hdigit : c.isDigit = true ∨ c = '.' := by
      rcases hc with hc | hc | hc
      · exact Or.inl (h.numeral.isDigit c hc)
      · exact Or.inr hc
      · exact Or.inl (h.isDigit c hc)
    rw [not_marksExponent hdigit]
    rfl
  -- The whole text is in front of a mark, and the first point in it splits it.
  have hwhole : ∀ c ∈ whole, decide (c ≠ '.') = true := fun c hc =>
    decide_eq_true (ne_point (h.numeral.isDigit c hc))
  have htake : text.takeWhile (· ≠ '.') = whole := by
    rw [h.text_eq, List.takeWhile_append_of_pos hwhole, List.takeWhile_cons_of_neg (by simp),
      List.append_nil]
  have hdrop : text.dropWhile (· ≠ '.') = '.' :: fraction := by
    rw [h.text_eq, List.dropWhile_append_of_pos hwhole, List.dropWhile_cons_of_neg (by simp)]
  have hall : (text.all fun c => c ≠ '.' && !marksExponent c) = false := by
    rw [List.all_eq_false]
    exact ⟨'.', by rw [h.text_eq]; simp, by simp⟩
  have hfraction : fraction? ('.' :: fraction) = some fraction :=
    grouped?_of_isDigit h.ne_nil h.isDigit
  unfold unsigned?
  rw [List.takeWhile_eq_self_iff.mpr hmarks, List.dropWhile_eq_nil_iff.mpr hmarks]
  simp only
  rw [htake, hdrop, decimalDigits?_of_numeral h.numeral, hall, hfraction]
  rfl

/-- A text that starts with the digits of an integer, and goes on with a point if at all, names no
base and is no word. -/
theorem number?_of_numeral {whole : List Char} (h : Numeral whole) (rest : List Char)
    (hrest : ∀ c ∈ rest.head?, c = '.') :
    number? (whole ++ rest) = unsigned? false (whole ++ rest) ∧
      number? ('-' :: (whole ++ rest)) = unsigned? true (whole ++ rest) := by
  obtain ⟨c, cs, rfl⟩ := List.exists_cons_of_ne_nil h.ne_nil
  have hc := h.isDigit c List.mem_cons_self
  -- The words and the signs start with no digit.
  have hword (negative : Bool) : magnitude? negative ((c :: cs) ++ rest) =
      unsigned? negative ((c :: cs) ++ rest) := by
    unfold magnitude?
    split
    · rename_i heq
      rw [(List.cons.inj heq).1] at hc
      exact absurd hc (by decide)
    · rename_i heq
      rw [(List.cons.inj heq).1] at hc
      exact absurd hc (by decide)
    · rfl
  -- A zero that leads stands alone, and what follows it is a point.
  have hbase {d : Char} {ds : List Char} (heq : c :: cs ++ rest = '0' :: d :: ds) : d = '.' := by
    have hzero := h.eq_zero (by rw [(List.cons.inj heq).1]; rfl)
    rw [hzero] at heq
    have htail : rest = d :: ds := (List.cons.inj heq).2
    exact hrest d (by rw [htail]; rfl)
  refine ⟨?_, hword true⟩
  unfold number?
  split
  · rename_i heq
    exact absurd (hbase heq) (by decide)
  · rename_i heq
    exact absurd (hbase heq) (by decide)
  · rename_i heq
    exact absurd (hbase heq) (by decide)
  · rename_i heq
    rw [(List.cons.inj heq).1] at hc
    exact absurd hc (by decide)
  · rename_i heq
    rw [(List.cons.inj heq).1] at hc
    exact absurd hc (by decide)
  · exact hword false

/-! ### Numbers -/

/-- A number that fits is read as itself. -/
theorem integer_natCast {n : ℕ} (h : n < 2 ^ 64) : integer n = .scalar (.integer n) := by
  have hpow : (Nat.pow 2 128 : ℕ) = 2 ^ 128 := rfl
  refine if_pos ⟨?_, ?_⟩
  · have : (0 : ℤ) ≤ n := Int.natCast_nonneg n
    omega
  · rw [hpow]
    omega

theorem number?_writeInteger {n : ℕ} (h : n < 2 ^ 64) :
    number? (writeInteger n) = some (.scalar (.integer n)) := by
  have hnumeral := Decimal.numeral_toDigits n
  have hnumber := (number?_of_numeral hnumeral [] (by simp)).1
  have hwrite : writeInteger n = Nat.toDigits 10 n := if_neg (by omega)
  rw [List.append_nil, unsigned?_numeral false hnumeral, Decimal.ofDigits_toDigits] at hnumber
  rw [hwrite, hnumber]
  exact congrArg some (integer_natCast h)

/-- What is read where the text of a number stands. -/
def reading (F : Format) : UnpackedFloat → Float
  | .notANumber => 0 / 0
  | .infinity s => signed s.isNegative (1 / 0)
  | .zero s => signed s.isNegative (Decimal.nearest ⟨0, 0⟩)
  | .finite s m e _ => signed s.isNegative (Binary.mk F m e).shortest.nearest

theorem isInf_of_carries {x : Float} {s : Sign} {v : ℚ}
    (h : x.toModel.unpack.Carries .binary64 s v) : x.isInf = false := by
  change x.toModel.unpack.isInf = false
  generalize x.toModel.unpack = u at h
  cases h <;> rfl

/-- Two decimals that mean one number are read as one number. -/
theorem nearest_congr {d d' : Decimal} (h : d.value = d'.value)
    (hlt : Format.binary64.rounded d.value < Format.binary64.limit) : d.nearest = d'.nearest := by
  have hcarries := Decimal.nearest_carries (h ▸ hlt)
  rw [← h] at hcarries
  exact Float.eq_of_carries (Decimal.nearest_carries hlt) hcarries

theorem float_of_value {d d' : Decimal} (negative : Bool) (h : d.value = d'.value)
    (hlt : Format.binary64.rounded d'.value < Format.binary64.limit) :
    float negative d = .scalar (.float (signed negative d'.nearest)) := by
  rw [float, nearest_congr h (h ▸ hlt), isInf_of_carries (Decimal.nearest_carries hlt)]
  rfl

/-- The text of a decimal, which has a fraction in any case. -/
def unsignedText (d : Decimal) : List Char :=
  d.plain ++ if 0 ≤ d.exponent then ['.', '0'] else []

/-- The text of a decimal with a sign is read as the decimal. -/
theorem number?_decimal (s : Sign) (d : Decimal)
    (hlt : Format.binary64.rounded d.value < Format.binary64.limit) :
    number? ((NumberStyle.signMark s).toList ++ unsignedText d) =
      some (.scalar (.float (signed s.isNegative d.nearest))) := by
  rw [unsignedText]
  rcases d.exists_parts with ⟨whole, fraction, hparts⟩
  have hnumber := number?_of_numeral hparts.numeral ('.' :: fraction) (by simp)
  rw [← hparts.text_eq, unsigned?_parts true hparts, unsigned?_parts false hparts,
    float_of_value true hparts.value_eq hlt, float_of_value false hparts.value_eq hlt] at hnumber
  cases s with
  | negative => exact hnumber.2
  | positive => exact hnumber.1

/-- The text of a number. -/
theorem toList_shortest (F : Format) (u : UnpackedFloat) :
    (numberStyle.shortest F u).toList =
      match u with
      | .notANumber => ['n', 'a', 'n']
      | .infinity s => (NumberStyle.signMark s).toList ++ ['i', 'n', 'f']
      | .zero s => (NumberStyle.signMark s).toList ++ unsignedText ⟨0, 0⟩
      | .finite s m e _ =>
        (NumberStyle.signMark s).toList ++ unsignedText (Binary.mk F m e).shortest := by
  unfold NumberStyle.shortest
  have hword : "nan".toList = ['n', 'a', 'n'] := rfl
  cases u with
  | notANumber => exact hword
  | infinity s => exact String.toList_append
  | zero s =>
      simp only [String.toList_append, List.append_assoc]
      rfl
  | finite s m e hm =>
      simp only [String.toList_append, String.toList_ofList, List.append_assoc]
      rw [unsignedText]
      split <;> rfl

/-- The text of a number is read as a number. -/
theorem number?_shortest {F : Format} {u : UnpackedFloat}
    (h : ∀ s m e hm, u = .finite s m e hm →
      Format.binary64.rounded (Binary.mk F m e).shortest.value < Format.binary64.limit) :
    number? (numberStyle.shortest F u).toList = some (.scalar (.float (reading F u))) := by
  rw [toList_shortest]
  cases u with
  | notANumber => rfl
  | infinity s => cases s <;> rfl
  | zero s =>
      have hlt : Format.binary64.rounded (Decimal.value ⟨0, 0⟩) < Format.binary64.limit := by
        rw [Decimal.value, Nat.cast_zero, zero_mul, Format.rounded_zero, Format.limit]
        positivity
      exact number?_decimal s ⟨0, 0⟩ hlt
  | finite s m e hm => exact number?_decimal s (Binary.mk F m e).shortest (h s m e hm rfl)

/-! ### The extent of a bare value -/

/-- A text that reaches as far as a bare value does, and is read as a value. -/
structure Reads (text : List Char) (v : Value) : Prop where
  ne_nil : text ≠ []
  isPart : ∀ c ∈ text, isPart c = true
  value?_eq : value? text = some v

theorem value?_of_number? {v : Value} (h : number? cs = some v) : value? cs = some v := by
  unfold value?
  split
  · have hnone : number? ['t', 'r', 'u', 'e'] = none := rfl
    exact absurd (hnone.symm.trans h) (Option.some_ne_none v).symm
  · have hnone : number? ['f', 'a', 'l', 's', 'e'] = none := rfl
    exact absurd (hnone.symm.trans h) (Option.some_ne_none v).symm
  · rw [h]
    rfl

theorem isPart_of_isDigit {c : Char} (h : c.isDigit = true) : Bare.isPart c = true := by
  simp [Bare.isPart, Char.isAlphanum, h]

/-- A bare value ends with its line. -/
theorem Reads.read_eq {text : List Char} {v : Value} (h : Reads text v) (rest : List Char) :
    read (text ++ '\n' :: rest) = some (v, '\n' :: rest) := by
  have hfirst : (text ++ '\n' :: rest).takeWhile Bare.isPart = text := by
    rw [List.takeWhile_append_of_pos h.isPart, List.takeWhile_cons_of_neg (by simp [Bare.isPart]),
      List.append_nil]
  -- A date may go on after a blank, but a line break ends it too.
  have htoken : token (text ++ '\n' :: rest) = text := by
    unfold token
    simp only
    rw [hfirst, List.drop_left]
    split
    · rename_i heq
      exact absurd (List.cons.inj heq).1 (by decide)
    · rfl
  unfold read
  simp only
  rw [htoken, h.value?_eq, List.drop_left]
  rfl

theorem reads_writeInteger {n : ℕ} (h : n < 2 ^ 64) :
    Reads (writeInteger n) (.scalar (.integer n)) := by
  have hwrite : writeInteger n = Nat.toDigits 10 n := if_neg (by omega)
  refine ⟨?_, ?_, value?_of_number? (number?_writeInteger h)⟩
  · rw [hwrite]
    exact Nat.toDigits_ne_nil
  · rw [hwrite]
    exact fun c hc => isPart_of_isDigit (Decimal.isDigit_of_mem_toDigits c hc)

theorem reads_flag (b : Bool) : Reads (Scalar.write (.boolean b)) (.scalar (.boolean b)) := by
  cases b with
  | true => exact ⟨List.cons_ne_nil _ _, by simp [Scalar.write, Bare.isPart], rfl⟩
  | false => exact ⟨List.cons_ne_nil _ _, by simp [Scalar.write, Bare.isPart], rfl⟩

theorem isPart_of_mem_unsignedText (d : Decimal) :
    ∀ c ∈ unsignedText d, Bare.isPart c = true := by
  rcases d.exists_parts with ⟨whole, fraction, hparts⟩
  intro c hc
  rw [unsignedText, hparts.text_eq, List.mem_append, List.mem_cons] at hc
  rcases hc with hc | rfl | hc
  · exact isPart_of_isDigit (hparts.numeral.isDigit c hc)
  · rfl
  · exact isPart_of_isDigit (hparts.isDigit c hc)

theorem isPart_of_mem_shortest {F : Format} {u : UnpackedFloat} :
    ∀ c ∈ (numberStyle.shortest F u).toList, Bare.isPart c = true := by
  have hsign (s : Sign) : ∀ c ∈ (NumberStyle.signMark s).toList, Bare.isPart c = true := by
    cases s <;> simp [NumberStyle.signMark, Bare.isPart]
  have hinf : ∀ c ∈ ['i', 'n', 'f'], Bare.isPart c = true := by simp [Bare.isPart]
  have hnan : ∀ c ∈ ['n', 'a', 'n'], Bare.isPart c = true := by simp [Bare.isPart]
  intro c hc
  rw [toList_shortest] at hc
  cases u with
  | notANumber => exact hnan c hc
  | infinity s =>
      -- The sign first, if any, then a word or an unsigned number.
      rcases List.mem_append.mp hc with hc | hc
      · exact hsign s c hc
      · exact hinf c hc
  | zero s =>
      rcases List.mem_append.mp hc with hc | hc
      · exact hsign s c hc
      · exact isPart_of_mem_unsignedText _ c hc
  | finite s m e hm =>
      rcases List.mem_append.mp hc with hc | hc
      · exact hsign s c hc
      · exact isPart_of_mem_unsignedText _ c hc

/-- The text of a number is read as a number. -/
theorem reads_shortest {F : Format} {u : UnpackedFloat}
    (h : ∀ s m e hm, u = .finite s m e hm →
      Format.binary64.rounded (Binary.mk F m e).shortest.value < Format.binary64.limit) :
    Reads (numberStyle.shortest F u).toList (.scalar (.float (reading F u))) := by
  -- The text is not empty, since nothing is read from an empty one.
  have hvalue := value?_of_number? (number?_shortest h)
  refine ⟨fun hnil => ?_, isPart_of_mem_shortest, hvalue⟩
  rw [hnil] at hvalue
  have hnone : value? [] = none := rfl
  exact absurd (hnone.symm.trans hvalue) (Option.some_ne_none _).symm

end Bare

end Toml

end FireControl
