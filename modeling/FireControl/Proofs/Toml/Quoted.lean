import Mathlib
import FireControl.Toml.Quoted

/-!
# Strings Read Back

Every string is read as it was written, whatever it holds. There are four forms, and what has to be
shown of each is that its reader does not stop early: no quote that belongs to the contents may look
like the closing ones. On one line the quotes of the form do not occur, or have an escape. Over
several lines up to two in a row may stand as they are, and the closing three may follow two more
that belong to the contents, which the reader gives back.

A line break follows the string, as it does in a settings file. Without it a quote could follow,
and the reader would take it for one of the string.

## Theorems

* `Quoted.basic_flatMap`, `Quoted.literal_append`: The forms on one line.
* `Quoted.basicLines_escapedLines`, `Quoted.literalLines_append`: The forms over several lines.
* `Quoted.read_write`: Every string is read as it was written.
-/

namespace FireControl

namespace Toml

namespace Quoted

/-! ### Escapes -/

/-- A control character is written with its code point. -/
theorem hexEscape?_of_isControl {c : Char} (h : isControl c = true) (tail : List Char) :
    (padLeft 4 '0' ((Nat.toDigits 16 c.toNat).map Char.toUpper)).length = 4 ∧
      hexEscape? 4 (padLeft 4 '0' ((Nat.toDigits 16 c.toNat).map Char.toUpper) ++ tail) =
        some c := by
  have hlt : c.toNat < 128 := by
    unfold isControl at h
    rw [Bool.or_eq_true, Bool.and_eq_true, decide_eq_true_iff, decide_eq_true_iff,
      decide_eq_true_iff] at h
    omega
  -- There are few control characters, and each is looked at.
  have htable : ∀ n < 128, isControl (Char.ofNat n) = true →
      (padLeft 4 '0' ((Nat.toDigits 16 n).map Char.toUpper)).length = 4 ∧
        hexEscape? 4 (padLeft 4 '0' ((Nat.toDigits 16 n).map Char.toUpper)) =
          some (Char.ofNat n) := by
    decide +kernel
  have hc := htable c.toNat hlt (by rwa [Char.ofNat_toNat])
  rw [Char.ofNat_toNat] at hc
  generalize padLeft 4 '0' ((Nat.toDigits 16 c.toNat).map Char.toUpper) = digits at hc ⊢
  -- Only the four digits count, whatever follows them.
  refine ⟨hc.1, ?_⟩
  have hescape := hc.2
  unfold hexEscape? at hescape ⊢
  rw [List.take_of_length_le hc.1.le] at hescape
  rw [← hc.1, List.take_left, hc.1]
  exact hescape

/-- The text of a character: itself, where a reader takes it for itself, or an escape. -/
theorem escaped_cases (c : Char) :
    (escaped c = [c] ∧ c ≠ '"' ∧ c ≠ '\\' ∧ isControl c = false) ∨
      ∃ e, escaped c = '\\' :: e ∧ ∀ tail,
        escape? (e ++ tail) = some (c, e.length) ∧ escapedNewline? (e ++ tail) = none := by
  unfold escaped
  split
  -- The seven characters with an escape of their own: each is read back by evaluation.
  · exact Or.inr ⟨_, rfl, fun _ => ⟨rfl, rfl⟩⟩
  · exact Or.inr ⟨_, rfl, fun _ => ⟨rfl, rfl⟩⟩
  · exact Or.inr ⟨_, rfl, fun _ => ⟨rfl, rfl⟩⟩
  · exact Or.inr ⟨_, rfl, fun _ => ⟨rfl, rfl⟩⟩
  · exact Or.inr ⟨_, rfl, fun _ => ⟨rfl, rfl⟩⟩
  · exact Or.inr ⟨_, rfl, fun _ => ⟨rfl, rfl⟩⟩
  · exact Or.inr ⟨_, rfl, fun _ => ⟨rfl, rfl⟩⟩
  · rename_i hquote hbackslash
    split
    · rename_i hcontrol
      refine Or.inr ⟨_, rfl, fun tail => ⟨?_, rfl⟩⟩
      rcases hexEscape?_of_isControl hcontrol tail with ⟨hlength, hescape⟩
      rw [List.length_cons, hlength]
      exact congrArg (Option.map fun c => (c, 5)) hescape
    · rename_i hcontrol
      exact Or.inl ⟨rfl, hquote, hbackslash, by simpa using hcontrol⟩

/-! ### On one line -/

theorem basic_escaped (c : Char) (tail : List Char) :
    basic (escaped c ++ tail) = (basic tail).map fun (s, rest) => (c :: s, rest) := by
  rcases escaped_cases c with ⟨htext, hquote, hbackslash, hcontrol⟩ | ⟨e, htext, hescape⟩
  · rw [htext, List.singleton_append, basic]
    · rw [if_neg (by rw [hcontrol]; exact Bool.false_ne_true)]
    · exact hquote
    · exact hbackslash
  · rw [htext, List.cons_append, basic, (hescape tail).1]
    simp only
    rw [List.drop_left]

theorem basic_flatMap (s rest : List Char) :
    basic (s.flatMap escaped ++ '"' :: rest) = some (s, rest) := by
  induction s with
  | nil => simp [basic]
  | cons c s ih =>
      rw [List.flatMap_cons, List.append_assoc, basic_escaped, ih]
      rfl

theorem literal_append {s : List Char} (h : ∀ c ∈ s, c ≠ '\'' ∧ isControl c = false)
    (rest : List Char) : literal (s ++ '\'' :: rest) = some (s, rest) := by
  induction s with
  | nil => rfl
  | cons c s ih =>
      rcases h c List.mem_cons_self with ⟨hquote, hcontrol⟩
      rw [List.cons_append, literal, ih fun d hd => h d (List.mem_cons_of_mem _ hd)]
      · rw [if_neg (by rw [hcontrol]; exact Bool.false_ne_true)]
        rfl
      · exact hquote

/-! ### Over several lines -/

theorem basicLines_escaped (c : Char) (tail : List Char) :
    basicLines (escaped c ++ tail) = (basicLines tail).map fun (s, rest) => (c :: s, rest) := by
  rcases escaped_cases c with ⟨htext, hquote, hbackslash, hcontrol⟩ | ⟨e, htext, hescape⟩
  · have hreturn : c ≠ '\r' := by
      rintro rfl
      exact absurd hcontrol (by decide)
    rw [htext, List.singleton_append, basicLines]
    · rw [if_neg (by rw [hcontrol]; simp)]
    · exact fun cs heq => absurd heq hquote
    · exact hbackslash
    · exact fun cs heq => absurd heq hreturn
  · rw [htext, List.cons_append, basicLines, (hescape tail).2, (hescape tail).1]
    simp only
    rw [List.drop_left]

theorem basicLines_newline (tail : List Char) :
    basicLines ('\n' :: tail) = (basicLines tail).map fun (s, rest) => ('\n' :: s, rest) := by
  rw [basicLines]
  · rw [if_neg (by simp)]
  · exact fun cs heq => absurd heq (by decide)
  · decide
  · exact fun cs heq => absurd heq (by decide)

theorem closing_newline {quote : Char} (h : quote ≠ '\n') (rest : List Char) :
    closing quote ('\n' :: rest) = ([], '\n' :: rest) := by
  cases rest with
  | nil => exact if_neg h.symm
  | cons c cs => exact if_neg h.symm

/-- A quote that two others do not follow belongs to the contents. -/
theorem basicLines_quote {tail : List Char} (h : ∀ cs, tail ≠ '"' :: '"' :: cs) :
    basicLines ('"' :: tail) = (basicLines tail).map fun (s, rest) => ('"' :: s, rest) := by
  rw [basicLines]
  · rw [if_neg (by decide)]
  · exact fun cs _ heq => h cs heq
  · decide
  · exact fun cs heq => absurd heq (by decide)

/-- The text of a string starts with a quote only where one without an escape does. -/
theorem head_escapedLines {c : Char} (run : ℕ) (h : c = '"' → 2 ≤ run) (cs tail : List Char) :
    ∃ d ds, escapedLines run (c :: cs) ++ tail = d :: ds ∧ d ≠ '"' := by
  -- A quote opens with a backslash at the third in a row, and a newline is kept as itself.
  by_cases hquote : c = '"'
  · subst hquote
    rw [escapedLines, if_neg (by have := h rfl; omega)]
    exact ⟨_, _, rfl, by decide⟩
  · by_cases hline : c = '\n'
    · subst hline
      exact ⟨_, _, rfl, by decide⟩
    · rw [escapedLines]
      · rcases escaped_cases c with ⟨htext, -, -, -⟩ | ⟨e, htext, -⟩
        · rw [htext]
          exact ⟨_, _, rfl, hquote⟩
        · rw [htext]
          exact ⟨_, _, rfl, by decide⟩
      · exact hquote
      · exact hline

theorem basicLines_escapedLines (run : ℕ) (s rest : List Char) :
    basicLines (escapedLines run s ++ '"' :: '"' :: '"' :: '\n' :: rest) =
      some (s, '\n' :: rest) := by
  induction s generalizing run with
  | nil => rw [escapedLines, List.nil_append, basicLines, closing_newline (by decide)]
  | cons c s ih =>
      by_cases hquote : c = '"'
      · subst hquote
        rw [escapedLines]
        split
        · rename_i hrun
          rw [List.cons_append]
          -- One or two quotes at the end stand directly before the closing ones.
          cases s with
          | nil =>
              rw [escapedLines, List.nil_append, basicLines]
              rfl
          | cons d s =>
              by_cases hlast : d = '"' ∧ s = [] ∧ run = 0
              · rcases hlast with ⟨rfl, rfl, rfl⟩
                rw [escapedLines, if_pos (by norm_num), escapedLines, List.singleton_append,
                  basicLines]
                rfl
              · -- In all other cases what follows is not two quotes: a third one has an escape.
                rw [basicLines_quote, ih (run + 1)]
                · rfl
                · intro cs heq
                  by_cases hd : d = '"' → 2 ≤ run + 1
                  · rcases head_escapedLines (run + 1) hd s ('"' :: '"' :: '"' :: '\n' :: rest) with
                      ⟨a, as, htext, ha⟩
                    rw [htext] at heq
                    exact ha (List.cons.inj heq).1
                  · rw [not_forall] at hd
                    rcases hd with ⟨rfl, hd⟩
                    rw [escapedLines, if_pos (by omega), List.cons_append] at heq
                    cases s with
                    | nil => exact hlast ⟨rfl, rfl, by omega⟩
                    | cons b s =>
                        rcases head_escapedLines (c := b) (run + 1 + 1) (fun _ => by omega) s
                            ('"' :: '"' :: '"' :: '\n' :: rest) with ⟨a, as, htext, ha⟩
                        rw [htext] at heq
                        exact ha (List.cons.inj (List.cons.inj heq).2).1
        · have hescaped := basicLines_escaped '"'
            (escapedLines 0 s ++ '"' :: '"' :: '"' :: '\n' :: rest)
          rw [ih 0] at hescaped
          exact hescaped
      · by_cases hline : c = '\n'
        · subst hline
          rw [escapedLines, List.cons_append, basicLines_newline, ih 0]
          rfl
        · rw [escapedLines, List.append_assoc, basicLines_escaped, ih 0]
          · rfl
          · exact hquote
          · exact hline

/-- The longest run is at least as long as the one that was known and the one that is open. -/
theorem le_longestRun (quote : Char) (run longest : ℕ) (s : List Char) :
    longest ≤ longestRun quote run longest s := by
  induction s generalizing run longest with
  | nil => exact le_refl _
  | cons c s ih =>
      unfold longestRun
      split
      · exact (le_max_left _ _).trans (ih _ _)
      · exact ih _ _

theorem longestRun_pos {quote : Char} {s : List Char} (h : quote ∈ s) (run longest : ℕ) :
    0 < longestRun quote run longest s := by
  induction s generalizing run longest with
  | nil => exact absurd h List.not_mem_nil
  | cons c s ih =>
      unfold longestRun
      split
      · have := le_longestRun quote (run + 1) (max longest (run + 1)) s
        omega
      · rename_i hne
        exact ih ((List.mem_cons.mp h).resolve_left fun heq => hne heq.symm) _ _

theorem three_le_longestRun (quote : Char) (run longest : ℕ) (s : List Char) :
    3 ≤ longestRun quote run longest (quote :: quote :: quote :: s) := by
  rw [longestRun, if_pos rfl, longestRun, if_pos rfl, longestRun, if_pos rfl]
  have := le_longestRun quote (run + 1 + 1 + 1)
    (max (max (max longest (run + 1)) (run + 1 + 1)) (run + 1 + 1 + 1)) s
  omega

/-- The runs of what follows a character are not longer. -/
theorem exists_longestRun_tail {quote c : Char} {run longest : ℕ} {s : List Char}
    (h : longestRun quote run longest (c :: s) ≤ 2) :
    ∃ run longest, longestRun quote run longest s ≤ 2 := by
  unfold longestRun at h
  split at h
  · exact ⟨_, _, h⟩
  · exact ⟨_, _, h⟩

theorem literalLines_append {run longest : ℕ} {s : List Char}
    (hcontrol : ∀ c ∈ s, isControl c = true → c = '\n')
    (hrun : longestRun '\'' run longest s ≤ 2) (rest : List Char) :
    literalLines (s ++ '\'' :: '\'' :: '\'' :: '\n' :: rest) = some (s, '\n' :: rest) := by
  induction s generalizing run longest with
  | nil => rw [List.nil_append, literalLines, closing_newline (by decide)]
  | cons c s ih =>
      obtain ⟨run', longest', hrun'⟩ := exists_longestRun_tail hrun
      have htail := ih (fun d hd => hcontrol d (List.mem_cons_of_mem _ hd)) hrun'
      have hreturn : c ≠ '\r' := by
        rintro rfl
        exact absurd (hcontrol '\r' List.mem_cons_self (by decide)) (by decide)
      rw [List.cons_append]
      -- One or two quotes at the end stand directly before the closing ones.
      by_cases hend : c = '\'' ∧ (s = [] ∨ s = ['\''])
      · rcases hend with ⟨rfl, rfl | rfl⟩
        · rfl
        · rfl
      · -- Three quotes in a row, which would close the string, do not occur in it.
        rw [literalLines, htail]
        · rw [if_neg (fun h => h.2 (hcontrol c List.mem_cons_self h.1))]
          rfl
        · rintro cs rfl heq
          cases s with
          | nil => exact hend ⟨rfl, Or.inl rfl⟩
          | cons d s =>
              have hd : d = '\'' := (List.cons.inj heq).1
              subst hd
              cases s with
              | nil => exact hend ⟨rfl, Or.inr rfl⟩
              | cons e s =>
                  have he : e = '\'' := (List.cons.inj (List.cons.inj heq).2).1
                  subst he
                  have := three_le_longestRun '\'' run longest s
                  omega
        · exact fun cs heq => absurd heq hreturn

/-! ### All forms -/

theorem isControl_of_needsEscape_eq_false {s : List Char} (h : needsEscape s = false) :
    ∀ c ∈ s, isControl c = true → c = '\n' := by
  intro c hc hcontrol
  by_contra hne
  have hmem := List.any_eq_false.mp h c hc
  rw [hcontrol, decide_eq_true hne] at hmem
  exact hmem rfl

/-- Single quotes are only chosen for what can stand between them. -/
theorem form_eq_literal {s : List Char} (h : form s = .literal) :
    ∀ c ∈ s, c ≠ '\'' ∧ isControl c = false := by
  unfold form at h
  simp only at h
  split_ifs at h with hbasic hliteral
  · rw [Bool.and_eq_true, Bool.and_eq_true, Bool.not_eq_true', Bool.not_eq_true',
      decide_eq_true_iff] at hliteral
    intro c hc
    constructor
    -- A quote would be a run of at least one, and the literal form allows none.
    · rintro rfl
      have := longestRun_pos hc 0 0
      omega
    -- The only control character left is the newline, and the form excludes it too.
    · by_contra hcontrol
      have hline := isControl_of_needsEscape_eq_false hliteral.1.1 c hc
        (by simpa using hcontrol)
      rw [hline, ← List.contains_iff_mem] at hc
      rw [hc] at hliteral
      exact absurd hliteral.2 (by decide)

theorem form_eq_literalLines {s : List Char} (h : form s = .literalLines) :
    (∀ c ∈ s, isControl c = true → c = '\n') ∧ longestRun '\'' 0 0 s ≤ 2 := by
  unfold form at h
  simp only at h
  split_ifs at h with hbasic hliteral hlines hliteralLines
  · rw [Bool.and_eq_true, Bool.not_eq_true', decide_eq_true_iff] at hliteralLines
    exact ⟨isControl_of_needsEscape_eq_false hliteralLines.1, hliteralLines.2⟩

/-- The line break in front of a text that runs over several lines does not belong to it. -/
theorem trimNewline_start {s body : List Char}
    (h : '\n' ∉ s → ∀ c ∈ body.head?, c ≠ '\n' ∧ c ≠ '\r') :
    trimNewline ((if s.contains '\n' then ['\n'] else []) ++ body) = body := by
  -- A text with a newline gets one more in front, which is the one that is trimmed.
  by_cases hline : '\n' ∈ s
  · rw [if_pos (List.contains_iff_mem.mpr hline)]
    rfl
  · rw [if_neg (fun hmem => hline (List.contains_iff_mem.mp hmem)), List.nil_append]
    cases body with
    | nil => rfl
    | cons c cs =>
        rcases h hline c rfl with ⟨hnewline, hreturn⟩
        unfold trimNewline afterNewline?
        split
        · rename_i heq
          exact absurd (List.cons.inj heq).1 hnewline
        · rename_i heq
          exact absurd (List.cons.inj heq).1 hreturn
        · rfl

theorem head?_escapedLines {s : List Char} (h : '\n' ∉ s) (tail : List Char) :
    ∀ c ∈ (escapedLines 0 s ++ '"' :: tail).head?, c ≠ '\n' ∧ c ≠ '\r' := by
  cases s with
  | nil => simp [escapedLines]
  | cons c s =>
      have hline : c ≠ '\n' := fun heq => h (heq ▸ List.mem_cons_self)
      by_cases hquote : c = '"'
      · subst hquote
        simp [escapedLines]
      · rw [escapedLines]
        -- Unescaped means no control character, so no carriage return; an escape starts with `\`.
        · rcases escaped_cases c with ⟨htext, -, -, hcontrol⟩ | ⟨e, htext, -⟩
          · rw [htext]
            have hreturn : c ≠ '\r' := by
              rintro rfl
              exact absurd hcontrol (by decide)
            simp [hline, hreturn]
          · rw [htext]
            simp
        · exact hquote
        · exact hline

theorem read_basic {text : List Char} (h : ∀ cs, text ≠ '"' :: '"' :: cs) :
    read ('"' :: text) = basic text := by
  unfold read
  split
  · rename_i heq
    exact absurd (List.cons.inj heq).2 (h _)
  · rename_i heq
    exact absurd (List.cons.inj heq).1 (by decide)
  · rfl

theorem read_literal {text : List Char} (h : ∀ cs, text ≠ '\'' :: '\'' :: cs) :
    read ('\'' :: text) = literal text := by
  unfold read
  split
  · rename_i heq
    exact absurd (List.cons.inj heq).1 (by decide)
  · rename_i heq
    exact absurd (List.cons.inj heq).2 (h _)
  · rfl

/-- Every string is read as it was written. -/
theorem read_write (s rest : List Char) :
    read (write s ++ '\n' :: rest) = some (s, '\n' :: rest) := by
  unfold write
  simp only
  cases hform : form s with
  | basic =>
      simp only [List.cons_append, List.append_assoc, List.nil_append]
      rw [read_basic, basic_flatMap]
      -- Two quotes after the first would open a string over several lines.
      intro cs heq
      cases s with
      | nil => exact absurd (List.cons.inj (List.cons.inj heq).2).1 (by decide)
      | cons c s =>
          rw [List.flatMap_cons, List.append_assoc] at heq
          rcases escaped_cases c with ⟨htext, hquote, -, -⟩ | ⟨e, htext, -⟩
          · rw [htext] at heq
            exact hquote (List.cons.inj heq).1
          · rw [htext] at heq
            exact absurd (List.cons.inj heq).1 (by decide)
  | literal =>
      have hplain := form_eq_literal hform
      simp only [List.cons_append, List.append_assoc, List.nil_append]
      rw [read_literal, literal_append hplain]
      intro cs heq
      cases s with
      | nil => exact absurd (List.cons.inj (List.cons.inj heq).2).1 (by decide)
      | cons c s => exact (hplain c List.mem_cons_self).1 (List.cons.inj heq).1
  | basicLines =>
      simp only [List.cons_append, List.append_assoc, List.nil_append]
      rw [read, trimNewline_start fun h => head?_escapedLines h _, basicLines_escapedLines]
  | literalLines =>
      rcases form_eq_literalLines hform with ⟨hcontrol, hrun⟩
      simp only [List.cons_append, List.append_assoc, List.nil_append]
      rw [read, trimNewline_start, literalLines_append hcontrol hrun]
      intro hline c hc
      cases s with
      | nil =>
          have hc' : '\'' = c := Option.some.inj hc
          subst hc'
          decide
      | cons d s =>
          have hd : d = c := Option.some.inj hc
          subst hd
          refine ⟨fun heq => hline (heq ▸ List.mem_cons_self), ?_⟩
          rintro rfl
          exact absurd (hcontrol '\r' List.mem_cons_self (by decide)) (by decide)

end Quoted

end Toml

end FireControl
