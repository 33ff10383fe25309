import FireControl.Proofs.Numeric.Double
import FireControl.Proofs.Numeric.Interval
import FireControl.Proofs.Tracking.GracePeriod

/-!
# How Many Absences Use Up the Grace Period

With frames at a fixed interval the grace period should be over after as many absences as there are
intervals in it, a part of one counted as a whole. The lock does not count them. It takes the
interval off a rest, with rounding, and takes a rest of at most a nanosecond for none. That gets the
number right as long as the rounding stays below a nanosecond and the exact rest before the last
absence above it. Otherwise the robot is given up an absence too early or too late, and where the
interval is too short to be seen in the rest it is held for ever.

The rests do not increase, so all that matters is what is left before the last absence and after it
(`lasts_replicate_iff`). How far the rests are from the exact ones follows by induction: no rest is
greater than the grace period, so each subtraction is off by at most half of the last place of the
grace period, and the errors add up (`remaining_within`).

## Main definitions

* `TargetLock.absences`: Frames without a robot, at a fixed interval.
* `TargetLock.ExpiresAfter`: The number of absences after which a robot is given up.
* `TargetLock.slack`: How far a subtraction from a rest can be off.

## Theorems

* `lasts_iff`: The rests do not increase.
* `expiresAfter_succ_iff`: The last absence is the one in which the grace period ends.
* `remaining_within`: How far the rests are from the exact ones.
* `lasts_of_enough`, `not_lasts_of_used_up`: When the exact rest decides.
* `lasts_of_short`: An interval that is too short is lost in the rest.
* `expiresAfter_quotient_iff`: When the number of absences is the exact one.
-/

open Float.Model

namespace FireControl

namespace TargetLock

/-- Frames without a robot in view, one every `dt` seconds. -/
def absences (n : ℕ) (dt : Float) : List Sight :=
  List.replicate n ⟨[], dt⟩

/-- A robot that has just been taken is held through fewer than `n` absences, and given up in the
`n`-th. -/
def ExpiresAfter (ttlMax dt : Float) (n : ℕ) : Prop :=
  ∀ (lock : TargetLock) (s : Sight) (id : RobotId) (previous : Option RobotId),
    lock.ttlMax = ttlMax → (lock.see s).1.event = .acquired id previous →
    (∀ k < n, ((lock.see s).2.after (absences k dt)).target = some id) ∧
      ((lock.see s).2.after (absences n dt)).target = none

/-- The value of `negligible`. -/
def tolerance : ℚ :=
  4835703278458517 * 2 ^ (-82 : ℤ)

/-- How far a subtraction can be off whose result is at most `t`: half of the last place of `t`. -/
def slack (t : ℚ) : ℚ :=
  2 ^ Format.binary64.lastPlace t / 2

theorem hasValue_negligible : negligible.HasValue tolerance :=
  Float.hasValue_positive (m := 4835703278458517) (e := -82) (by decide) rfl
    (by norm_num [tolerance])

theorem slack_nonneg (t : ℚ) : 0 ≤ slack t := by
  rw [slack]
  positivity

/-! ### Absences at a fixed interval -/

section Cycles

variable {ttlMax dt grace : Float} {n : ℕ}

theorem absences_map_dt (n : ℕ) (dt : Float) :
    (absences n dt).map Sight.dt = List.replicate n dt :=
  List.map_replicate

theorem absences_lack (id : RobotId) (n : ℕ) (dt : Float) :
    ∀ s ∈ absences n dt, s.Lacks id := by
  intro s hs g hg
  rw [(List.mem_replicate.mp hs).2] at hg
  exact absurd hg List.not_mem_nil

theorem negligible_lt_of_sub (hdt : 0 ≤ dt) (h : negligible < grace - dt) : negligible < grace := by
  have hnumber := (Float.not_isNaN_of_le (Float.le_of_lt h)).2
  exact Float.lt_of_lt_of_le h (Float.sub_le hdt hnumber)

/-- The rests do not increase, so the last one decides whether the grace period lasts. -/
theorem lasts_iff (grace : Float) (intervals : List Float) (hnonneg : ∀ dt ∈ intervals, 0 ≤ dt) :
    Lasts grace intervals ↔ intervals = [] ∨ negligible < remaining grace intervals := by
  -- The rests are looked at from the last interval backwards.
  induction intervals using List.reverseRecOn with
  | nil => exact iff_of_true (lasts_nil grace) (Or.inl rfl)
  | append_singleton before dt ih =>
      have hbefore := ih fun t ht => hnonneg t (List.mem_append_left [dt] ht)
      have hdt : 0 ≤ dt := hnonneg dt (List.mem_append_right before List.mem_cons_self)
      have hrest : remaining grace (before ++ [dt]) = remaining grace before - dt :=
        remaining_append grace before [dt]
      rw [lasts_append, lasts_cons_iff, hrest, hbefore]
      constructor
      · rintro ⟨_, hlast, _⟩
        exact Or.inr hlast
      · rintro (hnil | hlast)
        · exact absurd hnil (List.concat_ne_nil dt before)
        · exact ⟨Or.inr (negligible_lt_of_sub hdt hlast), hlast, lasts_nil _⟩

theorem lasts_replicate_iff (hdt : 0 ≤ dt) (n : ℕ) :
    Lasts grace (List.replicate n dt) ↔
      n = 0 ∨ negligible < remaining grace (List.replicate n dt) := by
  rw [lasts_iff grace _ fun t ht => (List.mem_replicate.mp ht).2 ▸ hdt, List.replicate_eq_nil_iff]

theorem lasts_replicate_succ_iff (grace dt : Float) (n : ℕ) :
    Lasts grace (List.replicate (n + 1) dt) ↔ Lasts grace (List.replicate n dt) ∧
      negligible < remaining grace (List.replicate n dt) - dt := by
  rw [List.replicate_succ', lasts_append, lasts_cons_iff]
  exact ⟨fun h => ⟨h.1, h.2.1⟩, fun h => ⟨h.1, h.2, lasts_nil _⟩⟩

theorem lasts_replicate_of_le {k n : ℕ} (hle : k ≤ n) (h : Lasts grace (List.replicate n dt)) :
    Lasts grace (List.replicate k dt) := by
  rw [← Nat.add_sub_cancel' hle, List.replicate_add, lasts_append] at h
  exact h.1

theorem see_nothing (lock : TargetLock) (dt : Float) :
    (lock.see ⟨[], dt⟩).2.target = lock.target ∨ (lock.see ⟨[], dt⟩).2.target = none := by
  have hcycle := see_cycle lock ⟨[], dt⟩
  generalize lock.see ⟨[], dt⟩ = outcome at hcycle
  rcases outcome with ⟨selection, after⟩
  -- There is no group that could be taken.
  have nobody (g : Group) (nearest : Group.nearest? [] = some g) : False :=
    absurd (Group.nearest?_mem [] g nearest).1 List.not_mem_nil
  cases hcycle with
  | take g free nearest => exact absurd nearest (nobody g)
  | rest free nobody => exact Or.inl rfl
  | see i g held seen => exact Or.inl held.symm
  | wait i held unseen grace => exact Or.inl rfl
  | exchange i g held unseen spent nearest => exact absurd nearest (nobody g)
  | lose i held unseen spent nobody => exact Or.inr rfl

theorem after_absences_target (lock : TargetLock) (n : ℕ) (dt : Float) :
    (lock.after (absences n dt)).target = lock.target ∨
      (lock.after (absences n dt)).target = none := by
  induction n generalizing lock with
  | zero => exact Or.inl rfl
  | succ n ih =>
      have hnext : lock.after (absences (n + 1) dt) =
          (lock.see ⟨[], dt⟩).2.after (absences n dt) := rfl
      rw [hnext]
      rcases ih (lock.see ⟨[], dt⟩).2 with hsame | hnone
      · rw [hsame]
        exact see_nothing lock dt
      · exact Or.inr hnone

theorem after_absences_held_iff (lock : TargetLock) {id : RobotId} (held : lock.target = some id)
    (n : ℕ) (dt : Float) : (lock.after (absences n dt)).target = some id ↔
      Lasts lock.ttl (List.replicate n dt) := by
  have hlacks := absences_lack id n dt
  rw [← absences_map_dt]
  constructor
  · intro h
    by_contra hnot
    exact (after_of_not_lasts lock id _ held hlacks hnot).1 h
  · intro h
    rw [(after_of_lasts lock id _ held hlacks h).1]
    exact held

theorem after_absences_free_iff (lock : TargetLock) {id : RobotId} (held : lock.target = some id)
    (n : ℕ) (dt : Float) : (lock.after (absences n dt)).target = none ↔
      ¬ Lasts lock.ttl (List.replicate n dt) := by
  rw [← after_absences_held_iff lock held, ← held]
  rcases after_absences_target lock n dt with hsame | hnone
  · rw [hsame, held]
    exact iff_of_false (Option.some_ne_none id) (not_not.mpr rfl)
  · rw [hnone, held]
    exact iff_of_true rfl (Option.some_ne_none id).symm

/-- What a lock does with a robot that has just been taken depends on the grace period only. -/
theorem expiresAfter_iff_lasts (ttlMax dt : Float) (n : ℕ) :
    ExpiresAfter ttlMax dt n ↔ (∀ k < n, Lasts ttlMax (List.replicate k dt)) ∧
      ¬ Lasts ttlMax (List.replicate n dt) := by
  constructor
  · intro h
    -- A free lock that sees one robot has just taken it.
    rcases h (new ttlMax) ⟨[⟨⟨0⟩, [default]⟩], 0⟩ ⟨0⟩ none rfl rfl with ⟨hheld, hfree⟩
    have held : (⟨ttlMax, ttlMax, some ⟨0⟩⟩ : TargetLock).target = some ⟨0⟩ := rfl
    exact ⟨fun k hk => (after_absences_held_iff _ held k dt).mp (hheld k hk),
      (after_absences_free_iff _ held n dt).mp hfree⟩
  · rintro ⟨hlasts, hends⟩ lock s id previous hmax hevent
    have hsights : (lock.see s).1.event.Sights id := by
      rw [hevent]
      rfl
    -- Whatever the lock was before, it now has the robot and the whole grace period.
    rw [see_of_sights lock id s hsights]
    have held : (lock.hold id).target = some id := rfl
    have hwhole : (lock.hold id).ttl = ttlMax := hmax
    refine ⟨fun k hk => (after_absences_held_iff _ held k dt).mpr ?_,
      (after_absences_free_iff _ held n dt).mpr ?_⟩
    · rw [hwhole]
      exact hlasts k hk
    · rw [hwhole]
      exact hends

theorem expiresAfter_succ_iff (ttlMax dt : Float) (n : ℕ) :
    ExpiresAfter ttlMax dt (n + 1) ↔ Lasts ttlMax (List.replicate n dt) ∧
      ¬ Lasts ttlMax (List.replicate (n + 1) dt) := by
  rw [expiresAfter_iff_lasts]
  refine and_congr_left fun _ => ?_
  exact ⟨fun h => h n (Nat.lt_succ_self n),
    fun h k hk => lasts_replicate_of_le (Nat.le_of_lt_succ hk) h⟩

theorem not_expiresAfter_of_lasts (h : Lasts ttlMax (List.replicate n dt)) :
    ¬ ExpiresAfter ttlMax dt n :=
  fun hexpires => ((expiresAfter_iff_lasts ttlMax dt n).mp hexpires).2 h

/-- A grace period that is over at some time has ended in one of the absences before. -/
theorem exists_expiresAfter (h : ¬ Lasts ttlMax (List.replicate n dt)) :
    ∃ m ≤ n, ExpiresAfter ttlMax dt m := by
  induction n with
  | zero => exact absurd (lasts_nil ttlMax) h
  | succ n ih =>
      by_cases hlasts : Lasts ttlMax (List.replicate n dt)
      · exact ⟨n + 1, le_rfl, (expiresAfter_succ_iff ttlMax dt n).mpr ⟨hlasts, h⟩⟩
      · rcases ih hlasts with ⟨m, hm, hexpires⟩
        exact ⟨m, Nat.le_succ_of_le hm, hexpires⟩

end Cycles

/-! ### The rests and the exact ones -/

section Values

variable {ttlMax dt : Float} {t d : ℚ}

theorem rounded_within {x : ℚ} (hx : 0 < x) (hle : x ≤ t) :
    |Format.binary64.rounded x - x| ≤ slack t := by
  have habs : |x| ≤ |t| := abs_le_abs_of_nonneg hx.le hle
  have hplace := Format.lastPlace_mono (F := .binary64) hx.ne' habs
  have hpow : (2 : ℚ) ^ Format.binary64.lastPlace x ≤ 2 ^ Format.binary64.lastPlace t :=
    zpow_le_zpow_right₀ one_le_two hplace
  have herror := Format.abs_rounded_sub_le .binary64 x
  rw [slack]
  linarith

theorem pos_of_rounded_pos {x : ℚ} (h : 0 < Format.binary64.rounded x) : 0 < x := by
  by_contra hnot
  have hle := Format.rounded_mono (F := .binary64) (not_lt.mp hnot)
  rw [Format.rounded_zero] at hle
  exact absurd h (not_lt.mpr hle)

theorem tolerance_pos : 0 < tolerance := by
  norm_num [tolerance]

theorem rounded_tolerance : Format.binary64.rounded tolerance = tolerance :=
  hasValue_negligible.rounded

variable (ht : ttlMax.HasValue t) (hd : dt.HasValue d) (htpos : 0 < t) (hdpos : 0 < d)
include ht hd htpos hdpos

/-- While the grace period lasts, each absence brings the rest away from the exact one by at most
the slack of the grace period. -/
theorem remaining_within (n : ℕ) (lasts : Lasts ttlMax (List.replicate n dt)) :
    ∃ r, (remaining ttlMax (List.replicate n dt)).HasValue r ∧ 0 < r ∧ r ≤ t ∧
      |r - (t - n * d)| ≤ n * slack t := by
  induction n with
  | zero => exact ⟨t, ht, htpos, le_rfl, by norm_num⟩
  | succ n ih =>
      rw [lasts_replicate_succ_iff] at lasts
      rcases lasts with ⟨hbefore, hnow⟩
      rcases ih hbefore with ⟨r, hr, hrpos, hrt, herror⟩
      have hvalue := hr.sub_of_nonneg hd hrpos.le hdpos.le
      have hleft : tolerance < Format.binary64.rounded (r - d) :=
        (hasValue_negligible.lt_iff hvalue).mp hnow
      -- Since something is left the difference is positive, and no greater than `t`.
      have hpos : 0 < r - d := pos_of_rounded_pos (tolerance_pos.trans hleft)
      have hstep := rounded_within hpos (by linarith : r - d ≤ t)
      refine ⟨Format.binary64.rounded (r - d), ?_, tolerance_pos.trans hleft, ?_, ?_⟩
      · rw [List.replicate_succ', remaining_append]
        exact hvalue
      · calc Format.binary64.rounded (r - d) ≤ Format.binary64.rounded t :=
              Format.rounded_mono (by linarith)
          _ = t := ht.rounded
      · rw [abs_le] at herror hstep ⊢
        push_cast
        constructor <;> linarith

/-- The grace period lasts where more than the tolerance is left of it, exactly counted, after all
errors. -/
theorem lasts_of_enough (n : ℕ) (enough : tolerance + n * slack t < t - n * d) :
    Lasts ttlMax (List.replicate n dt) := by
  induction n with
  | zero => exact lasts_nil ttlMax
  | succ n ih =>
      push_cast at enough
      have hslack := slack_nonneg t
      have hbefore := ih (by linarith)
      rcases remaining_within ht hd htpos hdpos n hbefore with ⟨r, hr, hrpos, hrt, herror⟩
      -- The difference is more than the tolerance by at least the error that rounding it makes.
      have hlow := (abs_le.mp herror).1
      have hpos : 0 < r - d := by linarith [tolerance_pos]
      have hstep := (abs_le.mp (rounded_within hpos (by linarith : r - d ≤ t))).1
      rw [lasts_replicate_succ_iff]
      refine ⟨hbefore, ?_⟩
      rw [hasValue_negligible.lt_iff (hr.sub_of_nonneg hd hrpos.le hdpos.le)]
      linarith

/-- The grace period does not last where no more than the tolerance is left of it, exactly counted,
with all errors but that of the last subtraction. -/
theorem not_lasts_of_used_up (n : ℕ) (used : t - (n + 1) * d + n * slack t ≤ tolerance) :
    ¬ Lasts ttlMax (List.replicate (n + 1) dt) := by
  rw [lasts_replicate_succ_iff]
  rintro ⟨hbefore, hnow⟩
  rcases remaining_within ht hd htpos hdpos n hbefore with ⟨r, hr, hrpos, -, herror⟩
  rw [hasValue_negligible.lt_iff (hr.sub_of_nonneg hd hrpos.le hdpos.le)] at hnow
  -- The tolerance is a number of the format, so what is not above it is not rounded above it.
  have hhigh := (abs_le.mp herror).2
  have hle : Format.binary64.rounded (r - d) ≤ Format.binary64.rounded tolerance :=
    Format.rounded_mono (by linarith)
  rw [rounded_tolerance] at hle
  exact absurd hnow (not_lt.mpr hle)

omit hd in
theorem rounded_sub_short (short : 4 * d < 2 ^ Format.binary64.lastPlace t) :
    Format.binary64.rounded (t - d) = t := by
  rcases UnpackedFloat.HasValue.cases ht with
    ⟨_, -, hzero⟩ | ⟨sign, m, e, hm, -, hcanonical, hvalue⟩
  · exact absurd hzero htpos.ne'
  have hnonneg : (0 : ℚ) ≤ m * 2 ^ e := by positivity
  cases sign with
  | negative =>
      have hneg : t = -(m * 2 ^ e) := hvalue
      exact absurd htpos (by linarith)
  | positive =>
      have hpos : t = m * 2 ^ e := hvalue
      -- The subtrahend is less than a quarter of the last place, too little to move the result.
      rw [hpos, hcanonical.lastPlace] at short
      have hsmall : |-d| < 2 ^ e / 4 := by
        rw [abs_neg, abs_of_pos hdpos]
        linarith
      rw [hpos, sub_eq_add_neg]
      exact hcanonical.rounded_add_small hsmall

/-- With such an interval the grace period does not end. -/
theorem lasts_of_short (short : 4 * d < 2 ^ Format.binary64.lastPlace t) (more : tolerance < t)
    (n : ℕ) : Lasts ttlMax (List.replicate n dt) ∧
      (remaining ttlMax (List.replicate n dt)).HasValue t := by
  induction n with
  | zero => exact ⟨lasts_nil ttlMax, ht⟩
  | succ n ih =>
      have hvalue := ih.2.sub_of_nonneg hd htpos.le hdpos.le
      rw [rounded_sub_short ht htpos hdpos short] at hvalue
      constructor
      · rw [lasts_replicate_succ_iff]
        exact ⟨ih.1, (hasValue_negligible.lt_iff hvalue).mpr more⟩
      · rw [List.replicate_succ', remaining_append]
        exact hvalue

/-- The robot is given up in the right absence where the rests are near enough to the exact ones. -/
theorem expiresAfter_of_enough (n : ℕ) (exact : t - (n + 1) * d ≤ 0)
    (accurate : n * slack t ≤ tolerance)
    (enough : n = 0 ∨ tolerance + n * slack t < t - n * d) : ExpiresAfter ttlMax dt (n + 1) := by
  rw [expiresAfter_succ_iff]
  constructor
  · rcases enough with rfl | henough
    · exact lasts_nil ttlMax
    · exact lasts_of_enough ht hd htpos hdpos n henough
  · exact not_lasts_of_used_up ht hd htpos hdpos n (by linarith)

/-- Whether the lock counts right. With a grace period of `t` seconds and frames at an interval of
`d` seconds let `n` be the exact quotient, rounded up. A robot that has just been taken is given up
in the `n`-th absence in a row exactly when the computed rest is more than the negligible before it,
unless it is the first one, and not after it. That is so where the errors of the subtractions before
add up to at most the tolerance and what is left before the last absence, exactly counted, is more
than the tolerance and these errors. Where it is not more than the tolerance even with the errors,
the robot is given up too early, and where the interval is less than a quarter of the last place of
the grace period, never. -/
theorem expiresAfter_quotient_iff {n : ℕ} (hn : ⌈t / d⌉₊ = n) :
    (ExpiresAfter ttlMax dt n ↔
      (n = 1 ∨ negligible < remaining ttlMax (List.replicate (n - 1) dt)) ∧
        ¬ negligible < remaining ttlMax (List.replicate n dt)) ∧
    ((n - 1) * slack t ≤ tolerance →
      n = 1 ∨ tolerance + (n - 1) * slack t < t - (n - 1) * d → ExpiresAfter ttlMax dt n) ∧
    (1 < n → t - (n - 1) * d + (n - 2) * slack t ≤ tolerance →
      ∃ m < n, ExpiresAfter ttlMax dt m) ∧
    (4 * d < 2 ^ Format.binary64.lastPlace t → tolerance < t →
      ∀ m, ¬ ExpiresAfter ttlMax dt m) := by
  have hquotient : t ≤ n * d := by
    rw [← div_le_iff₀ hdpos, ← hn]
    exact Nat.le_ceil _
  have hdt : 0 ≤ dt := (Float.hasValue_zero.le_iff hd).mpr hdpos.le
  -- The quotient is positive, so there is a last absence, with `k` absences before it.
  obtain ⟨k, rfl⟩ : ∃ k, n = k + 1 := by
    apply Nat.exists_eq_succ_of_ne_zero
    rw [← hn]
    exact (Nat.ceil_pos.mpr (div_pos htpos hdpos)).ne'
  push_cast at hquotient ⊢
  refine ⟨?_, fun haccurate henough => ?_, fun hmany hused => ?_, fun hshort hmore m => ?_⟩
  · rw [expiresAfter_succ_iff, lasts_replicate_iff hdt, lasts_replicate_iff hdt]
    simp
  · rw [add_sub_cancel_right] at haccurate henough
    exact expiresAfter_of_enough ht hd htpos hdpos k (by linarith) haccurate henough
  · obtain ⟨j, rfl⟩ : ∃ j, k = j + 1 := Nat.exists_eq_succ_of_ne_zero (by omega)
    push_cast at hused
    have hover := not_lasts_of_used_up ht hd htpos hdpos j (by linarith)
    rcases exists_expiresAfter hover with ⟨m, hm, hexpires⟩
    exact ⟨m, Nat.lt_succ_of_le hm, hexpires⟩
  · exact not_expiresAfter_of_lasts (lasts_of_short ht hd htpos hdpos hshort hmore m).1

end Values

/-- At 50 frames a second a grace period of one second ends in the 50th absence. -/
theorem expiresAfter_quotient_iff_second :
    let d : ℚ := 5764607523034235 * 2 ^ (-58 : ℤ)
    (Span.ofMilliseconds 20).seconds = 0.02 ∧
    (1 : Float).HasValue 1 ∧ (0.02 : Float).HasValue d ∧ 0 < d ∧ ⌈1 / d⌉₊ = 50 ∧
    ExpiresAfter 1 0.02 50 := by
  intro d
  have ht : (1 : Float).HasValue 1 :=
    Float.hasValue_positive (m := 2 ^ 52) (e := -52) (by decide) rfl (by norm_num)
  have hd : (0.02 : Float).HasValue d :=
    Float.hasValue_positive (m := 5764607523034235) (e := -58) (by decide) rfl (by norm_num [d])
  have hdpos : 0 < d := by norm_num [d]
  have hn : ⌈1 / d⌉₊ = 50 := by
    rw [Nat.ceil_eq_iff (by norm_num)]
    norm_num [d]
  have hplace : Format.binary64.lastPlace 1 = -52 := by
    have h := Format.Canonical.lastPlace (F := .binary64) (m := 2 ^ 52) (e := -52)
      ⟨by decide, by decide, by decide, by decide⟩
    norm_num at h
    exact h
  have hslack : slack 1 = 2 ^ (-53 : ℤ) := by
    rw [slack, hplace]
    norm_num
  -- Half a last place of 1 is far below the tolerance, so the exact quotient decides.
  refine ⟨by decide +kernel, ht, hd, hdpos, hn,
    (expiresAfter_quotient_iff ht hd one_pos hdpos hn).2.1 ?_ (Or.inr ?_)⟩
  · rw [hslack]
    norm_num [tolerance]
  · rw [hslack]
    norm_num [tolerance, d]

/-- The number of absences is not always the exact one. At three frames a second, in whole
nanoseconds, one nanosecond of a second is left after three absences, and the robot is given up
then. With a long grace period and a tenth of it between two frames the period is over in the tenth
absence, but the rounding has left a rest and the robot is still held. -/
theorem not_expiresAfter_quotient :
    let d₁ : ℚ := 6004799497155862 * 2 ^ (-54 : ℤ)
    let d₂ : ℚ := 7205759403792794 * 2 ^ (-33 : ℤ)
    ((⟨333333333⟩ : Span).seconds = 0.333333333 ∧ (0.333333333 : Float).HasValue d₁ ∧
      ⌈1 / d₁⌉₊ = 4 ∧ ¬ ExpiresAfter 1 0.333333333 4) ∧
    ((⟨838860800000000⟩ : Span).seconds = 838860.8 ∧ (838860.8 : Float).HasValue d₂ ∧
      ⌈8388608 / d₂⌉₊ = 10 ∧ ¬ ExpiresAfter 8388608 838860.8 10) := by
  intro d₁ d₂
  -- Both sequences of subtractions are evaluated: three absences spend the first grace
  -- period and ten do not spend the second.
  have hearly : ¬ Lasts 1 (List.replicate 3 0.333333333) := by
    rw [lasts_replicate_iff (by decide +kernel)]
    decide +kernel
  have hlate : Lasts 8388608 (List.replicate 10 838860.8) := by
    rw [lasts_replicate_iff (by decide +kernel)]
    exact Or.inr (by decide +kernel)
  refine ⟨⟨by decide +kernel, ?_, ?_, ?_⟩, by decide +kernel, ?_, ?_, ?_⟩
  · exact Float.hasValue_positive (m := 6004799497155862) (e := -54) (by decide) rfl
      (by norm_num [d₁])
  · rw [Nat.ceil_eq_iff (by norm_num)]
    norm_num [d₁]
  · exact fun h => hearly ((expiresAfter_succ_iff 1 _ 3).mp h).1
  · exact Float.hasValue_positive (m := 7205759403792794) (e := -33) (by decide) rfl
      (by norm_num [d₂])
  · rw [Nat.ceil_eq_iff (by norm_num)]
    norm_num [d₂]
  · exact not_expiresAfter_of_lasts hlate

end TargetLock

end FireControl
