import FireControl.Proofs.Geometry.Folding

/-!
# The Plate That Faces the Camera

A heading decides twice which plate faces the camera: its sector tells the radius, and its fold into
the quarter turn around the optical axis tells the direction. Both count quarter turns. The sector
folds the heading onto the whole turn first, adds an eighth of a turn and rounds the quotient by a
quarter turn down. The fold adds the eighth at once and takes the remainder. If the counts agree,
the direction turned by the sector is the heading again.

They agree but for three headings next to an eighth of a turn on either side. Folding onto the whole
turn adds half a turn and subtracts it again, which leaves a heading on the grid of the last place
of that sum, and next to an eighth of a turn that grid is coarser than the numbers.

Both counts grow with the heading, because rounding keeps order. So it is enough to know them at the
ends of a few stretches of headings, between which there are only the three.

## Main definitions

* `Plate.turn`: The number of quarter turns that the sector counts.
* `Plate.Folds`: The number of quarter turns that the fold takes off.
* `Plate.FoldedBy`: The same, as seen from the directions.
* `Plate.SamePlate`: The direction turned by the sector is the heading again.
* `Plate.misjudged`: The headings for which it is not.
* `Plate.Stretch`, `Plate.stretches`: Headings between two ends, and those that cover the turn.

## Theorems

* `turn_mono`: The sector counts more quarter turns for a greater heading.
* `Folds.foldedBy`: What the fold takes off shows in the direction.
* `samePlate_of_folds`: Where the counts agree, radius and direction belong to one plate.
* `Stretch.folds_turn`, `stretches_cover`: The counts agree on stretches, which leave out three
  headings.
* `samePlate_iff`: For which headings radius and direction belong to one plate.
-/

namespace FireControl

open Float.Model Angle

namespace Plate

/-- The number of quarter turns that the sector counts. -/
def turn (yaw : Float32) : ℤ :=
  floor32 ((wrap yaw + quarterPi) / halfPi)

/-- The fold of a heading takes `n` quarter turns off. -/
def Folds (yaw : Float32) (n : ℤ) : Prop :=
  ∃ s r, (yaw + quarterPi).HasValue s ∧ IsRest (-24) s n r

/-- But for rounding, the direction of the plate that faces the camera is that of the heading less
`n` quarter turns. -/
def FoldedBy (yaw : Float32) (n : ℤ) : Prop :=
  ∃ v w : ℚ, yaw.HasValue v ∧ (facing yaw).HasValue w ∧ |v - n * (halfTurn / 2) - w| ≤ 1 / 2 ^ 20

/-- The direction of the plate that faces the camera, turned by the heading's sector, is the heading
again: it is less than half of a sector away. -/
def SamePlate (yaw : Float32) : Prop :=
  distance (facing yaw + Float32.ofInteger (sector yaw) * halfPi) yaw < quarterPi

instance : DecidablePred SamePlate := fun yaw =>
  inferInstanceAs (Decidable (distance _ yaw < quarterPi))

/-- Headings next to an eighth of a turn for which the sector is that of the plate beside. -/
def misjudged : List Float32 :=
  [-quarterPi, .ofBits 0xBF490FDA, .ofBits 0x3F490FDA]

variable {a b yaw : Float32} {n : ℤ} {x y : ℚ}

/-! ### Counting quarter turns -/

theorem floor32_mono (hx : a.HasValue x) (hy : b.HasValue y) (hle : x ≤ y) :
    floor32 a ≤ floor32 b := by
  have hfloor : ⌊x⌋ ≤ ⌊y⌋ := Int.floor_le_floor hle
  unfold floor32
  rw [hx.floorInt, hy.floorInt]
  exact max_le_max le_rfl (min_le_min hfloor le_rfl)

/-- A heading on the turn around zero has a value. -/
theorem exists_hasValue_of_range (hlow : -pi ≤ yaw) (hhigh : yaw < pi) :
    ∃ x, yaw.HasValue x ∧ -halfAt (-22) ≤ x ∧ x < halfAt (-22) := by
  have finite := Float32.isFinite_of_between halves_pi.neg_hasValue.isFinite
    halves_pi.half_hasValue.isFinite hlow (Float32.le_of_lt hhigh)
  rcases Float32.exists_hasValue finite with ⟨x, hx, -⟩
  exact ⟨x, hx, (halves_pi.neg_hasValue.le_iff hx).mp hlow,
    (hx.lt_iff halves_pi.half_hasValue).mp hhigh⟩

/-- On the turn around zero, nothing remains of folding but a sum and a difference. -/
theorem wrap_hasValue_of_range (hx : yaw.HasValue x) (hlow : -halfAt (-22) ≤ x)
    (hhigh : x < halfAt (-22)) :
    (wrap yaw).HasValue (Format.binary32.rounded (x + halfAt (-22)) - halfAt (-22)) := by
  rcases halves_pi.centred_hasValue hx with ⟨q, r, hrest, -, hvalue⟩
  have hnonneg := Format.rounded_nonneg (F := .binary32) (neg_le_iff_add_nonneg.mp hlow)
  have hlt : Format.binary32.rounded (x + halfAt (-22)) < 2 * halfAt (-22) := by
    -- The greatest heading is one place below half a turn.
    have hle : x + halfAt (-22) ≤ (26353589 : ℤ) * 2 ^ (-22 : ℤ) := by
      rcases Format.le_or_succ_le (n := 13176794) (e := -22) hx.rounded (by decide) with h | h
      · norm_num [halfAt] at h ⊢
        linarith
      · norm_num [halfAt] at h hhigh
        linarith
    exact (Format.rounded_mono hle).trans_lt
      (rounded_rest_lt (by decide) (OnGrid.multiple _ _) (by norm_num [halfAt]))
  rw [(hrest.unique (IsRest.of_lt_turn hnonneg hlt)).2, Format.rounded_rounded] at hvalue
  rw [wrap_eq_fold]
  exact hvalue

/-- The quotient that the sector rounds down. -/
theorem quotient_hasValue (hx : yaw.HasValue x) (hlow : -halfAt (-22) ≤ x)
    (hhigh : x < halfAt (-22)) :
    ((wrap yaw + quarterPi) / halfPi).HasValue (Format.binary32.rounded (Format.binary32.rounded
      (Format.binary32.rounded (x + halfAt (-22)) - halfAt (-22) + halfAt (-24)) /
        (2 * halfAt (-24)))) := by
  have hwrap := wrap_hasValue_of_range hx hlow hhigh
  have hsum := hwrap.add_small halves_quarterPi.half_hasValue halves_quarterPi.abs_halfAt_le
  have hpos : (0 : ℚ) < 2 * halfAt (-24) := mul_pos two_pos (halfAt_pos _)
  refine hsum.div halves_quarterPi.turn_hasValue hpos.ne' ?_
  -- No quotient by a number above one leaves the range of the format.
  have hone : (1 : ℚ) ≤ 2 * halfAt (-24) := by norm_num [halfAt]
  refine abs_rounded_lt_limit ?_
  rw [abs_div, abs_of_pos hpos]
  refine (div_le_self (abs_nonneg _) hone).trans_lt ((abs_le_greatest hsum).trans_lt ?_)
  norm_num [greatestSingle]

/-- The sector counts more quarter turns for a greater heading. -/
theorem turn_mono (hx : a.HasValue x) (hy : b.HasValue y) (hlow : -halfAt (-22) ≤ x) (hle : x ≤ y)
    (hhigh : y < halfAt (-22)) : turn a ≤ turn b := by
  have hpos : (0 : ℚ) ≤ 2 * halfAt (-24) := mul_nonneg two_pos.le (halfAt_pos _).le
  refine floor32_mono (quotient_hasValue hx hlow (hle.trans_lt hhigh))
    (quotient_hasValue hy (hlow.trans hle) hhigh) ?_
  have hwrap := sub_le_sub_right (Format.rounded_mono (F := .binary32)
    (add_le_add_left hle (halfAt (-22)))) (halfAt (-22))
  have hsum := Format.rounded_mono (F := .binary32) (add_le_add_left hwrap (halfAt (-24)))
  exact Format.rounded_mono (div_le_div_of_nonneg_right hsum hpos)

/-! ### The direction -/

/-- A small number that is near to another one is still near to it when it is rounded. -/
theorem rounded_near {d : ℚ} (h : |x| < 16) (hnear : |x - y| ≤ d) :
    |Format.binary32.rounded x - y| ≤ d + 1 / 2 ^ 21 := by
  have herror := Format.abs_rounded_sub_le_of_lt (F := .binary32) (x := x) (e := -20) (by decide)
    (by rw [binary32_mantissaBits]; norm_num; exact h)
  norm_num at herror
  calc |Format.binary32.rounded x - y| ≤ |Format.binary32.rounded x - x| + |x - y| :=
        abs_sub_le _ _ _
    _ ≤ d + 1 / 2 ^ 21 := by norm_num; linarith

theorem abs_rounded_le {c : ℚ} (h : |x| ≤ c) (hc : c < 16) :
    |Format.binary32.rounded x| ≤ c + 1 / 2 ^ 21 := by
  have hnear := rounded_near (h.trans_lt hc) (y := 0) (d := c) (by rwa [sub_zero])
  rwa [sub_zero] at hnear

/-- A folded angle is near to the angle less whole turns. -/
theorem centred_near {e : ℤ} {r : ℚ} {angle half whole : Float32} (h : Halves half whole e)
    (he : e ≤ -22) (hx : angle.HasValue x) (hsmall : |x| ≤ 12)
    (hrest : IsRest e (Format.binary32.rounded (x + halfAt e)) n r) :
    ∃ w, (centred half whole angle).HasValue w ∧
      |w - (x - n * (2 * halfAt e))| ≤ 1 / 2 ^ 20 := by
  rcases h.centred_hasValue hx with ⟨q, r', hrest', -, hvalue⟩
  rw [(hrest'.unique hrest).2] at hvalue
  refine ⟨_, hvalue, ?_⟩
  have hpos := halfAt_pos e
  -- Every turn in use is at most a whole one, so the sums stay below sixteen.
  have hle : halfAt e ≤ 7 / 2 := by
    have hpow : (2 : ℚ) ^ e ≤ 2 ^ (-22 : ℤ) := zpow_le_zpow_right₀ one_le_two he
    unfold halfAt
    norm_num at hpow ⊢
    linarith
  rcases abs_le.mp hsmall with ⟨hlow, hhigh⟩
  -- Two roundings happen, of the sum and of the rest, and each is off by 2 ^ -21 at most.
  have hsum := rounded_near (x := x + halfAt e) (y := x + halfAt e) (d := 0)
    (abs_lt.mpr ⟨by linarith, by linarith⟩) (by rw [sub_self, abs_zero])
  have hnonneg := hrest.nonneg
  have hlt := hrest.lt
  have hdivision : r - (x + halfAt e - n * (2 * halfAt e)) =
      Format.binary32.rounded (x + halfAt e) - (x + halfAt e) := by
    linarith [hrest.division]
  have hrestSmall : |r| < 16 := abs_lt.mpr ⟨by linarith, by linarith⟩
  have hnear := rounded_near hrestSmall (hdivision ▸ hsum)
  have hshift : Format.binary32.rounded r - halfAt e - (x - n * (2 * halfAt e)) =
      Format.binary32.rounded r - (x + halfAt e - n * (2 * halfAt e)) := by
    ring
  rw [hshift]
  exact hnear.trans (by norm_num)

/-- What the fold takes off shows in the direction. -/
theorem Folds.facing_hasValue (h : Folds yaw n) (hx : yaw.HasValue x) (hsmall : |x| ≤ 12) :
    ∃ w, (facing yaw).HasValue w ∧ |w - (x - n * (2 * halfAt (-24)))| ≤ 1 / 2 ^ 20 := by
  rcases h with ⟨s, r, hs, hrest⟩
  have hsum := hx.add_small halves_quarterPi.half_hasValue halves_quarterPi.abs_halfAt_le
  rw [hs.unique hsum] at hrest
  exact centred_near halves_quarterPi (by decide) hx hsmall hrest

theorem Folds.foldedBy (h : Folds yaw n) (hx : yaw.HasValue x) (hsmall : |x| ≤ 12) :
    FoldedBy yaw n := by
  rcases h.facing_hasValue hx hsmall with ⟨w, hw, hnear⟩
  refine ⟨x, w, hx, hw, ?_⟩
  have hquarter : halfTurn / 2 = 2 * halfAt (-24) := by norm_num [halfTurn, halfAt]
  rwa [hquarter, abs_sub_comm]

/-- A difference that is near to some whole turns is a short distance on the circle. -/
theorem distance_lt {d : ℚ} {j : ℤ} (hd : (a - b).HasValue d) (hsmall : |d| ≤ 12)
    (hnear : |d - j * (2 * halfAt (-22))| ≤ 1 / 2) : distance a b < quarterPi := by
  -- Only the rough size of the constants matters, because the margins are wide.
  have hhalf : (3 : ℚ) < halfAt (-22) ∧ halfAt (-22) < 4 := by norm_num [halfAt]
  have hquarter : (3 / 4 : ℚ) < halfAt (-24) := by norm_num [halfAt]
  rcases abs_le.mp hsmall with ⟨hlow, hhigh⟩
  rcases abs_le.mp hnear with ⟨hbelow, habove⟩
  have hsum := rounded_near (x := d + halfAt (-22)) (y := j * (2 * halfAt (-22)) + halfAt (-22))
    (d := 1 / 2) (abs_lt.mpr ⟨by linarith, by linarith⟩) (by rwa [add_sub_add_right_eq_sub])
  rcases abs_le.mp hsum with ⟨hsumLow, hsumHigh⟩
  norm_num at hsumLow hsumHigh
  -- What is near to `j` turns lies in the middle of the turn, so no rounding leaves it.
  have hrest : IsRest (-22) (Format.binary32.rounded (d + halfAt (-22))) j
      (Format.binary32.rounded (d + halfAt (-22)) - j * (2 * halfAt (-22))) :=
    ⟨by ring, by linarith, by linarith⟩
  rcases centred_near halves_pi le_rfl hd hsmall hrest with ⟨w, hw, hfolded⟩
  rcases abs_le.mp hfolded with ⟨hfoldedLow, hfoldedHigh⟩
  norm_num at hfoldedLow hfoldedHigh
  have hwrap : (wrap (a - b)).HasValue w := by
    rw [wrap_eq_fold]
    exact hw
  have habs : |w| < halfAt (-24) := abs_lt.mpr ⟨by linarith, by linarith⟩
  exact (hwrap.abs.lt_iff halves_quarterPi.half_hasValue).mpr habs

/-- The angle that the sector turns by, which is rounded for three quarters. -/
theorem sector_hasValue (yaw : Float32) :
    ∃ v, (Float32.ofInteger (sector yaw) * halfPi).HasValue v ∧ |v| ≤ 5 ∧
      |v - (turn yaw % 4 : ℤ) * (2 * halfAt (-24))| ≤ 1 / 2 ^ 21 := by
  have hsector : (sector yaw : ℤ) = turn yaw % 4 :=
    Int.toNat_of_nonneg (Int.emod_nonneg _ four_ne_zero)
  have hlt : sector yaw ≤ 3 := by
    have hmod := Int.emod_lt_of_pos (turn yaw) four_pos
    omega
  -- A sector is one of four small integers, which are exact.
  have hrounded : Format.binary32.rounded (sector yaw : ℚ) = sector yaw := by
    have hinteger := Format.rounded_of_multiple (F := .binary32) (n := sector yaw) (e := 0)
      (by rw [Nat.abs_cast]; exact_mod_cast hlt.trans (by decide)) (by decide)
    rwa [zpow_zero, mul_one, Int.cast_natCast] at hinteger
  have hinteger := (Float32.ofInteger_small (k := 2) (hlt.trans (by decide)) (by decide)).1
  rw [hrounded] at hinteger
  have hcast : (sector yaw : ℚ) ≤ 3 := by exact_mod_cast hlt
  have hnonneg : (0 : ℚ) ≤ sector yaw := Nat.cast_nonneg _
  have hproduct : |(sector yaw : ℚ) * (2 * halfAt (-24))| ≤ 24 / 5 := by
    rw [abs_of_nonneg (mul_nonneg hnonneg (mul_nonneg two_pos.le (halfAt_pos _).le))]
    norm_num [halfAt]
    linarith
  have hvalue := hinteger.mul halves_quarterPi.turn_hasValue
    (abs_rounded_lt_limit (hproduct.trans_lt (by norm_num)))
  -- The product is the only rounding, and it is off by half a last place.
  have hnear := rounded_near (y := (sector yaw : ℚ) * (2 * halfAt (-24))) (d := 0)
    (hproduct.trans_lt (by norm_num)) (by rw [sub_self, abs_zero])
  have hbound := abs_rounded_le hproduct (by norm_num)
  refine ⟨_, hvalue, hbound.trans (by norm_num), ?_⟩
  rw [← hsector, Int.cast_natCast]
  exact hnear.trans (by norm_num)

/-- Where the counts agree, radius and direction belong to the same plate. -/
theorem samePlate_of_folds (h : Folds yaw (turn yaw)) (hx : yaw.HasValue x) (hsmall : |x| ≤ 4) :
    SamePlate yaw := by
  -- The direction, the sum with the sector's angle and the difference from the heading are rounded
  -- in turn, and every error is small against an eighth of a turn.
  rcases h.facing_hasValue hx (hsmall.trans (by norm_num)) with ⟨w, hw, hfacing⟩
  rcases sector_hasValue yaw with ⟨v, hv, hvsmall, hsector⟩
  have hwsmall : |w| ≤ 1 := by
    have hrange := halves_quarterPi.centred_range hx.isFinite
    have hlow := (halves_quarterPi.neg_hasValue.le_iff hw).mp hrange.1
    have hhigh := (hw.lt_iff halves_quarterPi.half_hasValue).mp hrange.2
    norm_num [halfAt] at hlow hhigh
    exact abs_le.mpr ⟨by linarith, by linarith⟩
  have hsumSmall : |w + v| ≤ 6 := (abs_add_le w v).trans (by linarith)
  have hsumLimit : |w + v| < 16 := hsumSmall.trans_lt (by norm_num)
  have hsum := hw.add hv (abs_rounded_lt_limit (hsumSmall.trans_lt (by norm_num)))
  have hsumNear := rounded_near hsumLimit (d := 1 / 2 ^ 20 + 1 / 2 ^ 21)
    (y := x - turn yaw * (2 * halfAt (-24)) + (turn yaw % 4 : ℤ) * (2 * halfAt (-24)))
    (by
      rw [add_sub_add_comm]
      exact (abs_add_le _ _).trans (add_le_add hfacing hsector))
  have hsumBound := abs_rounded_le hsumSmall (by norm_num)
  have hdifferenceSmall : |Format.binary32.rounded (w + v) - x| ≤ 11 :=
    (abs_sub _ _).trans (by linarith)
  have hdifference := hsum.sub_small hx (hsmall.trans (by norm_num))
  -- Sector and heading differ by a multiple of four quarters.
  have hwhole : x - turn yaw * (2 * halfAt (-24)) + (turn yaw % 4 : ℤ) * (2 * halfAt (-24)) - x =
      (-(turn yaw / 4) : ℤ) * (2 * halfAt (-22)) := by
    have hfour : halfAt (-22) = 4 * halfAt (-24) := by norm_num [halfAt]
    rw [Int.emod_def, hfour]
    push_cast
    ring
  have hdifferenceNear := rounded_near (hdifferenceSmall.trans_lt (by norm_num))
    (y := (-(turn yaw / 4) : ℤ) * (2 * halfAt (-22))) (d := 1 / 2 ^ 20 + 1 / 2 ^ 21 + 1 / 2 ^ 21)
    (by rwa [← hwhole, sub_sub_sub_cancel_right])
  exact distance_lt hdifference
    ((abs_rounded_le hdifferenceSmall (by norm_num)).trans (by norm_num))
    (hdifferenceNear.trans (by norm_num))

/-! ### Where the counts agree -/

/-- A stretch of headings, the quarter turns that are counted on it, and marks between which the sum
with an eighth of a turn lies if the fold takes as many off. -/
structure Stretch where
  quarters : ℤ
  low : Float32
  high : Float32
  first : Float32
  last : Float32

/-- Both counts are right at the ends of a stretch. -/
def Stretch.RightAtEnds (t : Stretch) : Prop :=
  (-pi ≤ t.low ∧ t.low < pi) ∧ (-pi ≤ t.high ∧ t.high < pi) ∧
    (turn t.low = t.quarters ∧ turn t.high = t.quarters) ∧
    t.first ≤ t.low + quarterPi ∧ t.high + quarterPi < t.last

instance : DecidablePred Stretch.RightAtEnds := fun _ =>
  inferInstanceAs (Decidable (_ ∧ _))

/-- The first mark of a stretch is its quarter turns, and the last is at most one quarter more. -/
def Stretch.Marked (t : Stretch) : Prop :=
  t.first.HasValue (t.quarters * (2 * halfAt (-24))) ∧
    ∃ l, t.last.HasValue l ∧ l ≤ (t.quarters + 1) * (2 * halfAt (-24))

/-- The counts agree on all of a stretch if they do so at its ends, since both grow with the
heading. -/
theorem Stretch.folds_turn {t : Stretch} (hends : t.RightAtEnds) (hmarked : t.Marked)
    (hlow : t.low ≤ yaw) (hhigh : yaw ≤ t.high) : Folds yaw (turn yaw) := by
  rcases hends with ⟨hleast, hgreatest, hturn, habove, hbelow⟩
  rcases hmarked with ⟨hfirst, l, hlast, hl⟩
  rcases exists_hasValue_of_range hleast.1 hleast.2 with ⟨y, hy, hy₁, -⟩
  rcases exists_hasValue_of_range hgreatest.1 hgreatest.2 with ⟨z, hz, -, hz₂⟩
  have finite := Float32.isFinite_of_between hy.isFinite hz.isFinite hlow hhigh
  rcases Float32.exists_hasValue finite with ⟨x, hx, -⟩
  have hyx : y ≤ x := (hy.le_iff hx).mp hlow
  have hxz : x ≤ z := (hx.le_iff hz).mp hhigh
  -- The turn is monotone and the same at both ends, so it is the same in between.
  have hsame : turn yaw = t.quarters := by
    have hfrom := turn_mono hy hx hy₁ hyx (hxz.trans_lt hz₂)
    have hto := turn_mono hx hz (hy₁.trans hyx) hxz hz₂
    omega
  have hsum {v : Float32} {x : ℚ} (hx : v.HasValue x) :
      (v + quarterPi).HasValue (Format.binary32.rounded (x + halfAt (-24))) :=
    hx.add_small halves_quarterPi.half_hasValue halves_quarterPi.abs_halfAt_le
  rw [hfirst.le_iff (hsum hy)] at habove
  rw [(hsum hz).lt_iff hlast] at hbelow
  -- So is the sum with half a quarter, which stays between the marks of the stretch.
  have hfrom := Format.rounded_mono (F := .binary32) (add_le_add_left hyx (halfAt (-24)))
  have hto := Format.rounded_mono (F := .binary32) (add_le_add_left hxz (halfAt (-24)))
  rw [hsame]
  exact ⟨_, _, hsum hx, (add_sub_cancel _ _).symm, by linarith, by linarith⟩

/-- The stretches between the misjudged headings and the headings at which the counts change. -/
def stretches : List Stretch :=
  [⟨-2, -pi, .ofBits 0xC016CBE5, -pi, -halfPi⟩,
    ⟨-1, .ofBits 0xC016CBE4, .ofBits 0xBF490FDC, -halfPi, 0⟩,
    ⟨0, .ofBits 0xBF490FD9, .ofBits 0x3F490FD9, 0, halfPi⟩,
    ⟨1, quarterPi, .ofBits 0x4016CBE3, halfPi, pi⟩,
    ⟨2, .ofBits 0x4016CBE4, .ofBits 0x40490FDA, pi, 4⟩]

theorem rightAtEnds_stretches : ∀ t ∈ stretches, t.RightAtEnds := by
  decide +kernel

theorem marked_stretches : ∀ t ∈ stretches, t.Marked := by
  have hneg : (-halfPi).HasValue (-halfAt (-23)) :=
    hasValue_negative (m := 13176795) (e := -23) (by decide) rfl rfl
  have hfour : (4 : Float32).HasValue 4 :=
    hasValue_positive (m := 2 ^ 23) (e := -21) (by decide) rfl (by norm_num)
  -- Both marks are quarter turns as computed, and only the last mark of all is no multiple.
  have hmarked {n : ℤ} {low high first last : Float32} {f l : ℚ} (hfirst : first.HasValue f)
      (hf : f = n * (2 * halfAt (-24))) (hlast : last.HasValue l)
      (hl : l ≤ (n + 1) * (2 * halfAt (-24))) : (Stretch.mk n low high first last).Marked :=
    ⟨hf ▸ hfirst, l, hlast, hl⟩
  intro t ht
  simp only [stretches, List.mem_cons, List.not_mem_nil, or_false] at ht
  rcases ht with rfl | rfl | rfl | rfl | rfl
  · exact hmarked halves_pi.neg_hasValue (by norm_num [halfAt]) hneg (by norm_num [halfAt])
  · exact hmarked hneg (by norm_num [halfAt]) hasValue_zero (by norm_num [halfAt])
  · exact hmarked hasValue_zero (by norm_num [halfAt]) halves_quarterPi.turn_hasValue
      (by norm_num [halfAt])
  · exact hmarked halves_quarterPi.turn_hasValue (by norm_num [halfAt]) halves_pi.half_hasValue
      (by norm_num [halfAt])
  · exact hmarked halves_pi.half_hasValue (by norm_num [halfAt]) hfour (by norm_num [halfAt])

/-- Between two neighbours of the format there is no heading. -/
theorem le_or_next_le {m : ℕ} {e : ℤ} {ha hb} (hx : yaw.HasValue x) (hm : 2 ^ 23 ≤ m)
    (hunpackA : a.toModel.unpack = .finite .positive m e ha)
    (hunpackB : b.toModel.unpack = .finite .positive (m + 1) e hb) : yaw ≤ a ∨ b ≤ yaw := by
  rw [hx.le_iff (hasValue_positive ha hunpackA rfl), (hasValue_positive hb hunpackB rfl).le_iff hx]
  exact_mod_cast Format.le_or_succ_le (n := m) hx.rounded (by exact_mod_cast hm)

theorem le_or_next_le_of_neg {m : ℕ} {e : ℤ} {ha hb} (hx : yaw.HasValue x) (hm : 2 ^ 23 ≤ m)
    (hunpackA : a.toModel.unpack = .finite .negative (m + 1) e ha)
    (hunpackB : b.toModel.unpack = .finite .negative m e hb) : yaw ≤ a ∨ b ≤ yaw := by
  have hneg : Format.binary32.rounded (-x) = -x := by rw [Format.rounded_neg, hx.rounded]
  rw [hx.le_iff (hasValue_negative ha hunpackA rfl), (hasValue_negative hb hunpackB rfl).le_iff hx,
    le_neg, neg_le, or_comm]
  exact_mod_cast Format.le_or_succ_le (n := m) hneg (by exact_mod_cast hm)

theorem eq_of_le_of_le (hx : yaw.HasValue x) (ha : a.HasValue y) (hy : y ≠ 0) (hlow : a ≤ yaw)
    (hhigh : yaw ≤ a) : yaw = a := by
  have hxy : x = y := le_antisymm ((hx.le_iff ha).mp hhigh) ((ha.le_iff hx).mp hlow)
  exact (hxy ▸ hx).eq ha hy

/-- Every heading but the misjudged ones is on a stretch. -/
theorem stretches_cover (hlow : -pi ≤ yaw) (hhigh : yaw < pi) :
    yaw ∈ misjudged ∨ ∃ t ∈ stretches, t.low ≤ yaw ∧ yaw ≤ t.high := by
  rcases exists_hasValue_of_range hlow hhigh with ⟨x, hx, -, -⟩
  have hmisjudged {a : Float32} {y : ℚ} (ha : a.HasValue y) (hy : y ≠ 0) (hmem : a ∈ misjudged)
      (hlow : a ≤ yaw) (hhigh : yaw ≤ a) : yaw ∈ misjudged :=
    eq_of_le_of_le hx ha hy hlow hhigh ▸ hmem
  -- Three eighths of a turn to the left.
  rcases le_or_next_le_of_neg (a := .ofBits 0xC016CBE5) (b := .ofBits 0xC016CBE4) (m := 9882596)
    (e := -22) hx (by decide) rfl rfl with h | h₁
  · exact Or.inr ⟨stretches[0], List.getElem_mem _, hlow, h⟩
  -- An eighth of a turn to the left, where two headings are misjudged.
  rcases le_or_next_le_of_neg (a := .ofBits 0xBF490FDC) (b := -quarterPi) (m := 13176795)
    (e := -24) hx (by decide) rfl rfl with h | h₂
  · exact Or.inr ⟨stretches[1], List.getElem_mem _, h₁, h⟩
  rcases le_or_next_le_of_neg (a := -quarterPi) (b := .ofBits 0xBF490FDA) (m := 13176794)
    (e := -24) hx (by decide) rfl rfl with h | h₃
  · exact Or.inl (hmisjudged halves_quarterPi.neg_hasValue (by norm_num [halfAt])
      (by simp [misjudged]) h₂ h)
  rcases le_or_next_le_of_neg (a := .ofBits 0xBF490FDA) (b := .ofBits 0xBF490FD9) (m := 13176793)
    (e := -24) hx (by decide) rfl rfl with h | h₄
  · exact Or.inl (hmisjudged (hasValue_negative (m := 13176794) (e := -24) (by decide) rfl rfl)
      (by norm_num) (by simp [misjudged]) h₃ h)
  -- An eighth of a turn to the right, where one is.
  rcases le_or_next_le (a := .ofBits 0x3F490FD9) (b := .ofBits 0x3F490FDA) (m := 13176793)
    (e := -24) hx (by decide) rfl rfl with h | h₅
  · exact Or.inr ⟨stretches[2], List.getElem_mem _, h₄, h⟩
  rcases le_or_next_le (a := .ofBits 0x3F490FDA) (b := quarterPi) (m := 13176794)
    (e := -24) hx (by decide) rfl rfl with h | h₆
  · exact Or.inl (hmisjudged (hasValue_positive (m := 13176794) (e := -24) (by decide) rfl rfl)
      (by norm_num) (by simp [misjudged]) h₅ h)
  -- Three eighths of a turn to the right, and half a turn.
  rcases le_or_next_le (a := .ofBits 0x4016CBE3) (b := .ofBits 0x4016CBE4) (m := 9882595)
    (e := -22) hx (by decide) rfl rfl with h | h₇
  · exact Or.inr ⟨stretches[3], List.getElem_mem _, h₆, h⟩
  rcases le_or_next_le (a := .ofBits 0x40490FDA) (b := pi) (m := 13176794)
    (e := -22) hx (by decide) rfl rfl with h | h
  · exact Or.inr ⟨stretches[4], List.getElem_mem _, h₇, h⟩
  · exact absurd hhigh (Float32.not_lt_of_le h)

/-- The counts agree for all headings on the turn around zero but the misjudged ones. -/
theorem folds_turn (hlow : -pi ≤ yaw) (hhigh : yaw < pi) :
    yaw ∈ misjudged ∨ Folds yaw (turn yaw) := by
  rcases stretches_cover hlow hhigh with h | ⟨t, ht, hlow, hhigh⟩
  · exact Or.inl h
  · exact Or.inr
      (Stretch.folds_turn (rightAtEnds_stretches t ht) (marked_stretches t ht) hlow hhigh)

/-- A heading takes no quarter turn off if it lies within an eighth of a turn. -/
theorem folds_zero (hlow : 0 ≤ yaw + quarterPi) (hhigh : yaw + quarterPi < halfPi) :
    Folds yaw 0 := by
  have finite := Float32.isFinite_of_between hasValue_zero.isFinite
    halves_quarterPi.turn_hasValue.isFinite hlow (Float32.le_of_lt hhigh)
  rcases Float32.exists_hasValue finite with ⟨s, hs, -⟩
  exact ⟨s, s, hs, IsRest.of_lt_turn ((hasValue_zero.le_iff hs).mp hlow)
    ((hs.lt_iff halves_quarterPi.turn_hasValue).mp hhigh)⟩

/-- A misjudged heading is its own direction, but its sector is odd. -/
theorem not_samePlate_of_misjudged (h : yaw ∈ misjudged) :
    Folds yaw 0 ∧ ¬ SamePlate yaw ∧ sector yaw % 2 = 1 := by
  have hall : ∀ yaw ∈ misjudged, (0 ≤ yaw + quarterPi ∧ yaw + quarterPi < halfPi) ∧
      ¬ SamePlate yaw ∧ sector yaw % 2 = 1 := by
    decide +kernel
  rcases hall yaw h with ⟨hbetween, hother⟩
  exact ⟨folds_zero hbetween.1 hbetween.2, hother⟩

/-- For which headings radius and direction belong to the same plate: for all on the turn around
zero but three, which lie next to an eighth of a turn. The heading is folded by some number of
quarter turns into the direction. Where radius and direction belong to the same plate, the radius is
that of even sectors if the number is even, and the other if it is odd. For the three headings the
number is zero, and the radius is that of odd sectors all the same. -/
theorem samePlate_iff (yaw : Float32) (hlow : -pi ≤ yaw) (hhigh : yaw < pi) :
    (SamePlate yaw ↔ yaw ∉ misjudged) ∧
    ∃ n : ℤ, FoldedBy yaw n ∧
      (SamePlate yaw → ∀ even odd, radius yaw even odd = if n % 2 = 0 then even else odd) ∧
      (¬ SamePlate yaw → n = 0 ∧ ∀ even odd, radius yaw even odd = odd) := by
  rcases exists_hasValue_of_range hlow hhigh with ⟨x, hx, hleast, hgreatest⟩
  have hhalf : halfAt (-22) ≤ 4 := by norm_num [halfAt]
  have hsmall : |x| ≤ 4 := abs_le.mpr ⟨by linarith, by linarith⟩
  -- The three headings are judged one by one, all others by the stretch they lie in.
  by_cases hmem : yaw ∈ misjudged
  · rcases not_samePlate_of_misjudged hmem with ⟨hfolds, hnot, hodd⟩
    refine ⟨⟨fun h => absurd h hnot, fun h => absurd hmem h⟩, 0,
      hfolds.foldedBy hx (hsmall.trans (by norm_num)), fun h => absurd h hnot,
      fun _ => ⟨rfl, fun even odd => ?_⟩⟩
    exact if_neg (by omega)
  · have hfolds := (folds_turn hlow hhigh).resolve_left hmem
    have hsame := samePlate_of_folds hfolds hx hsmall
    refine ⟨⟨fun _ => hmem, fun _ => hsame⟩, turn yaw,
      hfolds.foldedBy hx (hsmall.trans (by norm_num)), fun _ even odd => ?_,
      fun h => absurd hsame h⟩
    -- Only the parity of the sector chooses the radius, and four sectors keep it.
    have hparity : sector yaw % 2 = 0 ↔ turn yaw % 2 = 0 := by
      change (turn yaw % 4).toNat % 2 = 0 ↔ turn yaw % 2 = 0
      omega
    simp only [radius, hparity]

/-- A heading of two radians is folded by an odd number of quarter turns, and takes the radius of
odd sectors. -/
theorem samePlate_iff_side :
    (-pi ≤ (2 : Float32) ∧ (2 : Float32) < pi) ∧ SamePlate 2 ∧ 2 ∉ misjudged ∧
      ∃ n : ℤ, FoldedBy 2 n ∧ n % 2 = 1 := by
  have hrange : -pi ≤ (2 : Float32) ∧ (2 : Float32) < pi := by decide +kernel
  rcases samePlate_iff 2 hrange.1 hrange.2 with ⟨hiff, n, hfolded, hradius, -⟩
  have hsame : SamePlate 2 := by decide +kernel
  refine ⟨hrange, hsame, hiff.mp hsame, n, hfolded, ?_⟩
  have hodd : radius 2 0 1 = 1 := by decide +kernel
  rw [hradius hsame] at hodd
  by_contra hnot
  rw [if_pos (by omega)] at hodd
  exact absurd hodd (by decide +kernel)

/-- At an eighth of a turn to the left, the direction is that of the heading, and the radius is that
of the plate beside. -/
theorem not_samePlate_eighth :
    (-pi ≤ -quarterPi ∧ -quarterPi < pi) ∧ ¬ SamePlate (-quarterPi) ∧
      facing (-quarterPi) = -quarterPi ∧ sector (-quarterPi) = 3 := by
  decide +kernel

end Plate

end FireControl
