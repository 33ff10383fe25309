import FireControl.Proofs.Geometry.Folding
import FireControl.Proofs.Tracking.FirstLeast
import FireControl.Tracking.Fusion

/-!
# The Nearest Face

Which plate of a robot is in view is told by the heading before: of the four headings at quarter
turns from it, the one nearest to the observed direction is taken. Two of them may be equally near,
and then the order in which they are tried decides: no turn first, a quarter turn to either side
next, half a turn last.

Distances are compared as floating-point numbers, where a NaN compares with nothing. Two angles have
a distance if both are finite, and otherwise it is NaN. Turning by a few quarters keeps a heading
finite, so either all four faces have a distance or none has. If all have, the choice is the first
of the nearest faces. If none has, no comparison comes out true and the heading before stays.

## Main definitions

* `Face.candidates`: The four faces in the order in which they are tried.
* `Face.miss`: How far a face looks past an observed direction.
* `Face.FirstNearest`: A face that is as near as any, and nearer than those tried before it.

## Theorems

* `isFinite_of_distance`, `distance_not_isNaN`: Which angles have a distance.
* `candidates_orders`: Distances that are numbers put the faces in order.
* `nearest_firstNearest`, `nearest_eq_same`: The choice with distances and without.
* `nearest_chosen`: Which face is taken.
-/

namespace FireControl

namespace Angle

variable {a b : Float32}

/-- Only two finite angles have a distance. -/
theorem isFinite_of_distance (h : (distance a b).isNaN = false) :
    a.isFinite = true ∧ b.isFinite = true := by
  have hwrap := Float32.not_isNaN_of_abs h
  rw [wrap_eq_fold] at hwrap
  exact Float32.isFinite_of_sub (isFinite_of_centred hwrap)

/-- A folded angle has a distance from every finite one. -/
theorem distance_not_isNaN (ha : a.isFinite = true) (hb : b.isFinite = true) :
    (distance (wrap a) b).isNaN = false := by
  rcases wrap_hasValue ha with ⟨v, hv, hwrap⟩
  rcases Float32.exists_hasValue hb with ⟨y, hy, -⟩
  have hsmall : |v| ≤ 2 ^ 102 := hv.trans (by norm_num [halfTurn])
  rcases wrap_hasValue (hwrap.small_sub hy hsmall).isFinite with ⟨w, -, hdifference⟩
  exact hdifference.abs.not_isNaN

end Angle

namespace Face

variable {previous observed : Float32}

/-- The headings at whole quarter turns from the one before, in the order in which they are
tried. -/
def candidates (previous : Float32) : List Face :=
  [same previous, turned previous 1, turned previous (-1), turned previous 2]

/-- How far a face looks past a direction. -/
def miss (observed : Float32) (f : Face) : Float32 :=
  Angle.distance f.yaw observed

/-- A face that is as near to a direction as any, and nearer than those tried before it. -/
structure FirstNearest (previous observed : Float32) (f : Face) : Prop where
  least : ∀ g ∈ candidates previous, miss observed f ≤ miss observed g
  first : ∃ before after, candidates previous = before ++ f :: after ∧
    ∀ g ∈ before, miss observed f < miss observed g

/-- The chosen face is one of the four. -/
theorem nearest_mem (previous observed : Float32) :
    nearest previous observed ∈ candidates previous := by
  refine foldl_mem (fun f g => ?_) _ _
  unfold nearer
  split
  · exact Or.inr rfl
  · exact Or.inl rfl

/-- A face is turned by as many quarters as it says. -/
theorem yaw_of_mem {f : Face} (hf : f ∈ candidates previous) :
    f.step ∈ [0, 1, -1, 2] ∧ f.yaw = if f.step = 0 then Angle.wrap previous
      else Angle.wrap (previous + Float32.ofInteger f.step * Angle.halfPi) := by
  simp only [candidates, List.mem_cons, List.not_mem_nil, or_false] at hf
  rcases hf with rfl | rfl | rfl | rfl
  · exact ⟨by simp [same], rfl⟩
  · exact ⟨by simp [turned], rfl⟩
  · exact ⟨by simp [turned], rfl⟩
  · exact ⟨by simp [turned], rfl⟩

/-- Distances that are numbers put the faces in order. -/
theorem candidates_orders
    (hnumbers : ∀ f ∈ candidates previous, (miss observed f).isNaN = false) :
    Orders (fun f g => miss observed f < miss observed g) (candidates previous) where
  asymm _ _ _ _ hlt := Float32.not_lt_of_le (Float32.le_of_lt hlt)
  trans f hf g hg h hh hlt hnot := by
    by_contra hnot'
    have hgh := Float32.le_of_not_lt (hnumbers h hh) (hnumbers g hg) hnot
    have hhf := Float32.le_of_not_lt (hnumbers f hf) (hnumbers h hh) hnot'
    exact Float32.not_lt_of_le (Float32.le_trans hgh hhf) hlt

/-- Among distances that are numbers the first of the least is chosen. -/
theorem nearest_firstNearest
    (hnumbers : ∀ f ∈ candidates previous, (miss observed f).isNaN = false) :
    FirstNearest previous observed (nearest previous observed) := by
  -- With no NaN among the misses the comparisons are an order, so the fold finds the least.
  have hleast := (candidates_orders hnumbers).foldl_firstLeast
  change FirstLeast _ (candidates previous) (nearest previous observed) at hleast
  have hchosen := hnumbers _ hleast.mem
  rcases hleast with ⟨before, after, hsplit, hbefore, hafter⟩
  refine ⟨fun g hg => ?_, before, after, hsplit, hbefore⟩
  have hnumber := hnumbers g hg
  rw [hsplit, List.mem_append, List.mem_cons] at hg
  rcases hg with hg | rfl | hg
  · exact Float32.le_of_lt (hbefore g hg)
  · exact Float32.le_refl hchosen
  · exact Float32.le_of_not_lt hnumber hchosen (hafter g hg)

/-- Without a distance of its own the heading before stays. -/
theorem nearest_eq_same (h : observed.isFinite = false ∨ previous.isFinite = false) :
    nearest previous observed = same previous := by
  have hstays (g : Face) : nearer observed (same previous) g = same previous := by
    -- A comparison that holds needs two numbers, which would make both angles finite.
    refine if_neg fun hlt => ?_
    have hnumber := (Float32.not_isNaN_of_le (Float32.le_of_lt hlt)).2
    rcases Angle.isFinite_of_distance hnumber with ⟨hwrap, hobserved⟩
    have hprevious : previous.isFinite = true := Angle.wrap_isFinite_iff.mp hwrap
    rcases h with h | h
    · exact absurd (hobserved.symm.trans h) Bool.noConfusion
    · exact absurd (hprevious.symm.trans h) Bool.noConfusion
  unfold nearest
  rw [List.foldl_cons, List.foldl_cons, List.foldl_cons, List.foldl_nil, hstays, hstays, hstays]

/-- A finite heading is still finite after a few quarter turns. -/
theorem turned_isFinite (h : previous.isFinite = true) {step : ℤ} (hstep : step ∈ [1, -1, 2]) :
    (previous + Float32.ofInteger step * Angle.halfPi).isFinite = true := by
  rcases Float32.exists_hasValue h with ⟨x, hx, -⟩
  -- Every turn is at most two right angles, too little to overflow from a finite yaw.
  have hturn : ∃ v : ℚ, |v| ≤ 4 ∧ (Float32.ofInteger step * Angle.halfPi).HasValue v := by
    simp only [List.mem_cons, List.not_mem_nil, or_false] at hstep
    rcases hstep with rfl | rfl | rfl
    · exact ⟨13176795 * 2 ^ (-23 : ℤ), by norm_num [abs_le],
        hasValue_positive (m := 13176795) (e := -23) (by decide) rfl rfl⟩
    · exact ⟨-(13176795 * 2 ^ (-23 : ℤ)), by norm_num [abs_le],
        hasValue_negative (m := 13176795) (e := -23) (by decide) rfl rfl⟩
    · exact ⟨13176795 * 2 ^ (-22 : ℤ), by norm_num [abs_le],
        hasValue_positive (m := 13176795) (e := -22) (by decide) rfl rfl⟩
  rcases hturn with ⟨v, hv, hvalue⟩
  exact (hx.add_small hvalue (hv.trans (by norm_num))).isFinite

/-- Finite headings have distances. -/
theorem miss_not_isNaN (hprevious : previous.isFinite = true) (hobserved : observed.isFinite = true)
    {f : Face} (hf : f ∈ candidates previous) : (miss observed f).isNaN = false := by
  simp only [candidates, List.mem_cons, List.not_mem_nil, or_false] at hf
  rcases hf with rfl | rfl | rfl | rfl
  · exact Angle.distance_not_isNaN hprevious hobserved
  · exact Angle.distance_not_isNaN (turned_isFinite hprevious (by decide)) hobserved
  · exact Angle.distance_not_isNaN (turned_isFinite hprevious (by decide)) hobserved
  · exact Angle.distance_not_isNaN (turned_isFinite hprevious (by decide)) hobserved

/-- Which face is taken. It is one of four: the heading before, folded, or that heading turned by
one, minus one or two quarters and then folded. Where the distances of all four from the observed
direction are numbers, the chosen one is at most as far as each of them and nearer than those tried
before it, and they are numbers wherever both headings are finite. Where one of the two is infinite
or NaN, the heading before is kept. -/
theorem nearest_chosen (previous observed : Float32) :
    let chosen := nearest previous observed
    chosen.step ∈ [0, 1, -1, 2] ∧
    (chosen.yaw = if chosen.step = 0 then Angle.wrap previous
      else Angle.wrap (previous + Float32.ofInteger chosen.step * Angle.halfPi)) ∧
    ((∀ f ∈ candidates previous, (miss observed f).isNaN = false) →
      FirstNearest previous observed chosen) ∧
    (previous.isFinite = true → observed.isFinite = true →
      ∀ f ∈ candidates previous, (miss observed f).isNaN = false) ∧
    (observed.isFinite = false ∨ previous.isFinite = false → chosen = same previous) := by
  intro chosen
  rcases yaw_of_mem (nearest_mem previous observed) with ⟨hstep, hyaw⟩
  exact ⟨hstep, hyaw, nearest_firstNearest, fun hprevious hobserved f hf =>
    miss_not_isNaN hprevious hobserved hf, nearest_eq_same⟩

/-- Half-way between two faces the heading before wins, and it stays where the direction is NaN. -/
theorem nearest_chosen_halfway :
    let observed := -Angle.quarterPi
    FirstNearest 0 observed (same 0) ∧ miss observed (turned 0 (-1)) = miss observed (same 0) ∧
      nearest 0 (.ofBits 0x7FC00000) = same 0 := by
  intro observed
  -- Halfway between two faces both misses are equal, and the first face stays.
  have hnumbers : ∀ f ∈ candidates 0, (miss observed f).isNaN = false :=
    (nearest_chosen 0 observed).2.2.2.1 (by decide) (by decide)
  have hnearest := (nearest_chosen 0 observed).2.2.1 hnumbers
  have hsame : nearest 0 observed = same 0 := by decide +kernel
  exact ⟨hsame ▸ hnearest, by decide +kernel,
    (nearest_chosen 0 (.ofBits 0x7FC00000)).2.2.2.2 (Or.inl (by decide))⟩

end Face

end FireControl
