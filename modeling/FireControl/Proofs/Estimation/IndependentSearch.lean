import FireControl.Proofs.Estimation.CloudSize
import FireControl.Proofs.Numeric.Infinity

/-!
# One Walk Serves All Marks

Systematic resampling looks for the particle of every mark, and each mark could be searched for from
the left end of the cloud. The walk does not go back: it goes on from the particle of the last mark
with the running sum that it has there. It finds the same particles, because the marks never
decrease and so every running sum that is below one mark is below all later ones.

Rounding does not disturb this. A sum with a number that is not negative is never below its first
part, even where it overflows, and the running sums are added in the order in which the search would
add them. What rounding can do is to leave the last running sum below the last marks, and both ways
of looking then end at the last particle.

A running sum can fail to be a number, where infinities of both signs meet. No mark exceeds it, so
the walk stops there; `Cloud.search` says so. A search for the first running sum that is at least
the mark would pass it by, and does so for the particles of `Cloud.opposed`. Weights that are
finite, or that are not negative, have running sums that are numbers, and the two searches are one.

## Main definitions

* `Cloud.sums`: The running sums of the weights.
* `Cloud.search`: The particle of a mark, looked for from the left.
* `Cloud.Place.walk`: The place some particles further on.
* `Cloud.opposed`: Particles with infinite weights of both signs.

## Theorems

* `Place.seek_eq_walk`: A place is found by as many steps as its index says.
* `Place.index_mono`: A greater mark is not found earlier.
* `choose_eq_search`: What the walk finds for all marks.
* `resample_eq_search`: Resampling gives the particles that independent searches find.
* `resample_ne_least_sum`: It does not stop at the first running sum that is at least the mark.
-/

namespace FireControl

open Float.Model

theorem Draw.uniform_hasValue (g : ChaCha) : ∃ x : ℚ, (Draw.uniform.run g).1.HasValue x := by
  generalize hn : (g.next.1 >>> 8).toNat = n
  have hlt : n < 2 ^ 32 := hn ▸ UInt32.toNat_lt _
  -- The word fits into 32 bits, so rounding it is far from an overflow.
  have hround : |Format.binary32.rounded n| ≤ 2 ^ 32 := by
    apply Float32.abs_rounded_le_pow
    rw [Nat.abs_cast]
    exact_mod_cast hlt.le
  have hword : (Float32.ofInteger n).HasValue (Format.binary32.rounded n) := by
    have hlimit : |Format.binary32.rounded ((n : ℤ) : ℚ)| < Format.binary32.limit := by
      rw [binary32_limit, Int.cast_natCast]
      exact hround.trans_lt (by norm_num)
    exact_mod_cast Float32.ofInteger_hasValue hlimit
  have hunit : (5.9604644775390625e-8 : Float32).HasValue (1 / 2 ^ 24) :=
    hasValue_positive (m := 2 ^ 23) (e := -47) (by decide) rfl (by norm_num)
  have hproduct : |Format.binary32.rounded n * (1 / 2 ^ 24)| < 2 ^ 128 - 2 ^ 103 := by
    rw [abs_mul]
    norm_num
    linarith
  exact ⟨_, hn ▸ hword.mul hunit (abs_rounded_lt_limit hproduct)⟩

namespace Cloud

/-- Whether a mark falls into the stretch that ends at a running sum, or before it. -/
def reaches (mark total : Float32) : Bool :=
  mark ≤ total || total.isNaN

/-- The running sums of the weights, from the left. -/
def sums : Cloud → List Float32
  | [] => []
  | p :: rest => rest.scanl (fun total q => total + q.weight) p.weight

/-- The first particle whose running sum a mark does not exceed, or else the last one. -/
def search (cloud : Cloud) (mark : Float32) : Nat :=
  min (cloud.sums.findIdx (reaches mark)) (cloud.length - 1)

namespace Place

/-- The place some particles further on, or the last one. -/
def walk : Nat → Place → Place
  | 0, place => place
  | _ + 1, ⟨p, total, []⟩ => ⟨p, total, []⟩
  | n + 1, ⟨_, total, q :: rest⟩ => walk n ⟨q, total + q.weight, rest⟩

/-- How many particles further on a mark falls. -/
def index (mark : Float32) (place : Place) : Nat :=
  min ((place.rest.scanl (fun total q => total + q.weight) place.total).findIdx (reaches mark))
    place.rest.length

variable {mark : Float32} {p q : Particle} {total : Float32} {rest : List Particle}

theorem index_nil : index mark ⟨p, total, []⟩ = 0 :=
  Nat.min_zero _

theorem index_cons : index mark ⟨p, total, q :: rest⟩ =
    if reaches mark total then 0 else index mark ⟨q, total + q.weight, rest⟩ + 1 := by
  unfold index
  rw [List.scanl_cons, List.findIdx_cons]
  cases reaches mark total with
  | true => exact Nat.zero_min _
  | false => exact Nat.add_min_add_right _ _ 1

/-- A number reaches every mark that does not exceed it, and what is no number reaches all. -/
theorem reaches_iff (hmark : mark.isNaN = false) : reaches mark total = true ↔ ¬ total < mark := by
  unfold reaches
  cases hnan : total.isNaN with
  | true =>
      rw [Bool.or_true, eq_self, true_iff]
      intro hlt
      have hnumber := (Float32.not_isNaN_of_le (Float32.le_of_lt hlt)).1
      exact absurd (hnumber.symm.trans hnan) Bool.false_ne_true
  | false =>
      rw [Bool.or_false, decide_eq_true_iff]
      exact ⟨Float32.not_lt_of_le, Float32.le_of_not_lt hnan hmark⟩

/-- A place is found by as many steps as its index says. -/
theorem seek_eq_walk (hmark : mark.isNaN = false) (place : Place) :
    place.seek mark = place.walk (place.index mark) := by
  rcases place with ⟨p, total, rest⟩
  induction rest generalizing p total with
  | nil => rw [index_nil]; rfl
  | cons q rest ih =>
      rw [index_cons]
      by_cases h : total < mark
      · rw [if_neg (mt (reaches_iff hmark).mp (not_not_intro h))]
        exact (if_pos h).trans (ih q (total + q.weight))
      · rw [if_pos ((reaches_iff hmark).mpr h)]
        exact if_neg h

theorem index_le (place : Place) : place.index mark ≤ place.rest.length :=
  Nat.min_le_right _ _

/-- A greater mark is not found earlier. -/
theorem index_mono {mark' : Float32} (h : mark ≤ mark') (place : Place) :
    place.index mark ≤ place.index mark' := by
  refine min_le_min_right _ (List.findIdx_le_findIdx fun total _ hreaches => ?_)
  unfold reaches at hreaches ⊢
  rw [Bool.or_eq_true, decide_eq_true_iff] at hreaches ⊢
  exact hreaches.imp_left (Float32.le_trans h)

/-- A mark that falls further on is found from every place on the way. -/
theorem walk_index {n : Nat} (place : Place) (h : n ≤ place.index mark) :
    (place.walk n).walk ((place.walk n).index mark) = place.walk (place.index mark) := by
  -- Each particle on the way is one that the search from the place passes too.
  rcases place with ⟨p, total, rest⟩
  induction n generalizing p total rest with
  | zero => rfl
  | succ n ih =>
      cases rest with
      | nil => exact absurd (index_nil ▸ h) (Nat.not_succ_le_zero n)
      | cons q rest =>
          rw [index_cons] at h ⊢
          split at h
          · exact absurd h (Nat.not_succ_le_zero n)
          · rename_i hreaches
            rw [if_neg hreaches]
            exact ih q (total + q.weight) rest (Nat.le_of_succ_le_succ h)

theorem walk_particle {n : Nat} (place : Place) (h : n ≤ place.rest.length) :
    (place.particle :: place.rest)[n]? = some (place.walk n).particle := by
  rcases place with ⟨p, total, rest⟩
  induction n generalizing p total rest with
  | zero => rfl
  | succ n ih =>
      cases rest with
      | nil => exact absurd h (Nat.not_succ_le_zero n)
      | cons q rest => exact ih q (total + q.weight) rest (Nat.le_of_succ_le_succ h)

end Place

variable {mark distance : Float32} {x : ℚ}

/-- What the walk finds for all marks is what each mark finds from the first place. -/
theorem choose_eq_search (hdistance : distance.HasValue x) (hx : 0 ≤ x) (origin : Place) {n i : Nat}
    (hmark : mark.isNaN = false) (hi : i ≤ origin.index mark) :
    choose distance n mark (origin.walk i) = (List.range n).map fun k =>
      { (origin.walk (origin.index ((· + distance)^[k] mark))).particle with
        weight := distance } := by
  induction n generalizing mark i with
  | zero => rfl
  | succ n ih =>
      have hfound : (origin.walk i).seek mark = origin.walk (origin.index mark) :=
        (Place.seek_eq_walk hmark _).trans (origin.walk_index hi)
      -- The next mark is not smaller, so it falls on the way on from here.
      have hnext : mark ≤ mark + distance := hdistance.le_add hx hmark
      have hrest := ih (Float32.not_isNaN_of_le hnext).2 (Place.index_mono hnext origin)
      rw [choose, hfound, hrest, List.range_succ_eq_map, List.map_cons, List.map_map]
      rfl

/-- What the first running sum has and every further weight keeps, all running sums have. -/
theorem forall_mem_scanl {P : Float32 → Prop} {total : Float32} {rest : List Particle}
    (first : P total) (next : ∀ total, P total → ∀ q ∈ rest, P (total + q.weight)) :
    ∀ c ∈ rest.scanl (fun total q => total + q.weight) total, P c := by
  induction rest generalizing total with
  | nil => simpa using first
  | cons q rest ih =>
      rw [List.scanl_cons, List.forall_mem_cons]
      refine ⟨first, ih (next total first q List.mem_cons_self) fun total htotal r hr => ?_⟩
      exact next total htotal r (List.mem_cons_of_mem q hr)

/-- The running sums are numbers where the weights are finite, or where none is negative. -/
theorem not_isNaN_sums {cloud : Cloud}
    (h : (∀ p ∈ cloud, p.weight.isFinite = true) ∨ ∀ p ∈ cloud, 0 ≤ p.weight) :
    ∀ total ∈ cloud.sums, total.isNaN = false := by
  cases cloud with
  | nil => exact fun total htotal => absurd htotal List.not_mem_nil
  | cons p rest =>
      rw [List.forall_mem_cons, List.forall_mem_cons] at h
      rcases h with ⟨hp, hrest⟩ | ⟨hp, hrest⟩
      · rcases Float32.exists_hasValue hp with ⟨x, hx, -⟩
        refine forall_mem_scanl (P := (·.isNaN = false)) hx.not_isNaN fun total htotal q hq => ?_
        exact Float32.not_isNaN_add htotal (hrest q hq)
      · have hnonneg := forall_mem_scanl (P := (0 ≤ ·)) hp fun total htotal q hq =>
          Float32.add_nonneg htotal (hrest q hq)
        exact fun total htotal => (Float32.not_isNaN_of_le (hnonneg total htotal)).2

/-- Among running sums that are numbers, a search is for the first that a mark does not exceed. -/
theorem search_eq_findIdx {cloud : Cloud} (h : ∀ total ∈ cloud.sums, total.isNaN = false)
    (mark : Float32) :
    cloud.search mark = min (cloud.sums.findIdx (mark ≤ ·)) (cloud.length - 1) := by
  unfold search
  congr 1
  apply Nat.le_antisymm
  · refine List.findIdx_le_findIdx fun total _ hle => ?_
    exact (Bool.or_eq_true _ _).mpr (Or.inl hle)
  · -- The other way needs that no sum is NaN, which every mark reaches.
    refine List.findIdx_le_findIdx fun total htotal hreaches => ?_
    unfold reaches at hreaches
    rwa [h total htotal, Bool.or_false] at hreaches

/-- Resampling gives the particles that independent searches find. Out of a cloud with any particle
at all come as many particles as there were, and one random number is drawn for them. The particle
at each place is an old one with the equal weight: the one that a search from the left finds for the
mark of that place, where the first mark is the random number times the distance, and the distance
is added once more for every further mark. The searches stay inside the cloud, and none ends before
the one of the mark before it. They look for the first running sum that the mark does not exceed,
wherever all running sums are numbers; finite weights have such sums, and so have weights that are
not negative. -/
theorem resample_eq_search (p : Particle) (rest : List Particle) (g : ChaCha) :
    let cloud : Cloud := p :: rest
    let distance := 1 / Float32.ofInteger cloud.length
    let marks := fun k => (· + distance)^[k] ((Draw.uniform.run g).1 * distance)
    let resampled := cloud.resample.run g
    resampled.1.length = cloud.length ∧ resampled.2 = g.next.2 ∧
    (∀ k < cloud.length, resampled.1[k]? =
      cloud[cloud.search (marks k)]?.map ({ · with weight := distance })) ∧
    (∀ k, cloud.search (marks k) < cloud.length) ∧
    (Monotone fun k => cloud.search (marks k)) ∧
    ((∀ total ∈ cloud.sums, total.isNaN = false) →
      ∀ k, cloud.search (marks k) = min (cloud.sums.findIdx (marks k ≤ ·)) (cloud.length - 1)) ∧
    ((∀ q ∈ cloud, q.weight.isFinite = true) ∨ (∀ q ∈ cloud, 0 ≤ q.weight) →
      ∀ total ∈ cloud.sums, total.isNaN = false) := by
  intro cloud distance marks resampled
  let origin : Place := ⟨p, p.weight, rest⟩
  rcases Float32.exists_hasValue_one_div (Float32.one_le_ofInteger (n := cloud.length)
    (by exact_mod_cast Nat.succ_pos rest.length)) with ⟨x, hnonneg, hdistance⟩
  -- Both the random number and the distance are finite, so the marks are numbers.
  rcases Draw.uniform_hasValue g with ⟨y, hrandom⟩
  have hstart : (marks 0).isNaN = false := hrandom.not_isNaN_mul hdistance
  have hsucc (k : Nat) : marks (k + 1) = marks k + distance := Function.iterate_succ_apply' _ k _
  have hnumber (k : Nat) : (marks k).isNaN = false := by
    induction k with
    | zero => exact hstart
    | succ k ih => exact hsucc k ▸ Float32.not_isNaN_add ih hdistance.isFinite
  -- A mark that has overflowed to infinity stays there, so the marks never decrease.
  have hgrow (k : Nat) : marks k ≤ marks (k + 1) :=
    hsucc k ▸ hdistance.le_add hnonneg (hnumber k)
  have hchosen : resampled.1 = (List.range cloud.length).map fun k =>
      { (origin.walk (origin.index (marks k))).particle with weight := distance } :=
    choose_eq_search hdistance hnonneg origin hstart (Nat.zero_le _)
  refine ⟨length_resample cloud g, rfl, ?_, ?_, ?_, fun h k => search_eq_findIdx h _,
    not_isNaN_sums⟩
  · intro k hk
    have hindex : origin.index (marks k) ≤ origin.rest.length := origin.index_le
    have hparticle := origin.walk_particle hindex
    rw [hchosen, List.getElem?_map, List.getElem?_range hk]
    exact (congrArg (Option.map fun q => ({ q with weight := distance } : Particle))
      hparticle).symm
  · exact fun k => Nat.lt_succ_of_le origin.index_le
  · exact monotone_nat_of_le_succ fun k => Place.index_mono (hgrow k) origin

/-- Three particles. The weights of the first two are infinite and have no sum. -/
def opposed : Cloud :=
  let particle (x weight : Float32) : Particle :=
    ⟨{ Motion.zero with position := ⟨x, 0, 0⟩ }, weight⟩
  [particle 1 (-1 / 0), particle 2 (1 / 0), particle 3 1]

/-- Resampling does not stop at the first running sum that is at least the mark. No weight of the
three particles is NaN, but the second and the third running sum are, so the search for a running
sum that is at least the first mark ends at the last particle. The walk ends at the second. -/
theorem resample_ne_least_sum :
    let g := ChaCha.ofSeed 0
    let distance := 1 / Float32.ofInteger opposed.length
    let mark := (Draw.uniform.run g).1 * distance
    let least := min (opposed.sums.findIdx (mark ≤ ·)) (opposed.length - 1)
    let resampled := (opposed.resample.run g).1
    (∀ q ∈ opposed, q.weight.isNaN = false) ∧ least = 2 ∧
    resampled[0]? ≠ opposed[least]?.map ({ · with weight := distance }) ∧
    resampled[0]? = opposed[1]?.map ({ · with weight := distance }) := by
  decide +kernel

/-- A mark that meets a running sum falls on its particle, and a mark that exceeds them all falls on
the last one. -/
example : let m : Motion := ⟨⟨0, 0, 4⟩, ⟨0, 0, 0⟩, ⟨0, 0, 0⟩, 0, 0, 0, 0.25, 0.25, 0⟩
    [0.25, 0.5, 1.25].map (search [⟨m, 0.25⟩, ⟨m, 0.5⟩, ⟨m, 0.25⟩]) = [0, 1, 2] := by
  decide +kernel

end Cloud

end FireControl
