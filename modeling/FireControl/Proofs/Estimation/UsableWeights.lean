import FireControl.Proofs.Estimation.FilterHistory
import FireControl.Proofs.Numeric.Accumulation

/-!
# The Weights of a Filter Stay Usable

A filter divides by the sum of its weights and picks guesses by their running sum, so one weight
that is NaN, or weights that are all zero, would be the end of it. Measurements, spans of time and
deviations may be anything, NaN and infinities among them, and so may be the motions that come of
them. Still the weights stay in the unit interval, and one of them is positive.

New weights come about in two ways. Equal weights are the inverse of the number of guesses. Weights
from a measurement are exponentials divided by their sum, and here it is the sum that keeps watch:
it is finite only if every exponential is a number, therefore if the greatest logarithm is finite
and no logarithm is NaN. Then the greatest of them has the exponential one, no other has a greater
one, and the sum is at least one.

## Main definitions

* `ElementaryFunctions.Decaying`: What has to be known of the exponential function.
* `Cloud.weights`: The weights of a cloud.
* `UsableWeights`: Weights in the unit interval, one of which is positive.
* `Cloud.likelihoods`: The exponentials that are divided by their sum.

## Theorems

* `Draw.map_mapM`: What draws do not change about the members of a list.
* `Cloud.usable_of_equal`: Equal weights are usable.
* `Cloud.one_le_sum_likelihoods`: What is divided by is at least one.
* `Cloud.usable_weigh?`: Weights from a measurement are usable.
* `ParticleFilter.Sound.call`: Every call leaves usable weights behind.
* `ParticleFilter.weights_stay_usable`: After every sequence of calls the weights are usable.
-/

namespace FireControl

/-- What has to be known of the exponential function: it takes what is not positive to the unit
interval, zero to one, and NaN to NaN. -/
structure ElementaryFunctions.Decaying (functions : ElementaryFunctions) : Prop where
  within : ∀ x, x ≤ 0 → 0 ≤ functions.exp x ∧ functions.exp x ≤ 1
  zero : functions.exp 0 = 1
  nan : ∀ x, x.isNaN = true → (functions.exp x).isNaN = true

/-- Weights in the unit interval, one of which is positive. -/
structure UsableWeights (weights : List Float32) : Prop where
  within : ∀ w ∈ weights, 0 ≤ w ∧ w ≤ 1
  positive : ∃ w ∈ weights, 0 < w

/-- What no draw changes about the members of a list can be read off before. -/
theorem Draw.map_mapM {α β γ : Type} {f : α → Draw β} {after : β → γ} {before : α → γ}
    (h : ∀ x g, after ((f x).run g).1 = before x) (xs : List α) (g : ChaCha) :
    ((xs.mapM f).run g).1.map after = xs.map before := by
  induction xs generalizing g with
  | nil => rfl
  | cons x rest ih => rw [run_mapM_cons, List.map_cons, List.map_cons, h, ih]

section

namespace Cloud

/-- The weights of a cloud. -/
def weights (cloud : Cloud) : List Float32 :=
  cloud.map Particle.weight

/-! ### Equal weights -/

theorem size_finite {n : Nat} (hn : 0 < n) (hle : n ≤ 2 ^ 64) :
    1 ≤ Float32.ofInteger n ∧ (Float32.ofInteger n).isFinite = true :=
  ⟨Float32.one_le_ofInteger (by omega), (Float32.ofInteger_small hle (by decide)).1.isFinite⟩

/-- Equal weights are usable. -/
theorem usable_of_equal {cloud : Cloud} {n : Nat} (hn : 0 < n) (hle : n ≤ 2 ^ 64)
    (hweights : cloud.weights = List.replicate n (1 / Float32.ofInteger n)) :
    UsableWeights cloud.weights := by
  rcases size_finite hn hle with ⟨hone, hfinite⟩
  have hunit : (0 : Float32) ≤ 1 ∧ (1 : Float32) ≤ 1 := by decide +kernel
  rw [hweights]
  refine ⟨fun w hw => ?_, 1 / Float32.ofInteger n, ?_, Float32.inverse_pos hone hfinite⟩
  · rw [List.eq_of_mem_replicate hw]
    exact Float32.div_within hunit hone hfinite
  · exact List.mem_replicate.mpr ⟨hn.ne', rfl⟩

theorem weights_blank (n : Nat) :
    (blank n).weights = List.replicate n (1 / Float32.ofInteger n) :=
  List.map_replicate

theorem weights_choose (distance : Float32) (n : Nat) (mark : Float32) (place : Place) :
    (choose distance n mark place).weights = List.replicate n distance := by
  induction n generalizing mark place with
  | zero => rfl
  | succ n ih =>
      have hrest := ih (mark + distance) (place.seek mark)
      rw [List.replicate_succ, ← hrest]
      rfl

/-- Where too few guesses count, the weights become equal, and otherwise they stay. -/
theorem usable_refresh {cloud : Cloud} (hle : cloud.length ≤ 2 ^ 64)
    (h : UsableWeights cloud.weights) (g : ChaCha) :
    UsableWeights (weights (cloud.refresh.run g).1) := by
  unfold refresh
  split
  · cases cloud with
    -- Resampled weights are the inverse of a size that fits into a word, which is positive.
    | nil => exact h
    | cons p rest => exact usable_of_equal (Nat.succ_pos _) hle (weights_choose _ _ _ _)
  · exact h

/-! ### Weights from a measurement -/

/-- Only a member of the list is above the least logarithm that counts. -/
theorem greatest_mem {logs : List Float32} (h : hopeless < greatest logs) :
    greatest logs ∈ logs := by
  rcases Float32.foldl_maxNum_mem logs (-1 / 0) with hstart | hmem
  · rw [greatest, hstart] at h
    exact absurd h (by decide +kernel)
  · exact hmem

theorem weights_withWeights {cloud : Cloud} {new : List Float32}
    (h : new.length = cloud.length) : (cloud.withWeights new).weights = new := by
  rw [weights, withWeights, List.map_zipWith]
  exact (List.map_uncurry_zip_eq_zipWith ..).symm.trans (List.map_snd_zip (Nat.le_of_eq h))

variable [functions : ElementaryFunctions]

/-- The exponentials of some logarithms, as multiples of the greatest one. -/
def likelihoods (logs : List Float32) : List Float32 :=
  logs.map fun l => ElementaryFunctions.exp (l - greatest logs)

section Total

variable {logs : List Float32} (laws : functions.Decaying) (hbest : hopeless < greatest logs)
  (hfinite : (sum (likelihoods logs)).isFinite = true)

include hfinite in
theorem isFinite_of_mem_likelihoods {x : Float32} (hx : x ∈ likelihoods logs) :
    x.isFinite = true :=
  (Float32.isFinite_of_foldl_add hfinite).2 x hx

include laws hfinite in
/-- A NaN would show in the sum. -/
theorem sub_greatest_not_isNaN {l : Float32} (hl : l ∈ logs) :
    (l - greatest logs).isNaN = false := by
  by_contra hnan
  -- Its exponential would be a member of the sum, and members of a finite sum are finite.
  have hexp := laws.nan _ (Bool.not_eq_false _ ▸ hnan)
  have hmem : functions.exp (l - greatest logs) ∈ likelihoods logs := List.mem_map_of_mem hl
  rcases Float32.exists_hasValue (isFinite_of_mem_likelihoods hfinite hmem) with ⟨v, hv, -⟩
  exact absurd (hv.not_isNaN.symm.trans hexp) Bool.false_ne_true

include laws hbest hfinite in
theorem greatest_isFinite : (greatest logs).isFinite = true :=
  Float32.isFinite_of_sub_self (sub_greatest_not_isNaN laws hfinite (greatest_mem hbest))

include laws hbest hfinite in
/-- The greatest logarithm has the exponential one. -/
theorem one_mem_likelihoods : 1 ∈ likelihoods logs := by
  refine List.mem_map.mpr ⟨greatest logs, greatest_mem hbest, ?_⟩
  rw [Float32.sub_self (greatest_isFinite laws hbest hfinite)]
  exact laws.zero

include laws hbest hfinite in
theorem likelihoods_within {x : Float32} (hx : x ∈ likelihoods logs) : 0 ≤ x ∧ x ≤ 1 := by
  rcases List.mem_map.mp hx with ⟨l, hl, rfl⟩
  -- The search for the greatest passes over NaN, but there is none left here to be passed over.
  have hstart : ((-1 / 0 : Float32)).isNaN = false := by decide +kernel
  have hle : l ≤ greatest logs := by
    refine (Float32.le_foldl_maxNum logs hstart).2 l hl ?_
    exact Float32.not_isNaN_of_sub (sub_greatest_not_isNaN laws hfinite hl)
  exact laws.within _ (Float32.sub_le_zero hle (greatest_isFinite laws hbest hfinite))

include laws hbest hfinite in
/-- What the exponentials are divided by is at least one. -/
theorem one_le_sum_likelihoods : 1 ≤ sum (likelihoods logs) := by
  have hstart : (0 : Float32) ≤ 0 := by decide +kernel
  refine (Float32.le_foldl_add hfinite hstart fun x hx => ?_).2 1
    (one_mem_likelihoods laws hbest hfinite)
  exact (likelihoods_within laws hbest hfinite hx).1

include laws hbest hfinite in
theorem usable_likelihoods :
    UsableWeights ((likelihoods logs).map (· / sum (likelihoods logs))) := by
  have hone := one_le_sum_likelihoods laws hbest hfinite
  -- The greatest logarithm gives the positive weight: one over a finite sum.
  refine ⟨fun w hw => ?_, 1 / sum (likelihoods logs), ?_, Float32.inverse_pos hone hfinite⟩
  · rcases List.mem_map.mp hw with ⟨x, hx, rfl⟩
    exact Float32.div_within (likelihoods_within laws hbest hfinite hx) hone hfinite
  · exact List.mem_map_of_mem (one_mem_likelihoods laws hbest hfinite)

end Total

/-- Weights from a measurement are usable, whatever they were before. -/
theorem usable_weigh? (laws : functions.Decaying) {cloud weighed : Cloud} {noise : SensorNoise}
    {measured : Motion} (h : cloud.weigh? noise measured = some weighed) :
    UsableWeights weighed.weights := by
  unfold weigh? at h
  generalize hlogs : cloud.logWeights noise.precisions measured = logs at h
  have hlength : logs.length = cloud.length := by
    rw [← hlogs]
    exact List.length_map _
  simp only at h
  -- Of the three ways through a measurement only the last one leaves weights behind.
  split at h
  · rename_i hbest
    split at h
    · exact absurd h.symm (Option.some_ne_none weighed)
    · rename_i htotal
      rw [Bool.or_eq_true, not_or, Bool.not_eq_true, Bool.not_eq_false'] at htotal
      rw [← Option.some.inj h, weights_withWeights]
      · exact usable_likelihoods laws hbest htotal.1
      · rw [List.length_map, List.length_map, hlength]
  · exact absurd h.symm (Option.some_ne_none weighed)

/-! ### Clouds -/

theorem weights_scatter (cloud : Cloud) (noise : SensorNoise) (measured : Motion) (g : ChaCha) :
    weights ((cloud.scatter noise measured).run g).1 =
      List.replicate cloud.length (1 / Float32.ofInteger cloud.length) := by
  rw [← List.map_const']
  exact Draw.map_mapM (fun _ _ => rfl) cloud g

theorem weights_advance (cloud : Cloud) (dt : Float32) (g : ChaCha) :
    weights ((cloud.advance dt).run g).1 = cloud.weights := by
  unfold advance
  by_cases h : dt ≤ 0
  · rw [if_pos h]
    rfl
  · rw [if_neg h]
    exact Draw.map_mapM (fun _ _ => rfl) cloud g

theorem usable_scatter {cloud : Cloud} (hpos : 0 < cloud.length) (hle : cloud.length ≤ 2 ^ 64)
    (noise : SensorNoise) (measured : Motion) (g : ChaCha) :
    UsableWeights (weights ((cloud.scatter noise measured).run g).1) := by
  apply usable_of_equal hpos hle
  exact weights_scatter cloud noise measured g

theorem usable_update (laws : functions.Decaying) {cloud : Cloud} (hpos : 0 < cloud.length)
    (hle : cloud.length ≤ 2 ^ 64) (noise : SensorNoise) (measured : Motion) (g : ChaCha) :
    UsableWeights (weights ((cloud.update noise measured).run g).1) := by
  unfold update
  cases hweigh : cloud.weigh? noise measured with
  | none => exact usable_scatter hpos hle noise measured g
  | some weighed =>
      refine usable_refresh ?_ (usable_weigh? laws hweigh) g
      rw [length_weigh? cloud weighed noise measured hweigh]
      exact hle

end Cloud

/-- The number of particles that a call asks for, if it asks for any. -/
def FilterCall.size : FilterCall → Nat
  | .init n => n
  | .command _ => 0

namespace ParticleFilter

/-- A filter with a number of particles that fits into a word, and with usable weights. -/
structure Sound (filter : ParticleFilter) : Prop where
  size : filter.cloud.length ≤ 2 ^ 64
  usable : UsableWeights filter.cloud.weights

/-- Weights one of which is positive are not without a particle. -/
theorem Sound.length_pos {filter : ParticleFilter} (h : filter.Sound) :
    0 < filter.cloud.length := by
  rcases h.usable.positive with ⟨w, hw, -⟩
  rw [← List.length_map Particle.weight]
  exact List.length_pos_of_mem hw

variable [functions : ElementaryFunctions] {filter : ParticleFilter}

theorem sound_init (filter : ParticleFilter) {n : Nat} (hn : 0 < n) (hle : n ≤ 2 ^ 64) :
    (filter.call (.init n)).Sound := by
  have hstart : filter.call (.init n) = { filter with cloud := Cloud.blank n, robot := none } := by
    rw [call, init, if_neg hn.ne']
  rw [hstart]
  exact ⟨List.length_replicate.trans_le hle, Cloud.usable_of_equal hn hle (Cloud.weights_blank n)⟩

theorem Sound.reset (h : filter.Sound) (measured : RobotState) : (filter.reset measured).Sound := by
  refine ⟨(length_reset filter measured).trans_le h.size, ?_⟩
  unfold ParticleFilter.reset
  by_cases hempty : filter.cloud.isEmpty = true
  · rw [if_pos hempty]
    exact h.usable
  · rw [if_neg hempty]
    exact Cloud.usable_scatter h.length_pos h.size _ _ _

theorem Sound.predict (h : filter.Sound) (dt : Float32) : (filter.predict dt).Sound := by
  refine ⟨(length_predict filter dt).trans_le h.size, ?_⟩
  unfold ParticleFilter.predict
  by_cases hsome : filter.robot.isSome = true
  · rw [if_pos hsome]
    exact (Cloud.weights_advance filter.cloud dt filter.generator).symm ▸ h.usable
  · rw [if_neg hsome]
    exact h.usable

theorem Sound.step (laws : functions.Decaying) (h : filter.Sound) (measured : RobotState)
    (dt : Float32) : (filter.step measured dt).Sound := by
  refine ⟨(length_step filter measured dt).trans_le h.size, ?_⟩
  unfold ParticleFilter.step
  by_cases hsame : filter.robot = some measured.robot
  · rw [if_pos hsame]
    -- The measurement weighs the advanced cloud, which is as large as the cloud before.
    have hlength := Cloud.length_advance filter.cloud dt filter.generator
    exact Cloud.usable_update laws (hlength.symm ▸ h.length_pos) (hlength.trans_le h.size) _ _ _
  · rw [if_neg hsame]
    exact (h.reset measured).usable

/-- Every call leaves usable weights behind. -/
theorem Sound.call (laws : functions.Decaying) (h : filter.Sound) {c : FilterCall}
    (hsize : c.size ≤ 2 ^ 64) : (filter.call c).Sound := by
  cases c with
  | init n =>
      -- A request for no particles is refused and leaves the filter as it was.
      rcases Nat.eq_zero_or_pos n with rfl | hn
      · exact h
      · exact sound_init filter hn hsize
  | command command =>
      cases command with
      | reset measured => exact h.reset measured
      | step measured dt => exact h.step laws measured dt
      | predict dt => exact h.predict dt

theorem Sound.run (laws : functions.Decaying) (h : filter.Sound) {calls : List FilterCall}
    (hsizes : ∀ c ∈ calls, c.size ≤ 2 ^ 64) : (filter.run calls).Sound := by
  induction calls generalizing filter with
  | nil => exact h
  | cons c rest ih =>
      rw [List.forall_mem_cons] at hsizes
      exact ih (h.call laws hsizes.1) hsizes.2

/-- After a start with any number of particles that fits into a word, and after every sequence of
calls from then on, no weight is NaN, all of them are in the unit interval, and one is positive.
Nothing is assumed of the noise, the measurements and the spans of time, nor of any function but the
exponential. -/
theorem weights_stay_usable (laws : functions.Decaying) (filter : ParticleFilter) {n : Nat}
    (hn : 0 < n) (hle : n ≤ 2 ^ 64) {calls : List FilterCall}
    (hsizes : ∀ c ∈ calls, c.size ≤ 2 ^ 64) :
    let after := (filter.call (.init n)).run calls
    (∀ p ∈ after.cloud, p.weight.isNaN = false ∧ 0 ≤ p.weight ∧ p.weight ≤ 1) ∧
      ∃ p ∈ after.cloud, 0 < p.weight := by
  intro after
  have h : after.Sound := (sound_init filter hn hle).run laws hsizes
  constructor
  · intro p hp
    have hwithin := h.usable.within p.weight (List.mem_map_of_mem hp)
    exact ⟨(Float32.not_isNaN_of_le hwithin.1).2, hwithin⟩
  · rcases h.usable.positive with ⟨w, hw, hpos⟩
    rcases List.mem_map.mp hw with ⟨p, hp, rfl⟩
    exact ⟨p, hp, hpos⟩

end ParticleFilter

end

/-- A mathematical library that is known at zero, at one quarter, at one half and at one. -/
@[reducible] def ElementaryFunctions.coarse : ElementaryFunctions where
  sin _ := 0
  cos _ := 1
  exp x := if x.isNaN then x else if x < 0 then 0 else 1
  log x := if x < 0.5 then -1.3862944 else if x < 1 then -0.6931472 else 0
  atan2 _ _ := 0

theorem ElementaryFunctions.coarse_decaying : coarse.Decaying where
  zero := by decide +kernel
  nan x hx := by
    change (if x.isNaN = true then x else if x < 0 then (0 : Float32) else 1).isNaN = true
    rw [if_pos hx]
    exact hx
  within x hx := by
    have hnumber := (Float32.not_isNaN_of_le hx).1
    change 0 ≤ (if x.isNaN = true then x else if x < 0 then (0 : Float32) else 1) ∧
      (if x.isNaN = true then x else if x < 0 then (0 : Float32) else 1) ≤ 1
    rw [hnumber, if_neg Bool.false_ne_true]
    split
    · decide +kernel
    · decide +kernel

/-- A filter whose next random numbers are one half and zero in turn, but for two quarters. One goes
to the place of the third guess where three are scattered, the other to the acceleration of the
second where they are moved on after that. -/
def ParticleFilter.halves : ParticleFilter :=
  let half : List UInt32 := [0x80000000, 0]
  let quarter : List UInt32 := [0x40000000, 0]
  let words := List.replicate 20 half ++ [quarter] ++ List.replicate 13 half ++ [quarter] ++
    List.replicate 60 half
  { cloud := [], noise := ⟨0.1, 0.1⟩, robot := none
    generator := { ChaCha.ofSeed 0 with ready := words.flatten } }

/-- Three guesses are scattered around a measurement. The next measurement rules out the third, and
the one after it the second, upon which the cloud is resampled. A last measurement that is NaN after
an infinite span agrees with no guess. -/
theorem ParticleFilter.weights_stay_usable_halves :
    let _ : ElementaryFunctions := .coarse
    let measured := RobotState.atRest ⟨1⟩ ⟨4, 0, 0⟩ 0 0.2 ⟨0⟩
    let calls : List FilterCall :=
      [.command (.reset measured), .command (.step measured 0.25), .command (.step measured 0.25),
        .command (.step { measured with yaw := 0 / 0 } (1 / 0))]
    let after := fun k => (halves.call (.init 3)).run (calls.take k)
    (after 2).cloud.weights = [0.5, 0.5, 0] ∧
    (after 3).cloud.weights = List.replicate 3 (1 / 3) ∧
    ∀ k, (∀ p ∈ (after k).cloud, p.weight.isNaN = false ∧ 0 ≤ p.weight ∧ p.weight ≤ 1) ∧
      ∃ p ∈ (after k).cloud, 0 < p.weight := by
  intro _ measured calls after
  have hsizes : ∀ c ∈ calls, c.size ≤ 2 ^ 64 := by
    simp only [calls, List.forall_mem_cons, FilterCall.size, Nat.zero_le, List.not_mem_nil,
      false_imp_iff, implies_true, and_self]
  refine ⟨by decide +kernel, by decide +kernel, fun k => ?_⟩
  exact weights_stay_usable ElementaryFunctions.coarse_decaying halves (by decide) (by decide)
    fun c hc => hsizes c (List.mem_of_mem_take hc)

end FireControl
