import FireControl.Proofs.Estimation.CloudSize
import FireControl.Proofs.Numeric.Order

/-!
# What the Guesses of a Cloud Have in Common

The numbers of a guess are random, but not all of them are free. The two radii are drawn once, when
the cloud is scattered around a measurement, and brought within the bounds of a robot; the height
offset is not drawn at all but copied from the measurement. Nothing else touches these three:
advancing moves a guess, weighing changes its weight, and resampling copies it.

So they are facts about motions alone, and a computation keeps them if every motion of its result
is one of the motions that it was given, or advanced from one.

## Main definitions

* `PlausibleRadius`: A radius within the bounds of a robot, or NaN.
* `Motion.Shaped`: A guess with plausible radii and a given height offset.
* `Cloud.Shaped`: A cloud of such guesses.

## Theorems

* `Draw.forall_mapM`: What every draw has, all members of the result have.
* `Cloud.shaped_scatter`: A scattered cloud has the height offset of the measurement.
* `Cloud.shaped_advance`, `Cloud.shaped_refresh`: Time and resampling keep it.
* `Cloud.shaped_update`: What a measurement does to it.
-/

namespace FireControl

/-- What every draw has, all members of the result have. -/
theorem Draw.forall_mapM {α β : Type} {P : β → Prop} (f : α → Draw β) (xs : List α)
    (h : ∀ x ∈ xs, ∀ g, P ((f x).run g).1) (g : ChaCha) : ∀ y ∈ ((xs.mapM f).run g).1, P y := by
  induction xs generalizing g with
  | nil => exact fun y hy => absurd hy List.not_mem_nil
  | cons x rest ih =>
      rw [run_mapM_cons, List.forall_mem_cons]
      exact ⟨h x List.mem_cons_self g, ih (fun z hz => h z (List.mem_cons_of_mem x hz)) _⟩

/-- A radius within the bounds of a robot, or NaN. -/
def PlausibleRadius (radius : Float32) : Prop :=
  radius.isNaN = true ∨ (Particle.leastRadius ≤ radius ∧ radius ≤ Particle.greatestRadius)

/-- A guess with plausible radii and a given height offset. -/
structure Motion.Shaped (heightOffset : Float32) (m : Motion) : Prop where
  evenRadius : PlausibleRadius m.evenRadius
  oddRadius : PlausibleRadius m.oddRadius
  heightOffset : m.heightOffset = heightOffset

/-- A cloud of guesses with plausible radii and one height offset. -/
def Cloud.Shaped (heightOffset : Float32) (cloud : Cloud) : Prop :=
  ∀ p ∈ cloud, p.motion.Shaped heightOffset

namespace Motion

variable [ElementaryFunctions] {heightOffset : Float32}

theorem plausible_scatterRadius (radius : Float32) (g : ChaCha) :
    PlausibleRadius ((scatterRadius radius).run g).1 :=
  Float32.clampTo_within _ (by decide +kernel)

/-- A guess near a measurement has the height offset of the measurement. -/
theorem shaped_scatter (noise : SensorNoise) (measured : Motion) (g : ChaCha) :
    ((measured.scatter noise).run g).1.Shaped measured.heightOffset :=
  ⟨plausible_scatterRadius _ _, plausible_scatterRadius _ _, rfl⟩

/-- A guess does not change its shape while it moves. -/
theorem Shaped.advance {m : Motion} (h : m.Shaped heightOffset) (dt : Float32) (g : ChaCha) :
    ((m.advance dt).run g).1.Shaped heightOffset :=
  ⟨h.evenRadius, h.oddRadius, h.heightOffset⟩

end Motion

namespace Cloud

variable {heightOffset : Float32} {cloud : Cloud}

theorem mem_withWeights {p : Particle} {weights : List Float32}
    (h : p ∈ cloud.withWeights weights) : ∃ q ∈ cloud, p.motion = q.motion := by
  rw [withWeights, ← List.map_uncurry_zip_eq_zipWith] at h
  rcases List.mem_map.mp h with ⟨⟨q, w⟩, hmem, rfl⟩
  exact ⟨q, (List.of_mem_zip hmem).1, rfl⟩

/-- What a mark finds is at the place where the search began or after it. -/
theorem seek_sublist (mark : Float32) (particle : Particle) (total : Float32)
    (rest : List Particle) :
    let found := seek mark particle total rest
    ∀ p ∈ found.particle :: found.rest, p ∈ particle :: rest := by
  -- On the rest, from any start: a step of the search only drops particles from the front.
  induction rest generalizing particle total with
  | nil => exact fun p hp => hp
  | cons q rest ih =>
      unfold seek
      by_cases h : total < mark
      · rw [if_pos h]
        exact fun p hp => List.mem_cons_of_mem particle (ih q (total + q.weight) p hp)
      · rw [if_neg h]
        exact fun p hp => hp

/-- The chosen particles are particles of the cloud with another weight. -/
theorem mem_choose (distance : Float32) (n : Nat) (mark : Float32) (place : Place) {p : Particle}
    (h : p ∈ choose distance n mark place) :
    ∃ q ∈ place.particle :: place.rest, p.motion = q.motion := by
  induction n generalizing mark place with
  | zero => exact absurd h List.not_mem_nil
  | succ n ih =>
      have hfound := seek_sublist mark place.particle place.total place.rest
      rw [choose] at h
      rcases List.mem_cons.mp h with rfl | h
      · exact ⟨_, hfound _ List.mem_cons_self, rfl⟩
      · rcases ih _ _ h with ⟨q, hq, heq⟩
        exact ⟨q, hfound q hq, heq⟩

theorem Shaped.of_motions {after : Cloud} (h : cloud.Shaped heightOffset)
    (motions : ∀ p ∈ after, ∃ q ∈ cloud, p.motion = q.motion) : after.Shaped heightOffset := by
  intro p hp
  rcases motions p hp with ⟨q, hq, heq⟩
  rw [heq]
  exact h q hq

theorem shaped_resampleAt (h : cloud.Shaped heightOffset) (random : Float32) :
    (cloud.resampleAt random).Shaped heightOffset := by
  cases cloud with
  | nil => exact h
  | cons p rest => exact h.of_motions fun _ => mem_choose _ _ _ _

theorem shaped_refresh (h : cloud.Shaped heightOffset) (g : ChaCha) :
    (cloud.refresh.run g).1.Shaped heightOffset := by
  unfold refresh
  split
  · unfold resample
    split
    · exact h
    · exact shaped_resampleAt h _
  · exact h

variable [ElementaryFunctions]

/-- A scattered cloud has the height offset of the measurement. -/
theorem shaped_scatter (cloud : Cloud) (noise : SensorNoise) (measured : Motion) (g : ChaCha) :
    ((cloud.scatter noise measured).run g).1.Shaped measured.heightOffset := by
  refine Draw.forall_mapM (P := fun p : Particle => p.motion.Shaped measured.heightOffset) _ cloud
    ?_ g
  exact fun _ _ g => Motion.shaped_scatter noise measured g

theorem shaped_advance (h : cloud.Shaped heightOffset) (dt : Float32) (g : ChaCha) :
    ((cloud.advance dt).run g).1.Shaped heightOffset := by
  unfold advance
  split
  · exact h
  · refine Draw.forall_mapM (P := fun p : Particle => p.motion.Shaped heightOffset) _ cloud ?_ g
    exact fun p hp g => (h p hp).advance dt g

theorem shaped_weigh? {weighed : Cloud} {noise : SensorNoise} {measured : Motion}
    (h : cloud.Shaped heightOffset) (hweigh : cloud.weigh? noise measured = some weighed) :
    weighed.Shaped heightOffset := by
  unfold weigh? at hweigh
  simp only at hweigh
  -- A cloud that is weighed keeps its motions; a failed weighing gives no cloud.
  split at hweigh
  · split at hweigh
    · exact absurd hweigh.symm (Option.some_ne_none weighed)
    · rw [← Option.some.inj hweigh]
      exact h.of_motions fun _ => mem_withWeights
  · exact absurd hweigh.symm (Option.some_ne_none weighed)

/-- After a measurement the height offset is the old one, or that of the measurement where no guess
agrees with it. -/
theorem shaped_update (h : cloud.Shaped heightOffset) (noise : SensorNoise) (measured : Motion)
    (g : ChaCha) :
    ((cloud.update noise measured).run g).1.Shaped
      (if (cloud.weigh? noise measured).isNone then measured.heightOffset else heightOffset) := by
  unfold update
  cases hweigh : cloud.weigh? noise measured with
  | none => exact shaped_scatter cloud noise measured g
  | some weighed => exact shaped_refresh (shaped_weigh? h hweigh) g

end Cloud

end FireControl
