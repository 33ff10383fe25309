import FireControl.Estimation.Particle

/-!
# Systematic Resampling

A cloud whose weight sits on a few particles is replaced by one of equal weights, in which a
particle stands about as often as its weight says. Marks are set at equal distances, the first at a
random place within the first distance; each mark chooses the particle in whose stretch of the
running sum of the weights it falls. The marks and the running sums both grow, so one walk along the
cloud serves all marks.

## Main definitions

* `Cloud`: A list of particles.
* `Cloud.Place`: A particle in the cloud together with the running sum of the weights up to it.
* `Cloud.Place.seek`: The place where a mark falls.
* `Cloud.resample`: The cloud of equal weights.
-/

namespace FireControl

/-- The guesses of a filter. -/
abbrev Cloud := List Particle

namespace Cloud

/-- A particle of a cloud, the running sum of the weights up to and with it, and the particles that
follow it. -/
structure Place where
  particle : Particle
  total : Float32
  rest : List Particle

/-- The place where a mark falls: the first from here whose running sum reaches the mark, or else
the last. -/
def seek (mark : Float32) (particle : Particle) (total : Float32) : List Particle → Place
  | [] => ⟨particle, total, []⟩
  | p :: rest =>
    if total < mark then seek mark p (total + p.weight) rest else ⟨particle, total, p :: rest⟩

/-- The place where a mark falls, from another place on. -/
def Place.seek (mark : Float32) (place : Place) : Place :=
  Cloud.seek mark place.particle place.total place.rest

/-- The particles chosen by `n` marks, `distance` apart, that begin at `mark`. -/
def choose (distance : Float32) : Nat → Float32 → Place → Cloud
  | 0, _, _ => []
  | n + 1, mark, place =>
    let found := place.seek mark
    { found.particle with weight := distance } :: choose distance n (mark + distance) found

/-- The cloud of equal weights, from a random number in `[0, 1)`. -/
def resampleAt (cloud : Cloud) (random : Float32) : Cloud :=
  match cloud with
  | [] => []
  | p :: rest =>
    let distance := 1 / Float32.ofInteger cloud.length
    choose distance cloud.length (random * distance) ⟨p, p.weight, rest⟩

/-- The cloud of equal weights. An empty cloud draws no random number. -/
def resample (cloud : Cloud) : Draw Cloud := do
  if cloud.isEmpty then return cloud
  else return cloud.resampleAt (← Draw.uniform)

end Cloud

end FireControl
