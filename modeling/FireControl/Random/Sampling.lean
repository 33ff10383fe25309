import FireControl.Geometry.Angle
import FireControl.Numeric.Order
import FireControl.Random.ChaCha

/-!
# Sampling

Random numbers in single precision. Every sampler takes the generator and returns it, so the numbers
that a run has drawn can be read off its definition.

## Main definitions

* `Draw`: A computation that draws random numbers.
* `Draw.uniform`: A number in `[0, 1)`.
* `Draw.normal`: A normally distributed number.
-/

namespace FireControl

/-- A computation that draws random numbers. -/
abbrev Draw (α : Type) := StateM ChaCha α

namespace Draw

/-- The next random word. -/
def word : Draw UInt32 :=
  fun g => g.next

/-- A number in `[0, 1)` from the upper 24 bits of a word. -/
def uniform : Draw Float32 := do
  let w ← word
  return Float32.ofInteger (Int.ofNat (w >>> 8).toNat) * 5.9604644775390625e-8

/-- The least positive normal number. -/
def leastNormal : Float32 := 1.17549435082228750797e-38

/-- The normally distributed number with mean zero and deviation `sigma` that two uniform numbers
give. -/
def boxMuller [ElementaryFunctions] (sigma u v : Float32) : Float32 :=
  sigma * (-2 * ElementaryFunctions.log u).sqrt * ElementaryFunctions.cos (Angle.tau * v)

/-- A normally distributed number with mean zero and deviation `sigma`. The first of the two uniform
numbers is kept away from zero, whose logarithm is infinite. -/
def normal [ElementaryFunctions] (sigma : Float32) : Draw Float32 := do
  let u ← uniform
  let v ← uniform
  return boxMuller sigma (u.maxNum leastNormal) v

end Draw

end FireControl
