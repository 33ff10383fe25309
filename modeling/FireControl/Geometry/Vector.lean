import FireControl.Numeric.Pattern

/-!
# Vectors

Vectors of three single-precision numbers. Positions are in metres; in the camera frame `x` points
right, `y` down and `z` forward. Sums and products round at every step, in the order written.

A vector whose length goes into the total order is kept by the bits of its components.

## Main definitions

* `Vec3`: A vector, with sum, difference and scaling by component.
* `Vec3.norm`: The Euclidean length.
* `Vec3Bits`: A vector as it stands in memory.
* `Vec3Bits.norm`: The bits of the Euclidean length.
-/

namespace FireControl

/-- A vector of three single-precision numbers. -/
structure Vec3 where
  x : Float32
  y : Float32
  z : Float32
deriving DecidableEq, Inhabited

namespace Vec3

/-- The vector of three zeros. -/
def zero : Vec3 := ⟨0, 0, 0⟩

/-- A function of two numbers applied to each component. -/
def zipWith (f : Float32 → Float32 → Float32) (v w : Vec3) : Vec3 :=
  ⟨f v.x w.x, f v.y w.y, f v.z w.z⟩

instance : Add Vec3 := ⟨zipWith (· + ·)⟩

instance : Sub Vec3 := ⟨zipWith (· - ·)⟩

/-- Every component multiplied by `k`. -/
def scale (v : Vec3) (k : Float32) : Vec3 :=
  ⟨v.x * k, v.y * k, v.z * k⟩

/-- The squares of the components, added from the left. -/
def normSquared (v : Vec3) : Float32 :=
  v.x * v.x + v.y * v.y + v.z * v.z

/-- The Euclidean length. -/
def norm (v : Vec3) : Float32 :=
  v.normSquared.sqrt

/-- The product of a row and a column, added from the last component: `c + (b + a)`. -/
def rowTimes (row v : Vec3) : Float32 :=
  row.z * v.z + (row.y * v.y + row.x * v.x)

end Vec3

/-- A vector as it stands in memory, by the bits of its components. -/
structure Vec3Bits where
  x : Pattern
  y : Pattern
  z : Pattern
deriving DecidableEq, Inhabited

/-- The bits of a vector. -/
def Vec3.bits (v : Vec3) : Vec3Bits :=
  ⟨.ofNumber v.x, .ofNumber v.y, .ofNumber v.z⟩

namespace Vec3Bits

/-- The vector that the bits stand for. -/
def vector (v : Vec3Bits) : Vec3 :=
  ⟨v.x.number, v.y.number, v.z.number⟩

/-- The bits of the Euclidean length. -/
def norm (v : Vec3Bits) : Pattern :=
  (v.x * v.x + v.y * v.y + v.z * v.z).sqrt

end Vec3Bits

end FireControl
