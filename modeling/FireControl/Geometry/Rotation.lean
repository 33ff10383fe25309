import FireControl.Geometry.Vector
import FireControl.Numeric.Elementary

/-!
# Rotations

Rotation matrices as three rows. A rotation about an axis by an angle of exactly zero is the
identity, so that an orientation of zero leaves a vector bit for bit as it was.

## Main definitions

* `Rotation`: A rotation matrix.
* `Rotation.about`: The rotation about a unit axis by an angle.
* `Rotation.apply`, `Rotation.comp`: The image of a vector, and one rotation after another.
* `Rotation.inverse`: The transposed matrix.
-/

namespace FireControl

/-- A rotation matrix, given by its rows. -/
structure Rotation where
  first : Vec3
  second : Vec3
  third : Vec3
deriving DecidableEq

namespace Rotation

variable [ElementaryFunctions]

/-- The rotation that moves nothing. -/
def identity : Rotation :=
  ⟨⟨1, 0, 0⟩, ⟨0, 1, 0⟩, ⟨0, 0, 1⟩⟩

/-- The rotation about the unit vector `u` by `angle`. -/
def about (u : Vec3) (angle : Float32) : Rotation :=
  if angle == 0 then identity
  else
    let s := ElementaryFunctions.sin angle
    let c := ElementaryFunctions.cos angle
    let k := 1 - c
    { first := ⟨u.x * u.x + (1 - u.x * u.x) * c, u.x * u.y * k - u.z * s, u.x * u.z * k + u.y * s⟩,
      second := ⟨u.x * u.y * k + u.z * s, u.y * u.y + (1 - u.y * u.y) * c, u.y * u.z * k - u.x * s⟩,
      third := ⟨u.x * u.z * k - u.y * s, u.y * u.z * k + u.x * s, u.z * u.z + (1 - u.z * u.z) * c⟩ }

/-- The image of a vector. -/
def apply (r : Rotation) (v : Vec3) : Vec3 :=
  ⟨r.first.rowTimes v, r.second.rowTimes v, r.third.rowTimes v⟩

/-- The columns of the matrix as rows: the rotation back. -/
def inverse (r : Rotation) : Rotation :=
  { first := ⟨r.first.x, r.second.x, r.third.x⟩,
    second := ⟨r.first.y, r.second.y, r.third.y⟩,
    third := ⟨r.first.z, r.second.z, r.third.z⟩ }

/-- The rotation `r` after the rotation `s`: each column of `s` is moved by `r`. -/
def comp (r s : Rotation) : Rotation :=
  let columns := s.inverse
  inverse ⟨r.apply columns.first, r.apply columns.second, r.apply columns.third⟩

end Rotation

end FireControl
