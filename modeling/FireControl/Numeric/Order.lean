/-!
# Ordering Floating-Point Numbers

IEEE comparison leaves NaN unordered. Two rules settle what the turret does with it: a larger or
smaller of two numbers ignores a NaN, and a clamp lets a NaN through.

## Main definitions

* `Float32.maxNum`, `Float32.minNum`: The larger and the smaller number, a NaN being ignored.
* `Float32.clampTo`: A number brought into a closed interval, a NaN staying a NaN.
* `Float32.isPositiveFinite`: Whether a number is finite and above zero.
-/

namespace Float32

/-- The larger of two numbers. A NaN gives way to the other, and of equal numbers the first is
kept. -/
def maxNum (x y : Float32) : Float32 :=
  if x.isNaN then y else if x < y then y else x

/-- The smaller of two numbers. A NaN gives way to the other, and of equal numbers the first is
kept. -/
def minNum (x y : Float32) : Float32 :=
  if x.isNaN then y else if y < x then y else x

/-- The number of `[low, high]` nearest to `x`; a NaN stays a NaN. -/
def clampTo (x low high : Float32) : Float32 :=
  let raised := if x < low then low else x
  if high < raised then high else raised

/-- Whether `x` is finite and above zero. -/
def isPositiveFinite (x : Float32) : Bool :=
  x.isFinite && 0 < x

end Float32
