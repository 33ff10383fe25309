import FireControl.Decimal.Nearest

/-!
# Numbers on the Command Line

The texts of numbers that an operator types. An integer has a sign and digits; a number with a
fraction has a sign, digits with at most one point among or around them, and perhaps an exponent, or
is one of the words for infinity and for what is not a number, in any case.

## Main definitions

* `Decimal.ofText?`: The decimal of a text without a sign.
* `Literal.integer?`, `Literal.natural?`, `Literal.single?`: The numbers.
-/

namespace FireControl

namespace Literal

/-- A sign, if there is one, and what follows it. -/
def sign : List Char → Bool × List Char
  | '-' :: cs => (true, cs)
  | '+' :: cs => (false, cs)
  | cs => (false, cs)

/-- The number of a list of digits that is not empty. -/
def digits? (cs : List Char) : Option Nat :=
  if cs.isEmpty || !cs.all Char.isDigit then none else some (Decimal.ofDigits 10 cs)

/-- An integer. -/
def integer? (cs : List Char) : Option Int :=
  let (negative, digits) := sign cs
  (digits? digits).map fun n => if negative then -n else n

/-- A natural number; a plus sign may stand in front of it. -/
def natural? : List Char → Option Nat
  | '+' :: cs => digits? cs
  | cs => digits? cs

end Literal

/-- The decimal of a text without a sign. -/
def Decimal.ofText? (cs : List Char) : Option Decimal :=
  let marks (c : Char) : Bool := c = 'e' || c = 'E'
  let mantissa := cs.takeWhile (!marks ·)
  let whole := mantissa.takeWhile (· ≠ '.')
  let fraction := (mantissa.dropWhile (· ≠ '.')).drop 1
  match Literal.digits? (whole ++ fraction), cs.dropWhile (!marks ·) with
  | none, _ => none
  | some _, [] => some (.ofParts whole fraction 0)
  | some _, _ :: exponent => (Literal.integer? exponent).map fun e => .ofParts whole fraction e

namespace Literal

/-- A number in single precision without its sign. -/
def magnitude? (cs : List Char) : Option Float32 :=
  let word := String.ofList (cs.map Char.toLower)
  if word = "inf" ∨ word = "infinity" then some (1 / 0)
  else if word = "nan" then some (0 / 0)
  else (Decimal.ofText? cs).map Decimal.nearestSingle

/-- A number in single precision. -/
def single? (cs : List Char) : Option Float32 :=
  let (negative, rest) := sign cs
  (magnitude? rest).map fun x => if negative then -x else x

end Literal

end FireControl
