import FireControl.Decimal.Shortest
import FireControl.Decimal.Rounded

/-!
# Texts of Floating-Point Numbers

The ways in which a number is shown: all the digits it needs, a fixed number of places, or a fixed
number of digits. All share the sign rule (a minus sign for every negative number, negative zero
included) and the words for numbers that are not finite.

## Main definitions

* `NumberStyle`: The words and marks of a text.
* `NumberStyle.shortest`: The shortest digits that read back, in positional notation.
* `NumberStyle.fixed`: A fixed number of places, a half going to the even digit.
* `NumberStyle.scientific`: A fixed number of digits and an exponent.
* `NumberStyle.message`: The style of log lines and error messages.
* `Float32.text`, `Float.text`: The text in a message.
-/

namespace FireControl

open Float.Model (Format UnpackedFloat)
open Float.Model.UnpackedFloat (Sign)

/-- The marks with which numbers are written. -/
structure NumberStyle where
  /-- The text of a number that is not a number. -/
  notANumber : String
  /-- The text of positive infinity. -/
  infinity : String
  /-- What follows the digits of a number without a fraction. -/
  integralSuffix : String

namespace NumberStyle

/-- The style of log lines and error messages. -/
def message : NumberStyle := ⟨"NaN", "inf", ""⟩

/-- The mark in front of a number's digits. -/
def signMark : Sign → String
  | .negative => "-"
  | .positive => ""

/-- The shortest digits that read back, in positional notation. -/
def shortest (style : NumberStyle) (format : Format) : UnpackedFloat → String
  | .notANumber => style.notANumber
  | .infinity sign => signMark sign ++ style.infinity
  | .zero sign => signMark sign ++ "0" ++ style.integralSuffix
  | .finite sign mantissa exponent _ =>
    let decimal := (Binary.mk format mantissa exponent).shortest
    signMark sign ++ String.ofList decimal.plain ++
      (if 0 ≤ decimal.exponent then style.integralSuffix else "")

/-- The number with exactly `places` digits after the point. -/
def fixed (style : NumberStyle) (places : Nat) : UnpackedFloat → String
  | .notANumber => style.notANumber
  | .infinity sign => signMark sign ++ style.infinity
  | .zero sign => signMark sign ++ String.ofList (Decimal.pointed places 0)
  | .finite sign mantissa exponent _ =>
    signMark sign ++ String.ofList (Decimal.pointed places (roundedAt (-places) mantissa exponent))

/-- The number with `digits` digits, of which one stands before the point, and an exponent. -/
def scientific (style : NumberStyle) (digits : Nat) : UnpackedFloat → String
  | .notANumber => style.notANumber
  | .infinity sign => signMark sign ++ style.infinity
  | .zero sign => signMark sign ++ "0.0"
  | .finite sign mantissa exponent _ =>
    let (n, k) := significant digits mantissa exponent
    let ds := Nat.toDigits 10 n
    signMark sign ++ String.ofList (ds.take 1 ++ '.' :: ds.drop 1) ++ s!"e{k}"

end NumberStyle

end FireControl

/-- The text of a number in a message. -/
def Float32.text (x : Float32) : String :=
  FireControl.NumberStyle.message.shortest .binary32 x.toModel.unpack

/-- The text of a number with a fixed number of places. -/
def Float32.fixedText (places : Nat) (x : Float32) : String :=
  FireControl.NumberStyle.message.fixed places x.toModel.unpack

/-- The text of a number in a message. -/
def Float.text (x : Float) : String :=
  FireControl.NumberStyle.message.shortest .binary64 x.toModel.unpack

/-- The text of a number with a fixed number of places. -/
def Float.fixedText (places : Nat) (x : Float) : String :=
  FireControl.NumberStyle.message.fixed places x.toModel.unpack
