import FireControl.Toml.Quoted
import FireControl.Toml.Value

/-!
# Bare Values

Values without quotes: numbers, flags and dates. A bare value reaches up to the first character that
cannot be part of one, and the whole of it has to have one of the forms.

A number beyond all formats, or one that names a base but has no digits, has the form of a number
but no value: it is refused only by whoever looks at it.

Underscores may stand between digits. A decimal number has no leading zero; the digits of an
exponent may have some.

## Main definitions

* `Toml.Bare.number?`: A number.
* `Toml.Bare.isMoment`: Whether a text is a date, a time or both.
* `Toml.Bare.read`: A bare value, and what follows it.
-/

namespace FireControl

namespace Toml

namespace Bare

/-- Digits without the underscores between them. -/
def grouped? (isDigit : Char → Bool) : List Char → Option (List Char)
  | [] => none
  | [c] => if isDigit c then some [c] else none
  | c :: d :: cs =>
    if isDigit c then
      if d = '_' then (grouped? isDigit cs).map (c :: ·)
      else (grouped? isDigit (d :: cs)).map (c :: ·)
    else none

/-- The digits of a decimal number: no zero leads. -/
def decimalDigits? (cs : List Char) : Option (List Char) :=
  match grouped? Char.isDigit cs with
  | some ('0' :: _ :: _) => none
  | digits => digits

/-- An integer, if one of the formats can hold it. -/
def integer (n : Int) : Value :=
  if -(Nat.pow 2 127 : Nat) ≤ n ∧ n < (Nat.pow 2 128 : Nat) then .scalar (.integer n)
  else .unreadable

/-- A number with its sign. -/
def signed (negative : Bool) (x : Float) : Float :=
  if negative then -x else x

/-- A number that was read from digits. -/
def float (negative : Bool) (d : Decimal) : Value :=
  if d.nearest.isInf then .unreadable else .scalar (.float (signed negative d.nearest))

/-- The integer of digits of a base. Without any digits there is a number, but one without value. -/
def ofBase? (base : Nat) (isDigit : Char → Bool) (cs : List Char) : Option Value :=
  if cs.isEmpty then some .unreadable
  else (grouped? isDigit cs).map fun digits => integer (Decimal.ofDigits base digits)

/-- The exponent after its mark. -/
def exponent? (cs : List Char) : Option Int :=
  let magnitude (cs : List Char) : Option Int :=
    (grouped? Char.isDigit cs).map fun digits => (Decimal.ofDigits 10 digits : Int)
  match cs with
  | '-' :: cs => (magnitude cs).map Neg.neg
  | '+' :: cs => magnitude cs
  | cs => magnitude cs

/-- Whether a character marks an exponent. -/
def marksExponent (c : Char) : Bool :=
  c = 'e' || c = 'E'

/-- The digits after a point; none where there is no point. -/
def fraction? : List Char → Option (List Char)
  | [] => some []
  | '.' :: cs => grouped? Char.isDigit cs
  | _ => none

/-- The exponent that follows a mark; zero where there is no mark. -/
def exponentPart? : List Char → Option Int
  | [] => some 0
  | _ :: cs => exponent? cs

/-- A number of decimal digits, without its sign. -/
def unsigned? (negative : Bool) (cs : List Char) : Option Value := do
  let mantissa := cs.takeWhile (!marksExponent ·)
  let whole ← decimalDigits? (mantissa.takeWhile (· ≠ '.'))
  if cs.all fun c => c ≠ '.' && !marksExponent c then
    let n : Int := Decimal.ofDigits 10 whole
    return integer (if negative then -n else n)
  else
    let fraction ← fraction? (mantissa.dropWhile (· ≠ '.'))
    let exponent ← exponentPart? (cs.dropWhile (!marksExponent ·))
    return float negative (.ofParts whole fraction exponent)

/-- A number that may be a word, without its sign. -/
def magnitude? (negative : Bool) : List Char → Option Value
  | ['i', 'n', 'f'] => some (.scalar (.float (signed negative (1 / 0))))
  | ['n', 'a', 'n'] => some (.scalar (.float (0 / 0)))
  | cs => unsigned? negative cs

/-- A number. -/
def number? : List Char → Option Value
  | '0' :: 'x' :: cs => ofBase? 16 isHexDigit cs
  | '0' :: 'o' :: cs => ofBase? 8 (fun c => '0' ≤ c && c ≤ '7') cs
  | '0' :: 'b' :: cs => ofBase? 2 (fun c => c = '0' || c = '1') cs
  | '-' :: cs => magnitude? true cs
  | '+' :: cs => magnitude? false cs
  | cs => magnitude? false cs

/-! ### Dates and times -/

/-- The number of exactly `count` digits at the start, and what follows them. -/
def fixedDigits? (count : Nat) (cs : List Char) : Option (Nat × List Char) :=
  let digits := cs.take count
  if digits.length = count ∧ digits.all Char.isDigit then
    some (Decimal.ofDigits 10 digits, cs.drop count)
  else none

/-- What follows a character. -/
def expect? (c : Char) : List Char → Option (List Char)
  | d :: cs => if d = c then some cs else none
  | [] => none

/-- The number of days of a month. -/
def daysIn (year month : Nat) : Nat :=
  if month = 2 then
    if year % 4 = 0 ∧ (year % 100 ≠ 0 ∨ year % 400 = 0) then 29 else 28
  else if month = 4 ∨ month = 6 ∨ month = 9 ∨ month = 11 then 30
  else 31

/-- What follows a date. -/
def afterDate? (cs : List Char) : Option (List Char) := do
  let (year, cs) ← fixedDigits? 4 cs
  let (month, cs) ← fixedDigits? 2 (← expect? '-' cs)
  let (day, cs) ← fixedDigits? 2 (← expect? '-' cs)
  if 1 ≤ month ∧ month ≤ 12 ∧ 1 ≤ day ∧ day ≤ daysIn year month then return cs else none

/-- What follows hours and minutes. -/
def afterMinutes? (cs : List Char) : Option (List Char) := do
  let (hour, cs) ← fixedDigits? 2 cs
  let (minute, cs) ← fixedDigits? 2 (← expect? ':' cs)
  if hour ≤ 23 ∧ minute ≤ 59 then return cs else none

/-- What follows the decimals of a second. -/
def afterDecimals? : List Char → Option (List Char)
  | '.' :: c :: cs => if c.isDigit then some (cs.dropWhile Char.isDigit) else none
  | cs => some cs

/-- What follows the seconds of a time, if it has any. -/
def afterSeconds? : List Char → Option (List Char)
  | ':' :: cs => do
    let (second, cs) ← fixedDigits? 2 cs
    if second ≤ 60 then afterDecimals? cs else none
  | cs => some cs

/-- What follows a time. -/
def afterTime? (cs : List Char) : Option (List Char) := do
  afterSeconds? (← afterMinutes? cs)

/-- Whether a text is the offset of a time zone, or nothing. -/
def isOffset : List Char → Bool
  | [] => true
  | ['Z'] => true
  | ['z'] => true
  | '+' :: cs => afterMinutes? cs = some []
  | '-' :: cs => afterMinutes? cs = some []
  | _ => false

/-- Whether a text is a time, perhaps with an offset. -/
def isClock (offset : Bool) (cs : List Char) : Bool :=
  match afterTime? cs with
  | some rest => if offset then isOffset rest else rest.isEmpty
  | none => false

/-- Whether a text is a date, a time or both. -/
def isMoment (cs : List Char) : Bool :=
  match afterDate? cs with
  | some [] => true
  | some ('T' :: rest) => isClock true rest
  | some ('t' :: rest) => isClock true rest
  | some (' ' :: rest) => isClock true rest
  | some _ => false
  | none => isClock false cs

/-- Whether a character can be part of a bare value. -/
def isPart (c : Char) : Bool :=
  c.isAlphanum || c = '_' || c = '-' || c = '+' || c = '.' || c = ':'

/-- The characters of a bare value. A date may be followed by a blank and a time. -/
def token (cs : List Char) : List Char :=
  let first := cs.takeWhile isPart
  match afterDate? first, cs.drop first.length with
  | some [], ' ' :: c :: rest =>
    if c.isDigit then first ++ ' ' :: (c :: rest).takeWhile isPart else first
  | _, _ => first

/-- The value of its characters. -/
def value? (cs : List Char) : Option Value :=
  match cs with
  | ['t', 'r', 'u', 'e'] => some (.scalar (.boolean true))
  | ['f', 'a', 'l', 's', 'e'] => some (.scalar (.boolean false))
  | cs => (number? cs).or (if isMoment cs then some .moment else none)

/-- The bare value at the start, and what follows it. -/
def read (cs : List Char) : Option (Value × List Char) :=
  let text := token cs
  (value? text).map fun v => (v, cs.drop text.length)

end Bare

end Toml

end FireControl
