import FireControl.Numeric.Precision

/-!
# TOML Values

A settings file as a tree. Tables keep how they came about, because that decides what a later line
may add to them. Numbers are read in double precision; a number in single precision only occurs in a
tree that is to be written, where it needs fewer digits.

## Main definitions

* `Toml.Scalar`, `Toml.Value`: A value without parts, and a value.
* `Toml.Origin`: How a table came about.
* `Toml.Value.isReadable`: Whether all numbers in a value can be read.
* `Toml.Scalar.asSingle` and its siblings: The value as a field wants it.
-/

namespace FireControl

namespace Toml

/-- How a table came about. -/
inductive Origin where
  /-- By its own header, or as an element of an array of tables. -/
  | header
  /-- By the header of a table inside it. -/
  | implied
  /-- By a key with dots. -/
  | dotted
  /-- By braces. Nothing can be added to it. -/
  | closed
deriving DecidableEq, Repr

/-- A value without parts. -/
inductive Scalar where
  | string (text : String)
  | integer (n : Int)
  | float (x : Float)
  /-- A number that is to be written in single precision. -/
  | single (x : Float32)
  | boolean (b : Bool)
deriving DecidableEq, Inhabited

/-- A value of a settings file. -/
inductive Value where
  | scalar (s : Scalar)
  /-- A date, a time or both. -/
  | moment
  /-- A number beyond the range of all formats, or without digits, which must not be looked at. -/
  | unreadable
  | array (items : List Value)
  | table (origin : Origin) (entries : List (String × Value))
  /-- An array of tables, each with a header of its own. -/
  | tables (elements : List (List (String × Value)))
deriving Inhabited

/-- The keys and values of a table. -/
abbrev Entries := List (String × Value)

namespace Value

mutual

/-- Whether all numbers in a value can be read. -/
def isReadable : Value → Bool
  | .unreadable => false
  | .array items => areReadable items
  | .table _ entries => entriesReadable entries
  | .tables elements => elementsReadable elements
  | .scalar _ => true
  | .moment => true

/-- Whether all numbers in a list of values can be read. -/
def areReadable : List Value → Bool
  | [] => true
  | v :: rest => v.isReadable && areReadable rest

/-- Whether all numbers in the values of a table can be read. -/
def entriesReadable : List (String × Value) → Bool
  | [] => true
  | (_, v) :: rest => v.isReadable && entriesReadable rest

/-- Whether all numbers in a list of tables can be read. -/
def elementsReadable : List (List (String × Value)) → Bool
  | [] => true
  | entries :: rest => entriesReadable entries && elementsReadable rest

end

end Value

namespace Scalar

/-- The value as a natural number below a bound. -/
def asBelow (bound : Nat) : Scalar → Option Nat
  | .integer n => if 0 ≤ n ∧ n < bound then some n.toNat else none
  | _ => none

/-- The value as a word of 64 bits. -/
def asWord64 (v : Scalar) : Option UInt64 :=
  (v.asBelow UInt64.size).map UInt64.ofNat

/-- The value as a word of 32 bits. -/
def asWord32 (v : Scalar) : Option UInt32 :=
  (v.asBelow UInt32.size).map UInt32.ofNat

/-- Whether an integer can stand for a floating-point number: it fits a signed or an unsigned word
of 64 bits. -/
def fitsWord (n : Int) : Bool :=
  -(Nat.pow 2 63 : Nat) ≤ n && n < UInt64.size

/-- The value in double precision. -/
def asDouble : Scalar → Option Float
  | .float x => some x
  | .single x => some x.widen
  | .integer n => if fitsWord n then some (Float.ofInteger n) else none
  | _ => none

/-- The value in single precision. -/
def asSingle : Scalar → Option Float32
  | .float x => some x.narrow
  | .single x => some x
  | .integer n => if fitsWord n then some (Float32.ofInteger n) else none
  | _ => none

/-- The value as a flag. -/
def asFlag : Scalar → Option Bool
  | .boolean b => some b
  | _ => none

/-- The value as a text. -/
def asText : Scalar → Option String
  | .string s => some s
  | _ => none

end Scalar

end Toml

end FireControl
