import FireControl.Decimal.Text
import FireControl.Toml.Quoted
import FireControl.Toml.Value

/-!
# Writing TOML

A settings file is written as a list of sections, each with a header, one line for each key, and an
empty line before the next section. Every number is written so that it reads back: integers in
decimal, the others with the fewest digits that suffice in their precision, and with a point.

## Main definitions

* `Toml.numberStyle`: The marks of numbers.
* `Toml.Scalar.write`: The text of a value.
* `Toml.Section`, `Toml.writeSections`: A section, and the text of a list of them.
-/

namespace FireControl

namespace Toml

/-- Numbers without a fraction keep a point, so that they read back as no integers. -/
def numberStyle : NumberStyle := ⟨"nan", "inf", ".0"⟩

/-- The text of an integer. -/
def writeInteger (n : Int) : List Char :=
  if n < 0 then '-' :: Nat.toDigits 10 n.natAbs else Nat.toDigits 10 n.natAbs

/-- The text of a value. -/
def Scalar.write : Scalar → List Char
  | .string s => Quoted.write s.toList
  | .integer n => writeInteger n
  | .float x => (numberStyle.shortest .binary64 x.toModel.unpack).toList
  | .single x => (numberStyle.shortest .binary32 x.toModel.unpack).toList
  | .boolean true => ['t', 'r', 'u', 'e']
  | .boolean false => ['f', 'a', 'l', 's', 'e']

/-- The keys and values below a header. -/
structure Section where
  name : String
  entries : List (String × Scalar)

/-- The line of a key and its value. -/
def writeEntry (key : String) (v : Scalar) : List Char :=
  key.toList ++ ' ' :: '=' :: ' ' :: v.write ++ ['\n']

/-- The header of a section and its lines. -/
def Section.write (part : Section) : List Char :=
  '[' :: part.name.toList ++ [']', '\n'] ++
    part.entries.flatMap fun (key, v) => writeEntry key v

/-- The text of a list of sections, with an empty line between two of them. -/
def writeSections : List Section → List Char
  | [] => []
  | [part] => part.write
  | part :: rest => part.write ++ '\n' :: writeSections rest

end Toml

end FireControl
