import FireControl.Decimal.Nearest

/-!
# Quoted Strings

The four forms of a string: in double quotes with escapes, in single quotes without them, and both
with three quotes over several lines. A reader gets what follows the opening quotes and gives the
contents and what follows the closing ones.

A string is written in the first form that shows it as it is: in double quotes, in single quotes, in
three double quotes, in three single quotes. If none does, it is written with escapes.

## Main definitions

* `Toml.Quoted.basic`, `Toml.Quoted.literal`: The readers of the forms on one line.
* `Toml.Quoted.basicLines`, `Toml.Quoted.literalLines`: The readers of the forms over several lines.
* `Toml.Quoted.read`: The reader of all forms.
* `Toml.Quoted.form`, `Toml.Quoted.write`: The form in which a string is written, and its text.
-/

namespace FireControl

namespace Toml

/-- A control character other than a tab. -/
def isControl (c : Char) : Bool :=
  (c.toNat < 0x20 && c ≠ '\t') || c.toNat = 0x7F

/-- A space or a tab. -/
def isBlank (c : Char) : Bool :=
  c = ' ' || c = '\t'

/-- Whether a character is a hexadecimal digit. -/
def isHexDigit (c : Char) : Bool :=
  c.isDigit || ('a' ≤ c && c ≤ 'f') || ('A' ≤ c && c ≤ 'F')

namespace Quoted

/-- The character of a code point. -/
def charOf? (n : Nat) : Option Char :=
  if n < 0xD800 ∨ (0xDFFF < n ∧ n < 0x110000) then some (Char.ofNat n) else none

/-- The character of `count` hexadecimal digits. -/
def hexEscape? (count : Nat) (cs : List Char) : Option Char :=
  let digits := cs.take count
  if digits.length = count ∧ digits.all isHexDigit then charOf? (Decimal.ofDigits 16 digits)
  else none

/-- The character that an escape stands for, and the number of characters after the backslash that
it takes. -/
def escape? : List Char → Option (Char × Nat)
  | 'b' :: _ => some ('\x08', 1)
  | 't' :: _ => some ('\t', 1)
  | 'n' :: _ => some ('\n', 1)
  | 'f' :: _ => some ('\x0c', 1)
  | 'r' :: _ => some ('\r', 1)
  | 'e' :: _ => some ('\x1b', 1)
  | '"' :: _ => some ('"', 1)
  | '\\' :: _ => some ('\\', 1)
  | 'x' :: cs => (hexEscape? 2 cs).map fun c => (c, 3)
  | 'u' :: cs => (hexEscape? 4 cs).map fun c => (c, 5)
  | 'U' :: cs => (hexEscape? 8 cs).map fun c => (c, 9)
  | _ => none

/-- The contents of a string in double quotes, and what follows it. -/
def basic : List Char → Option (List Char × List Char)
  | [] => none
  | '"' :: cs => some ([], cs)
  | '\\' :: cs =>
    match escape? cs with
    | none => none
    | some (c, n) => (basic (cs.drop n)).map fun (s, rest) => (c :: s, rest)
  | c :: cs => if isControl c then none else (basic cs).map fun (s, rest) => (c :: s, rest)
termination_by cs => cs.length
decreasing_by all_goals simp only [List.length_drop, List.length_cons]; omega

/-- The contents of a string in single quotes, and what follows it. -/
def literal : List Char → Option (List Char × List Char)
  | [] => none
  | '\'' :: cs => some ([], cs)
  | c :: cs => if isControl c then none else (literal cs).map fun (s, rest) => (c :: s, rest)

/-- What follows a line break, if there is one. -/
def afterNewline? : List Char → Option (List Char)
  | '\n' :: cs => some cs
  | '\r' :: '\n' :: cs => some cs
  | _ => none

/-- The text without the blanks and line breaks at its start. -/
def skipSpace : List Char → List Char
  | ' ' :: cs => skipSpace cs
  | '\t' :: cs => skipSpace cs
  | '\n' :: cs => skipSpace cs
  | '\r' :: '\n' :: cs => skipSpace cs
  | cs => cs

/-- What follows an escaped line break, if there is one, and the blanks and line breaks after it. -/
def afterEscapedNewline? (cs : List Char) : Option (List Char) :=
  (afterNewline? (cs.dropWhile isBlank)).map skipSpace

/-- The quotes that belong to the contents where a string ends: up to two before the closing
three. -/
def closing (quote : Char) : List Char → List Char × List Char
  | a :: b :: cs =>
    if a = quote then
      if b = quote then ([quote, quote], cs) else ([quote], b :: cs)
    else ([], a :: b :: cs)
  | [a] => if a = quote then ([quote], []) else ([], [a])
  | [] => ([], [])

/-- The number of characters of an escaped line break after the backslash, if there is one. -/
def escapedNewline? (cs : List Char) : Option Nat :=
  (afterEscapedNewline? cs).map fun rest => cs.length - rest.length

/-- The contents of a string in three double quotes, and what follows it. -/
def basicLines : List Char → Option (List Char × List Char)
  | [] => none
  | '"' :: '"' :: '"' :: cs => some (closing '"' cs)
  | '\\' :: cs =>
    match escapedNewline? cs with
    | some n => basicLines (cs.drop n)
    | none =>
      match escape? cs with
      | none => none
      | some (c, n) => (basicLines (cs.drop n)).map fun (s, rest) => (c :: s, rest)
  | '\r' :: '\n' :: cs => (basicLines cs).map fun (s, rest) => ('\r' :: '\n' :: s, rest)
  | c :: cs =>
    if isControl c ∧ c ≠ '\n' then none else (basicLines cs).map fun (s, rest) => (c :: s, rest)
termination_by cs => cs.length
decreasing_by all_goals simp only [List.length_drop, List.length_cons]; omega

/-- The contents of a string in three single quotes, and what follows it. -/
def literalLines : List Char → Option (List Char × List Char)
  | [] => none
  | '\'' :: '\'' :: '\'' :: cs => some (closing '\'' cs)
  | '\r' :: '\n' :: cs => (literalLines cs).map fun (s, rest) => ('\r' :: '\n' :: s, rest)
  | c :: cs =>
    if isControl c ∧ c ≠ '\n' then none else (literalLines cs).map fun (s, rest) => (c :: s, rest)

/-- The text without a line break at its start. -/
def trimNewline (cs : List Char) : List Char :=
  (afterNewline? cs).getD cs

/-- The contents of a string on one line, and what follows it. -/
def readLine : List Char → Option (List Char × List Char)
  | '"' :: cs => basic cs
  | '\'' :: cs => literal cs
  | _ => none

/-- The contents of a string of any form, and what follows it. -/
def read : List Char → Option (List Char × List Char)
  | '"' :: '"' :: '"' :: cs => basicLines (trimNewline cs)
  | '\'' :: '\'' :: '\'' :: cs => literalLines (trimNewline cs)
  | cs => readLine cs

/-- The forms in which a string is written. -/
inductive Form where
  | basic
  | literal
  | basicLines
  | literalLines
deriving DecidableEq, Repr

/-- The length of the longest run of a character, when the present run has length `run`. -/
def longestRun (quote : Char) (run longest : Nat) : List Char → Nat
  | [] => longest
  | c :: cs =>
    if c = quote then longestRun quote (run + 1) (max longest (run + 1)) cs
    else longestRun quote 0 longest cs

/-- Whether a string holds a character that no form shows as it is. -/
def needsEscape (s : List Char) : Bool :=
  s.any fun c => isControl c && c ≠ '\n'

/-- The form in which a string is written. -/
def form (s : List Char) : Form :=
  let double := longestRun '"' 0 0 s
  let single := longestRun '\'' 0 0 s
  let lines := s.contains '\n'
  let hidden := needsEscape s
  let backslash := s.contains '\\'
  if !hidden && !backslash && double = 0 && !lines then .basic
  else if !hidden && single = 0 && !lines then .literal
  else if !hidden && !backslash && double ≤ 2 then .basicLines
  else if !hidden && single ≤ 2 then .literalLines
  else if lines then .basicLines
  else .basic

/-- The text of a character with escapes. -/
def escaped (c : Char) : List Char :=
  match c with
  | '\x08' => ['\\', 'b']
  | '\t' => ['\\', 't']
  | '\n' => ['\\', 'n']
  | '\x0c' => ['\\', 'f']
  | '\r' => ['\\', 'r']
  | '"' => ['\\', '"']
  | '\\' => ['\\', '\\']
  | c =>
    if isControl c then
      '\\' :: 'u' :: padLeft 4 '0' ((Nat.toDigits 16 c.toNat).map Char.toUpper)
    else [c]

/-- The text of a string in three double quotes: of three quotes in a row the third has an escape,
and line breaks have none. `run` quotes stand directly before. -/
def escapedLines (run : Nat) : List Char → List Char
  | [] => []
  | '"' :: cs =>
    if run < 2 then '"' :: escapedLines (run + 1) cs else '\\' :: '"' :: escapedLines 0 cs
  | '\n' :: cs => '\n' :: escapedLines 0 cs
  | c :: cs => escaped c ++ escapedLines 0 cs

/-- The text of a string. Where it runs over several lines, it starts on a line of its own. -/
def write (s : List Char) : List Char :=
  let start := if s.contains '\n' then ['\n'] else []
  match form s with
  | .basic => '"' :: s.flatMap escaped ++ ['"']
  | .literal => '\'' :: s ++ ['\'']
  | .basicLines => ['"', '"', '"'] ++ start ++ escapedLines 0 s ++ ['"', '"', '"']
  | .literalLines => ['\'', '\'', '\''] ++ start ++ s ++ ['\'', '\'', '\'']

end Quoted

end Toml

end FireControl
