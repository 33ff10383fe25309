import FireControl.Toml.Bare
import FireControl.Toml.Table

/-!
# Reading TOML

A settings file is a list of lines: headers, and keys with values. A value in brackets or braces may
run over several lines, and may hold at most eighty others around its innermost one; inside it a
line may end wherever a blank may stand, except within a key. A key has at most eighty parts.

Readers get a list of characters and give what they have read together with what follows it.

## Main definitions

* `Toml.readKey`: A key, which may have dots.
* `Toml.readValue`: A value.
* `Toml.Statement`, `Toml.readStatements`: The lines of a file.
* `Toml.parse`: The tree of a file.
-/

namespace FireControl

namespace Toml

open Quoted (afterNewline?)

/-- How many brackets and braces may be open at once. -/
def maxDepth : Nat := 80

/-- How many parts a key may have. -/
def maxParts : Nat := 80

/-- The text without blanks at its start. -/
def skipBlanks (cs : List Char) : List Char :=
  cs.dropWhile isBlank

/-- The text without a comment at its start. -/
def skipComment : List Char → List Char
  | '#' :: cs => cs.dropWhile fun c => !isControl c
  | cs => cs

/-- What follows the end of a line, at which only a comment may stand. -/
def endLine? (cs : List Char) : Option (List Char) :=
  match skipComment (skipBlanks cs) with
  | [] => some []
  | rest => afterNewline? rest

/-- The text without blanks, comments and line breaks at its start; at most `fuel` lines are
skipped. -/
def skipLines : Nat → List Char → List Char
  | 0, cs => cs
  | fuel + 1, cs =>
    let rest := skipComment (skipBlanks cs)
    match afterNewline? rest with
    | some next => skipLines fuel next
    | none => rest

/-- The text without blanks, comments and line breaks at its start. -/
def skipFiller (cs : List Char) : List Char :=
  skipLines (cs.length + 1) cs

/-- Whether a character can be part of a key without quotes. -/
def isKeyPart (c : Char) : Bool :=
  c.isAlphanum || c = '_' || c = '-'

/-- A key without dots. -/
def readPart : List Char → Option (String × List Char)
  | '"' :: cs => (Quoted.basic cs).map fun (s, rest) => (String.ofList s, rest)
  | '\'' :: cs => (Quoted.literal cs).map fun (s, rest) => (String.ofList s, rest)
  | cs =>
    let part := cs.takeWhile isKeyPart
    if part.isEmpty then none else some (String.ofList part, cs.drop part.length)

/-- The parts of a key after its first one, at most `fuel` of them. -/
def readParts : Nat → List Char → Option (List String × List Char)
  | 0, cs => some ([], cs)
  | fuel + 1, cs =>
    match skipBlanks cs with
    | '.' :: rest => do
      let (part, rest) ← readPart (skipBlanks rest)
      let (parts, rest) ← readParts fuel rest
      return (part :: parts, rest)
    | rest => some ([], rest)

/-- A key: its parts before the last one, and the last one. Blanks around it are skipped. -/
def readKey (cs : List Char) : Option ((List String × String) × List Char) := do
  let (first, rest) ← readPart (skipBlanks cs)
  let (more, rest) ← readParts rest.length rest
  let parts := first :: more
  if maxParts < parts.length then none
  else return ((parts.dropLast, parts.getLastD first), rest)

mutual

/-- A value, with at most `depth` brackets and braces still to be opened. -/
def readValueIn (fuel depth : Nat) (cs : List Char) : Option (Value × List Char) :=
  match fuel with
  | 0 => none
  | fuel + 1 =>
    match cs with
    | '"' :: _ => (Quoted.read cs).map fun (s, rest) => (.scalar (.string (String.ofList s)), rest)
    | '\'' :: _ => (Quoted.read cs).map fun (s, rest) => (.scalar (.string (String.ofList s)), rest)
    | '[' :: rest =>
      match depth with
      | 0 => none
      | depth + 1 => (readItems fuel depth rest).map fun (items, rest) => (.array items, rest)
    | '\x7b' :: rest =>
      match depth with
      | 0 => none
      | depth + 1 =>
        (readPairs fuel depth [] rest).map fun (entries, rest) => (.table .closed entries, rest)
    | cs => Bare.read cs

/-- The values of an array after its bracket. -/
def readItems (fuel depth : Nat) (cs : List Char) : Option (List Value × List Char) :=
  match fuel with
  | 0 => none
  | fuel + 1 =>
    match skipFiller cs with
    | ']' :: rest => some ([], rest)
    | start => do
      let (v, rest) ← readValueIn fuel depth start
      match skipFiller rest with
      | ']' :: rest => return ([v], rest)
      | ',' :: rest =>
        let (vs, rest) ← readItems fuel depth rest
        return (v :: vs, rest)
      | _ => none

/-- The keys and values of a table after its brace, added to those before. -/
def readPairs (fuel depth : Nat) (entries : Entries) (cs : List Char) :
    Option (Entries × List Char) :=
  match fuel with
  | 0 => none
  | fuel + 1 =>
    match skipFiller cs with
    | '\x7d' :: rest => some (entries, rest)
    | start => do
      let ((path, key), rest) ← readKey start
      let rest ← Bare.expect? '=' (skipFiller rest)
      let (v, rest) ← readValueIn fuel depth (skipFiller rest)
      let entries ← Entries.insert? path key v .closed entries
      match skipFiller rest with
      | '\x7d' :: rest => return (entries, rest)
      | ',' :: rest => readPairs fuel depth entries rest
      | _ => none

end

/-- A value. -/
def readValue (cs : List Char) : Option (Value × List Char) :=
  readValueIn (2 * cs.length + 2) maxDepth cs

/-- A line of a settings file. A key is given by its parts before the last one, and the last one. -/
inductive Statement where
  /-- The header of a table. -/
  | header (path : List String) (key : String)
  /-- The header of an element of an array of tables. -/
  | element (path : List String) (key : String)
  /-- A key and its value. -/
  | entry (path : List String) (key : String) (v : Value)

/-- The line at the start, and what follows it. -/
def readStatement : List Char → Option (Statement × List Char)
  | '[' :: '[' :: cs => do
    let ((path, key), rest) ← readKey cs
    let rest ← Bare.expect? ']' (← Bare.expect? ']' rest)
    return (.element path key, ← endLine? rest)
  | '[' :: cs => do
    let ((path, key), rest) ← readKey cs
    return (.header path key, ← endLine? (← Bare.expect? ']' rest))
  | cs => do
    let ((path, key), rest) ← readKey cs
    let (v, rest) ← readValue (skipBlanks (← Bare.expect? '=' rest))
    return (.entry path key v, ← endLine? rest)

/-- At most `fuel` lines. -/
def readStatementsIn : Nat → List Char → Option (List Statement)
  | 0, _ => none
  | fuel + 1, cs =>
    match skipFiller cs with
    | [] => some []
    | start => do
      let (s, rest) ← readStatement start
      return s :: (← readStatementsIn fuel rest)

/-- All lines of a text. -/
def readStatements (cs : List Char) : Option (List Statement) :=
  readStatementsIn (cs.length + 1) cs

/-- A tree, and the path of the table to which the next line belongs. -/
structure Draft where
  root : Entries
  table : List String

namespace Draft

/-- The empty file. -/
def empty : Draft := ⟨[], []⟩

/-- The tree after one more line. -/
def add (draft : Draft) : Statement → Option Draft
  | .header path key =>
    (Entries.open? path key .header draft.root).map fun root => ⟨root, path ++ [key]⟩
  | .element path key =>
    (Entries.openElement? path key .header draft.root).map fun root => ⟨root, path ++ [key]⟩
  | .entry path key v =>
    (Entries.update? .implied (Entries.insert? path key v) draft.table .header draft.root).map
      fun root => { draft with root := root }

end Draft

/-- The tree of a list of lines. -/
def build (statements : List Statement) : Option Entries :=
  (statements.foldlM Draft.add .empty).map Draft.root

/-- The text without the mark that some editors put in front of it. -/
def skipMark : List Char → List Char
  | '\ufeff' :: cs => cs
  | cs => cs

/-- The tree of a settings file. -/
def parse (text : String) : Option Entries := do
  build (← readStatements (skipMark text.toList))

end Toml

end FireControl
