import FireControl.Toml.Value

/-!
# Building Tables

How the lines of a settings file add up to a tree. Every table has one place where it is defined: a
header, a run of keys with dots, or braces. What is defined in one way cannot be added to in
another, and nothing is defined twice; a table that only exists because a header named a table
inside it may still get a header of its own.

## Main definitions

* `Toml.Entries.update?`: A change of the table at the end of a path.
* `Toml.Entries.insert?`: One more key and value.
* `Toml.Entries.open?`, `Toml.Entries.openElement?`: The headers of a table and of an element of an
  array of tables.
-/

namespace FireControl

namespace Toml

namespace Entries

/-- The table with a key's value replaced, or added at the end. -/
def put (key : String) (v : Value) : Entries → Entries
  | [] => [(key, v)]
  | (k, w) :: rest => if k = key then (k, v) :: rest else (k, w) :: put key v rest

/-- A change of a table, given its origin and its entries. -/
abbrev Change := Origin → Entries → Option Entries

/-- A change of the last element of an array of tables. -/
def updateLast? (change : Entries → Option Entries) : List Entries → Option (List Entries)
  | [] => none
  | [last] => (change last).map fun e => [e]
  | first :: rest => (updateLast? change rest).map (first :: ·)

/-- A change of the table at the end of a path. Tables on the way that do not exist come into
existence with the origin `made`. A key with dots does not lead into a table that has a header. -/
def update? (made : Origin) (change : Change) : List String → Change
  | [], origin, entries => change origin entries
  | key :: path, _, entries =>
    match entries.lookup key with
    | none =>
      (update? made change path made []).map fun inner => entries ++ [(key, .table made inner)]
    | some (.tables elements) =>
      (updateLast? (update? made change path .header) elements).map fun elements =>
        put key (.tables elements) entries
    | some (.table origin inner) =>
      if origin = .closed ∨ (made = .dotted ∧ origin = .header) then none
      else
        (update? made change path origin inner).map fun inner =>
          put key (.table origin inner) entries
    | some _ => none

/-- Adds a key and its value at the end of a table. A table that is reached by a key with dots must
have come about in that way, and a table that is not must not. -/
def append? (throughDots : Bool) (key : String) (v : Value) : Change := fun origin entries =>
  if throughDots ≠ (origin = .dotted) then none
  else
    match entries.lookup key with
    | some _ => none
    | none => some (entries ++ [(key, v)])

/-- The table with one more value, under a key that may have dots. -/
def insert? (path : List String) (key : String) (v : Value) : Change :=
  update? .dotted (append? (!path.isEmpty) key v) path

/-- Gives the table of a key its header. -/
def define? (key : String) : Change := fun _ entries =>
  match entries.lookup key with
  | none => some (entries ++ [(key, .table .header [])])
  | some (.table .implied inner) => some (put key (.table .header inner) entries)
  | some _ => none

/-- Adds an element to the array of tables of a key. -/
def extend? (key : String) : Change := fun _ entries =>
  match entries.lookup key with
  | none => some (entries ++ [(key, .tables [[]])])
  | some (.tables elements) => some (put key (.tables (elements ++ [[]])) entries)
  | some _ => none

/-- The tree after the header of a table. -/
def open? (path : List String) (key : String) : Change :=
  update? .implied (define? key) path

/-- The tree after the header of an element of an array of tables. -/
def openElement? (path : List String) (key : String) : Change :=
  update? .implied (extend? key) path

end Entries

end Toml

end FireControl
