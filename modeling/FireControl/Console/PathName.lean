import FireControl.IoFailure

/-!
# Path Names

A path is a text: names with slashes between them. Several slashes in a row count as one, a slash at
the start makes the path lead from the root instead of the working directory, and one at the end
says that the path leads to a directory.

Two names mean directories wherever they stand: one dot the directory itself, two dots the one above
it. Since the directory above depends on where a path leads, names are not cancelled against each
other here.

## Main definitions

* `PathName`: A path taken apart.
* `PathName.read`: Takes a path apart, unless no file can have it.
* `PathName.above`: The names on the way to the directory in which the last one stands.
-/

namespace FireControl

/-- A path taken apart. -/
structure PathName where
  /-- Whether the path leads from the root. -/
  isAbsolute : Bool
  names : List String
  /-- Whether a slash at the end says that the path leads to a directory. -/
  isClosed : Bool
deriving DecidableEq, Repr

namespace PathName

/-- The longest path in bytes. -/
def maxSize : Nat := 4095

/-- The longest name in bytes. -/
def maxNameSize : Nat := 255

/-- A path taken apart at its slashes. -/
def ofString (text : String) : PathName :=
  { isAbsolute := text.startsWith "/"
    names := (text.splitOn "/").filter fun name => name ≠ ""
    isClosed := text.endsWith "/" }

/-- A path taken apart, unless no file can have it: a path holds no zero byte, is not too long and
is not empty. -/
def read (text : String) : Except IoFailure PathName :=
  if text.toList.contains '\x00' then .error .nulInPath
  else if maxSize < text.utf8ByteSize then .error .nameTooLong
  else if text.isEmpty then .error .notFound
  else .ok (ofString text)

/-- Whether a name means a directory that is there already. -/
def isDots (name : String) : Bool :=
  name = "." || name = ".."

/-- The last name. A path without names leads to where it starts. -/
def last (path : PathName) : String :=
  path.names.getLastD "."

/-- The names on the way to the directory in which the last one stands. -/
def above (path : PathName) : List String :=
  path.names.dropLast

end PathName

end FireControl
