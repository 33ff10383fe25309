/-!
# Slots

The stages of the pipeline hand their results on through slots. A slot holds the newest value only,
together with a version that counts the values published so far. A reader keeps a cursor with the
version it took last, so a slow reader skips values and no reader takes a value twice.

A version is a natural number here, and so is the version of a cursor. In a word of 64 bits the
count would overflow with the publication number `2 ^ 64`, which is the only place where the two
part: at a thousand million publications a second it is more than five hundred years away.

## Main definitions

* `Versioned`: A value with its version.
* `Slot`: The newest value, if there is one.
* `Slot.publish`: Replaces the value and counts one version on.
* `Cursor`: The version that a reader took last.
* `Cursor.poll`: Takes the newest value if it is new to the reader.
-/

namespace FireControl

/-- A value with its version. Versions count from one, without the bound of a machine word. -/
structure Versioned (α : Type) where
  version : Nat
  value : α
deriving DecidableEq, Repr

/-- A place for the newest value. -/
structure Slot (α : Type) where
  current : Option (Versioned α)
deriving DecidableEq, Repr

namespace Slot

variable {α : Type}

/-- A slot to which nothing has been published. -/
def empty : Slot α := ⟨none⟩

instance : Inhabited (Slot α) := ⟨empty⟩

/-- The version of a snapshot, zero where there is none. -/
def versionOf (snapshot : Option (Versioned α)) : Nat :=
  (snapshot.map Versioned.version).getD 0

/-- The number of values published so far. -/
def version (slot : Slot α) : Nat :=
  versionOf slot.current

/-- The newest value. -/
def latest (slot : Slot α) : Option α :=
  slot.current.map Versioned.value

/-- The snapshot that puts `value` in the place of another one. -/
def successor (snapshot : Option (Versioned α)) (value : α) : Versioned α :=
  ⟨versionOf snapshot + 1, value⟩

/-- The slot with a new value. -/
def publish (slot : Slot α) (value : α) : Slot α :=
  ⟨some (successor slot.current value)⟩

end Slot

/-- The version that a reader took last. -/
structure Cursor where
  last : Nat
deriving DecidableEq, Repr

namespace Cursor

variable {α : Type}

/-- The cursor of a reader that has taken nothing. -/
def start : Cursor := ⟨0⟩

instance : Inhabited Cursor := ⟨start⟩

/-- The newest value with its version if the reader has not taken it yet, and the cursor
afterwards. -/
def poll (cursor : Cursor) (slot : Slot α) : Option (Versioned α) × Cursor :=
  match slot.current with
  | none => (none, cursor)
  | some snapshot =>
    if snapshot.version = cursor.last then (none, cursor) else (some snapshot, ⟨snapshot.version⟩)

end Cursor

end FireControl
