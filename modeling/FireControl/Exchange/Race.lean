import FireControl.Exchange.Slot

/-!
# Concurrent Publication

How several threads publish to one slot without a lock. A publisher loads the snapshot in the slot,
builds the successor with its own value, and swaps it in. The swap succeeds only if the slot still
holds the very snapshot that was loaded; otherwise the publisher starts again from the snapshot it
finds. Loads and swaps are atomic, and a schedule says whose turn is next.

Whether the slot still holds the loaded snapshot is a question of identity and not of contents. The
number of successful swaps identifies the snapshot in the slot, so that is what a publisher keeps.

## Main definitions

* `Publisher`: The values still to be published, and what has been loaded for the first of them.
* `Race`: A slot and its publishers.
* `Race.turn`: One atomic step of a publisher.
* `Race.run`: The steps of a schedule.
-/

namespace FireControl

/-- A snapshot as a publisher has loaded it. -/
structure LoadedSnapshot (α : Type) where
  /-- How many swaps had succeeded before the load. -/
  identity : Nat
  snapshot : Option (Versioned α)
deriving DecidableEq, Repr

/-- A thread that publishes values one after the other. -/
structure Publisher (α : Type) where
  /-- The values still to be published, the next one first. -/
  todo : List α
  /-- What has been loaded for the next value. -/
  loaded : Option (LoadedSnapshot α)
  /-- The versions of the values published so far, the newest first. -/
  returned : List Nat
deriving DecidableEq, Repr

/-- A publisher that has not begun. -/
def Publisher.new {α : Type} (values : List α) : Publisher α :=
  ⟨values, none, []⟩

/-- A slot and the threads that publish to it. -/
structure Race (α : Type) where
  slot : Slot α
  /-- How many swaps have succeeded. -/
  swaps : Nat
  publishers : List (Publisher α)
deriving DecidableEq, Repr

namespace Race

variable {α : Type}

/-- A race before its first step. -/
def start (values : List (List α)) : Race α :=
  ⟨Slot.empty, 0, values.map Publisher.new⟩

/-- The snapshot in the slot, as a publisher loads it. -/
def load (race : Race α) : LoadedSnapshot α :=
  ⟨race.swaps, race.slot.current⟩

/-- One atomic step of publisher `i`, which is in state `p`: a load, or the attempt of a swap. -/
def turnOf (race : Race α) (i : Nat) (p : Publisher α) : Race α :=
  match p.todo, p.loaded with
  | [], _ => race
  | _ :: _, none =>
    { race with publishers := race.publishers.set i { p with loaded := some race.load } }
  | value :: rest, some seen =>
    if seen.identity = race.swaps then
      let next := Slot.successor seen.snapshot value
      { slot := ⟨some next⟩, swaps := race.swaps + 1,
        publishers :=
          race.publishers.set i
            { todo := rest, loaded := none, returned := next.version :: p.returned } }
    else
      { race with publishers := race.publishers.set i { p with loaded := some race.load } }

/-- One atomic step of publisher `i`; a step of a publisher that does not exist changes nothing. -/
def turn (race : Race α) (i : Nat) : Race α :=
  match race.publishers[i]? with
  | none => race
  | some p => race.turnOf i p

/-- The steps of a schedule. -/
def run (race : Race α) (schedule : List Nat) : Race α :=
  schedule.foldl turn race

/-- A schedule in which all publishers take turns, long enough for all to come to their end. -/
def rotation (race : Race α) : List Nat :=
  let publishers := race.publishers.length
  let values := (race.publishers.flatMap Publisher.todo).length
  (List.range ((publishers + 1) * (values + 1))).flatMap fun _ => List.range publishers

/-- The versions returned to all publishers. -/
def returned (race : Race α) : List Nat :=
  race.publishers.flatMap Publisher.returned

end Race

end FireControl
