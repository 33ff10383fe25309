import FireControl.Exchange.Race
import Mathlib.Data.List.Forall2

/-!
# Concurrent Publication Is Sequential

Publishers race for a slot, and every one of them may build any number of snapshots that are never
seen. What is seen is as if the completed calls had been made one after the other: the swaps that
succeed give them an order, and in that order each call finds the snapshot of the one before it.

A `Trial` is a race with a record of it. The record is kept for the proof and decides nothing: it
says which snapshots were swapped in and what everyone has loaded, publishers and readers alike. Its
moves are the steps of the race, the loads of readers, and swaps that fail for no reason or leave
the publisher to load again on its own. All that is known of a swap that succeeds is that the slot
still holds the snapshot that was loaded.

The invariant ties every load to a place in the record. What has been loaded is the snapshot after
some number of swaps, and a snapshot carries the number of swaps as its version; so a version stands
for one snapshot, and a publisher whose swap succeeds has counted on from the newest one.

## Main definitions

* `Publisher.calls`, `Race.calls`: The completed calls, with what was published and returned.
* `Trial`: A race with a record of what was installed and loaded.
* `Trial.move`, `Trial.run`: What can happen in it.
* `snapshotAfter`: The snapshot in the slot after a number of swaps.
* `Trial.Sound`: What every move keeps.

## Theorems

* `turn_outcome`: What a step of a publisher can do.
* `Sound.observe`, `Sound.reload`, `Sound.swap`: The three ways in which a trial goes on.
* `linearizable`: What holds after every run.
-/

namespace FireControl

variable {α : Type}

/-- The calls that a publisher of these values has completed, in order: the version that was
returned, and the value. -/
def Publisher.calls (p : Publisher α) (values : List α) : List (Versioned α) :=
  (p.returned.reverse.zip values).map fun call => ⟨call.1, call.2⟩

namespace Race

/-- The completed calls of all publishers. -/
def calls (race : Race α) (values : List (List α)) : List (Versioned α) :=
  (List.zipWith Publisher.calls race.publishers values).flatten

/-- Publisher `i` goes back to where it has loaded nothing. -/
def restart (race : Race α) (i : Nat) : Race α :=
  match race.publishers[i]? with
  | none => race
  | some p => { race with publishers := race.publishers.set i { p with loaded := none } }

/-- The snapshot that publisher `i` has loaded, if it has loaded one. -/
def held (race : Race α) (i : Nat) : Option (Option (Versioned α)) :=
  (race.publishers[i]?.bind Publisher.loaded).map LoadedSnapshot.snapshot

/-- What a step of publisher `i` can do. -/
inductive Outcome (race : Race α) (i : Nat) : Race α → Prop
  /-- There is no such publisher, or it has come to its end. -/
  | rested (ended : ∀ p, race.publishers[i]? = some p → p.todo = []) : Outcome race i race
  /-- It loads, at first or because its swap has failed. -/
  | loaded (p : Publisher α) (found : race.publishers[i]? = some p) (busy : p.todo ≠ []) :
      Outcome race i
        { race with publishers := race.publishers.set i { p with loaded := some race.load } }
  /-- It swaps a snapshot in. -/
  | swapped (p : Publisher α) (found : race.publishers[i]? = some p) (value : α) (rest : List α)
      (todo : p.todo = value :: rest) (seen : LoadedSnapshot α) (held : p.loaded = some seen)
      (still : seen.identity = race.swaps) :
      Outcome race i
        { slot := ⟨some (Slot.successor seen.snapshot value)⟩
          swaps := race.swaps + 1
          publishers :=
            race.publishers.set i
              { todo := rest, loaded := none,
                returned := (Slot.successor seen.snapshot value).version :: p.returned } }

theorem turn_outcome (race : Race α) (i : Nat) : race.Outcome i (race.turn i) := by
  unfold turn
  cases found : race.publishers[i]? with
  | none => exact .rested (fun p hp => by simp [found] at hp)
  | some p =>
      -- What is still to be published and what is held decide between the branches of a turn.
      rcases p with ⟨_ | ⟨value, rest⟩, _ | seen, returned⟩
      · exact .rested (fun p hp => by simp [found] at hp; simp [← hp])
      · exact .rested (fun p hp => by simp [found] at hp; simp [← hp])
      · exact .loaded _ found (List.cons_ne_nil value rest)
      · change race.Outcome i (if seen.identity = race.swaps then _ else _)
        by_cases still : seen.identity = race.swaps
        · rw [if_pos still]
          exact .swapped _ found value rest rfl seen rfl still
        · rw [if_neg still]
          exact .loaded _ found (List.cons_ne_nil value rest)

/-- A publisher that takes the place of another holds what it has loaded itself. -/
theorem held_of_set {race after : Race α} {i : Nat} {p : Publisher α}
    (found : race.publishers[i]? = some p) (q : Publisher α)
    (h : after.publishers = race.publishers.set i q) :
    after.held i = q.loaded.map LoadedSnapshot.snapshot := by
  have hlt : i < race.publishers.length := (List.getElem?_eq_some_iff.mp found).1
  rw [held, h, List.getElem?_set_self hlt, Option.bind_some]

end Race

/-- A race with a record of it. -/
structure Trial (α : Type) where
  race : Race α
  /-- The snapshots that were swapped in, in order. -/
  installed : List (Versioned α)
  /-- What publishers and readers have loaded, in order. -/
  loads : List (Option (Versioned α))

namespace Trial

/-- What can happen next. -/
inductive Move where
  /-- Publisher `i` takes a step. -/
  | turn (i : Nat)
  /-- The swap of publisher `i` fails, whatever is in the slot, and it will load again. -/
  | restart (i : Nat)
  /-- A reader loads. -/
  | read

/-- A trial before its first move. -/
def start (values : List (List α)) : Trial α :=
  ⟨Race.start values, [], []⟩

/-- The record of a step of publisher `i` to another state of the race: what the slot holds after a
swap, and what the publisher holds after a load. -/
def record (t : Trial α) (i : Nat) (after : Race α) : Trial α :=
  { race := after
    installed :=
      if after.swaps = t.race.swaps then t.installed
      else t.installed ++ after.slot.current.toList
    loads := t.loads ++ (after.held i).toList }

/-- One move. -/
def move (t : Trial α) : Move → Trial α
  | .turn i => t.record i (t.race.turn i)
  | .restart i => { t with race := t.race.restart i }
  | .read => { t with loads := t.loads ++ [t.race.slot.current] }

/-- A sequence of moves. -/
def run (t : Trial α) (moves : List Move) : Trial α :=
  moves.foldl move t

end Trial

section Record

/-- The snapshot in the slot after `k` swaps. -/
def snapshotAfter (installed : List (Versioned α)) : Nat → Option (Versioned α)
  | 0 => none
  | k + 1 => installed[k]?

variable {installed : List (Versioned α)} {k : Nat}

theorem snapshotAfter_append (next : Versioned α) (h : k ≤ installed.length) :
    snapshotAfter (installed ++ [next]) k = snapshotAfter installed k := by
  cases k with
  | zero => rfl
  | succ k => exact List.getElem?_append_left h

theorem snapshotAfter_newest (next : Versioned α) :
    snapshotAfter (installed ++ [next]) (installed.length + 1) = some next :=
  List.getElem?_concat_length

/-- A snapshot carries the number of swaps as its version. -/
theorem versionOf_snapshotAfter
    (versions : installed.map Versioned.version = List.range' 1 installed.length)
    (h : k ≤ installed.length) : Slot.versionOf (snapshotAfter installed k) = k := by
  cases k with
  | zero => rfl
  | succ k =>
      -- The snapshot of swap `k + 1` stands at place `k` of the record.
      have hversion := congrArg (fun l => l[k]?) versions
      simp only [List.getElem?_map, List.getElem?_range' h, Nat.one_mul] at hversion
      rw [Slot.versionOf, snapshotAfter, hversion, Option.getD_some, Nat.add_comm]

end Record

/-- What is known of a publisher of these values. It has published those that are no longer to be
published, and what it has loaded is the snapshot after some number of swaps. -/
structure Publisher.Sound (p : Publisher α) (values : List α) (installed : List (Versioned α)) :
    Prop where
  progress : ∃ published, published ++ p.todo = values ∧ published.length = p.returned.length
  loaded : ∀ seen, p.loaded = some seen → p.todo ≠ [] ∧ seen.identity ≤ installed.length ∧
    seen.snapshot = snapshotAfter installed seen.identity

namespace Publisher

variable {p : Publisher α} {values : List α} {installed : List (Versioned α)}

theorem new_sound (values : List α) : (new values).Sound values [] :=
  ⟨⟨[], rfl, rfl⟩, fun seen h => by simp [new] at h⟩

/-- A swap does not touch what others have loaded. -/
theorem Sound.grow (h : p.Sound values installed) (next : Versioned α) :
    p.Sound values (installed ++ [next]) := by
  refine ⟨h.progress, fun seen hseen => ?_⟩
  rcases h.loaded seen hseen with ⟨hbusy, hle, hsnapshot⟩
  refine ⟨hbusy, ?_, ?_⟩
  · simp; omega
  · rw [snapshotAfter_append next hle, hsnapshot]

/-- Versions are returned for what has been published and for nothing else. -/
theorem zip_published {returned : List Nat} {published : List α} (rest : List α)
    (h : published.length = returned.length) :
    returned.reverse.zip (published ++ rest) = returned.reverse.zip published := by
  have happend : (returned.reverse ++ []).zip (published ++ rest) =
      returned.reverse.zip published ++ [].zip rest :=
    List.zip_append (by simp [h])
  simpa using happend

/-- The completed calls have the versions that were returned and the values up to those that are
still to be published. -/
theorem Sound.calls_eq (h : p.Sound values installed) :
    (p.calls values).map Versioned.value ++ p.todo = values ∧
      (p.calls values).map Versioned.version = p.returned.reverse := by
  rcases h.progress with ⟨published, rfl, hlength⟩
  simp only [calls, zip_published _ hlength, List.map_map]
  refine ⟨congrArg (· ++ p.todo) ?_, ?_⟩
  · exact List.map_snd_zip (by simp [hlength])
  · exact List.map_fst_zip (by simp [hlength])

/-- A call is completed with the first of the values that are still to be published. -/
theorem Sound.calls_next (h : p.Sound values installed) {value : α} {rest : List α}
    (todo : p.todo = value :: rest) (version : Nat) :
    calls ⟨rest, none, version :: p.returned⟩ values = p.calls values ++ [⟨version, value⟩] := by
  rcases h.progress with ⟨published, rfl, hlength⟩
  have hzip : (version :: p.returned).reverse.zip (published ++ value :: rest) =
      p.returned.reverse.zip published ++ [(version, value)] := by
    rw [List.reverse_cons, List.zip_append (by simp [hlength])]
    rfl
  simp only [calls, todo, hzip, zip_published _ hlength, List.map_append, List.map_cons,
    List.map_nil]

end Publisher

section Publishers

variable {publishers : List (Publisher α)} {values : List (List α)} {i : Nat} {p q : Publisher α}
  {Holds : Publisher α → List α → Prop}

/-- What holds of all publishers still holds of all when one is replaced by another of which it
holds. -/
theorem forall₂_set (h : List.Forall₂ Holds publishers values) (found : publishers[i]? = some p)
    (hq : ∀ vs, Holds p vs → Holds q vs) : List.Forall₂ Holds (publishers.set i q) values := by
  induction h generalizing i with
  | nil => exact .nil
  | cons hfirst hothers ih =>
      cases i with
      | zero =>
          rw [List.getElem?_cons_zero, Option.some.injEq] at found
          subst found
          exact .cons (hq _ hfirst) hothers
      | succ i => exact .cons hfirst (ih (by simpa using found))

theorem exists_of_forall₂ (h : List.Forall₂ Holds publishers values)
    (found : publishers[i]? = some p) : ∃ vs, Holds p vs := by
  rcases List.mem_iff_getElem.mp (List.mem_of_getElem? found) with ⟨k, hk, rfl⟩
  exact ⟨_, h.get hk (h.length_eq ▸ hk)⟩

/-- What one publisher adds to its calls is added to the calls of all. -/
theorem calls_set (q : Publisher α) (more : List (Versioned α))
    (h : List.Forall₂ Holds publishers values) (found : publishers[i]? = some p)
    (hq : ∀ vs, Holds p vs → q.calls vs = p.calls vs ++ more) :
    (List.zipWith Publisher.calls (publishers.set i q) values).flatten.Perm
      ((List.zipWith Publisher.calls publishers values).flatten ++ more) := by
  induction h generalizing i with
  | nil => simp at found
  | cons hfirst hothers ih =>
      cases i with
      | zero =>
          rw [List.getElem?_cons_zero, Option.some.injEq] at found
          subst found
          -- What is added to the calls of the first publisher passes those of all others.
          simp only [List.set_cons_zero, List.zipWith_cons_cons, List.flatten_cons, hq _ hfirst,
            List.append_assoc]
          exact List.perm_append_comm.append_left _
      | succ i =>
          simp only [List.set_cons_succ, List.zipWith_cons_cons, List.flatten_cons,
            List.append_assoc]
          exact (ih (by simpa using found)).append_left _

/-- The versions returned to all publishers are the versions of their calls. -/
theorem returned_perm
    (h : List.Forall₂ (fun p vs => (p.calls vs).map Versioned.version = p.returned.reverse)
      publishers values) :
    (publishers.flatMap Publisher.returned).Perm
      ((List.zipWith Publisher.calls publishers values).flatten.map Versioned.version) := by
  induction h with
  | nil => exact .nil
  | cons hfirst hothers ih =>
      simp only [List.flatMap_cons, List.zipWith_cons_cons, List.flatten_cons, List.map_append,
        hfirst]
      exact (List.reverse_perm _).symm.append ih

end Publishers

namespace Trial

/-- What every move keeps. -/
structure Sound (values : List (List α)) (t : Trial α) : Prop where
  versions : t.installed.map Versioned.version = List.range' 1 t.installed.length
  swaps : t.race.swaps = t.installed.length
  newest : t.race.slot.current = snapshotAfter t.installed t.installed.length
  slot : t.race.slot = (t.installed.map Versioned.value).foldl Slot.publish Slot.empty
  publishers : List.Forall₂ (fun p vs => p.Sound vs t.installed) t.race.publishers values
  calls : (t.race.calls values).Perm t.installed
  loads : ∀ snapshot ∈ t.loads, ∃ k ≤ t.installed.length, snapshot = snapshotAfter t.installed k
  ordered : t.loads.Pairwise fun earlier later => Slot.versionOf earlier ≤ Slot.versionOf later

theorem start_sound (values : List (List α)) : (start values).Sound values where
  versions := rfl
  swaps := rfl
  newest := rfl
  slot := rfl
  publishers := by
    change List.Forall₂ _ (values.map Publisher.new) values
    rw [List.forall₂_map_left_iff]
    exact List.forall₂_same.mpr fun vs _ => Publisher.new_sound vs
  calls := by
    -- Nobody has published, so there is no call to order.
    have hempty : ((Race.start values).calls values) = [] := by
      change (List.zipWith Publisher.calls (values.map Publisher.new) values).flatten = []
      rw [List.zipWith_map_left, List.zipWith_self]
      simp [Publisher.calls, Publisher.new]
    exact hempty ▸ .nil
  loads := fun snapshot h => absurd h List.not_mem_nil
  ordered := .nil

variable {values : List (List α)} {t : Trial α}

/-- Someone loads. What is in the slot is as new as anything loaded before. -/
theorem Sound.observe (h : t.Sound values) :
    Sound values { t with loads := t.loads ++ [t.race.slot.current] } := by
  refine { h with loads := ?_, ordered := ?_ }
  · intro snapshot hmem
    rcases List.mem_append.mp hmem with hmem | hmem
    · exact h.loads snapshot hmem
    · exact ⟨t.installed.length, Nat.le_refl _, List.mem_singleton.mp hmem ▸ h.newest⟩
  · rw [List.pairwise_append]
    refine ⟨h.ordered, List.pairwise_singleton _ _, fun earlier hearlier later hlater => ?_⟩
    -- The version of a load is the number of swaps before it, and that does not go down.
    rcases h.loads earlier hearlier with ⟨k, hle, rfl⟩
    rw [List.mem_singleton.mp hlater, h.newest, versionOf_snapshotAfter h.versions hle,
      versionOf_snapshotAfter h.versions (Nat.le_refl _)]
    exact hle

/-- A publisher gives up what it has loaded, for nothing or for what is in the slot now. -/
theorem Sound.reload (h : t.Sound values) {i : Nat} {p : Publisher α}
    (found : t.race.publishers[i]? = some p) (loaded : Option (LoadedSnapshot α))
    (current : ∀ seen, loaded = some seen → p.todo ≠ [] ∧ seen = t.race.load) :
    Sound values
      { t with race := { t.race with
          publishers := t.race.publishers.set i { p with loaded := loaded } } } := by
  -- Only what the publisher has loaded is new, and that is what the slot holds now.
  refine { h with publishers := ?_, calls := ?_ }
  · refine forall₂_set h.publishers found fun vs hp => ⟨hp.progress, fun seen hseen => ?_⟩
    rcases current seen hseen with ⟨hbusy, rfl⟩
    refine ⟨hbusy, Nat.le_of_eq h.swaps, ?_⟩
    change t.race.slot.current = snapshotAfter t.installed t.race.swaps
    rw [h.newest, h.swaps]
  · have hcalls := calls_set { p with loaded := loaded } [] h.publishers found
      fun vs _ => (List.append_nil _).symm
    rw [List.append_nil] at hcalls
    exact hcalls.trans h.calls

/-- The number of swaps identifies a snapshot: the slot still holds what a publisher has loaded
exactly when no swap has succeeded since. -/
theorem Sound.still_iff (h : t.Sound values) {i : Nat} {p : Publisher α}
    (found : t.race.publishers[i]? = some p) {seen : LoadedSnapshot α}
    (held : p.loaded = some seen) :
    seen.identity = t.race.swaps ↔ seen.snapshot = t.race.slot.current := by
  rcases exists_of_forall₂ h.publishers found with ⟨vs, hp⟩
  rcases hp.loaded seen held with ⟨_, hle, hseen⟩
  rw [hseen, h.newest, h.swaps]
  constructor
  · intro hidentity
    rw [hidentity]
  · intro hsnapshot
    have hversion := congrArg Slot.versionOf hsnapshot
    rwa [versionOf_snapshotAfter h.versions hle,
      versionOf_snapshotAfter h.versions (Nat.le_refl _)] at hversion

/-- A publisher swaps in the successor of what it has loaded, which is still in the slot. -/
theorem Sound.swap (h : t.Sound values) {i : Nat} {p : Publisher α}
    (found : t.race.publishers[i]? = some p) {value : α} {rest : List α}
    (todo : p.todo = value :: rest) {seen : LoadedSnapshot α} (held : p.loaded = some seen)
    (still : seen.identity = t.race.swaps) :
    let next := Slot.successor seen.snapshot value
    Sound values
      { t with
        race :=
          { slot := ⟨some next⟩, swaps := t.race.swaps + 1,
            publishers := t.race.publishers.set i ⟨rest, none, next.version :: p.returned⟩ }
        installed := t.installed ++ [next] } := by
  intro next
  -- The successor is built on the newest snapshot, so it counts on from the last swap.
  have hcurrent := (h.still_iff found held).mp still
  have hversion : next.version = t.installed.length + 1 := by
    change Slot.versionOf seen.snapshot + 1 = _
    rw [hcurrent, h.newest, versionOf_snapshotAfter h.versions (Nat.le_refl _)]
  have hgrown := h.publishers.imp fun p vs hp => hp.grow next
  constructor
  case versions =>
    simp only [List.map_append, List.map_cons, List.map_nil, List.length_append, List.length_cons,
      List.length_nil, h.versions, hversion, List.range'_1_concat, Nat.add_comm]
  case swaps => simp [h.swaps]
  case newest => simp [snapshotAfter_newest]
  case slot =>
    -- Publishing the value by itself would have put the same snapshot in the slot.
    rw [List.map_append, List.foldl_append, ← h.slot]
    simp only [List.map_cons, List.map_nil, List.foldl_cons, List.foldl_nil, Slot.publish]
    rw [← hcurrent]
    rfl
  case publishers =>
    refine forall₂_set hgrown found fun vs hp => ⟨?_, fun seen hseen => by simp at hseen⟩
    rcases hp.progress with ⟨published, hvalues, hlength⟩
    refine ⟨published ++ [value], ?_, by simp [hlength]⟩
    rw [← hvalues, todo, List.append_assoc]
    rfl
  case calls =>
    have hcalls := calls_set ⟨rest, none, next.version :: p.returned⟩ [next] hgrown found
      fun vs hp => hp.calls_next todo next.version
    exact hcalls.trans (h.calls.append_right _)
  case loads =>
    intro snapshot hmem
    rcases h.loads snapshot hmem with ⟨k, hle, hsnapshot⟩
    refine ⟨k, ?_, ?_⟩
    · simp; omega
    · rw [snapshotAfter_append next hle, hsnapshot]
  case ordered => exact h.ordered

/-- A publisher that has come to its end holds nothing. -/
theorem Sound.held_eq_none (h : t.Sound values) {i : Nat}
    (ended : ∀ p, t.race.publishers[i]? = some p → p.todo = []) : t.race.held i = none := by
  unfold Race.held
  cases found : t.race.publishers[i]? with
  | none => rfl
  | some p =>
      rcases exists_of_forall₂ h.publishers found with ⟨vs, hp⟩
      cases hloaded : p.loaded with
      | none => simp [hloaded]
      | some seen => exact absurd (ended p found) (hp.loaded seen hloaded).1

/-- A step of a publisher keeps what is sound. -/
theorem Sound.record (h : t.Sound values) {i : Nat} {after : Race α}
    (outcome : t.race.Outcome i after) : (t.record i after).Sound values := by
  unfold Trial.record
  -- Only an exchange that succeeds installs a value; a load is observed, and the rest is nothing.
  cases outcome with
  | rested ended =>
      simp only [if_pos, h.held_eq_none ended, Option.toList_none, List.append_nil]
      exact h
  | loaded p found busy =>
      rw [Race.held_of_set found { p with loaded := some t.race.load } rfl]
      simp only [if_pos, Option.map_some, Option.toList_some]
      exact h.observe.reload found (some t.race.load) fun seen hseen =>
        ⟨busy, (Option.some.inj hseen).symm⟩
  | swapped p found value rest todo seen held still =>
      rw [Race.held_of_set found
        ⟨rest, none, (Slot.successor seen.snapshot value).version :: p.returned⟩ rfl]
      simp only [if_neg (Nat.succ_ne_self t.race.swaps), Option.map_none, Option.toList_none,
        Option.toList_some, List.append_nil]
      exact h.swap found todo held still

/-- A move keeps what is sound. -/
theorem Sound.move (h : t.Sound values) (m : Move) : (t.move m).Sound values := by
  cases m with
  | read => exact h.observe
  | restart i =>
      change Sound values { t with race := t.race.restart i }
      unfold Race.restart
      cases found : t.race.publishers[i]? with
      | none => exact h
      | some p => exact h.reload found none (fun seen hseen => by simp at hseen)
  | turn i => exact h.record (t.race.turn_outcome i)

/-- What holds after every run. -/
theorem Sound.run (h : t.Sound values) (moves : List Move) : (t.run moves).Sound values := by
  induction moves generalizing t with
  | nil => exact h
  | cons m rest ih => exact ih (h.move m)

/-- A version stands for one snapshot among those that were installed. -/
theorem Sound.eq_of_version_eq (h : t.Sound values) {first second : Versioned α}
    (hfirst : first ∈ t.installed) (hsecond : second ∈ t.installed)
    (hversion : first.version = second.version) : first = second := by
  rcases List.mem_iff_getElem?.mp hfirst with ⟨j, hj⟩
  rcases List.mem_iff_getElem?.mp hsecond with ⟨k, hk⟩
  have hindex : ∀ {k snapshot}, t.installed[k]? = some snapshot → k + 1 = snapshot.version := by
    intro k snapshot hk
    have hle := versionOf_snapshotAfter h.versions (List.getElem?_eq_some_iff.mp hk).1
    rw [snapshotAfter, hk] at hle
    exact hle.symm
  -- Both stand at the place in the record that their version names.
  have hjk : j = k := by
    have hj' := hindex hj
    have hk' := hindex hk
    omega
  rw [hjk, hk] at hj
  exact (Option.some.inj hj).symm

/-- Of what is loaded, every snapshot was installed. -/
theorem Sound.mem_installed (h : t.Sound values) {snapshot : Versioned α}
    (hload : some snapshot ∈ t.loads) : snapshot ∈ t.installed := by
  rcases h.loads _ hload with ⟨k, _, hk⟩
  cases k with
  | zero => simp [snapshotAfter] at hk
  | succ k => exact List.mem_of_getElem? hk.symm

/-- The record only grows. -/
theorem installed_prefix (t : Trial α) (moves : List Move) :
    t.installed <+: (t.run moves).installed := by
  induction moves generalizing t with
  | nil => exact List.prefix_rfl
  | cons m rest ih =>
      refine List.IsPrefix.trans ?_ (ih (t.move m))
      cases m with
      | read => exact List.prefix_rfl
      | restart i => exact List.prefix_rfl
      | turn i =>
          change t.installed <+: (if _ then t.installed else t.installed ++ _)
          split
          · exact List.prefix_rfl
          · exact List.prefix_append _ _

/-- Publication is linearizable. Whatever the publishers and readers of a slot do, and in whatever
order their loads, swaps and failures come: every publisher has completed calls for the first of its
values, in order, and got one version back for each; the versions that were returned to all of them
are those from one to the number of calls, each exactly once; the snapshots that were swapped in are
the completed calls, each swap counts one version on, and the slot is as if the calls had been made
in this order one after the other; the order is never revised. A swap succeeds only while the slot
holds what the publisher has loaded. Whoever loads a snapshot finds the value of the one call that
returned its version, and nobody finds a smaller version than someone has found before. -/
theorem linearizable (values : List (List α)) (moves : List Move) :
    let t := (start values).run moves
    List.Forall₂
      (fun p vs => (p.calls vs).map Versioned.value ++ p.todo = vs ∧
        (p.calls vs).map Versioned.version = p.returned.reverse)
      t.race.publishers values ∧
    t.race.returned.Perm (List.range' 1 t.race.returned.length) ∧
    t.installed.Perm (t.race.calls values) ∧
    t.installed.map Versioned.version = List.range' 1 t.installed.length ∧
    t.race.slot = (t.installed.map Versioned.value).foldl Slot.publish Slot.empty ∧
    (∀ more, t.installed <+: (t.run more).installed) ∧
    (∀ (i : Nat) (p : Publisher α) (seen : LoadedSnapshot α), t.race.publishers[i]? = some p →
      p.loaded = some seen →
      (seen.identity = t.race.swaps ↔ seen.snapshot = t.race.slot.current)) ∧
    (∀ snapshot, some snapshot ∈ t.loads → snapshot ∈ t.race.calls values ∧
      ∀ call ∈ t.race.calls values, call.version = snapshot.version → call = snapshot) ∧
    t.loads.Pairwise fun earlier later => Slot.versionOf earlier ≤ Slot.versionOf later := by
  intro t
  have h := (start_sound values).run moves
  have hcalls := h.publishers.imp fun p vs hp => hp.calls_eq
  -- Versions are handed out in order, so what is returned are the numbers from one on.
  have hreturned : t.race.returned.Perm (List.range' 1 t.installed.length) := by
    rw [← h.versions]
    exact (returned_perm (hcalls.imp fun p vs hp => hp.2)).trans (h.calls.map _)
  refine ⟨hcalls, ?_, h.calls.symm, h.versions, h.slot, installed_prefix t,
    fun i p seen found held => h.still_iff found held, fun snapshot hload => ?_, h.ordered⟩
  · rw [hreturned.length_eq, List.length_range']
    exact hreturned
  -- A loaded snapshot was installed, and no two installed ones have the same version.
  · have hinstalled := h.mem_installed hload
    refine ⟨h.calls.mem_iff.mpr hinstalled, fun call hcall hversion => ?_⟩
    exact h.eq_of_version_eq (h.calls.mem_iff.mp hcall) hinstalled hversion

/-- Two publishers load the empty slot. The swap of the second one fails, since the first one was
faster, and succeeds after another load; a reader finds its value under version two. -/
theorem linearizable_contended :
    let t := (start [[7], [8]]).run [.turn 0, .turn 1, .turn 0, .turn 1, .read, .turn 1, .read]
    some ⟨2, 8⟩ ∈ t.loads ∧ ⟨2, 8⟩ ∈ t.race.calls [[7], [8]] ∧
      ∀ call ∈ t.race.calls [[7], [8]], call.version = 2 → call = ⟨2, 8⟩ := by
  intro t
  have hload : some ⟨2, 8⟩ ∈ t.loads := by decide
  rcases linearizable [[7], [8]]
    [.turn 0, .turn 1, .turn 0, .turn 1, .read, .turn 1, .read] with
    ⟨_, _, _, _, _, _, _, hloads, _⟩
  exact ⟨hload, hloads ⟨2, 8⟩ hload⟩

end Trial

end FireControl
