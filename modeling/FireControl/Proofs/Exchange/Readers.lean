import FireControl.Proofs.Exchange.Consumption
import Mathlib.Data.List.Induction
import Mathlib.Logic.Function.Basic

/-!
# Many Readers of One Slot

A slot does not know its readers. Each of them keeps a cursor of its own and polls when it likes, in
between the publications and the polls of the others, so any order of these events can occur. What a
reader is given is then settled by two lists: the values published so far, of which the slot shows
the last and the number, and the snapshots given to this reader so far, of which the cursor
remembers the version of the last.

The cursor compares versions for equality only. That this never gives a value twice, and never
withholds one, is because a reader's last version is at most the number of values published; the two
are equal exactly when nothing has been published since the reader was last given something.
`Audience.Serves` is that invariant, and every event keeps it.

## Main definitions

* `SlotEvent`: A publication, or a poll by a reader.
* `Audience`: A slot with the cursors of its readers.
* `Audience.run`: What a sequence of events makes of it.
* `Audience.finds`, `Audience.answers`, `Audience.given`: What a reader's polls give it.
* `Audience.Unseen`: Something has been published since a reader was last given something.
* `Audience.Serves`: What every event keeps.

## Theorems

* `Serves.finds_eq`: What a poll gives, in terms of the two lists.
* `serves_step`, `run_serves`: What one event keeps, and a run.
* `unseen_iff`: When a poll gives something.
* `answers_filter`: The polls of the other readers make no difference.
* `given_after_last`: After the last publication every reader that polls is given that value once.
* `readers_take_newest_once`: What holds of every reader after every run.
-/

namespace FireControl

/-- What can happen at a slot with readers of type `ι`. -/
inductive SlotEvent (ι α : Type) where
  /-- A value is published. -/
  | publish (value : α)
  /-- A reader polls. -/
  | poll (reader : ι)

namespace SlotEvent

variable {ι α : Type}

/-- The value that is published, if it is a publication. -/
def value? : SlotEvent ι α → Option α
  | .publish value => some value
  | .poll _ => none

/-- Whether an event is a publication or a poll by reader `i`. -/
def concerns [DecidableEq ι] (i : ι) : SlotEvent ι α → Bool
  | .publish _ => true
  | .poll j => j = i

/-- The values published in a sequence of events. -/
def published (events : List (SlotEvent ι α)) : List α :=
  events.filterMap value?

/-- A publication is not the poll that comes last, so it is one of the events before it. -/
theorem publication_before_poll {events early late : List (SlotEvent ι α)} {j : ι} {value : α}
    (h : events ++ [.poll j] = early ++ .publish value :: late) :
    ∃ late', events = early ++ .publish value :: late' := by
  rcases late.eq_nil_or_concat with rfl | ⟨late', last, rfl⟩
  · have hlast := congrArg List.getLast? h
    simp at hlast
  · rw [List.concat_eq_append, ← List.cons_append, ← List.append_assoc] at h
    exact ⟨late', (List.append_inj' h rfl).1⟩

end SlotEvent

/-- A slot with the cursors of its readers. -/
structure Audience (ι α : Type) where
  slot : Slot α
  cursors : ι → Cursor

namespace Audience

open SlotEvent

variable {ι α : Type}

/-- A slot to which nothing has been published, and readers that have been given nothing. -/
def start : Audience ι α :=
  ⟨.empty, fun _ => .start⟩

/-- What reader `i` is given if it polls next. -/
def finds (a : Audience ι α) (i : ι) : Option (Versioned α) :=
  ((a.cursors i).poll a.slot).1

/-- The version that a reader has been given last, or zero. -/
def newest (taken : List (Versioned α)) : Nat :=
  (taken.getLast?.map Versioned.version).getD 0

/-- What every event keeps, after these values have been published and these snapshots have been
given to reader `i`. -/
structure Serves (a : Audience ι α) (i : ι) (values : List α) (taken : List (Versioned α)) :
    Prop where
  slot : a.slot = Slot.ofList values
  last : (a.cursors i).last = newest taken
  published_le : newest taken ≤ values.length
  ordered : (taken.map Versioned.version).Pairwise (· < ·)
  taken_le : ∀ s ∈ taken, s.version ≤ newest taken

@[simp]
theorem newest_concat (taken : List (Versioned α)) (s : Versioned α) :
    newest (taken ++ [s]) = s.version := by
  rw [newest, List.getLast?_concat]
  rfl

section Poll

variable {a : Audience ι α} {i : ι} {values : List α} {taken : List (Versioned α)}

theorem start_serves (i : ι) : (start : Audience ι α).Serves i [] [] :=
  ⟨rfl, rfl, Nat.le_refl 0, List.Pairwise.nil, fun _ hs => absurd hs List.not_mem_nil⟩

/-- Where the last version given is not the number of values, some value has been published. -/
theorem Serves.exists_newest (h : a.Serves i values taken) (hseen : newest taken ≠ values.length) :
    ∃ value, values.getLast? = some value := by
  cases hlast : values.getLast? with
  | none =>
      have hle := h.published_le
      rw [List.getLast?_eq_none_iff.mp hlast] at hle hseen
      exact absurd (Nat.le_zero.mp hle) hseen
  | some value => exact ⟨value, rfl⟩

/-- A poll gives the newest value under the number of values, unless that version has been given
before. -/
theorem Serves.poll_eq (h : a.Serves i values taken) :
    (a.cursors i).poll a.slot =
      if newest taken = values.length then (none, a.cursors i)
      else (values.getLast?.map fun value => ⟨values.length, value⟩, ⟨values.length⟩) := by
  have hpoll := Cursor.poll_ofList (a.cursors i) values (h.last ▸ h.published_le)
  rwa [← h.slot, h.last] at hpoll

theorem Serves.finds_eq (h : a.Serves i values taken) :
    a.finds i =
      if newest taken = values.length then none
      else values.getLast?.map fun value => ⟨values.length, value⟩ := by
  rw [finds, h.poll_eq]
  split <;> rfl

end Poll

/-! ### Runs -/

variable [DecidableEq ι]

/-- What an event does. -/
def step (a : Audience ι α) : SlotEvent ι α → Audience ι α
  | .publish value => { a with slot := a.slot.publish value }
  | .poll i => { a with cursors := Function.update a.cursors i ((a.cursors i).poll a.slot).2 }

/-- What a sequence of events does. -/
def runFrom (a : Audience ι α) (events : List (SlotEvent ι α)) : Audience ι α :=
  events.foldl step a

/-- What a sequence of events makes of a slot and readers that begin. -/
def run (events : List (SlotEvent ι α)) : Audience ι α :=
  start.runFrom events

/-- What the polls of reader `i` in a sequence of events give it, in order. -/
def answersFrom (i : ι) (a : Audience ι α) : List (SlotEvent ι α) → List (Option (Versioned α))
  | [] => []
  | .publish value :: rest => answersFrom i (a.step (.publish value)) rest
  | .poll j :: rest =>
    if j = i then a.finds i :: answersFrom i (a.step (.poll j)) rest
    else answersFrom i (a.step (.poll j)) rest

/-- What the polls of reader `i` give it from the beginning. -/
def answers (i : ι) (events : List (SlotEvent ι α)) : List (Option (Versioned α)) :=
  answersFrom i start events

/-- The snapshots that reader `i` has been given. -/
def given (i : ι) (events : List (SlotEvent ι α)) : List (Versioned α) :=
  (answers i events).filterMap id

/-- A value has been published after which reader `i` has been given nothing. -/
def Unseen (i : ι) (events : List (SlotEvent ι α)) : Prop :=
  ∃ early value late, events = early ++ .publish value :: late ∧ given i events = given i early

theorem runFrom_append (a : Audience ι α) (xs ys : List (SlotEvent ι α)) :
    a.runFrom (xs ++ ys) = (a.runFrom xs).runFrom ys :=
  List.foldl_append

theorem answersFrom_append (i : ι) (a : Audience ι α) (xs ys : List (SlotEvent ι α)) :
    answersFrom i a (xs ++ ys) = answersFrom i a xs ++ answersFrom i (a.runFrom xs) ys := by
  induction xs generalizing a with
  | nil => rfl
  | cons e rest ih =>
      cases e with
      | publish value => exact ih (a.step (.publish value))
      | poll j =>
          rw [List.cons_append, answersFrom, answersFrom, ih]
          by_cases hj : j = i
          · rw [if_pos hj, if_pos hj, List.cons_append]
            rfl
          · rw [if_neg hj, if_neg hj]
            rfl

theorem given_append (i : ι) (xs ys : List (SlotEvent ι α)) :
    given i (xs ++ ys) = given i xs ++ (answersFrom i (run xs) ys).filterMap id := by
  rw [given, answers, answersFrom_append, List.filterMap_append]
  rfl

theorem given_publish (i : ι) (events : List (SlotEvent ι α)) (value : α) :
    given i (events ++ [.publish value]) = given i events := by
  rw [given_append]
  exact List.append_nil _

theorem given_poll_self (i : ι) (events : List (SlotEvent ι α)) :
    given i (events ++ [.poll i]) = given i events ++ ((run events).finds i).toList := by
  rw [given_append, answersFrom, if_pos rfl]
  cases (run events).finds i with
  | none => rfl
  | some s => rfl

theorem given_poll_other {i j : ι} (h : j ≠ i) (events : List (SlotEvent ι α)) :
    given i (events ++ [.poll j]) = given i events := by
  rw [given_append, answersFrom, if_neg h]
  exact List.append_nil _

/-! ### The invariant -/

section Serves

variable {a : Audience ι α} {i : ι} {values : List α} {taken : List (Versioned α)}

theorem Serves.publish (h : a.Serves i values taken) (value : α) :
    (a.step (.publish value)).Serves i (values ++ [value]) taken := by
  refine ⟨?_, h.last, ?_, h.ordered, h.taken_le⟩
  · rw [step, h.slot, Slot.publish_ofList]
  · rw [List.length_append]
    exact Nat.le_add_right_of_le h.published_le

theorem Serves.poll_other {j : ι} (h : a.Serves i values taken) (hj : j ≠ i) :
    (a.step (.poll j)).Serves i values taken := by
  have hcursor : (a.step (.poll j)).cursors i = a.cursors i :=
    Function.update_of_ne hj.symm _ a.cursors
  exact ⟨h.slot, (congrArg Cursor.last hcursor).trans h.last, h.published_le, h.ordered, h.taken_le⟩

theorem Serves.poll_self (h : a.Serves i values taken) :
    (a.step (.poll i)).Serves i values (taken ++ (a.finds i).toList) := by
  have hcursor : (a.step (.poll i)).cursors i = ((a.cursors i).poll a.slot).2 :=
    Function.update_self i _ a.cursors
  rw [h.poll_eq] at hcursor
  rw [h.finds_eq]
  by_cases hseen : newest taken = values.length
  · rw [if_pos hseen] at hcursor ⊢
    rw [Option.toList_none, List.append_nil]
    have hlast := (congrArg Cursor.last hcursor).trans h.last
    exact ⟨h.slot, hlast, h.published_le, h.ordered, h.taken_le⟩
  · rw [if_neg hseen] at hcursor ⊢
    have hlt : newest taken < values.length := Nat.lt_of_le_of_ne h.published_le hseen
    obtain ⟨value, hvalue⟩ := h.exists_newest hseen
    rw [hvalue, Option.map_some, Option.toList_some]
    refine ⟨h.slot, ?_, ?_, ?_, ?_⟩
    · rw [hcursor, newest_concat]
    · exact Nat.le_of_eq (newest_concat taken _)
    · -- What was given before has a smaller version than the number of values.
      rw [List.map_append, List.map_singleton, List.pairwise_append]
      refine ⟨h.ordered, List.pairwise_singleton _ _, ?_⟩
      intro v hv w hw
      rcases List.mem_map.mp hv with ⟨s, hs, rfl⟩
      rw [List.mem_singleton.mp hw]
      exact Nat.lt_of_le_of_lt (h.taken_le s hs) hlt
    · intro s hs
      rw [newest_concat]
      rcases List.mem_append.mp hs with hold | hnew
      · exact Nat.le_trans (h.taken_le s hold) (Nat.le_of_lt hlt)
      · exact Nat.le_of_eq (congrArg Versioned.version (List.mem_singleton.mp hnew))

/-- What one event keeps. -/
theorem serves_step (events : List (SlotEvent ι α)) (e : SlotEvent ι α)
    (h : (run events).Serves i (published events) (given i events)) :
    (run (events ++ [e])).Serves i (published (events ++ [e])) (given i (events ++ [e])) := by
  have hrun : run (events ++ [e]) = (run events).step e := by
    rw [run, runFrom_append]
    rfl
  rw [hrun, published, List.filterMap_append]
  cases e with
  | publish value =>
      rw [given_publish]
      exact h.publish value
  | poll j =>
      change ((run events).step (.poll j)).Serves i (published events ++ []) _
      rw [List.append_nil]
      -- Another reader's poll moves another cursor and leaves the slot alone.
      by_cases hj : j = i
      · rw [hj, given_poll_self]
        exact h.poll_self
      · rw [given_poll_other hj]
        exact h.poll_other hj

/-- What a run keeps. -/
theorem run_serves (events : List (SlotEvent ι α)) (i : ι) :
    (run events).Serves i (published events) (given i events) := by
  induction events using List.reverseRecOn with
  | nil => exact start_serves i
  | append_singleton events e ih => exact serves_step events e ih

end Serves

/-! ### What is new to a reader -/

variable {i : ι}

theorem unseen_concat_of_given_eq {events : List (SlotEvent ι α)} {j : ι}
    (h : given i (events ++ [.poll j]) = given i events) :
    Unseen i (events ++ [.poll j]) ↔ Unseen i events := by
  constructor
  · rintro ⟨early, value, late, hsplit, hgiven⟩
    rcases publication_before_poll hsplit with ⟨late', hevents⟩
    exact ⟨early, value, late', hevents, h.symm.trans hgiven⟩
  · rintro ⟨early, value, late, rfl, hgiven⟩
    exact ⟨early, value, late ++ [.poll j], by simp, h.trans hgiven⟩

/-- Something is new to a reader when more has been published than the version given to it last. -/
theorem unseen_iff (i : ι) (events : List (SlotEvent ι α)) :
    Unseen i events ↔ newest (given i events) ≠ (published events).length := by
  induction events using List.reverseRecOn with
  | nil =>
      refine ⟨?_, fun h => absurd rfl h⟩
      rintro ⟨early, value, late, hsplit, -⟩
      simp at hsplit
  | append_singleton events e ih =>
      have hserves := run_serves events i
      cases e with
      | publish value =>
          -- The value is new to everyone, since no one can have been given its version yet.
          refine ⟨fun _ => ?_, fun _ => ⟨events, value, [], rfl, given_publish i events value⟩⟩
          have hle := hserves.published_le
          rw [given_publish, published, List.filterMap_append, List.length_append]
          exact Nat.ne_of_lt (Nat.lt_succ_of_le hle)
      | poll j =>
          have hpublished : published (events ++ [.poll j]) = published events := by
            rw [published, List.filterMap_append]
            exact List.append_nil _
          rw [hpublished]
          by_cases hnone : given i (events ++ [.poll j]) = given i events
          · rw [unseen_concat_of_given_eq hnone, ih, hnone]
          · obtain rfl : j = i := by
              by_contra hj
              exact hnone (given_poll_other hj events)
            -- The poll has given the newest version, so nothing is new any more.
            obtain ⟨value, hgives⟩ : ∃ value, given j (events ++ [.poll j]) =
                given j events ++ [⟨(published events).length, value⟩] := by
              rw [given_poll_self, hserves.finds_eq] at hnone ⊢
              by_cases hold : newest (given j events) = (published events).length
              · rw [if_pos hold] at hnone
                exact absurd (List.append_nil _) hnone
              · rcases hserves.exists_newest hold with ⟨value, hvalue⟩
                rw [if_neg hold, hvalue]
                exact ⟨value, rfl⟩
            rw [hgives, newest_concat]
            refine ⟨?_, fun h => absurd rfl h⟩
            rintro ⟨early, _, late, hsplit, hgiven⟩
            -- What it was given before the publication is one snapshot more than what it had then.
            rcases publication_before_poll hsplit with ⟨late', rfl⟩
            have hlength := congrArg List.length (hgives.symm.trans hgiven)
            rw [given_append, List.length_append, List.length_append, List.length_singleton]
              at hlength
            omega

/-! ### Other readers -/

/-- Where the slots and the cursors of a reader agree, the polls of the others make no
difference. -/
theorem answersFrom_filter (i : ι) (a b : Audience ι α) (hslot : a.slot = b.slot)
    (hcursor : a.cursors i = b.cursors i) (events : List (SlotEvent ι α)) :
    answersFrom i a events = answersFrom i b (events.filter (concerns i)) := by
  induction events generalizing a b with
  | nil => rfl
  | cons e rest ih =>
      cases e with
      | publish value =>
          exact ih _ _ (congrArg (Slot.publish · value) hslot) hcursor
      | poll j =>
          -- A poll of another reader is struck out, and it changes nothing that this one sees.
          by_cases hj : j = i
          · subst hj
            have hconcerns : (SlotEvent.poll j : SlotEvent ι α).concerns j = true :=
              decide_eq_true rfl
            have hpolled : (a.step (.poll j)).cursors j = (b.step (.poll j)).cursors j := by
              simp only [step, Function.update_self, hslot, hcursor]
            have hrest := ih (a.step (.poll j)) (b.step (.poll j)) hslot hpolled
            rw [List.filter_cons_of_pos hconcerns, answersFrom, answersFrom, if_pos rfl, if_pos rfl,
              finds, finds, hslot, hcursor, hrest]
          · rw [List.filter_cons_of_neg (by simpa [concerns] using hj), answersFrom, if_neg hj]
            exact ih _ b hslot ((Function.update_of_ne (Ne.symm hj) _ a.cursors).trans hcursor)

/-- The polls of the other readers make no difference to what a reader is given. -/
theorem answers_filter (i : ι) (events : List (SlotEvent ι α)) :
    answers i events = answers i (events.filter (concerns i)) :=
  answersFrom_filter i start start rfl rfl events

/-! ### After the last publication -/

/-- After the last publication a reader that polls is given the last value once. -/
theorem given_after_last (early late : List (SlotEvent ι α)) (value : α)
    (quiet : ∀ e ∈ late, e.value? = none) :
    given i (early ++ .publish value :: late) = given i early ++
      if ∃ e ∈ late, e.concerns i = true then [⟨(published early).length + 1, value⟩] else [] := by
  -- The induction takes away the last event, for it is the last poll that may find something.
  induction late using List.reverseRecOn with
  | nil => simpa using given_publish i early value
  | append_singleton late e ih =>
      have hquiet : ∀ e ∈ late, e.value? = none :=
        fun e he => quiet e (List.mem_append_left [_] he)
      have ih := ih hquiet
      have hpublished :
          published (early ++ .publish value :: late) = published early ++ [value] := by
        have hlate : late.filterMap value? = [] := List.filterMap_eq_nil_iff.mpr hquiet
        simp [published, value?, hlate]
      rw [← List.cons_append, ← List.append_assoc]
      cases e with
      | publish other => exact absurd (quiet (.publish other) (by simp)) (Option.some_ne_none _)
      | poll j =>
          by_cases hj : j = i
          · subst hj
            have hserves := run_serves (early ++ .publish value :: late) j
            have hfinds := hserves.finds_eq
            rw [given_poll_self, hfinds, hpublished, ih]
            -- Whether it has polled before decides whether it has the value already.
            by_cases hpolled : ∃ e ∈ late, e.concerns j = true
            · have hagain : ∃ e ∈ late ++ [SlotEvent.poll j], e.concerns j = true := by
                rcases hpolled with ⟨e, he, hc⟩
                exact ⟨e, List.mem_append_left _ he, hc⟩
              rw [if_pos hpolled, if_pos hagain, newest_concat,
                if_pos (by rw [List.length_append, List.length_singleton])]
              exact List.append_nil _
            · have hnow : ∃ e ∈ late ++ [SlotEvent.poll j], e.concerns j = true :=
                ⟨.poll j, by simp, decide_eq_true rfl⟩
              have hle := (run_serves early j).published_le
              rw [if_neg hpolled, if_pos hnow, List.append_nil,
                if_neg (by rw [List.length_append, List.length_singleton]; omega)]
              simp
          · have hiff : (∃ e ∈ late ++ [SlotEvent.poll j], e.concerns i = true) ↔
                ∃ e ∈ late, e.concerns i = true := by
              simp [concerns, hj]
            rw [given_poll_other hj, ih]
            simp only [hiff]

/-- Any number of readers poll one slot, in any order with each other and with the publications. The
versions that a reader is given grow strictly. A poll gives something exactly when a value has been
published since the reader was last given one, and then it gives the value published last under the
number of values published; a poll that gives nothing leaves the cursor as it is, and the cursor
always holds the version given last. What a reader is given does not depend on the polls of the
others. Once nothing more is published, the value published last is given once to every reader that
still polls, and to the others not at all. -/
theorem readers_take_newest_once (events : List (SlotEvent ι α)) (i : ι) :
    ((given i events).map Versioned.version).Pairwise (· < ·) ∧
    (((run events).finds i).isSome = true ↔ Unseen i events) ∧
    (∀ s, (run events).finds i = some s →
      s.version = (published events).length ∧ (published events)[s.version - 1]? = some s.value) ∧
    ((run events).finds i = none →
      (run (events ++ [.poll i])).cursors i = (run events).cursors i) ∧
    ((run events).cursors i).last =
      ((given i events).getLast?.map Versioned.version).getD 0 ∧
    answers i events = answers i (events.filter (concerns i)) ∧
    ∀ early value late, events = early ++ .publish value :: late →
      (∀ e ∈ late, e.value? = none) →
      given i events = given i early ++
        if ∃ e ∈ late, e.concerns i = true then [⟨(published early).length + 1, value⟩]
        else [] := by
  have hserves := run_serves events i
  have hfinds := hserves.finds_eq
  refine ⟨hserves.ordered, ?_, ?_, ?_, hserves.last, answers_filter i events, ?_⟩
  -- A poll finds something exactly when the cursor is behind the last value.
  · rw [unseen_iff, hfinds]
    by_cases hseen : newest (given i events) = (published events).length
    · simp [hseen]
    · rcases hserves.exists_newest hseen with ⟨value, hvalue⟩
      simp [hseen, hvalue]
  -- What it finds is the last value, with the number of values as its version.
  · intro s hs
    rw [hfinds] at hs
    by_cases hseen : newest (given i events) = (published events).length
    · simp [hseen] at hs
    · rw [if_neg hseen, Option.map_eq_some_iff] at hs
      rcases hs with ⟨value, hvalue, rfl⟩
      exact ⟨rfl, by rw [← hvalue, List.getLast?_eq_getElem?]⟩
  -- Finding nothing, the reader has taken the last value, and its cursor stays.
  · intro hnone
    have hcursor : (run (events ++ [.poll i])).cursors i =
        (((run events).cursors i).poll (run events).slot).2 := by
      rw [run, runFrom_append]
      exact Function.update_self i _ _
    rw [finds, hserves.poll_eq] at hnone
    rw [hcursor, hserves.poll_eq]
    by_cases hseen : newest (given i events) = (published events).length
    · rw [if_pos hseen]
    · rcases hserves.exists_newest hseen with ⟨value, hvalue⟩
      rw [if_neg hseen, hvalue] at hnone
      exact absurd hnone (Option.some_ne_none _)
  · rintro early value late rfl quiet
    exact given_after_last early late value quiet

/-- A reader that polls late is given the last value alone, and once. -/
example : (given 0 [.publish true, .poll 1, .publish false, .poll 0, .poll 0]).map
    (fun s => (s.version, s.value)) = [(2, false)] := by
  decide

end Audience

end FireControl
