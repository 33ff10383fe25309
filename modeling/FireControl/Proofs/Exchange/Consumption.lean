import FireControl.Exchange.Slot

/-!
# What a Reader Takes From a Slot

A reader polls a slot with a cursor that remembers one version, the last one it took. The cursor
compares for equality only, so what keeps it from taking a value twice is an invariant: the version
it remembers has been published. A slot that has moved on is then ahead of the cursor and never
behind it, and the reader takes a version beyond all that it took before.

A reader that takes `n` values therefore takes `n` versions out of those that were published, which
bounds `n` by the version of the slot. `Cursor.Within` puts both halves together, and it is kept by
everything that happens to a slot and its reader.

A slot can be read as the list of all that was ever published to it, of which it shows the last
member and the length. `Slot.ofList` is that reading, and publishing adds a member to the list.

## Main definitions

* `Slot.ofList`: A slot to which the members of a list have been published.
* `Cursor.news`: The version that a poll finds new.
* `Cursor.Within`: A reader that has taken a number of values, all of them published.

## Theorems

* `version_publish`: Publishing counts one version on.
* `publish_ofList`: Publishing adds a member to the list.
* `poll_ofList`: What a poll gives, in terms of the list.
* `news_ofList`: There is something new where the list is longer than the version taken last.
* `poll_of_news_none`, `poll_of_news_some`: What a poll does to the cursor.
* `poll_eq`: What a poll gives, in terms of the versions.
* `Within.le_version`: A reader has taken no more values than there were.
* `lt_of_news`: What is new is newer than all that was taken.
* `Within.publish`, `Within.poll`: Publishing and polling keep a reader within the slot.
-/

namespace FireControl

variable {α : Type}

/-- Publishing counts one version on. -/
theorem Slot.version_publish (slot : Slot α) (value : α) :
    (slot.publish value).version = slot.version + 1 :=
  rfl

namespace Slot

/-- A slot to which the members of a list have been published, one after the other. -/
def ofList (values : List α) : Slot α :=
  ⟨values.getLast?.map fun newest => ⟨values.length, newest⟩⟩

@[simp]
theorem latest_ofList (values : List α) : (ofList values).latest = values.getLast? := by
  simp only [latest, ofList, Option.map_map]
  exact Option.map_id'

@[simp]
theorem version_ofList (values : List α) : (ofList values).version = values.length := by
  simp only [version, ofList, versionOf, Option.map_map]
  cases values.eq_nil_or_concat with
  | inl h => rw [h]; rfl
  | inr h =>
      rcases h with ⟨init, last, rfl⟩
      rw [List.concat_eq_append, List.getLast?_concat]
      rfl

/-- A slot that has a version holds a value. -/
theorem exists_current {slot : Slot α} (h : 0 < slot.version) :
    ∃ snapshot, slot.current = some snapshot := by
  cases hcurrent : slot.current with
  | none =>
      rw [version, hcurrent] at h
      exact absurd h (Nat.lt_irrefl 0)
  | some snapshot => exact ⟨snapshot, rfl⟩

/-- Publishing adds a member to the list. -/
theorem publish_ofList (values : List α) (value : α) :
    (ofList values).publish value = ofList (values ++ [value]) := by
  have hversion : versionOf (ofList values).current = values.length := version_ofList values
  rw [publish, successor, hversion, ofList, List.getLast?_concat, List.length_append]
  rfl

end Slot

namespace Cursor

/-- The version that a poll finds new, if there is one. -/
def news (cursor : Cursor) (slot : Slot α) : Option Nat :=
  (cursor.poll slot).1.map Versioned.version

/-- A reader that has taken `n` values from a slot, each under a version of its own, and none that
has not been published. -/
structure Within (cursor : Cursor) (slot : Slot α) (n : Nat) : Prop where
  counted : n ≤ cursor.last
  published : cursor.last ≤ slot.version

theorem start_within (slot : Slot α) : start.Within slot 0 :=
  ⟨Nat.le_refl 0, Nat.zero_le slot.version⟩

variable {cursor : Cursor} {slot : Slot α} {n : Nat}

/-- A reader has taken no more values than there were. -/
theorem Within.le_version (within : cursor.Within slot n) : n ≤ slot.version :=
  Nat.le_trans within.counted within.published

/-- A poll that finds nothing leaves the cursor alone. -/
theorem poll_of_news_none (h : cursor.news slot = none) : cursor.poll slot = (none, cursor) := by
  unfold news at h
  unfold poll at h ⊢
  cases hcurrent : slot.current with
  | none => rfl
  | some snapshot =>
      rw [hcurrent] at h
      by_cases hold : snapshot.version = cursor.last
      · exact if_pos hold
      · simp only [if_neg hold, Option.map_some] at h
        exact absurd h (Option.some_ne_none snapshot.version)

/-- A poll that finds a version takes it, and it is the one in the slot. -/
theorem poll_of_news_some {version : Nat} (h : cursor.news slot = some version) :
    ∃ snapshot, cursor.poll slot = (some snapshot, ⟨version⟩) ∧ snapshot.version = version ∧
      slot.version = version ∧ version ≠ cursor.last := by
  unfold news at h
  unfold poll at h ⊢
  cases hcurrent : slot.current with
  | none =>
      rw [hcurrent] at h
      exact absurd h.symm (Option.some_ne_none version)
  | some snapshot =>
      rw [hcurrent] at h
      -- News is a version other than the one taken last, and a poll asks the same.
      by_cases hold : snapshot.version = cursor.last
      · simp only [if_pos hold, Option.map_none] at h
        exact absurd h.symm (Option.some_ne_none version)
      · simp only [if_neg hold, Option.map_some] at h
        have hversion : snapshot.version = version := Option.some.inj h
        subst hversion
        refine ⟨snapshot, if_neg hold, rfl, ?_, hold⟩
        rw [Slot.version, hcurrent]
        rfl

/-- A poll finds something where the slot is ahead of the cursor. -/
theorem poll_eq
    (h : cursor.last ≤ slot.version) :
    cursor.poll slot =
      if cursor.last < slot.version then (slot.current, ⟨slot.version⟩) else (none, cursor) := by
  unfold poll
  unfold Slot.version Slot.versionOf at h ⊢
  cases hcurrent : slot.current with
  | none => rfl
  | some snapshot =>
      rw [hcurrent] at h
      simp only [Option.map_some, Option.getD_some] at h ⊢
      -- The cursor is not ahead, so a version that differs from it is a newer one.
      by_cases hlt : cursor.last < snapshot.version
      · rw [if_pos hlt, if_neg (Nat.ne_of_gt hlt)]
      · rw [if_neg hlt, if_pos (Nat.le_antisymm (Nat.not_lt.mp hlt) h)]

/-- A poll gives the last member of the list under the length of the list, unless that version has
been taken before. -/
theorem poll_ofList (cursor : Cursor) (values : List α) (within : cursor.last ≤ values.length) :
    cursor.poll (Slot.ofList values) =
      if cursor.last = values.length then (none, cursor)
      else (values.getLast?.map fun newest => ⟨values.length, newest⟩, ⟨values.length⟩) := by
  -- The version of the slot is the number of values, and a cursor at it has taken the last.
  cases values.eq_nil_or_concat with
  | inl h =>
      subst h
      exact (if_pos (Nat.le_zero.mp within)).symm
  | inr h =>
      rcases h with ⟨init, last, rfl⟩
      rw [poll, Slot.ofList, List.concat_eq_append, List.getLast?_concat]
      by_cases htaken : cursor.last = (init ++ [last]).length
      · rw [if_pos htaken]
        simp only [Option.map_some, if_pos htaken.symm]
      · rw [if_neg htaken]
        simp only [Option.map_some, if_neg (Ne.symm htaken)]

/-- There is something new in a slot where more has been published than the version taken last. -/
theorem news_ofList (cursor : Cursor) (values : List α) (within : cursor.last ≤ values.length) :
    cursor.news (Slot.ofList values) =
      if cursor.last = values.length then none else some values.length := by
  rw [news, poll_ofList cursor values within]
  by_cases htaken : cursor.last = values.length
  · rw [if_pos htaken, if_pos htaken]
    rfl
  · have hne : values ≠ [] := by
      rintro rfl
      exact htaken (Nat.le_zero.mp within)
    rw [if_neg htaken, if_neg htaken, List.getLast?_eq_some_getLast hne]
    rfl

/-- What is new to a reader is newer than all that it has taken. -/
theorem lt_of_news {version : Nat} (within : cursor.Within slot n)
    (h : cursor.news slot = some version) : cursor.last < version := by
  rcases poll_of_news_some h with ⟨_, _, _, hversion, hne⟩
  have hle := within.published
  omega

/-- A reader stays within the slot when values are published. -/
theorem Within.publish (within : cursor.Within slot n) (value : α) :
    cursor.Within (slot.publish value) n := by
  refine ⟨within.counted, ?_⟩
  rw [Slot.version_publish]
  exact Nat.le_succ_of_le within.published

/-- A reader that takes what is new stays within the slot, with one value more. -/
theorem Within.poll {version : Nat} (within : cursor.Within slot n)
    (h : cursor.news slot = some version) : (⟨version⟩ : Cursor).Within slot (n + 1) := by
  have hlt := lt_of_news within h
  rcases poll_of_news_some h with ⟨_, _, _, hversion, _⟩
  exact ⟨Nat.lt_of_le_of_lt within.counted hlt, Nat.le_of_eq hversion.symm⟩

end Cursor

end FireControl
