/-!
# The First Least Member of a List

Both the nearest robot and the nearest face are found by a fold that keeps the best member so far
and gives it up only for one that is strictly less. What stands before the winner is therefore
greater than it, and what comes after is not less: of equal members the first one wins.

Nothing more is asked of the comparison than that it puts the members in an order in which several
may stand at one place. The comparison of floating-point numbers does so wherever no NaN takes part.

## Main definitions

* `Orders`: A comparison puts the members of a list in order.
* `FirstLeast`: A member that is less than those before it and at most those after it.

## Theorems

* `foldl_mem`: A fold that picks one of two picks a member.
* `FirstLeast.cons`, `FirstLeast.behind`: One more member, before the winner or behind the first.
* `Orders.foldl_firstLeast`: The winner of the fold.
-/

namespace FireControl

variable {α : Type} {less : α → α → Prop} {members rest : List α} {first next winner : α}

/-- A fold that picks one of two picks a member, whichever it prefers. -/
theorem foldl_mem {choose : α → α → α} (hchoose : ∀ a b, choose a b = a ∨ choose a b = b)
    (rest : List α) (first : α) : rest.foldl choose first ∈ first :: rest := by
  induction rest generalizing first with
  | nil => exact List.mem_cons_self
  | cons next rest ih =>
      rw [List.foldl_cons]
      rcases hchoose first next with h | h
      · rw [h]
        exact List.cons_subset_cons _ (List.subset_cons_self _ _) (ih first)
      · rw [h]
        exact List.mem_cons_of_mem _ (ih next)

/-- A comparison puts the members of a list in order, some of them perhaps at one place. -/
structure Orders (less : α → α → Prop) (members : List α) : Prop where
  asymm : ∀ a ∈ members, ∀ b ∈ members, less a b → ¬ less b a
  trans : ∀ a ∈ members, ∀ b ∈ members, ∀ c ∈ members, less a b → ¬ less c b → less a c

theorem Orders.of_subset {others : List α} (h : Orders less members) (hsub : others ⊆ members) :
    Orders less others :=
  ⟨fun a ha b hb => h.asymm a (hsub ha) b (hsub hb),
    fun a ha b hb c hc => h.trans a (hsub ha) b (hsub hb) c (hsub hc)⟩

/-- A member of a list that is less than those before it and at most those after it. -/
def FirstLeast (less : α → α → Prop) (members : List α) (winner : α) : Prop :=
  ∃ before after, members = before ++ winner :: after ∧
    (∀ a ∈ before, less winner a) ∧ ∀ a ∈ after, ¬ less a winner

namespace FirstLeast

theorem mem (h : FirstLeast less members winner) : winner ∈ members := by
  rcases h with ⟨before, after, rfl, -, -⟩
  exact List.mem_append_right before List.mem_cons_self

theorem singleton (first : α) : FirstLeast less [first] first :=
  ⟨[], [], rfl, fun _ ha => absurd ha List.not_mem_nil, fun _ ha => absurd ha List.not_mem_nil⟩

/-- A greater member joins those before the winner. -/
theorem cons (horders : Orders less (first :: next :: rest))
    (h : FirstLeast less (next :: rest) winner) (hlt : less next first) :
    FirstLeast less (first :: next :: rest) winner := by
  -- The winner of the rest is below `next` or is `next`, and `next` is below `first`.
  have hwinner : less winner first := by
    have hmem := List.mem_cons_of_mem first h.mem
    rcases h with ⟨_ | ⟨b, before⟩, after, hsplit, hbefore, -⟩
    · rw [List.nil_append, List.cons.injEq] at hsplit
      rwa [← hsplit.1]
    · rw [List.cons_append, List.cons.injEq] at hsplit
      rcases hsplit with ⟨rfl, -⟩
      have hfirst : first ∈ first :: next :: rest := List.mem_cons_self
      have hnext : next ∈ first :: next :: rest := List.mem_cons_of_mem _ List.mem_cons_self
      exact horders.trans winner hmem next hnext first hfirst (hbefore next List.mem_cons_self)
        (horders.asymm next hnext first hfirst hlt)
  rcases h with ⟨before, after, hsplit, hbefore, hafter⟩
  refine ⟨first :: before, after, congrArg (first :: ·) hsplit, ?_, hafter⟩
  intro a ha
  rcases List.mem_cons.mp ha with rfl | ha
  · exact hwinner
  · exact hbefore a ha

/-- A member that is not less than the first may stand behind it. -/
theorem behind (horders : Orders less (first :: next :: rest))
    (h : FirstLeast less (first :: rest) winner) (hnot : ¬ less next first) :
    FirstLeast less (first :: next :: rest) winner := by
  have hmem : winner ∈ first :: next :: rest :=
    List.cons_subset_cons _ (List.subset_cons_self _ _) h.mem
  rcases h with ⟨_ | ⟨b, before⟩, after, hsplit, hbefore, hafter⟩
  -- `first` itself is the winner: it stays so, since `next` is not below it.
  · rw [List.nil_append, List.cons.injEq] at hsplit
    rcases hsplit with ⟨rfl, rfl⟩
    refine ⟨[], next :: rest, rfl, hbefore, ?_⟩
    intro a ha
    rcases List.mem_cons.mp ha with rfl | ha
    · exact hnot
    · exact hafter a ha
  -- The winner stands further back: it is below `first`, hence below `next` as well.
  · rw [List.cons_append, List.cons.injEq] at hsplit
    rcases hsplit with ⟨rfl, rfl⟩
    refine ⟨first :: next :: before, after, rfl, ?_, hafter⟩
    have hwinner := hbefore first List.mem_cons_self
    intro a ha
    rcases List.mem_cons.mp ha with rfl | ha
    · exact hwinner
    · rcases List.mem_cons.mp ha with rfl | ha
      · exact horders.trans winner hmem first List.mem_cons_self a
          (List.mem_cons_of_mem _ List.mem_cons_self) hwinner hnot
      · exact hbefore a (List.mem_cons_of_mem first ha)

end FirstLeast

/-- A fold that gives up the best member so far only for a lesser one finds the first of the least
members. -/
theorem Orders.foldl_firstLeast [DecidableRel less] (rest : List α) (first : α)
    (horders : Orders less (first :: rest)) :
    FirstLeast less (first :: rest)
      (rest.foldl (fun best next => if less next best then next else best) first) := by
  induction rest generalizing first with
  | nil => exact FirstLeast.singleton first
  | cons next rest ih =>
      rw [List.foldl_cons]
      by_cases hlt : less next first
      · rw [if_pos hlt]
        exact (ih next (horders.of_subset (List.subset_cons_self _ _))).cons horders hlt
      · rw [if_neg hlt]
        exact (ih first (horders.of_subset
          (List.cons_subset_cons _ (List.subset_cons_self _ _)))).behind horders hlt

end FireControl
