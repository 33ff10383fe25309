import FireControl.Aim.Lead
import Mathlib.Order.Bounds.Basic
import Mathlib.Order.Interval.Set.Basic

/-!
# What the Search for a Lead Finds

The lead times form a sequence that depends on the target and the bullet only. The search walks
along it and stops at the first step that changes the lead time by less than the threshold; the
number of steps it may take decides where it is cut off and nothing else. A search that is cut off
ends with the last member it has come to.

Each round of the search replaces the point, the time to it, the count and the verdict, and the four
have to belong to one and the same step. `LeadProblem.solutionAfter` says which solution belongs to
a step, without a search, and the search is shown to answer with one of these. The point is always
the one that the answered time leads to, also where the search is cut off or takes no step at all.

## Main definitions

* `LeadProblem.Settles`: Whether a step changes the lead time by less than the threshold.
* `LeadProblem.place`: The point that a lead time is the time to.
* `LeadProblem.solutionAfter`: The solution that belongs to a step.
* `LeadProblem.EndsAt`: The step at which a search with a given number of steps ends.

## Theorems

* `advance_solutionAfter`: A round of the search goes from one step's solution to the next one's.
* `search_solutionAfter`: The search answers with the solution of the step at which it ends.
* `EndsAt.more`: A search that has settled ends there with any number of further steps.
* `first_settled_iterate`: The outcome of a search, in terms of the sequence of lead times.
-/

namespace FireControl

namespace LeadProblem

variable [ElementaryFunctions] {p : LeadProblem} {cap k : Nat}

/-- Whether the `i`-th step changes the lead time by less than the threshold. Steps count from
one. -/
def Settles (p : LeadProblem) : Nat → Prop
  | 0 => False
  | i + 1 => (p.time (i + 1) - p.time i).abs < p.threshold

instance (p : LeadProblem) : DecidablePred p.Settles
  | 0 => inferInstanceAs (Decidable False)
  | _ + 1 => inferInstanceAs (Decidable (_ < _))

/-- The point that the `i`-th lead time is the time to. -/
def place (p : LeadProblem) : Nat → Vec3
  | 0 => p.target.position
  | i + 1 => p.target.plateAfter (p.time i)

/-- The solution that belongs to the `i`-th step. -/
def solutionAfter (p : LeadProblem) (i : Nat) : LeadSolution :=
  { position := p.place i, leadTime := p.time i, iterations := i, converged := p.Settles i }

/-- `k` is the first step up to `cap` that settles, or `cap` if there is none. -/
structure EndsAt (p : LeadProblem) (cap k : Nat) : Prop where
  le : k ≤ cap
  unsettled : ∀ i < k, ¬ p.Settles i
  settles : k < cap → p.Settles k

theorem time_eq_timeTo_place (p : LeadProblem) (i : Nat) : p.time i = p.timeTo (p.place i) := by
  cases i with
  | zero => rfl
  | succ i => rfl

/-- A round of the search goes from one step's solution to the next one's. -/
theorem advance_solutionAfter (p : LeadProblem) (i : Nat) :
    p.advance (p.solutionAfter i) = p.solutionAfter (i + 1) :=
  rfl

/-- The search answers with the solution of the step at which it ends. It begins at step `m`, where
no step so far has settled, and may take `n` more. -/
theorem search_solutionAfter (p : LeadProblem) (n m : Nat) (h : ∀ i ≤ m, ¬ p.Settles i) :
    ∃ k, p.EndsAt (m + n) k ∧ p.search n (p.solutionAfter m) = p.solutionAfter k := by
  -- Each round uses up one of the steps that are left and moves the beginning on by one.
  induction n generalizing m with
  | zero =>
      refine ⟨m, ⟨Nat.le_refl m, fun i hi => h i hi.le, ?_⟩, rfl⟩
      exact fun hlt => absurd hlt (Nat.lt_irrefl m)
  | succ n ih =>
      by_cases hsettled : p.Settles (m + 1)
      · refine ⟨m + 1, ⟨by omega, fun i hi => h i (Nat.le_of_lt_succ hi), fun _ => hsettled⟩, ?_⟩
        rw [search, advance_solutionAfter]
        exact if_pos (decide_eq_true hsettled)
      · have hnext : ∀ i ≤ m + 1, ¬ p.Settles i := by
          intro i hi
          rcases Nat.le_succ_iff.mp hi with hle | rfl
          · exact h i hle
          · exact hsettled
        rcases ih (m + 1) hnext with ⟨k, hk, hsearch⟩
        refine ⟨k, by rwa [Nat.add_right_comm] at hk, ?_⟩
        rw [search, advance_solutionAfter, ← hsearch]
        exact if_neg (by simpa [solutionAfter] using hsettled)

theorem exists_endsAt (p : LeadProblem) (cap : Nat) :
    ∃ k, p.EndsAt cap k ∧ p.solve cap = p.solutionAfter k := by
  have hstart : ∀ i ≤ 0, ¬ p.Settles i := by
    intro i hi
    rw [Nat.le_zero.mp hi]
    exact id
  rcases p.search_solutionAfter cap 0 hstart with ⟨k, hk, hsearch⟩
  exact ⟨k, by rwa [Nat.zero_add] at hk, hsearch⟩

/-- The step at which a search ends is determined by the number of steps it may take. -/
theorem EndsAt.unique {k' : Nat} (h : p.EndsAt cap k) (h' : p.EndsAt cap k') : k = k' := by
  -- The smaller of two such steps would have settled, which the greater one denies.
  rcases Nat.lt_trichotomy k k' with hlt | heq | hgt
  · exact absurd (h.settles (hlt.trans_le h'.le)) (h'.unsettled k hlt)
  · exact heq
  · exact absurd (h'.settles (hgt.trans_le h.le)) (h.unsettled k' hgt)

/-- A search that has settled ends there with any number of further steps. -/
theorem EndsAt.more {more : Nat} (h : p.EndsAt cap k) (settled : p.Settles k) (hle : k ≤ more) :
    p.EndsAt more k :=
  ⟨hle, h.unsettled, fun _ => settled⟩

theorem EndsAt.solve_eq (h : p.EndsAt cap k) : p.solve cap = p.solutionAfter k := by
  rcases p.exists_endsAt cap with ⟨k', hk', hsolve⟩
  rw [hsolve, h.unique hk']

theorem Settles.pos {i : Nat} (h : p.Settles i) : 1 ≤ i := by
  cases i with
  | zero => exact h.elim
  | succ i => exact Nat.le_add_left 1 i

/-- The first settled step is where a search ends that settles. -/
theorem EndsAt.isLeast (h : p.EndsAt cap k) (settled : p.Settles k) :
    IsLeast {i ∈ Set.Icc 1 cap | (p.time i - p.time (i - 1)).abs < p.threshold} k := by
  refine ⟨⟨⟨settled.pos, h.le⟩, ?_⟩, ?_⟩
  · cases k with
    | zero => exact settled.elim
    | succ i => exact settled
  · rintro i ⟨⟨hpos, -⟩, hi⟩
    by_contra hlt
    obtain ⟨j, rfl⟩ := Nat.exists_eq_add_of_le' hpos
    exact h.unsettled (j + 1) (not_le.mp hlt) hi

/-- A search that has not settled has come to its last step, and none of its steps settles. -/
theorem EndsAt.of_not_settles (h : p.EndsAt cap k) (hk : ¬ p.Settles k) :
    k = cap ∧ ∀ i ∈ Set.Icc 1 cap, ¬ (p.time i - p.time (i - 1)).abs < p.threshold := by
  -- A search that stops before the cap has settled, and this one has not.
  have hcap : k = cap := by
    by_contra hne
    exact hk (h.settles (lt_of_le_of_ne h.le hne))
  subst hcap
  refine ⟨rfl, ?_⟩
  rintro i ⟨hpos, hle⟩ hi
  obtain ⟨j, rfl⟩ := Nat.exists_eq_add_of_le' hpos
  -- A settling step before the last would have ended the search there.
  rcases hle.eq_or_lt with heq | hlt
  · exact hk (heq ▸ hi)
  · exact h.unsettled (j + 1) hlt hi

/-- The outcome of a search is read off the sequence of lead times `t₀, t₁, …`. Either some step up
to the given number changes the lead time by less than the threshold; then the search has converged
with the first of them, and every other number of steps that is not smaller gives the same solution.
Or there is none, and the search has taken all its steps without converging. In both cases the
solution after `k` steps consists of `tₖ` and of the plate after `tₖ₋₁`, or the robot's centre where
no step was allowed, and the time is the time of flight to that point and the latency. All this is
about the numbers as computed. A change that is NaN is not below any threshold and settles no
step. -/
theorem first_settled_iterate (p : LeadProblem) (cap : Nat) :
    let s := p.solve cap
    let settling := {i ∈ Set.Icc 1 cap | (p.time i - p.time (i - 1)).abs < p.threshold}
    p.time 0 = timeOfFlight p.target.position p.speed + p.latency ∧
    (∀ i, p.time (i + 1) =
      timeOfFlight (p.target.plateAfter (p.time i)) p.speed + p.latency) ∧
    ((s.converged = true ∧ IsLeast settling s.iterations ∧
        ∀ more ≥ s.iterations, p.solve more = s) ∨
      (s.converged = false ∧ settling = ∅ ∧ s.iterations = cap)) ∧
    s.leadTime = p.time s.iterations ∧
    s.position =
      (if cap = 0 then p.target.position else p.target.plateAfter (p.time (s.iterations - 1))) ∧
    s.leadTime = timeOfFlight s.position p.speed + p.latency := by
  intro s settling
  -- The step at which the search ends tells all the rest.
  rcases p.exists_endsAt cap with ⟨k, hk, hsolve⟩
  have hs : s = p.solutionAfter k := hsolve
  clear_value s
  subst hs
  refine ⟨rfl, fun i => rfl, ?_, rfl, ?_, p.time_eq_timeTo_place k⟩
  · by_cases hsettled : p.Settles k
    · exact Or.inl ⟨decide_eq_true hsettled, hk.isLeast hsettled,
        fun more hmore => (hk.more hsettled hmore).solve_eq⟩
    · rcases hk.of_not_settles hsettled with ⟨hcap, hnone⟩
      exact Or.inr ⟨decide_eq_false hsettled, Set.sep_eq_empty_iff_mem_false.mpr hnone, hcap⟩
  · -- Only a search without steps ends at step zero.
    cases k with
    | zero =>
        have hcap : cap = 0 := by
          by_contra hne
          exact hk.settles (Nat.pos_of_ne_zero hne)
        rw [if_pos hcap]
        rfl
    | succ i =>
        have hcap : cap ≠ 0 := by
          have := hk.le
          omega
        rw [if_neg hcap]
        rfl

end LeadProblem

end FireControl
