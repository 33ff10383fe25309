import FireControl.Proofs.Tracking.LockCycle

/-!
# The Grace Period

How long the lock holds a robot that is out of sight. Time between frames is not constant, so the
answer is not a number of frames: it is the first frame at which the intervals since the last
sighting, taken off the grace period one after the other, leave no more than a negligible rest.
Every subtraction rounds, and the order of the subtractions is part of the answer.

`remaining` is that rest and `Lasts` says that it has stayed above the negligible for each of a list
of intervals. Both know nothing of locks. What ties a lock to them is that a cycle without the held
robot does one subtraction and one comparison (`see_of_lacks`), from which a run of such cycles
follows by induction on the cycles.

A reachable lock that holds a robot has a history that ends with a sighting of the robot and cycles
without it: `run_held` finds the last sighting by walking along the history. The sighting sets the
rest to the whole grace period, so the lock after it is the same whatever came before, and the
intervals count from there.

## Main definitions

* `Sight`: What a lock gets in a cycle.
* `LockStep`: What can happen to a lock from outside.
* `TargetLock.run`: The lock after a history of steps.
* `TargetLock.selections`: The outcomes of consecutive cycles.
* `TargetLock.remaining`, `TargetLock.Lasts`: The rest of a grace period, and whether it lasts.
* `TargetLock.Drops`: The outcomes of a cycle in which the grace period ends.

## Theorems

* `lasts_append`: A grace period that lasts through two stretches lasts through one and then the
  other.
* `see_of_lacks`: A cycle without the held robot takes its interval off the rest.
* `after_of_lasts`, `after_of_not_lasts`: What a stretch without the held robot does to the lock.
* `coasts_iff_lasts`: The lock coasts exactly as long as the grace period lasts.
* `drops_of_spent`: The first cycle in which the grace period is over drops the robot.
* `run_held`: A held robot has a last sighting.
* `coasts_until_grace_ends`: A robot is held through its grace period and no longer.
-/

namespace FireControl

/-- What a lock gets in a cycle: the groups in view, and the seconds since the cycle before. -/
structure Sight where
  groups : List Group
  dt : Float

/-- A sight without a robot. -/
def Sight.Lacks (id : RobotId) (s : Sight) : Prop :=
  ∀ g ∈ s.groups, g.robot ≠ id

/-- What can happen to a lock from outside. -/
inductive LockStep where
  /-- A cycle. -/
  | update (s : Sight)
  /-- The lock is told to give up its robot. -/
  | release

/-- An event in which a robot is seen and held. -/
def LockEvent.Sights (id : RobotId) : LockEvent → Prop
  | .acquired i _ => i = id
  | .tracking i => i = id
  | .coasting _ _ => False
  | .lost _ => False
  | .idle => False

namespace TargetLock

/-- One cycle with a sight. -/
def see (lock : TargetLock) (s : Sight) : Selection × TargetLock :=
  lock.update s.groups s.dt

/-- The lock after a step. -/
def step (lock : TargetLock) : LockStep → TargetLock
  | .update s => (lock.see s).2
  | .release => lock.release

/-- The lock after a history of steps. -/
def run (lock : TargetLock) (history : List LockStep) : TargetLock :=
  history.foldl step lock

/-- The lock after consecutive cycles. -/
def after (lock : TargetLock) (sights : List Sight) : TargetLock :=
  lock.run (sights.map LockStep.update)

/-- The outcomes of consecutive cycles. -/
def selections (lock : TargetLock) : List Sight → List Selection
  | [] => []
  | s :: rest => (lock.see s).1 :: selections (lock.see s).2 rest

/-- What is left of a grace period after some intervals, taken off from the left. -/
def remaining (grace : Float) (intervals : List Float) : Float :=
  intervals.foldl (fun rest dt => rest - dt) grace

/-- Whether more than the negligible is left of a grace period after each of some intervals. -/
def Lasts (grace : Float) (intervals : List Float) : Prop :=
  ∀ k, k < intervals.length → negligible < remaining grace (intervals.take (k + 1))

/-- Outcomes that hold a robot without seeing it: each event is a coasting one, without plates. -/
def Coasts (id : RobotId) (outcomes : List Selection) : Prop :=
  ∀ o ∈ outcomes, (∃ ttl, o.event = .coasting id ttl) ∧ o.armors = []

/-- The outcomes of a cycle in which the grace period of a robot ends: another robot in view is
taken in its place, or the robot is reported lost where there is none with plates. -/
inductive Drops (lock : TargetLock) (id : RobotId) (s : Sight) : Selection × TargetLock → Prop
  | exchange (g : Group) (seen : g ∈ s.groups) (plates : g.armors ≠ []) (other : g.robot ≠ id) :
      Drops lock id s (⟨.acquired g.robot (some id), g.armors⟩, lock.hold g.robot)
  | lose (nobody : ∀ g ∈ s.groups, g.armors = []) :
      Drops lock id s (⟨.lost id, []⟩, lock.release)

theorem lasts_nil (grace : Float) : Lasts grace [] :=
  fun _ hk => absurd hk (Nat.not_lt_zero _)

theorem lasts_cons_iff (grace dt : Float) (rest : List Float) :
    Lasts grace (dt :: rest) ↔ negligible < grace - dt ∧ Lasts (grace - dt) rest := by
  constructor
  · intro h
    refine ⟨h 0 (Nat.zero_lt_succ _), fun k hk => ?_⟩
    exact h (k + 1) (Nat.succ_lt_succ hk)
  · rintro ⟨hfirst, hrest⟩ k hk
    cases k with
    | zero => exact hfirst
    | succ j => exact hrest j (Nat.lt_of_succ_lt_succ hk)

/-- A grace period lasts through two stretches exactly when it lasts through the first, and what is
left of it lasts through the second. -/
theorem lasts_append (grace : Float) (first second : List Float) :
    Lasts grace (first ++ second) ↔
      Lasts grace first ∧ Lasts (remaining grace first) second := by
  induction first generalizing grace with
  | nil =>
      simp only [List.nil_append, remaining, List.foldl_nil, lasts_nil, true_and]
  | cons dt rest ih =>
      rw [List.cons_append, lasts_cons_iff, lasts_cons_iff, ih (grace - dt), and_assoc]
      rfl

theorem remaining_append (grace : Float) (first second : List Float) :
    remaining grace (first ++ second) = remaining (remaining grace first) second :=
  List.foldl_append

theorem see_cycle (lock : TargetLock) (s : Sight) :
    Cycle lock s.groups s.dt (lock.see s).1 (lock.see s).2 :=
  update_cycle lock s.groups s.dt

/-- A cycle without the held robot does one subtraction and one comparison. -/
theorem see_of_lacks (lock : TargetLock) (id : RobotId) (s : Sight) (held : lock.target = some id)
    (lacks : s.Lacks id) :
    (negligible < lock.ttl - s.dt ∧
      lock.see s =
        (⟨.coasting id (lock.ttl - s.dt), []⟩, { lock with ttl := lock.ttl - s.dt })) ∨
    (¬ negligible < lock.ttl - s.dt ∧ Drops lock id s (lock.see s)) := by
  have hcycle := see_cycle lock s
  generalize lock.see s = outcome at hcycle
  rcases outcome with ⟨selection, after⟩
  -- The robot is held and not in view, so three of the six cycles are out of the question.
  cases hcycle with
  | take g free nearest =>
      rw [free] at held
      exact absurd held (by simp only [reduceCtorEq, not_false_eq_true])
  | rest free nobody =>
      rw [free] at held
      exact absurd held (by simp only [reduceCtorEq, not_false_eq_true])
  | see i g held' seen =>
      have hi : i = id := Option.some.inj (held'.symm.trans held)
      have hg : g.robot = i := by simpa only [decide_eq_true_eq] using List.find?_some seen
      exact absurd (hg.trans hi) (lacks g (List.mem_of_find?_eq_some seen))
  | wait i held' unseen grace =>
      have hi : i = id := Option.some.inj (held'.symm.trans held)
      subst hi
      exact Or.inl ⟨grace, rfl⟩
  | exchange i g held' unseen spent nearest =>
      have hi : i = id := Option.some.inj (held'.symm.trans held)
      subst hi
      rcases Group.nearest?_mem s.groups g nearest with ⟨hg, hplates⟩
      exact Or.inr ⟨spent, Drops.exchange g hg hplates (lacks g hg)⟩
  | lose i held' unseen spent nobody =>
      have hi : i = id := Option.some.inj (held'.symm.trans held)
      subst hi
      exact Or.inr ⟨spent, Drops.lose ((Group.nearest?_eq_none_iff s.groups).mp nobody)⟩

/-- While the grace period lasts, cycles without the held robot do nothing but take their intervals
off the rest. -/
theorem after_of_lasts (lock : TargetLock) (id : RobotId) (sights : List Sight)
    (held : lock.target = some id) (lacks : ∀ s ∈ sights, s.Lacks id)
    (lasts : Lasts lock.ttl (sights.map Sight.dt)) :
    lock.after sights = { lock with ttl := remaining lock.ttl (sights.map Sight.dt) } ∧
      Coasts id (lock.selections sights) := by
  induction sights generalizing lock with
  | nil => exact ⟨rfl, fun o ho => absurd ho List.not_mem_nil⟩
  | cons s rest ih =>
      -- The first absence is within the grace period, and the rest starts from what it leaves.
      rcases (lasts_cons_iff lock.ttl s.dt (rest.map Sight.dt)).mp lasts with ⟨hnow, hrest⟩
      rcases see_of_lacks lock id s held (lacks s List.mem_cons_self) with
        ⟨_, hsee⟩ | ⟨hover, _⟩
      · have hlacks : ∀ t ∈ rest, t.Lacks id := fun t ht => lacks t (List.mem_cons_of_mem s ht)
        rcases ih { lock with ttl := lock.ttl - s.dt } held hlacks hrest with ⟨hafter, hcoasts⟩
        have hnext : lock.after (s :: rest) = (lock.see s).2.after rest := rfl
        refine ⟨?_, ?_⟩
        · rw [hnext, hsee, hafter]
          rfl
        · rw [selections, hsee]
          intro o ho
          rcases List.mem_cons.mp ho with rfl | ho
          · exact ⟨⟨_, rfl⟩, rfl⟩
          · exact hcoasts o ho
      · exact absurd hnow hover

/-- A robot that is not held and not seen does not come to be held. -/
theorem see_target_ne (lock : TargetLock) (id : RobotId) (s : Sight)
    (free : lock.target ≠ some id) (lacks : s.Lacks id) : (lock.see s).2.target ≠ some id := by
  have hcycle := see_cycle lock s
  generalize lock.see s = outcome at hcycle
  rcases outcome with ⟨selection, after⟩
  -- A robot that is taken is one of those in view, and this one is not.
  have hne : ∀ g ∈ s.groups, (lock.hold g.robot).target ≠ some id :=
    fun g hg hc => lacks g hg (Option.some.inj hc)
  cases hcycle with
  | take g _ nearest => exact hne g (Group.nearest?_mem s.groups g nearest).1
  | rest _ nobody => exact free
  | see i g held seen => exact fun hc => free (held.trans hc)
  | wait i held unseen grace => exact free
  | exchange i g held unseen spent nearest => exact hne g (Group.nearest?_mem s.groups g nearest).1
  | lose i held unseen spent nobody => exact (Option.some_ne_none id).symm

theorem after_target_ne (lock : TargetLock) (id : RobotId) (sights : List Sight)
    (free : lock.target ≠ some id) (lacks : ∀ s ∈ sights, s.Lacks id) :
    (lock.after sights).target ≠ some id := by
  induction sights generalizing lock with
  | nil => exact free
  | cons s rest ih =>
      exact ih (lock.see s).2 (see_target_ne lock id s free (lacks s List.mem_cons_self))
        (fun t ht => lacks t (List.mem_cons_of_mem s ht))

theorem Drops.target_ne {lock : TargetLock} {id : RobotId} {s : Sight}
    {outcome : Selection × TargetLock} (h : Drops lock id s outcome) :
    outcome.2.target ≠ some id := by
  cases h with
  | exchange g seen plates other => exact fun hc => other (Option.some.inj hc)
  | lose nobody => exact (Option.some_ne_none id).symm

theorem Drops.not_coasting {lock : TargetLock} {id : RobotId} {s : Sight}
    {outcome : Selection × TargetLock} (h : Drops lock id s outcome) (ttl : Float) :
    outcome.1.event ≠ .coasting id ttl := by
  cases h with
  | exchange g seen plates other => exact LockEvent.noConfusion
  | lose nobody => exact LockEvent.noConfusion

/-- When the grace period does not last, one of the cycles drops the robot, and the cycles after
that do not bring it back. -/
theorem after_of_not_lasts (lock : TargetLock) (id : RobotId) (sights : List Sight)
    (held : lock.target = some id) (lacks : ∀ s ∈ sights, s.Lacks id)
    (ends : ¬ Lasts lock.ttl (sights.map Sight.dt)) :
    (lock.after sights).target ≠ some id ∧ ¬ Coasts id (lock.selections sights) := by
  induction sights generalizing lock with
  | nil => exact absurd (lasts_nil lock.ttl) ends
  | cons s rest ih =>
      have hlacks : ∀ t ∈ rest, t.Lacks id := fun t ht => lacks t (List.mem_cons_of_mem s ht)
      have hnext : lock.after (s :: rest) = (lock.see s).2.after rest := rfl
      rcases see_of_lacks lock id s held (lacks s List.mem_cons_self) with
        ⟨hnow, hsee⟩ | ⟨_, hdrops⟩
      · -- The grace period is not over yet, so it ends in the cycles that follow.
        have hrest : ¬ Lasts (lock.ttl - s.dt) (rest.map Sight.dt) := fun hc =>
          ends ((lasts_cons_iff lock.ttl s.dt (rest.map Sight.dt)).mpr ⟨hnow, hc⟩)
        rcases ih { lock with ttl := lock.ttl - s.dt } held hlacks hrest with ⟨hafter, hcoasts⟩
        refine ⟨?_, fun hc => hcoasts ?_⟩
        · rw [hnext, hsee]
          exact hafter
        · intro o ho
          refine hc o ?_
          rw [selections, hsee]
          exact List.mem_cons_of_mem _ ho
      · refine ⟨?_, fun hc => ?_⟩
        · rw [hnext]
          exact after_target_ne (lock.see s).2 id rest hdrops.target_ne hlacks
        · rcases (hc (lock.see s).1 List.mem_cons_self).1 with ⟨ttl, httl⟩
          exact hdrops.not_coasting ttl httl

/-- The lock coasts, and holds its robot, exactly as long as the grace period lasts. -/
theorem coasts_iff_lasts (lock : TargetLock) (id : RobotId) (sights : List Sight)
    (held : lock.target = some id) (lacks : ∀ s ∈ sights, s.Lacks id) :
    (Coasts id (lock.selections sights) ∧ (lock.after sights).target = some id) ↔
      Lasts lock.ttl (sights.map Sight.dt) := by
  constructor
  · rintro ⟨hcoasts, _⟩
    by_cases hlasts : Lasts lock.ttl (sights.map Sight.dt)
    · exact hlasts
    · exact absurd hcoasts (after_of_not_lasts lock id sights held lacks hlasts).2
  · intro hlasts
    rcases after_of_lasts lock id sights held lacks hlasts with ⟨hafter, hcoasts⟩
    refine ⟨hcoasts, ?_⟩
    rw [hafter]
    exact held

/-- The first cycle in which the grace period is over drops the robot. -/
theorem drops_of_spent (lock : TargetLock) (id : RobotId) (sights : List Sight) (s : Sight)
    (held : lock.target = some id) (lacks : ∀ t ∈ sights, t.Lacks id) (lack : s.Lacks id)
    (lasts : Lasts lock.ttl (sights.map Sight.dt))
    (spent : ¬ negligible < remaining lock.ttl ((sights ++ [s]).map Sight.dt)) :
    Drops (lock.after sights) id s ((lock.after sights).see s) := by
  rcases after_of_lasts lock id sights held lacks lasts with ⟨hafter, _⟩
  have hheld : (lock.after sights).target = some id := by
    rw [hafter]
    exact held
  have hrest : remaining lock.ttl ((sights ++ [s]).map Sight.dt) =
      (lock.after sights).ttl - s.dt := by
    rw [hafter, List.map_append, remaining_append]
    rfl
  rw [hrest] at spent
  rcases see_of_lacks (lock.after sights) id s hheld lack with ⟨hgrace, _⟩ | ⟨_, hdrops⟩
  · exact absurd hgrace spent
  · exact hdrops

theorem run_ttlMax (lock : TargetLock) (history : List LockStep) :
    (lock.run history).ttlMax = lock.ttlMax := by
  induction history generalizing lock with
  | nil => rfl
  | cons step rest ih =>
      -- The first step keeps the length, and the induction speaks of the lock after it.
      have hstep : (lock.step step).ttlMax = lock.ttlMax := by
        cases step with
        | update s => exact (see_cycle lock s).ttlMax_eq
        | release => rfl
      rw [← hstep]
      exact ih (lock.step step)

/-- A sighting sets the lock to the whole grace period, whatever came before. -/
theorem see_of_sights (lock : TargetLock) (id : RobotId) (s : Sight)
    (h : (lock.see s).1.event.Sights id) :
    (lock.see s).2 = ⟨lock.ttlMax, lock.ttlMax, some id⟩ := by
  have hcycle := see_cycle lock s
  generalize lock.see s = outcome at hcycle h
  rcases outcome with ⟨selection, after⟩
  -- The three rows that sight a robot refill the lock; no other row reports a sighting.
  cases hcycle with
  | take g _ nearest =>
      have hid : g.robot = id := h
      subst hid
      rfl
  | rest _ nobody => exact False.elim h
  | see i g held seen =>
      have hid : i = id := h
      subst hid
      rfl
  | wait i held unseen grace => exact False.elim h
  | exchange i g held unseen spent nearest =>
      have hid : g.robot = id := h
      subst hid
      rfl
  | lose i held unseen spent nobody => exact False.elim h

/-- A robot that is held after a cycle was seen in it, or it was held before and not in view. -/
theorem sights_or_held (lock : TargetLock) (id : RobotId) (s : Sight)
    (held : (lock.see s).2.target = some id) :
    (lock.see s).1.event.Sights id ∨ (lock.target = some id ∧ s.Lacks id) := by
  have hcycle := see_cycle lock s
  generalize lock.see s = outcome at hcycle held
  rcases outcome with ⟨selection, after⟩
  -- The lock ends on `id` in the rows that sight it and in the one that waits for it.
  cases hcycle with
  | take g _ nearest => exact Or.inl (Option.some.inj held)
  | rest free nobody => exact absurd (free.symm.trans held) (Option.some_ne_none id).symm
  | see i g held' seen => exact Or.inl (Option.some.inj held)
  | wait i held' unseen grace =>
      have hi : i = id := Option.some.inj (held'.symm.trans held)
      subst hi
      exact Or.inr ⟨held', unseen⟩
  | exchange i g held' unseen spent nearest => exact Or.inl (Option.some.inj held)
  | lose i held' unseen spent nobody => exact absurd held (Option.some_ne_none id).symm

/-- A held robot has a last sighting in the history of the lock, unless it was held from the start.
After it there are only cycles without the robot. -/
theorem run_held (lock : TargetLock) (history : List LockStep) (id : RobotId)
    (held : (lock.run history).target = some id) :
    (lock.target = some id ∧ ∃ absences : List Sight,
      history = absences.map LockStep.update ∧ ∀ s ∈ absences, s.Lacks id) ∨
    ∃ (past : List LockStep) (sighting : Sight) (absences : List Sight),
      history = past ++ .update sighting :: absences.map LockStep.update ∧
      ((lock.run past).see sighting).1.event.Sights id ∧ ∀ s ∈ absences, s.Lacks id := by
  induction history generalizing lock with
  | nil => exact Or.inl ⟨held, [], rfl, fun s hs => absurd hs List.not_mem_nil⟩
  | cons step rest ih =>
      rcases ih (lock.step step) held with
        ⟨htarget, absences, hrest, hlacks⟩ | ⟨past, sighting, absences, hrest, hsights, hlacks⟩
      · -- No sighting in the rest, so the first step is the last chance for one.
        cases step with
        | release => exact absurd htarget (Option.some_ne_none id).symm
        | update s =>
            rcases sights_or_held lock id s htarget with hsights | ⟨hheld, hs⟩
            · refine Or.inr ⟨[], s, absences, ?_, hsights, hlacks⟩
              rw [hrest]
              rfl
            · refine Or.inl ⟨hheld, s :: absences, ?_, fun t ht => ?_⟩
              · rw [hrest]
                rfl
              · rcases List.mem_cons.mp ht with rfl | ht
                · exact hs
                · exact hlacks t ht
      · refine Or.inr ⟨step :: past, sighting, absences, ?_, hsights, hlacks⟩
        rw [hrest]
        rfl

/-- The lock after a history that ends with a sighting and cycles without the robot. -/
theorem run_since_sighting (ttlMax : Float) (past : List LockStep) (sighting : Sight)
    (absences : List Sight) (id : RobotId)
    (hsights : (((new ttlMax).run past).see sighting).1.event.Sights id) :
    (new ttlMax).run (past ++ .update sighting :: absences.map LockStep.update) =
      (⟨ttlMax, ttlMax, some id⟩ : TargetLock).after absences := by
  have hlength : ((new ttlMax).run past).ttlMax = ttlMax := run_ttlMax (new ttlMax) past
  have hseen : (((new ttlMax).run past).see sighting).2 = ⟨ttlMax, ttlMax, some id⟩ := by
    rw [see_of_sights _ id sighting hsights, hlength]
  rw [run, List.foldl_append, List.foldl_cons, ← hseen]
  rfl

/-- A robot is held through its grace period and no longer. A lock that holds a robot has seen it
last in some cycle and has gone through cycles without it since; only the intervals since then
count, and the sighting has made the lock what it is whatever came before. However many cycles
without the robot follow, the lock coasts through all of them exactly when the grace period lasts
through all intervals since the sighting. In the cycle whose interval ends the grace period the lock
drops the robot, and in the same cycle it takes another one in view or reports the loss. -/
theorem coasts_until_grace_ends (ttlMax : Float) (history : List LockStep) (id : RobotId)
    (held : ((new ttlMax).run history).target = some id) :
    ∃ (past : List LockStep) (sighting : Sight) (absences : List Sight),
      history = past ++ .update sighting :: absences.map LockStep.update ∧
      (((new ttlMax).run past).see sighting).1.event.Sights id ∧
      (((new ttlMax).run past).see sighting).2 = ⟨ttlMax, ttlMax, some id⟩ ∧
      (∀ s ∈ absences, s.Lacks id) ∧
      ∀ sights : List Sight, (∀ s ∈ sights, s.Lacks id) →
        (Coasts id (((new ttlMax).run history).selections sights) ∧
            (((new ttlMax).run history).after sights).target = some id ↔
          Lasts ttlMax ((absences ++ sights).map Sight.dt)) ∧
        ∀ s : Sight, s.Lacks id → Lasts ttlMax ((absences ++ sights).map Sight.dt) →
          ¬ negligible < remaining ttlMax ((absences ++ sights ++ [s]).map Sight.dt) →
          Drops (((new ttlMax).run history).after sights) id s
            ((((new ttlMax).run history).after sights).see s) := by
  rcases run_held (new ttlMax) history id held with
    ⟨hfree, _⟩ | ⟨past, sighting, absences, hhistory, hsights, hlacks⟩
  · exact absurd hfree (Option.some_ne_none id).symm
  have hrun :
      (new ttlMax).run history = (⟨ttlMax, ttlMax, some id⟩ : TargetLock).after absences := by
    rw [hhistory]
    exact run_since_sighting ttlMax past sighting absences id hsights
  have hseen : (((new ttlMax).run past).see sighting).2 = ⟨ttlMax, ttlMax, some id⟩ := by
    rw [see_of_sights _ id sighting hsights, run_ttlMax]
    rfl
  -- The robot is still held, so the grace period has lasted through the cycles of the history.
  have hpast : Lasts ttlMax (absences.map Sight.dt) := by
    by_cases h : Lasts ttlMax (absences.map Sight.dt)
    · exact h
    · rw [hrun] at held
      exact absurd held (after_of_not_lasts ⟨ttlMax, ttlMax, some id⟩ id absences rfl hlacks h).1
  have hnow : (new ttlMax).run history =
      ⟨ttlMax, remaining ttlMax (absences.map Sight.dt), some id⟩ := by
    rw [hrun, (after_of_lasts ⟨ttlMax, ttlMax, some id⟩ id absences rfl hlacks hpast).1]
  -- What follows goes on from there, so both stretches together are one stretch.
  refine ⟨past, sighting, absences, hhistory, hsights, hseen, hlacks, fun sights hs => ⟨?_, ?_⟩⟩
  · rw [List.map_append, lasts_append, hnow, coasts_iff_lasts ⟨ttlMax, _, some id⟩ id sights rfl hs]
    exact ⟨fun h => ⟨hpast, h⟩, fun h => h.2⟩
  · intro s hlack hlasts hover
    rw [List.map_append, lasts_append] at hlasts
    rw [List.append_assoc, List.map_append, remaining_append] at hover
    rw [hnow]
    exact drops_of_spent ⟨ttlMax, _, some id⟩ id sights s rfl hs hlack hlasts.2 hover

/-- A lock that has seen robot 1, then missed it for 0.4 s, seen it again beside robot 2, and missed
it for 0.7 s since. Without the second sighting the grace period of one second would be over. -/
def missedTwice : List LockStep :=
  [.update ⟨[⟨⟨1⟩, [default]⟩], 0⟩, .update ⟨[⟨⟨2⟩, [default]⟩], 0.4⟩,
    .update ⟨[⟨⟨2⟩, [default]⟩, ⟨⟨1⟩, [default]⟩], 0.1⟩, .update ⟨[⟨⟨2⟩, [default]⟩], 0.7⟩]

theorem coasts_until_grace_ends_missedTwice :
    ((new 1).run missedTwice).target = some ⟨1⟩ ∧
    ∃ (past : List LockStep) (sighting : Sight) (absences : List Sight),
      missedTwice = past ++ .update sighting :: absences.map LockStep.update ∧
      (((new 1).run past).see sighting).1.event.Sights ⟨1⟩ ∧
      (((new 1).run past).see sighting).2 = ⟨1, 1, some ⟨1⟩⟩ ∧
      (∀ s ∈ absences, s.Lacks ⟨1⟩) ∧
      ∀ sights : List Sight, (∀ s ∈ sights, s.Lacks ⟨1⟩) →
        (Coasts ⟨1⟩ (((new 1).run missedTwice).selections sights) ∧
            (((new 1).run missedTwice).after sights).target = some ⟨1⟩ ↔
          Lasts 1 ((absences ++ sights).map Sight.dt)) ∧
        ∀ s : Sight, s.Lacks ⟨1⟩ → Lasts 1 ((absences ++ sights).map Sight.dt) →
          ¬ negligible < remaining 1 ((absences ++ sights ++ [s]).map Sight.dt) →
          Drops (((new 1).run missedTwice).after sights) ⟨1⟩ s
            ((((new 1).run missedTwice).after sights).see s) := by
  have held : ((new 1).run missedTwice).target = some ⟨1⟩ := by decide
  exact ⟨held, coasts_until_grace_ends 1 missedTwice ⟨1⟩ held⟩

end TargetLock

end FireControl
