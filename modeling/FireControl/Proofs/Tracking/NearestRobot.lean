import FireControl.Proofs.Numeric.Pattern
import FireControl.Proofs.Tracking.FirstAppearance
import FireControl.Proofs.Tracking.LockCycle

/-!
# Taking the Nearest Robot

A lock that is free, or comes free because the grace period of its robot is over, takes the robot
that is nearest. What nearest means is settled by the detections: the mean distance of a robot's
plates counts, the least one wins, and of robots that are equally near the one wins that was
detected first. Mean distances are compared in the total order of bit patterns. Where they are
numbers, that is the order of the numbers. A robot whose distance is NaN is nearer than all others
if the sign of the NaN is set, and farther than all others if it is not.

`Detection.Nearest` says this without groups and without a fold over them. At most one robot is
nearest, since the place of a first detection tells the robot. That one is there follows from the
fold: its winner is less than what stood before it and at most what came after it, and groups stand
in the order of the first detections.

## Main definitions

* `Detection.meanDistance`: The mean distance of the plates of a robot.
* `Detection.Nearest`: The nearest robot among detections.
* `TargetLock.Open`: A lock that may take a robot in a cycle.

## Theorems

* `number_meanDistance`: The mean distance as a number.
* `Nearest.unique`: At most one robot is nearest.
* `Nearest.not_lt`: No mean distance is a smaller number than that of the nearest robot.
* `nearest_of_split`: The nearest robot in the order of first detections.
* `nearest?_split`: The chosen group against those before and after it.
* `nearest?_ofDetections`: The chosen group is that of the nearest robot.
* `takes_nearest`: An open lock takes the nearest robot, and none if there is none.
-/

namespace FireControl

namespace Detection

/-- The bits of the mean distance of the plates of a robot among detections: their distances added
in order, divided by their number. -/
def meanDistance (id : RobotId) (ds : List Detection) : Pattern :=
  ((ofRobot id ds).map distance).foldl (· + ·) (.ofNumber 0) /
    .ofNumber (Float32.ofInteger (ofRobot id ds).length)

/-- The nearest robot among detections. Of robots that are equally near it is the one that was
detected first. -/
structure Nearest (ds : List Detection) (id : RobotId) : Prop where
  present : ∃ d ∈ ds, d.robot = id
  least : ∀ d ∈ ds, (meanDistance id ds).rank ≤ (meanDistance d.robot ds).rank
  first : ∀ d ∈ ds, (meanDistance d.robot ds).rank = (meanDistance id ds).rank →
    firstOf id ds ≤ firstOf d.robot ds

variable {ds : List Detection} {i j : RobotId}

/-- The distance of a plate is the Euclidean length of its position. -/
theorem number_distance (d : Detection) : d.distance.number = d.position.norm := by
  simp only [distance, Vec3Bits.norm, Pattern.number_sqrt, Pattern.number_add, Pattern.number_mul]
  rfl

/-- The mean distance as a number is the mean of the distances as numbers. -/
theorem number_meanDistance (id : RobotId) (ds : List Detection) :
    (meanDistance id ds).number =
      ((ofRobot id ds).map fun d => d.position.norm).foldl (· + ·) 0 /
        Float32.ofInteger (ofRobot id ds).length := by
  have hdistances : Pattern.number ∘ distance = fun d => d.position.norm := funext number_distance
  rw [meanDistance, Pattern.number_div, Pattern.number_foldl_add, List.map_map, hdistances,
    Pattern.number_ofNumber, Pattern.number_ofNumber]

theorem Nearest.least_of_present (h : Nearest ds i) (hj : ∃ d ∈ ds, d.robot = j) :
    (meanDistance i ds).rank ≤ (meanDistance j ds).rank := by
  rcases hj with ⟨d, hd, rfl⟩
  exact h.least d hd

theorem Nearest.first_of_present (h : Nearest ds i) (hj : ∃ d ∈ ds, d.robot = j)
    (heq : (meanDistance j ds).rank = (meanDistance i ds).rank) :
    firstOf i ds ≤ firstOf j ds := by
  rcases hj with ⟨d, hd, rfl⟩
  exact h.first d hd heq

theorem Nearest.unique (hi : Nearest ds i) (hj : Nearest ds j) : i = j := by
  have hij := hi.least_of_present hj.present
  have hji := hj.least_of_present hi.present
  -- Equally near robots stand in the order of their first detections, whichever comes first.
  have hfirst := hi.first_of_present hj.present (by omega)
  have hfirst' := hj.first_of_present hi.present (by omega)
  exact eq_of_firstOf_eq hi.present hj.present (by omega)

/-- No mean distance is a smaller number than that of the nearest robot. -/
theorem Nearest.not_lt (h : Nearest ds i) (hj : ∃ d ∈ ds, d.robot = j) :
    ¬ (meanDistance j ds).number < (meanDistance i ds).number :=
  fun hlt => absurd (Pattern.rank_lt_of_lt hlt) (Int.not_lt.mpr (h.least_of_present hj))

/-- Where robots are asked in the order of their first detections, the nearest is less far than
those before it and at most as far as those after it. -/
theorem nearest_of_split {earlier later : List RobotId} (hsplit : robots ds = earlier ++ i :: later)
    (hearlier : ∀ j ∈ earlier, (meanDistance i ds).rank < (meanDistance j ds).rank)
    (hlater : ∀ j ∈ later, (meanDistance i ds).rank ≤ (meanDistance j ds).rank) : Nearest ds i := by
  have hordered := robots_ordered ds
  rw [hsplit, List.pairwise_append, List.pairwise_cons] at hordered
  have hwhere (d : Detection) (hd : d ∈ ds) :
      d.robot ∈ earlier ∨ d.robot = i ∨ d.robot ∈ later := by
    have hrobot := (mem_robots_iff d.robot ds).mpr ⟨d, hd, rfl⟩
    rwa [hsplit, List.mem_append, List.mem_cons] at hrobot
  refine ⟨?_, ?_, ?_⟩
  · rw [← mem_robots_iff, hsplit]
    exact List.mem_append_right earlier List.mem_cons_self
  · intro d hd
    rcases hwhere d hd with h | h | h
    · exact Int.le_of_lt (hearlier d.robot h)
    · exact Int.le_of_eq (by rw [h])
    · exact hlater d.robot h
  · intro d hd heq
    rcases hwhere d hd with h | h | h
    · -- A robot before this one is farther, so it is not equally near.
      exact absurd heq.symm (Int.ne_of_lt (hearlier d.robot h))
    · exact Nat.le_of_eq (by rw [h])
    · exact Nat.le_of_lt (hordered.2.1.1 d.robot h)

end Detection

namespace Group

open Detection

theorem meanDistance_among {ds : List Detection} {id : RobotId} (h : ofRobot id ds ≠ []) :
    (among ds id).meanDistance = Detection.meanDistance id ds := by
  have hplates : (among ds id).armors.isEmpty = false := List.isEmpty_eq_false_iff.mpr h
  rw [meanDistance, hplates, if_neg Bool.false_ne_true, Detection.meanDistance, List.foldl_map]
  rfl

/-- Ranks put groups in order. -/
theorem rank_orders (groups : List Group) :
    Orders (fun h g => h.meanDistance.rank < g.meanDistance.rank) groups where
  asymm _ _ _ _ hlt := by omega
  trans _ _ _ _ _ _ hlt hnot := by omega

/-- Among groups that have plates the nearest one is less than those before it and at most those
after it. -/
theorem nearest?_split {gs : List Group} (hne : gs ≠ []) (hplates : ∀ g ∈ gs, g.armors ≠ []) :
    ∃ g before after, nearest? gs = some g ∧ gs = before ++ g :: after ∧
      (∀ h ∈ before, g.meanDistance.rank < h.meanDistance.rank) ∧
      ∀ h ∈ after, g.meanDistance.rank ≤ h.meanDistance.rank := by
  -- Every group has plates, so none is left out of the comparison.
  have hall : gs.filter (fun g => !g.armors.isEmpty) = gs := by
    rw [List.filter_eq_self]
    intro g hg
    simpa using hplates g hg
  cases gs with
  | nil => exact absurd rfl hne
  | cons first rest =>
      have hwinner := (rank_orders (first :: rest)).foldl_firstLeast
      change FirstLeast _ _ (rest.foldl nearer first) at hwinner
      rcases hwinner with ⟨before, after, hsplit, hbefore, hafter⟩
      exact ⟨_, before, after, by rw [nearest?, hall], hsplit, hbefore,
        fun h hh => Int.not_lt.mp (hafter h hh)⟩

/-- The group that is chosen among detections is that of the nearest robot. -/
theorem nearest?_ofDetections {ds : List Detection} (hne : ds ≠ []) :
    ∃ id, Nearest ds id ∧ nearest? (ofDetections ds) = some (among ds id) := by
  have hgroups : ∀ g ∈ (robots ds).map (among ds), g.armors ≠ [] := by
    intro g hg
    rcases List.mem_map.mp hg with ⟨id, hid, rfl⟩
    exact ofRobot_ne_nil hid
  have hsome : (robots ds).map (among ds) ≠ [] := by
    intro hempty
    rcases List.exists_mem_of_ne_nil ds hne with ⟨d, hd⟩
    have hmem := (mem_robots_iff d.robot ds).mpr ⟨d, hd, rfl⟩
    rw [List.map_eq_nil_iff.mp hempty] at hmem
    exact List.not_mem_nil hmem
  rw [ofDetections_eq_map]
  rcases nearest?_split hsome hgroups with ⟨g, before, after, hnearest, hsplit, hbefore, hafter⟩
  -- What is said of the groups before and after the winner is said of the robots there.
  rcases List.map_eq_append_iff.mp hsplit with ⟨earlier, tail, hrobots, rfl, htail⟩
  rcases List.map_eq_cons_iff.mp htail with ⟨id, later, rfl, rfl, rfl⟩
  have hmean (i : RobotId) (hi : i ∈ earlier ++ id :: later) :
      (among ds i).meanDistance = Detection.meanDistance i ds :=
    meanDistance_among (ofRobot_ne_nil (hrobots ▸ hi))
  have hid := hmean id (List.mem_append_right earlier List.mem_cons_self)
  refine ⟨id, nearest_of_split hrobots (fun i hi => ?_) (fun i hi => ?_), hnearest⟩
  · rw [← hid, ← hmean i (List.mem_append_left _ hi)]
    exact hbefore _ (List.mem_map_of_mem hi)
  · rw [← hid, ← hmean i (List.mem_append_right _ (List.mem_cons_of_mem id hi))]
    exact hafter _ (List.mem_map_of_mem hi)

end Group

namespace TargetLock

open Detection

/-- A lock that may take a robot in a cycle: it is free, or its robot is not among the detections
and the grace period ends. -/
def Open (lock : TargetLock) (ds : List Detection) (dt : Float) : Prop :=
  ∀ id, lock.target = some id → (∀ d ∈ ds, d.robot ≠ id) ∧ ¬ negligible < lock.ttl - dt

/-- An open lock with a robot in view takes the nearest, in place of its own robot if it has one. -/
theorem update_of_open {lock : TargetLock} {ds : List Detection} {dt : Float}
    (hopen : lock.Open ds dt) {g : Group} (hg : Group.nearest? (Group.ofDetections ds) = some g) :
    lock.update (Group.ofDetections ds) dt =
      (⟨.acquired g.robot lock.target, g.armors⟩, lock.hold g.robot) := by
  have hcycle := update_cycle lock (Group.ofDetections ds) dt
  generalize lock.update (Group.ofDetections ds) dt = outcome at hcycle ⊢
  rcases outcome with ⟨selection, after⟩
  cases hcycle with
  | take g' free nearest =>
      rw [nearest, Option.some_inj] at hg
      rw [hg, free]
      rfl
  | rest free nobody => exact absurd (nobody.symm.trans hg) (Option.some_ne_none g).symm
  | see id g' held seen =>
      -- A group of the held robot would hold a detection of it.
      have hid : g'.robot = id := by simpa only [decide_eq_true_eq] using List.find?_some seen
      rcases (Group.exists_mem_ofDetections_iff ds id).mp
        ⟨g', List.mem_of_find?_eq_some seen, hid⟩ with ⟨d, hd, hrobot⟩
      exact absurd hrobot ((hopen id held).1 d hd)
  | wait id held unseen grace => exact absurd grace (hopen id held).2
  | exchange id g' held unseen spent nearest =>
      rw [nearest, Option.some_inj] at hg
      rw [hg, held]
      rfl
  | lose id held unseen spent nobody =>
      exact absurd (nobody.symm.trans hg) (Option.some_ne_none g).symm

/-- An open lock without a robot in view is left without one. -/
theorem update_nil_of_open {lock : TargetLock} {dt : Float} (hopen : lock.Open [] dt) :
    (lock.update [] dt).1.armors = [] ∧ (lock.update [] dt).2.target = none := by
  have hcycle := update_cycle lock [] dt
  generalize lock.update [] dt = outcome at hcycle ⊢
  rcases outcome with ⟨selection, after⟩
  cases hcycle with
  | take g free nearest => exact absurd nearest (Option.some_ne_none g).symm
  | rest free nobody => exact ⟨rfl, free⟩
  | see id g held seen => exact absurd seen (Option.some_ne_none g).symm
  | wait id held unseen grace => exact absurd grace (hopen id held).2
  | exchange id g held unseen spent nearest => exact absurd nearest (Option.some_ne_none g).symm
  | lose id held unseen spent nobody => exact ⟨rfl, rfl⟩

/-- An open lock takes the nearest robot. If anything was detected, there is a nearest robot, and
the lock takes it, in place of the one that it gave up if it held one. It hands on the plates of
that robot in the order of the detections. If nothing was detected, it takes no robot and hands on
no plates. -/
theorem takes_nearest (lock : TargetLock) (ds : List Detection) (dt : Float)
    (hopen : lock.Open ds dt) :
    (ds ≠ [] → ∃ id, Nearest ds id) ∧
    (∀ id, Nearest ds id → lock.update (Group.ofDetections ds) dt =
      (⟨.acquired id lock.target, ofRobot id ds⟩, lock.hold id)) ∧
    (ds = [] → (lock.update (Group.ofDetections ds) dt).1.armors = [] ∧
      (lock.update (Group.ofDetections ds) dt).2.target = none) := by
  refine ⟨fun hne => ?_, fun id hid => ?_, fun hnil => ?_⟩
  · rcases Group.nearest?_ofDetections hne with ⟨id, hnearest, -⟩
    exact ⟨id, hnearest⟩
  · have hne : ds ≠ [] := by
      rcases hid.present with ⟨d, hd, -⟩
      exact List.ne_nil_of_mem hd
    rcases Group.nearest?_ofDetections hne with ⟨i, hi, hgroup⟩
    -- The nearest robot is unique, so the group found is that of `id`.
    rw [hid.unique hi]
    exact update_of_open hopen hgroup
  · subst hnil
    exact update_nil_of_open hopen

/-- Three robots. The distance of the first is a NaN with the given bits, the second and the third
are equally near, and the second was detected before the third and again after it. -/
def crowd (nan : Pattern) : List Detection :=
  let plate (id : UInt32) (z : Pattern) : Detection :=
    { (default : Detection) with robot := ⟨id⟩, place := ⟨.ofNumber 0, .ofNumber 0, z⟩ }
  [plate 4 nan, plate 2 (.ofNumber 5), plate 3 (.ofNumber 4), plate 2 (.ofNumber 3)]

/-- A lock whose grace period ends takes the second of the three robots if the sign of the NaN is
clear, and the first if it is set. -/
theorem takes_nearest_crowd :
    let lock : TargetLock := ⟨1, 0.5, some ⟨1⟩⟩
    let clear := crowd ⟨0x7FC00000⟩
    let set := crowd ⟨0xFFC00000⟩
    (lock.Open clear 0.5 ∧ Nearest clear ⟨2⟩ ∧
      (lock.update (Group.ofDetections clear) 0.5).1.event = .acquired ⟨2⟩ (some ⟨1⟩)) ∧
    (lock.Open set 0.5 ∧ Nearest set ⟨4⟩ ∧
      (lock.update (Group.ofDetections set) 0.5).1.event = .acquired ⟨4⟩ (some ⟨1⟩)) := by
  intro lock clear set
  -- The held robot is not seen and its grace period is spent, whichever NaN it is.
  have hopen (nan : Pattern) : lock.Open (crowd nan) 0.5 := by
    intro id hid
    have hid : id = ⟨1⟩ := (Option.some.inj hid).symm
    subst hid
    refine ⟨?_, by decide +kernel⟩
    simp [crowd]
  have hsecond : Nearest clear ⟨2⟩ :=
    ⟨by decide +kernel, by decide +kernel, by decide +kernel⟩
  have hfirst : Nearest set ⟨4⟩ :=
    ⟨by decide +kernel, by decide +kernel, by decide +kernel⟩
  refine ⟨⟨hopen _, hsecond, ?_⟩, ⟨hopen _, hfirst, ?_⟩⟩
  · rw [(takes_nearest lock clear 0.5 (hopen _)).2.1 ⟨2⟩ hsecond]
  · rw [(takes_nearest lock set 0.5 (hopen _)).2.1 ⟨4⟩ hfirst]

end TargetLock

end FireControl
