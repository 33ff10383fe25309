import FireControl.Proofs.Tracking.Group
import Mathlib.Data.List.Induction

/-!
# Groups in the Order of First Appearance

Detections are filed one after the other, and each either joins a group that is there or opens one
at the end. What comes out can be said without the filing: the robots in the order in which they
first appear, each with its plates (`ofDetections_eq_map`). So a list of detections and the list of
its groups say the same about which robot comes before which.

The order is that of the places at which the robots are first detected, and a place tells the robot
that stands there, so no two robots share one.

All inductions are on the end of the list, because that is where a detection arrives: what was filed
before it does not change, except for the group that it joins.

## Main definitions

* `Detection.robots`: The robots among detections in the order of first appearance.
* `Detection.firstOf`: The place of the first detection of a robot.
* `Group.among`: The group of a robot among detections.

## Theorems

* `robots_append_of_mem`, `robots_append_of_not_mem`: A detection brings a robot or does not.
* `robots_ordered`: The robots stand in the order of their first detections.
* `eq_of_firstOf_eq`: A first detection is that of one robot.
* `ofDetections_eq_map`: The groups are those of the robots in order of first appearance.
-/

namespace FireControl

namespace Detection

/-- The robots among detections, in the order of first appearance. -/
def robots (ds : List Detection) : List RobotId :=
  (ds.map Detection.robot).eraseDups

/-- The place of the first detection of a robot. -/
def firstOf (id : RobotId) (ds : List Detection) : ℕ :=
  ds.findIdx fun d => d.robot = id

theorem mem_robots_iff (id : RobotId) (ds : List Detection) :
    id ∈ robots ds ↔ ∃ d ∈ ds, d.robot = id := by
  rw [robots, List.mem_eraseDups, List.mem_map]

/-- A detection at the end brings its robot, unless the robot is there. -/
theorem robots_append (ds : List Detection) (d : Detection) :
    robots (ds ++ [d]) = robots ds ++ ([d.robot].removeAll (ds.map Detection.robot)).eraseDups := by
  rw [robots, List.map_append, List.map_singleton, List.eraseDups_append, ← robots]

theorem robots_append_of_mem {ds : List Detection} {d : Detection} (h : d.robot ∈ robots ds) :
    robots (ds ++ [d]) = robots ds := by
  rw [mem_robots_iff] at h
  simp [robots_append, List.removeAll, h]

theorem robots_append_of_not_mem {ds : List Detection} {d : Detection} (h : d.robot ∉ robots ds) :
    robots (ds ++ [d]) = robots ds ++ [d.robot] := by
  rw [mem_robots_iff] at h
  simp [robots_append, List.removeAll, h, List.eraseDups_cons]

theorem firstOf_lt_length {id : RobotId} {ds : List Detection} (h : ∃ d ∈ ds, d.robot = id) :
    firstOf id ds < ds.length := by
  rcases h with ⟨d, hd, hid⟩
  exact List.findIdx_lt_length_of_exists ⟨d, hd, decide_eq_true hid⟩

theorem robot_firstOf {id : RobotId} {ds : List Detection} (h : firstOf id ds < ds.length) :
    (ds[firstOf id ds]).robot = id := by
  have hfound := List.findIdx_getElem (p := fun d : Detection => decide (d.robot = id)) (w := h)
  exact of_decide_eq_true hfound

theorem eq_of_firstOf_eq {i j : RobotId} {ds : List Detection} (hi : ∃ d ∈ ds, d.robot = i)
    (hj : ∃ d ∈ ds, d.robot = j) (h : firstOf i ds = firstOf j ds) : i = j := by
  rw [← robot_firstOf (firstOf_lt_length hi), ← robot_firstOf (firstOf_lt_length hj)]
  simp only [h]

/-- A detection at the end is not the first one of a robot that was there. -/
theorem firstOf_append_of_mem {id : RobotId} {ds : List Detection} (d : Detection)
    (h : ∃ e ∈ ds, e.robot = id) : firstOf id (ds ++ [d]) = firstOf id ds := by
  have hlt := firstOf_lt_length h
  unfold firstOf at hlt ⊢
  rw [List.findIdx_append, if_pos hlt]

theorem firstOf_append_of_not_mem {ds : List Detection} {d : Detection}
    (h : ¬ ∃ e ∈ ds, e.robot = d.robot) : firstOf d.robot (ds ++ [d]) = ds.length := by
  have hnone : ds.findIdx (fun e => e.robot = d.robot) = ds.length := by
    apply List.findIdx_eq_length_of_false
    intro e he
    exact decide_eq_false fun hc => h ⟨e, he, hc⟩
  unfold firstOf
  simp [List.findIdx_append, hnone]

/-- The robots stand in the order of their first detections. -/
theorem robots_ordered (ds : List Detection) :
    (robots ds).Pairwise fun i j => firstOf i ds < firstOf j ds := by
  induction ds using List.reverseRecOn with
  | nil => exact List.Pairwise.nil
  | append_singleton ds d ih =>
      have hkept : (robots ds).Pairwise fun i j =>
          firstOf i (ds ++ [d]) < firstOf j (ds ++ [d]) := by
        refine ih.imp_of_mem ?_
        intro i j hi hj hlt
        rwa [firstOf_append_of_mem d ((mem_robots_iff i ds).mp hi),
          firstOf_append_of_mem d ((mem_robots_iff j ds).mp hj)]
      by_cases hd : d.robot ∈ robots ds
      · rwa [robots_append_of_mem hd]
      · -- A robot that is new comes last, and all others are first detected before.
        rw [robots_append_of_not_mem hd, List.pairwise_append]
        refine ⟨hkept, List.pairwise_singleton _ _, ?_⟩
        intro i hi j hj
        rw [mem_robots_iff] at hi hd
        rw [List.mem_singleton.mp hj, firstOf_append_of_mem d hi, firstOf_append_of_not_mem hd]
        exact firstOf_lt_length hi

theorem robots_nodup (ds : List Detection) : (robots ds).Nodup :=
  (robots_ordered ds).imp fun hlt heq => absurd (heq ▸ hlt) (Nat.lt_irrefl _)

theorem ofRobot_append_of_eq {ds : List Detection} {d : Detection} {id : RobotId}
    (h : d.robot = id) : ofRobot id (ds ++ [d]) = ofRobot id ds ++ [d] := by
  rw [ofRobot, List.filter_append, ← ofRobot, ← ofRobot, ofRobot_cons_of_eq id d [] h, ofRobot_nil]

theorem ofRobot_append_of_ne {ds : List Detection} {d : Detection} {id : RobotId}
    (h : d.robot ≠ id) : ofRobot id (ds ++ [d]) = ofRobot id ds := by
  rw [ofRobot, List.filter_append, ← ofRobot, ← ofRobot, ofRobot_cons_of_ne id d [] h, ofRobot_nil,
    List.append_nil]

theorem ofRobot_eq_nil {ds : List Detection} {id : RobotId} (h : id ∉ robots ds) :
    ofRobot id ds = [] := by
  rw [mem_robots_iff] at h
  rw [List.eq_nil_iff_forall_not_mem]
  intro d hd
  exact h ⟨d, (mem_ofRobot_iff id d ds).mp hd⟩

theorem ofRobot_ne_nil {ds : List Detection} {id : RobotId} (h : id ∈ robots ds) :
    ofRobot id ds ≠ [] := by
  rcases (mem_robots_iff id ds).mp h with ⟨d, hd, hid⟩
  exact List.ne_nil_of_mem ((mem_ofRobot_iff id d ds).mpr ⟨hd, hid⟩)

end Detection

namespace Group

open Detection

/-- The group of a robot among detections. -/
def among (ds : List Detection) (id : RobotId) : Group :=
  ⟨id, ofRobot id ds⟩

theorem among_append_of_ne {ds : List Detection} {d : Detection} {id : RobotId}
    (h : d.robot ≠ id) : among (ds ++ [d]) id = among ds id := by
  rw [among, among, ofRobot_append_of_ne h]

/-- The groups of robots that a detection does not belong to stay as they are. -/
theorem map_among_append {ids : List RobotId} (ds : List Detection) {d : Detection}
    (h : d.robot ∉ ids) : ids.map (among (ds ++ [d])) = ids.map (among ds) := by
  apply List.map_congr_left
  intro id hid
  exact among_append_of_ne fun hc => h (hc ▸ hid)

/-- A detection joins the group of its robot. -/
theorem file_map_among_of_mem {ids : List RobotId} (hnodup : ids.Nodup) (ds : List Detection)
    {d : Detection} (h : d.robot ∈ ids) :
    file (ids.map (among ds)) d = ids.map (among (ds ++ [d])) := by
  induction ids with
  | nil => exact absurd h List.not_mem_nil
  | cons id rest ih =>
      rcases List.nodup_cons.mp hnodup with ⟨hid, hrest⟩
      rw [List.map_cons, List.map_cons]
      by_cases hd : id = d.robot
      · -- The other groups are those of other robots.
        have hother : d.robot ∉ rest := hd ▸ hid
        have hgroup : among (ds ++ [d]) id = ⟨id, ofRobot id ds ++ [d]⟩ := by
          rw [among, ofRobot_append_of_eq hd.symm]
        rw [map_among_append ds hother, hgroup]
        exact if_pos hd
      · have hmem : d.robot ∈ rest := (List.mem_cons.mp h).resolve_left (Ne.symm hd)
        rw [among_append_of_ne (Ne.symm hd), ← ih hrest hmem]
        exact if_neg hd

/-- A detection of a robot without a group opens one at the end. -/
theorem file_map_among_of_not_mem {ids : List RobotId} {ds : List Detection} {d : Detection}
    (hnew : d.robot ∉ robots ds) (h : d.robot ∉ ids) :
    file (ids.map (among ds)) d = (ids ++ [d.robot]).map (among (ds ++ [d])) := by
  -- No group is the robot's, so `d` passes all of them by and founds a new one at the end.
  induction ids with
  | nil =>
      rw [List.map_nil, file, List.nil_append, List.map_singleton, among,
        ofRobot_append_of_eq rfl, ofRobot_eq_nil hnew, List.nil_append]
  | cons id rest ih =>
      have hid : d.robot ≠ id := fun hc => h (hc ▸ List.mem_cons_self)
      have hrest : d.robot ∉ rest := fun hc => h (List.mem_cons_of_mem id hc)
      rw [List.map_cons, List.cons_append, List.map_cons, among_append_of_ne hid, ← ih hrest]
      exact if_neg (Ne.symm hid)

/-- The last detection is filed into the groups of those before it. -/
theorem ofDetections_append (ds : List Detection) (d : Detection) :
    ofDetections (ds ++ [d]) = file (ofDetections ds) d := by
  simp [ofDetections]

/-- The groups are those of the robots in the order of first appearance. -/
theorem ofDetections_eq_map (ds : List Detection) :
    ofDetections ds = (robots ds).map (among ds) := by
  induction ds using List.reverseRecOn with
  | nil => rfl
  | append_singleton ds d ih =>
      rw [ofDetections_append, ih]
      by_cases hd : d.robot ∈ robots ds
      · rw [robots_append_of_mem hd, file_map_among_of_mem (robots_nodup ds) ds hd]
      · rw [robots_append_of_not_mem hd, file_map_among_of_not_mem hd hd]

end Group

end FireControl
