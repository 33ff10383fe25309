import FireControl.Proofs.Tracking.FirstAppearance
import Mathlib

/-!
# Grouping as a Stable Partition

What groups of detections have to be can be said without the filing that makes them. No two groups
are of one robot, and they stand in the order in which their robots are first detected. A robot has
a group exactly when it was detected, and the group holds the plates of that robot and no others, in
the order of the detections. All groups together hold each detection as often as it occurs, none
lost and none counted twice.

The last condition is seen best from the filing itself: a detection that is filed adds itself to the
plates of all groups together, whichever groups are there, and no other plate comes or goes. The
other conditions are read off the groups by robot.

Nothing is left open. The robots of any groups that satisfy these conditions are in the order of
first appearance, so two lists of groups that both satisfy them are the same.

## Main definitions

* `Group.plates`: The plates of all groups.
* `Group.StablePartition`: Groups that hold what was detected, by robot and in order.

## Theorems

* `plates_file`: Filing a detection adds it to the plates of all groups.
* `plates_ofDetections`: The plates of all groups are the detections.
* `StablePartition.map_robot`: The robots of a stable partition stand in order of first appearance.
* `grouping_stable`: Detections have one stable partition, and grouping makes it.
-/

namespace FireControl

namespace Group

open Detection

/-- The plates of all groups, one group after the other. -/
def plates (gs : List Group) : List Detection :=
  gs.flatMap armors

theorem length_plates (gs : List Group) :
    (plates gs).length = (gs.map fun g => g.armors.length).sum := by
  simp [plates, List.length_flatMap]

theorem plates_cons (g : Group) (gs : List Group) : plates (g :: gs) = g.armors ++ plates gs := by
  simp [plates]

/-- Groups that hold what was detected, by robot and in order. -/
structure StablePartition (ds : List Detection) (gs : List Group) : Prop where
  distinct : gs.Pairwise fun g h => g.robot ≠ h.robot
  ordered : gs.Pairwise fun g h => firstOf g.robot ds < firstOf h.robot ds
  nonempty : ∀ g ∈ gs, g.armors ≠ []
  contents : ∀ g ∈ gs, g.armors = ofRobot g.robot ds
  covered : ∀ id, (∃ g ∈ gs, g.robot = id) ↔ ∃ d ∈ ds, d.robot = id
  complete : (plates gs).Perm ds
  sizes : (gs.map fun g => g.armors.length).sum = ds.length

variable {ds : List Detection} {gs : List Group}

/-! ### Filing -/

/-- Filing a detection adds it to the plates of all groups, and no other plate comes or goes. -/
theorem plates_file (gs : List Group) (d : Detection) :
    (plates (file gs d)).Perm (plates gs ++ [d]) := by
  induction gs with
  | nil => simp [plates, file]
  | cons first rest ih =>
      by_cases hd : first.robot = d.robot
      · -- The plates of the later groups come behind the new one, which has to move past them.
        rw [file, if_pos hd, plates_cons, plates_cons, List.append_assoc, List.append_assoc]
        exact List.perm_append_comm.append_left first.armors
      · rw [file, if_neg hd, plates_cons, plates_cons, List.append_assoc]
        exact ih.append_left first.armors

/-- The plates of all groups are the detections, in another order. -/
theorem plates_ofDetections (ds : List Detection) : (plates (ofDetections ds)).Perm ds := by
  -- The detection at the end is filed last, into groups that hold all those before it.
  induction ds using List.reverseRecOn with
  | nil => simp [plates, ofDetections]
  | append_singleton ds d ih =>
      rw [ofDetections_append]
      exact (plates_file _ d).trans (ih.append_right [d])

/-! ### Groups by robot -/

theorem map_robot_ofDetections (ds : List Detection) :
    (ofDetections ds).map Group.robot = robots ds := by
  rw [ofDetections_eq_map, List.map_map]
  exact List.map_id' _

/-- Groups stand in the order of the first detections of their robots. -/
theorem ofDetections_ordered (ds : List Detection) :
    (ofDetections ds).Pairwise fun g h => firstOf g.robot ds < firstOf h.robot ds := by
  have hrobots := robots_ordered ds
  rwa [← map_robot_ofDetections, List.pairwise_map] at hrobots

theorem armors_of_mem {g : Group} (hg : g ∈ ofDetections ds) :
    g.armors = ofRobot g.robot ds := by
  rw [ofDetections_eq_map] at hg
  rcases List.mem_map.mp hg with ⟨id, -, rfl⟩
  rfl

/-- The robots of a stable partition stand in the order of first appearance. -/
theorem StablePartition.map_robot (h : StablePartition ds gs) :
    gs.map Group.robot = robots ds := by
  have hdistinct : (gs.map Group.robot).Nodup := List.pairwise_map.mpr h.distinct
  -- The same robots, and in the order of places of which no two are the same.
  have hperm : (gs.map Group.robot).Perm (robots ds) := by
    rw [List.perm_ext_iff_of_nodup hdistinct (robots_nodup ds)]
    intro id
    rw [List.mem_map, h.covered, mem_robots_iff]
  refine hperm.eq_of_pairwise ?_ (List.pairwise_map.mpr h.ordered) (robots_ordered ds)
  -- No two robots come each before the other.
  intro i j _ _ hij hji
  omega

/-- Two stable partitions of the same detections are the same. -/
theorem StablePartition.unique {hs : List Group} (hg : StablePartition ds gs)
    (hh : StablePartition ds hs) : gs = hs := by
  have hgroups {gs : List Group} (h : StablePartition ds gs) : gs = (robots ds).map (among ds) := by
    have hself : gs.map (fun g => among ds g.robot) = gs.map id := by
      apply List.map_congr_left
      intro g hmem
      rw [among, ← h.contents g hmem]
      rfl
    rw [List.map_id] at hself
    rw [← h.map_robot, List.map_map]
    exact hself.symm
  rw [hgroups hg, hgroups hh]

/-- Grouping makes a stable partition of the detections, and there is no other one: no two groups
are of one robot, they stand in the order of first detections, a robot has a group exactly when it
was detected, the group holds its plates in the order of the detections and has at least one, and
nothing is lost, added or changed. -/
theorem grouping_stable (ds : List Detection) :
    StablePartition ds (ofDetections ds) ∧
      ∀ gs, StablePartition ds gs → gs = ofDetections ds := by
  have hplates := plates_ofDetections ds
  have hordered := ofDetections_ordered ds
  -- Strictly ordered robots are distinct.
  have hdistinct : (ofDetections ds).Pairwise fun g h => g.robot ≠ h.robot := by
    apply hordered.imp
    intro g h hlt heq
    rw [heq] at hlt
    exact Nat.lt_irrefl _ hlt
  have hstable : StablePartition ds (ofDetections ds) :=
    { distinct := hdistinct
      ordered := hordered
      nonempty := fun g hg => (filed_of_mem_ofDetections ds g hg).nonempty
      contents := fun g hg => armors_of_mem hg
      covered := exists_mem_ofDetections_iff ds
      complete := hplates
      sizes := by rw [← length_plates, hplates.length_eq] }
  exact ⟨hstable, fun gs h => h.unique hstable⟩

end Group

end FireControl
