import FireControl.Proofs.Tracking.FirstLeast
import FireControl.Tracking.Group

/-!
# Groups Hold What They Say

Filing detections one after the other keeps each group to its robot, so a list of groups that was
made from detections can be read in either direction: every group has plates, and all of them are of
the robot that the group names; and a robot has a group exactly when it was detected.

The group of a robot holds its plates and no others, in the order in which they were detected. How
many other robots there are, and where their plates stand among the detections, makes no difference
to it (`find?_ofDetections`).

Choosing the nearest group picks one of the groups and invents none. It fails only where no group
has plates, which for groups made from detections means that nothing was detected at all.

## Main definitions

* `Group.Filed`: A group that has plates, all of its own robot.
* `Detection.ofRobot`: The plates of one robot among detections.

## Theorems

* `file_filed`: Filing a detection keeps groups to their robots.
* `exists_mem_file_iff`: Filing a detection adds its robot and no other.
* `filed_of_mem_ofDetections`: Groups made from detections are filed.
* `exists_mem_ofDetections_iff`: A robot has a group exactly when it was detected.
* `find?_file_of_eq`, `find?_file_of_ne`: What filing a detection does to the group of a robot.
* `find?_ofDetections`: The group of a robot holds its plates in order.
* `nearest?_mem`: The nearest group is one of the groups, and it has plates.
* `nearest?_eq_none_iff`: There is no nearest group exactly when no group has plates.
-/

namespace FireControl

/-- The plates of one robot among detections, in order. -/
def Detection.ofRobot (id : RobotId) (ds : List Detection) : List Detection :=
  ds.filter fun d => d.robot = id

namespace Detection

theorem ofRobot_nil (id : RobotId) : ofRobot id [] = [] :=
  rfl

theorem ofRobot_cons_of_eq (id : RobotId) (d : Detection) (ds : List Detection)
    (h : d.robot = id) : ofRobot id (d :: ds) = d :: ofRobot id ds :=
  List.filter_cons_of_pos (decide_eq_true h)

theorem ofRobot_cons_of_ne (id : RobotId) (d : Detection) (ds : List Detection)
    (h : d.robot ≠ id) : ofRobot id (d :: ds) = ofRobot id ds :=
  List.filter_cons_of_neg (fun hc => h (of_decide_eq_true hc))

theorem mem_ofRobot_iff (id : RobotId) (d : Detection) (ds : List Detection) :
    d ∈ ofRobot id ds ↔ d ∈ ds ∧ d.robot = id := by
  rw [ofRobot, List.mem_filter, decide_eq_true_eq]

end Detection

namespace Group

/-- A group that has plates, all of them of the robot that it names. -/
structure Filed (g : Group) : Prop where
  nonempty : g.armors ≠ []
  robot : ∀ d ∈ g.armors, d.robot = g.robot

/-- Filing a detection keeps groups to their robots. -/
theorem file_filed (gs : List Group) (d : Detection) (hgs : ∀ g ∈ gs, g.Filed) :
    ∀ g ∈ file gs d, g.Filed := by
  induction gs with
  | nil =>
      intro g hg
      rw [file, List.mem_singleton] at hg
      subst hg
      exact ⟨List.cons_ne_nil d [], fun e he => by rw [List.mem_singleton.mp he]⟩
  | cons first rest ih =>
      have hfirst := hgs first List.mem_cons_self
      have hrest : ∀ g ∈ rest, g.Filed := fun g hg => hgs g (List.mem_cons_of_mem first hg)
      intro g hg
      -- The detection joins the first group, or it goes on to the rest.
      by_cases hd : first.robot = d.robot
      · rw [file, if_pos hd] at hg
        rcases List.mem_cons.mp hg with rfl | hg
        · refine ⟨List.append_ne_nil_of_right_ne_nil _ (List.cons_ne_nil d []), fun e he => ?_⟩
          rcases List.mem_append.mp he with he | he
          · exact hfirst.robot e he
          · rw [List.mem_singleton.mp he]
            exact hd.symm
        · exact hrest g hg
      · rw [file, if_neg hd] at hg
        rcases List.mem_cons.mp hg with rfl | hg
        · exact hfirst
        · exact ih hrest g hg

/-- Filing a detection adds its robot to the robots that have a group, and no other. -/
theorem exists_mem_file_iff (gs : List Group) (d : Detection) (id : RobotId) :
    (∃ g ∈ file gs d, g.robot = id) ↔ (∃ g ∈ gs, g.robot = id) ∨ d.robot = id := by
  induction gs with
  | nil =>
      constructor
      · rintro ⟨g, hg, hid⟩
        rw [file, List.mem_singleton] at hg
        subst hg
        exact Or.inr hid
      · rintro (⟨g, hg, _⟩ | hid)
        · exact absurd hg List.not_mem_nil
        · exact ⟨_, List.mem_singleton.mpr rfl, hid⟩
  | cons first rest ih =>
      -- Filing adds to the group of the robot or goes on behind it; a new group comes last.
      by_cases hd : first.robot = d.robot
      · rw [file, if_pos hd]
        simp only [List.mem_cons, exists_eq_or_imp]
        constructor
        · exact Or.inl
        · rintro (h | hid)
          · exact h
          · exact Or.inl (hd.trans hid)
      · rw [file, if_neg hd]
        simp only [List.mem_cons, exists_eq_or_imp, ih, or_assoc]

/-- The groups that a list of detections is filed into, on top of groups that are there. -/
theorem foldl_file_filed (ds : List Detection) (gs : List Group) (hgs : ∀ g ∈ gs, g.Filed) :
    ∀ g ∈ ds.foldl file gs, g.Filed := by
  induction ds generalizing gs with
  | nil => exact hgs
  | cons d rest ih => exact ih (file gs d) (file_filed gs d hgs)

theorem exists_mem_foldl_file_iff (ds : List Detection) (gs : List Group) (id : RobotId) :
    (∃ g ∈ ds.foldl file gs, g.robot = id) ↔
      (∃ g ∈ gs, g.robot = id) ∨ ∃ d ∈ ds, d.robot = id := by
  induction ds generalizing gs with
  | nil => simp only [List.foldl_nil, List.not_mem_nil, false_and, exists_false, or_false]
  | cons d rest ih =>
      rw [List.foldl_cons, ih (file gs d), exists_mem_file_iff]
      simp only [List.mem_cons, exists_eq_or_imp, or_assoc]

theorem filed_of_mem_ofDetections (ds : List Detection) (g : Group) (hg : g ∈ ofDetections ds) :
    g.Filed :=
  foldl_file_filed ds [] (fun _ h => absurd h List.not_mem_nil) g hg

/-- A robot has a group exactly when it was detected. -/
theorem exists_mem_ofDetections_iff (ds : List Detection) (id : RobotId) :
    (∃ g ∈ ofDetections ds, g.robot = id) ↔ ∃ d ∈ ds, d.robot = id := by
  rw [ofDetections, exists_mem_foldl_file_iff]
  simp only [List.not_mem_nil, false_and, exists_false, false_or]

theorem find?_cons_of_eq (g : Group) (gs : List Group) (id : RobotId) (h : g.robot = id) :
    (g :: gs).find? (fun g => g.robot = id) = some g :=
  List.find?_cons_of_pos (decide_eq_true h)

theorem find?_cons_of_ne (g : Group) (gs : List Group) (id : RobotId) (h : g.robot ≠ id) :
    (g :: gs).find? (fun g => g.robot = id) = gs.find? (fun g => g.robot = id) :=
  List.find?_cons_of_neg (fun hc => h (of_decide_eq_true hc))

/-- A detection of a robot joins its group, or opens one for it. -/
theorem find?_file_of_eq (gs : List Group) (d : Detection) (id : RobotId) (hid : d.robot = id) :
    (file gs d).find? (fun g => g.robot = id) =
      some (match gs.find? (fun g => g.robot = id) with
        | some g => { g with armors := g.armors ++ [d] }
        | none => ⟨id, [d]⟩) := by
  subst hid
  induction gs with
  | nil => exact find?_cons_of_eq ⟨d.robot, [d]⟩ [] d.robot rfl
  | cons first rest ih =>
      by_cases hd : first.robot = d.robot
      · rw [file, if_pos hd, find?_cons_of_eq first rest d.robot hd]
        exact find?_cons_of_eq { first with armors := first.armors ++ [d] } rest d.robot hd
      · rw [file, if_neg hd, find?_cons_of_ne first _ d.robot hd,
          find?_cons_of_ne first _ d.robot hd, ih]

/-- A detection of another robot leaves the group of a robot alone. -/
theorem find?_file_of_ne (gs : List Group) (d : Detection) (id : RobotId) (hid : d.robot ≠ id) :
    (file gs d).find? (fun g => g.robot = id) = gs.find? (fun g => g.robot = id) := by
  induction gs with
  | nil => exact find?_cons_of_ne ⟨d.robot, [d]⟩ [] id hid
  | cons first rest ih =>
      by_cases hd : first.robot = d.robot
      · -- The group that the detection joins is not the one that is looked for.
        have hfirst : first.robot ≠ id := fun hc => hid (hd.symm.trans hc)
        rw [file, if_pos hd, find?_cons_of_ne first rest id hfirst]
        exact find?_cons_of_ne { first with armors := first.armors ++ [d] } rest id hfirst
      · rw [file, if_neg hd]
        by_cases hfirst : first.robot = id
        · rw [find?_cons_of_eq first _ id hfirst, find?_cons_of_eq first _ id hfirst]
        · rw [find?_cons_of_ne first _ id hfirst, find?_cons_of_ne first _ id hfirst, ih]

/-- A group that is there takes the plates of its robot at its end. -/
theorem find?_foldl_file_of_some (ds : List Detection) (gs : List Group) (id : RobotId) (g : Group)
    (h : gs.find? (fun g => g.robot = id) = some g) :
    (ds.foldl file gs).find? (fun g => g.robot = id) =
      some { g with armors := g.armors ++ Detection.ofRobot id ds } := by
  induction ds generalizing gs g with
  | nil => rw [List.foldl_nil, h, Detection.ofRobot_nil, List.append_nil]
  | cons d rest ih =>
      rw [List.foldl_cons]
      -- Only the plates of `id` reach its group, in the order in which they are filed.
      by_cases hd : d.robot = id
      · have hnext := find?_file_of_eq gs d id hd
        rw [h] at hnext
        rw [ih (file gs d) _ hnext, Detection.ofRobot_cons_of_eq id d rest hd, List.append_assoc]
        rfl
      · have hnext := find?_file_of_ne gs d id hd
        rw [h] at hnext
        rw [ih (file gs d) g hnext, Detection.ofRobot_cons_of_ne id d rest hd]

/-- The group of a robot holds its plates in the order of the detections. A robot without plates has
no group. -/
theorem find?_ofDetections (ds : List Detection) (id : RobotId) :
    (ofDetections ds).find? (fun g => g.robot = id) =
      if Detection.ofRobot id ds = [] then none else some ⟨id, Detection.ofRobot id ds⟩ := by
  -- Until the first plate of the robot comes there is no group, and that plate opens one.
  suffices h : ∀ gs : List Group, gs.find? (fun g => g.robot = id) = none →
      (ds.foldl file gs).find? (fun g => g.robot = id) =
        if Detection.ofRobot id ds = [] then none else some ⟨id, Detection.ofRobot id ds⟩ from
    h [] rfl
  intro gs hgs
  induction ds generalizing gs with
  | nil => exact hgs
  | cons d rest ih =>
      rw [List.foldl_cons]
      by_cases hd : d.robot = id
      · have hnext := find?_file_of_eq gs d id hd
        rw [hgs] at hnext
        rw [find?_foldl_file_of_some rest (file gs d) id _ hnext,
          Detection.ofRobot_cons_of_eq id d rest hd, if_neg (List.cons_ne_nil d _)]
        rfl
      · have hnext := find?_file_of_ne gs d id hd
        rw [hgs] at hnext
        rw [ih (file gs d) hnext, Detection.ofRobot_cons_of_ne id d rest hd]

/-- A group that two groups are compared to is one of the two. -/
theorem nearer_eq_or_eq (g h : Group) : nearer g h = g ∨ nearer g h = h := by
  unfold nearer
  by_cases hr : h.meanDistance.rank < g.meanDistance.rank
  · exact Or.inr (if_pos hr)
  · exact Or.inl (if_neg hr)

/-- The nearest group is one of the groups, and it has plates. -/
theorem nearest?_mem (gs : List Group) (g : Group) (h : nearest? gs = some g) :
    g ∈ gs ∧ g.armors ≠ [] := by
  unfold nearest? at h
  cases hf : gs.filter (fun g => !g.armors.isEmpty) with
  | nil =>
      rw [hf] at h
      exact absurd h (by simp only [reduceCtorEq, not_false_eq_true])
  | cons first rest =>
      rw [hf] at h
      have hmem : g ∈ gs.filter (fun g => !g.armors.isEmpty) := by
        rw [hf, ← Option.some.inj h]
        -- The nearest is one of the groups that are compared, and those have plates.
        exact foldl_mem nearer_eq_or_eq rest first
      rcases List.mem_filter.mp hmem with ⟨hg, hplates⟩
      refine ⟨hg, fun hempty => ?_⟩
      rw [hempty] at hplates
      exact absurd hplates (by decide)

/-- There is no nearest group exactly when no group has plates. -/
theorem nearest?_eq_none_iff (gs : List Group) :
    nearest? gs = none ↔ ∀ g ∈ gs, g.armors = [] := by
  unfold nearest?
  cases hf : gs.filter (fun g => !g.armors.isEmpty) with
  | nil =>
      simp only [true_iff]
      intro g hg
      have hnot := List.filter_eq_nil_iff.mp hf g hg
      simpa only [Bool.not_eq_true', Bool.not_eq_false, List.isEmpty_iff] using hnot
  | cons first rest =>
      simp only [reduceCtorEq, false_iff]
      intro hall
      have hfirst : first ∈ gs.filter (fun g => !g.armors.isEmpty) := by
        rw [hf]
        exact List.mem_cons_self
      rcases List.mem_filter.mp hfirst with ⟨hmem, hplates⟩
      rw [hall first hmem] at hplates
      exact absurd hplates (by decide)

end Group

end FireControl
