import FireControl.Proofs.Tracking.ResetDiscipline

/-!
# A Held Lock Looks at Its Own Robot Only

While the lock holds a robot, no other robot can influence what the tracker does, however many of
them are in view, however near they are and wherever their plates stand among the detections. Other
robots come into play only in the frame in which the grace period ends.

This is a statement about two runs. Both start with the same tracker, and each has a detection model
and frames of its own. The models may find whatever they like, as long as they find the same plates
of the robot that is held, and may find poses however they like, as long as each plate gets its pose
by itself. Then the two runs give the same reports and end with the same tracker.

The plates of the robot are followed through the frame. Refining drops and changes plates one by
one, so it works on the plates of each robot by themselves, and so does a pose for each plate.
Filing puts the plates of a robot into one group whatever stands between them. The lock looks the
group of its robot up, and nothing but that group and the rest of the grace period decides what it
does, unless the robot is out of sight and the grace period is over.

## Main definitions

* `Watch.ShowSame`: Two frames that show the same of a robot.
* `Watch.ShowSameThroughout`: Two runs of frames that do.

## Theorems

* `ofRobot_refine`, `ofRobot_map`: Refining and posing work on the plates of a robot by themselves.
* `update_eq_of_find?_eq`: A held lock looks at the group of its robot only.
* `Cycle.grace_of_not_dropped`: A robot that is not dropped was seen or had grace left.
* `observe_eq`: What is done with the plates of a frame depends on those of the held robot only.
* `next_eq`: Two frames that show the same of the held robot do the same.
* `others_do_not_interfere`: Other robots do not influence a held lock.
-/

namespace FireControl

namespace Detection

/-- Refining drops and changes plates one by one, so it works on the plates of a robot by
themselves. -/
theorem ofRobot_refine (id : RobotId) (width height : UInt32) (minConfidence : Float32)
    (ds : List Detection) :
    ofRobot id (refine width height minConfidence ds) =
      refine width height minConfidence (ofRobot id ds) := by
  unfold ofRobot refine
  rw [List.filter_map, List.filter_filter, List.filter_filter]
  congr 1
  -- Clamping keeps the robot, so both sides test the same two things, in either order.
  refine List.filter_congr (fun d _ => ?_)
  exact Bool.and_comm (decide (d.robot = id)) (decide (minConfidence ≤ d.confidence))

/-- A detection that is not doubtful is kept, with its corners inside the image. -/
theorem clampCorners_mem_refine (width height : UInt32) (minConfidence : Float32) (d : Detection)
    (ds : List Detection) (hd : d ∈ ds) (sure : minConfidence ≤ d.confidence) :
    clampCorners width height d ∈ refine width height minConfidence ds :=
  List.mem_map_of_mem (List.mem_filter.mpr ⟨hd, decide_eq_true sure⟩)

/-- A pose for each plate works on the plates of a robot by themselves. -/
theorem ofRobot_map (id : RobotId) (pose : Detection → Detection)
    (keeps : ∀ d, (pose d).robot = d.robot) (ds : List Detection) :
    ofRobot id (ds.map pose) = (ofRobot id ds).map pose := by
  unfold ofRobot
  rw [List.filter_map]
  congr 1
  refine List.filter_congr (fun d _ => ?_)
  rw [Function.comp_apply, keeps d]

end Detection

namespace TargetLock

/-- A held lock looks at the group of its robot only, as long as the robot is in view or there is
grace left. -/
theorem update_eq_of_find?_eq (lock : TargetLock) (gs hs : List Group) (dt : Float) (id : RobotId)
    (held : lock.target = some id)
    (same : gs.find? (fun g => g.robot = id) = hs.find? (fun g => g.robot = id))
    (stays : gs.find? (fun g => g.robot = id) ≠ none ∨ negligible < lock.ttl - dt) :
    lock.update gs dt = lock.update hs dt := by
  unfold update
  rw [held]
  simp only
  rw [← same]
  cases seen : gs.find? (fun g => g.robot = id) with
  | some g => rfl
  | none =>
      -- Out of sight, so there is grace left, and neither run looks at its groups.
      rcases stays with hseen | grace
      · exact absurd seen hseen
      · simp only [coast]
        rw [if_pos grace, if_pos grace]

/-- A robot that is not dropped was in view, or had grace left. -/
theorem Cycle.grace_of_not_dropped {lock after : TargetLock} {groups : List Group} {dt : Float}
    {selection : Selection} (h : Cycle lock groups dt selection after) (id : RobotId)
    (held : lock.target = some id) (kept : selection.event.dropped = none) :
    groups.find? (fun g => g.robot = id) ≠ none ∨ negligible < lock.ttl - dt := by
  -- In the rows that keep the robot it is seen or its grace period lasts.
  cases h with
  | take g free nearest => exact absurd (free.symm.trans held) (Option.some_ne_none id).symm
  | rest free nobody => exact absurd (free.symm.trans held) (Option.some_ne_none id).symm
  | see i g held' seen =>
      have hi : i = id := Option.some.inj (held'.symm.trans held)
      subst hi
      refine Or.inl ?_
      rw [seen]
      exact Option.some_ne_none g
  | wait i held' unseen grace => exact Or.inr grace
  | exchange i g held' unseen spent nearest => exact absurd kept (Option.some_ne_none i)
  | lose i held' unseen spent nobody => exact absurd kept (Option.some_ne_none i)

/-- A robot that is not dropped is held after the cycle. -/
theorem Cycle.held_of_not_dropped {lock after : TargetLock} {groups : List Group} {dt : Float}
    {selection : Selection} (h : Cycle lock groups dt selection after) (id : RobotId)
    (held : lock.target = some id) (kept : selection.event.dropped = none) :
    after.target = some id := by
  cases h with
  | take g free nearest => exact absurd (free.symm.trans held) (Option.some_ne_none id).symm
  | rest free nobody => exact held
  | see i g held' seen => exact held'.symm.trans held
  | wait i held' unseen grace => exact held
  | exchange i g held' unseen spent nearest => exact absurd kept (Option.some_ne_none i)
  | lose i held' unseen spent nobody => exact absurd kept (Option.some_ne_none i)

end TargetLock

namespace Tracker

/-- What is remembered of a robot has nothing to do with the lock. -/
theorem apply_lock (tracker : Tracker) (event : LockEvent) :
    (tracker.apply event).lock = tracker.lock := by
  cases event with
  | acquired id previous =>
      cases previous with
      | none => rfl
      | some dropped => rfl
  | tracking id => rfl
  | coasting id ttl => rfl
  | lost id => rfl
  | idle => rfl

/-- The plates of a frame with their poses, the doubtful ones dropped. -/
def posed {δ : Type} (detector : Detector δ) (tracker : Tracker) (model : δ) (frame : Frame) :
    List Detection :=
  let (found, seen) := detector.detect model frame
  (detector.estimatePose seen
    (Detection.refine frame.width frame.height tracker.minConfidence found)).1

/-- The posed plates of a robot come from its detections alone, where each plate gets its pose by
itself. -/
theorem ofRobot_posed {δ : Type} (detector : Detector δ) (tracker : Tracker) (model : δ)
    (frame : Frame) (id : RobotId) (pose : Detection → Detection)
    (keeps : ∀ d, (pose d).robot = d.robot)
    (poses : ∀ ds, (detector.estimatePose (detector.detect model frame).2 ds).1 = ds.map pose) :
    Detection.ofRobot id (tracker.posed detector model frame) =
      (Detection.refine frame.width frame.height tracker.minConfidence
        (Detection.ofRobot id (detector.detect model frame).1)).map pose := by
  change Detection.ofRobot id (detector.estimatePose (detector.detect model frame).2
    (Detection.refine frame.width frame.height tracker.minConfidence
      (detector.detect model frame).1)).1 = _
  rw [poses, Detection.ofRobot_map id pose keeps, Detection.ofRobot_refine]

variable [ElementaryFunctions]

theorem fuse_lock (tracker : Tracker) (armors : List Detection) (time : Instant) :
    (tracker.fuse armors time).2.lock = tracker.lock := by
  unfold fuse
  generalize tracker.fuser.fuse armors time = outcome
  rcases outcome with ⟨fused, fuser⟩
  cases fused with
  | none => rfl
  | some state =>
      simp only
      split
      · rfl
      · rfl

/-- The lock after a frame is what its cycle has made of it. -/
theorem observe_lock (tracker : Tracker) (time : Instant) (latest : Option Orientation)
    (ds : List Detection) :
    (tracker.observe time latest ds).2.lock =
      (tracker.lock.update (Group.ofDetections ds) (tracker.elapsed time)).2 :=
  (fuse_lock _ _ time).trans (apply_lock _ _)

/-- What is done with the plates of a frame depends on the plates of the held robot only. -/
theorem observe_eq (tracker : Tracker) (time : Instant) (latest : Option Orientation)
    (ds es : List Detection) (id : RobotId) (held : tracker.lock.target = some id)
    (same : Detection.ofRobot id ds = Detection.ofRobot id es)
    (stays : Detection.ofRobot id ds ≠ [] ∨
      (tracker.observe time latest ds).1.event.dropped = none) :
    tracker.observe time latest ds = tracker.observe time latest es := by
  -- Only two things are read of the frame: the held robot's group, and, where there is none,
  -- the grace period that is left.
  have hfind : (Group.ofDetections ds).find? (fun g => g.robot = id) =
      (Group.ofDetections es).find? (fun g => g.robot = id) := by
    rw [Group.find?_ofDetections, Group.find?_ofDetections, same]
  have hstays : (Group.ofDetections ds).find? (fun g => g.robot = id) ≠ none ∨
      TargetLock.negligible < tracker.lock.ttl - tracker.elapsed time := by
    rcases stays with hplates | hkept
    · refine Or.inl ?_
      rw [Group.find?_ofDetections, if_neg hplates]
      exact Option.some_ne_none _
    · exact (TargetLock.update_cycle tracker.lock (Group.ofDetections ds)
        (tracker.elapsed time)).grace_of_not_dropped id held hkept
  unfold observe
  rw [TargetLock.update_eq_of_find?_eq tracker.lock _ _ _ id held hfind hstays]

end Tracker

namespace Watch

variable {δ ε : Type}

/-- Two frames that show the same of the robot `id`. They are of one time, one size and one
orientation. Each detection model finds what it finds, but the plates of the robot are the same; and
each plate gets its pose by itself, in the same way in both. -/
structure ShowSame (left : Detector δ) (right : Detector ε) (id : RobotId) (a : Watch δ)
    (b : Watch ε) (v w : View) : Prop where
  time : v.frame.time = w.frame.time
  width : v.frame.width = w.frame.width
  height : v.frame.height = w.frame.height
  latest : v.latest = w.latest
  plates : Detection.ofRobot id (left.detect a.stage.model v.frame).1 =
    Detection.ofRobot id (right.detect b.stage.model w.frame).1
  poses : ∃ pose : Detection → Detection, (∀ d, (pose d).robot = d.robot) ∧
    (∀ ds, (left.estimatePose (left.detect a.stage.model v.frame).2 ds).1 = ds.map pose) ∧
    ∀ ds, (right.estimatePose (right.detect b.stage.model w.frame).2 ds).1 = ds.map pose

section TwoRuns

variable [ElementaryFunctions] (left : Detector δ) (right : Detector ε)

/-- Two runs of frames that show the same of the robot `id`, frame by frame. -/
inductive ShowSameThroughout (id : RobotId) :
    Watch δ → Watch ε → List View → List View → Prop
  | nil (a : Watch δ) (b : Watch ε) : ShowSameThroughout id a b [] []
  | cons (a : Watch δ) (b : Watch ε) (v w : View) (vs ws : List View)
      (now : ShowSame left right id a b v w)
      (later : ShowSameThroughout id (a.next left v).2 (b.next right w).2 vs ws) :
      ShowSameThroughout id a b (v :: vs) (w :: ws)

variable {left right} {id : RobotId} {a : Watch δ} {b : Watch ε}

/-- Two frames that show the same of the held robot do the same, as long as the robot is in view or
the frame does not drop it. -/
theorem next_eq (same : a.stage.tracker = b.stage.tracker)
    (held : a.stage.tracker.lock.target = some id) {v w : View}
    (shown : ShowSame left right id a b v w)
    (stays : (∃ d ∈ (left.detect a.stage.model v.frame).1,
        d.robot = id ∧ a.stage.tracker.minConfidence ≤ d.confidence) ∨
      (a.next left v).1.event.dropped = none) :
    (a.next left v).1 = (b.next right w).1 ∧
      (a.next left v).2.stage.tracker = (b.next right w).2.stage.tracker := by
  rcases shown.poses with ⟨pose, keeps, hleft, hright⟩
  have hown : Detection.ofRobot id (a.stage.tracker.posed left a.stage.model v.frame) =
      Detection.ofRobot id (a.stage.tracker.posed right b.stage.model w.frame) := by
    rw [Tracker.ofRobot_posed left _ _ _ id pose keeps hleft,
      Tracker.ofRobot_posed right _ _ _ id pose keeps hright, shown.plates, shown.width,
      shown.height]
  have hstays : Detection.ofRobot id (a.stage.tracker.posed left a.stage.model v.frame) ≠ [] ∨
      (a.next left v).1.event.dropped = none := by
    rcases stays with ⟨d, hfound, hid, hsure⟩ | hkept
    · -- A detection that is not doubtful leaves a plate of the robot.
      have hmem : d ∈ Detection.ofRobot id (left.detect a.stage.model v.frame).1 :=
        (Detection.mem_ofRobot_iff id d _).mpr ⟨hfound, hid⟩
      rw [Tracker.ofRobot_posed left _ _ _ id pose keeps hleft]
      exact Or.inl (List.ne_nil_of_mem (List.mem_map_of_mem
        (Detection.clampCorners_mem_refine _ _ _ d _ hmem hsure)))
    · exact Or.inr hkept
  have hobserve := Tracker.observe_eq a.stage.tracker v.frame.time v.latest _ _ id held hown hstays
  -- Both frames are observed at one time and in one orientation.
  have hright : b.stage.tracker.observe w.frame.time w.latest
        (b.stage.tracker.posed right b.stage.model w.frame) =
      a.stage.tracker.observe v.frame.time v.latest
        (a.stage.tracker.posed left a.stage.model v.frame) := by
    rw [hobserve, shown.time, shown.latest, same]
  exact ⟨(congrArg Prod.fst hright).symm, (congrArg Prod.snd hright).symm⟩

/-- A robot that a frame does not drop is held after it. -/
theorem next_held (held : a.stage.tracker.lock.target = some id) (v : View)
    (kept : (a.next left v).1.event.dropped = none) :
    (a.next left v).2.stage.tracker.lock.target = some id := by
  have hcycle := TargetLock.update_cycle a.stage.tracker.lock
    (Group.ofDetections (a.stage.tracker.posed left a.stage.model v.frame))
    (a.stage.tracker.elapsed v.frame.time)
  have hlock := Tracker.observe_lock a.stage.tracker v.frame.time v.latest
    (a.stage.tracker.posed left a.stage.model v.frame)
  exact (congrArg TargetLock.target hlock).trans (hcycle.held_of_not_dropped id held kept)

/-- Two runs of frames that show the same of the held robot do the same, as long as no frame drops
it. -/
theorem reports_eq {vs ws : List View} (shown : ShowSameThroughout left right id a b vs ws)
    (same : a.stage.tracker = b.stage.tracker) (held : a.stage.tracker.lock.target = some id)
    (kept : ∀ r ∈ a.reports left vs, r.event.dropped = none) :
    a.reports left vs = b.reports right ws ∧
      (a.run left vs).stage.tracker = (b.run right ws).stage.tracker := by
  induction shown with
  | nil a b => exact ⟨rfl, same⟩
  | cons a b v w vs ws now later ih =>
      have hnow : (a.next left v).1.event.dropped = none := kept _ List.mem_cons_self
      rcases next_eq same held now (Or.inr hnow) with ⟨hreport, htracker⟩
      rcases ih htracker (next_held held v hnow)
        (fun r hr => kept r (List.mem_cons_of_mem _ hr)) with ⟨hreports, hlast⟩
      refine ⟨?_, hlast⟩
      rw [reports, reports, hreport, hreports]

/-- Other robots do not influence a held lock. Take two runs that start with the same tracker, which
holds a robot, each with a detection model of its own. Two frames that show the same of that robot
give the same report and leave the same tracker, provided that at least one detection of the robot
is not doubtful or that the frame does not drop it. The same holds for runs of frames of any length
that show the same of the robot, as long as no frame drops it. -/
theorem others_do_not_interfere (left : Detector δ) (right : Detector ε) (id : RobotId)
    (a : Watch δ) (b : Watch ε) (same : a.stage.tracker = b.stage.tracker)
    (held : a.stage.tracker.lock.target = some id) :
    (∀ v w, ShowSame left right id a b v w →
      ((∃ d ∈ (left.detect a.stage.model v.frame).1,
          d.robot = id ∧ a.stage.tracker.minConfidence ≤ d.confidence) ∨
        (a.next left v).1.event.dropped = none) →
      (a.next left v).1 = (b.next right w).1 ∧
        (a.next left v).2.stage.tracker = (b.next right w).2.stage.tracker) ∧
    ∀ vs ws, ShowSameThroughout left right id a b vs ws →
      (∀ r ∈ a.reports left vs, r.event.dropped = none) →
      a.reports left vs = b.reports right ws ∧
        (a.run left vs).stage.tracker = (b.run right ws).stage.tracker :=
  ⟨fun _ _ shown stays => next_eq same held shown stays,
    fun _ _ shown kept => reports_eq shown same held kept⟩

end TwoRuns

/-- A plate of a robot straight ahead. -/
def plateAt (number : UInt32) (distance : Float32) : Detection :=
  { robot := ⟨number⟩, corners := default, confidence := 1, place := (Vec3.mk 0 0 distance).bits,
    yaw := 0 }

/-- A detection model that sees the given plates, and robot 1 behind them in every image that has
any width. -/
def seeing (others : List Detection) : Detector Unit where
  detect := fun _ frame => (others ++ if frame.width = 0 then [] else [plateAt 1 4], ())
  estimatePose := fun _ ds => (ds, ())

/-- An image taken after some milliseconds, in which robot 1 is seen or not. -/
def look (seen : Bool) (milliseconds : Nat) : View :=
  ⟨⟨⟨milliseconds * 1000000⟩, if seen then 640 else 0, 480, .empty⟩, none⟩

/-- A stage that has seen robot 1 and nothing else. -/
def metRobotOne : Watch Unit :=
  (@next _ .native (seeing []) (new default ()) (look true 0)).2

/-- Robot 1 alone, and robot 1 behind two nearer robots. -/
theorem others_do_not_interfere_crowd :
    metRobotOne.stage.tracker.lock.target = some ⟨1⟩ ∧
    @reports _ .native (seeing []) metRobotOne [look true 100, look false 500, look true 900] =
        @reports _ .native (seeing [plateAt 2 1, plateAt 3 2]) metRobotOne
          [look true 100, look false 500, look true 900] ∧
      (@run _ .native (seeing []) metRobotOne
          [look true 100, look false 500, look true 900]).stage.tracker =
        (@run _ .native (seeing [plateAt 2 1, plateAt 3 2]) metRobotOne
          [look true 100, look false 500, look true 900]).stage.tracker := by
  have held : metRobotOne.stage.tracker.lock.target = some ⟨1⟩ := by decide
  -- The two detectors differ in the plates of other robots only, and neither moves a plate.
  have shown : ∀ (a b : Watch Unit) (seen : Bool) (milliseconds : Nat),
      ShowSame (seeing []) (seeing [plateAt 2 1, plateAt 3 2]) ⟨1⟩ a b (look seen milliseconds)
        (look seen milliseconds) := by
    intro a b seen milliseconds
    refine ⟨rfl, rfl, rfl, rfl, ?_, id, fun d => rfl, fun ds => (List.map_id ds).symm,
      fun ds => (List.map_id ds).symm⟩
    cases seen with
    | true => rfl
    | false => rfl
  have throughout :
      @ShowSameThroughout _ _ .native (seeing []) (seeing [plateAt 2 1, plateAt 3 2]) ⟨1⟩
        metRobotOne metRobotOne [look true 100, look false 500, look true 900]
        [look true 100, look false 500, look true 900] := by
    let _ : ElementaryFunctions := .native
    exact .cons _ _ _ _ _ _ (shown _ _ true 100)
      (.cons _ _ _ _ _ _ (shown _ _ false 500) (.cons _ _ _ _ _ _ (shown _ _ true 900) (.nil _ _)))
  have kept : ∀ r ∈ @reports _ .native (seeing []) metRobotOne
      [look true 100, look false 500, look true 900], r.event.dropped = none := by
    decide +kernel
  exact ⟨held, (@others_do_not_interfere _ _ .native (seeing [])
    (seeing [plateAt 2 1, plateAt 3 2]) ⟨1⟩ metRobotOne metRobotOne rfl held).2 _ _ throughout kept⟩

end Watch

end FireControl
