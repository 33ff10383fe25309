import FireControl.Proofs.Tracking.FusedState
import Mathlib.Data.List.Induction

/-!
# Coasting

A frame without plates, or with more than two, teaches a fuser nothing. It is answered with the last
state at the time of the frame, and nothing is kept of it. So such frames can be left out of the
calls to a fuser, and no other call is answered differently.

What fusion finds out about a robot is its place, its heading and its number. All else is assumed
when the robot is first seen and carried along from state to state: both radii, and that nothing
moves. `Fuser.Knows` puts this together with what the fuser remembers. It holds after every sequence
of calls, since every call keeps it.

## Main definitions

* `FuserCall`, `Fuser.after`, `Fuser.answers`: What a fuser can be told, and what comes of it.
* `FuserCall.Coasts`: A frame from which nothing can be fused.
* `Fuser.lastFused`: The answer to the last call that was not such a frame.
* `RobotState.Resting`: A state of which only place and heading are known.
* `Fuser.Knows`: What a fuser knows after a sequence of calls.

## Theorems

* `fuse_coasts`, `fuse_learns`: The two ways of a frame.
* `knows_call`, `knows_after`: Every call, and so every sequence of calls, keeps what is known.
* `answers_eraseIdx`: A frame that coasts can be left out.
* `coasting_changes_nothing`: What holds of the answers to every sequence of calls.
-/

namespace FireControl

/-- What a fuser can be told. -/
inductive FuserCall where
  /-- To fuse the plates of a frame. -/
  | fuse (armors : List Detection) (time : Instant)
  /-- To forget the robot. -/
  | clear
deriving DecidableEq

namespace FuserCall

/-- A frame from which nothing can be fused: it has no plate, or more than two. -/
def Coasts : FuserCall → Prop
  | fuse armors _ => armors.length = 0 ∨ 2 < armors.length
  | clear => False

instance : DecidablePred Coasts
  | fuse armors _ => inferInstanceAs (Decidable (armors.length = 0 ∨ 2 < armors.length))
  | clear => inferInstanceAs (Decidable False)

/-- The plate that a call fuses last. -/
def plate? : FuserCall → Option Detection
  | fuse armors _ => if armors.length = 0 ∨ 2 < armors.length then none else armors.getLast?
  | clear => none

/-- The plate that was fused last in a sequence of calls. -/
def lastPlate (calls : List FuserCall) : Option Detection :=
  calls.reverse.findSome? plate?

theorem lastPlate_append (calls : List FuserCall) (call : FuserCall) :
    lastPlate (calls ++ [call]) = call.plate?.or (lastPlate calls) := by
  simp only [lastPlate, List.reverse_append, List.reverse_singleton, List.singleton_append,
    List.findSome?_cons]
  cases call.plate? with
  | none => rfl
  | some plate => rfl

end FuserCall

/-- A state of which only place and heading are known: both radii are assumed, nothing moves, and
the plates are as high as the centre. It does not ask for a reset. -/
structure RobotState.Resting (radius : Float32) (state : RobotState) : Prop where
  evenRadius : state.evenRadius = radius
  oddRadius : state.oddRadius = radius
  velocity : state.velocity = Vec3.zero
  acceleration : state.acceleration = Vec3.zero
  yawRate : state.yawRate = 0
  yawAcceleration : state.yawAcceleration = 0
  heightOffset : state.heightOffset = 0
  unmarked : state.reset = false

/-- Time changes nothing about a state at rest. -/
theorem RobotState.Resting.later {radius : Float32} {state : RobotState} (h : state.Resting radius)
    (time : Instant) : RobotState.Resting radius { state with time := time } :=
  ⟨h.evenRadius, h.oddRadius, h.velocity, h.acceleration, h.yawRate, h.yawAcceleration,
    h.heightOffset, h.unmarked⟩

namespace Fuser

section Calls

variable [ElementaryFunctions]

/-- What a fuser answers to a call, and what becomes of it. -/
def call (fuser : Fuser) : FuserCall → Option RobotState × Fuser
  | .fuse armors time => fuser.fuse armors time
  | .clear => (none, fuser.clear)

/-- What becomes of a fuser by a sequence of calls. -/
def after (fuser : Fuser) (calls : List FuserCall) : Fuser :=
  calls.foldl (fun fuser c => (fuser.call c).2) fuser

/-- What a fuser answers to each call of a sequence. -/
def answers (fuser : Fuser) : List FuserCall → List (Option RobotState)
  | [] => []
  | c :: calls => (fuser.call c).1 :: (fuser.call c).2.answers calls

/-- The answer to the last call of a sequence that is not a frame to coast over. -/
def lastFused (fuser : Fuser) (calls : List FuserCall) : Option RobotState :=
  ((calls.zip (fuser.answers calls)).reverse.find? fun p => ¬ p.1.Coasts).bind Prod.snd

/-- The state that is remembered, if there is one, rests and has the assumed radius. -/
def Rests (fuser : Fuser) : Prop :=
  ∀ state, fuser.previous = some state → state.Resting fuser.defaultRadius

/-- What a fuser knows after a sequence of calls to a new one. -/
structure Knows (radius : Float32) (calls : List FuserCall) (fuser : Fuser) : Prop where
  defaultRadius : fuser.defaultRadius = radius
  previous : fuser.previous = (new radius).lastFused calls
  rests : fuser.Rests
  robot : ∀ state, fuser.previous = some state →
    (FuserCall.lastPlate calls).map Detection.robot = some state.robot

variable {fuser : Fuser} {radius : Float32} {calls : List FuserCall} {call : FuserCall}

/-! ### Sequences of calls -/

theorem after_append (fuser : Fuser) (calls : List FuserCall) (call : FuserCall) :
    fuser.after (calls ++ [call]) = ((fuser.after calls).call call).2 := by
  rw [after, List.foldl_append]
  rfl

theorem length_answers (fuser : Fuser) (calls : List FuserCall) :
    (fuser.answers calls).length = calls.length := by
  induction calls generalizing fuser with
  | nil => rfl
  | cons c calls ih => rw [answers, List.length_cons, ih, List.length_cons]

theorem answers_append (fuser : Fuser) (calls : List FuserCall) (call : FuserCall) :
    fuser.answers (calls ++ [call]) =
      fuser.answers calls ++ [((fuser.after calls).call call).1] := by
  induction calls generalizing fuser with
  | nil => rfl
  | cons c calls ih =>
      rw [List.cons_append, answers, ih]
      rfl

/-- Each call is answered by what the calls before it have made of the fuser. -/
theorem getElem?_answers (fuser : Fuser) (calls : List FuserCall) (i : Nat) :
    (fuser.answers calls)[i]? = calls[i]?.map fun c => ((fuser.after (calls.take i)).call c).1 := by
  induction calls generalizing fuser i with
  | nil => rfl
  | cons c calls ih =>
      cases i with
      | zero => rfl
      | succ i =>
          rw [answers, List.getElem?_cons_succ, ih, List.getElem?_cons_succ]
          rfl

theorem lastFused_append (fuser : Fuser) (calls : List FuserCall) (call : FuserCall) :
    fuser.lastFused (calls ++ [call]) =
      if call.Coasts then fuser.lastFused calls else ((fuser.after calls).call call).1 := by
  have hzip : (calls ++ [call]).zip (fuser.answers (calls ++ [call])) =
      calls.zip (fuser.answers calls) ++ [(call, ((fuser.after calls).call call).1)] := by
    rw [answers_append, List.zip_append (length_answers fuser calls).symm]
    rfl
  rw [lastFused, hzip, List.reverse_append, List.reverse_singleton, List.singleton_append,
    List.find?_cons]
  by_cases h : call.Coasts
  · simp only [h, not_true_eq_false, decide_false, if_true]
    rfl
  · simp only [h, not_false_eq_true, decide_true, if_false]
    rfl

/-! ### A single call -/

/-- A frame to coast over is answered with what is remembered, and leaves it. -/
theorem fuse_coasts {armors : List Detection} {time : Instant}
    (h : (FuserCall.fuse armors time).Coasts) (fuser : Fuser) :
    fuser.fuse armors time = (fuser.coast time, fuser) := by
  match armors, h with
  | [], _ => rfl
  | [_], h => exact absurd h (by simp [FuserCall.Coasts])
  | [_, _], h => exact absurd h (by simp [FuserCall.Coasts])
  | _ :: _ :: _ :: _, _ => rfl

theorem call_coasts (h : call.Coasts) (fuser : Fuser) : (fuser.call call).2 = fuser := by
  cases call with
  | fuse armors time => rw [Fuser.call, fuse_coasts h]
  | clear => exact absurd h id

/-- One plate tells place and heading. All else is carried over from the state before, or assumed
where there is none. -/
theorem single_resting (armor : Detection) (time : Instant) (h : fuser.Rests) :
    (fuser.single armor time).Resting fuser.defaultRadius := by
  unfold single
  cases hprevious : fuser.previous with
  | none => exact ⟨rfl, rfl, rfl, rfl, rfl, rfl, rfl, rfl⟩
  | some previous =>
      have hresting := h previous hprevious
      -- All of this is taken over from the state before, which was resting.
      exact
        { evenRadius := hresting.evenRadius
          oddRadius := hresting.oddRadius
          velocity := hresting.velocity
          acceleration := hresting.acceleration
          yawRate := hresting.yawRate
          yawAcceleration := hresting.yawAcceleration
          heightOffset := hresting.heightOffset
          unmarked := rfl }

/-- The mean of two states moves as the second does. -/
theorem average_resting (first : RobotState) {second : RobotState} (h : second.Resting radius) :
    (average first second).Resting radius :=
  ⟨h.evenRadius, h.oddRadius, h.velocity, h.acceleration, h.yawRate, h.yawAcceleration,
    h.heightOffset, h.unmarked⟩

/-- A frame with one or two plates is answered with a state that is remembered as it is given. -/
theorem fuse_learns {armors : List Detection} {time : Instant}
    (hnot : ¬ (FuserCall.fuse armors time).Coasts) (h : fuser.Rests) :
    ∃ state plate, (FuserCall.fuse armors time).plate? = some plate ∧
      fuser.fuse armors time = (some state, { fuser with previous := some state }) ∧
      state.Resting fuser.defaultRadius ∧ state.robot = plate.robot ∧ state.time = time := by
  match armors, hnot with
  | [], hnot => exact absurd (Or.inl rfl) hnot
  | [armor], _ =>
      rcases single_labels fuser armor time with ⟨hrobot, htime, -⟩
      exact ⟨fuser.single armor time, armor, rfl, rfl, single_resting armor time h, hrobot,
        htime⟩
  | [first, second], _ =>
      -- The second plate is fused on top of the first, whose state is resting as well.
      have hfirst : (fuser.fuseOne first time).2.Rests := by
        rintro state ⟨rfl⟩
        exact single_resting first time h
      rcases single_labels (fuser.fuseOne first time).2 second time with ⟨hrobot, htime, -⟩
      exact ⟨(fuser.fuseTwo first second time).1, second, rfl, rfl,
        average_resting _ (single_resting second time hfirst), hrobot, htime⟩
  | _ :: _ :: _ :: rest, hnot =>
      refine absurd (Or.inr ?_) hnot
      simp only [List.length_cons]
      omega

/-! ### What is known -/

theorem knows_new (radius : Float32) : Knows radius [] (new radius) where
  defaultRadius := rfl
  previous := rfl
  rests _ h := absurd h.symm (Option.some_ne_none _)
  robot _ h := absurd h.symm (Option.some_ne_none _)

/-- Every call keeps what is known. -/
theorem knows_call (call : FuserCall) (h : Knows radius calls ((new radius).after calls)) :
    Knows radius (calls ++ [call]) ((new radius).after (calls ++ [call])) := by
  have hlast := lastFused_append (new radius) calls call
  have hplate := FuserCall.lastPlate_append calls call
  rw [after_append]
  generalize (new radius).after calls = fuser at h hlast ⊢
  -- A coasting call leaves the fuser as it is, and there is no plate to learn from.
  by_cases hcoasts : call.Coasts
  · have hnone : call.plate? = none := by
      cases call with
      | fuse armors time => exact if_pos hcoasts
      | clear => rfl
    rw [if_pos hcoasts] at hlast
    rw [hnone, Option.none_or] at hplate
    rw [call_coasts hcoasts]
    exact ⟨h.defaultRadius, h.previous.trans hlast.symm, h.rests, hplate ▸ h.robot⟩
  · rw [if_neg hcoasts] at hlast
    cases call with
    -- Clearing forgets the state, so nothing is left to be known about it.
    | clear =>
        have hnone (state : RobotState) : fuser.clear.previous ≠ some state :=
          (Option.some_ne_none state).symm
        exact ⟨h.defaultRadius, hlast.symm, fun s hs => absurd hs (hnone s),
          fun s hs => absurd hs (hnone s)⟩
    | fuse armors time =>
        -- One plate or two: the fuser learns a state from the plate that is fused last.
        rcases fuse_learns hcoasts h.rests with
          ⟨state, plate, hlearned, hfuse, hresting, hrobot, -⟩
        rw [hlearned, Option.some_or] at hplate
        rw [Fuser.call, hfuse] at hlast ⊢
        refine ⟨h.defaultRadius, hlast.symm, ?_, ?_⟩
        · rintro _ ⟨rfl⟩
          exact hresting
        · rintro _ ⟨rfl⟩
          rw [hplate, hrobot, Option.map_some]

/-- Every sequence of calls to a new fuser keeps what is known. -/
theorem knows_after (radius : Float32) (calls : List FuserCall) :
    Knows radius calls ((new radius).after calls) := by
  induction calls using List.reverseRecOn with
  | nil => exact knows_new radius
  | append_singleton calls call ih => exact knows_call call ih

/-- A frame to coast over can be left out, and all other calls are answered as before. -/
theorem answers_eraseIdx (fuser : Fuser) {calls : List FuserCall} {i : Nat} {call : FuserCall}
    (hcall : calls[i]? = some call) (hcoasts : call.Coasts) :
    fuser.answers (calls.eraseIdx i) = (fuser.answers calls).eraseIdx i := by
  induction calls generalizing fuser i with
  | nil => rfl
  | cons c calls ih =>
      cases i with
      | zero =>
          rw [List.getElem?_cons_zero, Option.some_inj] at hcall
          rw [answers, List.eraseIdx_cons_zero, List.eraseIdx_cons_zero, hcall,
            call_coasts hcoasts]
      | succ i =>
          rw [List.getElem?_cons_succ] at hcall
          rw [List.eraseIdx_cons_succ, answers, answers, List.eraseIdx_cons_succ, ih _ hcall]

/-- A frame is answered with what is remembered after it, at the time of the frame. -/
theorem fuse_answer (armors : List Detection) (time : Instant) (h : fuser.Rests) :
    (fuser.fuse armors time).1 =
      (fuser.fuse armors time).2.previous.map fun state => { state with time := time } := by
  by_cases hcoasts : (FuserCall.fuse armors time).Coasts
  · rw [fuse_coasts hcoasts, coast]
    cases hprevious : fuser.previous with
    | none => rfl
    | some known =>
        have hunmarked := (h known hprevious).unmarked
        simp only [Option.map_some, hunmarked]
  · rcases fuse_learns hcoasts h with ⟨state, plate, -, hfuse, -, -, rfl⟩
    rw [hfuse]
    rfl

/-- What holds of the answers to every sequence of calls to a new fuser. A state that is given has
the assumed radius twice and rests, it has the time of its frame, and its robot is that of the plate
that was fused last. A frame without plates or with more than two is answered with the last fused
state at the time of the frame, and with nothing if there is none since the robot was forgotten; if
it is left out, all other calls are answered as before. A frame with one or two plates always gives
a state. -/
theorem coasting_changes_nothing (radius : Float32) (calls : List FuserCall) :
    let answers := (new radius).answers calls
    answers.length = calls.length ∧
    (∀ i : Nat, calls[i]? = some .clear → answers[i]? = some none) ∧
    ∀ (i : Nat) armors time, calls[i]? = some (.fuse armors time) →
      (∀ state, answers[i]? = some (some state) →
        state.Resting radius ∧ state.time = time ∧
        (FuserCall.lastPlate (calls.take (i + 1))).map Detection.robot = some state.robot) ∧
      (armors.length = 0 ∨ 2 < armors.length →
        answers[i]? = some (((new radius).lastFused (calls.take i)).map
          fun state => { state with time := time }) ∧
        (new radius).answers (calls.eraseIdx i) = answers.eraseIdx i) ∧
      (armors.length = 1 ∨ armors.length = 2 → ∃ state, answers[i]? = some (some state)) := by
  intro answers
  refine ⟨length_answers _ calls, fun i hi => ?_, fun i armors time hi => ?_⟩
  · rw [getElem?_answers, hi]
    rfl
  have hbefore := knows_after radius (calls.take i)
  have hafter := knows_after radius (calls.take (i + 1))
  have htake : calls.take (i + 1) = calls.take i ++ [.fuse armors time] := by
    rw [List.take_add_one, hi]
    rfl
  -- Whatever the call is, the answer is the state known after it, at the time of the call.
  have hanswer : answers[i]? =
      some (((new radius).after (calls.take (i + 1))).previous.map
        fun state => { state with time := time }) := by
    rw [getElem?_answers, hi, htake, after_append]
    exact congrArg some (fuse_answer armors time hbefore.rests)
  refine ⟨fun state hstate => ?_, fun hnumber => ?_, fun hnumber => ?_⟩
  · rw [hanswer, Option.some_inj, Option.map_eq_some_iff] at hstate
    rcases hstate with ⟨known, hknown, rfl⟩
    have hresting := hafter.rests known hknown
    rw [hafter.defaultRadius] at hresting
    exact ⟨hresting.later time, rfl, hafter.robot known hknown⟩
  -- Coasting answers the last fused state, and to leave the call out changes no other answer.
  · have hcoasts : (FuserCall.fuse armors time).Coasts := hnumber
    refine ⟨?_, answers_eraseIdx (new radius) hi hcoasts⟩
    rw [hanswer, hafter.previous, htake, lastFused_append, if_pos hcoasts]
  · have hsome := fuse_isSome ((new radius).after (calls.take i)) armors time hnumber
    rcases Option.isSome_iff_exists.mp hsome with ⟨state, hstate⟩
    refine ⟨state, ?_⟩
    rw [getElem?_answers, hi]
    exact congrArg some hstate

end Calls

/-- A robot that is seen twice, lost from view, forgotten and seen no more. -/
theorem coasting_changes_nothing_twoSightings :
    let _ : ElementaryFunctions := .native
    let plate (robot : UInt32) : Detection := { (default : Detection) with robot := ⟨robot⟩ }
    let calls : List FuserCall := [.fuse [plate 1] ⟨0⟩, .fuse [plate 1, plate 2] ⟨1⟩,
      .fuse [plate 3, plate 3, plate 3] ⟨2⟩, .clear, .fuse [] ⟨3⟩]
    let answers := (new 0.25).answers calls
    (∃ state, answers[2]? = some (some state) ∧ state.Resting 0.25 ∧ state.robot = ⟨2⟩ ∧
      state.time = ⟨2⟩) ∧
    answers[4]? = some none ∧ (new 0.25).answers (calls.eraseIdx 2) = answers.eraseIdx 2 := by
  intro _ plate calls answers
  rcases coasting_changes_nothing 0.25 calls with ⟨-, -, hanswers⟩
  -- The third call shows three plates: it coasts on the second robot of the call before.
  rcases hanswers 2 _ _ rfl with ⟨hstate, hcoasts, -⟩
  rcases hcoasts (by decide) with ⟨hrepeated, herase⟩
  have hgiven : answers[2]? = some (some ((answers[2]?.bind id).get (by decide +kernel))) := by
    rw [Option.some_get]
    rfl
  rcases hstate _ hgiven with ⟨hresting, htime, hrobot⟩
  refine ⟨⟨_, hgiven, hresting, ?_, htime⟩, ?_, herase⟩
  · exact (Option.some_inj.mp hrobot).symm
  · exact ((hanswers 4 _ _ rfl).2.1 (by decide)).1

end Fuser

end FireControl
