import FireControl.Proofs.Exchange.Consumption
import FireControl.Stages.Pipeline

/-!
# What a Turn Can Do

There are six stages, and each has a few ways to go about its turn: a device delivers, fails or
times out; a stage that reads a slot finds something new or does not, and publishes or does not.
`Pipeline.Effect` lists them, each with the conditions under which it happens and with all that it
does to the board, to the counters and to the cursors. `turn_effect` says that every turn has one of
these effects; whoever needs a fact about turns takes the cases apart and looks at no stage again.

What a stage computes is left open in an effect. Whatever the tracker, the filter, the solver or the
link make of a value, they move their cursor by it, and they are counted.

## Main definitions

* `Consumer`: A stage that reads a slot.
* `Turn.deviceFails`: A reading that failed otherwise than by a timeout.
* `Pipeline.cursor`, `Pipeline.news`: How far a consumer has come, and what is new to it.
* `Pipeline.Effect`: What a turn can do.

## Theorems

* `poll_of_news_none`, `poll_of_news_some`: What a stage does without and with something new.
* `turn_effect`: Every turn has one of the effects.
-/

namespace FireControl

/-- A stage that reads a slot. -/
inductive Consumer where
  /-- Reads frames. -/
  | tracker
  /-- Reads the states of the tracker. -/
  | estimator
  /-- Reads the states of the estimator. -/
  | solver
  /-- Reads corrections. -/
  | transmitter
deriving DecidableEq

/-- The consumer whose turn it is. -/
def Turn.consumer : Turn → Option Consumer
  | .capture _ => none
  | .orient _ => none
  | .perceive => some .tracker
  | .estimate _ _ => some .estimator
  | .aim _ => some .solver
  | .transmit => some .transmitter

/-- A reading of a device that failed otherwise than by a timeout. -/
def DeviceError.fails {α : Type} : Except DeviceError α → Bool
  | .ok _ => false
  | .error failure => !failure.isTimeout

/-- A turn in which a device failed otherwise than by a timeout. -/
def Turn.deviceFails : Turn → Bool
  | .capture result => DeviceError.fails result
  | .orient result => DeviceError.fails result
  | .perceive => false
  | .estimate _ _ => false
  | .aim _ => false
  | .transmit => false

/-- No device fails in the turn of a consumer. -/
theorem Turn.deviceFails_of_consumer {t : Turn} {c : Consumer} (h : t.consumer = some c) :
    t.deviceFails = false := by
  cases t with
  | capture | orient => exact absurd h.symm (Option.some_ne_none c)
  | perceive | estimate | aim | transmit => rfl

section Polls

variable [ElementaryFunctions]

/-- A stage that finds nothing new does nothing. -/
theorem Perceiver.poll_of_news_none {δ : Type} (detector : Detector δ) (stage : Perceiver δ)
    (board : Board) (h : stage.cursor.news board.frame = none) :
    stage.poll detector board = (none, stage) := by
  unfold poll
  rw [Cursor.poll_of_news_none h]

/-- A stage that finds something new reports on it, and its cursor moves. -/
theorem Perceiver.poll_of_news_some {δ : Type} (detector : Detector δ) (stage : Perceiver δ)
    (board : Board) (version : Nat) (h : stage.cursor.news board.frame = some version) :
    ∃ report after, stage.poll detector board = (some report, after) ∧
      after.cursor = ⟨version⟩ := by
  rcases Cursor.poll_of_news_some h with ⟨snapshot, hpoll, _⟩
  unfold poll
  rw [hpoll]
  exact ⟨_, _, rfl, rfl⟩

theorem Aimer.poll_of_news_none (stage : Aimer) (board : Board) (now : Instant)
    (h : stage.cursor.news board.smoothed = none) : stage.poll board now = (none, stage) := by
  unfold poll
  rw [Cursor.poll_of_news_none h]

theorem Aimer.poll_of_news_some (stage : Aimer) (board : Board) (now : Instant) (version : Nat)
    (h : stage.cursor.news board.smoothed = some version) :
    ∃ report after, stage.poll board now = (some report, after) ∧ after.cursor = ⟨version⟩ := by
  rcases Cursor.poll_of_news_some h with ⟨snapshot, hpoll, _⟩
  unfold poll
  rw [hpoll]
  exact ⟨_, _, rfl, rfl⟩

end Polls

theorem Transmitter.poll_of_news_none {σ : Type} (stage : Transmitter) (link : Link σ) (state : σ)
    (board : Board) (h : stage.cursor.news board.aim = none) :
    stage.poll link state board = (none, stage) := by
  unfold poll
  rw [Cursor.poll_of_news_none h]

theorem Transmitter.poll_of_news_some {σ : Type} (stage : Transmitter) (link : Link σ) (state : σ)
    (board : Board) (version : Nat) (h : stage.cursor.news board.aim = some version) :
    ∃ sending after, stage.poll link state board = (some sending, after) ∧
      after.cursor = ⟨version⟩ := by
  rcases Cursor.poll_of_news_some h with ⟨snapshot, hpoll, _⟩
  unfold poll
  rw [hpoll]
  exact ⟨_, _, rfl, rfl⟩

/-- A tick reports whether there was something new, and the cursor moves where there was. -/
theorem Estimator.tick_of_news {φ : Type} (filter : Filter φ) (stage : Estimator φ)
    (board : Board) (dt : Float32) (now : Instant) :
    ∃ state after,
      stage.tick filter board dt now =
        (⟨(stage.cursor.news board.raw).isSome, state⟩, after) ∧
      after.cursor = ((stage.cursor.news board.raw).map Cursor.mk).getD stage.cursor := by
  unfold tick
  -- With news the measurement is filtered first; in both cases the cursor follows the poll.
  cases hnews : stage.cursor.news board.raw with
  | none =>
      rw [Cursor.poll_of_news_none hnews]
      exact ⟨_, _, rfl, rfl⟩
  | some version =>
      rcases Cursor.poll_of_news_some hnews with ⟨snapshot, hpoll, _⟩
      rw [hpoll]
      exact ⟨_, _, rfl, rfl⟩

namespace Pipeline

variable {δ φ σ : Type}

/-- The cursor of a consumer. -/
def cursor (p : Pipeline δ φ σ) : Consumer → Cursor
  | .tracker => p.perceiver.cursor
  | .estimator => p.estimator.cursor
  | .solver => p.aimer.cursor
  | .transmitter => p.transmitter.cursor

/-- The version that a consumer would find new on the board. -/
def news (p : Pipeline δ φ σ) : Consumer → Option Nat
  | .tracker => p.perceiver.cursor.news p.board.frame
  | .estimator => p.estimator.cursor.news p.board.raw
  | .solver => p.aimer.cursor.news p.board.smoothed
  | .transmitter => p.transmitter.cursor.news p.board.aim

/-- What a turn can do to the pipeline. -/
inductive Effect (p : Pipeline δ φ σ) : Turn → Pipeline δ φ σ → Prop
  /-- A frame is captured. -/
  | captured (frame : Frame) :
      Effect p (.capture (.ok frame))
        { p with board := p.board.publishFrame frame, counters := p.counters.recordFrame }
  /-- The orientation is read. -/
  | oriented (o : Orientation) :
      Effect p (.orient (.ok o))
        { p with
          board := p.board.publishOrientation o
          counters := p.counters.recordOrientation }
  /-- A device fails. -/
  | failed {t : Turn} (device : t.consumer = none) (fails : t.deviceFails = true) :
      Effect p t { p with counters := p.counters.recordDeviceError }
  /-- A device times out. -/
  | waited {t : Turn} (device : t.consumer = none) (works : t.deviceFails = false) : Effect p t p
  /-- A consumer other than the estimator finds nothing new. -/
  | rested {t : Turn} (c : Consumer) (turn : t.consumer = some c) (nothing : p.news c = none) :
      Effect p t p
  /-- The tracker takes a frame that gives no state. -/
  | watched (version : Nat) (new : p.news .tracker = some version) (event : LockEvent)
      (stage : Perceiver δ) (moved : stage.cursor = ⟨version⟩) :
      Effect p .perceive
        { p with perceiver := stage, counters := p.counters.recordTracking event }
  /-- The tracker takes a frame that gives a state. -/
  | tracked (version : Nat) (new : p.news .tracker = some version) (event : LockEvent)
      (state : RobotState) (stage : Perceiver δ) (moved : stage.cursor = ⟨version⟩) :
      Effect p .perceive
        { p with
          perceiver := stage
          counters := (p.counters.recordTracking event).recordRawState
          board := p.board.publishRaw state }
  /-- The estimator ticks, with a measurement or without, and has no state to give. -/
  | ticked (dt : Float32) (now : Instant) (stage : Estimator φ)
      (moved : stage.cursor = ((p.news .estimator).map Cursor.mk).getD p.estimator.cursor) :
      Effect p (.estimate dt now)
        { p with
          estimator := stage
          counters := p.counters.recordTick (p.news .estimator).isSome }
  /-- The estimator ticks, with a measurement or without, and gives a state. -/
  | smoothed (dt : Float32) (now : Instant) (state : RobotState) (stage : Estimator φ)
      (moved : stage.cursor = ((p.news .estimator).map Cursor.mk).getD p.estimator.cursor) :
      Effect p (.estimate dt now)
        { p with
          estimator := stage
          counters := p.counters.recordTick (p.news .estimator).isSome
          board := p.board.publishSmoothed state }
  /-- The solver takes a state and gives a correction. -/
  | solved (now : Instant) (version : Nat) (new : p.news .solver = some version)
      (output : AimOutput) (converged : Bool) (stage : Aimer) (moved : stage.cursor = ⟨version⟩) :
      Effect p (.aim now)
        { p with
          aimer := stage
          counters := p.counters.recordAim converged
          board := p.board.publishAim output }
  /-- The transmitter takes a correction, and its packet goes out or does not. -/
  | transmitted (version : Nat) (new : p.news .transmitter = some version) (sent : Bool) (link : σ)
      (stage : Transmitter) (moved : stage.cursor = ⟨version⟩) :
      Effect p .transmit
        { p with
          transmitter := stage
          link := link
          counters := p.counters.recordPacket sent }

/-- A failed reading is a failure of the device or a timeout. -/
theorem failed_effect (p : Pipeline δ φ σ) (t : Turn) (failure : DeviceError)
    (device : t.consumer = none) (result : t.deviceFails = !failure.isTimeout) :
    p.Effect t (p.failed failure) := by
  unfold Pipeline.failed
  -- A timeout is no failure: the pipeline waits and counts nothing.
  cases htimeout : failure.isTimeout with
  | true =>
      rw [htimeout] at result
      exact Effect.waited device result
  | false =>
      rw [htimeout] at result
      exact Effect.failed device result

theorem transmit_effect (p : Pipeline δ φ σ) (link : Link σ) :
    p.Effect .transmit (p.transmit link).1 := by
  unfold transmit
  -- With no news the stage rests, and else it takes the newest version.
  cases hnews : p.news .transmitter with
  | none =>
      rw [Transmitter.poll_of_news_none p.transmitter link p.link p.board hnews]
      exact Effect.rested .transmitter rfl hnews
  | some version =>
      rcases Transmitter.poll_of_news_some p.transmitter link p.link p.board version hnews with
        ⟨sending, after, hpoll, hcursor⟩
      rw [hpoll]
      exact Effect.transmitted version hnews sending.sent sending.state after hcursor

theorem estimate_effect (p : Pipeline δ φ σ) (filter : Filter φ) (dt : Float32) (now : Instant) :
    p.Effect (.estimate dt now) (p.estimate filter dt now) := by
  unfold estimate
  rcases Estimator.tick_of_news filter p.estimator p.board dt now with
    ⟨state, after, htick, hcursor⟩
  rw [htick]
  cases state with
  | none => exact Effect.ticked dt now after hcursor
  | some s => exact Effect.smoothed dt now { s with time := now } after hcursor

variable [ElementaryFunctions]

theorem perceive_effect (p : Pipeline δ φ σ) (detector : Detector δ) :
    p.Effect .perceive (p.perceive detector) := by
  unfold perceive
  cases hnews : p.news .tracker with
  | none =>
      rw [Perceiver.poll_of_news_none detector p.perceiver p.board hnews]
      exact Effect.rested .tracker rfl hnews
  | some version =>
      rcases Perceiver.poll_of_news_some detector p.perceiver p.board version hnews with
        ⟨⟨event, state⟩, after, hpoll, hcursor⟩
      rw [hpoll]
      cases state with
      | none => exact Effect.watched version hnews event after hcursor
      | some s => exact Effect.tracked version hnews event s after hcursor

theorem aim_effect (p : Pipeline δ φ σ) (now : Instant) : p.Effect (.aim now) (p.aim now) := by
  unfold aim
  cases hnews : p.news .solver with
  | none =>
      rw [Aimer.poll_of_news_none p.aimer p.board now hnews]
      exact Effect.rested .solver rfl hnews
  | some version =>
      rcases Aimer.poll_of_news_some p.aimer p.board now version hnews with
        ⟨⟨output, converged⟩, after, hpoll, hcursor⟩
      rw [hpoll]
      exact Effect.solved now version hnews output converged after hcursor

/-- Every turn has one of the effects. -/
theorem turn_effect (equipment : Equipment δ φ σ) (p : Pipeline δ φ σ) (t : Turn) :
    p.Effect t (p.turn equipment t).1 := by
  cases t with
  | capture result =>
      cases result with
      | ok frame => exact Effect.captured frame
      | error failure => exact failed_effect p (.capture (.error failure)) failure rfl rfl
  | orient result =>
      cases result with
      | ok o => exact Effect.oriented o
      | error failure => exact failed_effect p (.orient (.error failure)) failure rfl rfl
  | perceive => exact perceive_effect p equipment.detector
  | estimate dt now => exact estimate_effect p equipment.filter dt now
  | aim now => exact aim_effect p now
  | transmit => exact transmit_effect p equipment.link

end Pipeline

end FireControl
