import FireControl.Estimation.ParticleFilter
import FireControl.Exchange.Board

/-!
# Estimator

The stage that smooths the states of the tracker. It ticks at its own pace: a tick takes the newest
state from the board if it is new, and lets the filter run on without a measurement if it is not. A
state with the reset flag restarts the filter before it is used as a measurement.

The stage works with any filter, which is a record of operations over a state of its own.

## Main definitions

* `Filter`: The operations of a filter.
* `Filter.particle`: The particle filter.
* `Estimator`: A filter state and a cursor.
* `Estimator.tick`: One tick.
-/

namespace FireControl

/-- The operations of a filter with a state of type `φ`. -/
structure Filter (φ : Type) where
  /-- Starts again from a measurement. -/
  reset : φ → RobotState → φ
  /-- Lets time pass. -/
  predict : φ → Float32 → φ
  /-- Lets time pass and takes a measurement. -/
  step : φ → RobotState → Float32 → φ
  /-- The mean state, if anything was measured. -/
  mean : φ → Instant → Option RobotState

/-- The particle filter. -/
def Filter.particle [ElementaryFunctions] : Filter ParticleFilter where
  reset := ParticleFilter.reset
  predict := ParticleFilter.predict
  step := ParticleFilter.step
  mean := ParticleFilter.mean

/-- What a filter is told to do. -/
inductive FilterCommand where
  | reset (measured : RobotState)
  | step (measured : RobotState) (dt : Float32)
  | predict (dt : Float32)

/-- The filter state after a command. -/
def Filter.obey {φ : Type} (filter : Filter φ) (state : φ) : FilterCommand → φ
  | .reset measured => filter.reset state measured
  | .step measured dt => filter.step state measured dt
  | .predict dt => filter.predict state dt

/-- A filter state and the version of the measurement taken last. -/
structure Estimator (φ : Type) where
  filter : φ
  cursor : Cursor

/-- The outcome of a tick. -/
structure TickReport where
  /-- Whether there was a new measurement. -/
  measured : Bool
  /-- The smoothed state. -/
  state : Option RobotState

namespace Estimator

/-- The estimator of a filter that is ready. -/
def new {φ : Type} (filter : φ) : Estimator φ :=
  ⟨filter, .start⟩

/-- What a measurement tells the filter to do. -/
def commandsFor (measured : RobotState) (dt : Float32) : List FilterCommand :=
  if measured.reset then [.reset measured, .step measured dt] else [.step measured dt]

/-- What a tick tells the filter to do, `dt` seconds after the one before. -/
def commands (news : Option (Versioned RobotState)) (dt : Float32) : List FilterCommand :=
  match news with
  | some snapshot => commandsFor snapshot.value dt
  | none => [.predict dt]

/-- One tick, `dt` seconds after the one before. -/
def tick {φ : Type} (filter : Filter φ) (estimator : Estimator φ) (board : Board) (dt : Float32)
    (now : Instant) : TickReport × Estimator φ :=
  let (news, cursor) := estimator.cursor.poll board.raw
  let after := (commands news dt).foldl filter.obey estimator.filter
  (⟨news.isSome, filter.mean after now⟩, ⟨after, cursor⟩)

end Estimator

end FireControl
