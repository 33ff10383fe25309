import FireControl.Proofs.Stages.Effects

/-!
# Conservation Along the Pipeline

Nothing comes out of the pipeline that did not go in. Frames and orientations are published as they
are captured, and from there on every stage takes at most what the stage before it has published and
publishes at most one value for each value it takes, or for each tick. The versions of the slots and
the counters therefore bound one another from the camera down to the link, in whatever order the
stages take their turns and whatever comes from outside.

`Conserved` says so of a state of the pipeline, and every effect that a turn can have keeps it. Four
of the six stages are consumers: they read a slot with a cursor, and `Cursor.Within` carries the
part of the argument that no version is taken twice. The record of what a consumer takes is kept
beside the run (`Pipeline.intake`); it grows by one version in the turns in which the consumer finds
one and in no other, and always beyond the version that the cursor remembers.

## Main definitions

* `Pipeline.takes`: The version that a consumer takes in a turn.
* `Pipeline.intake`: The versions that a consumer takes in a run.
* `Pipeline.Conserved`: What every turn keeps.

## Theorems

* `Effect.conserved`: A turn keeps what is conserved.
* `Effect.deviceErrors`: A turn counts the failure of a device.
* `Effect.takes`: A turn moves a cursor to the version that is taken, and counts it.
* `intake_increasing`: A consumer takes ever newer versions.
* `conservation`: What holds after every run.
-/

namespace FireControl

/-- How many values a consumer has taken, by the counters. -/
def Counters.consumed (c : Counters) : Consumer → Nat
  | .tracker => c.perceptionCycles
  | .estimator => c.estimatorMeasurements
  | .solver => c.aimUpdates
  | .transmitter => c.packetsSent + c.sendFailures

/-- The version of the slot that a consumer reads. -/
def Board.offered (board : Board) : Consumer → Nat
  | .tracker => board.frame.version
  | .estimator => board.raw.version
  | .solver => board.smoothed.version
  | .transmitter => board.aim.version

/-- Sent or not, a packet is counted once. -/
theorem Counters.recordPacket_consumed (c : Counters) (sent : Bool) :
    (c.recordPacket sent).consumed .transmitter = c.consumed .transmitter + 1 := by
  cases sent with
  | true => exact Nat.add_right_comm _ _ _
  | false => rfl

namespace Pipeline

variable {δ φ σ : Type}

/-- The version that a consumer takes in a turn, if it takes one. -/
def takes (p : Pipeline δ φ σ) (c : Consumer) (t : Turn) : Option Nat :=
  if t.consumer = some c then p.news c else none

/-- A consumer takes in its turn what is new to it. -/
theorem takes_of_turn (p : Pipeline δ φ σ) {c : Consumer} {t : Turn} (h : t.consumer = some c) :
    p.takes c t = p.news c :=
  if_pos h

/-- A consumer takes nothing in the turns of the others. -/
theorem takes_of_other (p : Pipeline δ φ σ) {c : Consumer} {t : Turn} (h : t.consumer ≠ some c) :
    p.takes c t = none :=
  if_neg h

theorem takes_of_device (p : Pipeline δ φ σ) (c : Consumer) {t : Turn} (h : t.consumer = none) :
    p.takes c t = none :=
  takes_of_other p (by simp [h])

/-- What every turn keeps. -/
structure Conserved (p : Pipeline δ φ σ) : Prop where
  frames : p.board.frame.version = p.counters.framesCaptured
  orientations : p.board.orientation.version = p.counters.orientationUpdates
  cycles : p.perceiver.cursor.Within p.board.frame p.counters.perceptionCycles
  states : p.board.raw.version = p.counters.rawStatesPublished
  states_le : p.counters.rawStatesPublished ≤ p.counters.perceptionCycles
  measurements : p.estimator.cursor.Within p.board.raw p.counters.estimatorMeasurements
  measurements_le : p.counters.estimatorMeasurements ≤ p.counters.estimatorTicks
  smoothed_le : p.board.smoothed.version ≤ p.counters.estimatorTicks
  solutions : p.aimer.cursor.Within p.board.smoothed p.counters.aimUpdates
  aims : p.board.aim.version = p.counters.aimUpdates
  leads_le : p.counters.leadsNotConverged ≤ p.counters.aimUpdates
  packets : p.transmitter.cursor.Within p.board.aim
    (p.counters.packetsSent + p.counters.sendFailures)

theorem new_conserved (settings : Settings) (model : δ) (filter : φ) (link : σ) :
    (new settings model filter link).Conserved where
  frames := rfl
  orientations := rfl
  cycles := Cursor.start_within _
  states := rfl
  states_le := Nat.le_refl 0
  measurements := Cursor.start_within _
  measurements_le := Nat.le_refl 0
  smoothed_le := Nat.le_refl 0
  solutions := Cursor.start_within _
  aims := rfl
  leads_le := Nat.le_refl 0
  packets := Cursor.start_within _

/-- A tick takes at most one measurement, and counts it where it takes one. -/
theorem Conserved.tick {p : Pipeline δ φ σ} {cursor : Cursor} (h : p.Conserved)
    (moved : cursor = ((p.news .estimator).map Cursor.mk).getD p.estimator.cursor) :
    let counters := p.counters.recordTick (p.news .estimator).isSome
    cursor.Within p.board.raw counters.estimatorMeasurements ∧
      counters.estimatorMeasurements ≤ counters.estimatorTicks := by
  rw [moved]
  cases hnews : p.news .estimator with
  -- Without a measurement only the ticks are counted, with one both.
  | none => exact ⟨h.measurements, Nat.le_succ_of_le h.measurements_le⟩
  | some version => exact ⟨h.measurements.poll hnews, Nat.succ_le_succ h.measurements_le⟩

/-- A turn keeps what is conserved. -/
theorem Effect.conserved {p q : Pipeline δ φ σ} {t : Turn} (e : p.Effect t q) (h : p.Conserved) :
    q.Conserved := by
  cases e with
  | captured frame =>
      exact { h with
        frames := congrArg (· + 1) h.frames
        cycles := h.cycles.publish frame }
  | oriented o => exact { h with orientations := congrArg (· + 1) h.orientations }
  | failed device fails => exact { h with }
  | waited device works => exact h
  | rested c turn nothing => exact h
  | watched version new event stage moved =>
      have hcycles := h.cycles.poll new
      rw [← moved] at hcycles
      exact { h with
        cycles := hcycles
        states_le := Nat.le_succ_of_le h.states_le }
  | tracked version new event state stage moved =>
      have hcycles := h.cycles.poll new
      rw [← moved] at hcycles
      exact { h with
        cycles := hcycles
        states := congrArg (· + 1) h.states
        states_le := Nat.succ_le_succ h.states_le
        measurements := h.measurements.publish state }
  | ticked dt now stage moved =>
      have hticked := h.tick moved
      exact { h with
        measurements := hticked.1
        measurements_le := hticked.2
        smoothed_le := Nat.le_succ_of_le h.smoothed_le }
  | smoothed dt now state stage moved =>
      -- The tick is counted before its state is published.
      have hticked := h.tick moved
      exact { h with
        measurements := hticked.1
        measurements_le := hticked.2
        smoothed_le := Nat.succ_le_succ h.smoothed_le
        solutions := h.solutions.publish state }
  | solved now version new output converged stage moved =>
      have hsolutions := h.solutions.poll new
      rw [← moved] at hsolutions
      exact { h with
        solutions := hsolutions
        aims := congrArg (· + 1) h.aims
        leads_le := by
          cases converged with
          | true => exact Nat.le_succ_of_le h.leads_le
          | false => exact Nat.succ_le_succ h.leads_le
        packets := h.packets.publish output }
  | transmitted version new sent link stage moved =>
      have hpackets := h.packets.poll new
      rw [← moved] at hpackets
      cases sent with
      | true =>
          rw [Nat.add_right_comm] at hpackets
          exact { h with packets := hpackets }
      | false => exact { h with packets := hpackets }

/-- A turn counts the failure of a device, and no timeout. -/
theorem Effect.deviceErrors {p q : Pipeline δ φ σ} {t : Turn} (e : p.Effect t q) :
    q.counters.deviceErrors = p.counters.deviceErrors + t.deviceFails.toNat := by
  cases e with
  | failed device fails => rw [fails]; rfl
  | waited device works => rw [works]; rfl
  | rested c turn nothing => rw [Turn.deviceFails_of_consumer turn]; rfl
  | transmitted version new sent link stage moved => cases sent <;> rfl
  | captured | oriented | watched | tracked | ticked | smoothed | solved => rfl

/-- From one state to another a consumer has taken at most one version: its cursor stands at that
version, and it is counted. -/
structure Takes (p : Pipeline δ φ σ) (taken : Option Nat) (c : Consumer) (q : Pipeline δ φ σ) :
    Prop where
  last : (q.cursor c).last = taken.getD (p.cursor c).last
  consumed : q.counters.consumed c = p.counters.consumed c + taken.toList.length

/-- A consumer whose cursor and whose count stay as they are has taken nothing. -/
theorem Takes.nothing {p q : Pipeline δ φ σ} {t : Turn} {c : Consumer}
    (idle : p.takes c t = none) (last : (q.cursor c).last = (p.cursor c).last)
    (consumed : q.counters.consumed c = p.counters.consumed c) :
    p.Takes (p.takes c t) c q := by
  rw [idle]
  exact ⟨last, consumed⟩

/-- A consumer whose cursor stands at what was new, and who counts it, has taken it. -/
theorem Takes.one {p q : Pipeline δ φ σ} {t : Turn} {c : Consumer} {version : Nat}
    (turn : t.consumer = some c) (new : p.news c = some version)
    (moved : q.cursor c = ⟨version⟩)
    (consumed : q.counters.consumed c = p.counters.consumed c + 1) :
    p.Takes (p.takes c t) c q := by
  rw [takes_of_turn p turn, new]
  exact ⟨congrArg Cursor.last moved, consumed⟩

/-- The estimator takes a measurement in its tick where there is a new one. -/
theorem Takes.tick {p q : Pipeline δ φ σ} {t : Turn} (turn : t.consumer = some .estimator)
    (moved : q.cursor .estimator =
      ((p.news .estimator).map Cursor.mk).getD (p.cursor .estimator))
    (counted : q.counters = p.counters.recordTick (p.news .estimator).isSome) :
    p.Takes (p.takes .estimator t) .estimator q := by
  rw [takes_of_turn p turn]
  refine ⟨?_, ?_⟩
  · rw [moved]
    cases p.news .estimator with
    | none => rfl
    | some version => rfl
  · rw [counted]
    cases p.news .estimator with
    | none => rfl
    | some version => rfl

/-- A turn moves the cursor of a consumer to the version that it takes, and counts it. -/
theorem Effect.takes {p q : Pipeline δ φ σ} {t : Turn} (e : p.Effect t q) (c : Consumer) :
    p.Takes (p.takes c t) c q := by
  cases e with
  | captured frame => cases c <;> exact ⟨rfl, rfl⟩
  | oriented o => cases c <;> exact ⟨rfl, rfl⟩
  | failed device fails =>
      -- A failure touches one counter, and it belongs to no consumer.
      have idle := takes_of_device p c device
      cases c <;> exact Takes.nothing idle rfl rfl
  | waited device works => exact Takes.nothing (takes_of_device p c device) rfl rfl
  | rested other turn nothing =>
      refine Takes.nothing ?_ rfl rfl
      by_cases hc : other = c
      · subst hc
        rw [takes_of_turn p turn, nothing]
      · exact takes_of_other p (by rw [turn]; exact fun h => hc (Option.some.inj h))
  | watched version new event stage moved =>
      cases c with
      | tracker => exact Takes.one rfl new moved rfl
      | estimator | solver | transmitter => exact ⟨rfl, rfl⟩
  | tracked version new event state stage moved =>
      cases c with
      | tracker => exact Takes.one rfl new moved rfl
      | estimator | solver | transmitter => exact ⟨rfl, rfl⟩
  | ticked dt now stage moved =>
      cases c with
      | estimator => exact Takes.tick rfl moved rfl
      | tracker | solver | transmitter => exact ⟨rfl, rfl⟩
  | smoothed dt now state stage moved =>
      cases c with
      | estimator => exact Takes.tick rfl moved rfl
      | tracker | solver | transmitter => exact ⟨rfl, rfl⟩
  | solved now version new output converged stage moved =>
      cases c with
      | solver => exact Takes.one rfl new moved rfl
      | tracker | estimator | transmitter => exact ⟨rfl, rfl⟩
  | transmitted version new sent link stage moved =>
      cases c with
      | transmitter =>
          exact Takes.one rfl new moved (Counters.recordPacket_consumed p.counters sent)
      | tracker | estimator | solver => cases sent <;> exact ⟨rfl, rfl⟩

variable {p : Pipeline δ φ σ}

/-- The cursor of a consumer stands at a version that was published. -/
theorem last_le_offered (h : p.Conserved) (c : Consumer) :
    (p.cursor c).last ≤ p.board.offered c := by
  cases c with
  | tracker => exact h.cycles.published
  | estimator => exact h.measurements.published
  | solver => exact h.solutions.published
  | transmitter => exact h.packets.published

/-- A consumer takes nothing that is not newer than all that it has taken. -/
theorem lt_of_takes (h : p.Conserved) {c : Consumer} {t : Turn} {version : Nat}
    (htakes : p.takes c t = some version) : (p.cursor c).last < version := by
  unfold takes at htakes
  by_cases hturn : t.consumer = some c
  · rw [if_pos hturn] at htakes
    cases c with
    | tracker => exact Cursor.lt_of_news h.cycles htakes
    | estimator => exact Cursor.lt_of_news h.measurements htakes
    | solver => exact Cursor.lt_of_news h.solutions htakes
    | transmitter => exact Cursor.lt_of_news h.packets htakes
  · rw [if_neg hturn] at htakes
    exact absurd htakes.symm (Option.some_ne_none version)

section Runs

variable [ElementaryFunctions] (equipment : Equipment δ φ σ)

/-- The versions that a consumer takes in a run, in order. -/
def intake (c : Consumer) (p : Pipeline δ φ σ) : List Turn → List Nat
  | [] => []
  | t :: rest => (p.takes c t).toList ++ intake c (p.turn equipment t).1 rest

/-- What has been reported makes no difference to what the turns do. -/
theorem run_eq_foldl (p : Pipeline δ φ σ) (turns : List Turn) :
    (p.run equipment turns).1 = turns.foldl (fun q t => (q.turn equipment t).1) p := by
  unfold run
  generalize ([] : List Log.Line) = log
  induction turns generalizing p log with
  | nil => rfl
  | cons t rest ih => exact ih (p.turn equipment t).1 _

/-- A run goes on from what its first turn leaves. -/
theorem run_cons (p : Pipeline δ φ σ) (t : Turn) (rest : List Turn) :
    (p.run equipment (t :: rest)).1 = ((p.turn equipment t).1.run equipment rest).1 := by
  rw [run_eq_foldl, run_eq_foldl, List.foldl_cons]

/-- What a run keeps. -/
theorem run_conserved (h : p.Conserved) (turns : List Turn) :
    (p.run equipment turns).1.Conserved := by
  induction turns generalizing p with
  | nil => exact h
  | cons t rest ih =>
      rw [run_cons]
      exact ih ((turn_effect equipment p t).conserved h)

/-- A run counts the failures of devices. -/
theorem run_deviceErrors (p : Pipeline δ φ σ) (turns : List Turn) :
    (p.run equipment turns).1.counters.deviceErrors =
      p.counters.deviceErrors + turns.countP Turn.deviceFails := by
  induction turns generalizing p with
  | nil => rfl
  | cons t rest ih =>
      rw [run_cons, ih, (turn_effect equipment p t).deviceErrors, List.countP_cons]
      cases t.deviceFails with
      | true => exact Nat.add_right_comm _ 1 _
      | false => rfl

/-- A run counts what a consumer takes. -/
theorem run_consumed (p : Pipeline δ φ σ) (c : Consumer) (turns : List Turn) :
    (p.run equipment turns).1.counters.consumed c =
      p.counters.consumed c + (intake equipment c p turns).length := by
  induction turns generalizing p with
  | nil => rfl
  | cons t rest ih =>
      rw [run_cons, ih, ((turn_effect equipment p t).takes c).consumed, intake, List.length_append,
        Nat.add_assoc]

/-- A consumer takes ever newer versions: all of them lie beyond the one that its cursor stands at
before the run, and none beyond the one that it stands at afterwards. -/
theorem intake_increasing (h : p.Conserved) (c : Consumer) (turns : List Turn) :
    (intake equipment c p turns).Pairwise (· < ·) ∧
      (∀ v ∈ intake equipment c p turns,
        (p.cursor c).last < v ∧ v ≤ ((p.run equipment turns).1.cursor c).last) ∧
      (p.cursor c).last ≤ ((p.run equipment turns).1.cursor c).last := by
  induction turns generalizing p with
  | nil => exact ⟨List.Pairwise.nil, fun v hv => absurd hv List.not_mem_nil, Nat.le_refl _⟩
  | cons t rest ih =>
      rcases ih ((turn_effect equipment p t).conserved h) with ⟨hordered, hbetween, hle⟩
      have hlast := ((turn_effect equipment p t).takes c).last
      rw [hlast] at hbetween hle
      rw [run_cons, intake]
      cases htakes : p.takes c t with
      | none =>
          rw [htakes] at hbetween hle
          exact ⟨hordered, hbetween, hle⟩
      | some version =>
          -- The cursor stands at the version that was taken, so the rest lies beyond it.
          rw [htakes] at hbetween hle
          have hlt := lt_of_takes h htakes
          refine ⟨List.Pairwise.cons (fun v hv => (hbetween v hv).1) hordered, fun v hv => ?_,
            Nat.le_trans (Nat.le_of_lt hlt) hle⟩
          rcases List.mem_cons.mp hv with rfl | hv
          · exact ⟨hlt, hle⟩
          · exact ⟨Nat.lt_trans hlt (hbetween v hv).1, (hbetween v hv).2⟩

/-- Nothing comes out of the pipeline that did not go in. After every sequence of turns, with
whatever the devices, the detection model, the filter and the link have done in them: every captured
frame and every reading of the orientation is published and counted, and so is every failure of a
device that was no timeout; the tracker has seen no more frames than there were, and published and
counted no more states than it saw frames; the estimator has taken no more measurements than there
were states, nor than it ticked, and published no more states than it ticked; the solver has
published and counted one correction for each state that it took; the leads that were not found are
among the corrections; and no more packets were tried than there were corrections. Every consumer
has taken ever newer versions of the slot that it reads, and has counted every one of them. -/
theorem conservation (settings : Settings) (model : δ) (filter : φ) (link : σ)
    (turns : List Turn) :
    let p := ((new settings model filter link).run equipment turns).1
    p.board.frame.version = p.counters.framesCaptured ∧
    p.board.orientation.version = p.counters.orientationUpdates ∧
    p.counters.deviceErrors = turns.countP Turn.deviceFails ∧
    p.counters.perceptionCycles ≤ p.board.frame.version ∧
    p.board.raw.version = p.counters.rawStatesPublished ∧
    p.counters.rawStatesPublished ≤ p.counters.perceptionCycles ∧
    p.counters.estimatorMeasurements ≤ p.board.raw.version ∧
    p.counters.estimatorMeasurements ≤ p.counters.estimatorTicks ∧
    p.board.smoothed.version ≤ p.counters.estimatorTicks ∧
    p.board.aim.version = p.counters.aimUpdates ∧
    p.counters.aimUpdates ≤ p.board.smoothed.version ∧
    p.counters.leadsNotConverged ≤ p.counters.aimUpdates ∧
    p.counters.packetsSent + p.counters.sendFailures ≤ p.board.aim.version ∧
    ∀ c : Consumer,
      (intake equipment c (new settings model filter link) turns).Pairwise (· < ·) ∧
      (∀ v ∈ intake equipment c (new settings model filter link) turns,
        0 < v ∧ v ≤ p.board.offered c) ∧
      p.counters.consumed c =
        (intake equipment c (new settings model filter link) turns).length := by
  intro p
  have hnew := new_conserved (δ := δ) settings model filter link
  -- Each line is a field of the invariant or follows from a cursor within its slot.
  have h := run_conserved equipment hnew turns
  refine ⟨h.frames, h.orientations, ?_, h.cycles.le_version, h.states,
    h.states_le, h.measurements.le_version, h.measurements_le,
    h.smoothed_le, h.aims, h.solutions.le_version, h.leads_le,
    h.packets.le_version, fun c => ?_⟩
  · exact (run_deviceErrors equipment _ turns).trans (Nat.zero_add _)
  -- Versions are taken in increasing order, and the last one is at most the newest offered.
  · rcases intake_increasing equipment hnew c turns with ⟨hordered, hbetween, _⟩
    refine ⟨hordered, fun v hv => ?_, ?_⟩
    · exact ⟨Nat.lt_of_le_of_lt (Nat.zero_le _) (hbetween v hv).1,
        Nat.le_trans (hbetween v hv).2 (last_le_offered h c)⟩
    · rw [run_consumed equipment _ c turns]
      cases c <;> exact Nat.zero_add _

end Runs

end Pipeline

end FireControl
