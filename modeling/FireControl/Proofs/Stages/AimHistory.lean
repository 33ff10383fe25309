import FireControl.Proofs.Numeric.Single
import FireControl.Proofs.Stages.Effects

/-!
# What the Solver Keeps of Its History

The aim stage looks for a new state whenever it is its turn, and mostly there is none. In between
states are published, orientations are published and the bullet speed is measured, at any pace. Of
all this the stage keeps four things: two filtered numbers, the lead found last, and two counters
outside. What they are after a run can be told from the samples that its productive turns have read,
and no other event and no other turn leaves a trace in them.

Which turns are productive, and what they read, can again be told from the events alone. `AimLog`
keeps the state that no turn has read yet, the speed that was measured last, and the samples so far;
the stage, which knows none of these, but only a version, goes along with it.

The age of a state is a sample of the processing time. It is never refused, because a span that
begins and ends within the time that a clock can show has a finite number of seconds.

## Main definitions

* `AimEvent`, `Pipeline.meet`: What can happen around the stage.
* `Instant.InTime`: A moment that a clock can show.
* `AimSample`, `Pipeline.reading`, `Pipeline.readings`: What the productive turns read.
* `filteredSpeed`, `filteredTime`, `leads`: What the samples add up to.
* `AimLog`: What a history says about the next turn.
* `AimLog.Describes`: How a history shows in the pipeline.

## Theorems

* `Span.secondsSingle_usable`: A span has a finite number of seconds.
* `AimSample.latency_usable`: The age of a state is not refused.
* `solverAfter_concat`: What one more sample does to the solver.
* `AimLog.Describes.meet`: Every event keeps the history and the pipeline together.
* `Pipeline.solver_folds_samples`: What holds of the stage after every run.
-/

namespace FireControl

open Float.Model Float.Model.Format

/-! ### Seconds -/

namespace Span

theorem hasValue_billion : (1000000000 : Float32).HasValue 1000000000 :=
  hasValue_positive (m := 15625000) (e := 6) (by decide) rfl (by norm_num)

/-- A span has a finite number of seconds, which is not negative, as long as its whole seconds fit
into a word. -/
theorem secondsSingle_usable {span : Span} (h : span.nanoseconds < 2 ^ 64 * 1000000000) :
    span.secondsSingle.isFinite = true ∧ 0 ≤ span.secondsSingle := by
  have hwhole : span.wholeSeconds ≤ 2 ^ 64 :=
    (Nat.div_lt_of_lt_mul (by rwa [mul_comm] at h)).le
  have hsub : span.subsecond ≤ 2 ^ 30 :=
    (Nat.mod_lt span.nanoseconds (by decide)).le.trans (by decide)
  -- Whole seconds and the rest are converted apart: both are small enough to be finite.
  rcases Float32.ofInteger_small hwhole (by decide) with ⟨hx, hx0, hx1⟩
  rcases Float32.ofInteger_small hsub (by decide) with ⟨hy, hy0, hy1⟩
  unfold secondsSingle
  generalize binary32.rounded (span.wholeSeconds : ℚ) = x at hx hx0 hx1
  generalize binary32.rounded (span.subsecond : ℚ) = y at hy hy0 hy1
  have hquotient0 : 0 ≤ y / 1000000000 := by positivity
  have hquotient1 : y / 1000000000 ≤ 2 ^ 1 := by
    rw [div_le_iff₀ (by norm_num)]
    norm_num at hy1 ⊢
    linarith
  have hz := Float32.abs_rounded_le_pow (abs_le.mpr ⟨by linarith, hquotient1⟩)
  have hz0 := rounded_nonneg (F := binary32) hquotient0
  have hdiv := hy.div hasValue_billion (by norm_num) (hz.trans_lt (by
    rw [binary32_limit]
    norm_num))
  -- Two finite numbers of at least 0, far below the limit: so is their sum.
  have hsum0 := add_nonneg hx0 hz0
  have hsum := hx.add hdiv (abs_rounded_lt_limit (by
    rw [abs_of_nonneg hsum0]
    have := le_of_abs_le hz
    norm_num at hx1 this ⊢
    linarith))
  exact ⟨hsum.isFinite, (hasValue_zero.le_iff hsum).mpr (rounded_nonneg hsum0)⟩

end Span

/-! ### Samples -/

/-- What can happen around the aim stage. -/
inductive AimEvent where
  /-- The estimator publishes a state. -/
  | smoothed (state : RobotState)
  /-- The orientation is published. -/
  | oriented (o : Orientation)
  /-- The bullet speed is measured. -/
  | measured (speed : Float32)
  /-- It is the stage's turn. -/
  | poll (now : Instant)

/-- A moment whose whole seconds fit into a word. -/
def Instant.InTime (now : Instant) : Prop :=
  now.nanoseconds < 2 ^ 64 * 1000000000

/-- Whether an event is no turn, or a turn at a moment that a clock can show. -/
def AimEvent.InTime : AimEvent → Prop
  | .smoothed _ => True
  | .oriented _ => True
  | .measured _ => True
  | .poll now => now.InTime

/-- What a productive turn reads. -/
structure AimSample where
  state : RobotState
  /-- The bullet speed on the board. -/
  speed : Float32
  now : Instant

namespace AimSample

/-- The age of the state, in seconds. -/
def latency (s : AimSample) : Float32 :=
  (s.now.since s.state.time).secondsSingle

/-- The age of a state is a sample that is not refused. -/
theorem latency_usable {s : AimSample} (h : s.now.InTime) :
    (s.latency.isFinite && decide (0 ≤ s.latency)) = true := by
  have hspan : (s.now.since s.state.time).nanoseconds < 2 ^ 64 * 1000000000 :=
    (Nat.sub_le _ _).trans_lt h
  rcases Span.secondsSingle_usable hspan with ⟨hfinite, hnonneg⟩
  rw [Bool.and_eq_true, decide_eq_true_eq]
  exact ⟨hfinite, hnonneg⟩

end AimSample

/-- The bullet speed that some samples add up to: those that are positive and finite, from the left,
from the speed that the settings give. -/
def filteredSpeed (settings : AimSettings) (samples : List AimSample) : Float32 :=
  ((samples.map AimSample.speed).filter Float32.isPositiveFinite).foldl
    (fun speed sample => lowPass speed sample settings.speedAlpha) settings.initialBulletSpeed

/-- The processing time that some samples add up to. -/
def filteredTime (settings : AimSettings) (samples : List AimSample) : Float32 :=
  (samples.map AimSample.latency).foldl
    (fun time sample => lowPass time sample settings.latencyAlpha) settings.initialProcessingTime

theorem filteredSpeed_concat (settings : AimSettings) (samples : List AimSample) (s : AimSample) :
    filteredSpeed settings (samples ++ [s]) =
      if s.speed.isPositiveFinite then
        lowPass (filteredSpeed settings samples) s.speed settings.speedAlpha
      else filteredSpeed settings samples := by
  unfold filteredSpeed
  rw [List.map_append, List.filter_append, List.foldl_append, List.map_singleton]
  by_cases h : s.speed.isPositiveFinite = true
  · rw [if_pos h, List.filter_singleton, h]
    rfl
  · rw [if_neg h, List.filter_singleton, Bool.of_not_eq_true h]
    rfl

theorem filteredTime_concat (settings : AimSettings) (samples : List AimSample) (s : AimSample) :
    filteredTime settings (samples ++ [s]) =
      lowPass (filteredTime settings samples) s.latency settings.latencyAlpha := by
  unfold filteredTime
  rw [List.map_append, List.foldl_append]
  rfl

section Leads

variable [ElementaryFunctions]

/-- The lead on the state of a sample, with what all samples up to it add up to. -/
def leadOn (settings : AimSettings) (samples : List AimSample) (s : AimSample) : LeadSolution :=
  LeadProblem.solve
    { target := s.state.toMotion, speed := filteredSpeed settings samples,
      latency := filteredTime settings samples + settings.actuationLatency,
      threshold := settings.convergenceThreshold }
    settings.maxIterations.toNat

/-- The leads on the states of some samples, after those before them. -/
def leadsAfter (settings : AimSettings) (before : List AimSample) :
    List AimSample → List LeadSolution
  | [] => []
  | s :: rest => leadOn settings (before ++ [s]) s :: leadsAfter settings (before ++ [s]) rest

/-- The leads on the states of some samples, in order. -/
def leads (settings : AimSettings) (samples : List AimSample) : List LeadSolution :=
  leadsAfter settings [] samples

theorem leadsAfter_concat (settings : AimSettings) (before samples : List AimSample)
    (s : AimSample) :
    leadsAfter settings before (samples ++ [s]) =
      leadsAfter settings before samples ++ [leadOn settings (before ++ samples ++ [s]) s] := by
  induction samples generalizing before with
  | nil =>
      rw [List.append_nil, List.nil_append, leadsAfter, leadsAfter, leadsAfter, List.nil_append]
  | cons first rest ih =>
      rw [List.cons_append, leadsAfter, leadsAfter, ih, List.cons_append, List.append_assoc before,
        List.singleton_append]

theorem leads_concat (settings : AimSettings) (samples : List AimSample) (s : AimSample) :
    leads settings (samples ++ [s]) =
      leads settings samples ++ [leadOn settings (samples ++ [s]) s] :=
  leadsAfter_concat settings [] samples s

/-- The solver after some samples. -/
def solverAfter (settings : AimSettings) (samples : List AimSample) : AimSolver :=
  { settings := settings, bulletSpeed := filteredSpeed settings samples,
    processingTime := filteredTime settings samples,
    lastLead := (leads settings samples).getLast? }

/-- The counters after some samples, where nothing else is counted. -/
def countersAfter (settings : AimSettings) (samples : List AimSample) : Counters :=
  { Counters.zero with
    aimUpdates := samples.length
    leadsNotConverged := (leads settings samples).countP fun lead => !lead.converged }

theorem sample_solverAfter (settings : AimSettings) (samples : List AimSample) {s : AimSample}
    (h : s.now.InTime) :
    (solverAfter settings samples).sample s.state s.speed s.now =
      { solverAfter settings samples with
        bulletSpeed := filteredSpeed settings (samples ++ [s])
        processingTime := filteredTime settings (samples ++ [s]) } := by
  have hlatency := AimSample.latency_usable h
  unfold AimSolver.sample AimSolver.updateProcessingTime
  -- The latency of an instant in time is never refused; the measured speed may be.
  rw [show (s.now.since s.state.time).secondsSingle = s.latency from rfl, if_pos hlatency,
    filteredSpeed_concat, filteredTime_concat]
  unfold AimSolver.updateBulletSpeed
  by_cases hspeed : s.speed.isPositiveFinite = true
  · rw [if_pos hspeed, if_pos hspeed]
    rfl
  · rw [if_neg hspeed, if_neg hspeed]
    rfl

theorem solverAfter_concat (settings : AimSettings) (samples : List AimSample) {s : AimSample}
    (h : s.now.InTime) (latest : Option Orientation) :
    ((solverAfter settings samples).solve s.state latest s.speed s.now).2 =
      solverAfter settings (samples ++ [s]) := by
  unfold AimSolver.solve
  rw [sample_solverAfter settings samples h, solverAfter, solverAfter, leads_concat,
    List.getLast?_concat]
  rfl

/-- The counters after one more sample, whose lead is looked up in the solver. -/
theorem countersAfter_concat (settings : AimSettings) (samples : List AimSample) (s : AimSample) :
    (countersAfter settings samples).recordAim
        ((solverAfter settings (samples ++ [s])).lastLead.all LeadSolution.converged) =
      countersAfter settings (samples ++ [s]) := by
  rw [solverAfter, countersAfter, countersAfter, leads_concat, List.getLast?_concat,
    List.countP_append, List.length_append]
  -- The lead that the solver keeps is the last one of the list, which is the one to be counted.
  cases hconverged : (leadOn settings (samples ++ [s]) s).converged with
  | true => simp [Counters.recordAim, hconverged]
  | false => simp [Counters.recordAim, hconverged]

end Leads

/-! ### Histories -/

/-- What a history says about the next turn, and the samples of the turns before. -/
structure AimLog where
  /-- The newest state, if no turn has read it yet. -/
  fresh : Option RobotState
  /-- The bullet speed measured last, or zero. -/
  speed : Float32
  samples : List AimSample

namespace AimLog

/-- The log of an empty history. -/
def empty : AimLog :=
  ⟨none, 0, []⟩

/-- The log after one more event. A turn is productive where there is a fresh state. -/
def note (log : AimLog) : AimEvent → AimLog
  | .smoothed state => { log with fresh := some state }
  | .oriented _ => log
  | .measured speed => { log with speed := speed }
  | .poll now =>
    match log.fresh with
    | none => log
    | some state =>
      { log with fresh := none, samples := log.samples ++ [⟨state, log.speed, now⟩] }

end AimLog

namespace Pipeline

variable [ElementaryFunctions] {δ φ σ : Type}

/-- What an event does. -/
def meet (p : Pipeline δ φ σ) : AimEvent → Pipeline δ φ σ
  | .smoothed state => { p with board := p.board.publishSmoothed state }
  | .oriented o => { p with board := p.board.publishOrientation o }
  | .measured speed => { p with board := p.board.setBulletSpeed speed }
  | .poll now => p.aim now

/-- What a sequence of events does. -/
def meetAll (p : Pipeline δ φ σ) (events : List AimEvent) : Pipeline δ φ σ :=
  events.foldl meet p

/-- What the stage answers if it is its turn. -/
def answer (p : Pipeline δ φ σ) (now : Instant) : Option AimReport :=
  (p.aimer.poll p.board now).1

/-- What an event lets the stage read: something in a turn that is answered, and nothing
otherwise. -/
def reading (p : Pipeline δ φ σ) : AimEvent → Option AimSample
  | .smoothed _ => none
  | .oriented _ => none
  | .measured _ => none
  | .poll now =>
    if (p.answer now).isSome then
      p.board.smoothed.latest.map fun state => ⟨state, p.board.bulletSpeed, now⟩
    else none

/-- What the stage reads in the answered turns of a sequence of events. -/
def readings (p : Pipeline δ φ σ) : List AimEvent → List AimSample
  | [] => []
  | e :: rest => (p.reading e).toList ++ (p.meet e).readings rest

end Pipeline

/-- How a history shows in the pipeline. -/
structure AimLog.Describes [ElementaryFunctions] {δ φ σ : Type} (log : AimLog)
    (settings : AimSettings) (p : Pipeline δ φ σ) : Prop where
  speed : p.board.bulletSpeed = log.speed
  last_le : p.aimer.cursor.last ≤ p.board.smoothed.version
  fresh : log.fresh =
    if p.aimer.cursor.last < p.board.smoothed.version then p.board.smoothed.latest else none
  solver : p.aimer.solver = solverAfter settings log.samples
  counters : p.counters = countersAfter settings log.samples

section Runs

variable [ElementaryFunctions] {δ φ σ : Type} {log : AimLog} {settings : AimSettings}
  {p : Pipeline δ φ σ}

namespace AimLog.Describes

/-- A turn in which nothing is new changes nothing. -/
theorem aim_eq_self (h : log.Describes settings p)
    (hold : ¬ p.aimer.cursor.last < p.board.smoothed.version) (now : Instant) :
    p.answer now = none ∧ p.aim now = p := by
  have hpoll := Cursor.poll_eq h.last_le
  rw [if_neg hold] at hpoll
  have hturn : p.aimer.poll p.board now = (none, p.aimer) := by rw [Aimer.poll, hpoll]
  exact ⟨congrArg Prod.fst hturn, by rw [Pipeline.aim, hturn]⟩

/-- A turn in which a state is new solves for it and counts the lead. -/
theorem exists_aim_eq (h : log.Describes settings p)
    (hnew : p.aimer.cursor.last < p.board.smoothed.version) (now : Instant) :
    ∃ state output, p.board.smoothed.latest = some state ∧ (p.answer now).isSome = true ∧
      let solver := (p.aimer.solver.solve state p.board.latestOrientation p.board.bulletSpeed now).2
      p.aim now =
        { p with
          aimer := ⟨solver, ⟨p.board.smoothed.version⟩⟩
          counters := p.counters.recordAim (solver.lastLead.all LeadSolution.converged)
          board := p.board.publishAim output } := by
  -- A version past the cursor's is a published one, so the slot holds a snapshot.
  rcases Slot.exists_current (Nat.zero_lt_of_lt hnew) with ⟨snapshot, hcurrent⟩
  have hpoll := Cursor.poll_eq h.last_le
  rw [if_pos hnew, hcurrent] at hpoll
  refine ⟨snapshot.value,
    (p.aimer.solver.solve snapshot.value p.board.latestOrientation p.board.bulletSpeed now).1,
    ?_, ?_, ?_⟩
  · rw [Slot.latest, hcurrent]
    rfl
  · rw [Pipeline.answer, Aimer.poll, hpoll]
    rfl
  · rw [Pipeline.aim, Aimer.poll, hpoll]

/-- The stage answers exactly where a version is newer than the one that it took last. -/
theorem answer_isSome_iff (h : log.Describes settings p) (now : Instant) :
    (p.answer now).isSome = true ↔ p.aimer.cursor.last < p.board.smoothed.version := by
  by_cases hnew : p.aimer.cursor.last < p.board.smoothed.version
  · rcases h.exists_aim_eq hnew now with ⟨_, _, -, hanswer, -⟩
    exact iff_of_true hanswer hnew
  · rw [(h.aim_eq_self hnew now).1]
    exact iff_of_false Bool.false_ne_true hnew

/-- An answered turn reads a sample, and no other turn does. -/
theorem reading_isSome (h : log.Describes settings p) (now : Instant) :
    (p.reading (.poll now)).isSome = (p.answer now).isSome := by
  rw [Pipeline.reading]
  by_cases hanswer : (p.answer now).isSome = true
  · rcases h.exists_aim_eq ((h.answer_isSome_iff now).mp hanswer) now with ⟨_, _, hstate, -⟩
    rw [if_pos hanswer, hstate, hanswer]
    rfl
  · rw [if_neg hanswer, Bool.of_not_eq_true hanswer]
    rfl

theorem new (settings : Settings) (model : δ) (filter : φ) (link : σ) :
    empty.Describes settings.aim (Pipeline.new settings model filter link) :=
  ⟨rfl, Nat.le_refl 0, rfl, rfl, rfl⟩

/-- Every event keeps the history and the pipeline together, and what is read is what the history
says. -/
theorem meet (h : log.Describes settings p) {e : AimEvent} (inTime : e.InTime) :
    (log.note e).Describes settings (p.meet e) ∧
      (log.note e).samples = log.samples ++ (p.reading e).toList := by
  cases e with
  | smoothed state =>
      have hnew : p.aimer.cursor.last < (p.board.smoothed.publish state).version :=
        Nat.lt_succ_of_le h.last_le
      refine ⟨⟨h.speed, hnew.le, ?_, h.solver, h.counters⟩, (List.append_nil _).symm⟩
      exact (if_pos hnew).symm
  | oriented o =>
      exact ⟨⟨h.speed, h.last_le, h.fresh, h.solver, h.counters⟩, (List.append_nil _).symm⟩
  | measured speed =>
      exact ⟨⟨rfl, h.last_le, h.fresh, h.solver, h.counters⟩, (List.append_nil _).symm⟩
  | poll now =>
      have hfresh := h.fresh
      have hanswer := h.answer_isSome_iff now
      by_cases hnew : p.aimer.cursor.last < p.board.smoothed.version
      · -- The state on the board is the fresh one, and the turn takes it off the log.
        rcases h.exists_aim_eq hnew now with ⟨state, output, hstate, -, haim⟩
        rw [if_pos hnew, hstate] at hfresh
        have hnote : log.note (.poll now) =
            { log with fresh := none, samples := log.samples ++ [⟨state, log.speed, now⟩] } := by
          rw [note, hfresh]
        have hreading : p.reading (.poll now) = some ⟨state, log.speed, now⟩ := by
          rw [Pipeline.reading, if_pos (hanswer.mpr hnew), hstate, h.speed]
          rfl
        have hsolver := solverAfter_concat settings log.samples
          (s := ⟨state, log.speed, now⟩) inTime p.board.latestOrientation
        simp only [h.solver, h.speed, h.counters] at haim
        rw [hsolver, countersAfter_concat] at haim
        rw [hnote, hreading, Pipeline.meet, haim]
        have hseen : ¬ p.board.smoothed.version < p.board.smoothed.version := Nat.lt_irrefl _
        exact ⟨⟨h.speed, Nat.le_refl _, (if_neg hseen).symm, rfl, rfl⟩, rfl⟩
      · rw [if_neg hnew] at hfresh
        have hnote : log.note (.poll now) = log := by rw [note, hfresh]
        have hreading : p.reading (.poll now) = none := by
          rw [Pipeline.reading, if_neg (mt hanswer.mp hnew)]
        rw [hnote, hreading, Pipeline.meet, (h.aim_eq_self hnew now).2]
        exact ⟨h, (List.append_nil _).symm⟩

theorem meetAll (h : log.Describes settings p) {events : List AimEvent}
    (inTime : ∀ e ∈ events, e.InTime) :
    (events.foldl note log).Describes settings (p.meetAll events) ∧
      (events.foldl note log).samples = log.samples ++ p.readings events := by
  induction events generalizing log p with
  | nil => exact ⟨h, (List.append_nil _).symm⟩
  | cons e rest ih =>
      rw [List.forall_mem_cons] at inTime
      rcases h.meet inTime.1 with ⟨hnext, hsamples⟩
      rcases ih hnext inTime.2 with ⟨hrest, hall⟩
      rw [hsamples, List.append_assoc] at hall
      exact ⟨hrest, hall⟩

end AimLog.Describes

/-- What holds of the aim stage after every sequence of states, orientations, measured bullet speeds
and turns, in any order. Its turn is answered exactly where a version is newer than the one that it
took last; then it reads one sample, and a turn that is not answered changes nothing. What the
answered turns have read are the states that were fresh, with the speed measured last. The filtered
bullet speed is the fold of the speeds that were read and were positive and finite, the processing
time is the fold of the ages of the states, and the lead kept is the one on the last of them. One
counter counts the answered turns, another one those whose lead was not found, and nothing else has
been counted. -/
theorem Pipeline.solver_folds_samples (settings : Settings) (model : δ) (filter : φ) (link : σ)
    (events : List AimEvent) (inTime : ∀ e ∈ events, e.InTime) :
    let start := new settings model filter link
    let p := start.meetAll events
    let samples := start.readings events
    (∀ now,
      ((p.answer now).isSome = true ↔ p.aimer.cursor.last < p.board.smoothed.version) ∧
      (p.reading (.poll now)).isSome = (p.answer now).isSome ∧
      (p.answer now = none → p.aim now = p)) ∧
    samples = (events.foldl AimLog.note .empty).samples ∧
    p.aimer.solver =
      { settings := settings.aim
        bulletSpeed :=
          ((samples.map AimSample.speed).filter Float32.isPositiveFinite).foldl
            (fun speed sample => lowPass speed sample settings.aim.speedAlpha)
            settings.aim.initialBulletSpeed
        processingTime :=
          (samples.map AimSample.latency).foldl
            (fun time sample => lowPass time sample settings.aim.latencyAlpha)
            settings.aim.initialProcessingTime
        lastLead := (leads settings.aim samples).getLast? } ∧
    p.counters =
      { Counters.zero with
        aimUpdates := samples.length
        leadsNotConverged := (leads settings.aim samples).countP fun lead => !lead.converged } := by
  intro start p samples
  -- The log has noted the samples, and the solver and counters are those of the log.
  rcases (AimLog.Describes.new settings model filter link).meetAll inTime with ⟨h, hsamples⟩
  have hread : samples = (events.foldl AimLog.note .empty).samples := hsamples.symm
  refine ⟨fun now => ⟨h.answer_isSome_iff now, h.reading_isSome now, fun hnone => ?_⟩, hread,
    ?_, ?_⟩
  · refine (h.aim_eq_self (fun hnew => ?_) now).2
    have hsome := (h.answer_isSome_iff now).mpr hnew
    rw [hnone] at hsome
    exact absurd hsome Bool.false_ne_true
  · rw [hread]
    exact h.solver
  · rw [hread]
    exact h.counters

end Runs

/-- A stage that looks for a state three times, with one state between the first time and the
second. -/
theorem Pipeline.solver_folds_samples_once :
    let _ : ElementaryFunctions := .native
    let state := RobotState.atRest ⟨1⟩ ⟨0, 0, 4⟩ 0 0.2 ⟨0⟩
    let events : List AimEvent :=
      [.poll ⟨0⟩, .measured (0 / 0), .smoothed state, .measured 30, .poll ⟨1000⟩, .poll ⟨2000⟩]
    let start : Pipeline Unit Unit Unit := new default () () ()
    (∀ e ∈ events, e.InTime) ∧ start.readings events = [⟨state, 30, ⟨1000⟩⟩] ∧
      (start.meetAll events).counters.aimUpdates = 1 ∧
      (start.meetAll events).aimer.solver.bulletSpeed = lowPass 20 30 0.1 := by
  intro _ state events start
  have inTime : ∀ e ∈ events, e.InTime := by
    simp [events, AimEvent.InTime, Instant.InTime]
  rcases solver_folds_samples default () () () events inTime with ⟨-, hsamples, hsolver, hcounters⟩
  -- The NaN was measured before, but a poll reads the speed that was measured last.
  have hread : start.readings events = [⟨state, 30, ⟨1000⟩⟩] := hsamples
  refine ⟨inTime, hread, ?_, ?_⟩
  · rw [hcounters]
    exact congrArg List.length hread
  · have husable : (30 : Float32).isPositiveFinite = true := by decide +kernel
    rw [hsolver, hread]
    simp only [List.map_singleton, List.filter_singleton, husable]
    rfl

end FireControl
