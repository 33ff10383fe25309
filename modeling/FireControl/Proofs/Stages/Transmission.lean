import FireControl.Proofs.Stages.Effects

/-!
# Every Correction Is Tried at Most Once

Corrections and orientations are published at any time, by whoever has them, and the transmitter
polls in between. It hands the packet of a correction to the link when it finds one that it has not
taken before, and it takes the correction by that alone: whether the link writes the packet, refuses
it or writes a part of it, the next poll looks for a newer one. So the number of polls that tried a
packet is the number of packets that the link was handed, and the two counters share it out between
the writes that succeeded and those that failed.

What the link does is unknown, so it is asked. `Link.recorded` keeps a list of all that a link is
handed, with what became of it, and otherwise does what the link does. The corrections and the
orientations are read off the events, and the version of a correction is its place among them.

## Main definitions

* `Link.recorded`: A link that keeps a record of what it is handed.
* `UplinkEvent`, `Pipeline.uplink`: What can happen, and what it does.
* `Pipeline.tries`, `Pipeline.attempts`: Whether a poll tries a packet, and the versions tried.
* `Transmitter.due`: What a poll has to hand over.
* `Pipeline.Accounted`: What every event keeps.

## Theorems

* `transmit_of_taken`, `transmit_of_new`: What a poll does without and with a new correction.
* `Accounted.event`: What every event keeps.
* `corrections_tried_once`: What holds after every run.
-/

namespace FireControl

/-- What a link was handed, and whether all of it was written. -/
structure WriteAttempt where
  bytes : List UInt8
  sent : Bool

/-- The link with a record of what it has been handed. -/
def Link.recorded {σ : Type} (link : Link σ) : Link (σ × List WriteAttempt) where
  write state bytes :=
    let delivery := link.write state.1 bytes
    ⟨(delivery.state, state.2 ++ [⟨bytes, delivery.result.isOk⟩]), delivery.result, delivery.log⟩

/-- The record gains one entry with every packet, and the link does what it does without it. -/
theorem Link.send_recorded {σ : Type} (link : Link σ) (state : σ) (record : List WriteAttempt)
    (packet : Packet) :
    let plain := link.send state packet
    link.recorded.send (state, record) packet =
      ⟨(plain.state, record ++ [⟨packet.encode, plain.sent⟩]), plain.sent, plain.log⟩ := by
  simp only [Link.send, Link.recorded]
  cases (link.write state packet.encode).result with
  | ok written => rfl
  | error e => rfl

/-- The bytes that a poll has to hand over, after these corrections and orientations, where the
version taken last is `taken`. -/
def Transmitter.due (limits : GimbalLimits) (aims : List AimOutput)
    (orientations : List Orientation) (taken : Nat) : Option (List UInt8) :=
  if taken = aims.length then none
  else aims.getLast?.map fun newest => (newest.packet limits orientations.getLast?).encode

/-- What can happen to the transmitter and to the slots that it reads. -/
inductive UplinkEvent where
  /-- A correction is published. -/
  | aim (output : AimOutput)
  /-- An orientation is published. -/
  | orientation (o : Orientation)
  /-- The transmitter looks for a new correction. -/
  | poll

namespace UplinkEvent

/-- The correction that is published, if it is one. -/
def aim? : UplinkEvent → Option AimOutput
  | .aim output => some output
  | .orientation _ => none
  | .poll => none

/-- The orientation that is published, if it is one. -/
def orientation? : UplinkEvent → Option Orientation
  | .aim _ => none
  | .orientation o => some o
  | .poll => none

end UplinkEvent

namespace Pipeline

variable {δ φ σ τ : Type}

/-- What an event does. -/
def uplink (link : Link σ) (p : Pipeline δ φ σ) : UplinkEvent → Pipeline δ φ σ
  | .aim output => { p with board := p.board.publishAim output }
  | .orientation o => { p with board := p.board.publishOrientation o }
  | .poll => (p.transmit link).1

/-- What a sequence of events does. -/
def uplinkRun (link : Link σ) (p : Pipeline δ φ σ) (events : List UplinkEvent) :
    Pipeline δ φ σ :=
  events.foldl (uplink link) p

/-- Whether a poll says that it has tried a packet. -/
def tries (link : Link σ) (p : Pipeline δ φ σ) : Bool :=
  (p.transmitter.poll link p.link p.board).1.isSome

/-- The version that is tried in an event, if one is. -/
def attempt (link : Link σ) (p : Pipeline δ φ σ) : UplinkEvent → Option Nat
  | .aim _ => none
  | .orientation _ => none
  | .poll => if p.tries link then some p.board.aim.version else none

/-- The versions that are tried in a sequence of events. -/
def attempts (link : Link σ) (p : Pipeline δ φ σ) : List UplinkEvent → List Nat
  | [] => []
  | e :: rest => (p.attempt link e).toList ++ attempts link (p.uplink link e) rest

/-- The pipeline with another link. -/
def relink (p : Pipeline δ φ σ) (state : τ) : Pipeline δ φ τ :=
  { board := p.board, counters := p.counters, perceiver := p.perceiver, estimator := p.estimator,
    aimer := p.aimer, transmitter := p.transmitter, link := state }

/-- The record makes no difference to what the events do. -/
theorem uplink_recorded (link : Link σ) (p : Pipeline δ φ (σ × List WriteAttempt))
    (e : UplinkEvent) :
    (p.uplink link.recorded e).relink (p.uplink link.recorded e).link.1 =
      (p.relink p.link.1).uplink link e := by
  cases e with
  | aim output => rfl
  | orientation o => rfl
  | poll =>
      simp only [uplink, transmit, relink, Transmitter.poll, Transmitter.send]
      cases (p.transmitter.cursor.poll p.board.aim).1 with
      | none => rfl
      | some snapshot => simp only [Link.send_recorded link p.link.1 p.link.2]

theorem uplinkRun_recorded (link : Link σ) (p : Pipeline δ φ (σ × List WriteAttempt))
    (events : List UplinkEvent) :
    (p.uplinkRun link.recorded events).relink (p.uplinkRun link.recorded events).link.1 =
      (p.relink p.link.1).uplinkRun link events := by
  induction events generalizing p with
  | nil => rfl
  | cons e rest ih =>
      rw [uplinkRun, List.foldl_cons, uplinkRun, List.foldl_cons, ← uplink_recorded]
      exact ih (p.uplink link.recorded e)

/-- What every event keeps, after these corrections and orientations and after the versions
`tried`. -/
structure Accounted (limits : GimbalLimits) (aims : List AimOutput)
    (orientations : List Orientation) (tried : List Nat)
    (p : Pipeline δ φ (σ × List WriteAttempt)) : Prop where
  bounds : p.transmitter.limits = limits
  aim_slot : p.board.aim = Slot.ofList aims
  orientation_slot : p.board.orientation = Slot.ofList orientations
  taken : p.transmitter.cursor.last = tried.getLastD 0
  published : tried.getLastD 0 ≤ aims.length
  ordered : tried.Pairwise (· < ·)
  tried_le : ∀ v ∈ tried, v ≤ tried.getLastD 0
  handed : p.link.2.length = tried.length
  sent : p.counters.packetsSent = p.link.2.countP WriteAttempt.sent
  failed : p.counters.sendFailures = p.link.2.countP fun h => !h.sent

variable {limits : GimbalLimits} {aims : List AimOutput} {orientations : List Orientation}
  {tried : List Nat} {p : Pipeline δ φ (σ × List WriteAttempt)}

theorem Accounted.news_eq (h : p.Accounted limits aims orientations tried) :
    p.transmitter.cursor.news p.board.aim =
      if tried.getLastD 0 = aims.length then none else some aims.length := by
  rw [h.aim_slot, ← h.taken]
  exact Cursor.news_ofList _ aims (h.taken ▸ h.published)

/-- Where the newest correction has been taken, a poll does nothing. -/
theorem Accounted.transmit_of_taken (link : Link (σ × List WriteAttempt))
    (h : p.Accounted limits aims orientations tried) (taken : tried.getLastD 0 = aims.length) :
    (p.transmit link).1 = p ∧ p.tries link = false := by
  have hpoll := Transmitter.poll_of_news_none p.transmitter link p.link p.board
    (h.news_eq.trans (if_pos taken))
  rw [transmit, tries, hpoll]
  exact ⟨rfl, rfl⟩

/-- Where there is a newer correction, a poll hands its packet to the link and takes it. -/
theorem Accounted.transmit_of_new (link : Link σ) (h : p.Accounted limits aims orientations tried)
    (new : tried.getLastD 0 ≠ aims.length) :
    ∃ (newest : AimOutput) (state : σ) (sent : Bool), aims.getLast? = some newest ∧
      p.tries link.recorded = true ∧
      (p.transmit link.recorded).1 =
        { p with
          transmitter := ⟨limits, ⟨aims.length⟩⟩
          link :=
            (state, p.link.2 ++ [⟨(newest.packet limits orientations.getLast?).encode, sent⟩])
          counters := p.counters.recordPacket sent } := by
  rcases Cursor.poll_of_news_some (h.news_eq.trans (if_neg new)) with ⟨snapshot, hpoll, -, -, -⟩
  have hlatest : aims.getLast? = some snapshot.value := by
    -- What a poll finds is what the slot shows.
    have hcurrent : p.board.aim.current = some snapshot := by
      unfold Cursor.poll at hpoll
      cases hslot : p.board.aim.current with
      | none => simp [hslot] at hpoll
      | some shown =>
          rw [hslot] at hpoll
          by_cases hold : shown.version = p.transmitter.cursor.last
          · simp [hold] at hpoll
          · simp only [if_neg hold, Prod.mk.injEq, Option.some.injEq] at hpoll
            rw [hpoll.1]
    rw [← Slot.latest_ofList, ← h.aim_slot, Slot.latest, hcurrent]
    rfl
  have horientation : p.board.latestOrientation = orientations.getLast? := by
    rw [Board.latestOrientation, h.orientation_slot, Slot.latest_ofList]
  let delivery := link.send p.link.1 (snapshot.value.packet limits orientations.getLast?)
  refine ⟨snapshot.value, delivery.state, delivery.sent, hlatest, ?_, ?_⟩
  · rw [tries, Transmitter.poll, hpoll]
    rfl
  · have hsend := Link.send_recorded link p.link.1 p.link.2
      (snapshot.value.packet limits orientations.getLast?)
    simp only [transmit, Transmitter.poll, hpoll, Transmitter.send, horientation, h.bounds]
    rw [hsend]

/-- A version that is tried lies beyond all that were tried before. -/
theorem Accounted.lt_of_new (h : p.Accounted limits aims orientations tried)
    (new : tried.getLastD 0 ≠ aims.length) : ∀ v ∈ tried, v < aims.length := fun v hv =>
  Nat.lt_of_le_of_lt (h.tried_le v hv) (Nat.lt_of_le_of_ne h.published new)

/-- A poll that tries a packet adds one to the versions, one to the record and one to a counter. -/
theorem Accounted.poll (link : Link σ) (h : p.Accounted limits aims orientations tried) :
    (p.uplink link.recorded .poll).Accounted limits aims orientations
      (tried ++ (p.attempt link.recorded .poll).toList) := by
  -- Nothing new: the poll changes nothing. Else the newest version is tried and the cursor
  -- moves to it, past every version tried before.
  by_cases htaken : tried.getLastD 0 = aims.length
  · rcases h.transmit_of_taken link.recorded htaken with ⟨htransmit, htries⟩
    rw [attempt, htries, uplink, htransmit, if_neg Bool.false_ne_true, Option.toList_none,
      List.append_nil]
    exact h
  · rcases h.transmit_of_new link htaken with ⟨newest, state, sent, -, htries, htransmit⟩
    have hversion : p.board.aim.version = aims.length := by rw [h.aim_slot, Slot.version_ofList]
    rw [attempt, htries, uplink, htransmit, if_pos rfl, hversion, Option.toList_some]
    have hlast : (tried ++ [aims.length]).getLastD 0 = aims.length := List.getLastD_concat
    have hlt := h.lt_of_new htaken
    exact
      { bounds := rfl
        aim_slot := h.aim_slot
        orientation_slot := h.orientation_slot
        taken := hlast.symm
        published := Nat.le_of_eq hlast
        ordered := List.pairwise_append.mpr
          ⟨h.ordered, List.pairwise_singleton _ _, by simpa using hlt⟩
        tried_le := by
          intro v hv
          rw [hlast]
          rcases List.mem_append.mp hv with hv | hv
          · exact Nat.le_of_lt (hlt v hv)
          · exact Nat.le_of_eq (List.mem_singleton.mp hv)
        handed := by rw [List.length_append, List.length_append, h.handed]; rfl
        sent := by
          cases sent <;> simp [Counters.recordPacket, List.countP_append, h.sent]
        failed := by
          cases sent <;> simp [Counters.recordPacket, List.countP_append, h.failed] }

/-- What every event keeps. -/
theorem Accounted.event (link : Link σ) (h : p.Accounted limits aims orientations tried)
    (e : UplinkEvent) :
    (p.uplink link.recorded e).Accounted limits (aims ++ e.aim?.toList)
      (orientations ++ e.orientation?.toList) (tried ++ (p.attempt link.recorded e).toList) := by
  -- A publication leaves the tries as they are; only a poll can add one.
  cases e with
  | aim output =>
      simp only [attempt, UplinkEvent.orientation?, UplinkEvent.aim?, Option.toList_none,
        Option.toList_some, List.append_nil]
      exact { h with
        aim_slot := by rw [uplink, Board.publishAim, h.aim_slot, Slot.publish_ofList]
        published := Nat.le_trans h.published (by simp) }
  | orientation o =>
      simp only [attempt, UplinkEvent.orientation?, UplinkEvent.aim?, Option.toList_none,
        Option.toList_some, List.append_nil]
      exact { h with
        orientation_slot := by
          rw [uplink, Board.publishOrientation, h.orientation_slot, Slot.publish_ofList] }
  | poll =>
      simp only [UplinkEvent.orientation?, UplinkEvent.aim?, Option.toList_none, List.append_nil]
      exact h.poll link

theorem Accounted.run (link : Link σ) (h : p.Accounted limits aims orientations tried)
    (events : List UplinkEvent) :
    (p.uplinkRun link.recorded events).Accounted limits
      (aims ++ events.filterMap UplinkEvent.aim?)
      (orientations ++ events.filterMap UplinkEvent.orientation?)
      (tried ++ p.attempts link.recorded events) := by
  induction events generalizing p aims orientations tried with
  | nil => simpa [attempts, uplinkRun] using h
  | cons e rest ih =>
      have hrest := ih (h.event link e)
      rw [List.append_assoc, List.append_assoc, List.append_assoc] at hrest
      -- An event adds at most one entry to each list, in front of what the rest adds.
      have hcons {α : Type} (f : UplinkEvent → Option α) :
          (e :: rest).filterMap f = (f e).toList ++ rest.filterMap f := by
        cases hf : f e <;> simp [hf]
      rw [hcons, hcons]
      exact hrest

theorem new_accounted (settings : Settings) (model : δ) (filter : φ) (state : σ) :
    (new settings model filter (state, ([] : List WriteAttempt))).Accounted settings.gimbal [] [] []
      where
  bounds := rfl
  aim_slot := rfl
  orientation_slot := rfl
  taken := rfl
  published := Nat.le_refl 0
  ordered := List.Pairwise.nil
  tried_le := fun _ hv => absurd hv List.not_mem_nil
  handed := rfl
  sent := rfl
  failed := rfl

/-- Every correction is tried at most once, and every try is counted. Whatever the link does, after
every sequence of corrections, orientations and polls: the slot counts the corrections and the
transmitter remembers the version that it tried last. The next poll says that it has tried a packet
exactly when these two differ; it then hands the link the packet of the newest correction under the
newest orientation and nothing else, and afterwards the newest version is taken, written or not. The
versions that were tried grow from one to the next. Each of them stands for one packet that the link
was handed; the packets that were written are counted as sent and the others as failures. Keeping
the record has made no difference. -/
theorem corrections_tried_once (link : Link σ) (settings : Settings) (model : δ) (filter : φ)
    (state : σ) (events : List UplinkEvent) :
    let start := new settings model filter (state, [])
    let p := start.uplinkRun link.recorded events
    let after := p.uplink link.recorded .poll
    let aims := events.filterMap UplinkEvent.aim?
    let orientations := events.filterMap UplinkEvent.orientation?
    let tried := start.attempts link.recorded events
    let due := Transmitter.due settings.gimbal aims orientations (tried.getLastD 0)
    p.board.aim.version = aims.length ∧
    p.transmitter.cursor.last = tried.getLastD 0 ∧
    p.tries link.recorded = due.isSome ∧
    after.link.2.map WriteAttempt.bytes = p.link.2.map WriteAttempt.bytes ++ due.toList ∧
    after.transmitter.cursor.last = aims.length ∧
    tried.Pairwise (· < ·) ∧
    p.link.2.length = tried.length ∧
    p.counters.packetsSent = p.link.2.countP WriteAttempt.sent ∧
    p.counters.sendFailures = p.link.2.countP (fun h => !h.sent) ∧
    p.counters.packetsSent + p.counters.sendFailures = tried.length ∧
    p.relink p.link.1 = (new settings model filter state).uplinkRun link events := by
  intro start p after aims orientations tried due
  have h : p.Accounted settings.gimbal aims orientations tried :=
    (new_accounted settings model filter state).run link events
  -- Every try was handed to the link and was counted either as sent or as failed.
  have hsum : p.counters.packetsSent + p.counters.sendFailures = tried.length := by
    rw [h.sent, h.failed, ← h.handed, List.length_eq_countP_add_countP WriteAttempt.sent]
    simp
  suffices hpoll : p.tries link.recorded = due.isSome ∧
      after.link.2.map WriteAttempt.bytes = p.link.2.map WriteAttempt.bytes ++ due.toList ∧
      after.transmitter.cursor.last = aims.length from
    ⟨by rw [h.aim_slot, Slot.version_ofList], h.taken, hpoll.1, hpoll.2.1, hpoll.2.2, h.ordered,
      h.handed, h.sent, h.failed, hsum, uplinkRun_recorded link start events⟩
  -- The next poll: with no new correction it hands nothing over, else the newest packet.
  by_cases htaken : tried.getLastD 0 = aims.length
  · rcases h.transmit_of_taken link.recorded htaken with ⟨htransmit, htries⟩
    have hafter : after = p := htransmit
    have hdue : due = none := if_pos htaken
    rw [hafter, hdue, htries, h.taken, htaken]
    simp
  · rcases h.transmit_of_new link htaken with ⟨newest, rest, sent, hlatest, htries, htransmit⟩
    have hafter : after = _ := htransmit
    have hdue : due = some (newest.packet settings.gimbal orientations.getLast?).encode := by
      simp only [due, Transmitter.due, if_neg htaken, hlatest, Option.map_some]
    rw [hafter, hdue, htries]
    simp

end Pipeline

end FireControl
