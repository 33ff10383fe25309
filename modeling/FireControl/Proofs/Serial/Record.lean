import FireControl.Proofs.Serial.Handles
import FireControl.Proofs.Stages.Effects
import FireControl.Simulation.Recording

/-!
# The Record and What Was Accepted

A link in memory keeps a record of the packets that it has delivered, and whoever hands it a packet
is told whether it was accepted. The two should agree, since tests look at the record where the
stages count what they were told. They agree unless a short write of a whole packet is ordered: then
all bytes count as written, so the packet is accepted, but a short write records nothing.

Which packets this concerns can be told from the calls and their answers. A packet that is accepted
has met no failure, so whether it is recorded depends on the short write that was ordered last.
Everything else about the link, and how many failures were left at which time, drops out.

The transmission stage counts a packet as sent when it was accepted. So where it is the only writer
its count is the length of the record under the same condition: `Pipeline.call?` says what an event
asks of the link, and the link has lived through these calls.

## Main definitions

* `LinkExchange.accepted?`: The packet that a call has handed over and the link has accepted.
* `LinkExchange.shortInForce`: The short write that was ordered last.
* `LinkExchange.Unswallowed`: No packet was accepted under a short write of a whole packet.
* `TestEvent`, `Pipeline.testStep`: What can happen to a pipeline in a test, and what it does.
* `Pipeline.Handed`: A pipeline that counts what its link has accepted.

## Theorems

* `unswallowed_of_forall_ne`: No packet is swallowed if no short write of a whole packet is ordered.
* `write_cases`: What a write can do.
* `accepted?_write`: When a packet is accepted.
* `exchange_sent`, `exchange_short`: What a call adds to the record, and what it orders.
* `Lived.short_eq`, `Lived.sent_sublist`: What a link knows of its past.
* `Lived.sent_eq_iff`: When the record is what was accepted.
* `Pipeline.Handed.step`, `Pipeline.Handed.run`: What every event keeps.
* `record_faithful_iff`: When the record is what was accepted, and when it is what was counted.
-/

namespace FireControl

namespace LinkExchange

/-- The bytes that a call has handed over, where the link has accepted them. -/
def accepted? (e : LinkExchange) : Option (List UInt8) :=
  match e.call, e.answer with
  | .write bytes, .written result => if result.isOk then some bytes else none
  | .send packet, .sent ok => if ok then some packet.encode else none
  | _, _ => none

/-- The packets that were accepted. -/
def accepted (history : List LinkExchange) : List (List UInt8) :=
  history.filterMap accepted?

/-- The short write that a call orders, or that writes are to be whole. -/
def ordersShort? (e : LinkExchange) : Option (Option Nat) :=
  match e.call with
  | .setShort written => some written
  | _ => none

/-- The short write that was ordered last, if writes were not made whole again since. -/
def shortInForce (history : List LinkExchange) : Option Nat :=
  (history.reverse.findSome? ordersShort?).join

/-- No packet was accepted while short writes of a whole packet were ordered. -/
def Unswallowed (history : List LinkExchange) : Prop :=
  ∀ i e, history[i]? = some e → e.accepted?.isSome →
    shortInForce (history.take i) ≠ some Packet.length

variable {history : List LinkExchange} {e : LinkExchange}

theorem accepted_append (history : List LinkExchange) (e : LinkExchange) :
    accepted (history ++ [e]) = accepted history ++ e.accepted?.toList := by
  rw [accepted, List.filterMap_append, accepted]
  cases h : e.accepted? <;> simp [h]

theorem shortInForce_append (history : List LinkExchange) (e : LinkExchange) :
    shortInForce (history ++ [e]) = e.ordersShort?.getD (shortInForce history) := by
  rw [shortInForce, List.reverse_append, List.reverse_singleton, List.singleton_append,
    List.findSome?_cons]
  cases e.ordersShort? with
  | none => rfl
  | some written => rfl

/-- One more call swallows nothing if it is not accepted, or if no short write of a whole packet is
in force. -/
theorem unswallowed_append :
    Unswallowed (history ++ [e]) ↔ Unswallowed history ∧
      (e.accepted?.isSome → shortInForce history ≠ some Packet.length) := by
  constructor
  -- An exchange of the history was preceded by the same ones before `e` was appended.
  · refine fun h => ⟨fun i d hd haccepted => ?_, fun haccepted => ?_⟩
    · have hlt := (List.getElem?_eq_some_iff.mp hd).1
      have hsame := h i d ((List.getElem?_append_left hlt).trans hd) haccepted
      rwa [List.take_append_of_le_length (Nat.le_of_lt hlt)] at hsame
    · have hlast := h history.length e List.getElem?_concat_length haccepted
      rwa [List.take_left' rfl] at hlast
  · rintro ⟨hearlier, hlast⟩ i d hd haccepted
    rcases at_append hd with ⟨htake, hd | ⟨rfl, rfl⟩⟩
    · rw [htake]
      exact hearlier i d hd haccepted
    · rw [htake, List.take_length]
      exact hlast haccepted

/-- Where no short write of a whole packet is ever ordered, no packet is swallowed. -/
theorem unswallowed_of_forall_ne
    (h : ∀ e ∈ history, e.call ≠ .setShort (some Packet.length)) : Unswallowed history := by
  intro i e _ _ hshort
  rcases List.exists_of_findSome?_eq_some (Option.join_eq_some_iff.mp hshort) with
    ⟨order, hmem, horder⟩
  refine h order (List.mem_of_mem_take (List.mem_reverse.mp hmem)) ?_
  unfold ordersShort? at horder
  split at horder
  · rename_i hcall
    rw [hcall, Option.some_inj.mp horder]
  · exact absurd horder.symm (Option.some_ne_none _)

end LinkExchange

namespace MemoryLink

open LinkExchange

variable {m : MemoryLink} {history : List LinkExchange}

/-! ### A single call -/

/-- What a write can do: use up a failure, stay as short as is ordered, or record its bytes. -/
theorem write_cases (m : MemoryLink) (bytes : List UInt8) :
    (∃ n, m.failures = n + 1 ∧
      m.write bytes = ⟨{ m with failures := n }, .error orderedFailure, []⟩) ∨
    (m.failures = 0 ∧ ∃ written, m.short = some written ∧
      m.write bytes = ⟨m, fullWrite written, []⟩) ∨
    (m.failures = 0 ∧ m.short = none ∧
      m.write bytes = ⟨{ m with sent := m.sent ++ [bytes] }, .ok (), []⟩) := by
  unfold write
  -- An ordered failure is used up before the ordered count is looked at.
  cases m.failures with
  | succ n => exact Or.inl ⟨n, rfl, rfl⟩
  | zero =>
      cases m.short with
      | some written => exact Or.inr (Or.inl ⟨rfl, written, rfl, rfl⟩)
      | none => exact Or.inr (Or.inr ⟨rfl, rfl, rfl⟩)

theorem fullWrite_isOk (written : Nat) :
    (fullWrite written).isOk = decide (written = Packet.length) := by
  unfold fullWrite
  by_cases h : written = Packet.length
  · rw [if_pos h, decide_eq_true h]
    rfl
  · rw [if_neg h, decide_eq_false h]
    rfl

/-- What a write adds to the record: its bytes where it was accepted, unless a short write of a
whole packet is ordered. It changes no order. -/
theorem write_sent (m : MemoryLink) (bytes : List UInt8) :
    (m.write bytes).state.sent = m.sent ++
        (if m.short = some Packet.length then []
          else (if (m.write bytes).result.isOk then some bytes else none).toList) ∧
      (m.write bytes).state.short = m.short := by
  rcases m.write_cases bytes with ⟨n, -, hwrite⟩ | ⟨-, written, hshort, hwrite⟩ |
    ⟨-, hshort, hwrite⟩
  · simp [hwrite, Except.isOk, Except.toBool]
  · -- A short write records nothing, and only that of a whole packet is accepted.
    simp [hwrite, hshort, fullWrite_isOk]
  · simp [hwrite, hshort, Except.isOk, Except.toBool]

/-- A packet is accepted where no failure is ordered and all of it counts as written. -/
theorem accepted?_write (m : MemoryLink) (bytes : List UInt8) :
    (m.exchange (.write bytes)).accepted? =
      if m.failures = 0 ∧ (m.short = none ∨ m.short = some Packet.length) then some bytes
      else none := by
  change (if (m.write bytes).result.isOk then some bytes else none) = _
  rcases m.write_cases bytes with ⟨n, hfailures, hwrite⟩ | ⟨hfailures, written, hshort, hwrite⟩ |
    ⟨hfailures, hshort, hwrite⟩
  · simp [hwrite, hfailures, Except.isOk, Except.toBool]
  · simp [hwrite, hfailures, hshort, fullWrite_isOk]
  · simp [hwrite, hfailures, hshort, Except.isOk, Except.toBool]

/-- A packet that is sent is accepted where its bytes would be. -/
theorem accepted?_send (m : MemoryLink) (packet : Packet) :
    (m.exchange (.send packet)).accepted? =
      if (m.write packet.encode).result.isOk then some packet.encode else none := by
  change (if (link.send m packet).sent then some packet.encode else none) = _
  rw [(link.send_eq_write m packet).2]
  rfl

/-- What a call adds to the record: the packet that was accepted, unless a short write of a whole
packet is ordered. -/
theorem exchange_sent (m : MemoryLink) (c : LinkCall) :
    (m.call link c).2.sent = m.sent ++
      if m.short = some Packet.length then [] else (m.exchange c).accepted?.toList := by
  cases c with
  | failNext | setShort | push | read =>
      simp [call, exchange, accepted?, failNext, setShort, push, read]
  | write bytes => exact (m.write_sent bytes).1
  | send packet =>
      rw [accepted?_send]
      exact (congrArg sent (link.send_eq_write m packet).1).trans (m.write_sent packet.encode).1

/-- The short write that is ordered after a call. -/
theorem exchange_short (m : MemoryLink) (c : LinkCall) :
    (m.call link c).2.short = (m.exchange c).ordersShort?.getD m.short := by
  cases c with
  | failNext | setShort | push | read => rfl
  | write bytes => exact (m.write_sent bytes).2
  | send packet =>
      exact (congrArg short (link.send_eq_write m packet).1).trans (m.write_sent packet.encode).2

/-! ### The record -/

theorem Lived.short_eq (lived : Lived history m) : m.short = shortInForce history := by
  induction lived with
  | start => rfl
  | call lived c ih => rw [exchange_short, shortInForce_append, ih]

/-- What is recorded was accepted, in the order of the record. -/
theorem Lived.sent_sublist (lived : Lived history m) : m.sent.Sublist (accepted history) := by
  induction lived with
  | start => exact List.Sublist.slnil
  | call lived c ih =>
      rw [exchange_sent, accepted_append]
      refine ih.append ?_
      split
      · exact List.nil_sublist _
      · exact List.Sublist.refl _

/-- The record is what was accepted where no packet was swallowed. -/
theorem Lived.sent_eq_iff (lived : Lived history m) :
    m.sent = accepted history ↔ Unswallowed history := by
  induction lived with
  | start => exact ⟨fun _ i e he => absurd he.symm (Option.some_ne_none e), fun _ => rfl⟩
  | @call history m lived c ih =>
      rw [exchange_sent, accepted_append, unswallowed_append, ← ih, ← lived.short_eq]
      cases haccepted : (m.exchange c).accepted? with
      | none => simp
      | some bytes =>
          by_cases hshort : m.short = some Packet.length
          · -- The packet is missing from the record, which can have no more than all others.
            have hlength := lived.sent_sublist.length_le
            have hne : m.sent ≠ accepted history ++ [bytes] := by
              intro heq
              rw [heq, List.length_append, List.length_singleton] at hlength
              omega
            simp [hshort, hne]
          · simp [hshort]

end MemoryLink

/-! ### A stage that writes to the link -/

/-- What can happen to a pipeline in a test. -/
inductive TestEvent where
  /-- A stage takes its turn. -/
  | turn (t : Turn)
  /-- The transmitter is handed a correction past the board. -/
  | transmit (output : AimOutput) (latest : Option Orientation)
  /-- The test controls the link. -/
  | control (c : LinkCall)

namespace Pipeline

open LinkExchange MemoryLink

variable {δ φ : Type} {p q : Pipeline δ φ MemoryLink} {history : List LinkExchange}

/-- The transmitter sends the packet of a correction and counts it. -/
def sendNow (p : Pipeline δ φ MemoryLink) (output : AimOutput) (latest : Option Orientation) :
    Pipeline δ φ MemoryLink :=
  let sending := p.transmitter.send MemoryLink.link p.link output latest
  { p with link := sending.state, counters := p.counters.recordPacket sending.sent }

/-- What an event asks of the link. -/
def call? (p : Pipeline δ φ MemoryLink) : TestEvent → Option LinkCall
  | .turn .transmit =>
    (p.transmitter.cursor.poll p.board.aim).1.map fun newest =>
      .send (newest.value.packet p.transmitter.limits p.board.latestOrientation)
  | .turn _ => none
  | .transmit output latest => some (.send (output.packet p.transmitter.limits latest))
  | .control c => some c

/-- What an event asks of the link, and what it is answered. -/
def exchange? (p : Pipeline δ φ MemoryLink) (e : TestEvent) : Option LinkExchange :=
  (p.call? e).map p.link.exchange

/-- A pipeline that has asked these calls of its link since this was made, and that has counted the
packets that the link has accepted. -/
structure Handed (history : List LinkExchange) (p : Pipeline δ φ MemoryLink) : Prop where
  lived : Lived history p.link
  counted : p.counters.packetsSent = (accepted history).length

/-- Only the transmitter touches the link and the count of packets. -/
theorem Effect.keeps_link {σ : Type} {p q : Pipeline δ φ σ} {t : Turn} (h : p.Effect t q)
    (ht : t ≠ .transmit) :
    q.link = p.link ∧ q.counters.packetsSent = p.counters.packetsSent := by
  cases h with
  | transmitted => exact absurd rfl ht
  | captured | oriented | failed | waited | rested => exact ⟨rfl, rfl⟩
  | watched | tracked | ticked | smoothed | solved => exact ⟨rfl, rfl⟩

theorem Handed.of_same (h : p.Handed history) (link : q.link = p.link)
    (count : q.counters.packetsSent = p.counters.packetsSent) : q.Handed history :=
  ⟨link ▸ h.lived, count.trans h.counted⟩

/-- A packet that is sent is counted where it is accepted. -/
theorem Handed.of_send (h : p.Handed history) {packet : Packet}
    (link : q.link = (MemoryLink.link.send p.link packet).state)
    (counters : q.counters =
      p.counters.recordPacket (MemoryLink.link.send p.link packet).sent) :
    q.Handed (history ++ [p.link.exchange (.send packet)]) where
  lived := link ▸ h.lived.call (.send packet)
  counted := by
    have haccepted : (p.link.exchange (.send packet)).accepted? =
        if (MemoryLink.link.send p.link packet).sent then some packet.encode else none := rfl
    rw [counters, accepted_append, haccepted, List.length_append, ← h.counted]
    cases (MemoryLink.link.send p.link packet).sent <;> rfl

/-- A control of the link that hands over no packet is not counted. -/
theorem Handed.control (h : p.Handed history) {c : LinkCall} (hc : ¬c.Delivers) :
    { p with link := (p.link.call MemoryLink.link c).2 }.Handed
      (history ++ [p.link.exchange c]) where
  lived := h.lived.call c
  counted := by
    have hnone : (p.link.exchange c).accepted? = none := by
      cases c with
      | write | send => exact absurd trivial hc
      | failNext | setShort | push | read => rfl
    rw [accepted_append, hnone, Option.toList_none, List.append_nil]
    exact h.counted

/-- The transmitter sends what it finds on the board, if it finds something. -/
theorem Handed.transmit (h : p.Handed history) :
    (p.transmit MemoryLink.link).1.Handed
      (history ++ (p.exchange? (.turn .transmit)).toList) := by
  -- Both sides look at the board first, and what they find is the same.
  simp only [Pipeline.transmit, Transmitter.poll, exchange?, call?]
  cases (p.transmitter.cursor.poll p.board.aim).1 with
  | none => simpa using h
  | some newest => exact h.of_send rfl rfl

/-- A pipeline that has done nothing, with a link that has just been made. -/
theorem new_handed (settings : Settings) (model : δ) (particles : φ) :
    (new settings model particles MemoryLink.start).Handed [] :=
  ⟨.start, rfl⟩

variable [ElementaryFunctions] (detector : Detector δ) (filter : Filter φ)

/-- What an event does. -/
def testStep (p : Pipeline δ φ MemoryLink) : TestEvent → Pipeline δ φ MemoryLink
  | .turn t => (p.turn ⟨detector, filter, MemoryLink.link⟩ t).1
  | .transmit output latest => p.sendNow output latest
  | .control c => { p with link := (p.link.call MemoryLink.link c).2 }

/-- What a sequence of events does. -/
def testRun (p : Pipeline δ φ MemoryLink) (events : List TestEvent) : Pipeline δ φ MemoryLink :=
  events.foldl (testStep detector filter) p

/-- What a sequence of events asks of the link, and what it is answered. -/
def exchanges (p : Pipeline δ φ MemoryLink) : List TestEvent → List LinkExchange
  | [] => []
  | e :: rest => (p.exchange? e).toList ++ (p.testStep detector filter e).exchanges rest

/-- What every event keeps. -/
theorem Handed.step (h : p.Handed history) (e : TestEvent)
    (controls : ∀ c, e = .control c → ¬c.Delivers) :
    (p.testStep detector filter e).Handed (history ++ (p.exchange? e).toList) := by
  cases e with
  | transmit output latest => exact h.of_send rfl rfl
  | control c => exact h.control (controls c rfl)
  | turn t =>
      by_cases ht : t = .transmit
      · subst ht
        exact h.transmit
      · -- The other stages ask nothing of the link and count no packet.
        have hnone : p.exchange? (.turn t) = none := by
          cases t with
          | transmit => exact absurd rfl ht
          | capture | orient | perceive | estimate | aim => rfl
        rcases (turn_effect ⟨detector, filter, MemoryLink.link⟩ p t).keeps_link ht with
          ⟨hlink, hcount⟩
        rw [hnone, Option.toList_none, List.append_nil]
        exact h.of_same hlink hcount

/-- What every sequence of events keeps. -/
theorem Handed.run (h : p.Handed history) (events : List TestEvent)
    (controls : ∀ c, .control c ∈ events → ¬c.Delivers) :
    (p.testRun detector filter events).Handed (history ++ p.exchanges detector filter events) := by
  induction events generalizing p history with
  | nil => simpa [testRun, exchanges] using h
  | cons e rest ih =>
      have hstep := h.step detector filter e fun c hc => controls c (hc ▸ List.mem_cons_self)
      have hrest := ih hstep fun c hc => controls c (List.mem_cons_of_mem e hc)
      rw [List.append_assoc] at hrest
      exact hrest

end Pipeline

namespace MemoryLink

open LinkExchange

/-- When the record can be relied on. Whatever has happened on a bench, the record of every link
holds accepted packets only, in the order of the calls, and it holds all of them exactly when none
was accepted while a short write of a whole packet was ordered, as when none was ever ordered. A
packet is accepted where no failure is ordered and all of it counts as written. To send a packet
does to a link what writing its bytes does, and is accepted where this is. A pipeline that is the
only one to hand packets to its link counts those as sent that were accepted, and their number is
the length of the record under the same condition. -/
theorem record_faithful_iff [ElementaryFunctions] :
    (∀ (events : List BenchEvent) (place : Nat) (m : MemoryLink),
      (Bench.empty.after events).links[place]? = some m →
      let history := Bench.empty.history place events
      m.sent.Sublist (accepted history) ∧
      (m.sent = accepted history ↔ Unswallowed history) ∧
      ((∀ e ∈ history, e.call ≠ .setShort (some Packet.length)) → m.sent = accepted history)) ∧
    (∀ (m : MemoryLink) (bytes : List UInt8), (m.exchange (.write bytes)).accepted? =
      if m.failures = 0 ∧ (m.short = none ∨ m.short = some Packet.length) then some bytes
      else none) ∧
    (∀ (m : MemoryLink) (packet : Packet),
      (m.call link (.send packet)).2 = (m.call link (.write packet.encode)).2 ∧
      (m.exchange (.send packet)).accepted? = (m.exchange (.write packet.encode)).accepted?) ∧
    ∀ (δ φ : Type) (detector : Detector δ) (filter : Filter φ) (settings : Settings) (model : δ)
      (particles : φ) (events : List TestEvent), (∀ c, .control c ∈ events → ¬c.Delivers) →
      let fresh := Pipeline.new settings model particles start
      let p := fresh.testRun detector filter events
      let history := fresh.exchanges detector filter events
      p.counters.packetsSent = (accepted history).length ∧
      (p.link.sent = accepted history ↔ Unswallowed history) ∧
      (p.counters.packetsSent = p.link.sent.length ↔ Unswallowed history) := by
  refine ⟨fun events place m hm => ?_, accepted?_write, fun m packet => ?_, ?_⟩
  -- A link of a bench has lived through exactly its own history on that bench.
  · have lived := Bench.lived hm
    exact ⟨lived.sent_sublist, lived.sent_eq_iff,
      fun h => lived.sent_eq_iff.mpr (unswallowed_of_forall_ne h)⟩
  · exact ⟨(link.send_eq_write m packet).1, m.accepted?_send packet⟩
  · intro δ φ detector filter settings model particles events controls fresh p history
    -- The pipeline's link has lived through the pipeline's exchanges, and it counted them.
    have h : p.Handed history :=
      (Pipeline.new_handed settings model particles).run detector filter events controls
    refine ⟨h.counted, h.lived.sent_eq_iff, ?_⟩
    -- The record is a sublist of what was accepted: equal lengths make it the whole.
    rw [h.counted, ← h.lived.sent_eq_iff]
    exact ⟨fun heq => h.lived.sent_sublist.eq_of_length heq.symm, fun heq => by rw [heq]⟩

/-- A link with two handles, one behind a pointer. One packet meets a failure and one is recorded,
and then one is swallowed. Further a pipeline whose first packet meets a failure: the second one is
counted and recorded. -/
theorem record_faithful_iff_faults :
    let _ : ElementaryFunctions := .native
    let plain : List BenchEvent := [.create, .clone 0, .box 1, .call 0 (.failNext 1),
      .call 1 (.send ⟨0, 0, true⟩), .call 1 (.send ⟨1, 2, true⟩)]
    let whole : List BenchEvent :=
      plain ++ [.call 0 (.setShort (some 11)), .call 0 (.send ⟨3, 4, false⟩)]
    let output : AimOutput := ⟨0, 0, true, false, true, 0, 1, ⟨0, 0, 5⟩, ⟨1⟩, ⟨0⟩⟩
    let tests : List TestEvent :=
      [.control (.failNext 1), .transmit output none, .transmit output none]
    let fresh := Pipeline.new default () ⟨[], none⟩ start
    let p := fresh.testRun Detector.blind Filter.recording tests
    (∃ m, (Bench.empty.after plain).links[0]? = some m ∧
      m.sent = [(⟨1, 2, true⟩ : Packet).encode] ∧
      m.sent = accepted (Bench.empty.history 0 plain)) ∧
    (∃ m, (Bench.empty.after whole).links[0]? = some m ∧
      m.sent = [(⟨1, 2, true⟩ : Packet).encode] ∧
      m.sent.Sublist (accepted (Bench.empty.history 0 whole)) ∧
      ¬Unswallowed (Bench.empty.history 0 whole)) ∧
    (∀ c, .control c ∈ tests → ¬c.Delivers) ∧ p.link.sent.length = 1 ∧
      p.counters.packetsSent = 1 ∧
      Unswallowed (fresh.exchanges Detector.blind Filter.recording tests) := by
  intro _ plain whole output tests fresh p
  have never : ∀ e ∈ Bench.empty.history 0 plain, e.call ≠ .setShort (some Packet.length) := by
    intro e he hcall
    have calls : (Bench.empty.history 0 plain).map LinkExchange.call =
        [.failNext 1, .send ⟨0, 0, true⟩, .send ⟨1, 2, true⟩] := rfl
    have hmem := List.mem_map_of_mem he (f := LinkExchange.call)
    rw [calls, hcall] at hmem
    simp at hmem
  have controls : ∀ c, .control c ∈ tests → ¬c.Delivers := by
    simp [tests, LinkCall.Delivers]
  rcases record_faithful_iff.1 plain 0 _ rfl with ⟨-, -, hplain⟩
  rcases record_faithful_iff.1 whole 0 _ rfl with ⟨hsublist, hfaithful, -⟩
  rcases record_faithful_iff.2.2.2 Unit Recording Detector.blind Filter.recording default ()
    ⟨[], none⟩ tests controls with ⟨-, -, hcounted⟩
  refine ⟨⟨_, rfl, rfl, hplain never⟩, ⟨_, rfl, rfl, hsublist, fun h => ?_⟩, controls, rfl, rfl,
    hcounted.mp rfl⟩
  -- Two packets were accepted.
  exact absurd (congrArg List.length (hfaithful.mpr h)) (by decide)

/-- A packet that is written while a short write of eleven bytes is ordered is accepted, but it is
not in the record. -/
theorem record_not_faithful :
    ¬∀ (events : List BenchEvent) (place : Nat) (m : MemoryLink),
      (Bench.empty.after events).links[place]? = some m →
      m.sent = accepted (Bench.empty.history place events) := by
  intro h
  have hrecord := h [.create, .call 0 (.setShort (some 11)), .call 0 (.send ⟨1, 2, true⟩)] 0 _ rfl
  exact absurd (congrArg List.length hrecord) (by decide)

end MemoryLink

end FireControl
