import FireControl.Proofs.Serial.Handles

/-!
# What Is Read Is What Was Pushed

Towards its reader a link in memory is a stream of bytes. Bytes are pushed at one end and read at
the other, into buffers of any length, and a read takes what there is and no more. Nothing else
touches the bytes: not the orders to fail, and not the writes, which go the other way.

The law is one of conservation: all bytes that were read, followed by the bytes that are pending,
are all bytes that were pushed. A read takes from the front of what is pending and returns what it
took, so it moves bytes from one of the two parts to the other; a push adds to the end of both
sides. With the law, what a read returns can be said without the state of the link: it is the next
part of the stream after what was read before.

## Main definitions

* `LinkExchange.bytesRead`, `LinkExchange.bytesPushed`: What a call takes from the stream and adds
  to it.

## Theorems

* `Lived.conserves`: What was read and what is pending is what was pushed.
* `call_keeps_pending`, `call_keeps_record`: What writes and reads leave alone.
* `read_fills`: What a single read does.
* `Lived.read_next`: A read fills its buffer with the next part of the stream.
* `reads_what_was_pushed`: What holds of every link of a test.
-/

namespace FireControl

namespace LinkExchange

/-- The bytes that a call takes from the stream. -/
def bytesRead (e : LinkExchange) : List UInt8 :=
  match e.answer with
  | .filled count buffer => buffer.take count
  | .done => []
  | .written _ => []
  | .sent _ => []

/-- The bytes that a call adds to the stream. -/
def bytesPushed (e : LinkExchange) : List UInt8 :=
  match e.call with
  | .push bytes => bytes
  | .failNext _ => []
  | .setShort _ => []
  | .write _ => []
  | .send _ => []
  | .read _ => []

end LinkExchange

namespace MemoryLink

open LinkExchange

variable {m : MemoryLink} {history : List LinkExchange}

/-! ### A single call -/

/-- A write leaves the bytes alone that wait to be read. -/
theorem write_pending (m : MemoryLink) (bytes : List UInt8) :
    (m.write bytes).state.pending = m.pending := by
  unfold write
  split <;> rfl

theorem send_pending (m : MemoryLink) (packet : Packet) :
    (link.send m packet).state.pending = m.pending := by
  rw [(link.send_eq_write m packet).1]
  exact write_pending m packet.encode

/-- A packet that is handed over leaves the bytes alone that wait to be read. -/
theorem call_keeps_pending (m : MemoryLink) {c : LinkCall} (h : c.Delivers) :
    (m.call link c).2.pending = m.pending := by
  cases c with
  | failNext | setShort | push | read => exact absurd h id
  | write bytes => exact write_pending m bytes
  | send packet => exact send_pending m packet

/-- A read leaves the record alone, and the orders to fail. -/
theorem call_keeps_record (m : MemoryLink) {c : LinkCall} (h : c.Reads) :
    ((m.call link c).2.sent, (m.call link c).2.failures, (m.call link c).2.short) =
      (m.sent, m.failures, m.short) := by
  cases c with
  | failNext | setShort | push | write | send => exact absurd h id
  | read buffer => rfl

/-- A read returns as many bytes as are pending and fit into the buffer. They are at the beginning
of the buffer afterwards, and the rest of the buffer is as it was. -/
theorem read_fills (m : MemoryLink) (buffer : List UInt8) :
    ∃ n filled, (m.exchange (.read buffer)).answer = .filled n filled ∧
      n = min buffer.length m.pending.length ∧ filled.length = buffer.length ∧
      filled.take n = m.pending.take n ∧ filled.drop n = buffer.drop n := by
  let n := min buffer.length m.pending.length
  have htaken : (m.pending.take n).length = n := by
    rw [List.length_take]
    omega
  refine ⟨n, m.pending.take n ++ buffer.drop n, rfl, rfl, ?_, List.take_left' htaken,
    List.drop_left' htaken⟩
  rw [List.length_append, htaken, List.length_drop]
  omega

/-- What a call takes and what it leaves is what was there and what it adds. -/
theorem exchange_conserves (m : MemoryLink) (c : LinkCall) :
    (m.exchange c).bytesRead ++ (m.call link c).2.pending =
      m.pending ++ (m.exchange c).bytesPushed := by
  cases c with
  | failNext | setShort => exact (List.append_nil _).symm
  | push bytes => rfl
  | write bytes => exact (write_pending m bytes).trans (List.append_nil _).symm
  | send packet => exact (send_pending m packet).trans (List.append_nil _).symm
  | read buffer =>
      -- A read answers the front of the queue and leaves what is behind it.
      rcases m.read_fills buffer with ⟨n, filled, hanswer, rfl, -, htake, -⟩
      have hread : (m.exchange (.read buffer)).bytesRead =
          m.pending.take (min buffer.length m.pending.length) := by
        rw [bytesRead, hanswer]
        exact htake
      rw [hread]
      exact (List.take_append_drop _ _).trans (List.append_nil _).symm

/-! ### The stream -/

/-- What was read, followed by what is pending, is what was pushed. -/
theorem Lived.conserves (lived : Lived history m) :
    history.flatMap bytesRead ++ m.pending = history.flatMap bytesPushed := by
  induction lived with
  | start => rfl
  | @call history m lived c ih =>
      calc (history ++ [m.exchange c]).flatMap bytesRead ++ (m.call link c).2.pending
          = history.flatMap bytesRead ++
              ((m.exchange c).bytesRead ++ (m.call link c).2.pending) := by
            rw [List.flatMap_append, List.flatMap_singleton, List.append_assoc]
        _ = (history.flatMap bytesRead ++ m.pending) ++ (m.exchange c).bytesPushed := by
            rw [exchange_conserves, List.append_assoc]
        _ = (history ++ [m.exchange c]).flatMap bytesPushed := by
            rw [ih, List.flatMap_append, List.flatMap_singleton]

/-- What is pending is what was pushed and not read. -/
theorem Lived.pending_eq (lived : Lived history m) :
    m.pending = (history.flatMap bytesPushed).drop (history.flatMap bytesRead).length := by
  rw [← lived.conserves, List.drop_left]

/-- A read fills its buffer with the next part of the stream, as far as there is one and it fits. -/
theorem Lived.read_next (lived : Lived history m) {i : Nat} {e : LinkExchange}
    {buffer : List UInt8} (he : history[i]? = some e) (hread : e.call = .read buffer) :
    let pushed := (history.take i).flatMap bytesPushed
    let taken := ((history.take i).flatMap bytesRead).length
    ∃ n filled, e.answer = .filled n filled ∧ n = min buffer.length (pushed.length - taken) ∧
      filled.length = buffer.length ∧ (∀ j < n, filled[j]? = pushed[taken + j]?) ∧
      ∀ j, n ≤ j → filled[j]? = buffer[j]? := by
  intro pushed taken
  rcases lived.before he with ⟨m', lived', hexchange⟩
  -- The link that was asked holds what was pushed and not yet taken.
  have hpending : m'.pending = pushed.drop taken := lived'.pending_eq
  rw [hread] at hexchange
  rcases m'.read_fills buffer with ⟨n, filled, hanswer, hn, hlength, htake, hdrop⟩
  refine ⟨n, filled, by rw [hexchange, hanswer], ?_, hlength, fun j hj => ?_, fun j hj => ?_⟩
  -- Filled up to `n` from the queue, and past `n` as the caller's buffer was.
  · rw [hn, hpending, List.length_drop]
  · rw [← List.getElem?_take_of_lt hj, htake, List.getElem?_take_of_lt hj, hpending,
      List.getElem?_drop]
  · rw [← Nat.add_sub_cancel' hj, ← List.getElem?_drop, hdrop, List.getElem?_drop]

/-- What holds of every link of a test, whatever has happened on the bench: all bytes that were read
from the link, through whichever handles, followed by those that are pending are all bytes that were
pushed. A read always has an answer. The number of bytes that it returns is that of the bytes that
were pushed and not read before, or the length of the buffer if that is less; it puts the next bytes
of the stream at the beginning of the buffer and leaves the rest of the buffer as it was. A packet
that is handed over leaves the pending bytes of every link alone, and a read leaves the records and
the orders to fail alone. -/
theorem reads_what_was_pushed :
    (∀ (events : List BenchEvent) (place : Nat) (m : MemoryLink),
      (Bench.empty.after events).links[place]? = some m →
      let history := Bench.empty.history place events
      history.flatMap bytesRead ++ m.pending = history.flatMap bytesPushed ∧
      ∀ (i : Nat) (e : LinkExchange) (buffer : List UInt8), history[i]? = some e →
        e.call = .read buffer →
        let pushed := (history.take i).flatMap bytesPushed
        let taken := ((history.take i).flatMap bytesRead).length
        ∃ n filled, e.answer = .filled n filled ∧ n = min buffer.length (pushed.length - taken) ∧
          filled.length = buffer.length ∧ (∀ j < n, filled[j]? = pushed[taken + j]?) ∧
          ∀ j, n ≤ j → filled[j]? = buffer[j]?) ∧
    ∀ (b : Bench) (handle place : Nat) (c : LinkCall),
      let after := b.step (.call handle c)
      (c.Delivers → after.links[place]?.map pending = b.links[place]?.map pending) ∧
      (c.Reads → after.links[place]?.map (fun m => (m.sent, m.failures, m.short)) =
        b.links[place]?.map fun m => (m.sent, m.failures, m.short)) := by
  refine ⟨fun events place m hm => ?_, fun b handle place c =>
    ⟨fun h => Bench.map_links_call _ b handle place fun m => m.call_keeps_pending h,
      fun h => Bench.map_links_call _ b handle place fun m => m.call_keeps_record h⟩⟩
  have lived := Bench.lived hm
  exact ⟨lived.conserves, fun i e buffer he hread => lived.read_next he hread⟩

/-- Three bytes that are pushed through one handle and read through another, behind a pointer: two
into a short buffer and, after a failed write, the third into a long one. -/
theorem reads_what_was_pushed_inParts :
    let events : List BenchEvent := [.create, .clone 0, .box 1, .call 0 (.push [1, 2, 3]),
      .call 1 (.read [0, 0]), .call 0 (.failNext 1), .call 1 (.send ⟨0, 0, true⟩),
      .call 0 (.read [0, 0, 0])]
    let history := Bench.empty.history 0 events
    ∃ m, (Bench.empty.after events).links[0]? = some m ∧
      history.flatMap bytesRead ++ m.pending = [1, 2, 3] ∧
      (LinkCall.read [0, 0, 0]).Reads ∧
      ∃ n filled, (history[4]?.map LinkExchange.answer) = some (.filled n filled) ∧
        n = min 3 (3 - 2) ∧ filled[0]? = some 3 ∧ filled[1]? = some 0 := by
  intro events history
  -- The fifth call, a read with room for three bytes, finds the last of those pushed.
  refine ⟨_, rfl, (reads_what_was_pushed.1 events 0 _ rfl).1, trivial, ?_⟩
  rcases (reads_what_was_pushed.1 events 0 _ rfl).2 4 _ [0, 0, 0] rfl rfl with
    ⟨n, filled, hanswer, hn, -, hfirst, hrest⟩
  have hone : n = 1 := hn
  exact ⟨n, filled, congrArg some hanswer, hn, hfirst 0 (by omega), hrest 1 (by omega)⟩

end MemoryLink

end FireControl
