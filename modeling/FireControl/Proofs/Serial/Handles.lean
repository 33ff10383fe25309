import FireControl.Serial.MemoryLink

/-!
# Handles on Links in Memory

A test moves its link into the stage that writes to it, and keeps a second handle to look at the
record and to order failures. Handles are copied, and some are put behind one more pointer; all of
them lead to the link that they were made for. `Bench` holds the links of a test and the handles on
them, and what happens on it is a sequence of events, each of which names a handle.

Nobody but the handles of a link touches it, so what a link is after any events depends only on the
calls that came to it, in their order. `MemoryLink.Lived` says this of one link: it relates the
calls, with what they were answered, to the link that they leave. What holds of every link that has
lived through some calls is proved by induction on it, without a bench; `Bench.lived` brings it back
to the links of a test, and a stage that owns a link can say what it has asked of it in the same
words.

## Main definitions

* `LinkCall`, `LinkAnswer`, `LinkExchange`: What a link can be asked, and what it answers.
* `MemoryLink.call`: What a call does.
* `MemoryLink.Lived`: A link and all that it has been asked.
* `Handle`, `Bench`, `BenchEvent`: Handles on links, and what happens to them.
* `Bench.history`: The calls that came to a link.

## Theorems

* `Link.send_eq_write`: To send a packet is to write its bytes.
* `LinkExchange.at_append`: The entries of a history with one more call.
* `Lived.before`: Every answer is that of the link which the calls before it have left.
* `Handle.link_eq`: A handle behind pointers does what the link does.
* `Bench.Lives.step`, `Bench.Lives.after`: What every event keeps.
* `Bench.lived`: Every link of a test has lived through the calls that came to it.
* `Bench.map_links_call`: What a call leaves alone.
-/

namespace FireControl

/-- A link behind one more pointer, which passes on what is written. -/
def Link.boxed {σ : Type} (link : Link σ) : Link σ where
  write state bytes := link.write state bytes

/-- To send a packet is to write its bytes, and it has gone out if they were all written. -/
theorem Link.send_eq_write {σ : Type} (link : Link σ) (state : σ) (packet : Packet) :
    (link.send state packet).state = (link.write state packet.encode).state ∧
      (link.send state packet).sent = (link.write state packet.encode).result.isOk := by
  simp only [Link.send]
  cases (link.write state packet.encode).result with
  | ok written => exact ⟨rfl, rfl⟩
  | error failure => exact ⟨rfl, rfl⟩

/-! ### Calls -/

/-- What a link in memory can be asked. -/
inductive LinkCall where
  /-- To let the next writes fail. -/
  | failNext (n : Nat)
  /-- To let every write stop after some bytes, or to let writes be whole again. -/
  | setShort (written : Option Nat)
  /-- To hold more bytes to be read. -/
  | push (bytes : List UInt8)
  /-- To write the bytes of a packet. -/
  | write (bytes : List UInt8)
  /-- To send a packet. -/
  | send (packet : Packet)
  /-- To fill a buffer with what there is to be read. -/
  | read (buffer : List UInt8)

/-- What a link in memory answers. -/
inductive LinkAnswer where
  /-- Nothing, to an order. -/
  | done
  /-- Whether all bytes were written. -/
  | written (result : Except LinkError Unit)
  /-- Whether the packet went out. -/
  | sent (ok : Bool)
  /-- How many bytes there were, and the buffer with these bytes. -/
  | filled (count : Nat) (buffer : List UInt8)

/-- A call with its answer. -/
structure LinkExchange where
  call : LinkCall
  answer : LinkAnswer

/-- An entry of a longer history is an entry of the history or the new one, and the history has all
that stands before it. -/
theorem LinkExchange.at_append {history : List LinkExchange} {e d : LinkExchange} {i : Nat}
    (h : (history ++ [e])[i]? = some d) :
    (history ++ [e]).take i = history.take i ∧
      (history[i]? = some d ∨ i = history.length ∧ d = e) := by
  have hi : i ≤ history.length := by
    have hlt := (List.getElem?_eq_some_iff.mp h).1
    rw [List.length_append, List.length_singleton] at hlt
    exact Nat.le_of_lt_succ hlt
  refine ⟨List.take_append_of_le_length hi, ?_⟩
  rcases Nat.lt_or_eq_of_le hi with hlt | rfl
  · rw [List.getElem?_append_left hlt] at h
    exact Or.inl h
  · rw [List.getElem?_concat_length, Option.some_inj] at h
    exact Or.inr ⟨rfl, h.symm⟩

namespace LinkCall

/-- A call that hands over a packet. -/
def Delivers : LinkCall → Prop
  | failNext _ => False
  | setShort _ => False
  | push _ => False
  | write _ => True
  | send _ => True
  | read _ => False

/-- A call that takes bytes. -/
def Reads : LinkCall → Prop
  | failNext _ => False
  | setShort _ => False
  | push _ => False
  | write _ => False
  | send _ => False
  | read _ => True

end LinkCall

namespace MemoryLink

/-- What a call is answered, and what it leaves, where packets are written through `via`. -/
def call (via : Link MemoryLink) (m : MemoryLink) : LinkCall → LinkAnswer × MemoryLink
  | .failNext n => (.done, m.failNext n)
  | .setShort written => (.done, m.setShort written)
  | .push bytes => (.done, m.push bytes)
  | .write bytes =>
    let delivery := via.write m bytes
    (.written delivery.result, delivery.state)
  | .send packet =>
    let transmission := via.send m packet
    (.sent transmission.sent, transmission.state)
  | .read buffer =>
    let (count, filled, rest) := m.read buffer
    (.filled count filled, rest)

/-- A call with what it is answered. -/
def exchange (m : MemoryLink) (c : LinkCall) : LinkExchange :=
  ⟨c, (m.call link c).1⟩

/-- A link that has been asked these calls since it was made, and has given these answers. -/
inductive Lived : List LinkExchange → MemoryLink → Prop
  | start : Lived [] .start
  | call {history : List LinkExchange} {m : MemoryLink} (lived : Lived history m) (c : LinkCall) :
      Lived (history ++ [m.exchange c]) (m.call link c).2

/-- Every answer is that of the link which the calls before it have left. -/
theorem Lived.before {history : List LinkExchange} {m : MemoryLink} (lived : Lived history m)
    {i : Nat} {e : LinkExchange} (he : history[i]? = some e) :
    ∃ m', Lived (history.take i) m' ∧ e = m'.exchange e.call := by
  -- A history grows at its end, so what came before an earlier exchange stays as it was.
  induction lived with
  | start => exact absurd he.symm (Option.some_ne_none e)
  | @call history m lived c ih =>
      rcases LinkExchange.at_append he with ⟨htake, hearlier | ⟨rfl, rfl⟩⟩
      · rw [htake]
        exact ih hearlier
      · rw [htake, List.take_length]
        exact ⟨m, lived, rfl⟩

end MemoryLink

/-! ### Handles -/

/-- A handle on the link of a place, behind a number of pointers. -/
structure Handle where
  place : Nat
  boxes : Nat

namespace Handle

/-- What is written to through a handle. -/
def link (handle : Handle) : Link MemoryLink :=
  Nat.repeat Link.boxed handle.boxes MemoryLink.link

/-- A handle behind pointers does what the link does. -/
theorem link_eq (handle : Handle) : handle.link = MemoryLink.link := by
  unfold link
  induction handle.boxes with
  | zero => rfl
  | succ n ih =>
      rw [Nat.repeat, ih]
      rfl

end Handle

/-- The links of a test, and the handles on them. -/
structure Bench where
  links : List MemoryLink
  handles : List Handle

/-- What can happen on a bench. Handles are named by their number. -/
inductive BenchEvent where
  /-- A link is made, with a handle on it. -/
  | create
  /-- A handle is copied. -/
  | clone (handle : Nat)
  /-- A handle is put behind one more pointer. -/
  | box (handle : Nat)
  /-- A link is asked something through a handle. -/
  | call (handle : Nat) (call : LinkCall)

namespace Bench

/-- The bench before the first link is made. -/
def empty : Bench := ⟨[], []⟩

/-- What an event does. -/
def step (b : Bench) : BenchEvent → Bench
  | .create => ⟨b.links ++ [.start], b.handles ++ [⟨b.links.length, 0⟩]⟩
  | .clone handle => { b with handles := b.handles ++ b.handles[handle]?.toList }
  | .box handle =>
    { b with handles := b.handles.modify handle fun h => { h with boxes := h.boxes + 1 } }
  | .call handle c =>
    match b.handles[handle]? with
    | none => b
    | some h => { b with links := b.links.modify h.place fun m => (m.call h.link c).2 }

/-- What the link of a place is asked in an event, and what it answers. -/
def exchange? (b : Bench) (place : Nat) : BenchEvent → Option LinkExchange
  | .create => none
  | .clone _ => none
  | .box _ => none
  | .call handle c =>
    match b.handles[handle]? with
    | none => none
    | some h =>
      if h.place = place then b.links[place]?.map fun m => ⟨c, (m.call h.link c).1⟩ else none

/-- What a sequence of events does. -/
def after (b : Bench) (events : List BenchEvent) : Bench :=
  events.foldl step b

/-- What the link of a place is asked in a sequence of events, and what it answers. -/
def history (b : Bench) (place : Nat) : List BenchEvent → List LinkExchange
  | [] => []
  | e :: rest => (b.exchange? place e).toList ++ (b.step e).history place rest

/-- Every link has lived through the calls that came to its place, and no call has come to a place
without a link. -/
structure Lives (past : Nat → List LinkExchange) (b : Bench) : Prop where
  link : ∀ place m, b.links[place]? = some m → MemoryLink.Lived (past place) m
  vacant : ∀ place, b.links[place]? = none → past place = []

variable {past : Nat → List LinkExchange} {b : Bench}

theorem Lives.create (h : b.Lives past) : (b.step .create).Lives past where
  link place m hm := by
    rw [step, List.getElem?_append] at hm
    split at hm
    · exact h.link place m hm
    · -- The new link has been asked nothing, as there was none in its place.
      rename_i hge
      rw [List.getElem?_singleton] at hm
      split at hm
      · rw [h.vacant place (List.getElem?_eq_none_iff.mpr (Nat.le_of_not_lt hge)),
          ← Option.some_inj.mp hm]
        exact .start
      · exact absurd hm.symm (Option.some_ne_none m)
  vacant place hnone := by
    rw [step, List.getElem?_eq_none_iff, List.length_append] at hnone
    exact h.vacant place (List.getElem?_eq_none_iff.mpr (Nat.le_of_add_right_le hnone))

theorem Lives.call (h : b.Lives past) (handle : Nat) (c : LinkCall) :
    (b.step (.call handle c)).Lives
      fun place => past place ++ (b.exchange? place (.call handle c)).toList := by
  simp only [step, exchange?]
  cases hhandle : b.handles[handle]? with
  | none => simpa using h
  | some own =>
      refine ⟨fun place m hm => ?_, fun place hnone => ?_⟩
      · simp only [List.getElem?_modify] at hm
        by_cases hplace : own.place = place
        · -- The link of this place is asked, and the pointers make no difference.
          simp only [if_pos hplace] at hm ⊢
          rcases Option.map_eq_some_iff.mp hm with ⟨m', hm', rfl⟩
          rw [hm', own.link_eq]
          exact (h.link place m' hm').call c
        · simp only [if_neg hplace, id_map'] at hm ⊢
          simpa using h.link place m (by simpa using hm)
      · have hvacant : b.links[place]? = none := by simpa using hnone
        simp [hvacant, h.vacant place hvacant]

/-- What every event keeps. -/
theorem Lives.step (h : b.Lives past) (e : BenchEvent) :
    (b.step e).Lives fun place => past place ++ (b.exchange? place e).toList := by
  -- Clones and boxes make handles, not links: no history grows.
  cases e with
  | create => simpa [exchange?] using h.create
  | clone handle =>
      have hclone : (b.step (.clone handle)).Lives past := ⟨h.link, h.vacant⟩
      simpa [exchange?] using hclone
  | box handle =>
      have hbox : (b.step (.box handle)).Lives past := ⟨h.link, h.vacant⟩
      simpa [exchange?] using hbox
  | call handle c => exact h.call handle c

/-- What every sequence of events keeps. -/
theorem Lives.after (h : b.Lives past) (events : List BenchEvent) :
    (b.after events).Lives fun place => past place ++ b.history place events := by
  induction events generalizing b past with
  | nil => simpa [Bench.after, history] using h
  | cons e rest ih =>
      have hrest := ih (h.step e)
      simp only [List.append_assoc] at hrest
      exact hrest

/-- Every link of a test has lived through the calls that came to it, through whichever handle. -/
theorem lived {events : List BenchEvent} {place : Nat} {m : MemoryLink}
    (hm : (empty.after events).links[place]? = some m) :
    MemoryLink.Lived (empty.history place events) m := by
  have hempty : empty.Lives fun _ => [] :=
    ⟨fun _ _ h => absurd h.symm (Option.some_ne_none _), fun _ _ => rfl⟩
  exact (hempty.after events).link place m hm

/-- What a call leaves alone on the link that it comes to is left alone on every link. -/
theorem map_links_call {α : Type} (f : MemoryLink → α) (b : Bench) (handle place : Nat)
    {c : LinkCall} (h : ∀ m, f (m.call MemoryLink.link c).2 = f m) :
    (b.step (.call handle c)).links[place]?.map f = b.links[place]?.map f := by
  -- Only the link at the handle's place is called, and `f` cannot tell its state from before.
  simp only [step]
  cases b.handles[handle]? with
  | none => rfl
  | some own =>
      simp only [List.getElem?_modify, own.link_eq]
      by_cases hplace : own.place = place
      · simp only [if_pos hplace]
        cases b.links[place]? with
        | none => rfl
        | some m => exact congrArg some (h m)
      · simp [if_neg hplace]

end Bench

end FireControl
