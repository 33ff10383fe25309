import FireControl.Proofs.Packet.Codec

/-!
# What Damage the Decoder Sees

A packet that is damaged on its way arrives with a mask laid over its bytes: each byte is combined
with a byte of the mask by exclusive or, and a zero in the mask leaves its byte alone. Every eleven
bytes can arrive in this way, so what the decoder says of a damaged packet is a matter of the mask.

The exclusive or of all eleven bytes of a packet is zero, checksum included. It is also additive, so
the exclusive or of the damaged bytes is that of the mask, whatever the packet was. The decoder
compares the last byte with the exclusive or of the ten before it, which is the same as asking
whether all eleven cancel. The checksum test is therefore a test of the mask alone, and so is the
header test; only the test of the fire flag also depends on the packet.

A mask with a single byte in it never cancels, and a mask with two cancels where the two are equal.

## Main definitions

* `Packet.Bytes`: Eleven bytes by position.
* `Packet.damaged`: The bytes of a packet under a mask.

## Theorems

* `checksum_append`, `checksum_xor`: The checksum is additive.
* `checksum_encode`: The bytes of a packet cancel.
* `checksum_of_single`, `checksum_of_pair`: Masks with one byte and with two.
* `decode_ofFn`: The decoder asks whether the bytes cancel.
* `passes_iff`: Which masks are not found.
* `decode_damaged`: What is found in a damaged packet, by its mask.
-/

namespace FireControl

theorem foldl_xor (bytes : List UInt8) (acc : UInt8) :
    bytes.foldl (· ^^^ ·) acc = acc ^^^ checksum bytes := by
  induction bytes generalizing acc with
  | nil => exact UInt8.xor_zero.symm
  | cons b rest ih =>
      rw [checksum, List.foldl_cons, List.foldl_cons, ih, ih (0 ^^^ b), UInt8.zero_xor,
        UInt8.xor_assoc]

theorem checksum_cons (b : UInt8) (bytes : List UInt8) :
    checksum (b :: bytes) = b ^^^ checksum bytes := by
  rw [checksum, List.foldl_cons, foldl_xor, UInt8.zero_xor]

theorem checksum_append (xs ys : List UInt8) :
    checksum (xs ++ ys) = checksum xs ^^^ checksum ys := by
  rw [checksum, List.foldl_append, foldl_xor]
  rfl

variable {n : Nat}

/-- The checksum is additive, byte by byte. -/
theorem checksum_xor (f g : Fin n → UInt8) :
    checksum (List.ofFn fun i => f i ^^^ g i) =
      checksum (List.ofFn f) ^^^ checksum (List.ofFn g) := by
  induction n with
  | zero => simp only [List.ofFn_zero, checksum, List.foldl_nil, UInt8.xor_zero]
  | succ n ih =>
      simp only [List.ofFn_succ, checksum_cons, ih]
      ac_rfl

theorem checksum_zero : checksum (List.ofFn fun _ : Fin n => 0) = 0 := by
  induction n with
  | zero => rfl
  | succ n ih => rw [List.ofFn_succ, checksum_cons, ih, UInt8.xor_zero]

/-- A single byte is its own checksum, wherever it stands. -/
theorem checksum_of_single {f : Fin n → UInt8} {i : Fin n} (others : ∀ j, j ≠ i → f j = 0) :
    checksum (List.ofFn f) = f i := by
  induction n with
  | zero => exact i.elim0
  | succ n ih =>
      -- A set byte at the front leaves zeros behind it; one further back stands among the rest.
      rw [List.ofFn_succ, checksum_cons]
      cases i using Fin.cases with
      | zero =>
          have hrest : (fun j : Fin n => f j.succ) = fun _ => 0 :=
            funext fun j => others j.succ (Fin.succ_ne_zero j)
          rw [hrest, checksum_zero, UInt8.xor_zero]
      | succ i =>
          have hfirst : f 0 = 0 := others 0 (Fin.succ_ne_zero i).symm
          rw [hfirst, UInt8.zero_xor]
          exact ih fun j hj => others j.succ fun heq => hj (Fin.succ_inj.mp heq)

/-- Two bytes have the checksum of the two, wherever they stand. -/
theorem checksum_of_pair {f : Fin n → UInt8} {i j : Fin n} (hij : i ≠ j)
    (others : ∀ k, k ≠ i → k ≠ j → f k = 0) : checksum (List.ofFn f) = f i ^^^ f j := by
  -- The bytes are those at `i` and those elsewhere, each with at most one byte that is not zero.
  have hsplit : f = fun k => (if k = i then f k else 0) ^^^ (if k = i then 0 else f k) := by
    funext k
    by_cases hk : k = i
    · rw [if_pos hk, if_pos hk, UInt8.xor_zero]
    · rw [if_neg hk, if_neg hk, UInt8.zero_xor]
  have hi : checksum (List.ofFn fun k => if k = i then f k else 0) = f i :=
    (checksum_of_single (i := i) fun k hk => if_neg hk).trans (if_pos rfl)
  have hj : checksum (List.ofFn fun k => if k = i then 0 else f k) = f j := by
    refine (checksum_of_single (i := j) fun k hk => ?_).trans (if_neg hij.symm)
    by_cases hki : k = i
    · exact if_pos hki
    · exact (if_neg hki).trans (others k hki hk)
  rw [hsplit, checksum_xor, hi, hj, ← hsplit]

namespace Packet

/-- Eleven bytes by position. -/
abbrev Bytes := Fin 11 → UInt8

theorem length_encode (p : Packet) : p.encode.length = 11 :=
  rfl

/-- The bytes of a packet by position. -/
def bytes (p : Packet) : Bytes :=
  fun i => p.encode.get (i.cast p.length_encode.symm)

/-- The bytes of a packet under a mask. -/
def damaged (p : Packet) (mask : Bytes) : Bytes :=
  fun i => p.bytes i ^^^ mask i

theorem ofFn_bytes (p : Packet) : List.ofFn p.bytes = p.encode :=
  rfl

/-- The bytes of a packet cancel. -/
theorem checksum_encode (p : Packet) : checksum p.encode = 0 := by
  rw [encode, checksum_append, checksum_cons]
  change checksum p.body ^^^ (checksum p.body ^^^ 0) = 0
  rw [UInt8.xor_zero, UInt8.xor_self]

/-- What is left of the checksum of a damaged packet is the checksum of the mask. -/
theorem checksum_damaged (p : Packet) (mask : Bytes) :
    checksum (List.ofFn (p.damaged mask)) = checksum (List.ofFn mask) := by
  have hsum := checksum_xor p.bytes mask
  rw [ofFn_bytes, checksum_encode, UInt8.zero_xor] at hsum
  exact hsum

theorem decodeFire_eq (b : UInt8) :
    decodeFire b =
      if b ≠ 0x00 ∧ b ≠ 0x01 then .error (.value "fire" b) else .ok (decide (b = 0x01)) := by
  unfold decodeFire
  by_cases h₁ : b = 0x01
  · rw [if_pos h₁, if_neg (fun h => h.2 h₁), decide_eq_true h₁]
  · rw [if_neg h₁]
    by_cases h₀ : b = 0x00
    · rw [if_pos h₀, if_neg (fun h => h.1 h₀), decide_eq_false h₁]
    · rw [if_neg h₀, if_pos ⟨h₀, h₁⟩]

/-- The decoder compares the last byte with the checksum of the ten before it, which are equal where
all eleven cancel. -/
theorem decode_ofFn (b : Bytes) :
    decode (List.ofFn b) =
      if b 0 ≠ header then .error (.header (b 0))
      else if checksum (List.ofFn b) ≠ 0 then
        .error (.checksum (checksum ((List.ofFn b).take 10)) (b 10))
      else if b 9 ≠ 0x00 ∧ b 9 ≠ 0x01 then .error (.value "fire" (b 9))
      else
        .ok { yaw := ofLittleEndian (b 1) (b 2) (b 3) (b 4),
              pitch := ofLittleEndian (b 5) (b 6) (b 7) (b 8), fire := decide (b 9 = 0x01) } := by
  have hlist : List.ofFn b = [b 0, b 1, b 2, b 3, b 4, b 5, b 6, b 7, b 8, b 9, b 10] := rfl
  have htake : (List.ofFn b).take 10 = [b 0, b 1, b 2, b 3, b 4, b 5, b 6, b 7, b 8, b 9] := rfl
  -- The eleven bytes cancel exactly when the last one is the checksum of the others.
  have hcancel : checksum (List.ofFn b) ≠ 0 ↔ b 10 ≠ checksum ((List.ofFn b).take 10) := by
    have hsplit : checksum (List.ofFn b) = checksum ((List.ofFn b).take 10) ^^^ b 10 := by
      rw [show List.ofFn b = (List.ofFn b).take 10 ++ [b 10] from rfl, checksum_append,
        checksum_cons]
      exact congrArg _ UInt8.xor_zero
    rw [hsplit, Ne, UInt8.xor_eq_zero_iff, Ne, eq_comm]
  simp only [hcancel, htake]
  rw [hlist, decode, decodeFire_eq]
  by_cases hheader : b 0 ≠ header
  · rw [if_pos hheader, if_pos hheader]
  · rw [if_neg hheader, if_neg hheader]
    split
    · rfl
    · split
      · rfl
      · rfl

theorem damaged_header_ne_iff (p : Packet) (mask : Bytes) :
    p.damaged mask 0 ≠ header ↔ mask 0 ≠ 0 := by
  -- The byte that the mask is laid over is the header itself.
  have hzero : p.damaged mask 0 = header ^^^ mask 0 := rfl
  have hinj : header ^^^ mask 0 = header ^^^ 0 ↔ mask 0 = 0 := UInt8.xor_right_inj header
  rw [hzero, ne_eq, ne_eq, ← hinj, UInt8.xor_zero]

/-- A damaged packet passes where the mask leaves the header alone and cancels, and a flag is
left. -/
theorem passes_iff (p : Packet) (mask : Bytes) :
    (∃ q, decode (List.ofFn (p.damaged mask)) = .ok q) ↔
      mask 0 = 0 ∧ checksum (List.ofFn mask) = 0 ∧
        (p.damaged mask 9 = 0x00 ∨ p.damaged mask 9 = 0x01) := by
  have hrefused (e : PacketError) : ¬ ∃ q : Packet, Except.error e = .ok q :=
    fun ⟨q, hq⟩ => absurd hq (by simp only [reduceCtorEq, not_false_eq_true])
  rw [decode_ofFn]
  simp only [damaged_header_ne_iff, checksum_damaged, ← not_or]
  -- The checks in the decoder's order; where one fails, both sides do.
  by_cases hheader : mask 0 = 0
  · rw [if_neg (not_not_intro hheader)]
    by_cases hsum : checksum (List.ofFn mask) = 0
    · rw [if_neg (not_not_intro hsum)]
      by_cases hflag : p.damaged mask 9 = 0x00 ∨ p.damaged mask 9 = 0x01
      · rw [if_neg (not_not_intro hflag)]
        exact ⟨fun _ => ⟨hheader, hsum, hflag⟩, fun _ => ⟨_, rfl⟩⟩
      · rw [if_pos hflag]
        exact ⟨fun h => absurd h (hrefused _), fun h => absurd h.2.2 hflag⟩
    · rw [if_pos hsum]
      exact ⟨fun h => absurd h (hrefused _), fun h => absurd h.2.1 hsum⟩
  · rw [if_pos hheader]
    exact ⟨fun h => absurd h (hrefused _), fun h => absurd h.1 hheader⟩

/-- What is found in a damaged packet. A mask that touches the header gives a wrong header; one that
does not, and whose bytes do not cancel, gives a wrong checksum; after that only the damaged fire
flag can be wrong, and where it is not, the damaged bytes are read as they are. Damage to a single
byte is therefore always found, wherever it is, and damage to two bytes other than the header passes
only where both are changed by the same mask and a flag is left. -/
theorem decode_damaged (p : Packet) (mask : Bytes) :
    let b := p.damaged mask
    let received := List.ofFn b
    (decode received =
      if mask 0 ≠ 0 then .error (.header (b 0))
      else if checksum (List.ofFn mask) ≠ 0 then
        .error (.checksum (checksum (received.take 10)) (b 10))
      else if b 9 ≠ 0x00 ∧ b 9 ≠ 0x01 then .error (.value "fire" (b 9))
      else
        .ok { yaw := ofLittleEndian (b 1) (b 2) (b 3) (b 4),
              pitch := ofLittleEndian (b 5) (b 6) (b 7) (b 8), fire := decide (b 9 = 0x01) }) ∧
    (∀ i, mask i ≠ 0 → (∀ j, j ≠ i → mask j = 0) → ∃ e, decode received = .error e) ∧
    (∀ i j, i ≠ j → i ≠ 0 → j ≠ 0 → (∀ k, k ≠ i → k ≠ j → mask k = 0) →
      ((∃ q, decode received = .ok q) ↔ mask i = mask j ∧ (b 9 = 0x00 ∨ b 9 = 0x01))) := by
  intro b received
  refine ⟨?_, ?_, ?_⟩
  · have hdecode := decode_ofFn b
    simp only [b, damaged_header_ne_iff, checksum_damaged] at hdecode
    exact hdecode
  · intro i hi others
    cases hdecode : decode received with
    | error e => exact ⟨e, rfl⟩
    | ok q =>
        -- To pass, the single byte of the mask would have to cancel by itself.
        have hpasses := (passes_iff p mask).mp ⟨q, hdecode⟩
        rw [checksum_of_single others] at hpasses
        exact absurd hpasses.2.1 hi
  · intro i j hij hi hj others
    have hzero : mask 0 = 0 := others 0 hi.symm hj.symm
    have hpasses := passes_iff p mask
    rw [checksum_of_pair hij others, UInt8.xor_eq_zero_iff] at hpasses
    exact hpasses.trans (and_iff_right hzero)

/-- Two bytes of an angle that are changed alike make another packet. -/
example : decode (List.ofFn ((⟨0x3F800000, 0, false⟩ : Packet).damaged
    fun i => if i = 2 ∨ i = 4 then 0x10 else 0)) = .ok ⟨0x2F801000, 0, false⟩ := by
  rfl

end Packet

end FireControl
