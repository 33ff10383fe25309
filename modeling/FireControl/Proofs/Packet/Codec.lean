import FireControl.Packet.Basic

/-!
# The Wire Format

Encoding and decoding are written apart from each other: one lays bytes out, the other looks at
received bytes and gives the first fault it finds. What ties them together is a description of the
format that neither of them uses.

`IsPacket` says of bytes that they are a packet, position by position. `FirstFault` says of bytes
and a fault that this is the first of the four checks to fail; its constructors repeat the order of
the checks, since each of them asks for the checks before it to pass. Both are stated over any byte
string, so that a string of the wrong length has a fault like any other.

Angles travel as bit patterns. A word and its four bytes are compared as natural numbers, where the
bytes are the digits of the word to the base 256, and both directions are arithmetic.

The decoder takes its bytes apart by a pattern, so it cannot read a byte that is not there.
`decodeAt` reads by index instead, as a controller with a receive buffer does, and says `none` where
an index is out of range. That it agrees with the decoder is what shows that no length of the buffer
leads to such a read.

## Main definitions

* `Packet.IsPacket`: Bytes that are a packet.
* `Packet.FirstFault`: The first check that bytes fail.
* `Packet.decodeAt`: The decoder over checked reads by index.

## Theorems

* `toNat_ofLittleEndian`: Four bytes are the digits of their word.
* `ofLittleEndian_littleEndian`, `littleEndian_ofLittleEndian`: Words and bytes correspond.
* `encode_eq`: The eleven bytes of a packet.
* `decode_encode`: A packet that was encoded is decoded again.
* `isPacket_or_firstFault`: Bytes are a packet or have a first fault.
* `decode_eq_ok_iff`: Bytes are decoded exactly when they are an encoding.
* `decode_eq_error_iff`: Bytes are refused exactly with their first fault.
* `decodeAt_eq`: No length leads to a read out of range.
* `decode_inverts_encode`: The two functions are inverse on the whole wire format.
-/

namespace FireControl

theorem shiftLeft_toNat (b : UInt8) (k : Nat) (hk : k ≤ 24) :
    (b.toUInt32 <<< UInt32.ofNat k).toNat = b.toNat <<< k := by
  have hb : b.toNat < 2 ^ 8 := b.toNat_lt
  have hkk : (UInt32.ofNat k).toNat % 32 = k := by
    rw [UInt32.toNat_ofNat_of_lt' (by change k < 4294967296; omega)]
    omega
  have hlt : b.toNat * 2 ^ k < 2 ^ 32 := by
    calc b.toNat * 2 ^ k < 2 ^ 8 * 2 ^ k := Nat.mul_lt_mul_of_pos_right hb (Nat.two_pow_pos k)
      _ = 2 ^ (8 + k) := (Nat.pow_add 2 8 k).symm
      _ ≤ 2 ^ 32 := Nat.pow_le_pow_right (by decide) (by omega)
  rw [UInt32.toNat_shiftLeft, UInt8.toNat_toUInt32, hkk, Nat.shiftLeft_eq, Nat.mod_eq_of_lt hlt]

/-- Four bytes are the digits of their word to the base 256. Each byte is shifted past the bytes
before it, so the disjunction of the shifted bytes is their sum. -/
theorem toNat_ofLittleEndian (b₀ b₁ b₂ b₃ : UInt8) :
    (ofLittleEndian b₀ b₁ b₂ b₃).toNat =
      b₀.toNat + 256 * b₁.toNat + 65536 * b₂.toNat + 16777216 * b₃.toNat := by
  have h0 : b₀.toNat < 2 ^ 8 := b₀.toNat_lt
  have h1 : b₁.toNat < 2 ^ 8 := b₁.toNat_lt
  have h2 : b₂.toNat < 2 ^ 8 := b₂.toNat_lt
  have s1 : (b₁.toUInt32 <<< 8).toNat = b₁.toNat <<< 8 := shiftLeft_toNat b₁ 8 (by decide)
  have s2 : (b₂.toUInt32 <<< 16).toNat = b₂.toNat <<< 16 := shiftLeft_toNat b₂ 16 (by decide)
  have s3 : (b₃.toUInt32 <<< 24).toNat = b₃.toNat <<< 24 := shiftLeft_toNat b₃ 24 (by decide)
  -- Each disjunction joins two numbers without a common bit, so it is a sum.
  have low : b₀.toNat ||| b₁.toNat * 2 ^ 8 = 2 ^ 8 * b₁.toNat + b₀.toNat := by
    rw [Nat.two_pow_add_eq_or_of_lt h0, Nat.or_comm, Nat.mul_comm]
  have middle : 2 ^ 8 * b₁.toNat + b₀.toNat ||| b₂.toNat * 2 ^ 16 =
      2 ^ 16 * b₂.toNat + (2 ^ 8 * b₁.toNat + b₀.toNat) := by
    rw [Nat.two_pow_add_eq_or_of_lt (i := 16) (by omega), Nat.or_comm, Nat.mul_comm (2 ^ 16)]
  have high : 2 ^ 16 * b₂.toNat + (2 ^ 8 * b₁.toNat + b₀.toNat) ||| b₃.toNat * 2 ^ 24 =
      2 ^ 24 * b₃.toNat + (2 ^ 16 * b₂.toNat + (2 ^ 8 * b₁.toNat + b₀.toNat)) := by
    rw [Nat.two_pow_add_eq_or_of_lt (i := 24) (by omega), Nat.or_comm, Nat.mul_comm (2 ^ 24)]
  rw [ofLittleEndian, UInt32.toNat_or, UInt32.toNat_or, UInt32.toNat_or, UInt8.toNat_toUInt32, s1,
    s2, s3, Nat.shiftLeft_eq, Nat.shiftLeft_eq, Nat.shiftLeft_eq, low, middle, high]
  omega

/-- The bytes of a word are its digits to the base 256. -/
theorem byte_toNat (w : UInt32) (k : Nat) (hk : k ≤ 24) :
    ((w >>> UInt32.ofNat k).toUInt8).toNat = w.toNat >>> k % 256 := by
  have hkk : (UInt32.ofNat k).toNat % 32 = k := by
    rw [UInt32.toNat_ofNat_of_lt' (by change k < 4294967296; omega)]
    omega
  rw [UInt32.toNat_toUInt8, UInt32.toNat_shiftRight, hkk]

theorem ofLittleEndian_littleEndian (w : UInt32) :
    ofLittleEndian w.toUInt8 (w >>> 8).toUInt8 (w >>> 16).toUInt8 (w >>> 24).toUInt8 = w := by
  have hw : w.toNat < 2 ^ 32 := w.toNat_lt
  have d0 : w.toUInt8.toNat = w.toNat % 256 := UInt32.toNat_toUInt8 w
  have d1 : ((w >>> 8).toUInt8).toNat = w.toNat >>> 8 % 256 := byte_toNat w 8 (by decide)
  have d2 : ((w >>> 16).toUInt8).toNat = w.toNat >>> 16 % 256 := byte_toNat w 16 (by decide)
  have d3 : ((w >>> 24).toUInt8).toNat = w.toNat >>> 24 % 256 := byte_toNat w 24 (by decide)
  apply UInt32.toNat_inj.mp
  rw [toNat_ofLittleEndian, d0, d1, d2, d3]
  omega

theorem littleEndian_ofLittleEndian (b₀ b₁ b₂ b₃ : UInt8) :
    littleEndian (ofLittleEndian b₀ b₁ b₂ b₃) = [b₀, b₁, b₂, b₃] := by
  have h0 : b₀.toNat < 2 ^ 8 := b₀.toNat_lt
  have h1 : b₁.toNat < 2 ^ 8 := b₁.toNat_lt
  have h2 : b₂.toNat < 2 ^ 8 := b₂.toNat_lt
  have h3 : b₃.toNat < 2 ^ 8 := b₃.toNat_lt
  -- Nothing but the value of the word is needed from here on.
  have hw := toNat_ofLittleEndian b₀ b₁ b₂ b₃
  generalize ofLittleEndian b₀ b₁ b₂ b₃ = w at hw
  have d0 : w.toUInt8 = b₀ := by
    apply UInt8.toNat_inj.mp
    rw [UInt32.toNat_toUInt8, hw]
    omega
  have d1 : (w >>> 8).toUInt8 = b₁ := by
    apply UInt8.toNat_inj.mp
    rw [show ((w >>> 8).toUInt8).toNat = _ from byte_toNat w 8 (by decide), hw]
    omega
  have d2 : (w >>> 16).toUInt8 = b₂ := by
    apply UInt8.toNat_inj.mp
    rw [show ((w >>> 16).toUInt8).toNat = _ from byte_toNat w 16 (by decide), hw]
    omega
  have d3 : (w >>> 24).toUInt8 = b₃ := by
    apply UInt8.toNat_inj.mp
    rw [show ((w >>> 24).toUInt8).toNat = _ from byte_toNat w 24 (by decide), hw]
    omega
  rw [littleEndian, d0, d1, d2, d3]

namespace Packet

/-- Bytes that are a packet. -/
structure IsPacket (bytes : List UInt8) : Prop where
  length : bytes.length = 11
  header : bytes[0]? = some 0xAA
  checksum : bytes[10]? = some (checksum (bytes.take 10))
  fire : bytes[9]? = some 0x00 ∨ bytes[9]? = some 0x01

/-- The first of the four checks that bytes fail, with the values that are found there. -/
inductive FirstFault (bytes : List UInt8) : PacketError → Prop
  | length (h : bytes.length ≠ 11) : FirstFault bytes (.length 11 bytes.length)
  | header (found : UInt8) (hlength : bytes.length = 11) (hfound : bytes[0]? = some found)
      (h : found ≠ 0xAA) : FirstFault bytes (.header found)
  | checksum (found : UInt8) (hlength : bytes.length = 11) (hheader : bytes[0]? = some 0xAA)
      (hfound : bytes[10]? = some found) (h : found ≠ FireControl.checksum (bytes.take 10)) :
      FirstFault bytes (.checksum (FireControl.checksum (bytes.take 10)) found)
  | fire (found : UInt8) (hlength : bytes.length = 11) (hheader : bytes[0]? = some 0xAA)
      (hchecksum : bytes[10]? = some (FireControl.checksum (bytes.take 10)))
      (hfound : bytes[9]? = some found) (h₀ : found ≠ 0x00) (h₁ : found ≠ 0x01) :
      FirstFault bytes (.value "fire" found)

/-- The first `n` bytes, or nothing if there are fewer. -/
def first? (bytes : List UInt8) (n : Nat) : Option (List UInt8) :=
  if n ≤ bytes.length then some (bytes.take n) else none

/-- The word of the four bytes from position `i` on, or nothing if one of them is missing. -/
def wordAt? (bytes : List UInt8) (i : Nat) : Option UInt32 := do
  let b₀ ← bytes[i]?
  let b₁ ← bytes[i + 1]?
  let b₂ ← bytes[i + 2]?
  let b₃ ← bytes[i + 3]?
  return ofLittleEndian b₀ b₁ b₂ b₃

/-- The decoder over reads by index. A read out of range gives `none`. -/
def decodeAt (bytes : List UInt8) : Option (Except PacketError Packet) := do
  if bytes.length ≠ length then
    return .error (.length length bytes.length)
  let opening ← bytes[0]?
  if opening ≠ header then
    return .error (.header opening)
  let covered ← first? bytes 10
  let closing ← bytes[10]?
  if closing ≠ checksum covered then
    return .error (.checksum (checksum covered) closing)
  let flag ← bytes[9]?
  match decodeFire flag with
  | .error e => return .error e
  | .ok fire =>
    let yaw ← wordAt? bytes 1
    let pitch ← wordAt? bytes 5
    return .ok { yaw := yaw, pitch := pitch, fire := fire }

/-- The eleven bytes of a packet, one by one. -/
theorem encode_eq (p : Packet) :
    encode p =
      [header, p.yaw.toUInt8, (p.yaw >>> 8).toUInt8, (p.yaw >>> 16).toUInt8,
        (p.yaw >>> 24).toUInt8, p.pitch.toUInt8, (p.pitch >>> 8).toUInt8,
        (p.pitch >>> 16).toUInt8, (p.pitch >>> 24).toUInt8, fireByte p.fire, checksum p.body] :=
  rfl

theorem decodeFire_fireByte (fire : Bool) : decodeFire (fireByte fire) = .ok fire := by
  cases fire with
  | true => rfl
  | false => rfl

theorem fireByte_of_decodeFire (b : UInt8) (fire : Bool) (h : decodeFire b = .ok fire) :
    fireByte fire = b := by
  unfold decodeFire at h
  by_cases h₁ : b = 0x01
  · rw [if_pos h₁] at h
    cases h
    exact h₁.symm
  · rw [if_neg h₁] at h
    by_cases h₀ : b = 0x00
    · rw [if_pos h₀] at h
      cases h
      exact h₀.symm
    · rw [if_neg h₀] at h
      exact absurd h (by simp only [reduceCtorEq, not_false_eq_true])

/-- A packet that was encoded is decoded again. -/
theorem decode_encode (p : Packet) : decode (encode p) = .ok p := by
  have hsum : checksum
      [header, p.yaw.toUInt8, (p.yaw >>> 8).toUInt8, (p.yaw >>> 16).toUInt8,
        (p.yaw >>> 24).toUInt8, p.pitch.toUInt8, (p.pitch >>> 8).toUInt8,
        (p.pitch >>> 16).toUInt8, (p.pitch >>> 24).toUInt8, fireByte p.fire] =
      checksum p.body := rfl
  rw [encode_eq, decode]
  simp only [hsum, ne_eq, not_true_eq_false, if_false, decodeFire_fireByte, Except.map,
    ofLittleEndian_littleEndian]

/-- A list of eleven bytes, byte by byte. -/
theorem eq_of_length_eleven (bytes : List UInt8) (h : bytes.length = 11) :
    ∃ b₀ b₁ b₂ b₃ b₄ b₅ b₆ b₇ b₈ b₉ b₁₀,
      bytes = [b₀, b₁, b₂, b₃, b₄, b₅, b₆, b₇, b₈, b₉, b₁₀] := by
  match bytes, h with
  | [b₀, b₁, b₂, b₃, b₄, b₅, b₆, b₇, b₈, b₉, b₁₀], _ =>
    exact ⟨b₀, b₁, b₂, b₃, b₄, b₅, b₆, b₇, b₈, b₉, b₁₀, rfl⟩

/-- Bytes that are no packet have a first fault. -/
theorem isPacket_or_firstFault (bytes : List UInt8) :
    IsPacket bytes ∨ ∃ e, FirstFault bytes e := by
  by_cases hlength : bytes.length = 11
  · rcases eq_of_length_eleven bytes hlength with
      ⟨b₀, b₁, b₂, b₃, b₄, b₅, b₆, b₇, b₈, b₉, b₁₀, rfl⟩
    -- The checks are made in the order in which the decoder makes them.
    by_cases hheader : b₀ = 0xAA
    · subst hheader
      by_cases hsum : b₁₀ = checksum [0xAA, b₁, b₂, b₃, b₄, b₅, b₆, b₇, b₈, b₉]
      · by_cases h₀ : b₉ = 0x00
        · exact Or.inl ⟨hlength, rfl, congrArg some hsum, Or.inl (congrArg some h₀)⟩
        · by_cases h₁ : b₉ = 0x01
          · exact Or.inl ⟨hlength, rfl, congrArg some hsum, Or.inr (congrArg some h₁)⟩
          · exact Or.inr ⟨_, FirstFault.fire b₉ hlength rfl (congrArg some hsum) rfl h₀ h₁⟩
      · exact Or.inr ⟨_, FirstFault.checksum b₁₀ hlength rfl rfl hsum⟩
    · exact Or.inr ⟨_, FirstFault.header b₀ hlength rfl hheader⟩
  · exact Or.inr ⟨_, FirstFault.length hlength⟩

/-- The packet that eleven good bytes stand for. Header, checksum and flag leave no choice, so the
packet is read off the eight bytes of the two angles. -/
theorem decode_of_isPacket (bytes : List UInt8) (h : IsPacket bytes) :
    ∃ p, decode bytes = .ok p ∧ encode p = bytes := by
  rcases eq_of_length_eleven bytes h.length with
    ⟨b₀, b₁, b₂, b₃, b₄, b₅, b₆, b₇, b₈, b₉, b₁₀, rfl⟩
  have hheader : b₀ = header := Option.some.inj h.header
  have hsum : b₁₀ = checksum [b₀, b₁, b₂, b₃, b₄, b₅, b₆, b₇, b₈, b₉] := Option.some.inj h.checksum
  have hfire : ∃ fire, decodeFire b₉ = .ok fire := by
    rcases h.fire with h₀ | h₁
    · exact ⟨false, by rw [show b₉ = 0x00 from Option.some.inj h₀]; rfl⟩
    · exact ⟨true, by rw [show b₉ = 0x01 from Option.some.inj h₁]; rfl⟩
  rcases hfire with ⟨fire, hfire⟩
  -- The other bytes are the two angles, and encoding puts them back where they came from.
  refine ⟨⟨ofLittleEndian b₁ b₂ b₃ b₄, ofLittleEndian b₅ b₆ b₇ b₈, fire⟩, ?_, ?_⟩
  · rw [decode]
    simp only [hheader, hsum, hfire, ne_eq, not_true_eq_false, if_false, Except.map]
  · have hbody : body ⟨ofLittleEndian b₁ b₂ b₃ b₄, ofLittleEndian b₅ b₆ b₇ b₈, fire⟩ =
        [b₀, b₁, b₂, b₃, b₄, b₅, b₆, b₇, b₈, b₉] := by
      rw [body, littleEndian_ofLittleEndian, littleEndian_ofLittleEndian,
        fireByte_of_decodeFire b₉ fire hfire, hheader]
      rfl
    rw [encode, hbody, hsum]
    rfl

/-- Bytes that fail a check are refused with the first check that they fail. -/
theorem decode_of_firstFault (bytes : List UInt8) (e : PacketError) (h : FirstFault bytes e) :
    decode bytes = .error e := by
  -- The fault says how far the checks have come: every earlier one has passed.
  cases h with
  | length h =>
      unfold decode
      split
      · exact absurd rfl h
      · rfl
  | header found hlength hfound h =>
      rcases eq_of_length_eleven bytes hlength with
        ⟨b₀, b₁, b₂, b₃, b₄, b₅, b₆, b₇, b₈, b₉, b₁₀, rfl⟩
      have hb : b₀ = found := Option.some.inj hfound
      subst hb
      rw [decode, if_pos (show b₀ ≠ header from h)]
  | checksum found hlength hheader hfound h =>
      rcases eq_of_length_eleven bytes hlength with
        ⟨b₀, b₁, b₂, b₃, b₄, b₅, b₆, b₇, b₈, b₉, b₁₀, rfl⟩
      have hb₀ : b₀ = header := Option.some.inj hheader
      have hb₁₀ : b₁₀ = found := Option.some.inj hfound
      have hne : found ≠ FireControl.checksum [b₀, b₁, b₂, b₃, b₄, b₅, b₆, b₇, b₈, b₉] := h
      subst hb₁₀
      rw [decode, if_neg (fun hc => hc hb₀), if_pos hne]
      rfl
  | fire found hlength hheader hchecksum hfound h₀ h₁ =>
      rcases eq_of_length_eleven bytes hlength with
        ⟨b₀, b₁, b₂, b₃, b₄, b₅, b₆, b₇, b₈, b₉, b₁₀, rfl⟩
      have hb₀ : b₀ = header := Option.some.inj hheader
      have hb₉ : b₉ = found := Option.some.inj hfound
      have hb₁₀ : b₁₀ = checksum [b₀, b₁, b₂, b₃, b₄, b₅, b₆, b₇, b₈, b₉] :=
        Option.some.inj hchecksum
      subst hb₉
      rw [decode, if_neg (fun hc => hc hb₀), if_neg (fun hc => hc hb₁₀), decodeFire, if_neg h₁,
        if_neg h₀]
      rfl

theorem decode_eq_ok_iff (bytes : List UInt8) (p : Packet) :
    decode bytes = .ok p ↔ bytes = encode p := by
  constructor
  · intro h
    -- Every input is a packet or has a first fault, and a fault is answered by its error.
    rcases isPacket_or_firstFault bytes with hpacket | ⟨e, hfault⟩
    · rcases decode_of_isPacket bytes hpacket with ⟨q, hq, hbytes⟩
      rw [h] at hq
      rw [← hbytes, Except.ok.inj hq]
    · rw [decode_of_firstFault bytes e hfault] at h
      exact absurd h (by simp only [reduceCtorEq, not_false_eq_true])
  · intro h
    rw [h]
    exact decode_encode p

theorem decode_eq_error_iff (bytes : List UInt8) (e : PacketError) :
    decode bytes = .error e ↔ FirstFault bytes e := by
  constructor
  · intro h
    rcases isPacket_or_firstFault bytes with hpacket | ⟨e', hfault⟩
    · rcases decode_of_isPacket bytes hpacket with ⟨q, hq, _⟩
      rw [h] at hq
      exact absurd hq (by simp only [reduceCtorEq, not_false_eq_true])
    · rw [decode_of_firstFault bytes e' hfault] at h
      rw [← Except.error.inj h]
      exact hfault
  · exact decode_of_firstFault bytes e

/-- The bytes of an encoding pass all four checks. -/
theorem isPacket_encode (p : Packet) : IsPacket (encode p) := by
  refine ⟨rfl, rfl, rfl, ?_⟩
  cases hfire : p.fire with
  | true => exact Or.inr (by rw [encode_eq, hfire]; rfl)
  | false => exact Or.inl (by rw [encode_eq, hfire]; rfl)

/-- Every byte that the decoder asks for is there. The length is checked before the first read, and
a buffer of eleven bytes has all positions that are read later. -/
theorem decodeAt_eq (bytes : List UInt8) : decodeAt bytes = some (decode bytes) := by
  by_cases hlength : bytes.length = length
  · rcases eq_of_length_eleven bytes hlength with
      ⟨b₀, b₁, b₂, b₃, b₄, b₅, b₆, b₇, b₈, b₉, b₁₀, hbytes⟩
    have hopening : bytes[0]? = some b₀ := by rw [hbytes]; rfl
    have hcovered : first? bytes 10 = some [b₀, b₁, b₂, b₃, b₄, b₅, b₆, b₇, b₈, b₉] := by
      rw [hbytes]; rfl
    have hclosing : bytes[10]? = some b₁₀ := by rw [hbytes]; rfl
    have hflag : bytes[9]? = some b₉ := by rw [hbytes]; rfl
    have hyaw : wordAt? bytes 1 = some (ofLittleEndian b₁ b₂ b₃ b₄) := by rw [hbytes]; rfl
    have hpitch : wordAt? bytes 5 = some (ofLittleEndian b₅ b₆ b₇ b₈) := by rw [hbytes]; rfl
    -- With all reads answered, both decoders are the same chain of checks.
    rw [decodeAt, if_neg (fun hc => hc hlength)]
    simp only [hopening, hcovered, hclosing, hflag, hyaw, hpitch, Option.bind_eq_bind,
      Option.bind_some]
    rw [hbytes, decode]
    by_cases hheader : b₀ = header
    · subst hheader
      by_cases hsum : b₁₀ = checksum [header, b₁, b₂, b₃, b₄, b₅, b₆, b₇, b₈, b₉]
      · simp only [ne_eq, hsum, not_true_eq_false, if_false]
        cases decodeFire b₉ with
        | error e => rfl
        | ok fire => rfl
      · simp only [ne_eq, hsum, not_true_eq_false, not_false_eq_true, if_false, if_true]
        rfl
    · simp only [ne_eq, hheader, not_false_eq_true, if_true]
      rfl
  · have hfault := decode_of_firstFault bytes _ (FirstFault.length hlength)
    rw [hfault, decodeAt, if_pos hlength]
    rfl

/-- Encoding and decoding are inverse on the whole wire format. A packet comes back from its
encoding bit for bit, and bytes are decoded exactly when they are the encoding of the packet that
comes out; these are the strings of eleven bytes with the header, the checksum and a flag in place.
All other strings are refused with the first check that they fail and the values found there, and no
string makes the decoder read a byte that it does not have. -/
theorem decode_inverts_encode :
    (∀ p, decode (encode p) = .ok p) ∧
    (∀ bytes p, decode bytes = .ok p ↔ bytes = encode p) ∧
    (∀ bytes, (∃ p, decode bytes = .ok p) ↔ IsPacket bytes) ∧
    (∀ bytes e, decode bytes = .error e ↔ FirstFault bytes e) ∧
    (∀ bytes, decodeAt bytes = some (decode bytes)) := by
  refine ⟨decode_encode, decode_eq_ok_iff, fun bytes => ⟨?_, ?_⟩, decode_eq_error_iff, decodeAt_eq⟩
  · rintro ⟨p, hp⟩
    rw [(decode_eq_ok_iff bytes p).mp hp]
    exact isPacket_encode p
  · intro h
    rcases decode_of_isPacket bytes h with ⟨p, hp, _⟩
    exact ⟨p, hp⟩

end Packet

end FireControl
