import FireControl.Console.Sweep
import FireControl.Proofs.Numeric.Grid

/-!
# The Cycle of the Test Sweep

The sweep goes on from the packet before, by floating-point steps that start again at one end when
they pass the other. `standing` says where it is at packet `n` without going there: yaw counts the
degrees of `n` modulo 361, pitch counts half degrees modulo 361 from a start in the middle, and the
fire flag is the parity of the fives in `n`. One more packet moves `standing n` to
`standing (n + 1)`, so every packet of the sweep is the one that stands at its number.

Nothing is rounded on the way, because all angles are whole numbers of half degrees that are far
smaller than what the mantissa holds. The two angles are followed by these counts
(`Float32.Counts`). A count does not tell the sign of a zero, but zero comes up in two places only:
yaw is set to it, and pitch reaches it from minus one half, and both are positive zeros. So equal
counts are equal bits on the wire, and the packets repeat bit for bit.

The cycle of yaw has 361 packets, that of pitch too, and that of the fire flag ten. They come
together again after 3610 packets and not before. The number of the packet is the only thing in the
sweep that does not repeat. The sweep counts it one by one, so a counter of 64 bits is enough for
every number of 64 bits.

## Main definitions

* `Sweep.nth`: The packet of a number.
* `Sweep.standing`: The sweep at a packet, without the packets before it.

## Theorems

* `stepAngle_of_le`, `stepAngle_of_lt`: An angle is moved on or set back, by counts.
* `standing_yaw`, `standing_pitch`: The angles by counts.
* `advance_standing`: One more packet.
* `after_start`, `packets_start`: All packets of the sweep.
* `nth_yaw`, `nth_pitch`, `nth_fire`: What a packet holds, by its number.
* `nth_periodic_iff`: The periods of the sweep.
* `sweep_closed_form`: Content, range and period of the packets.
-/

namespace FireControl

namespace Sweep

/-- The packet of number `n`, the first one having number one. -/
def nth (n : ℕ) : Packet :=
  (after n start).packet

/-- The sweep at packet `n`, without the packets before it. -/
def standing (n : ℕ) : Sweep where
  yaw := .ofInteger (n % 361 : ℕ)
  pitch := .ofInteger ((n + 180) % 361 : ℕ) / 2 - 90
  fire := decide (n / 5 % 2 = 1)
  count := n

/-! ### Angles by counts -/

section

variable {angle step first last : Float32} {e k b : ℤ}
variable (hsum : (angle + step).Counts e k) (hlast : last.Counts e b)
include hsum hlast

/-- An angle that does not pass the last one is moved on. -/
theorem stepAngle_of_le (h : k ≤ b) : stepAngle angle step first last = angle + step := by
  rw [stepAngle, if_neg]
  rw [hlast.lt_iff hsum]
  omega

/-- An angle that passes the last one is set back to the first. -/
theorem stepAngle_of_lt (h : b < k) : stepAngle angle step first last = first := by
  rw [stepAngle, if_pos]
  rwa [hlast.lt_iff hsum]

end

theorem standing_yaw (n : ℕ) : (standing n).yaw.Counts 0 (n % 361 : ℕ) :=
  Float32.ofInteger_counts (by omega)

theorem turn_counts : (360 : Float32).Counts 0 360 :=
  hasValue_positive (m := 11796480) (e := -15) (by decide) rfl (by norm_num)

theorem ninety_counts : (90 : Float32).Counts (-1) 180 :=
  hasValue_positive (m := 11796480) (e := -17) (by decide) rfl (by norm_num)

/-- Pitch counts half degrees, and there are 180 of them below zero. -/
theorem standing_pitch (n : ℕ) :
    (standing n).pitch.Counts (-1) (((n + 180) % 361 : ℕ) - 180) := by
  have hwhole : (Float32.ofInteger ((n + 180) % 361 : ℕ)).Counts (-1 + 1) ((n + 180) % 361 : ℕ) :=
    Float32.ofInteger_counts (by omega)
  have hhalf := hwhole.half (by decide) (by decide) (by omega)
  exact hhalf.sub (by decide) (by decide) ninety_counts (by omega)

/-! ### One more packet -/

theorem stepAngle_yaw (n : ℕ) :
    stepAngle (standing n).yaw 1 0 360 = (standing (n + 1)).yaw := by
  have hone : (1 : Float32).Counts 0 1 := by
    simpa [Float32.Counts] using hasValue_one
  have hsum := (standing_yaw n).add (by decide) (by decide) hone (by omega)
  by_cases hend : n % 361 = 360
  · -- Yaw is set to a positive zero, which no count would tell.
    have hnext : (n + 1) % 361 = 0 := by omega
    rw [stepAngle_of_lt hsum turn_counts (by omega), standing, hnext]
    rfl
  · have hnext : (n + 1) % 361 = n % 361 + 1 := by omega
    have htarget := standing_yaw (n + 1)
    rw [hnext, Nat.cast_add, Nat.cast_one] at htarget
    rw [stepAngle_of_le hsum turn_counts (by omega)]
    exact hsum.eq htarget (by omega)

theorem stepAngle_pitch (n : ℕ) :
    stepAngle (standing n).pitch 0.5 (-90) 90 = (standing (n + 1)).pitch := by
  have hstep : (0.5 : Float32).Counts (-1) 1 := by
    simpa [Float32.Counts] using hasValue_half
  have hsum := (standing_pitch n).add (by decide) (by decide) hstep (by omega)
  by_cases hend : (n + 180) % 361 = 360
  · have hnext : (n + 1 + 180) % 361 = 0 := by omega
    rw [stepAngle_of_lt hsum ninety_counts (by omega)]
    -- The number that pitch is set to is the one that the formula gives.
    change -90 = Float32.ofInteger ((n + 1 + 180) % 361 : ℕ) / 2 - 90
    rw [hnext]
    decide +kernel
  · rw [stepAngle_of_le hsum ninety_counts (by omega)]
    have hnext : (n + 1 + 180) % 361 = (n + 180) % 361 + 1 := by omega
    by_cases hzero : (n + 180) % 361 = 179
    · -- The count of the sum is zero, which leaves its sign open.
      change Float32.ofInteger ((n + 180) % 361 : ℕ) / 2 - 90 + 0.5 =
        Float32.ofInteger ((n + 1 + 180) % 361 : ℕ) / 2 - 90
      rw [hnext, hzero]
      decide +kernel
    · have htarget := standing_pitch (n + 1)
      rw [hnext, Nat.cast_add, Nat.cast_one, add_sub_right_comm] at htarget
      exact hsum.eq htarget (by omega)

/-- One more packet. -/
theorem advance_standing (n : ℕ) : (standing n).advance = standing (n + 1) := by
  have hfire : (if (n + 1) % 5 = 0 then !decide (n / 5 % 2 = 1) else decide (n / 5 % 2 = 1)) =
      decide ((n + 1) / 5 % 2 = 1) := by
    by_cases hfive : (n + 1) % 5 = 0
    · rw [if_pos hfive, ← decide_not, decide_eq_decide]
      omega
    · rw [if_neg hfive, decide_eq_decide]
      omega
  have hcount : (standing n).count = n := rfl
  rw [advance, stepAngle_yaw, stepAngle_pitch, hcount]
  exact congrArg (Sweep.mk _ _ · _) hfire

/-! ### All packets -/

theorem start_eq_standing : start = standing 0 := by
  decide +kernel

theorem after_standing (m n : ℕ) : after m (standing n) = standing (n + m) := by
  -- The first packet is taken first, so the induction moves the number that it starts from.
  induction m generalizing n with
  | zero => rfl
  | succ m ih =>
      rw [after, advance_standing, ih]
      congr 1
      omega

theorem packets_standing (m n : ℕ) :
    packets m (standing n) = (List.range' (n + 1) m).map fun i => (standing i).packet := by
  induction m generalizing n with
  | zero => rfl
  | succ m ih => rw [packets, advance_standing, ih, List.range'_succ, List.map_cons]

/-- The sweep after `n` packets is the one that stands at packet `n`. -/
theorem after_start (n : ℕ) : after n start = standing n := by
  rw [start_eq_standing, after_standing, Nat.zero_add]

theorem nth_eq (n : ℕ) : nth n = (standing n).packet := by
  rw [nth, after_start]

/-- The packets of the sweep are those of the numbers from one on. -/
theorem packets_start (m : ℕ) : packets m start = (List.range' 1 m).map nth := by
  rw [start_eq_standing, packets_standing, Nat.zero_add]
  exact List.map_congr_left fun n _ => (nth_eq n).symm

theorem next_after (n : ℕ) : (after n start).next = (nth (n + 1), after (n + 1) start) := by
  rw [nth_eq, after_start, after_start, next, advance_standing]

/-! ### What a packet holds -/

theorem yawAngle_nth (n : ℕ) : (nth n).yawAngle = (standing n).yaw := by
  rw [nth_eq]
  exact Float32.ofBits_toBits _

theorem pitchAngle_nth (n : ℕ) : (nth n).pitchAngle = (standing n).pitch := by
  rw [nth_eq]
  exact Float32.ofBits_toBits _

theorem nth_yaw (n : ℕ) : (nth n).yawAngle.HasValue (n % 361 : ℕ) := by
  have hcount : (standing n).yaw.HasValue _ := standing_yaw n
  rw [zpow_zero, mul_one, Int.cast_natCast] at hcount
  rwa [yawAngle_nth]

theorem nth_pitch (n : ℕ) :
    (nth n).pitchAngle.HasValue (((n + 180) % 361 : ℕ) / 2 - 90) := by
  have hcount : (standing n).pitch.HasValue _ := standing_pitch n
  rw [pitchAngle_nth]
  generalize (n + 180) % 361 = k at hcount ⊢
  have hvalue : (((k : ℤ) - 180 : ℤ) : ℚ) * 2 ^ (-1 : ℤ) = k / 2 - 90 := by
    push_cast
    ring
  rwa [hvalue] at hcount

theorem nth_fire (n : ℕ) : (nth n).fire = true ↔ Odd (n / 5) := by
  rw [nth_eq, Nat.odd_iff]
  exact decide_eq_true_iff

theorem nth_yaw_within (n : ℕ) : 0 ≤ (nth n).yawAngle ∧ (nth n).yawAngle ≤ 360 := by
  have hfirst : (0 : Float32).Counts 0 0 := by
    simpa [Float32.Counts] using hasValue_zero
  rw [yawAngle_nth, hfirst.le_iff (standing_yaw n), (standing_yaw n).le_iff turn_counts]
  omega

theorem nth_pitch_within (n : ℕ) : -90 ≤ (nth n).pitchAngle ∧ (nth n).pitchAngle ≤ 90 := by
  have hfirst : (-90 : Float32).Counts (-1) (-180) :=
    hasValue_negative (m := 11796480) (e := -17) (by decide) rfl (by norm_num)
  rw [pitchAngle_nth, hfirst.le_iff (standing_pitch n), (standing_pitch n).le_iff ninety_counts]
  omega

/-! ### Periods -/

theorem nth_add_cycles (n k : ℕ) : nth (n + 3610 * k) = nth n := by
  have hyaw : (n + 3610 * k) % 361 = n % 361 := by omega
  have hpitch : (n + 3610 * k + 180) % 361 = (n + 180) % 361 := by omega
  have hfire : (n + 3610 * k) / 5 % 2 = n / 5 % 2 := by omega
  simp only [nth_eq, packet, standing, hyaw, hpitch, hfire]

/-- The packets repeat after every whole number of cycles and after no other number. -/
theorem nth_periodic_iff (p : ℕ) : (∀ n, 1 ≤ n → nth (n + p) = nth n) ↔ 3610 ∣ p := by
  constructor
  · intro h
    have hfire (n : ℕ) (hn : 1 ≤ n) : (n + p) / 5 % 2 = 1 ↔ n / 5 % 2 = 1 := by
      rw [← Nat.odd_iff, ← Nat.odd_iff, ← nth_fire, ← nth_fire, h n hn]
    -- The flag changes from the ninth packet to the tenth, so a period of it counts by tens.
    have htens : p % 10 = 0 := by
      have hnine := hfire 9 (by decide)
      have hten := hfire 10 (by decide)
      omega
    have hyaw : (361 + p) % 361 = 361 % 361 := by
      have hvalue := nth_yaw (361 + p)
      rw [h 361 (by decide)] at hvalue
      exact_mod_cast hvalue.unique (nth_yaw 361)
    omega
  · rintro ⟨k, rfl⟩ n -
    exact nth_add_cycles n k

/-- The packets of the sweep in closed form. Each further packet is the one of the next number, and
the number is what the sweep has counted. Packet `n` holds, without any rounding, the yaw
`n mod 361`, the pitch `((n + 180) mod 361) / 2 - 90` and the parity of the fives in `n`; so yaw
stays between 0 and 360 degrees and pitch between -90 and 90. The bits repeat after 3610 packets,
and every period is a multiple of this one. -/
theorem sweep_closed_form :
    (∀ m, packets m start = (List.range' 1 m).map nth) ∧
    (∀ n, (after n start).count = n ∧
      (after n start).next = (nth (n + 1), after (n + 1) start)) ∧
    (∀ n, (nth n).yawAngle.HasValue (n % 361 : ℕ) ∧
      (nth n).pitchAngle.HasValue (((n + 180) % 361 : ℕ) / 2 - 90) ∧
      ((nth n).fire = true ↔ Odd (n / 5))) ∧
    (∀ n, 0 ≤ (nth n).yawAngle ∧ (nth n).yawAngle ≤ 360 ∧
      -90 ≤ (nth n).pitchAngle ∧ (nth n).pitchAngle ≤ 90) ∧
    ∀ p, (∀ n, 1 ≤ n → nth (n + p) = nth n) ↔ 3610 ∣ p := by
  refine ⟨packets_start, fun n => ⟨?_, next_after n⟩,
    fun n => ⟨nth_yaw n, nth_pitch n, nth_fire n⟩, fun n => ?_, nth_periodic_iff⟩
  · rw [after_start]
    rfl
  · rcases nth_yaw_within n with ⟨hzero, hturn⟩
    exact ⟨hzero, hturn, nth_pitch_within n⟩

end Sweep

end FireControl
