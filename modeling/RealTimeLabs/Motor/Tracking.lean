import RealTimeLabs.Motor.Driver

/-! Quadrature tracking.

The decoder states of the driver are the line patterns of a quadrature encoder and
`TRANSITION_TABLE` is its decoding, all sixteen entries (`transitionTable_pattern`).
A handler run therefore moves the position by what the shaft moved between the
effective positions of two samples (`motorIsr_tracks`), and a run of handlers by the
whole movement (`tracked_shaft`). -/
namespace RealTimeLabs.Motor
open Quadrature

/-- The encoder lines at a shaft position, A in bit 0 and B in bit 1: the cycle 0, 1, 3, 2. -/
def linePattern (p : Int) : UInt8 := ([0, 1, 3, 2] : List UInt8).getD (p % 4).toNat 0

/-- Two lines in the encoding of `motor_state`. -/
def pattern (a b : Bool) : UInt8 := (if a then 1 else 0) ||| (if b then 2 else 0)

theorem pattern_lines (p : Int) : pattern (lineA p) (lineB p) = linePattern p := by
  have h4 : p % 4 = 0 ∨ p % 4 = 1 ∨ p % 4 = 2 ∨ p % 4 = 3 := by omega
  rcases h4 with h | h | h | h <;> simp [pattern, linePattern, lineA, lineB, h]
  decide

theorem ircA_motorSr (p : Int) : ircA (motorSr p) = if lineA p then 1 else 0 := by
  unfold ircA motorSr
  cases lineA p <;> cases lineB p <;> decide

theorem ircB_motorSr (p : Int) : ircB (motorSr p) = if lineB p then 2 else 0 := by
  unfold ircB motorSr
  cases lineA p <;> cases lineB p <;> decide

/-- A handler's sample, A read with the shaft at `p` and B with it at `q`. -/
theorem sample_motorSr (p q : Int) :
    ircA (motorSr p) ||| ircB (motorSr q) = pattern (lineA p) (lineB q) := by
  rw [ircA_motorSr, ircB_motorSr]
  rfl

theorem initState_motorSr (p q : Int) :
    initState (motorSr p) (motorSr q) = pattern (lineA p) (lineB q) := by
  unfold initState motorSr
  cases lineA p <;> cases lineB p <;> cases lineA q <;> cases lineB q <;> decide

/-- All sixteen entries: the table is the decoding of the two patterns. -/
theorem transitionTable_pattern (a b a' b' : Bool) :
    transitionTable (transition (pattern a b).toNat (pattern a' b').toNat) =
      Int32.ofInt (decode a b a' b') := by
  cases a <;> cases b <;> cases a' <;> cases b' <;> decide

/-! ### One handler -/

/-- The duty update and the acknowledgement leave the decoder's variables alone. -/
theorem motorIsr_decode (srA srB : BitVec 32) (d : Driver) :
    (motorIsr srA srB d).motorState = (d.decode (ircA srA) (ircB srB)).motorState ∧
      (motorIsr srA srB d).shared.position =
        (d.decode (ircA srA) (ircB srB)).shared.position ∧
      (motorIsr srA srB d).shared.irqCount =
        (d.decode (ircA srA) (ircB srB)).shared.irqCount := by
  unfold motorIsr
  by_cases hset : (d.decode (ircA srA) (ircB srB)).setPositionToDesired = true
  · simp only [if_pos hset]
    exact ⟨rfl, rfl, rfl⟩
  · simp only [if_neg hset]
    exact ⟨rfl, rfl, rfl⟩

/-- A handler whose sample stands one position at most from the last one moves the
position by the difference. -/
theorem motorIsr_tracks (a b e : Int) (d : Driver) (hstate : d.motorState = linePattern e)
    (hab : |a - b| ≤ 1) (hmove : |effective a b - e| ≤ 1) :
    (motorIsr (motorSr a) (motorSr b) d).motorState = linePattern (effective a b) ∧
      (motorIsr (motorSr a) (motorSr b) d).shared.position =
        d.shared.position + Int32.ofInt (effective a b - e) ∧
      (motorIsr (motorSr a) (motorSr b) d).shared.irqCount = d.shared.irqCount + 1 := by
  obtain ⟨hm, hp, hi⟩ := motorIsr_decode (motorSr a) (motorSr b) d
  obtain ⟨hA, hB⟩ := effective_lines a b hab
  have hsample : ircA (motorSr a) ||| ircB (motorSr b) = linePattern (effective a b) := by
    rw [sample_motorSr, ← hA, ← hB, pattern_lines]
  refine ⟨?_, ?_, ?_⟩
  · rw [hm]
    exact hsample
  · rw [hp]
    show d.shared.position +
      transitionTable (transition d.motorState.toNat
        (ircA (motorSr a) ||| ircB (motorSr b)).toNat) = _
    rw [hsample, hstate, ← pattern_lines, ← pattern_lines, transitionTable_pattern,
      decode_lines e (effective a b) hmove]
  · rw [hi]
    rfl

/-! ### Runs of handlers -/

/-- The driver after `motor_init` and `n` interrupts, the two lines of sample `k` read
with the shaft at `a k` and `b k`; sample 0 is `motor_init`'s. -/
def sampled (a b : Nat → Int) (d : Driver) : Nat → Driver
  | 0 => motorInit (motorSr (a 0)) (motorSr (b 0)) d
  | n + 1 => motorIsr (motorSr (a (n + 1))) (motorSr (b (n + 1))) (sampled a b d n)

/-- Any two of the positions differ by at most one. -/
def WithinOne (ps : List Int) : Prop := ∀ p ∈ ps, ∀ q ∈ ps, |p - q| ≤ 1

/-- Every two consecutive samples, among the first `n`, are read within one position. -/
def SlowEnough (a b : Nat → Int) (n : Nat) : Prop :=
  ∀ k < n, WithinOne [a k, b k, a (k + 1), b (k + 1)]

/-- After `n` interrupts the driver stands at an effective position of the last sample:
its state is that position's lines and its position the way from the first sample. -/
def Tracks (a b : Nat → Int) (n : Nat) (d : Driver) : Prop :=
  ∃ e : Nat → Int, (∀ k ≤ n, e k = a k ∨ e k = b k) ∧
    d.motorState = linePattern (e n) ∧
    d.shared.position = Int32.ofInt (e n - e 0) ∧
    d.shared.irqCount.toNat = n % UInt32.size

/-- The effective positions of the samples carry the tracking along a run. -/
theorem sampled_effective (a b : Nat → Int) (d : Driver) (n : Nat) (h0 : |a 0 - b 0| ≤ 1)
    (h : SlowEnough a b n) :
    (sampled a b d n).motorState = linePattern (effective (a n) (b n)) ∧
      (sampled a b d n).shared.position =
        Int32.ofInt (effective (a n) (b n) - effective (a 0) (b 0)) ∧
      (sampled a b d n).shared.irqCount = UInt32.ofNat n := by
  induction n with
  | zero =>
    obtain ⟨hA, hB⟩ := effective_lines (a 0) (b 0) h0
    refine ⟨?_, ?_, rfl⟩
    · show initState (motorSr (a 0)) (motorSr (b 0)) = _
      rw [initState_motorSr, ← hA, ← hB, pattern_lines]
    · rw [Int.sub_self]
      rfl
  | succ n ih =>
    obtain ⟨hstate, hposition, hcount⟩ := ih fun k hk => h k (Nat.lt_succ_of_lt hk)
    have hn := h n (Nat.lt_succ_self n)
    have hab : |a (n + 1) - b (n + 1)| ≤ 1 := hn _ (by simp) _ (by simp)
    have hmove : |effective (a (n + 1)) (b (n + 1)) - effective (a n) (b n)| ≤ 1 := by
      apply hn
      · rcases effective_mem (a (n + 1)) (b (n + 1)) with he | he <;> simp [he]
      · rcases effective_mem (a n) (b n) with he | he <;> simp [he]
    obtain ⟨hstate', hposition', hcount'⟩ :=
      motorIsr_tracks (a (n + 1)) (b (n + 1)) _ (sampled a b d n) hstate hab hmove
    refine ⟨hstate', ?_, ?_⟩
    · rw [sampled, hposition', hposition, ← Int32.ofInt_add]
      congr 1
      omega
    · rw [sampled, hcount', hcount]
      exact (UInt32.ofNat_add n 1).symm

/-- **Exact tracking with torn samples.** While the shaft stays within one position
over every two consecutive samples, and over the first, no step is lost, doubled or
counted the wrong way, although the two lines of a sample are read one after the other. -/
theorem tracked_shaft (a b : Nat → Int) (d : Driver) (n : Nat) (h0 : |a 0 - b 0| ≤ 1)
    (h : SlowEnough a b n) : Tracks a b n (sampled a b d n) := by
  obtain ⟨hstate, hposition, hcount⟩ := sampled_effective a b d n h0 h
  refine ⟨fun k => effective (a k) (b k), fun k _ => effective_mem _ _, hstate, hposition, ?_⟩
  rw [hcount, UInt32.toNat_ofNat']

/-- One step forward, seen torn by the first interrupt and whole by the second. -/
theorem tracked_step :
    Tracks (fun k => if k < 2 then 0 else 1) (fun k => if k < 1 then 0 else 1) 2
      (sampled (fun k => if k < 2 then 0 else 1) (fun k => if k < 1 then 0 else 1) booted 2) :=
  tracked_shaft _ _ booted 2 (by decide) (by unfold SlowEnough WithinOne; decide)

/-- Nothing bounds the movement within the first sample when no interrupt follows: read at
0 and at 2 it shows the lines of neither. -/
theorem torn_first_sample :
    SlowEnough (fun _ => 0) (fun _ => 2) 0 ∧
      ¬ Tracks (fun _ => 0) (fun _ => 2) 0 (sampled (fun _ => 0) (fun _ => 2) booted 0) := by
  refine ⟨fun k hk => absurd hk (Nat.not_lt_zero k), ?_⟩
  intro ⟨e, he, hstate, _⟩
  rcases he 0 (Nat.le_refl 0) with h | h
  · rw [h] at hstate
    exact absurd hstate (by decide)
  · rw [h] at hstate
    exact absurd hstate (by decide)

end RealTimeLabs.Motor
