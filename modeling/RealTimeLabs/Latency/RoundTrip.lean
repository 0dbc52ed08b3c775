import RealTimeLabs.Latency.Histogram

/-! The time of a round trip.

The two readings of the 32-bit timer are kept in 64 bits, and subtracted there. If the
timer has wrapped between them, the difference is that of 2^64 and not that of 2^32, and
of what the multiplication and the division leave of it the low 32 bits are taken. They
are the microseconds after all where the frequency divides 2^32 - 1000000
(`timeElapsed_wrapped_iff`), and with no other frequency (`roundTrip_right_iff`). -/
namespace RealTimeLabs.Latency

/-! ### The computation -/

/-- The locals `start` and `end` are of 64 bits. -/
def timeElapsed (sysTimestampFreq : UInt32) (start stop : UInt64) : UInt32 :=
  ((stop - start) * 1000000 / sysTimestampFreq.toUInt64).toUInt32

/-- A round trip: what a timer without end showed before it, and how long it took. -/
structure RoundTrip where
  before : Nat
  ticks : Nat

namespace RoundTrip

/-- `sysTimestamp` has the low 32 bits. -/
def start (t : RoundTrip) : UInt32 := UInt32.ofNat t.before

def stop (t : RoundTrip) : UInt32 := UInt32.ofNat (t.before + t.ticks)

/-- The true time, in whole microseconds. -/
def micros (t : RoundTrip) (freq : UInt32) : Nat := t.ticks * 1000000 / freq.toNat

def measured (t : RoundTrip) (freq : UInt32) : UInt32 :=
  timeElapsed freq t.start.toUInt64 t.stop.toUInt64

/-- The time is right, and the bucket of the true time is the one that is incremented, if
there is one. -/
structure Right (t : RoundTrip) (freq : UInt32) : Prop where
  time : (t.measured freq).toNat = t.micros freq
  bucket : ∀ s, ∃ s', tally (t.measured freq) s = some s' ∧ ∀ j,
    s'.delays j = s.delays j + if t.micros freq = j ∧ j < maxDelay then 1 else 0

end RoundTrip

/-! ### Wrapped differences -/

/-- A multiple of `M`, added before a division by less than `M`, is gone modulo `M` after it
exactly where it has been divided without a remainder. -/
theorem mul_add_div_mod_iff {M f a : Nat} (c : Nat) (hf : 0 < f) (hM : f ≤ M)
    (ha : a / f < M) : (M * c + a) / f % M = a / f ↔ f ∣ c := by
  constructor
  · intro h
    have hquot : M * ((M * c + a) / f / M) + a / f = (M * c + a) / f := by
      rw [← h]
      exact Nat.div_add_mod _ M
    have hwhole := Nat.div_add_mod (M * c + a) f
    have hpart := Nat.div_add_mod a f
    have hs : (M * c + a) % f < f := Nat.mod_lt _ hf
    have hr : a % f < f := Nat.mod_lt _ hf
    refine ⟨(M * c + a) / f / M, ?_⟩
    generalize (M * c + a) / f / M = m at hquot ⊢
    generalize (M * c + a) % f = s at hwhole hs
    -- both sides of the division, without the quotient that they share
    have hbalance : M * c + a % f = M * (f * m) + s := by
      rw [← hquot, Nat.mul_add] at hwhole
      have hcomm : f * (M * m) = M * (f * m) := Nat.mul_left_comm f M m
      omega
    have hremainder : a % f = s := by
      have hmod := congrArg (· % M) hbalance
      simp only [Nat.mul_add_mod] at hmod
      rw [Nat.mod_eq_of_lt (Nat.lt_of_lt_of_le hr hM),
        Nat.mod_eq_of_lt (Nat.lt_of_lt_of_le hs hM)] at hmod
      exact hmod
    exact Nat.eq_of_mul_eq_mul_left (Nat.lt_of_lt_of_le hf hM) (by omega)
  · intro ⟨m, hm⟩
    subst hm
    rw [Nat.mul_left_comm, Nat.mul_add_div hf, Nat.mul_add_mod, Nat.mod_eq_of_lt ha]

section
variable {freq : UInt32} {t : RoundTrip}

theorem micros_lt (hfreq : 1000000 ≤ freq.toNat) (ht : t.ticks < 2 ^ 32) :
    t.micros freq < 2 ^ 32 := by
  apply Nat.div_lt_of_lt_mul
  calc t.ticks * 1000000 < 2 ^ 32 * 1000000 := Nat.mul_lt_mul_of_pos_right ht (by decide)
    _ ≤ freq.toNat * 2 ^ 32 := by
      rw [Nat.mul_comm]
      exact Nat.mul_le_mul_right _ hfreq

theorem measured_toNat (t : RoundTrip) (freq : UInt32) : (t.measured freq).toNat =
    (2 ^ 64 - t.before % 2 ^ 32 + (t.before + t.ticks) % 2 ^ 32) % 2 ^ 64 * 1000000 % 2 ^ 64 /
      freq.toNat % 2 ^ 32 := by
  have hmillion : (1000000 : UInt64).toNat = 1000000 := rfl
  rw [RoundTrip.measured, timeElapsed, UInt64.toNat_toUInt32, UInt64.toNat_div, UInt64.toNat_mul,
    UInt64.toNat_sub, UInt32.toNat_toUInt64, UInt32.toNat_toUInt64, UInt32.toNat_toUInt64, hmillion]
  simp only [RoundTrip.start, RoundTrip.stop, UInt32.toNat_ofNat']

/-- The readings are in order exactly where the timer has not wrapped between them. -/
theorem start_le_stop_iff (ht : t.ticks < 2 ^ 32) :
    t.start ≤ t.stop ↔ t.before % 2 ^ 32 + t.ticks < 2 ^ 32 := by
  rw [UInt32.le_iff_toNat_le]
  simp only [RoundTrip.start, RoundTrip.stop, UInt32.toNat_ofNat']
  omega

theorem timeElapsed_unwrapped (hfreq : 1000000 ≤ freq.toNat) (ht : t.ticks < 2 ^ 32)
    (h : t.start ≤ t.stop) : (t.measured freq).toNat = t.micros freq := by
  have hnowrap := (start_le_stop_iff ht).mp h
  have hdifference : (2 ^ 64 - t.before % 2 ^ 32 + (t.before + t.ticks) % 2 ^ 32) % 2 ^ 64 =
      t.ticks := by omega
  rw [measured_toNat, hdifference, Nat.mod_eq_of_lt (show t.ticks * 1000000 < 2 ^ 64 by omega)]
  exact Nat.mod_eq_of_lt (micros_lt hfreq ht)

/-- After a wrap, a multiple of 2^32 too much is divided. -/
theorem timeElapsed_wrapped_iff (hfreq : 1000000 ≤ freq.toNat) (ht : t.ticks < 2 ^ 32)
    (h : ¬ t.start ≤ t.stop) :
    (t.measured freq).toNat = t.micros freq ↔ freq.toNat ∣ 2 ^ 32 - 1000000 := by
  have hwrap := (start_le_stop_iff ht).not.mp h
  have hlt : freq.toNat < 2 ^ 32 := freq.toNat_lt
  have hdifference : (2 ^ 64 - t.before % 2 ^ 32 + (t.before + t.ticks) % 2 ^ 32) % 2 ^ 64 =
      2 ^ 64 - 2 ^ 32 + t.ticks := by omega
  have hproduct : (2 ^ 64 - 2 ^ 32 + t.ticks) * 1000000 % 2 ^ 64 =
      2 ^ 32 * (2 ^ 32 - 1000000) + t.ticks * 1000000 := by omega
  rw [measured_toNat, hdifference, hproduct]
  exact mul_add_div_mod_iff _ (by omega) (Nat.le_of_lt hlt) (micros_lt hfreq ht)

theorem measured_eq_iff (hfreq : 1000000 ≤ freq.toNat) (ht : t.ticks < 2 ^ 32) :
    (t.measured freq).toNat = t.micros freq ↔
      t.start ≤ t.stop ∨ freq.toNat ∣ 2 ^ 32 - 1000000 := by
  by_cases h : t.start ≤ t.stop
  · exact iff_of_true (timeElapsed_unwrapped hfreq ht h) (.inl h)
  · rw [timeElapsed_wrapped_iff hfreq ht h, or_iff_right h]

/-- **The time of a round trip is right, and its bucket, exactly where the timer has not
wrapped between the two readings**, but for the frequencies that divide 2^32 - 1000000. -/
theorem roundTrip_right_iff (freq : UInt32) (t : RoundTrip) (hfreq : 1000000 ≤ freq.toNat)
    (ht : t.ticks < 2 ^ 32) :
    t.Right freq ↔ t.start ≤ t.stop ∨ freq.toNat ∣ 2 ^ 32 - 1000000 := by
  rw [← measured_eq_iff hfreq ht]
  constructor
  · exact fun h => h.time
  · intro h
    refine ⟨h, fun s => ?_⟩
    obtain ⟨s', hs', htally⟩ := tally_spec (t.measured freq) s
    refine ⟨s', hs', fun j => ?_⟩
    rw [← h]
    exact htally.delays j

end

/-- A hundred microseconds at 1 MHz, across no wrap. -/
theorem roundTrip_right_hundred : RoundTrip.Right ⟨5, 100⟩ 1000000 ↔
    RoundTrip.start ⟨5, 100⟩ ≤ RoundTrip.stop ⟨5, 100⟩ ∨ 1000000 ∣ 2 ^ 32 - 1000000 :=
  roundTrip_right_iff 1000000 ⟨5, 100⟩ (by decide) (by decide)

/-- One microsecond at 1 MHz, from the timer's last value to its first. -/
theorem roundTrip_wrapped_wrong : ¬ RoundTrip.Right ⟨4294967295, 1⟩ 1000000 := by
  intro h
  have htime := h.time
  revert htime
  decide

end RealTimeLabs.Latency
