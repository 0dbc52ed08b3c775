import RealTimeLabs.History.Uptime

/-! The timestamps of a run, however often the timer has wrapped.

`update_statistics` subtracts two 32-bit readings of a timer, and adds the difference to a
sum of 64 bits. As long as there is less than one turn of the timer between two readings,
the sum is the number of ticks since the first one (`clockAt_readings`), up to the 64 bits
of its own. The milliseconds of an iteration are exact while a thousand times the ticks
fit them too, and what is stored is cut to 32 bits (`timestamps_timed`). -/
namespace RealTimeLabs.History
open RingLog

/-- A timer that counts without end, as often as `update_statistics` reads it: before its
loop, and then once an iteration, never a whole turn of 32 bits later. -/
structure Timer where
  ticks : Nat → Nat
  onward : ∀ n, ticks n ≤ ticks (n + 1)
  inTime : ∀ n, ticks (n + 1) < ticks n + 2 ^ 32

namespace Timer

/-- `sysTimestamp` has the low 32 bits. -/
def readings (t : Timer) (freq : UInt32) (desiredPosition position pwmDuty : Nat → Int32) :
    Readings where
  sysTimestamp n := UInt32.ofNat (t.ticks n)
  sysTimestampFreq := freq
  desiredPosition := desiredPosition
  position := position
  pwmDuty := pwmDuty

/-- Ticks from the task's first reading to that of its `n`-th iteration. -/
def elapsed (t : Timer) (n : Nat) : Nat := t.ticks n - t.ticks 0

theorem ticks_mono (t : Timer) : Monotone t.ticks := monotone_nat_of_le_succ t.onward

theorem elapsed_mono (t : Timer) : Monotone t.elapsed :=
  fun _ _ h => Nat.sub_le_sub_right (t.ticks_mono h) _

end Timer

variable {F : Type}

/-- What the clock and the stored timestamps have to do with the true time. -/
structure Timed (t : Timer) (freq : UInt32) (s : State F) : Prop where
  /-- The sum is the ticks since the first reading, but for the wrap of its 64 bits. -/
  ticks : s.clock.timestamp64.toNat = t.elapsed s.clocked % 2 ^ 64
  /-- The milliseconds are those of the true time, rounded down. -/
  millis : t.elapsed s.clocked * 1000 < 2 ^ 64 →
    (s.clock.millis freq).toNat = t.elapsed s.clocked * 1000 / freq.toNat
  /-- They lag behind it by less than one. -/
  lag : 0 < freq.toNat → t.elapsed s.clocked * 1000 < 2 ^ 64 →
    (s.clock.millis freq).toNat * freq.toNat ≤ t.elapsed s.clocked * 1000 ∧
      t.elapsed s.clocked * 1000 < ((s.clock.millis freq).toNat + 1) * freq.toNat
  /-- Every timestamp in the ring has the low 32 bits of its iteration's. -/
  stored : ∀ j, j < s.written .timestamp → s.written .timestamp ≤ j + historyCyclicArraySize →
    t.elapsed (j + 1) * 1000 < 2 ^ 64 →
    s.history.arrays .timestamp (slot historyCyclicArraySize historySize j) =
      UInt32.ofNat (t.elapsed (j + 1) * 1000 / freq.toNat)

/-! ### The clock -/

section
variable (t : Timer) (freq : UInt32) (desiredPosition position pwmDuty : Nat → Int32)

/-- The differences of the readings telescope. -/
theorem clockAt_readings (n : Nat) :
    clockAt (t.readings freq desiredPosition position pwmDuty) n =
      ⟨UInt32.ofNat (t.ticks n), UInt64.ofNat (t.elapsed n)⟩ := by
  induction n with
  | zero =>
    rw [Timer.elapsed, Nat.sub_self]
    rfl
  | succ n ih =>
    have hmono := t.ticks_mono (Nat.zero_le n)
    have honward := t.onward n
    have hintime := t.inTime n
    have hnext := clock_advance hmono honward (by omega)
    rw [clockAt, ih]
    exact hnext

theorem sample_timestamp {j : Nat} (h : t.elapsed (j + 1) * 1000 < 2 ^ 64) :
    sample (t.readings freq desiredPosition position pwmDuty) .timestamp j =
      UInt32.ofNat (t.elapsed (j + 1) * 1000 / freq.toNat) := by
  have hmillis : sample (t.readings freq desiredPosition position pwmDuty) .timestamp j =
      ((clockAt (t.readings freq desiredPosition position pwmDuty) (j + 1)).millis
        freq).toUInt32 := rfl
  apply UInt32.toNat_inj.mp
  rw [hmillis, clockAt_readings, UInt64.toNat_toUInt32, toNat_millis h, UInt32.toNat_ofNat']

theorem timed_of_recording {s : State F}
    (h : Recording (t.readings freq desiredPosition position pwmDuty) s) : Timed t freq s := by
  have hclock := h.clock
  rw [clockAt_readings] at hclock
  have hmillis (hfits : t.elapsed s.clocked * 1000 < 2 ^ 64) :
      (s.clock.millis freq).toNat = t.elapsed s.clocked * 1000 / freq.toNat := by
    rw [hclock]
    exact toNat_millis hfits
  refine ⟨?_, hmillis, fun hpos hfits => ?_, fun j hj hring hfits => ?_⟩
  · rw [hclock, UInt64.toNat_ofNat']
  · rw [hmillis hfits]
    refine ⟨Nat.div_mul_le_self _ _, ?_⟩
    rw [Nat.mul_comm _ freq.toNat]
    exact Nat.lt_mul_div_succ _ hpos
  · rw [h.arrays .timestamp, contents_entry hj hring]
    exact sample_timestamp t freq desiredPosition position pwmDuty hfits

end

/-! ### Runs -/

theorem clocked_step (r : Readings) (c : Cast F) (a : Action) (s : State F) :
    s.clocked ≤ (step r c a s).clocked := by
  cases a with
  | writer =>
    cases hpc : s.writer with
    | clock =>
      simp only [State.clocked, step, writerStep, hpc]
      exact Nat.le_succ _
    | write f i => cases f <;> simp [State.clocked, step, writerStep, hpc, Field.next]
    | advance => simp [State.clocked, step, writerStep, hpc]
  | reader =>
    have hwriter : (readerStep c s).writer = s.writer := by
      unfold readerStep
      split
      case h_2 => split <;> rfl
      all_goals rfl
    have hsame : (readerStep c s).clocked = s.clocked := by
      rw [State.clocked, hwriter, completed_readerStep]
      rfl
    exact hsame.ge

theorem clocked_run (r : Readings) (c : Cast F) (s : State F) (acts : List Action) :
    s.clocked ≤ (run r c s acts).clocked :=
  Interleaving.run_invariant (I := fun s' => s.clocked ≤ s'.clocked)
    (fun a s' h => Nat.le_trans h (clocked_step r c a s')) (Nat.le_refl _) acts

/-- **Timestamps survive the wrap of the timer.** In every state of a run the clock and the
timestamps in the ring are those of the true time, and in no later one have the
milliseconds gone back. -/
theorem timestamps_timed (t : Timer) (freq : UInt32)
    (desiredPosition position pwmDuty : Nat → Int32) (c : Cast F) (garbage : Field → Nat → F)
    (acts more : List Action) :
    let r := t.readings freq desiredPosition position pwmDuty
    let s := run r c (initial r garbage) acts
    let s' := run r c (initial r garbage) (acts ++ more)
    Timed t freq s ∧ (t.elapsed s'.clocked * 1000 < 2 ^ 64 →
      s.clock.millis freq ≤ s'.clock.millis freq) := by
  intro r s s'
  have htimed (as : List Action) : Timed t freq (run r c (initial r garbage) as) :=
    timed_of_recording t freq desiredPosition position pwmDuty
      (copying_run r c garbage as).recording
  refine ⟨htimed acts, fun hfits => ?_⟩
  have hlater : s.clocked ≤ s'.clocked := by
    have happend : s' = run r c s more := Interleaving.run_append _ _ _ _
    rw [happend]
    exact clocked_run r c s more
  have hticks : t.elapsed s.clocked * 1000 ≤ t.elapsed s'.clocked * 1000 :=
    Nat.mul_le_mul_right _ (t.elapsed_mono hlater)
  rw [UInt64.le_iff_toNat_le, (htimed acts).millis (hticks.trans_lt hfits),
    (htimed (acts ++ more)).millis hfits]
  exact Nat.div_le_div_right hticks

/-! ### The sum's own wrap -/

/-- A timer that is read just in time. -/
def lazyTimer : Timer where
  ticks n := n * (2 ^ 32 - 1)
  onward n := by omega
  inTime n := by omega

theorem iteration_completed (r : Readings) (c : Cast F) {s : State F} (h : s.writer = .clock) :
    (run r c s (List.replicate 6 .writer)).writer = .clock ∧
      (run r c s (List.replicate 6 .writer)).completed = s.completed + 1 := by
  simp [run, Interleaving.run, step, writerStep, h, Field.next]

/-- Six statements are an iteration. -/
theorem iterations_completed (r : Readings) (c : Cast F) {s : State F} (h : s.writer = .clock)
    (n : Nat) : (run r c s (List.replicate (6 * n) .writer)).writer = .clock ∧
      (run r c s (List.replicate (6 * n) .writer)).completed = s.completed + n := by
  induction n with
  | zero => exact ⟨h, rfl⟩
  | succ n ih =>
    have hsplit : run r c s (List.replicate (6 * (n + 1)) .writer) =
        run r c (run r c s (List.replicate (6 * n) .writer)) (List.replicate 6 .writer) := by
      rw [Nat.mul_succ, List.replicate_add]
      exact Interleaving.run_append _ _ _ _
    have hlast := iteration_completed r c ih.1
    rw [hsplit, hlast.2, ih.2]
    exact ⟨hlast.1, rfl⟩

/-- Once the true time needs more than 64 bits, the sum is not it. -/
theorem timestamp64_ne {t : Timer} {r : Readings} {freq : UInt32} {d p w : Nat → Int32}
    (hr : r = t.readings freq d p w) (c : Cast F) (garbage : Field → Nat → F) {n : Nat}
    (h : 2 ^ 64 ≤ t.elapsed n) :
    (run r c (initial r garbage) (List.replicate (6 * n) .writer)).clock.timestamp64.toNat ≠
      t.elapsed (run r c (initial r garbage) (List.replicate (6 * n) .writer)).clocked := by
  subst hr
  have hcompleted := iterations_completed (t.readings freq d p w) c
    (s := initial (t.readings freq d p w) garbage) rfl n
  have htimed := timed_of_recording t freq d p w
    (copying_run (t.readings freq d p w) c garbage (List.replicate (6 * n) .writer)).recording
  rw [htimed.ticks, State.clocked, hcompleted.1, hcompleted.2]
  simp only [initial, Nat.zero_add]
  have := Nat.mod_lt (t.elapsed n) (show 0 < 2 ^ 64 by decide)
  omega

/-- After 4294967298 iterations of nearly a turn each, the sum has wrapped. -/
theorem timestamp64_wraps :
    let r := lazyTimer.readings 1000 (fun _ => 0) (fun _ => 0) (fun _ => 0)
    let s := run r ⟨fun _ => (), fun _ => ()⟩ (initial r fun _ _ => ())
      (List.replicate (6 * 4294967298) .writer)
    s.clock.timestamp64.toNat ≠ lazyTimer.elapsed s.clocked :=
  timestamp64_ne rfl _ _ (n := 4294967298) (by decide)

end RealTimeLabs.History
