import RealTimeLabs.History.Page
import RealTimeLabs.Svg.Grid

/-! The time axis over a long uptime.

A timer counts without end, `sysTimestamp` shows its last 32 bits, and `update_statistics`
adds up the differences of its readings in 64 bits and stores milliseconds in 32. All of
it starts again with `create_tasks`, which clears three of the four arrays of
`motor_history`: the timestamps of an earlier run stay, and so does `array_start_index`.
`Event` has what happens between the statements of `update_statistics`: time passes, and
the tasks are deleted and created anew. -/
namespace RealTimeLabs.History
open RingLog

/-- The board, and the time. -/
structure Uptime (F : Type) where
  board : State F
  /-- Ticks of the timer. -/
  now : Nat
  /-- When the present `update_statistics` read the timer last. -/
  read : Nat
  /-- When it started. -/
  started : Nat

inductive Event where
  | tick (ticks : Nat)
  /-- A statement of `update_statistics`, and what it finds in `motor_driver_shared`. -/
  | update (desiredPosition position pwmDuty : Int32)
  /-- The tasks are deleted, and `create_tasks` is called. -/
  | recreate
deriving DecidableEq

/-- What a statement reads at a time. -/
def readingsAt (sysTimestampFreq : UInt32) (now : Nat) (desiredPosition position pwmDuty : Int32) :
    Readings where
  sysTimestamp _ := UInt32.ofNat now
  sysTimestampFreq := sysTimestampFreq
  desiredPosition _ := desiredPosition
  position _ := position
  pwmDuty _ := pwmDuty

/-- The calls of `memset` in `create_tasks`. -/
def createTasks (h : MotorHistory) : MotorHistory where
  arrays
    | .desiredPosition => fun _ => Field.zero .desiredPosition
    | .position => fun _ => Field.zero .position
    | .pwmDuty => fun _ => Field.zero .pwmDuty
    | .timestamp => h.arrays .timestamp
  arrayStartIndex := h.arrayStartIndex

namespace Uptime
variable {F : Type}

/-- `create_tasks`, as far as the new `update_statistics` has initialised its locals. -/
def recreate (u : Uptime F) : Uptime F where
  board := { u.board with
    history := createTasks u.board.history
    clock := ⟨UInt32.ofNat u.now, 0⟩
    writer := .clock
    reader := .capture }
  now := u.now
  read := u.now
  started := u.now

def step (freq : UInt32) : Event → Uptime F → Uptime F
  | .tick ticks, u => { u with now := u.now + ticks }
  | .update desiredPosition position pwmDuty, u =>
    { u with
      board := writerStep (readingsAt freq u.now desiredPosition position pwmDuty) u.board
      read := if u.board.writer = .clock then u.now else u.read }
  | .recreate, u => u.recreate

/-- After the first `create_tasks`. -/
def boot (now : Nat) (garbage : Field → Nat → F) : Uptime F :=
  recreate ⟨initial (readingsAt 0 now 0 0 0) garbage, now, now, now⟩

def run (freq : UInt32) (u : Uptime F) (events : List Event) : Uptime F :=
  Interleaving.run (step freq) u events

/-- The timer is read before it has wrapped. -/
def ReadInTime : Event → Uptime F → Prop
  | .update .., u => u.board.writer = .clock → u.now - u.read < 4294967296
  | _, _ => True

instance decidableReadInTime : (e : Event) → (u : Uptime F) → Decidable (ReadInTime e u)
  | .tick _, _ => .isTrue trivial
  | .update .., _ => inferInstanceAs (Decidable (_ = _ → _ < _))
  | .recreate, _ => .isTrue trivial

/-- Milliseconds since `update_statistics` was started. -/
def elapsed (freq : UInt32) (u : Uptime F) : Nat := (u.now - u.started) * 1000 / freq.toNat

/-- The timestamp at the end of the window. -/
def newest (u : Uptime F) : UInt32 := u.board.history.element .timestamp (historySize - 1)

/-- Where the timer is read, the milliseconds since the start fit 32 bits, and are not
below the newest timestamp, as `float`s. -/
def Onward (freq : UInt32) : Event → Uptime F → Prop
  | .update .., u => u.board.writer = .clock → u.elapsed freq < 4294967296 ∧
      Svg.float u.newest.toNat ≤ Svg.float (u.elapsed freq)
  | _, _ => True

end Uptime

/-- The times of a page that is drawn now do not decrease. -/
def Uptime.TimeAxisOrdered (u : Uptime ℚ) : Prop := ∀ i j, i ≤ j → j < historySize →
  (series (Svg.rounded Svg.double) u.board).xActual i ≤
    (series (Svg.rounded Svg.double) u.board).xActual j

/-! ### What the clock knows -/

/-- The difference of two readings of the timer, if there was one wrap at most. -/
theorem reading_difference {read now : Nat} (hle : read ≤ now) (h : now - read < 4294967296) :
    (UInt32.ofNat now - UInt32.ofNat read).toNat = now - read := by
  rw [UInt32.toNat_sub, UInt32.toNat_ofNat', UInt32.toNat_ofNat']
  omega

theorem clock_advance {started read now : Nat} (hstarted : started ≤ read) (hle : read ≤ now)
    (h : now - read < 4294967296) :
    Clock.advance (UInt32.ofNat now) ⟨UInt32.ofNat read, UInt64.ofNat (read - started)⟩ =
      ⟨UInt32.ofNat now, UInt64.ofNat (now - started)⟩ := by
  have hsum : UInt64.ofNat (read - started) + (UInt32.ofNat now - UInt32.ofNat read).toUInt64 =
      UInt64.ofNat (now - started) := by
    apply UInt64.toNat_inj.mp
    rw [UInt64.toNat_add, UInt32.toNat_toUInt64, reading_difference hle h, UInt64.toNat_ofNat',
      UInt64.toNat_ofNat', Nat.mod_add_mod]
    congr 1
    omega
  rw [Clock.advance, hsum]

/-- The milliseconds as the division leaves them, before they are cut to 32 bits. -/
def Clock.millis (freq : UInt32) (c : Clock) : UInt64 := c.timestamp64 * 1000 / freq.toUInt64

theorem toNat_millis {freq : UInt32} {ticks : Nat} {prev : UInt32} (h : ticks * 1000 < 2 ^ 64) :
    (Clock.millis freq ⟨prev, UInt64.ofNat ticks⟩).toNat = ticks * 1000 / freq.toNat := by
  have hthousand : (1000 : UInt64).toNat = 1000 := rfl
  simp only [Clock.millis]
  rw [UInt64.toNat_div, UInt64.toNat_mul, UInt64.toNat_ofNat', UInt32.toNat_toUInt64, hthousand,
    Nat.mod_eq_of_lt (show ticks < 2 ^ 64 by omega), Nat.mod_eq_of_lt h]

/-- The milliseconds that are stored, while they fit. -/
theorem recorded_timestamp {r : Readings} {n ticks : Nat} {prev : UInt32}
    (h : ticks * 1000 / r.sysTimestampFreq.toNat < 4294967296) :
    (recorded r n ⟨prev, UInt64.ofNat ticks⟩ .timestamp).toNat =
      ticks * 1000 / r.sysTimestampFreq.toNat := by
  have hfreq : r.sysTimestampFreq.toNat < 4294967296 := r.sysTimestampFreq.toNat_lt
  change (Clock.millis r.sysTimestampFreq ⟨prev, UInt64.ofNat ticks⟩).toUInt32.toNat = _
  rw [UInt64.toNat_toUInt32]
  rcases Nat.eq_zero_or_pos r.sysTimestampFreq.toNat with hzero | hpos
  · rw [Clock.millis, UInt64.toNat_div, UInt32.toNat_toUInt64, hzero, Nat.div_zero, Nat.div_zero,
      Nat.zero_mod]
  · -- what fits after the division has not overflowed before it
    have hticks : ticks * 1000 < 4294967296 * r.sysTimestampFreq.toNat :=
      (Nat.div_lt_iff_lt_mul hpos).mp h
    rw [toNat_millis (by omega), Nat.mod_eq_of_lt h]

/-! ### The window -/

/-- The timestamps as the plots see them. -/
def times (h : MotorHistory) (i : Nat) : ℚ := Svg.float (h.arrays .timestamp i).toNat

/-- The slot at the end of the window. -/
def lastSlot (h : MotorHistory) : Nat :=
  (h.arrayStartIndex.toNat + (historySize - 1)) % historyCyclicArraySize

/-- The slot behind it, that the next sample goes to. -/
def nextSlot (h : MotorHistory) : Nat :=
  (h.arrayStartIndex.toNat + historySize) % historyCyclicArraySize

theorem lastSlot_ne_nextSlot (h : MotorHistory) : lastSlot h ≠ nextSlot h := by
  simp only [lastSlot, nextSlot, historySize, historyCyclicArraySize]
  omega

theorem times_write_of_ne (h : MotorHistory) {f : Field} (hf : f ≠ .timestamp) (i : Nat)
    (v : f.Ty) : times (h.write f i v) = times h := by
  have hsame : (h.write f i v).arrays .timestamp = h.arrays .timestamp :=
    Function.update_of_ne hf.symm _ _
  funext j
  rw [times, hsame, times]

theorem times_write (h : MotorHistory) (i : Nat) (v : UInt32) :
    times (h.write .timestamp i v) = Function.update (times h) i (Svg.float v.toNat) := by
  have hsame : (h.write .timestamp i v).arrays .timestamp =
      Function.update (h.arrays .timestamp) i v := by
    simp only [MotorHistory.write, Function.update_self]
  funext j
  rw [times, hsame]
  by_cases hj : j = i
  · rw [hj, Function.update_self, Function.update_self]
  · rw [Function.update_of_ne hj, Function.update_of_ne hj, times]

/-- Where the update under way stands, `ms` milliseconds after the start of the task. -/
def Pending (h : MotorHistory) (ms : Nat) : WriterPc → Prop
  | .clock => True
  | .write _ i => i = nextSlot h ∧ ms < 4294967296 ∧ times h (lastSlot h) ≤ Svg.float ms
  | .advance => times h (lastSlot h) ≤ times h (nextSlot h)

/-- The invariant: the clock has counted the ticks since the start, and the window is in order. -/
structure Keeping (freq : UInt32) (u : Uptime ℚ) : Prop where
  index : u.board.history.arrayStartIndex.toNat < historyCyclicArraySize
  started : u.started ≤ u.read
  read : u.read ≤ u.now
  clock : u.board.clock = ⟨UInt32.ofNat u.read, UInt64.ofNat (u.read - u.started)⟩
  window : Ordered historyCyclicArraySize historySize (times u.board.history)
    u.board.history.arrayStartIndex.toNat
  pending : Pending u.board.history ((u.read - u.started) * 1000 / freq.toNat) u.board.writer

theorem keeping_recreate {freq : UInt32} {u : Uptime ℚ}
    (hindex : u.board.history.arrayStartIndex.toNat < historyCyclicArraySize)
    (hwindow : Ordered historyCyclicArraySize historySize (times u.board.history)
      u.board.history.arrayStartIndex.toNat) : Keeping freq u.recreate := by
  have hzero : UInt64.ofNat (u.now - u.now) = 0 := by
    rw [Nat.sub_self]
    rfl
  exact ⟨hindex, le_rfl, le_rfl, congrArg _ hzero.symm, hwindow, trivial⟩

theorem keeping_boot (freq : UInt32) (now : Nat) (garbage : Field → Nat → ℚ) :
    Keeping freq (Uptime.boot now garbage) :=
  keeping_recreate (show 0 < historyCyclicArraySize by decide) fun _ _ => le_rfl

theorem keeping_clock {freq : UInt32} {u : Uptime ℚ} (h : Keeping freq u) {d p w : Int32}
    (hpc : u.board.writer = .clock) (hread : u.now - u.read < 4294967296)
    (hfits : u.elapsed freq < 4294967296)
    (hnewest : Svg.float u.newest.toNat ≤ Svg.float (u.elapsed freq)) :
    Keeping freq (Uptime.step freq (.update d p w) u) := by
  have hslot := index_add (Nat.mod_eq_of_lt h.index).symm historySize (Nat.le_refl _)
  have hadvance := clock_advance h.started h.read hread
  simp only [Uptime.step, writerStep, hpc, if_true]
  refine ⟨h.index, h.started.trans h.read, le_rfl, ?_, h.window, ?_⟩
  · rw [h.clock]
    exact hadvance
  · exact ⟨hslot, hfits, hnewest⟩

theorem keeping_write {freq : UInt32} {u : Uptime ℚ} (h : Keeping freq u) {d p w : Int32}
    {f : Field} {i : Nat} (hpc : u.board.writer = .write f i) :
    Keeping freq (Uptime.step freq (.update d p w) u) := by
  have hpending := h.pending
  rw [hpc] at hpending
  obtain ⟨hi, hfits, hnewest⟩ := hpending
  simp only [Uptime.step, writerStep, hpc, reduceCtorEq, if_false]
  by_cases hf : f = .timestamp
  · subst hf
    have hstored : (recorded (readingsAt freq u.now d p w) u.board.completed
        ⟨UInt32.ofNat u.read, UInt64.ofNat (u.read - u.started)⟩ .timestamp).toNat =
          (u.read - u.started) * 1000 / freq.toNat := recorded_timestamp hfits
    have htimes : times (u.board.history.write .timestamp i (recorded
        (readingsAt freq u.now d p w) u.board.completed u.board.clock .timestamp)) =
          Function.update (times u.board.history) (nextSlot u.board.history)
            (Svg.float ((u.read - u.started) * 1000 / freq.toNat : ℕ)) := by
      rw [times_write, h.clock, hstored, hi]
    refine ⟨h.index, h.started, h.read, h.clock, ?_, ?_⟩
    · rw [htimes]
      exact h.window.update (by decide) _
    · change times _ (lastSlot u.board.history) ≤ times _ (nextSlot u.board.history)
      rw [htimes, Function.update_self, Function.update_of_ne (lastSlot_ne_nextSlot _)]
      exact hnewest
  · have htimes := times_write_of_ne u.board.history hf i
      (recorded (readingsAt freq u.now d p w) u.board.completed u.board.clock f)
    refine ⟨h.index, h.started, h.read, h.clock, ?_, ?_⟩
    · rw [htimes]
      exact h.window
    · have hwait : Pending (u.board.history.write f i (recorded (readingsAt freq u.now d p w)
          u.board.completed u.board.clock f)) ((u.read - u.started) * 1000 / freq.toNat)
          (.write f i) := by
        refine ⟨hi, hfits, ?_⟩
        rw [htimes]
        exact hnewest
      cases f with
      | timestamp => exact absurd rfl hf
      | _ => exact hwait

theorem keeping_advance {freq : UInt32} {u : Uptime ℚ} (h : Keeping freq u) {d p w : Int32}
    (hpc : u.board.writer = .advance) : Keeping freq (Uptime.step freq (.update d p w) u) := by
  have hpending := h.pending
  rw [hpc] at hpending
  have hnext := index_add (Nat.mod_eq_of_lt h.index).symm 1 (by decide)
  simp only [Uptime.step, writerStep, hpc, reduceCtorEq, if_false]
  refine ⟨?_, h.started, h.read, h.clock, ?_, trivial⟩
  · exact hnext.trans_lt (Nat.mod_lt _ (by decide))
  · change Ordered _ _ _ ((u.board.history.arrayStartIndex + 1) % UInt32.ofNat _).toNat
    rw [show ((u.board.history.arrayStartIndex + 1) % UInt32.ofNat historyCyclicArraySize).toNat = _
      from hnext]
    exact h.window.advance hpending

theorem keeping_step {freq : UInt32} (e : Event) (u : Uptime ℚ) (h : Keeping freq u)
    (hread : Uptime.ReadInTime e u) (honward : Uptime.Onward freq e u) :
    Keeping freq (Uptime.step freq e u) := by
  cases e with
  | tick ticks =>
    exact ⟨h.index, h.started, h.read.trans (Nat.le_add_right _ _), h.clock, h.window, h.pending⟩
  | recreate => exact keeping_recreate h.index h.window
  | update d p w =>
    cases hpc : u.board.writer with
    | clock => exact keeping_clock h hpc (hread hpc) (honward hpc).1 (honward hpc).2
    | write f i => exact keeping_write h hpc
    | advance => exact keeping_advance h hpc

/-! ### The time axis -/

/-- The page shows the window. -/
theorem timeAxisOrdered_iff {u : Uptime ℚ}
    (hindex : u.board.history.arrayStartIndex.toNat < historyCyclicArraySize) :
    u.TimeAxisOrdered ↔ ∀ i j, i ≤ j → j < historySize →
      Svg.float (u.board.history.element .timestamp i).toNat ≤
        Svg.float (u.board.history.element .timestamp j).toNat := by
  have hx (k : Nat) (hk : k < historySize) :
      (series (Svg.rounded Svg.double) u.board).xActual k =
        Svg.float (u.board.history.element .timestamp k).toNat := by
    rw [(series_copies _ _).1, (copied_eq _ _ hindex).2 .timestamp k hk]
    rfl
  constructor
  · intro h i j hij hj
    rw [← hx i (hij.trans_lt hj), ← hx j hj]
    exact h i j hij hj
  · intro h i j hij hj
    rw [hx i (hij.trans_lt hj), hx j hj]
    exact h i j hij hj

theorem timeAxisOrdered_of_keeping {freq : UInt32} {u : Uptime ℚ} (h : Keeping freq u) :
    u.TimeAxisOrdered :=
  (timeAxisOrdered_iff h.index).mpr fun _ _ hij hj => h.window.le hij hj

/-- **The time axis is in order** in every state of a run in which time goes onward. -/
theorem timeAxis_ordered_of_onward (freq : UInt32) (now : Nat) (garbage : Field → Nat → ℚ)
    (events : List Event)
    (hread : Interleaving.Along (Uptime.step freq) Uptime.ReadInTime (Uptime.boot now garbage)
      events)
    (honward : Interleaving.Along (Uptime.step freq) (Uptime.Onward freq) (Uptime.boot now garbage)
      events) :
    Interleaving.Throughout (Uptime.step freq)
      (fun u => u.board.writer = .clock → u.TimeAxisOrdered) (Uptime.boot now garbage) events := by
  have hkeeping := Interleaving.throughout_of_along
    (fun e u h hC => keeping_step e u h hC.1 hC.2) (keeping_boot freq now garbage)
    (hread.and honward)
  exact hkeeping.imp fun u h (_ : u.board.writer = .clock) => timeAxisOrdered_of_keeping h

/-- One iteration of `update_statistics`, while nothing moves. -/
def iteration : List Event := List.replicate 6 (.update 0 0 0)

theorem timeAxis_ordered_first : Interleaving.Throughout (Uptime.step 1000)
    (fun u => u.board.writer = .clock → u.TimeAxisOrdered) (Uptime.boot 0 fun _ _ => 0)
    (.tick 10 :: iteration) := by
  have hfirst : Uptime.Onward 1000 (.update 0 0 0)
      (Uptime.step 1000 (.tick 10) (Uptime.boot 0 fun _ _ => 0)) :=
    fun _ => ⟨by decide, Svg.isRounding_float.mono (Nat.cast_le.mpr (by decide))⟩
  refine timeAxis_ordered_of_onward 1000 0 (fun _ _ => 0) (.tick 10 :: iteration) (by decide)
    ⟨trivial, hfirst, ?_, ?_, ?_, ?_, ?_, trivial⟩ <;> exact fun hpc => absurd hpc (by decide)

/-- A second run of the tasks, right after ten milliseconds of a first one. -/
theorem recreated_disordered :
    Interleaving.Along (Uptime.step 1000) Uptime.ReadInTime (Uptime.boot 0 fun _ _ => (0 : ℚ))
        (.tick 10 :: iteration ++ .recreate :: iteration) ∧
      ¬ Interleaving.Throughout (Uptime.step 1000)
        (fun u => u.board.writer = .clock → u.TimeAxisOrdered) (Uptime.boot 0 fun _ _ => 0)
        (.tick 10 :: iteration ++ .recreate :: iteration) := by
  refine ⟨by decide, fun h => ?_⟩
  obtain ⟨u, hu⟩ : ∃ u : Uptime ℚ, u = Interleaving.run (Uptime.step 1000)
    (Uptime.boot 0 fun _ _ => 0) (.tick 10 :: iteration ++ .recreate :: iteration) := ⟨_, rfl⟩
  have hordered := h.last
  rw [← hu] at hordered
  have hclock : u.board.writer = .clock := by rw [hu]; rfl
  have hindex : u.board.history.arrayStartIndex.toNat < historyCyclicArraySize := by
    rw [hu]
    decide
  have hold : (u.board.history.element .timestamp 798).toNat = 10 := by rw [hu]; rfl
  have hnew : (u.board.history.element .timestamp 799).toNat = 0 := by rw [hu]; rfl
  have hle := (timeAxisOrdered_iff hindex).mp (hordered hclock) 798 799 (by decide) (by decide)
  rw [hold, hnew, Nat.cast_zero, Svg.isRounding_float.zero] at hle
  have hten : Svg.float ((10 : ℕ) : ℚ) = 10 := Svg.float_ten
  rw [hten] at hle
  norm_num at hle

end RealTimeLabs.History
