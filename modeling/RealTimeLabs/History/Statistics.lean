import Mathlib.Logic.Function.Basic
import RealTimeLabs.Library.Interleaving

/-! The motor's history: the task that records it and the page that copies it.

`update_statistics` (`statistics_updater.c`) writes one sample to the cyclic arrays of
`motor_history`, field by field, and then advances `array_start_index`.
`generate_html_file` (`svg_generator.c`) captures that index once and then copies the
last `HISTORY_SIZE` samples, again field by field. Neither takes a lock. `step` performs
one statement of one of the two, so that every list of actions is one interleaving of
their accesses to the arrays. Indices that C keeps in an `int` are natural numbers here;
`timestamp_start`, which neither function reads, and the drawing of the copied arrays are
left out. -/
namespace RealTimeLabs.History

def historySize : Nat := 800
def historyCyclicArraySize : Nat := 1200

/-- The four arrays, in the order in which both functions go through them. -/
inductive Field where
  | desiredPosition
  | position
  | pwmDuty
  | timestamp
deriving DecidableEq

/-- The element type of an array. -/
abbrev Field.Ty : Field → Type
  | .timestamp => UInt32
  | _ => Int32

def Field.zero : (f : Field) → f.Ty
  | .desiredPosition => (0 : Int32)
  | .position => (0 : Int32)
  | .pwmDuty => (0 : Int32)
  | .timestamp => (0 : UInt32)

/-- The field after a field, within one sample. -/
def Field.next : Field → Option Field
  | .desiredPosition => some .position
  | .position => some .pwmDuty
  | .pwmDuty => some .timestamp
  | .timestamp => none

def Field.index : Field → Nat
  | .desiredPosition => 0
  | .position => 1
  | .pwmDuty => 2
  | .timestamp => 3

/-- `motor_history_t`. -/
structure MotorHistory where
  arrays : (f : Field) → Nat → f.Ty
  arrayStartIndex : UInt32

/-- `motor_history` as `create_tasks` leaves it. -/
def zeroed : MotorHistory := ⟨fun f _ => f.zero, 0⟩

def MotorHistory.write (h : MotorHistory) (f : Field) (i : Nat) (v : f.Ty) : MotorHistory :=
  { h with arrays := Function.update h.arrays f (Function.update (h.arrays f) i v) }

/-! ### The writer -/

/-- Everything that the `n`-th iteration of `update_statistics` reads from outside: the
timer, before the loop and then once an iteration, its frequency, and the three members of
`motor_driver_shared`. -/
structure Readings where
  sysTimestamp : Nat → UInt32
  sysTimestampFreq : UInt32
  desiredPosition : Nat → Int32
  position : Nat → Int32
  pwmDuty : Nat → Int32

/-- The locals of `update_statistics` that outlive an iteration. -/
structure Clock where
  prevTimestamp : UInt32
  timestamp64 : UInt64

def Clock.advance (cur_timestamp : UInt32) (c : Clock) : Clock where
  prevTimestamp := cur_timestamp
  timestamp64 := c.timestamp64 + (cur_timestamp - c.prevTimestamp).toUInt64

/-- What iteration `n` stores to a field. -/
def recorded (r : Readings) (n : Nat) (c : Clock) : (f : Field) → f.Ty
  | .desiredPosition => r.desiredPosition n
  | .position => r.position n
  | .pwmDuty => r.pwmDuty n
  | .timestamp => (c.timestamp64 * 1000 / r.sysTimestampFreq.toUInt64).toUInt32

/-- Where the loop of `update_statistics` stands; `i` is the slot it has computed. -/
inductive WriterPc where
  | clock
  | write (f : Field) (i : Nat)
  | advance
deriving DecidableEq

/-! ### The reader -/

/-- Where `generate_html_file` stands, with its locals `s`, `i` and `copy_array_idx`. -/
inductive ReaderPc where
  | capture
  | test (s : UInt32) (i idx : Nat)
  | copy (s : UInt32) (i idx : Nat) (f : Field)
  | advance (s : UInt32) (i idx : Nat)
  | done (idx : Nat)
deriving DecidableEq

/-- One of the casts to `float`. -/
structure Cast (F : Type) where
  ofInt32 : Int32 → F
  ofUInt32 : UInt32 → F

def Cast.toFloat {F : Type} (c : Cast F) : (f : Field) → f.Ty → F
  | .desiredPosition => c.ofInt32
  | .position => c.ofInt32
  | .pwmDuty => c.ofInt32
  | .timestamp => c.ofUInt32

/-! ### The two together -/

structure State (F : Type) where
  history : MotorHistory
  clock : Clock
  writer : WriterPc
  /-- Samples completed: their index advance is done. -/
  completed : Nat
  reader : ReaderPc
  /-- Samples completed when the reader captured the index. -/
  captured : Nat
  /-- The reader's arrays `y_desired`, `y_actual`, `y_pwm` and `x_actual`. -/
  copies : Field → Nat → F
  /-- Updates that had begun writing when the reader copied an element. -/
  begunAt : Field → Nat → Nat

/-- Updates that have begun writing: those completed, and the one under way once it has
stored its first field. -/
def State.begun {F : Type} (s : State F) : Nat :=
  match s.writer with
  | .clock => s.completed
  | .write f _ => if f.index = 0 then s.completed else s.completed + 1
  | .advance => s.completed + 1

inductive Action where
  | writer
  | reader
deriving DecidableEq

variable {F : Type}

/-- One statement of the loop of `update_statistics`. -/
def writerStep (r : Readings) (s : State F) : State F :=
  match s.writer with
  | .clock =>
    { s with
      clock := s.clock.advance (r.sysTimestamp (s.completed + 1))
      writer := .write .desiredPosition
        ((s.history.arrayStartIndex + UInt32.ofNat historySize) %
          UInt32.ofNat historyCyclicArraySize).toNat }
  | .write f i =>
    { s with
      history := s.history.write f i (recorded r s.completed s.clock f)
      writer := match f.next with
        | some g => .write g i
        | none => .advance }
  | .advance =>
    { s with
      history := { s.history with
        arrayStartIndex :=
          (s.history.arrayStartIndex + 1) % UInt32.ofNat historyCyclicArraySize }
      completed := s.completed + 1
      writer := .clock }

/-- One statement of `generate_html_file`, up to the end of its copy loop. -/
def readerStep (c : Cast F) (s : State F) : State F :=
  match s.reader with
  | .capture =>
    { s with
      reader := .test s.history.arrayStartIndex s.history.arrayStartIndex.toNat 0
      captured := s.completed }
  | .test start i idx =>
    if i ≠ ((start + UInt32.ofNat historySize) % UInt32.ofNat historyCyclicArraySize).toNat then
      { s with reader := .copy start i idx .desiredPosition }
    else { s with reader := .done idx }
  | .copy start i idx f =>
    { s with
      copies := Function.update s.copies f
        (Function.update (s.copies f) idx (c.toFloat f (s.history.arrays f i)))
      begunAt := Function.update s.begunAt f (Function.update (s.begunAt f) idx s.begun)
      reader := match f.next with
        | some g => .copy start i idx g
        | none => .advance start i idx }
  | .advance start i idx =>
    { s with reader := .test start ((i + 1) % historyCyclicArraySize) (idx + 1) }
  | .done _ => s

def step (r : Readings) (c : Cast F) : Action → State F → State F
  | .writer => writerStep r
  | .reader => readerStep c

/-- Both tasks at their entry, with the reader's arrays as they happen to be. -/
def initial (r : Readings) (garbage : Field → Nat → F) : State F where
  history := zeroed
  clock := ⟨r.sysTimestamp 0, 0⟩
  writer := .clock
  completed := 0
  reader := .capture
  captured := 0
  copies := garbage
  begunAt := fun _ _ => 0

def run (r : Readings) (c : Cast F) (s : State F) (acts : List Action) : State F :=
  Interleaving.run (step r c) s acts

/-! ### Samples -/

/-- The writer's clock before iteration `n`. -/
def clockAt (r : Readings) : Nat → Clock
  | 0 => ⟨r.sysTimestamp 0, 0⟩
  | n + 1 => (clockAt r n).advance (r.sysTimestamp (n + 1))

/-- Sample `j`: what iteration `j` of `update_statistics` records. -/
def sample (r : Readings) (f : Field) (j : Nat) : f.Ty := recorded r j (clockAt r (j + 1)) f

/-- What a page with `n` samples before it should show at element `k`. -/
def wanted (r : Readings) (f : Field) (n k : Nat) : f.Ty :=
  if n + k < historySize then f.zero else sample r f (n + k - historySize)

end RealTimeLabs.History
