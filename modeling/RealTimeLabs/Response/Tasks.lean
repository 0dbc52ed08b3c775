import Mathlib.Algebra.GroupWithZero.Nat
import Mathlib.Data.Fintype.Basic
import Mathlib.Logic.Function.Basic
import RealTimeLabs.Library.Counter
import RealTimeLabs.Library.Interleaving
import RealTimeLabs.Library.Table

/-! The measurement of the interrupt's response time (`lab6_response_time_async_events`).

A hardware timer counts round its period and raises an interrupt each time it comes to
zero. The handler `timer_isr` reads the counter, which tells how long ago that was, counts
the reading in a histogram and gives a semaphore; `ServiceTask` takes the semaphore, reads
the counter once more and counts that in a second histogram. `MonitorTask` prints both
every second, and `CreateTasks` waits for it and takes everything down. `step` is one
statement of one of the four, or a count of the timer. Handler and tasks are on two cores
and in no order: each takes a step whenever it likes. -/
namespace RealTimeLabs.Response

/-- `TIME_MAP_SIZE`. -/
def timeMapSize : Nat := 20

instance : NeZero timeMapSize := ⟨Nat.succ_ne_zero 19⟩

/-- The timer: how many counts it takes from one interrupt to the next, `TIM_MAX` or one
more, in a counter of sixteen bits. A period is longer than a microsecond. -/
structure Timer where
  period : Nat
  fits : period ≤ 65536
  long : 28 ≤ period

/-- `TIM_MAX`. -/
def timMax : Timer := ⟨10000, by decide, by decide⟩

/-- `TTC0_TIMER2_COUNTER_VAL`, so many counts after it was zero. -/
def Timer.counterVal (T : Timer) (ticks : Nat) : UInt32 := UInt32.ofNat (ticks % T.period)

/-- A value of the counter, 36 ns a count, in microseconds. -/
def microseconds (counterVal : UInt32) : UInt32 := counterVal * 36 / 1000

/-- A local variable `time`, with the moment that it was read at. -/
structure Reading (T : Timer) where
  tick : Nat
  time : UInt32
  computed : time = microseconds (T.counterVal tick)

def Reading.at {T : Timer} (tick : Nat) : Reading T :=
  ⟨tick, microseconds (T.counterVal tick), rfl⟩

/-- Where `timer_isr` stands, and when the interrupt that it answers was raised. -/
inductive IsrPc (T : Timer) where
  | idle
  | read (raised : Nat)
  | count (raised : Nat) (r : Reading T)
  | give
  | clear

/-- Where `ServiceTask` stands. -/
inductive ServicePc (T : Timer) where
  | absent
  | test
  | take
  | read
  | count (r : Reading T)
  /-- It has returned, or `taskDelete` has removed it. -/
  | gone

/-- The three rows that `MonitorTask` prints. -/
inductive Row where
  | axis
  | isr
  | srv
deriving DecidableEq

def Row.index : Row → Nat
  | .axis => 0
  | .isr => 1
  | .srv => 2

/-- Where `MonitorTask` stands, with its locals `i` and `j`. -/
inductive MonitorPc where
  | absent
  | started
  | test (i : Int32)
  | delay (i : Int32)
  | number (i : Int32) (row : Row) (j : Fin timeMapSize)
  | separator (i : Int32) (row : Row) (j : Fin timeMapSize)
  | increment (i : Int32)
  /-- `++i` has overflowed. -/
  | undefined
  | finished
  | setEnd
  | done
deriving DecidableEq

/-- Where `CreateTasks` stands, from `intEnable` on. -/
inductive MainPc where
  | spawnService
  | spawnMonitor
  | wait
  | stopTimer
  | disable
  | delete
  | returned
deriving DecidableEq

/-- An interrupt that the handler has counted: when it was raised, and when the counter was
read. -/
structure Answer where
  raised : Nat
  read : Nat
deriving DecidableEq

structure State (T : Timer) where
  /-- Counts since some zero of the counter. -/
  ticks : Nat
  /-- `TTC0_TIMER2_COUNTER_CTRL` enables the timer. -/
  counting : Bool
  /-- `TTC0_TIMER2_INTERRUPT`: set since when, or clear. -/
  interrupt : Option Nat
  intEnabled : Bool
  isrSemaphore : Nat
  mEnd : Bool
  mTimeIsrMap : Fin timeMapSize → UInt32
  mTimeSrvMap : Fin timeMapSize → UInt32
  isr : IsrPc T
  service : ServicePc T
  monitor : MonitorPc
  main : MainPc
  printed : List Char
  /-- What the handler has measured, and the moments at which the service task's were read. -/
  handled : List Answer
  served : List Nat
  /-- Interrupts raised while the last one was still in the register. -/
  missed : Nat

inductive Action where
  | tick
  | enter
  | isr
  | service
  | monitor
  | main
deriving DecidableEq

/-! ### The parts -/

/-- `if (time < TIME_MAP_SIZE) ++map[time];` -/
def increment (map : Fin timeMapSize → UInt32) (time : UInt32) : Fin timeMapSize → UInt32 :=
  if h : time.toNat < timeMapSize then Function.update map ⟨time.toNat, h⟩ (map ⟨time.toNat, h⟩ + 1)
  else map

variable {T : Timer}

/-- One count of the timer. At zero it sets its interrupt register, which may be set already. -/
def tickStep (s : State T) : State T :=
  if s.counting then
    if T.period ∣ s.ticks + 1 then
      match s.interrupt with
      | none => { s with ticks := s.ticks + 1, interrupt := some (s.ticks + 1) }
      | some _ => { s with ticks := s.ticks + 1, missed := s.missed + 1 }
    else { s with ticks := s.ticks + 1 }
  else s

/-- The interrupt is taken. -/
def enterStep (s : State T) : State T :=
  match s.isr, s.interrupt with
  | .idle, some raised => if s.intEnabled then { s with isr := .read raised } else s
  | _, _ => s

/-- One statement of `timer_isr`. -/
def isrStep (s : State T) : State T :=
  match s.isr with
  | .idle => s
  | .read raised => { s with isr := .count raised (.at s.ticks) }
  | .count raised r =>
    { s with
      mTimeIsrMap := increment s.mTimeIsrMap r.time
      handled := s.handled ++ [⟨raised, r.tick⟩]
      isr := .give }
  | .give => { s with isrSemaphore := s.isrSemaphore + 1, isr := .clear }
  -- reading the register clears it
  | .clear => { s with interrupt := none, isr := .idle }

/-- One statement of `ServiceTask`. -/
def serviceStep (s : State T) : State T :=
  match s.service with
  | .absent => s
  | .test => if s.mEnd then { s with service := .gone } else { s with service := .take }
  | .take =>
    if 0 < s.isrSemaphore then
      { s with isrSemaphore := s.isrSemaphore - 1, service := .read }
    else s
  | .read => { s with service := .count (.at s.ticks) }
  | .count r =>
    { s with
      mTimeSrvMap := increment s.mTimeSrvMap r.time
      served := s.served ++ [r.tick]
      service := .test }
  | .gone => s

/-- A number of a row: `%i` of an index, or of a `uint32_t`. -/
def cell (s : State T) (j : Fin timeMapSize) : Row → Int
  | .axis => j.val
  | .isr => (s.mTimeIsrMap j).toInt32.toInt
  | .srv => (s.mTimeSrvMap j).toInt32.toInt

/-- `c = (j + 1 == TIME_MAP_SIZE) ? '\n' : ','`. -/
def separator (j : Fin timeMapSize) : Char := if j.val + 1 = timeMapSize then '\n' else ','

/-- After a row: the next, or the end of the block. -/
def afterRow (i : Int32) : Row → MonitorPc
  | .axis => .number i .isr 0
  | .isr => .number i .srv 0
  | .srv => .increment i

def afterSeparator (i : Int32) (row : Row) (j : Fin timeMapSize) : MonitorPc :=
  if h : j.val + 1 < timeMapSize then .number i row ⟨j.val + 1, h⟩ else afterRow i row

def startedText : List Char := "Measurement started\n".toList
def finishedText : List Char := "Measurement finished\n".toList

/-- One statement of `MonitorTask`. -/
def monitorStep (measurements : Int32) (s : State T) : State T :=
  match s.monitor with
  | .absent => s
  | .started => { s with printed := s.printed ++ startedText, monitor := .test 0 }
  | .test i =>
    if measurements = 0 ∨ measurements ≠ i then { s with monitor := .delay i }
    else { s with monitor := .finished }
  | .delay i => { s with monitor := .number i .axis 0 }
  | .number i row j =>
    { s with
      printed := s.printed ++ Table.decimal.write (cell s j row)
      monitor := .separator i row j }
  | .separator i row j =>
    { s with printed := s.printed ++ [separator j], monitor := afterSeparator i row j }
  | .increment i =>
    if i = Int32.maxValue then { s with monitor := .undefined }
    else { s with monitor := .test (i + 1) }
  | .undefined => s
  | .finished => { s with printed := s.printed ++ finishedText, monitor := .setEnd }
  | .setEnd => { s with mEnd := true, monitor := .done }
  | .done => s

/-- One statement of `CreateTasks`. -/
def mainStep (s : State T) : State T :=
  match s.main with
  | .spawnService => { s with service := .test, main := .spawnMonitor }
  | .spawnMonitor => { s with monitor := .started, main := .wait }
  | .wait => if s.mEnd then { s with main := .stopTimer } else s
  | .stopTimer => { s with counting := false, main := .disable }
  | .disable => { s with intEnabled := false, main := .delete }
  | .delete => { s with service := .gone, main := .returned }
  | .returned => s

def step (measurements : Int32) : Action → State T → State T
  | .tick, s => tickStep s
  | .enter, s => enterStep s
  | .isr, s => isrStep s
  | .service, s => serviceStep s
  | .monitor, s => monitorStep measurements s
  | .main, s => mainStep s

/-! ### Runs -/

/-- The timer as `CreateTasks` finds it when it enables the interrupt, perhaps with one raised
before, and the maps as an earlier measurement has left them. -/
structure Bench (T : Timer) where
  ticks : Nat
  interrupt : Option Nat
  raised_le : ∀ raised ∈ interrupt, raised ≤ ticks
  raised_dvd : ∀ raised ∈ interrupt, T.period ∣ raised
  maps : (Fin timeMapSize → UInt32) × (Fin timeMapSize → UInt32)

/-- A timer at zero, after a reset of the board. -/
def fresh (T : Timer) : Bench T where
  ticks := 0
  interrupt := none
  raised_le _ h := by cases h
  raised_dvd _ h := by cases h
  maps := (fun _ => 0, fun _ => 0)

/-- The loop that zeroes a map. -/
def zeroed (map : Fin timeMapSize → UInt32) : Fin timeMapSize → UInt32 :=
  (List.finRange timeMapSize).foldl (fun map j => Function.update map j 0) map

/-- After `intEnable`. Until then nobody else has run. -/
def initial (b : Bench T) : State T where
  ticks := b.ticks
  counting := true
  interrupt := b.interrupt
  intEnabled := true
  isrSemaphore := 0
  mEnd := false
  mTimeIsrMap := zeroed b.maps.1
  mTimeSrvMap := zeroed b.maps.2
  isr := .idle
  service := .absent
  monitor := .absent
  main := .spawnService
  printed := []
  handled := []
  served := []
  missed := 0

def run (measurements : Int32) (s : State T) (acts : List Action) : State T :=
  Interleaving.run (step measurements) s acts

theorem zeroed_eq (map : Fin timeMapSize → UInt32) (j : Fin timeMapSize) : zeroed map j = 0 := by
  have hfold : ∀ (js : List (Fin timeMapSize)) (map : Fin timeMapSize → UInt32),
      (j ∈ js ∨ map j = 0) → js.foldl (fun map j => Function.update map j 0) map j = 0 := by
    intro js
    induction js with
    | nil => exact fun map h => h.resolve_left List.not_mem_nil
    | cons k rest ih =>
      intro map h
      refine ih (Function.update map k 0) ?_
      by_cases hk : j = k
      · rw [hk]
        exact .inr (Function.update_self ..)
      · rw [Function.update_of_ne hk]
        exact h.imp_left fun hmem => (List.mem_cons.mp hmem).resolve_left hk
  exact hfold _ map (.inl (List.mem_finRange j))

end RealTimeLabs.Response
