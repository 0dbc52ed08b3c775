import Mathlib.Logic.Function.Basic
import RealTimeLabs.Library.Interleaving
import RealTimeLabs.Library.Table

/-! Three tasks of one priority (`lab1_introduction/test_project/test.c`), on one processor.

The tasks have the same priority, and `kernelTimeSlice(0)` takes the time slices away: a task that
is ready waits in a queue for the processor, and the first one in it executes until its own
`taskDelay`. `step` is one statement of that task, a tick of the clock, or the kernel's part at the
end of a delay; which tasks have become ready, in this order, is remembered. A board with a second
processor is left out: there two tasks execute at a time, and their lines mix. -/
namespace RealTimeLabs.Introduction

abbrev Task := Fin 3

def taskRun : Task → Int
  | 0 => 100
  | 1 => 450
  | 2 => 200

def taskStop : Task → Nat
  | 0 => 18
  | 1 => 25
  | 2 => 30

/-- The next statement of `task`. -/
inductive Pc where
  | absent
  | arriving
  | running
  | assign
  | busy (x : Int)
  | stopped
  | delay
  /-- In `taskDelay`, with so many ticks to go. -/
  | waiting (ticks : Nat)
deriving DecidableEq

/-- What a `printf` writes. -/
inductive Line where
  | arrived (n : Task)
  | running (n : Task)
  | stopped (n : Task)
deriving DecidableEq

def Line.text : Line → List Char
  | .arrived n => "Task ".toList ++ Table.writeDecimal n ++ " has been or not been =) \n".toList
  | .running n => "task ".toList ++ Table.writeDecimal n ++ ": running\n".toList
  | .stopped n => "task ".toList ++ Table.writeDecimal n ++ ": stopped\n".toList

structure State where
  /-- The tasks that could execute; the first one does. -/
  ready : List Task
  pc : Task → Pc
  /-- How many tasks `CreateTasks` has spawned. -/
  spawned : Nat
  printed : List Line
  /-- All that have become ready, in this order. -/
  readied : List Task

inductive Action where
  /-- `CreateTasks` goes on. -/
  | create
  | run
  | tick
  /-- A delay is over. -/
  | wake (n : Task)
deriving DecidableEq

def State.setPc (n : Task) (pc : Pc) (s : State) : State :=
  { s with pc := Function.update s.pc n pc }

/-- To the end of the queue. -/
def State.enter (n : Task) (pc : Pc) (s : State) : State :=
  { s with
    ready := s.ready ++ [n]
    readied := s.readied ++ [n]
    pc := Function.update s.pc n pc }

/-- One statement of the task in front, with those behind it. -/
def statement (n : Task) (rest : List Task) (s : State) : State :=
  match s.pc n with
  | .arriving => { s.setPc n .running with printed := s.printed ++ [.arrived n] }
  | .running => { s.setPc n .assign with printed := s.printed ++ [.running n] }
  | .assign => s.setPc n (.busy (1000000 * taskRun n))
  | .busy x => s.setPc n (if 0 < x then .busy (x - 1) else .stopped)
  | .stopped => { s.setPc n .delay with printed := s.printed ++ [.stopped n] }
  | .delay => { s.setPc n (.waiting (taskStop n)) with ready := rest }
  | .absent | .waiting _ => s

def ticked : Pc → Pc
  | .waiting ticks => .waiting (ticks - 1)
  | pc => pc

def step : Action → State → State
  | .create, s =>
    if h : s.spawned < 3 then
      { s.enter ⟨s.spawned, h⟩ .arriving with spawned := s.spawned + 1 }
    else s
  | .run, s =>
    match s.ready with
    | [] => s
    | n :: rest => statement n rest s
  | .tick, s => { s with pc := fun n => ticked (s.pc n) }
  | .wake n, s => if s.pc n = .waiting 0 then s.enter n .running else s

def initial : State := ⟨[], fun _ => .absent, 0, [], []⟩

def run (s : State) (acts : List Action) : State := Interleaving.run step s acts

/-! ### Jobs -/

/-- What a task prints from one `taskDelay` to the next, after those that have been at work. -/
def job (before : List Task) (n : Task) : List Line :=
  (if n ∈ before then [] else [.arrived n]) ++ [.running n, .stopped n]

/-- One job after the other. -/
def jobsFrom (before : List Task) : List Task → List Line
  | [] => []
  | n :: rest => job before n ++ jobsFrom (before ++ [n]) rest

def jobs (done : List Task) : List Line := jobsFrom [] done

theorem jobsFrom_append (before a b : List Task) :
    jobsFrom before (a ++ b) = jobsFrom before a ++ jobsFrom (before ++ a) b := by
  induction a generalizing before with
  | nil => rw [List.nil_append, jobsFrom, List.nil_append, List.append_nil]
  | cons n rest ih =>
    rw [List.cons_append, jobsFrom, jobsFrom, ih, List.append_assoc, List.append_assoc,
      List.singleton_append]

theorem jobs_concat (done : List Task) (n : Task) :
    jobs (done ++ [n]) = jobs done ++ job done n := by
  rw [jobs, jobsFrom_append, List.nil_append, jobsFrom, jobsFrom, List.append_nil]
  rfl

/-- What the task in front has printed of its job. -/
def begun (before : List Task) (n : Task) : Pc → List Line
  | .running => if n ∈ before then [] else [.arrived n]
  | .assign | .busy _ | .stopped => (if n ∈ before then [] else [.arrived n]) ++ [.running n]
  | .delay => job before n
  | _ => []

end RealTimeLabs.Introduction
