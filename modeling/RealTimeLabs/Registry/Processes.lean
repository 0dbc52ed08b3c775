import Mathlib.Logic.Function.Basic
import RealTimeLabs.Library.Interleaving
import RealTimeLabs.Registry.Layout

/-! The companies and the monitor around the shared registry (`shm.c`, `company.c`,
`monitor.c`).

Any number of processes run `init_shm`; a company then claims a slot, lets its upper
diggers count into it, and leaves with `E`. Every access to the registry is made between
`semTake(lock)` and `semGive(lock)`, so at most one process stands inside such a section:
the lock holds who it is and the statement it is about to execute. `step` takes the lock
for somebody, or executes one statement of the holder, with the outcome of its system
call. The registry lives in the shared memory object, which does not exist before the
first `shm_open`. -/
namespace RealTimeLabs.Registry
open Bytes

/-- A statement of a section under `lock`. -/
inductive Inner where
  -- init_shm, first section
  | shmOpen
  | reopen
  | ftruncate (is_init : Bool)
  | mmap (is_init : Bool)
  | initialise
  | giveOpened
  | giveFailed
  -- init_shm, second section
  | search (i : Nat)
  | strcpy (i : Nat)
  | occupy (i : Nat)
  | giveClaimed (i : Nat)
  -- the company's `E`
  | markEmpty (m_id : Nat)
  | zeroCount (m_id : Nat)
  | giveLeft
  -- an upper digger
  | count (m_id : Nat)
  | giveCounted
  -- the monitor's look at one entry
  | giveLooked
deriving DecidableEq

/-- Where a process stands, outside the sections or in which of them. -/
inductive Pc where
  | start
  | opening
  | opened
  | claiming
  | running (m_id : Nat)
  | leaving (m_id : Nat)
  /-- `main` has returned; the diggers run until the process is gone. -/
  | returned (m_id : Nat)
  | watching
  | gone
deriving DecidableEq

structure State where
  /-- The object `/company`, once it exists. -/
  object : Option Memory
  lock : Option (Nat × Inner)
  pc : Nat → Pc
  /-- Loads that the upper diggers of a company have counted. -/
  loads : Nat → Nat

/-- The slot whose number a process has, for its diggers to use. -/
def Pc.m_id : Pc → Option Nat
  | .running i | .leaving i | .returned i => some i
  | _ => none

/-- The statement at which a process enters a section from outside: `main` the next one of
its own, or else one of its upper diggers. -/
def entry (argv : Nat → Option CString) (p : Nat) (digger : Bool) : Pc → Option (Pc × Inner)
  | .start => if digger then none else some (.opening, .shmOpen)
  | .opened =>
    if digger then none
    else
      match argv p with
      | some _ => some (.claiming, .search 0)
      | none => none
  | .running i =>
    if digger then some (.running i, .count i) else some (.leaving i, .markEmpty i)
  | .returned i => if digger then some (.returned i, .count i) else none
  | .watching => if digger then none else some (.watching, .giveLooked)
  | _ => none

inductive Action where
  | take (p : Nat) (digger : Bool)
  /-- The holder's statement; `ok` is the outcome of its system call. -/
  | inner (ok : Bool)
  /-- The process is torn down, with its diggers. -/
  | exit (p : Nat)
deriving DecidableEq

def State.setPc (p : Nat) (pc : Pc) (s : State) : State :=
  { s with pc := Function.update s.pc p pc }

def State.goto (p : Nat) (inner : Inner) (s : State) : State :=
  { s with lock := some (p, inner) }

/-- `semGive(lock)`. -/
def State.give (s : State) : State := { s with lock := none }

def State.write (f : Memory → Memory) (s : State) : State :=
  { s with object := s.object.map f }

section
variable (s : State) (p : Nat) (pc : Pc) (inner : Inner) (f : Memory → Memory)

@[simp] theorem setPc_pc : (s.setPc p pc).pc = Function.update s.pc p pc := rfl
@[simp] theorem setPc_object : (s.setPc p pc).object = s.object := rfl
@[simp] theorem goto_pc : (s.goto p inner).pc = s.pc := rfl
@[simp] theorem goto_lock : (s.goto p inner).lock = some (p, inner) := rfl
@[simp] theorem goto_object : (s.goto p inner).object = s.object := rfl
@[simp] theorem give_pc : s.give.pc = s.pc := rfl
@[simp] theorem give_object : s.give.object = s.object := rfl
@[simp] theorem write_object : (s.write f).object = s.object.map f := rfl

end

/-- One statement of process `p` under the lock. -/
def innerStep (argv : Nat → Option CString) (ok : Bool) (p : Nat) (inner : Inner) (s : State) :
    State :=
  match inner with
  | .shmOpen =>
    -- O_CREAT | O_EXCL: the object is created, or EEXIST, or another error
    match s.object, ok with
    | none, true => { s.goto p (.ftruncate false) with object := some fun _ => 0 }
    | some _, true => s.goto p .reopen
    | _, false => s.goto p .giveFailed
  | .reopen => if ok then s.goto p (.ftruncate true) else s.goto p .giveFailed
  | .ftruncate is_init => if ok then s.goto p (.mmap is_init) else s.goto p .giveFailed
  | .mmap is_init =>
    if ok then s.goto p (if is_init then .giveOpened else .initialise)
    else s.goto p .giveFailed
  | .initialise => (s.write initialised).goto p .giveOpened
  | .giveOpened => (s.setPc p (if (argv p).isSome then .opened else .watching)).give
  | .giveFailed => (s.setPc p .gone).give
  | .search i =>
    if i < slots then
      match s.object with
      | some m => s.goto p (if isEmpty m i then .strcpy i else .search (i + 1))
      | none => s
    else s.goto p (.giveClaimed i)
  | .strcpy i =>
    match argv p with
    | some c_name => (s.write (copyName i c_name)).goto p (.occupy i)
    | none => s
  | .occupy i => (s.write (setIsEmpty i 0)).goto p (.giveClaimed i)
  | .giveClaimed i => (s.setPc p (.running i)).give
  | .markEmpty m_id => (s.write (setIsEmpty m_id 1)).goto p (.zeroCount m_id)
  | .zeroCount m_id =>
    ((s.write (setNOfSoilDone m_id 0)).setPc p (.returned m_id)).goto p .giveLeft
  | .giveLeft => s.give
  | .count m_id =>
    { (s.write fun m => setNOfSoilDone m_id (nOfSoilDone m m_id + 1) m).goto p .giveCounted with
      loads := Function.update s.loads p (s.loads p + 1) }
  | .giveCounted => s.give
  | .giveLooked => s.give

def step (argv : Nat → Option CString) : Action → State → State
  | .take p digger, s =>
    match s.lock with
    | some _ => s
    | none =>
      match entry argv p digger (s.pc p) with
      | some (pc, inner) => (s.setPc p pc).goto p inner
      | none => s
  | .inner ok, s =>
    match s.lock with
    | some (p, inner) => innerStep argv ok p inner s
    | none => s
  | .exit p, s =>
    match s.pc p with
    | .returned _ =>
      -- a digger under the lock is safe from deletion
      if s.lock.any (·.1 = p) then s else s.setPc p .gone
    | _ => s

/-- No process has run, and the object does not exist. -/
def initial : State := ⟨none, none, fun _ => .start, fun _ => 0⟩

def run (argv : Nat → Option CString) (s : State) (acts : List Action) : State :=
  Interleaving.run (step argv) s acts

end RealTimeLabs.Registry
