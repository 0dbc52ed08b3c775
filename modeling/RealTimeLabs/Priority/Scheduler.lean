import RealTimeLabs.Library.Interleaving
import RealTimeLabs.Priority.WorstLatency

/-! The three tasks and their mutex (`utils.c`, `main.c` of the priority inheritance lab).

`tLPrio` works with the mutex locked, `tMPrio` works without it, and `tHPrio` measures how
long it waits for it. `CreateTasks` ties the first two to one core, so that of these only
one can run: the one with the better priority, if both are ready. The third is tied to no
core. It runs beside them whenever it is ready, or before them on theirs. With
`SEM_INVERSION_SAFE` the task that has locked the mutex inherits the priority of the task
that waits for it. `step` is one statement of one task, if the scheduler lets it run, or a
tick of the clock that `taskDelay` waits for. -/
namespace RealTimeLabs.Priority

/-! ### `config.h` -/

def highPriority : Nat := 210
def midPriority : Nat := 211
def lowPriority : Nat := 222

def midPriorityWork : Nat := 10
def lowPriorityWork : Nat := 3

def highPriorityDelay : Nat := 100
def midPriorityDelay : Nat := 20
def lowPriorityDelay : Nat := 5

/-! ### The tasks -/

/-- The `len` that `do_work_for_some_time` counts down. -/
def workLength (x : Nat) : Nat := x * 10000000

/-- Where `tLPrio` stands. -/
inductive LowPc where
  /-- Created, and not activated yet. -/
  | suspended
  | test
  | take
  /-- In `semTake`, while the mutex is locked. -/
  | waiting
  | work (len : Nat)
  | give
  | sleep
  | delay (ticks : Nat)
  | done
deriving DecidableEq

/-- Where `tMPrio` stands. -/
inductive MidPc where
  | suspended
  | test
  | work (len : Nat)
  | sleep
  | delay (ticks : Nat)
  | done
deriving DecidableEq

/-- Where `tHPrio` stands. -/
inductive HighPc where
  | suspended
  | start
  | test
  | before
  | take
  | waiting
  | after
  | give
  | handle
  | sleep
  | delay (ticks : Nat)
  | setEnd
  | finish
  | done
deriving DecidableEq

/-- Where `CreateTasks` stands: at one of its calls of `taskActivate`. -/
inductive CreatorPc where
  | low
  | middle
  | high
  | returned
deriving DecidableEq

inductive Owner where
  | low
  | high
deriving DecidableEq

structure State (w : Nat) where
  /-- `SEM_INVERSION_SAFE`. -/
  safe : Bool
  numOfMes : Int32
  ended : Bool
  /-- Who has locked `global_mutex`. -/
  owner : Option Owner
  creator : CreatorPc
  low : LowPc
  mid : MidPc
  high : HighPc
  /-- The locals of `tHPrio`. -/
  i : Int32
  tstart : Timespec w
  tend : Timespec w
  report : Report
  /-- The readings of the measurements so far. -/
  readings : List (Timespec w × Timespec w)
  /-- The statements executed by `tLPrio`, and by `tMPrio`. -/
  lowRan : Nat
  midRan : Nat

/-- The clock is what `clock_gettime` reads, if this is the statement. -/
inductive Action (w : Nat) where
  | tick
  | activate
  | low
  | mid
  | high (clock : Timespec w)
deriving DecidableEq

variable {w : Nat}

/-! ### The scheduler -/

def LowPc.ready : LowPc → Bool
  | .suspended | .waiting | .done => false
  | .delay ticks => ticks = 0
  | _ => true

def MidPc.ready : MidPc → Bool
  | .suspended | .done => false
  | .delay ticks => ticks = 0
  | _ => true

/-- The priority at which `tLPrio` runs. -/
def State.lowPriority (s : State w) : Nat :=
  if s.safe ∧ s.owner = some .low ∧ s.high = .waiting then highPriority else Priority.lowPriority

/-- Of the two tasks on the core, the one that runs is ready, and no other is with a better
priority, which is a smaller number. -/
def State.runsLow (s : State w) : Bool :=
  s.low.ready && !(s.mid.ready && midPriority < s.lowPriority)

def State.runsMid (s : State w) : Bool :=
  s.mid.ready && !(s.low.ready && s.lowPriority < midPriority)

/-! ### Statements -/

/-- `semTake(global_mutex, WAIT_FOREVER)` and what follows in `tLPrio`. -/
def lowTake (s : State w) : State w :=
  match s.owner with
  | none => { s with owner := some .low, low := .work (workLength lowPriorityWork) }
  | some _ => { s with low := .waiting }

/-- A mutex that is given goes to the task that waits for it. -/
def lowGive (s : State w) : State w :=
  match s.high with
  | .waiting => { s with owner := some .high, high := .after, low := .sleep }
  | _ => { s with owner := none, low := .sleep }

/-- One statement of `tLPrio`. -/
def lowStep (s : State w) : State w :=
  match s.low with
  | .test => if s.ended then { s with low := .done } else { s with low := .take }
  | .take => lowTake s
  | .work 0 => { s with low := .give }
  | .work (len + 1) => { s with low := .work len }
  | .give => lowGive s
  | .sleep => { s with low := .delay lowPriorityDelay }
  | .delay _ => { s with low := .test }
  | .suspended | .waiting | .done => s

/-- One statement of `tMPrio`. -/
def midStep (s : State w) : State w :=
  match s.mid with
  | .test =>
    if s.ended then { s with mid := .done }
    else { s with mid := .work (workLength midPriorityWork) }
  | .work 0 => { s with mid := .sleep }
  | .work (len + 1) => { s with mid := .work len }
  | .sleep => { s with mid := .delay midPriorityDelay }
  | .delay _ => { s with mid := .test }
  | .suspended | .done => s

def highTake (s : State w) : State w :=
  match s.owner with
  | none => { s with owner := some .high, high := .after }
  | some _ => { s with high := .waiting }

def highGive (s : State w) : State w :=
  match s.low with
  | .waiting =>
    { s with owner := some .low, low := .work (workLength lowPriorityWork), high := .handle }
  | _ => { s with owner := none, high := .handle }

/-- One statement of `tHPrio`. -/
def highStep (clock : Timespec w) (s : State w) : State w :=
  match s.high with
  | .start => { s with report := ⟨0, [0]⟩, i := 0, high := .test }
  | .test => if s.i < s.numOfMes then { s with high := .before } else { s with high := .setEnd }
  | .before => { s with tstart := clock, high := .take }
  | .take => highTake s
  | .waiting => s
  | .after => { s with tend := clock, high := .give }
  | .give => highGive s
  | .handle =>
    { s with
      report := measure s.tstart s.tend s.report
      readings := s.readings ++ [(s.tstart, s.tend)]
      high := .sleep }
  | .sleep => { s with high := .delay highPriorityDelay }
  | .delay 0 => { s with i := s.i + 1, high := .test }
  | .delay (_ + 1) => s
  | .setEnd => { s with ended := true, high := .finish }
  | .finish => { s with high := .done }
  | .suspended | .done => s

/-- One `taskActivate` of `CreateTasks`. -/
def activateStep (s : State w) : State w :=
  match s.creator with
  | .low => { s with low := .test, creator := .middle }
  | .middle => { s with mid := .test, creator := .high }
  | .high => { s with high := .start, creator := .returned }
  | .returned => s

def LowPc.tick : LowPc → LowPc
  | .delay ticks => .delay (ticks - 1)
  | pc => pc

def MidPc.tick : MidPc → MidPc
  | .delay ticks => .delay (ticks - 1)
  | pc => pc

def HighPc.tick : HighPc → HighPc
  | .delay ticks => .delay (ticks - 1)
  | pc => pc

def step : Action w → State w → State w
  | .tick, s => { s with low := s.low.tick, mid := s.mid.tick, high := s.high.tick }
  | .activate, s => activateStep s
  | .low, s => if s.runsLow then { lowStep s with lowRan := s.lowRan + 1 } else s
  | .mid, s => if s.runsMid then { midStep s with midRan := s.midRan + 1 } else s
  | .high clock, s => highStep clock s

/-- The tasks as they are created. Nothing happens to `end`. -/
def tasks (safe : Bool) (a2 : Int32) (ended : Bool) (stack : Timespec w) : State w where
  safe := safe
  numOfMes := a2
  ended := ended
  owner := none
  creator := .low
  low := .suspended
  mid := .suspended
  high := .suspended
  i := 0
  tstart := stack
  tend := stack
  report := ⟨0, []⟩
  readings := []
  lowRan := 0
  midRan := 0

/-- `CreateTasks(a1, a2)`, when every task is created and its affinity set, before it activates
them. -/
def createTasks (a1 a2 : Int32) (ended : Bool) (stack : Timespec w) : Option (State w) :=
  if a1 = 1 then some (tasks false a2 ended stack)
  else if a1 = 2 then some (tasks true a2 ended stack)
  else none

def run (s : State w) (acts : List (Action w)) : State w := Interleaving.run step s acts

/-! ### The mutex -/

/-- Between `semTake` and `semGive`. -/
def LowPc.holds : LowPc → Bool
  | .work _ | .give => true
  | _ => false

def HighPc.holds : HighPc → Bool
  | .after | .give => true
  | _ => false

/-- Who has locked the mutex is between his `semTake` and his `semGive`, and who waits for it
waits for the other. -/
structure Owned (s : State w) : Prop where
  low : s.owner = some .low ↔ s.low.holds = true
  high : s.owner = some .high ↔ s.high.holds = true
  lowWaits : s.low = .waiting → s.owner = some .high
  highWaits : s.high = .waiting → s.owner = some .low

theorem Owned.lowFree {s : State w} (h : Owned s) (hlow : s.low.holds = false) :
    s.owner ≠ some .low := fun ho => by rw [h.low.mp ho] at hlow; cases hlow

theorem Owned.highFree {s : State w} (h : Owned s) (hhigh : s.high.holds = false) :
    s.owner ≠ some .high := fun ho => by rw [h.high.mp ho] at hhigh; cases hhigh

/-- Both never hold it. -/
theorem Owned.exclusive {s : State w} (h : Owned s) (hlow : s.low.holds = true) :
    s.high.holds = false := by
  have ho := h.low.mpr hlow
  cases hhigh : s.high.holds with
  | false => rfl
  | true =>
    rw [h.high.mpr hhigh] at ho
    cases ho

/-- A statement of `tLPrio` away from the mutex. -/
theorem Owned.lowMoves {s : State w} (h : Owned s) {pc : LowPc} (hholds : pc.holds = s.low.holds)
    (hwaits : pc ≠ .waiting) (ran : Nat) : Owned { s with low := pc, lowRan := ran } where
  low := by rw [hholds]; exact h.low
  high := h.high
  lowWaits hpc := absurd hpc hwaits
  highWaits := h.highWaits

theorem Owned.lowTake {s : State w} (h : Owned s) (hpc : s.low = .take) (ran : Nat) :
    Owned { lowTake s with lowRan := ran } := by
  unfold Priority.lowTake
  split
  · rename_i hfree
    have hhigh : s.high.holds = false := Bool.eq_false_iff.mpr fun hh => by
      have ho := h.high.mpr hh
      rw [hfree] at ho
      cases ho
    refine ⟨iff_of_true rfl rfl, iff_of_false (fun ho => (by cases ho)) ?_,
      fun hw => (by cases hw), fun _ => rfl⟩
    rw [hhigh]
    exact Bool.false_ne_true
  · rename_i other hother
    have hnot : s.owner ≠ some .low := h.lowFree (by rw [hpc]; rfl)
    have hhigh : s.owner = some .high := by
      rw [hother] at hnot ⊢
      cases other with
      | low => exact absurd rfl hnot
      | high => rfl
    exact ⟨iff_of_false hnot Bool.false_ne_true, h.high, fun _ => hhigh, h.highWaits⟩

theorem Owned.lowGive {s : State w} (h : Owned s) (hpc : s.low = .give) (ran : Nat) :
    Owned { lowGive s with lowRan := ran } := by
  unfold Priority.lowGive
  split
  · exact ⟨iff_of_false (fun ho => (by cases ho)) Bool.false_ne_true, iff_of_true rfl rfl,
      fun hw => (by cases hw), fun hw => (by cases hw)⟩
  · rename_i hnot
    have hhigh := h.exclusive (by rw [hpc]; rfl)
    refine ⟨iff_of_false (fun ho => (by cases ho)) Bool.false_ne_true,
      iff_of_false (fun ho => (by cases ho)) ?_, fun hw => (by cases hw), fun hw => absurd hw hnot⟩
    rw [hhigh]
    exact Bool.false_ne_true

theorem owned_low {s : State w} (h : Owned s) (ran : Nat) :
    Owned { lowStep s with lowRan := ran } := by
  unfold lowStep
  split
  case h_1 hpc =>
    split <;> exact h.lowMoves (by rw [hpc]; rfl) (fun hw => (by cases hw)) ran
  case h_2 hpc => exact h.lowTake hpc ran
  case h_5 hpc => exact h.lowGive hpc ran
  case h_8 => exact ⟨h.low, h.high, h.lowWaits, h.highWaits⟩
  case h_9 => exact ⟨h.low, h.high, h.lowWaits, h.highWaits⟩
  case h_10 => exact ⟨h.low, h.high, h.lowWaits, h.highWaits⟩
  all_goals
    rename_i hpc
    exact h.lowMoves (by rw [hpc]; rfl) (fun hw => (by cases hw)) ran

theorem owned_mid {s : State w} (h : Owned s) (ran : Nat) :
    Owned { midStep s with midRan := ran } := by
  unfold midStep
  split <;> (try split) <;> exact ⟨h.low, h.high, h.lowWaits, h.highWaits⟩

/-- A statement of `tHPrio` away from the mutex. -/
theorem Owned.highMoves {s s' : State w} (h : Owned s) (howner : s'.owner = s.owner)
    (hlow : s'.low = s.low) (hholds : s'.high.holds = s.high.holds) (hwaits : s'.high ≠ .waiting) :
    Owned s' where
  low := by rw [howner, hlow]; exact h.low
  high := by rw [howner, hholds]; exact h.high
  lowWaits := by rw [howner, hlow]; exact h.lowWaits
  highWaits hpc := absurd hpc hwaits

theorem Owned.highTake {s : State w} (h : Owned s) (hpc : s.high = .take) :
    Owned (highTake s) := by
  unfold Priority.highTake
  split
  · rename_i hfree
    have hlow : s.low.holds = false := Bool.eq_false_iff.mpr fun hh => by
      have ho := h.low.mpr hh
      rw [hfree] at ho
      cases ho
    refine ⟨iff_of_false (fun ho => (by cases ho)) ?_, iff_of_true rfl rfl, fun _ => rfl,
      fun hw => (by cases hw)⟩
    rw [hlow]
    exact Bool.false_ne_true
  · rename_i other hother
    have hnot : s.owner ≠ some .high := h.highFree (by rw [hpc]; rfl)
    have hlow : s.owner = some .low := by
      rw [hother] at hnot ⊢
      cases other with
      | low => rfl
      | high => exact absurd rfl hnot
    exact ⟨h.low, iff_of_false hnot Bool.false_ne_true, h.lowWaits, fun _ => hlow⟩

theorem Owned.highGive {s : State w} (h : Owned s) (hpc : s.high = .give) :
    Owned (highGive s) := by
  unfold Priority.highGive
  split
  · exact ⟨iff_of_true rfl rfl, iff_of_false (fun ho => (by cases ho)) Bool.false_ne_true,
      fun hw => (by cases hw), fun hw => (by cases hw)⟩
  · rename_i hnot
    have hlow : s.low.holds = false := Bool.eq_false_iff.mpr fun hl => by
      have hhigh := h.exclusive hl
      rw [hpc] at hhigh
      cases hhigh
    refine ⟨iff_of_false (fun ho => (by cases ho)) ?_,
      iff_of_false (fun ho => (by cases ho)) Bool.false_ne_true, fun hw => absurd hw hnot,
      fun hw => (by cases hw)⟩
    rw [hlow]
    exact Bool.false_ne_true

theorem owned_high (clock : Timespec w) {s : State w} (h : Owned s) :
    Owned (highStep clock s) := by
  unfold highStep
  split
  case h_4 hpc => exact h.highTake hpc
  case h_5 => exact h
  case h_7 hpc => exact h.highGive hpc
  case h_11 => exact h
  case h_14 => exact h
  case h_15 => exact h
  all_goals
    rename_i hpc
    (try split) <;>
      exact h.highMoves rfl rfl (by rw [hpc]; rfl) fun hw => (by cases hw)

theorem owned_tick {s : State w} (h : Owned s) : Owned (step .tick s) := by
  have hlow : s.low.tick.holds = s.low.holds := by cases s.low <;> rfl
  have hhigh : s.high.tick.holds = s.high.holds := by cases s.high <;> rfl
  have hlowWaits : s.low.tick = .waiting → s.low = .waiting := by
    cases s.low <;> intro hw <;> first | exact hw | cases hw
  have hhighWaits : s.high.tick = .waiting → s.high = .waiting := by
    cases s.high <;> intro hw <;> first | exact hw | cases hw
  exact ⟨by simp only [step, hlow]; exact h.low, by simp only [step, hhigh]; exact h.high,
    fun hw => h.lowWaits (hlowWaits hw), fun hw => h.highWaits (hhighWaits hw)⟩

/-- What `CreateTasks` has not activated is still suspended. -/
structure Created (s : State w) : Prop where
  low : s.creator = .low → s.low = .suspended
  mid : s.creator = .low ∨ s.creator = .middle → s.mid = .suspended
  high : s.creator ≠ .returned → s.high = .suspended

/-- The statements of `tLPrio` touch neither `CreateTasks` nor `tMPrio`. -/
theorem lowStep_frame (s : State w) :
    (lowStep s).creator = s.creator ∧ (lowStep s).mid = s.mid := by
  unfold lowStep lowTake lowGive
  split <;> (try split) <;> exact ⟨rfl, rfl⟩

theorem midStep_frame (s : State w) : (midStep s).creator = s.creator ∧
    (midStep s).low = s.low ∧ (midStep s).high = s.high := by
  unfold midStep
  split <;> (try split) <;> exact ⟨rfl, rfl, rfl⟩

theorem lowStep_suspended {s : State w} (h : s.high = .suspended) :
    (lowStep s).high = .suspended := by
  unfold lowStep lowTake lowGive
  split <;> (try split) <;> first
    | exact h
    | rename_i hwaiting
      rw [h] at hwaiting
      cases hwaiting

theorem created_low {s : State w} (h : Created s) (hruns : s.runsLow = true) (ran : Nat) :
    Created { lowStep s with lowRan := ran } := by
  obtain ⟨hcreator, hmid⟩ := lowStep_frame s
  refine ⟨fun hc => ?_, fun hc => hmid.trans (h.mid (hcreator ▸ hc)), fun hc => ?_⟩
  · have hsuspended := h.low (hcreator.symm.trans hc)
    rw [State.runsLow, hsuspended] at hruns
    cases hruns
  · exact lowStep_suspended (h.high (hcreator ▸ hc))

theorem created_mid {s : State w} (h : Created s) (hruns : s.runsMid = true) (ran : Nat) :
    Created { midStep s with midRan := ran } := by
  obtain ⟨hcreator, hlow, hhigh⟩ := midStep_frame s
  refine ⟨fun hc => hlow.trans (h.low (hcreator.symm.trans hc)), fun hc => ?_,
    fun hc => hhigh.trans (h.high (hcreator ▸ hc))⟩
  have hsuspended := h.mid (hcreator ▸ hc)
  rw [State.runsMid, hsuspended] at hruns
  cases hruns

theorem created_high (clock : Timespec w) {s : State w} (h : Created s) :
    Created (highStep clock s) := by
  by_cases hc : s.creator = .returned
  · have hcreator : (highStep clock s).creator = .returned := by
      rw [← hc]
      unfold highStep highTake highGive
      split <;> (try split) <;> rfl
    refine ⟨fun hn => ?_, fun hn => ?_, fun hn => absurd hcreator hn⟩
    · have := hn.symm.trans hcreator
      cases this
    · rw [hcreator] at hn
      rcases hn with hn | hn <;> cases hn
  · have hstep : highStep clock s = s := by simp only [highStep, h.high hc]
    rw [hstep]
    exact h

theorem created_tick {s : State w} (h : Created s) : Created (step .tick s) := by
  refine ⟨fun hc => ?_, fun hc => ?_, fun hc => ?_⟩
  · change s.low.tick = _
    rw [h.low hc]
    rfl
  · change s.mid.tick = _
    rw [h.mid hc]
    rfl
  · change s.high.tick = _
    rw [h.high hc]
    rfl

theorem created_activate {s : State w} (h : Created s) : Created (activateStep s) := by
  unfold activateStep
  split
  · rename_i hc
    exact ⟨fun hn => (by cases hn), fun _ => h.mid (.inl hc),
      fun _ => h.high (by rw [hc]; exact fun hn => by cases hn)⟩
  · rename_i hc
    exact ⟨fun hn => (by cases hn), fun hn => (by rcases hn with hn | hn <;> cases hn),
      fun _ => h.high (by rw [hc]; exact fun hn => by cases hn)⟩
  · exact ⟨fun hn => (by cases hn), fun hn => (by rcases hn with hn | hn <;> cases hn),
      fun hn => absurd rfl hn⟩
  · exact h

theorem created_step (a : Action w) (s : State w) (h : Created s) : Created (step a s) := by
  cases a with
  | tick => exact created_tick h
  | activate => exact created_activate h
  | low =>
    simp only [step]
    split
    · rename_i hruns
      exact created_low h hruns _
    · exact h
  | mid =>
    simp only [step]
    split
    · rename_i hruns
      exact created_mid h hruns _
    · exact h
  | high clock => exact created_high clock h

theorem owned_activate {s : State w} (h : Owned s) (hc : Created s) :
    Owned (activateStep s) := by
  unfold activateStep
  split
  · rename_i hpc
    have hsuspended := hc.low hpc
    have hlow : Owned { s with low := .test, lowRan := s.lowRan } :=
      h.lowMoves (by rw [hsuspended]; rfl) (fun hn => by cases hn) s.lowRan
    exact ⟨hlow.low, hlow.high, hlow.lowWaits, hlow.highWaits⟩
  · exact ⟨h.low, h.high, h.lowWaits, h.highWaits⟩
  · rename_i hpc
    have hsuspended := hc.high (by rw [hpc]; exact fun hn => by cases hn)
    exact h.highMoves rfl rfl (by rw [hsuspended]; rfl) fun hn => by cases hn
  · exact h

/-- What holds from the call of `CreateTasks` on. -/
structure Sound (s : State w) : Prop where
  owned : Owned s
  created : Created s

theorem sound_step (a : Action w) (s : State w) (h : Sound s) : Sound (step a s) := by
  refine ⟨?_, created_step a s h.created⟩
  cases a with
  | tick => exact owned_tick h.owned
  | activate => exact owned_activate h.owned h.created
  | low =>
    simp only [step]
    split
    · exact owned_low h.owned _
    · exact h.owned
  | mid =>
    simp only [step]
    split
    · exact owned_mid h.owned _
    · exact h.owned
  | high clock => exact owned_high clock h.owned

theorem sound_tasks (safe : Bool) (a2 : Int32) (ended : Bool) (stack : Timespec w) :
    Sound (tasks safe a2 ended stack) :=
  ⟨⟨iff_of_false (fun hn => (by cases hn)) Bool.false_ne_true,
    iff_of_false (fun hn => (by cases hn)) Bool.false_ne_true, fun hn => (by cases hn),
    fun hn => (by cases hn)⟩, ⟨fun _ => rfl, fun _ => rfl, fun _ => rfl⟩⟩

theorem createTasks_eq {a1 a2 : Int32} {ended : Bool} {stack : Timespec w} {s : State w}
    (h : createTasks a1 a2 ended stack = some s) : s = tasks (a1 = 2) a2 ended stack := by
  unfold createTasks at h
  split at h
  · rename_i h1
    rw [h1]
    cases h
    rfl
  · split at h
    · rename_i h2
      rw [h2]
      cases h
      rfl
    · cases h

theorem sound_run {a1 a2 : Int32} {ended : Bool} {stack : Timespec w} {s : State w}
    (h : createTasks a1 a2 ended stack = some s) (acts : List (Action w)) : Sound (run s acts) :=
  Interleaving.run_invariant sound_step (createTasks_eq h ▸ sound_tasks _ a2 ended stack) acts

/-- The kind of the mutex, and the number of measurements. -/
def State.settings (s : State w) : Bool × Int32 := (s.safe, s.numOfMes)

theorem settings_step (a : Action w) (s : State w) : (step a s).settings = s.settings := by
  cases a with
  | tick => rfl
  | activate =>
    simp only [step, activateStep]
    split <;> rfl
  | low =>
    simp only [step, lowStep, lowTake, lowGive]
    split
    · split <;> (try split) <;> rfl
    · rfl
  | mid =>
    simp only [step, midStep]
    split
    · split <;> (try split) <;> rfl
    · rfl
  | high clock =>
    simp only [step, highStep, highTake, highGive]
    split <;> (try split) <;> rfl

theorem settings_run (s : State w) (acts : List (Action w)) :
    (run s acts).settings = s.settings :=
  Interleaving.run_invariant (I := fun s' : State w => s'.settings = s.settings)
    (fun a s' h => (settings_step a s').trans h) rfl acts

theorem safe_run (s : State w) (acts : List (Action w)) : (run s acts).safe = s.safe :=
  congrArg Prod.fst (settings_run s acts)

theorem numOfMes_run (s : State w) (acts : List (Action w)) :
    (run s acts).numOfMes = s.numOfMes := congrArg Prod.snd (settings_run s acts)

end RealTimeLabs.Priority
