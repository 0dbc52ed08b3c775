import RealTimeLabs.Library.Counter
import RealTimeLabs.Priority.Inversion

/-! The measurements of a run.

However the scheduler mixes the three tasks, `tHPrio` reports on its own readings what it
would report alone, one for each measurement asked for (`run_reported`). When it is done it
has set `end`, and nobody sets it back: in a later run of `CreateTasks` the other two return
at once, and there is nothing to wait for (`second_uncontended`). -/
namespace RealTimeLabs.Priority

variable {w : Nat}

/-! ### The report -/

/-- The `k`-th pair of readings. -/
def readingAt (readings : List (Timespec w × Timespec w)) (k : Nat) : Timespec w × Timespec w :=
  readings[k]?.getD (⟨0, 0⟩, ⟨0, 0⟩)

/-- The report on a list of readings. -/
def reportOn (readings : List (Timespec w × Timespec w)) : Report :=
  report (readingAt readings) readings.length

/-- A report reads no more than its measurements. -/
theorem report_congr {f g : Nat → Timespec w × Timespec w} {n : Nat} (h : ∀ k < n, f k = g k) :
    report f n = report g n := by
  induction n with
  | zero => rfl
  | succ n ih =>
    rw [report, report, h n (Nat.lt_succ_self n), ih fun k hk => h k (Nat.lt_succ_of_lt hk)]

/-- One measurement more. -/
theorem reportOn_concat (readings : List (Timespec w × Timespec w)) (tstart tend : Timespec w) :
    reportOn (readings ++ [(tstart, tend)]) = measure tstart tend (reportOn readings) := by
  have hlast : readingAt (readings ++ [(tstart, tend)]) readings.length = (tstart, tend) := by
    rw [readingAt, List.getElem?_concat_length, Option.getD_some]
  have hearlier : ∀ k < readings.length,
      readingAt (readings ++ [(tstart, tend)]) k = readingAt readings k := by
    intro k hk
    rw [readingAt, readingAt, List.getElem?_append_left hk]
  rw [reportOn, List.length_append, List.length_singleton, report, hlast, report_congr hearlier,
    reportOn]

/-- How many measurements are complete, by where `tHPrio` stands. -/
def Rounds (numOfMes i : Int32) (ended : Bool) (rounds : Nat) : HighPc → Prop
  | .suspended | .start => rounds = 0
  | .test => (rounds : Int) = i.toInt ∧ rounds ≤ numOfMes.toInt.toNat
  | .before | .take | .waiting | .after | .give | .handle =>
    (rounds : Int) = i.toInt ∧ i.toInt < numOfMes.toInt
  | .sleep | .delay _ => (rounds : Int) = i.toInt + 1 ∧ i.toInt < numOfMes.toInt
  | .setEnd => rounds = numOfMes.toInt.toNat
  | .finish | .done => rounds = numOfMes.toInt.toNat ∧ ended = true

/-- The report so far. -/
structure Measured (s : State w) : Prop where
  rounds : Rounds s.numOfMes s.i s.ended s.readings.length s.high
  report : s.high ≠ .suspended → s.high ≠ .start → s.report = reportOn s.readings

/-- The others leave the locals of `tHPrio` alone, and move it on at most from its wait. -/
theorem Measured.congr {s s' : State w} (h : Measured s)
    (hhigh : s'.high = s.high ∨ s.high = .waiting ∧ s'.high = .after) (hi : s'.i = s.i)
    (hnum : s'.numOfMes = s.numOfMes) (hended : s'.ended = s.ended)
    (hreport : s'.report = s.report) (hreadings : s'.readings = s.readings) : Measured s' := by
  have hrounds := h.rounds
  have hsame := h.report
  rcases hhigh with hhigh | ⟨hwaiting, hafter⟩
  · rw [← hhigh] at hrounds hsame
    refine ⟨by rw [hnum, hi, hended, hreadings]; exact hrounds, ?_⟩
    rw [hreport, hreadings]
    exact hsame
  · rw [hwaiting] at hrounds hsame
    refine ⟨by rw [hnum, hi, hended, hreadings, hafter]; exact hrounds, fun _ _ => ?_⟩
    rw [hreport, hreadings]
    exact hsame (fun hn => by cases hn) fun hn => by cases hn

theorem rounds_test {numOfMes i : Int32} {ended : Bool} {rounds : Nat}
    (h : Rounds numOfMes i ended rounds .test) :
    (i < numOfMes → Rounds numOfMes i ended rounds .before) ∧
      (¬ i < numOfMes → Rounds numOfMes i ended rounds .setEnd) := by
  obtain ⟨hi, hle⟩ := h
  refine ⟨fun hlt => ⟨hi, Int32.lt_iff_toInt_lt.mp hlt⟩, fun hge => ?_⟩
  have hend : ¬ i.toInt < numOfMes.toInt := fun hlt => hge (Int32.lt_iff_toInt_lt.mpr hlt)
  change rounds = numOfMes.toInt.toNat
  omega

theorem rounds_increment {numOfMes i : Int32} {ended : Bool} {rounds ticks : Nat}
    (h : Rounds numOfMes i ended rounds (.delay ticks)) :
    Rounds numOfMes (i + 1) ended rounds .test := by
  obtain ⟨hi, hlt⟩ := h
  have hsucc := Counter.toInt_succ_of_lt hlt
  refine ⟨?_, ?_⟩ <;> omega

/-- Never more than asked for. -/
theorem rounds_le {numOfMes i : Int32} {ended : Bool} {rounds : Nat} {pc : HighPc}
    (h : Rounds numOfMes i ended rounds pc) : rounds ≤ numOfMes.toInt.toNat := by
  unfold Rounds at h
  split at h <;> omega

theorem measured_high (clock : Timespec w) {s : State w} (h : Measured s) :
    Measured (highStep clock s) := by
  have hrounds := h.rounds
  have hreport := h.report
  unfold highStep
  split <;> rename_i hpc <;> rw [hpc] at hrounds hreport
  case h_1 =>
    have hempty : s.readings = [] := List.eq_nil_of_length_eq_zero hrounds
    refine ⟨?_, fun _ _ => ?_⟩
    · change Rounds s.numOfMes 0 s.ended s.readings.length .test
      rw [hempty]
      exact ⟨rfl, Nat.zero_le _⟩
    · change _ = reportOn s.readings
      rw [hempty]
      rfl
  case h_5 => exact h
  case h_11 => exact h
  case h_14 => exact h
  case h_15 => exact h
  all_goals
    have hsame := hreport (fun hn => by cases hn) fun hn => by cases hn
  case h_2 =>
    split
    · rename_i hlt
      exact ⟨(rounds_test hrounds).1 hlt, fun _ _ => hsame⟩
    · rename_i hge
      exact ⟨(rounds_test hrounds).2 hge, fun _ _ => hsame⟩
  case h_4 =>
    unfold highTake
    split <;> exact ⟨hrounds, fun _ _ => hsame⟩
  case h_7 =>
    unfold highGive
    split <;> exact ⟨hrounds, fun _ _ => hsame⟩
  case h_8 =>
    obtain ⟨hlen, hlt⟩ := hrounds
    refine ⟨⟨?_, hlt⟩, fun _ _ => ?_⟩
    · rw [List.length_append, List.length_singleton]
      exact congrArg (· + 1) hlen
    · change measure s.tstart s.tend s.report = reportOn (s.readings ++ [(s.tstart, s.tend)])
      rw [reportOn_concat, hsame]
  case h_10 => exact ⟨rounds_increment hrounds, fun _ _ => hsame⟩
  case h_12 => exact ⟨⟨hrounds, rfl⟩, fun _ _ => hsame⟩
  all_goals exact ⟨hrounds, fun _ _ => hsame⟩

/-- `semGive` of the task with the low priority lets `tHPrio` go on. -/
theorem lowStep_high (s : State w) :
    (lowStep s).high = s.high ∨ s.high = .waiting ∧ (lowStep s).high = .after := by
  unfold lowStep lowTake lowGive
  split <;> (try split) <;> first
    | exact .inl rfl
    | rename_i hwaiting
      exact .inr ⟨hwaiting, rfl⟩

theorem measured_low {s : State w} (h : Measured s) (ran : Nat) :
    Measured { lowStep s with lowRan := ran } := by
  refine h.congr (lowStep_high s) ?_ ?_ ?_ ?_ ?_ <;>
    (unfold lowStep lowTake lowGive; split <;> (try split) <;> rfl)

theorem measured_mid {s : State w} (h : Measured s) (ran : Nat) :
    Measured { midStep s with midRan := ran } := by
  refine h.congr (.inl ?_) ?_ ?_ ?_ ?_ ?_ <;> (unfold midStep; split <;> (try split) <;> rfl)

theorem measured_tick {s : State w} (h : Measured s) : Measured (step .tick s) := by
  have hrounds := h.rounds
  have hreport := h.report
  cases hpc : s.high with
  | delay ticks =>
    rw [hpc] at hrounds hreport
    have hsame := hreport (fun hn => by cases hn) fun hn => by cases hn
    refine ⟨?_, fun _ _ => hsame⟩
    change Rounds s.numOfMes s.i s.ended s.readings.length s.high.tick
    rw [hpc]
    exact hrounds
  | _ =>
    refine h.congr (.inl ?_) rfl rfl rfl rfl rfl
    change s.high.tick = s.high
    rw [hpc]
    rfl

theorem measured_activate {s : State w} (h : Measured s) (hc : Created s) :
    Measured (activateStep s) := by
  unfold activateStep
  split
  · exact h.congr (.inl rfl) rfl rfl rfl rfl rfl
  · exact h.congr (.inl rfl) rfl rfl rfl rfl rfl
  · rename_i hpc
    have hrounds := h.rounds
    rw [hc.high (by rw [hpc]; exact fun hn => by cases hn)] at hrounds
    exact ⟨hrounds, fun _ hn => absurd rfl hn⟩
  · exact h

theorem measured_step (a : Action w) (s : State w) (h : Sound s ∧ Measured s) :
    Sound (step a s) ∧ Measured (step a s) := by
  refine ⟨sound_step a s h.1, ?_⟩
  cases a with
  | tick => exact measured_tick h.2
  | activate => exact measured_activate h.2 h.1.created
  | low =>
    simp only [step]
    split
    · exact measured_low h.2 _
    · exact h.2
  | mid =>
    simp only [step]
    split
    · exact measured_mid h.2 _
    · exact h.2
  | high clock => exact measured_high clock h.2

theorem measured_tasks (safe : Bool) (a2 : Int32) (ended : Bool) (stack : Timespec w) :
    Measured (tasks safe a2 ended stack) := ⟨rfl, fun hn => absurd rfl hn⟩

theorem measured_run {a1 a2 : Int32} {ended : Bool} {stack : Timespec w} {s₀ : State w}
    (hcreated : createTasks a1 a2 ended stack = some s₀) (acts : List (Action w)) :
    Measured (run s₀ acts) := by
  have hstart : Sound s₀ ∧ Measured s₀ := by
    refine ⟨sound_run hcreated [], ?_⟩
    rw [createTasks_eq hcreated]
    exact measured_tasks _ a2 ended stack
  exact (Interleaving.run_invariant measured_step hstart acts : Sound _ ∧ Measured _).2

/-! ### The clock -/

/-- The readings of a run's clock, in their order. -/
def clocks (acts : List (Action w)) : List (Timespec w) :=
  acts.filterMap fun
    | .high clock => some clock
    | _ => none

/-- Between the two readings of a measurement. -/
def HighPc.begun : HighPc → Bool
  | .take | .waiting | .after => true
  | _ => false

/-- Between the second reading and the report. -/
def HighPc.complete : HighPc → Bool
  | .give | .handle => true
  | _ => false

/-- Of the times that `tHPrio` holds: those recorded are a measurement's, and that of which the
end is still to be read was read before every later one. -/
structure Timed (s : State w) (later : List (Timespec w)) : Prop where
  recorded : ∀ pair ∈ s.readings, Reading pair.1 pair.2
  begun : s.high.begun = true → ∀ clock ∈ later, Reading s.tstart clock
  complete : s.high.complete = true → Reading s.tstart s.tend
  onward : later.Pairwise Reading

theorem Timed.tail {s : State w} {clock : Timespec w} {later : List (Timespec w)}
    (h : Timed s (clock :: later)) : Timed s later where
  recorded := h.recorded
  begun hpc c hc := h.begun hpc c (List.mem_cons_of_mem clock hc)
  complete := h.complete
  onward := (List.pairwise_cons.mp h.onward).2

/-- A statement that keeps the times, and begins and completes no measurement. -/
theorem Timed.congr {s s' : State w} {later : List (Timespec w)} (h : Timed s later)
    (hreadings : s'.readings = s.readings) (hstart : s'.tstart = s.tstart)
    (hend : s'.tend = s.tend) (hbegun : s'.high.begun = true → s.high.begun = true)
    (hcomplete : s'.high.complete = true → s.high.complete = true) : Timed s' later where
  recorded := by rw [hreadings]; exact h.recorded
  begun hpc := by rw [hstart]; exact h.begun (hbegun hpc)
  complete hpc := by rw [hstart, hend]; exact h.complete (hcomplete hpc)
  onward := h.onward

/-- A statement that leads to one between two measurements. -/
theorem Timed.between {s s' : State w} {later : List (Timespec w)} (h : Timed s later)
    (hreadings : s'.readings = s.readings) (hbegun : s'.high.begun = false)
    (hcomplete : s'.high.complete = false) : Timed s' later where
  recorded := by rw [hreadings]; exact h.recorded
  begun hpc := by rw [hbegun] at hpc; cases hpc
  complete hpc := by rw [hcomplete] at hpc; cases hpc
  onward := h.onward

theorem timed_high {clock : Timespec w} {later : List (Timespec w)} {s : State w}
    (h : Timed s (clock :: later)) : Timed (highStep clock s) later := by
  have htail := h.tail
  unfold highStep
  split <;> rename_i hpc
  case h_3 =>
    exact ⟨htail.recorded, fun _ => (List.pairwise_cons.mp h.onward).1, fun hn => (by cases hn),
      htail.onward⟩
  case h_4 =>
    have hbegun := htail.begun (by rw [hpc]; rfl)
    unfold highTake
    split <;> exact ⟨htail.recorded, fun _ => hbegun, fun hn => (by cases hn), htail.onward⟩
  case h_6 =>
    have hend := h.begun (by rw [hpc]; rfl) clock List.mem_cons_self
    exact ⟨htail.recorded, fun hn => (by cases hn), fun _ => hend, htail.onward⟩
  case h_7 =>
    have hcomplete := htail.complete (by rw [hpc]; rfl)
    unfold highGive
    split <;> exact ⟨htail.recorded, fun hn => (by cases hn), fun _ => hcomplete, htail.onward⟩
  case h_8 =>
    have hcomplete := htail.complete (by rw [hpc]; rfl)
    refine ⟨fun pair hpair => ?_, fun hn => (by cases hn), fun hn => (by cases hn), htail.onward⟩
    rcases List.mem_append.mp hpair with hpair | hpair
    · exact htail.recorded pair hpair
    · rw [List.mem_singleton.mp hpair]
      exact hcomplete
  case h_2 => split <;> exact htail.between rfl rfl rfl
  case h_5 => exact htail
  case h_11 => exact htail
  case h_14 => exact htail
  case h_15 => exact htail
  all_goals exact htail.between rfl rfl rfl

theorem tick_begun (pc : HighPc) :
    pc.tick.begun = pc.begun ∧ pc.tick.complete = pc.complete := by
  cases pc <;> exact ⟨rfl, rfl⟩

theorem timed_low {s : State w} {later : List (Timespec w)} (h : Timed s later) (ran : Nat) :
    Timed { lowStep s with lowRan := ran } later := by
  have hhigh : ((lowStep s).high.begun = true → s.high.begun = true) ∧
      ((lowStep s).high.complete = true → s.high.complete = true) := by
    rcases lowStep_high s with hsame | ⟨hwaiting, hafter⟩
    · rw [hsame]
      exact ⟨id, id⟩
    · rw [hwaiting, hafter]
      exact ⟨fun _ => rfl, id⟩
  refine h.congr ?_ ?_ ?_ hhigh.1 hhigh.2 <;>
    (unfold lowStep lowTake lowGive; split <;> (try split) <;> rfl)

theorem timed_step {a : Action w} {rest : List (Action w)} {s : State w}
    (h : Timed s (clocks (a :: rest))) : Timed (step a s) (clocks rest) := by
  cases a with
  | high clock => exact timed_high h
  | tick =>
    have htick := tick_begun s.high
    exact Timed.congr (s := s) h rfl rfl rfl (by rw [← htick.1]; exact id)
      (by rw [← htick.2]; exact id)
  | activate =>
    simp only [step, activateStep]
    split
    · exact ⟨h.recorded, h.begun, h.complete, h.onward⟩
    · exact ⟨h.recorded, h.begun, h.complete, h.onward⟩
    · exact Timed.between (s := s) h rfl rfl rfl
    · exact h
  | low =>
    simp only [step]
    split
    · exact timed_low h _
    · exact h
  | mid =>
    simp only [step, midStep]
    split
    · split <;> (try split) <;> exact ⟨h.recorded, h.begun, h.complete, h.onward⟩
    · exact h

theorem timed_run {s : State w} (acts : List (Action w)) (h : Timed s (clocks acts)) :
    Timed (run s acts) [] := by
  induction acts generalizing s with
  | nil => exact h
  | cons a rest ih => exact ih (timed_step h)

/-- **What is reported**: in every order of the steps, with the readings of a monotonic clock, the
report of `tHPrio` at any moment is the one on its measurements so far, of which there are never
more than asked for; when the task is done there are as many, and `end` is set. -/
theorem run_reported (hw : 32 ≤ w) {a1 a2 : Int32} {ended : Bool} {stack : Timespec w}
    {s₀ : State w} (hcreated : createTasks a1 a2 ended stack = some s₀) (acts : List (Action w))
    (hclock : (clocks acts).Pairwise Reading) :
    (run s₀ acts).readings.length ≤ a2.toInt.toNat ∧
      ((run s₀ acts).high ≠ .suspended → (run s₀ acts).high ≠ .start →
        Reported (readingAt (run s₀ acts).readings) (run s₀ acts).readings.length
          (run s₀ acts).report) ∧
      ((run s₀ acts).high = .done →
        (run s₀ acts).readings.length = a2.toInt.toNat ∧ (run s₀ acts).ended = true) := by
  have htasks := createTasks_eq hcreated
  have hmeasured := measured_run hcreated acts
  have htimed : Timed (run s₀ acts) [] := by
    refine timed_run acts ?_
    rw [htasks]
    exact ⟨fun _ hn => (by cases hn), fun hn => (by cases hn), fun hn => (by cases hn), hclock⟩
  have hnum : (run s₀ acts).numOfMes = a2 := by
    rw [numOfMes_run, htasks]
    rfl
  have hrounds := hmeasured.rounds
  rw [hnum] at hrounds
  refine ⟨rounds_le hrounds, fun hsuspended hstart => ?_, fun hdone => ?_⟩
  · rw [hmeasured.report hsuspended hstart]
    refine reported hw fun k hk => ?_
    rw [readingAt, List.getElem?_eq_getElem hk, Option.getD_some]
    exact htimed.recorded _ (List.getElem_mem hk)
  · rw [hdone] at hrounds
    exact hrounds

/-- One measurement, of 5 ms, before the others take a step. -/
def single : List (Action 64) :=
  [.activate, .activate, .activate, .high ⟨1, 0⟩, .high ⟨1, 0⟩, .high ⟨1, 0⟩, .high ⟨1, 0⟩,
    .high ⟨1, 5000000⟩, .high ⟨1, 5000000⟩, .high ⟨1, 5000000⟩]

theorem run_reported_single :
    (run (tasks false 1 false ⟨0, 0⟩) single).readings.length ≤ 1 ∧
      ((run (tasks false 1 false ⟨0, 0⟩) single).high ≠ .suspended →
        (run (tasks false 1 false ⟨0, 0⟩) single).high ≠ .start →
        Reported (readingAt (run (tasks false 1 false ⟨0, 0⟩) single).readings)
          (run (tasks false 1 false ⟨0, 0⟩) single).readings.length
          (run (tasks false 1 false ⟨0, 0⟩) single).report) ∧
      ((run (tasks false 1 false ⟨0, 0⟩) single).high = .done →
        (run (tasks false 1 false ⟨0, 0⟩) single).readings.length = 1 ∧
          (run (tasks false 1 false ⟨0, 0⟩) single).ended = true) :=
  run_reported (by decide)
    (rfl : createTasks 1 1 false ⟨0, 0⟩ = some (tasks false 1 false ⟨0, 0⟩)) single
    (by decide +kernel)

/-! ### A second run -/

/-- The three tasks have returned. -/
structure Finished (s : State w) : Prop where
  low : s.low = .done
  mid : s.mid = .done
  high : s.high = .done

/-- The other two tasks execute at most one statement, and the one with the high priority never
waits. -/
structure Uncontended (s : State w) : Prop where
  lowRan : s.lowRan ≤ 1
  midRan : s.midRan ≤ 1
  high : s.high ≠ .waiting

/-- With `end` set, the first test is the last. -/
structure Idle (s : State w) : Prop where
  sound : Sound s
  ended : s.ended = true
  low : (s.low = .suspended ∨ s.low = .test) ∧ s.lowRan = 0 ∨ s.low = .done ∧ s.lowRan = 1
  mid : (s.mid = .suspended ∨ s.mid = .test) ∧ s.midRan = 0 ∨ s.mid = .done ∧ s.midRan = 1

theorem Idle.lowFree {s : State w} (h : Idle s) : s.owner ≠ some .low := by
  refine h.sound.owned.lowFree ?_
  rcases h.low with ⟨hpc | hpc, _⟩ | ⟨hpc, _⟩ <;> (rw [hpc]; rfl)

theorem Idle.uncontended {s : State w} (h : Idle s) : Uncontended s where
  lowRan := by rcases h.low with hlow | hlow <;> omega
  midRan := by rcases h.mid with hmid | hmid <;> omega
  high hwaiting := h.lowFree (h.sound.owned.highWaits hwaiting)

theorem idle_low {s : State w} (h : Idle s) (hruns : s.runsLow = true) :
    ((lowStep s).low = .done ∧ s.lowRan + 1 = 1) ∧ (lowStep s).ended = true ∧
      (lowStep s).midRan = s.midRan := by
  rcases h.low with ⟨hpc | hpc, hran⟩ | ⟨hpc, _⟩
  · rw [State.runsLow, hpc] at hruns
    cases hruns
  · simp only [lowStep, hpc, h.ended, hran, if_true, and_self]
  · rw [State.runsLow, hpc] at hruns
    cases hruns

theorem idle_mid {s : State w} (h : Idle s) (hruns : s.runsMid = true) :
    ((midStep s).mid = .done ∧ s.midRan + 1 = 1) ∧ (midStep s).ended = true ∧
      (midStep s).lowRan = s.lowRan := by
  rcases h.mid with ⟨hpc | hpc, hran⟩ | ⟨hpc, _⟩
  · rw [State.runsMid, hpc] at hruns
    cases hruns
  · simp only [midStep, hpc, h.ended, hran, if_true, and_self]
  · rw [State.runsMid, hpc] at hruns
    cases hruns

theorem idle_high (clock : Timespec w) {s : State w} (h : Idle s) :
    (highStep clock s).ended = true ∧ (highStep clock s).low = s.low ∧
      (highStep clock s).mid = s.mid ∧ (highStep clock s).lowRan = s.lowRan ∧
      (highStep clock s).midRan = s.midRan := by
  have hended := h.ended
  have hlow : s.low ≠ .waiting := by
    rcases h.low with ⟨hpc | hpc, _⟩ | ⟨hpc, _⟩ <;> (rw [hpc]; exact fun hn => by cases hn)
  unfold highStep highTake highGive
  split <;> (try split) <;> first
    | exact ⟨hended, rfl, rfl, rfl, rfl⟩
    | exact ⟨rfl, rfl, rfl, rfl, rfl⟩
    | rename_i hwaiting
      exact absurd hwaiting hlow

theorem idle_tick {s : State w} (h : Idle s) : Idle (step .tick s) := by
  have hlow : s.low.tick = s.low := by
    rcases h.low with ⟨hpc | hpc, _⟩ | ⟨hpc, _⟩ <;> (rw [hpc]; rfl)
  have hmid : s.mid.tick = s.mid := by
    rcases h.mid with ⟨hpc | hpc, _⟩ | ⟨hpc, _⟩ <;> (rw [hpc]; rfl)
  refine ⟨sound_step .tick s h.sound, h.ended, ?_, ?_⟩
  · simp only [step, hlow]
    exact h.low
  · simp only [step, hmid]
    exact h.mid

theorem idle_activate {s : State w} (h : Idle s) : Idle (step .activate s) := by
  have hsound := sound_step .activate s h.sound
  simp only [step, activateStep] at hsound ⊢
  split at hsound
  · rename_i hc
    have hsuspended := h.sound.created.low hc
    have hran : s.lowRan = 0 := by
      rcases h.low with ⟨_, hran⟩ | ⟨hpc, _⟩
      · exact hran
      · rw [hsuspended] at hpc
        cases hpc
    exact ⟨hsound, h.ended, .inl ⟨.inr rfl, hran⟩, h.mid⟩
  · rename_i hc
    have hsuspended := h.sound.created.mid (.inr hc)
    have hran : s.midRan = 0 := by
      rcases h.mid with ⟨_, hran⟩ | ⟨hpc, _⟩
      · exact hran
      · rw [hsuspended] at hpc
        cases hpc
    exact ⟨hsound, h.ended, h.low, .inl ⟨.inr rfl, hran⟩⟩
  · exact ⟨hsound, h.ended, h.low, h.mid⟩
  · exact h

theorem idle_step (a : Action w) (s : State w) (h : Idle s) : Idle (step a s) := by
  have hsound := sound_step a s h.sound
  cases a with
  | tick => exact idle_tick h
  | activate => exact idle_activate h
  | low =>
    by_cases hruns : s.runsLow = true
    · have hstep : step .low s = { lowStep s with lowRan := s.lowRan + 1 } := if_pos hruns
      rw [hstep] at hsound ⊢
      obtain ⟨hlow, hended, hmidRan⟩ := idle_low h hruns
      refine ⟨hsound, hended, .inr hlow, ?_⟩
      change (((lowStep s).mid = _ ∨ (lowStep s).mid = _) ∧ (lowStep s).midRan = _) ∨
        (lowStep s).mid = _ ∧ (lowStep s).midRan = _
      rw [hmidRan, (lowStep_frame s).2]
      exact h.mid
    · have hstep : step .low s = s := if_neg hruns
      rw [hstep]
      exact h
  | mid =>
    by_cases hruns : s.runsMid = true
    · have hstep : step .mid s = { midStep s with midRan := s.midRan + 1 } := if_pos hruns
      rw [hstep] at hsound ⊢
      obtain ⟨hmid, hended, hlowRan⟩ := idle_mid h hruns
      refine ⟨hsound, hended, ?_, .inr hmid⟩
      change (((midStep s).low = _ ∨ (midStep s).low = _) ∧ (midStep s).lowRan = _) ∨
        (midStep s).low = _ ∧ (midStep s).lowRan = _
      rw [hlowRan, (midStep_frame s).2.1]
      exact h.low
    · have hstep : step .mid s = s := if_neg hruns
      rw [hstep]
      exact h
  | high clock =>
    obtain ⟨hended, hlow, hmid, hlowRan, hmidRan⟩ := idle_high clock h
    refine ⟨hsound, hended, ?_, ?_⟩
    · simp only [step, hlow, hlowRan]
      exact h.low
    · simp only [step, hmid, hmidRan]
      exact h.mid

/-- **A second run measures nothing**: when the tasks of one `CreateTasks` have returned, then in
every run of the tasks of another, with whatever mutex and number of measurements, the two tasks
that should keep the processor and the mutex busy execute one statement each at most, and
`tHPrio` never waits. -/
theorem second_uncontended {a1 a2 b1 b2 : Int32} {ended : Bool} {stack other : Timespec w}
    {s₁ s₂ : State w} (hfirst : createTasks a1 a2 ended stack = some s₁)
    (before : List (Action w)) (hfinished : Finished (run s₁ before))
    (hsecond : createTasks b1 b2 (run s₁ before).ended other = some s₂) (acts : List (Action w)) :
    Uncontended (run s₂ acts) := by
  have hrounds := (measured_run hfirst before).rounds
  rw [hfinished.high] at hrounds
  have hidle : Idle s₂ := by
    refine ⟨sound_run hsecond [], ?_, ?_, ?_⟩ <;> rw [createTasks_eq hsecond]
    · exact hrounds.2
    · exact .inl ⟨.inl rfl, rfl⟩
    · exact .inl ⟨.inl rfl, rfl⟩
  exact (Interleaving.run_invariant idle_step hidle acts : Idle (run s₂ acts)).uncontended

/-- After this measurement and its delay, all three return. -/
def complete : List (Action 64) :=
  single ++ .high ⟨1, 5000000⟩ :: List.replicate 100 .tick ++
    [.high ⟨2, 0⟩, .high ⟨2, 0⟩, .high ⟨2, 0⟩, .high ⟨2, 0⟩, .mid, .low]

/-- The second run takes the steps in which a first one comes to wait. -/
theorem second_uncontended_complete :
    (run (tasks false 1 false ⟨0, 0⟩) complete).readings = [(⟨1, 0⟩, ⟨1, 5000000⟩)] ∧
    (run (tasks true 1 false ⟨0, 0⟩) meeting).high = .waiting ∧
    Uncontended (run (tasks true 1 (run (tasks false 1 false ⟨0, 0⟩) complete).ended ⟨0, 0⟩)
      meeting) :=
  ⟨by decide +kernel, by decide +kernel, second_uncontended
    (rfl : createTasks 1 1 false ⟨0, 0⟩ = some (tasks false 1 false ⟨0, 0⟩)) complete
    ⟨by decide +kernel, by decide +kernel, by decide +kernel⟩
    (rfl : createTasks 2 1 (run (tasks false 1 false ⟨0, 0⟩) complete).ended ⟨0, 0⟩ =
      some (tasks true 1 (run (tasks false 1 false ⟨0, 0⟩) complete).ended ⟨0, 0⟩)) meeting⟩

end RealTimeLabs.Priority
