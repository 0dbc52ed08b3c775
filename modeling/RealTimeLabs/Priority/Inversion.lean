import RealTimeLabs.Priority.Scheduler

/-! How long the task with the high priority waits.

While it waits, `tLPrio` has the mutex. With `SEM_INVERSION_SAFE`, that task then runs before
`tMPrio`, so nothing of `tMPrio` is executed until the mutex is given, and the wait is what
was left of one critical section (`inheritance_bounds`). Without, `tMPrio` runs before it, and
the wait goes on for all that `tMPrio` has before it until its `taskDelay`
(`inversion_lasts`). -/
namespace RealTimeLabs.Priority

variable {w : Nat}

/-- The statements of `tLPrio` up to and with its `semGive`. -/
def LowPc.left : LowPc → Nat
  | .work len => len + 2
  | .give => 1
  | _ => 0

/-- The statements of `tMPrio` up to and with its `taskDelay`. -/
def MidPc.left : MidPc → Nat
  | .work len => len + 2
  | .sleep => 1
  | _ => 0

/-- The work of a critical section, from its beginning. -/
def Sectioned (s : State w) : Prop := s.low.left ≤ workLength lowPriorityWork + 2

theorem sectioned_low {s : State w} (h : Sectioned s) : (lowStep s).low.left ≤
    workLength lowPriorityWork + 2 := by
  unfold Sectioned at h
  unfold lowStep
  split
  case h_1 => split <;> exact Nat.zero_le _
  case h_2 =>
    unfold lowTake
    split
    · exact Nat.le_refl _
    · exact Nat.zero_le _
  case h_4 hpc =>
    rw [hpc] at h
    exact Nat.le_of_succ_le h
  case h_5 =>
    unfold lowGive
    split <;> exact Nat.zero_le _
  case h_3 => exact Nat.le_add_left 1 _
  case h_6 => exact Nat.zero_le _
  case h_7 => exact Nat.zero_le _
  all_goals exact h

theorem sectioned_high (clock : Timespec w) {s : State w} (h : Sectioned s) :
    (highStep clock s).low.left ≤ workLength lowPriorityWork + 2 := by
  unfold highStep
  split
  case h_4 =>
    unfold highTake
    split <;> exact h
  case h_7 =>
    unfold highGive
    split
    · exact Nat.le_refl _
    · exact h
  all_goals (try split) <;> exact h

theorem sectioned_step (a : Action w) (s : State w) (h : Sectioned s) : Sectioned (step a s) := by
  cases a with
  | tick =>
    have htick : s.low.tick.left = s.low.left := by cases s.low <;> rfl
    change s.low.tick.left ≤ _
    rw [htick]
    exact h
  | activate =>
    simp only [step, activateStep]
    split
    · exact Nat.zero_le _
    all_goals exact h
  | low =>
    simp only [step]
    split
    · exact sectioned_low h
    · exact h
  | mid =>
    simp only [step]
    split
    · have hlow : (midStep s).low = s.low := by
        unfold midStep
        split <;> (try split) <;> rfl
      change (midStep s).low.left ≤ _
      rw [hlow]
      exact h
    · exact h
  | high clock => exact sectioned_high clock h

/-! ### Who runs while the high priority waits -/

/-- The task with the high priority waits for that with the low one. -/
structure Blocked (safe : Bool) (s : State w) : Prop where
  sound : Sound s
  safe : s.safe = safe
  waiting : s.high = .waiting

theorem Blocked.lowHolds {safe : Bool} {s : State w} (h : Blocked safe s) :
    s.low.holds = true := h.sound.owned.low.mp (h.sound.owned.highWaits h.waiting)

theorem ready_of_holds {pc : LowPc} (h : pc.holds = true) : pc.ready = true := by
  cases pc <;> first | rfl | cases h

theorem left_pos_of_holds {pc : LowPc} (h : pc.holds = true) : 0 < pc.left := by
  cases pc <;> first | exact Nat.succ_pos _ | cases h

/-- The inherited priority. -/
theorem Blocked.runsLow {s : State w} (h : Blocked true s) :
    s.runsLow = true ∧ s.runsMid = false := by
  have hpriority : s.lowPriority = highPriority :=
    if_pos ⟨h.safe, h.sound.owned.highWaits h.waiting, h.waiting⟩
  have hready := ready_of_holds h.lowHolds
  rw [State.runsLow, State.runsMid, hpriority, hready]
  cases s.mid.ready <;> exact ⟨rfl, rfl⟩

/-- Its own priority. -/
theorem Blocked.runsMid {s : State w} (h : Blocked false s) (hmid : s.mid.ready = true) :
    s.runsLow = false ∧ s.runsMid = true := by
  have hpriority : s.lowPriority = Priority.lowPriority := by
    rw [State.lowPriority, h.safe, if_neg fun hs => by cases hs.1]
  rw [State.runsLow, State.runsMid, hpriority, hmid]
  cases s.low.ready <;> exact ⟨rfl, rfl⟩

/-- Everybody has been activated. -/
theorem Blocked.activate {safe : Bool} {s : State w} (h : Blocked safe s) :
    step .activate s = s := by
  have hreturned : s.creator = .returned := by
    refine Classical.byContradiction fun hne => ?_
    have hsuspended := h.sound.created.high hne
    rw [h.waiting] at hsuspended
    cases hsuspended
  simp only [step, activateStep, hreturned]

/-- A statement of the critical section is one fewer to come; the last one ends the wait. -/
theorem Blocked.lowStep {safe : Bool} {s : State w} (h : Blocked safe s) :
    (lowStep s).low.left + 1 = s.low.left ∧ (lowStep s).mid = s.mid ∧
      (lowStep s).midRan = s.midRan ∧ (lowStep s).safe = s.safe ∧
      ((lowStep s).high = .waiting ∨ (lowStep s).low.left = 0) := by
  have hholds := h.lowHolds
  cases hpc : s.low with
  | work len =>
    cases len with
    | zero => simp only [Priority.lowStep, hpc, LowPc.left, h.waiting, true_or, and_self]
    | succ len => simp only [Priority.lowStep, hpc, LowPc.left, h.waiting, true_or, and_self]
  | give =>
    simp only [Priority.lowStep, hpc, lowGive, h.waiting, LowPc.left, or_true, and_self]
  | _ =>
    rw [hpc] at hholds
    cases hholds

/-! ### With inheritance -/

/-- From some moment of the wait on. -/
structure Inheriting (s₀ s : State w) (lowActions : Nat) : Prop where
  blocked : Blocked true s
  midRan : s.midRan = s₀.midRan
  left : s.low.left + lowActions = s₀.low.left

theorem inheriting_step {s₀ s : State w} {n : Nat} (h : Inheriting s₀ s n) (a : Action w)
    (hwaits : (step a s).high = .waiting) :
    Inheriting s₀ (step a s) (n + if a = .low then 1 else 0) := by
  have hsound := sound_step a s h.blocked.sound
  obtain ⟨hlow, hmid⟩ := h.blocked.runsLow
  have hleft := h.left
  cases a with
  | tick =>
    have htick : s.low.tick.left = s.low.left := by cases s.low <;> rfl
    refine ⟨⟨hsound, h.blocked.safe, hwaits⟩, h.midRan, ?_⟩
    rw [if_neg fun he => by cases he]
    change s.low.tick.left + _ = _
    rw [htick]
    exact hleft
  | low =>
    obtain ⟨hless, _, hran, hsafe, _⟩ := h.blocked.lowStep
    have hstep : step .low s = { lowStep s with lowRan := s.lowRan + 1 } := if_pos hlow
    rw [hstep] at hsound hwaits ⊢
    refine ⟨⟨hsound, hsafe.trans h.blocked.safe, hwaits⟩, hran.trans h.midRan, ?_⟩
    rw [if_pos rfl]
    change (lowStep s).low.left + _ = _
    omega
  | mid =>
    have hstep : step .mid s = s := if_neg (by rw [hmid]; exact Bool.false_ne_true)
    rw [hstep, if_neg fun he => by cases he]
    exact h
  | activate =>
    have hstep : step .activate s = s := h.blocked.activate
    rw [hstep, if_neg fun he => by cases he]
    exact h
  | high clock =>
    have hstep : step (.high clock) s = s := by
      simp only [step, highStep, h.blocked.waiting]
    rw [hstep, if_neg fun he => by cases he]
    exact h

theorem inheriting_run {s₀ s : State w} {n : Nat} (h : Inheriting s₀ s n) (acts : List (Action w))
    (hwaits : Interleaving.Throughout step (fun s => s.high = .waiting) s acts) :
    Inheriting s₀ (run s acts) (n + acts.count .low) := by
  induction acts generalizing s n with
  | nil => exact h
  | cons a rest ih =>
    have hnext := ih (inheriting_step h a hwaits.2.head) hwaits.2
    have hcount : n + (if a = .low then 1 else 0) + rest.count .low =
        n + (a :: rest).count .low := by
      rw [List.count_cons]
      simp only [beq_iff_eq]
      omega
    rw [hcount] at hnext
    exact hnext

/-- **With inheritance the wait is bounded**: from any state of any run with the inversion-safe
mutex, for as long as `tHPrio` waits, no statement of `tMPrio` is executed, every turn of
`tLPrio` executes one of its critical section, and these are fewer than were left. -/
theorem inheritance_bounds {a2 : Int32} {ended : Bool} {stack : Timespec w} {s₀ : State w}
    (hcreated : createTasks 2 a2 ended stack = some s₀) (before acts : List (Action w))
    (hwaits : Interleaving.Throughout step (fun s => s.high = .waiting) (run s₀ before) acts) :
    (run (run s₀ before) acts).midRan = (run s₀ before).midRan ∧
      acts.count .low < (run s₀ before).low.left ∧
      (run s₀ before).low.left ≤ 3 * 10000000 + 2 := by
  have htasks := createTasks_eq hcreated
  have hsafe : (run s₀ before).safe = true := by rw [safe_run, htasks]; rfl
  have hstart : Inheriting (run s₀ before) (run s₀ before) 0 :=
    ⟨⟨sound_run hcreated before, hsafe, hwaits.head⟩, rfl, rfl⟩
  have hrun := inheriting_run hstart acts hwaits
  have hpos := left_pos_of_holds hrun.blocked.lowHolds
  have hleft := hrun.left
  refine ⟨hrun.midRan, by omega, ?_⟩
  have hsectioned : Sectioned s₀ := by
    rw [htasks]
    exact Nat.zero_le _
  exact Interleaving.run_invariant sectioned_step hsectioned before

/-- The task with the low priority takes the mutex, that in between begins its work, and that with
the high priority comes to wait. -/
def meeting : List (Action 64) :=
  [.activate, .low, .low, .activate, .mid, .activate, .high ⟨0, 0⟩, .high ⟨0, 0⟩, .high ⟨0, 0⟩,
    .high ⟨0, 0⟩]

theorem inheritance_bounds_meeting :
    (run (run (tasks true 1 false ⟨0, 0⟩) meeting) [.mid, .low, .tick]).midRan = 1 ∧
      [Action.mid, .low, .tick].count (.low : Action 64) <
        (run (tasks true 1 false ⟨0, 0⟩) meeting).low.left ∧
      (run (tasks true 1 false ⟨0, 0⟩) meeting).low.left ≤ 3 * 10000000 + 2 :=
  inheritance_bounds
    (rfl : createTasks 2 1 false ⟨0, 0⟩ = some (tasks true 1 false ⟨0, 0⟩)) meeting
    [.mid, .low, .tick] (by decide +kernel)

/-! ### Without -/

/-- From some moment of the wait on: `tMPrio` has been through, or everything waits for it. -/
def Lasting (s₀ s : State w) : Prop :=
  s₀.midRan + s₀.mid.left ≤ s.midRan ∨
    Blocked false s ∧ s.lowRan = s₀.lowRan ∧ s.midRan + s.mid.left = s₀.midRan + s₀.mid.left ∧
      0 < s.mid.left

theorem ready_of_left {pc : MidPc} (h : 0 < pc.left) : pc.ready = true := by
  cases pc <;> first | rfl | cases h

theorem midStep_left {s : State w} (h : 0 < s.mid.left) :
    (midStep s).mid.left + 1 = s.mid.left := by
  cases hpc : s.mid with
  | work len =>
    cases len with
    | zero => simp only [midStep, hpc, MidPc.left]
    | succ len => simp only [midStep, hpc, MidPc.left]
  | sleep => simp only [midStep, hpc, MidPc.left]
  | _ =>
    rw [hpc] at h
    cases h

theorem midRan_step (a : Action w) (s : State w) : s.midRan ≤ (step a s).midRan := by
  cases a with
  | tick => exact Nat.le_refl _
  | activate =>
    simp only [step, activateStep]
    split <;> exact Nat.le_refl _
  | low =>
    simp only [step, lowStep, lowTake, lowGive]
    split
    · split <;> (try split) <;> exact Nat.le_refl _
    · exact Nat.le_refl _
  | mid =>
    simp only [step]
    split
    · exact Nat.le_succ _
    · exact Nat.le_refl _
  | high clock =>
    simp only [step, highStep, highTake, highGive]
    split <;> (try split) <;> exact Nat.le_refl _

theorem lasting_step {s₀ : State w} (a : Action w) (s : State w) (h : Lasting s₀ s) :
    Lasting s₀ (step a s) := by
  rcases h with h | ⟨hblocked, hlow, hleft, hpos⟩
  · exact .inl (Nat.le_trans h (midRan_step a s))
  · have hsound := sound_step a s hblocked.sound
    obtain ⟨hrunsLow, hrunsMid⟩ := hblocked.runsMid (ready_of_left hpos)
    cases a with
    | tick =>
      have htick : s.mid.tick.left = s.mid.left := by cases s.mid <;> rfl
      have hwaiting : s.high.tick = .waiting := by rw [hblocked.waiting]; rfl
      refine .inr ⟨⟨hsound, hblocked.safe, hwaiting⟩, hlow, ?_, ?_⟩
      · change s.midRan + s.mid.tick.left = _
        rw [htick]
        exact hleft
      · change 0 < s.mid.tick.left
        rw [htick]
        exact hpos
    | activate =>
      have hstep : step .activate s = s := hblocked.activate
      rw [hstep]
      exact .inr ⟨hblocked, hlow, hleft, hpos⟩
    | low =>
      have hstep : step .low s = s := if_neg (by rw [hrunsLow]; exact Bool.false_ne_true)
      rw [hstep]
      exact .inr ⟨hblocked, hlow, hleft, hpos⟩
    | mid =>
      have hless := midStep_left hpos
      have hsame : (midStep s).safe = s.safe ∧ (midStep s).high = s.high ∧
          (midStep s).lowRan = s.lowRan := by
        unfold midStep
        split <;> (try split) <;> exact ⟨rfl, rfl, rfl⟩
      have hstep : step .mid s = { midStep s with midRan := s.midRan + 1 } := if_pos hrunsMid
      rw [hstep] at hsound ⊢
      rcases Nat.eq_zero_or_pos (midStep s).mid.left with hzero | hmore
      · refine .inl ?_
        change s₀.midRan + s₀.mid.left ≤ s.midRan + 1
        omega
      · refine .inr ⟨⟨hsound, hsame.1.trans hblocked.safe, hsame.2.1.trans hblocked.waiting⟩,
          hsame.2.2.trans hlow, ?_, hmore⟩
        change s.midRan + 1 + (midStep s).mid.left = _
        omega
    | high clock =>
      have hstep : step (.high clock) s = s := by
        simp only [step, highStep, hblocked.waiting]
      rw [hstep]
      exact .inr ⟨hblocked, hlow, hleft, hpos⟩

/-- **Without inheritance the wait lasts**: from any state of any run with the plain mutex in which
`tHPrio` waits and `tMPrio` is at work, `tHPrio` waits and `tLPrio` does not execute a statement
until `tMPrio` has executed all that it has before it up to its `taskDelay`. -/
theorem inversion_lasts {a2 : Int32} {ended : Bool} {stack : Timespec w} {s₀ : State w}
    (hcreated : createTasks 1 a2 ended stack = some s₀) (before acts : List (Action w))
    (hwaiting : (run s₀ before).high = .waiting) (hworks : 0 < (run s₀ before).mid.left)
    (hran : (run (run s₀ before) acts).midRan <
      (run s₀ before).midRan + (run s₀ before).mid.left) :
    (run (run s₀ before) acts).high = .waiting ∧
      (run (run s₀ before) acts).lowRan = (run s₀ before).lowRan := by
  have hsafe : (run s₀ before).safe = false := by
    rw [safe_run, createTasks_eq hcreated]
    rfl
  have hstart : Lasting (run s₀ before) (run s₀ before) :=
    .inr ⟨⟨sound_run hcreated before, hsafe, hwaiting⟩, rfl, rfl, hworks⟩
  have hrun : Lasting (run s₀ before) (run (run s₀ before) acts) :=
    Interleaving.run_invariant lasting_step hstart acts
  rcases hrun with hrun | ⟨hblocked, hlow, _⟩
  · exact absurd hran (Nat.not_lt.mpr hrun)
  · exact ⟨hblocked.waiting, hlow⟩

theorem inversion_lasts_meeting :
    (run (run (tasks false 1 false ⟨0, 0⟩) meeting) [.low, .mid, .low]).high = .waiting ∧
      (run (run (tasks false 1 false ⟨0, 0⟩) meeting) [.low, .mid, .low]).lowRan = 2 :=
  inversion_lasts
    (rfl : createTasks 1 1 false ⟨0, 0⟩ = some (tasks false 1 false ⟨0, 0⟩)) meeting
    [.low, .mid, .low] (by decide +kernel) (by decide +kernel) (by decide +kernel)

end RealTimeLabs.Priority
