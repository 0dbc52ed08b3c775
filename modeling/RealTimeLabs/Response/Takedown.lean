import RealTimeLabs.Response.Accounts

/-! The end of a measurement (`CreateTasks`).

Given enough steps of their own, in whatever order the others take theirs, `CreateTasks`
gets to its waiting loop, the monitor gets through its blocks and sets `m_end`, and
`CreateTasks` stops the timer, disables the interrupt and deletes the service task. A handler
that is still running then comes to its end, and after that no action of anybody changes
anything (`takedown`). -/
namespace RealTimeLabs.Response

variable {T : Timer}

/-- Statements that `CreateTasks` has before it. -/
def MainPc.left : MainPc → Nat
  | .spawnService => 6
  | .spawnMonitor => 5
  | .wait => 4
  | .stopTimer => 3
  | .disable => 2
  | .delete => 1
  | .returned => 0

/-- Statements that a handler has before it. -/
def IsrPc.left : IsrPc T → Nat
  | .idle => 0
  | .read _ => 4
  | .count _ _ => 3
  | .give => 2
  | .clear => 1

/-- A block is so many statements. -/
def blockLength : Nat := 3 + 2 * (3 * timeMapSize)

/-- Numbers that a block has before it. -/
def numbersLeft (row : Row) (j : Fin timeMapSize) : Nat :=
  3 * timeMapSize - (timeMapSize * row.index + j.val)

/-- Blocks after the one with the number `i`. -/
def blocksLeft (measurements i : Int32) : Nat := (measurements.toInt - i.toInt).toNat

/-- Statements that the monitor has before it, once it has been spawned. -/
def MonitorPc.left (measurements : Int32) : MonitorPc → Nat
  | .absent | .undefined | .done => 0
  | .started => 4 + blockLength * blocksLeft measurements 0
  | .test i => 3 + blockLength * blocksLeft measurements i
  | .delay i => 2 + blockLength * blocksLeft measurements i
  | .number i row j =>
    4 + blockLength * (blocksLeft measurements i - 1) + 2 * numbersLeft row j
  | .separator i row j =>
    3 + blockLength * (blocksLeft measurements i - 1) + 2 * numbersLeft row j
  | .increment i => 4 + blockLength * (blocksLeft measurements i - 1)
  | .finished => 2
  | .setEnd => 1

/-- The monitor counts its blocks up to the number asked for. -/
def Bounded (measurements : Int32) : MonitorPc → Prop
  | .test i => 0 ≤ i.toInt ∧ i.toInt ≤ measurements.toInt
  | .delay i | .number i _ _ | .separator i _ _ | .increment i =>
    0 ≤ i.toInt ∧ i.toInt < measurements.toInt
  | .undefined => False
  | _ => True

/-- What `CreateTasks` has taken down, as far as it has got. -/
def Stage (s : State T) : MainPc → Prop
  | .spawnService | .spawnMonitor => s.monitor = .absent
  | .wait => s.monitor ≠ .absent
  | .stopTimer => s.mEnd = true
  | .disable => s.mEnd = true ∧ s.counting = false
  | .delete => s.mEnd = true ∧ s.counting = false ∧ s.intEnabled = false
  | .returned =>
    s.mEnd = true ∧ s.counting = false ∧ s.intEnabled = false ∧ s.service = .gone

structure Staged (measurements : Int32) (s : State T) : Prop where
  stage : Stage s s.main
  bounded : Bounded measurements s.monitor
  ended : s.mEnd = true ↔ s.monitor = .done

/-! ### The monitor -/

theorem index_le (row : Row) : row.index ≤ 2 := by cases row <;> decide

theorem numbersLeft_comma {row : Row} {j : Fin timeMapSize} (h : j.val + 1 < timeMapSize) :
    numbersLeft row j = numbersLeft row ⟨j.val + 1, h⟩ + 1 := by
  have hrow := index_le row
  have hfull : timeMapSize = 20 := rfl
  simp only [numbersLeft, hfull] at h ⊢
  omega

/-- The end of a row. -/
theorem afterRow_left (m i : Int32) (row : Row) {j : Fin timeMapSize}
    (h : ¬ j.val + 1 < timeMapSize) :
    (afterRow i row).left m + 1 = (MonitorPc.separator i row j).left m := by
  have hj := j.isLt
  have hfull : timeMapSize = 20 := rfl
  cases row <;>
    simp only [afterRow, MonitorPc.left, numbersLeft, Row.index, hfull, Fin.val_zero] at h hj ⊢ <;>
    omega

/-- Each statement of the monitor is one fewer to come. -/
theorem monitor_advance {m : Int32} (hm : 0 < m.toInt) {s : State T}
    (hb : Bounded m s.monitor) : Bounded m (monitorStep m s).monitor ∧
      (monitorStep m s).monitor.left m = s.monitor.left m - 1 := by
  have hzero : (0 : Int32).toInt = 0 := rfl
  unfold monitorStep
  split
  case h_1 hpc => exact ⟨hb, by rw [hpc]; rfl⟩
  case h_2 hpc =>
    rw [hpc]
    exact ⟨⟨Int.le_refl _, Int.le_of_lt hm⟩, by simp only [MonitorPc.left]; omega⟩
  case h_3 i hpc =>
    obtain ⟨hi, hle⟩ := (hpc ▸ hb : Bounded m (.test i))
    split
    · rename_i hgo
      rw [hpc]
      refine ⟨⟨hi, ?_⟩, by simp only [MonitorPc.left]; omega⟩
      have hnonzero : m ≠ 0 := fun hz => by rw [hz, hzero] at hm; omega
      have hne : m.toInt ≠ i.toInt := fun heq =>
        hgo.elim hnonzero fun hne => hne (Int32.toInt_inj.mp heq)
      omega
    · rename_i hend
      have heq : m = i := Classical.byContradiction (not_or.mp hend).2
      rw [hpc, heq]
      exact ⟨trivial, by simp only [MonitorPc.left, blocksLeft, Int.sub_self]; rfl⟩
  case h_4 i hpc =>
    obtain ⟨hi, hlt⟩ := (hpc ▸ hb : Bounded m (.delay i))
    have hblocks : 0 < blocksLeft m i := by
      simp only [blocksLeft]
      omega
    have hsplit := Nat.mul_sub_one blockLength (blocksLeft m i)
    have hmul := Nat.mul_le_mul_left blockLength hblocks
    have hlen : blockLength = 123 := rfl
    have hnumbers : numbersLeft .axis 0 = 60 := rfl
    rw [hpc]
    refine ⟨⟨hi, hlt⟩, ?_⟩
    simp only [MonitorPc.left, hnumbers, hsplit]
    omega
  case h_5 i row j hpc =>
    have hbounds : Bounded m (.number i row j) := hpc ▸ hb
    rw [hpc]
    exact ⟨hbounds, by simp only [MonitorPc.left]; omega⟩
  case h_6 i row j hpc =>
    obtain ⟨hi, hlt⟩ := (hpc ▸ hb : Bounded m (.separator i row j))
    rw [hpc]
    by_cases hlast : j.val + 1 < timeMapSize
    · have hafter : afterSeparator i row j = .number i row ⟨j.val + 1, hlast⟩ := dif_pos hlast
      rw [hafter]
      refine ⟨⟨hi, hlt⟩, ?_⟩
      simp only [MonitorPc.left, numbersLeft_comma hlast]
      omega
    · have hafter : afterSeparator i row j = afterRow i row := dif_neg hlast
      rw [hafter]
      refine ⟨by cases row <;> exact ⟨hi, hlt⟩, ?_⟩
      rw [← afterRow_left m i row hlast]
      exact (Nat.add_sub_cancel _ 1).symm
  case h_7 i hpc =>
    obtain ⟨hi, hlt⟩ := (hpc ▸ hb : Bounded m (.increment i))
    have hle := m.toInt_le
    have hmax : i ≠ Int32.maxValue := fun heq => by rw [heq] at hlt; omega
    have hsucc := Counter.toInt_succ hmax
    rw [if_neg hmax, hpc]
    refine ⟨⟨by rw [hsucc]; omega, by rw [hsucc]; omega⟩, ?_⟩
    have hblocks : blocksLeft m (i + 1) = blocksLeft m i - 1 := by
      simp only [blocksLeft, hsucc]
      omega
    simp only [MonitorPc.left, hblocks]
    omega
  case h_8 hpc => exact (hpc ▸ hb : Bounded m .undefined).elim
  case h_9 hpc => rw [hpc]; exact ⟨trivial, rfl⟩
  case h_10 hpc => rw [hpc]; exact ⟨trivial, rfl⟩
  case h_11 hpc => rw [hpc]; exact ⟨trivial, rfl⟩

/-- Only its last statement sets `m_end`. -/
theorem mEnd_monitorStep {m : Int32} {s : State T} (h : s.mEnd = true ↔ s.monitor = .done) :
    (monitorStep m s).mEnd = true ↔ (monitorStep m s).monitor = .done := by
  have hrunning : s.monitor ≠ .done → s.mEnd ≠ true := fun hne hm => hne (h.mp hm)
  unfold monitorStep
  split
  case h_1 => exact h
  case h_8 => exact h
  case h_10 => exact iff_of_true rfl rfl
  case h_11 => exact h
  case h_6 i row j hpc =>
    rw [hpc] at hrunning
    refine iff_of_false (hrunning fun h => by cases h) ?_
    change afterSeparator i row j ≠ .done
    unfold afterSeparator
    split
    · exact fun h => by cases h
    · cases row <;> exact fun h => by cases h
  all_goals
    rename_i hpc
    rw [hpc] at hrunning
    (try split) <;> exact iff_of_false (hrunning fun h => by cases h) fun h => by cases h

theorem monitorStep_ne_absent {m : Int32} {s : State T} (h : s.monitor ≠ .absent) :
    (monitorStep m s).monitor ≠ .absent := by
  unfold monitorStep
  split
  case h_1 hpc => exact absurd hpc h
  case h_6 i row j hpc =>
    change afterSeparator i row j ≠ .absent
    unfold afterSeparator
    split
    · exact fun h => by cases h
    · cases row <;> exact fun h => by cases h
  case h_8 => exact h
  case h_11 => exact h
  all_goals (try split) <;> exact fun h => by cases h

/-! ### One step -/

theorem staged_initial (m : Int32) (b : Bench T) : Staged m (initial b) :=
  ⟨rfl, trivial, ⟨fun h => (by cases h), fun h => (by cases h)⟩⟩

/-- The timer, the handler and the service task leave the stages alone. -/
theorem Staged.congr {m : Int32} {s s' : State T} (h : Staged m s) (hmain : s'.main = s.main)
    (hmonitor : s'.monitor = s.monitor) (hmEnd : s'.mEnd = s.mEnd)
    (hcounting : s'.counting = s.counting) (henabled : s'.intEnabled = s.intEnabled)
    (hservice : s.service = .gone → s'.service = .gone) : Staged m s' := by
  refine ⟨?_, hmonitor ▸ h.bounded, by rw [hmEnd, hmonitor]; exact h.ended⟩
  have hstage := h.stage
  rw [hmain]
  cases hpc : s.main <;> rw [hpc] at hstage <;>
    simp only [Stage, hmonitor, hmEnd, hcounting, henabled] at hstage ⊢
  case returned =>
    exact ⟨hstage.1, hstage.2.1, hstage.2.2.1, hservice hstage.2.2.2⟩
  all_goals exact hstage

theorem staged_main {m : Int32} {s : State T} (h : Staged m s) : Staged m (mainStep s) := by
  have hstage := h.stage
  unfold mainStep
  split
  case h_1 hpc =>
    rw [hpc] at hstage
    exact ⟨hstage, h.bounded, h.ended⟩
  case h_2 hpc =>
    rw [hpc] at hstage
    have hrunning : s.mEnd ≠ true := fun hm => by
      have hdone := h.ended.mp hm
      rw [hstage] at hdone
      cases hdone
    exact ⟨fun hn => (by cases hn), trivial, iff_of_false hrunning fun hn => (by cases hn)⟩
  case h_3 hpc =>
    split
    · rename_i hend
      exact ⟨hend, h.bounded, h.ended⟩
    · exact h
  case h_4 hpc =>
    rw [hpc] at hstage
    exact ⟨⟨hstage, rfl⟩, h.bounded, h.ended⟩
  case h_5 hpc =>
    rw [hpc] at hstage
    exact ⟨⟨hstage.1, hstage.2, rfl⟩, h.bounded, h.ended⟩
  case h_6 hpc =>
    rw [hpc] at hstage
    exact ⟨⟨hstage.1, hstage.2.1, hstage.2.2, rfl⟩, h.bounded, h.ended⟩
  case h_7 => exact h

theorem staged_monitor {m : Int32} (hm : 0 < m.toInt) {s : State T} (h : Staged m s) :
    Staged m (monitorStep m s) := by
  refine ⟨?_, (monitor_advance hm h.bounded).1, mEnd_monitorStep h.ended⟩
  have hmain : (monitorStep m s).main = s.main :=
    monitorStep_elim (P := fun s' => s'.main = s.main) m s fun _ _ _ => rfl
  have hstage := h.stage
  rw [hmain]
  have hunborn : s.monitor = .absent → monitorStep m s = s := fun habsent => by
    simp only [monitorStep, habsent]
  -- once `m_end` is set, the monitor is done
  have hstill : s.mEnd = true → monitorStep m s = s := fun hend => by
    simp only [monitorStep, h.ended.mp hend]
  cases hpc : s.main <;> rw [hpc] at hstage
  case spawnService => rw [hunborn hstage]; exact hstage
  case spawnMonitor => rw [hunborn hstage]; exact hstage
  case wait => exact monitorStep_ne_absent hstage
  case stopTimer => rw [hstill hstage]; exact hstage
  case disable => rw [hstill hstage.1]; exact hstage
  case delete => rw [hstill hstage.1]; exact hstage
  case returned => rw [hstill hstage.1]; exact hstage

theorem staged_step {m : Int32} (hm : 0 < m.toInt) (a : Action) (s : State T) (h : Staged m s) :
    Staged m (step m a s) := by
  cases a with
  | tick =>
    exact tickStep_elim s h (fun _ _ => h.congr rfl rfl rfl rfl rfl id)
      (fun _ _ _ => h.congr rfl rfl rfl rfl rfl id) fun _ => h.congr rfl rfl rfl rfl rfl id
  | enter => exact enterStep_elim s h fun _ _ _ => h.congr rfl rfl rfl rfl rfl id
  | isr =>
    simp only [step, isrStep]
    split
    case h_1 => exact h
    all_goals exact h.congr rfl rfl rfl rfl rfl id
  | service =>
    simp only [step, serviceStep]
    split
    case h_1 => exact h
    case h_6 => exact h
    all_goals
      rename_i hpc
      have hnot : s.service ≠ .gone := by rw [hpc]; exact fun hn => by cases hn
      (try split) <;> first
        | exact h
        | exact h.congr rfl rfl rfl rfl rfl fun hgone => absurd hgone hnot
  | monitor => exact staged_monitor hm h
  | main => exact staged_main h

/-! ### What is left -/

theorem main_others (m : Int32) {a : Action} (h : a ≠ .main) (s : State T) :
    (step m a s).main = s.main := by
  cases a with
  | tick =>
    exact tickStep_elim (P := fun s' => s'.main = s.main) s rfl (fun _ _ => rfl)
      (fun _ _ _ => rfl) fun _ => rfl
  | enter => exact enterStep_elim (P := fun s' => s'.main = s.main) s rfl fun _ _ _ => rfl
  | isr =>
    simp only [step, isrStep]
    split <;> rfl
  | service =>
    simp only [step, serviceStep]
    split <;> (try split) <;> rfl
  | monitor =>
    exact monitorStep_elim (P := fun s' => s'.main = s.main) m s fun _ _ _ => rfl
  | main => exact absurd rfl h

/-- `CreateTasks` goes on, unless it waits. -/
theorem main_advance {s : State T} (h : s.main = .wait → s.mEnd = true) :
    (mainStep s).main.left = s.main.left - 1 := by
  unfold mainStep
  split
  case h_3 hpc => rw [if_pos (h hpc), hpc]; rfl
  all_goals
    rename_i hpc
    rw [hpc]
    rfl

theorem main_left (m : Int32) (a : Action) (s : State T) :
    (step m a s).main.left ≤ s.main.left := by
  by_cases ha : a = .main
  · subst ha
    by_cases hwait : s.main = .wait ∧ s.mEnd = false
    · have hstill : step m .main s = s := by
        simp only [step, mainStep, hwait.1, hwait.2, Bool.false_eq_true, if_false]
      rw [hstill]
    · have hgo : s.main = .wait → s.mEnd = true := fun hm =>
        Bool.of_not_eq_false fun hf => hwait ⟨hm, hf⟩
      have := main_advance hgo
      change (mainStep s).main.left ≤ _
      omega
  · rw [main_others m ha]

/-- Once the monitor is there, nobody else moves it. -/
theorem monitor_others (m : Int32) {a : Action} (h : a ≠ .monitor) {s : State T}
    (hspawned : s.main.left ≤ 4) : (step m a s).monitor = s.monitor := by
  cases a with
  | tick =>
    exact tickStep_elim (P := fun s' => s'.monitor = s.monitor) s rfl (fun _ _ => rfl)
      (fun _ _ _ => rfl) fun _ => rfl
  | enter => exact enterStep_elim (P := fun s' => s'.monitor = s.monitor) s rfl fun _ _ _ => rfl
  | isr =>
    simp only [step, isrStep]
    split <;> rfl
  | service =>
    simp only [step, serviceStep]
    split <;> (try split) <;> rfl
  | monitor => exact absurd rfl h
  | main =>
    simp only [step, mainStep]
    split
    case h_2 hpc =>
      rw [hpc] at hspawned
      exact absurd hspawned (Nat.not_succ_le_self 4)
    all_goals (try split) <;> rfl

theorem isr_advance (s : State T) : (isrStep s).isr.left = s.isr.left - 1 := by
  unfold isrStep
  split <;> rename_i hpc <;> rw [hpc] <;> rfl

/-- With the interrupt disabled, the handler only comes to its end. -/
theorem isr_left (m : Int32) (a : Action) {s : State T} (h : s.intEnabled = false) :
    (step m a s).isr.left ≤ s.isr.left := by
  cases a with
  | tick =>
    exact Nat.le_of_eq (congrArg IsrPc.left
      (tickStep_elim (P := fun s' => s'.isr = s.isr) s rfl (fun _ _ => rfl) (fun _ _ _ => rfl)
        fun _ => rfl))
  | enter =>
    have hstill : enterStep s = s := by
      unfold enterStep
      split
      · rw [if_neg (by rw [h]; exact Bool.false_ne_true)]
      · rfl
    simp only [step, hstill]
    exact Nat.le_refl _
  | isr =>
    have := isr_advance s
    change (isrStep s).isr.left ≤ _
    omega
  | service =>
    simp only [step, serviceStep]
    split <;> (try split) <;> exact Nat.le_refl _
  | monitor =>
    exact Nat.le_of_eq (congrArg IsrPc.left
      (monitorStep_elim (P := fun s' => s'.isr = s.isr) m s fun _ _ _ => rfl))
  | main =>
    exact Nat.le_of_eq (congrArg IsrPc.left
      (mainStep_elim (P := fun s' => s'.isr = s.isr) s rfl (fun _ => rfl) (fun _ _ _ _ _ => rfl)
        fun _ => rfl))

/-! ### Runs -/

/-- Nothing can happen any more. -/
theorem step_final (m : Int32) (a : Action) {s : State T} (h : Staged m s)
    (hmain : s.main = .returned) (hisr : s.isr = .idle) : step m a s = s := by
  have hstage := h.stage
  rw [hmain] at hstage
  obtain ⟨hend, hcounting, henabled, hservice⟩ := hstage
  have hmonitor := h.ended.mp hend
  cases a with
  | tick => simp only [step, tickStep, hcounting, Bool.false_eq_true, if_false]
  | enter =>
    simp only [step, enterStep, hisr, henabled, Bool.false_eq_true, if_false]
    split <;> rfl
  | isr => simp only [step, isrStep, hisr]
  | service => simp only [step, serviceStep, hservice]
  | monitor => simp only [step, monitorStep, hmonitor]
  | main => simp only [step, mainStep, hmain]

theorem run_final (m : Int32) {s : State T} (h : Staged m s) (hmain : s.main = .returned)
    (hisr : s.isr = .idle) (acts : List Action) : run m s acts = s := by
  induction acts with
  | nil => rfl
  | cons a rest ih =>
    have hstep := step_final m a h hmain hisr
    change run m (step m a s) rest = s
    rw [hstep]
    exact ih

/-- A state that the stages lead to, after so much of `CreateTasks`. -/
structure Through (m : Int32) (left : Nat) (s : State T) : Prop where
  staged : Staged m s
  left : s.main.left ≤ left

section
variable {m : Int32}

theorem through_step (hm : 0 < m.toInt) (left : Nat) (a : Action) (s : State T)
    (h : Through m left s) : Through m left (step m a s) :=
  ⟨staged_step hm a s h.staged, Nat.le_trans (main_left m a s) h.left⟩

theorem through_run (hm : 0 < m.toInt) {left : Nat} {s : State T} (h : Through m left s)
    (acts : List Action) : Through m left (run m s acts) :=
  Interleaving.run_invariant (through_step hm left) h acts

/-- The tasks are spawned. -/
theorem run_spawn (hm : 0 < m.toInt) {s : State T} (h : Through m 6 s) {acts : List Action}
    (hacts : 2 ≤ acts.count .main) : Through m 4 (run m s acts) := by
  have hrun := Interleaving.run_countdown (I := Through m 6)
    (f := fun s : State T => s.main.left - 4) (p := fun a => a == .main) (through_step hm 6)
    (fun a s _ => Nat.sub_le_sub_right (main_left m a s) 4) (fun a s hs ha => ?_) h acts
  · refine ⟨(through_run hm h acts).staged, ?_⟩
    have hleft := h.left
    change 2 ≤ acts.countP (fun a => a == .main) at hacts
    change (Interleaving.run (step m) s acts).main.left ≤ 4
    omega
  · have hmain : a = .main := eq_of_beq ha
    subst hmain
    by_cases hwait : s.main = .wait
    · have hle := main_left m .main s
      have hfour : MainPc.wait.left = 4 := rfl
      rw [hwait, hfour] at hle
      rw [hwait, hfour]
      omega
    · have := main_advance (s := s) fun hw => absurd hw hwait
      change (mainStep s).main.left - 4 ≤ _
      omega

theorem numbersLeft_le (row : Row) (j : Fin timeMapSize) : numbersLeft row j ≤ 3 * timeMapSize :=
  Nat.sub_le _ _

/-- All that the monitor ever has before it. -/
theorem left_le {pc : MonitorPc} (hm : 0 < m.toInt) (h : Bounded m pc) :
    pc.left m ≤ 4 + blockLength * m.toInt.toNat := by
  have hlen : blockLength = 123 := rfl
  have hnumbers : 3 * timeMapSize = 60 := rfl
  have hzero : (0 : Int32).toInt = 0 := rfl
  have hblocks : ∀ i : Int32, 0 ≤ i.toInt → blocksLeft m i ≤ m.toInt.toNat := fun i hi => by
    simp only [blocksLeft]
    omega
  have hlater : ∀ i : Int32, 0 ≤ i.toInt → i.toInt < m.toInt →
      blockLength * (blocksLeft m i - 1) + 123 ≤ blockLength * m.toInt.toNat := fun i hi hlt => by
    simp only [blocksLeft, hlen]
    omega
  cases pc with
  | test i =>
    have := Nat.mul_le_mul_left blockLength (hblocks i h.1)
    simp only [MonitorPc.left]
    omega
  | delay i =>
    have := Nat.mul_le_mul_left blockLength (hblocks i h.1)
    simp only [MonitorPc.left]
    omega
  | number i row j =>
    have := hlater i h.1 h.2
    have := numbersLeft_le row j
    simp only [MonitorPc.left]
    omega
  | separator i row j =>
    have := hlater i h.1 h.2
    have := numbersLeft_le row j
    simp only [MonitorPc.left]
    omega
  | increment i =>
    have := hlater i h.1 h.2
    simp only [MonitorPc.left]
    omega
  | started =>
    have := Nat.mul_le_mul_left blockLength (hblocks 0 (Int.le_refl _))
    simp only [MonitorPc.left]
    omega
  | _ => simp only [MonitorPc.left]; omega

theorem Through.spawned {s : State T} (h : Through m 4 s) : s.monitor ≠ .absent := by
  intro habsent
  have hstage := h.staged.stage
  have hended := h.staged.ended
  have hleft := h.left
  rw [habsent] at hended
  have hnot : s.mEnd ≠ true := fun hend => by cases hended.mp hend
  cases hpc : s.main <;> rw [hpc] at hstage hleft
  case spawnService => exact absurd (Nat.le_of_succ_le hleft) (Nat.not_succ_le_self 4)
  case spawnMonitor => exact absurd hleft (Nat.not_succ_le_self 4)
  case wait => exact hstage habsent
  case stopTimer => exact hnot hstage
  all_goals exact hnot hstage.1

/-- A monitor with nothing left to do is done. -/
theorem done_of_left {pc : MonitorPc} (h : pc.left m = 0) (hspawned : pc ≠ .absent)
    (hbounded : Bounded m pc) : pc = .done := by
  cases pc
  case absent => exact absurd rfl hspawned
  case undefined => exact hbounded.elim
  case done => rfl
  all_goals
    simp only [MonitorPc.left] at h
    omega

/-- The monitor gets through. -/
theorem run_monitor (hm : 0 < m.toInt) {s : State T} (h : Through m 4 s) {acts : List Action}
    (hacts : s.monitor.left m ≤ acts.count .monitor) : (run m s acts).mEnd = true := by
  have hrun := Interleaving.run_countdown (I := Through m 4)
    (f := fun s : State T => s.monitor.left m) (p := fun a => a == .monitor) (through_step hm 4)
    (fun a s hs => ?_) (fun a s hs ha => ?_) h acts
  · have hthrough := through_run hm h acts
    change s.monitor.left m ≤ acts.countP (fun a => a == .monitor) at hacts
    have hzero : (run m s acts).monitor.left m = 0 := by
      change (Interleaving.run (step m) s acts).monitor.left m = 0
      omega
    exact hthrough.staged.ended.mpr
      (done_of_left hzero hthrough.spawned hthrough.staged.bounded)
  · by_cases ha : a = .monitor
    · subst ha
      have := (monitor_advance hm hs.staged.bounded).2
      change (monitorStep m s).monitor.left m ≤ _
      omega
    · rw [monitor_others m ha hs.left]
  · have hmonitor : a = .monitor := eq_of_beq ha
    subst hmonitor
    exact Nat.le_of_eq (monitor_advance hm hs.staged.bounded).2

theorem mEnd_step (a : Action) {s : State T} (h : Staged m s) (hend : s.mEnd = true) :
    (step m a s).mEnd = true := by
  cases a with
  | tick =>
    exact tickStep_elim (P := fun s' => s'.mEnd = true) s hend (fun _ _ => hend)
      (fun _ _ _ => hend) fun _ => hend
  | enter => exact enterStep_elim (P := fun s' => s'.mEnd = true) s hend fun _ _ _ => hend
  | isr =>
    simp only [step, isrStep]
    split <;> exact hend
  | service =>
    simp only [step, serviceStep]
    split <;> (try split) <;> exact hend
  | monitor =>
    have hstill : monitorStep m s = s := by simp only [monitorStep, h.ended.mp hend]
    simp only [step, hstill, hend]
  | main =>
    exact mainStep_elim (P := fun s' => s'.mEnd = true) s hend (fun _ => hend)
      (fun _ _ _ _ _ => hend) fun _ => hend

/-- `CreateTasks` takes everything down. -/
theorem run_main (hm : 0 < m.toInt) {s : State T} (h : Through m 4 s) (hend : s.mEnd = true)
    {acts : List Action} (hacts : 4 ≤ acts.count .main) : Through m 0 (run m s acts) := by
  have hrun := Interleaving.run_countdown
    (I := fun s : State T => Through m 4 s ∧ s.mEnd = true) (f := fun s : State T => s.main.left)
    (p := fun a => a == .main)
    (fun a s hs => ⟨through_step hm 4 a s hs.1, mEnd_step a hs.1.staged hs.2⟩)
    (fun a s _ => main_left m a s) (fun a s hs ha => ?_) ⟨h, hend⟩ acts
  · refine ⟨(through_run hm h acts).staged, ?_⟩
    have hleft := h.left
    change 4 ≤ acts.countP (fun a => a == .main) at hacts
    change (Interleaving.run (step m) s acts).main.left ≤ 0
    omega
  · have hmain : a = .main := eq_of_beq ha
    subst hmain
    exact Nat.le_of_eq (main_advance fun _ => hs.2)

theorem Through.returned {s : State T} (h : Through m 0 s) : s.main = .returned := by
  have hleft := h.left
  cases hpc : s.main with
  | returned => rfl
  | _ =>
    rw [hpc] at hleft
    exact absurd hleft (Nat.not_succ_le_zero _)

/-- A handler that is still running comes to its end. -/
theorem run_isr (hm : 0 < m.toInt) {s : State T} (h : Through m 0 s) {acts : List Action}
    (hacts : 4 ≤ acts.count .isr) : (run m s acts).isr = .idle := by
  have hrun := Interleaving.run_countdown (I := Through m 0)
    (f := fun s : State T => s.isr.left) (p := fun a => a == .isr) (through_step hm 0)
    (fun a s hs => ?_) (fun a s hs ha => ?_) h acts
  · have hfour : s.isr.left ≤ 4 := by cases s.isr <;> exact Nat.le_of_ble_eq_true rfl
    change 4 ≤ acts.countP (fun a => a == .isr) at hacts
    have hzero : (run m s acts).isr.left = 0 := by
      change (Interleaving.run (step m) s acts).isr.left = 0
      omega
    cases hpc : (run m s acts).isr with
    | idle => rfl
    | _ =>
      rw [hpc] at hzero
      cases hzero
  · have hstage := hs.staged.stage
    rw [hs.returned] at hstage
    exact isr_left m a hstage.2.2.1
  · have hisr : a = .isr := eq_of_beq ha
    subst hisr
    exact Nat.le_of_eq (isr_advance s)

/-- **A measurement comes to an end, and leaves nothing running**: for every positive number of
measurements, when in any order with the others `CreateTasks` has had its two first statements,
the monitor then 123 for each block and four more, `CreateTasks` then its last four and a handler
its four, then `m_end` is set, `CreateTasks` has returned, and no action changes anything. -/
theorem takedown (hm : 0 < m.toInt) (b : Bench T)
    {spawning measuring stopping settling : List Action} (hspawn : 2 ≤ spawning.count .main)
    (hmonitor : 4 + blockLength * m.toInt.toNat ≤ measuring.count .monitor)
    (hstop : 4 ≤ stopping.count .main) (hsettle : 4 ≤ settling.count .isr) (more : List Action) :
    (run m (initial b) (spawning ++ measuring ++ stopping ++ settling)).main = .returned ∧
    (run m (initial b) (spawning ++ measuring ++ stopping ++ settling)).mEnd = true ∧
    run m (initial b) (spawning ++ measuring ++ stopping ++ settling ++ more) =
      run m (initial b) (spawning ++ measuring ++ stopping ++ settling) := by
  have hspawned := run_spawn hm ⟨staged_initial m b, Nat.le_refl _⟩ hspawn
  have hleft := Nat.le_trans (left_le hm hspawned.staged.bounded) hmonitor
  have hend := run_monitor hm hspawned hleft
  have hstopped := run_main hm (through_run hm hspawned measuring) hend hstop
  have hidle := run_isr hm hstopped hsettle
  have hsettled := through_run hm hstopped settling
  have hsplit : run m (initial b) (spawning ++ measuring ++ stopping ++ settling) =
      run m (run m (run m (run m (initial b) spawning) measuring) stopping) settling := by
    simp only [run, Interleaving.run_append]
  have hmore : run m (initial b) (spawning ++ measuring ++ stopping ++ settling ++ more) =
      run m (run m (initial b) (spawning ++ measuring ++ stopping ++ settling)) more :=
    Interleaving.run_append _ _ _ _
  rw [hmore, hsplit]
  have hreturned := hsettled.returned
  have hstage := hsettled.staged.stage
  rw [hreturned] at hstage
  exact ⟨hreturned, hstage.1, run_final m hsettled.staged hreturned hidle more⟩

/-- One block, and then a count of the timer. -/
theorem takedown_oneBlock :
    run 1 (initial (fresh timMax)) ([.main, .tick, .main] ++ List.replicate 130 .monitor ++
      List.replicate 4 .main ++ List.replicate 4 .isr ++ [.tick, .enter, .service]) =
    run 1 (initial (fresh timMax)) ([.main, .tick, .main] ++ List.replicate 130 .monitor ++
      List.replicate 4 .main ++ List.replicate 4 .isr) :=
  (takedown (by decide) (fresh timMax) (by decide) (by decide +kernel) (by decide) (by decide)
    [.tick, .enter, .service]).2.2

end

end RealTimeLabs.Response
