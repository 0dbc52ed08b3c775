import RealTimeLabs.Motor.Tasks
import RealTimeLabs.Motor.Pwm

/-! The duty register and its mirror.

Two actors write `PWM_DUTY_CR` and then `pwm_duty`. `set_motor_dutycycle` refuses a
duty out of range without a word while its callers store the duty anyway, so the two
agree only because `get_pwm` never leaves the range, and because the handler is kept
out between the motor task's two writes. -/
namespace RealTimeLabs.Motor
open Interleaving

/-- The handler stands between `set_motor_dutycycle` and the store of `pwm_duty`. -/
def IsrPc.storing : IsrPc → Bool
  | .store _ _ _ => true
  | _ => false

/-- The motor task stands between `set_motor_dutycycle` and the store of `pwm_duty`. -/
def TaskPc.storing : TaskPc → Bool
  | .store _ => true
  | _ => false

/-- `motor_init` has not yet cleared the register. -/
def TaskPc.registerUnset : TaskPc → Bool
  | .initReset | .initDuty => true
  | _ => false

/-- The duty asked for at a distance: none at distance zero, otherwise of the distance's
sign and from `MIN_PWM_DUTY` up to a hundred percent. -/
structure DutyFor (distance : Int32) (pwm : Int) : Prop where
  none : distance = 0 → pwm = 0
  sign : (0 < distance → 0 < pwm) ∧ (distance < 0 → pwm < 0)
  size : distance ≠ 0 → minPwmDuty.toInt ≤ |pwm| ∧ |pwm| ≤ 100

theorem getPwm_dutyFor (distance : Int32) : DutyFor distance (getPwm distance).toInt := by
  obtain ⟨hzero, hpos, hneg⟩ := duty_spec distance.toInt
  have hmin : minPwmDuty.toInt = 3 := rfl
  rw [getPwm_toInt]
  refine ⟨fun h => hzero (by rw [h]; rfl), ⟨fun h => ?_, fun h => ?_⟩, fun h => ?_⟩
  · have := hpos (Int32.lt_iff_toInt_lt.mp h)
    omega
  · have := hneg (Int32.lt_iff_toInt_lt.mp h)
    omega
  · have hne : distance.toInt ≠ 0 := fun he => h (Int32.toInt_inj.mp he)
    rw [hmin]
    rcases lt_or_gt_of_ne hne with hlt | hgt
    · have := hneg hlt
      rw [abs_of_neg (by omega)]
      omega
    · have := hpos hgt
      rw [abs_of_pos (by omega)]
      omega

theorem Update.accepted (u : Update) : ¬ (u.duty < -100 ∨ u.duty > 100) := by
  have h := getPwm_range u.distance
  rw [← u.computed] at h
  simp only [Int8.lt_iff_toInt_lt, gt_iff_lt]
  have h1 : (-100 : Int8).toInt = -100 := rfl
  have h2 : (100 : Int8).toInt = 100 := rfl
  omega

theorem Update.encodes (u : Update) (cr : BitVec 32) :
    Encodes (setMotorDutycycle u.duty cr) u.duty.toInt :=
  setMotorDutycycle_encodes u.duty cr (by rw [u.computed]; exact getPwm_range u.distance)

/-- Register and mirror agree: both zero before the first update, and after it both the
duty of the distance that the last update was computed from. -/
def Agree (d : Driver) : Option Int32 → Prop
  | none => d.pwmDutyCr = 0 ∧ d.shared.pwmDuty = 0
  | some distance => Encodes d.pwmDutyCr d.shared.pwmDuty.toInt ∧
      DutyFor distance d.shared.pwmDuty.toInt

structure Mirrored (s : State) : Prop where
  exclusive : Exclusive s
  unset : s.task.registerUnset = true → s.driver.shared.pwmDuty = 0 ∧ s.updated = none
  handler : ∀ a b u, s.isr = .store a b u → Encodes s.driver.pwmDutyCr u.duty.toInt
  task : ∀ u, s.task = .store u → Encodes s.driver.pwmDutyCr u.duty.toInt
  agree : s.task.registerUnset = false → s.isr.storing = false → s.task.storing = false →
    Agree s.driver s.updated

/-- Storing the duty of an update whose register is written completes the mirror. -/
theorem agree_stored (d : Driver) (u : Update) (h : Encodes d.pwmDutyCr u.duty.toInt) :
    Agree (d.storeDuty u.duty) (some u.distance) := by
  have hmirror : (d.storeDuty u.duty).shared.pwmDuty.toInt = u.duty.toInt :=
    Int8.toInt_toInt32 u.duty
  refine ⟨?_, ?_⟩
  · rw [hmirror]
    exact h
  · rw [hmirror, u.computed]
    exact getPwm_dutyFor u.distance

theorem mirrored_initial (setDesired : Bool) (shaft : Int) (cr status : BitVec 32) :
    Mirrored (initial setDesired shaft cr status) :=
  ⟨exclusive_initial setDesired shaft cr status, fun _ => ⟨rfl, rfl⟩, fun _ _ _ h => (by cases h),
    fun _ h => (by cases h), fun h => by cases h⟩

/-! ### Steps -/

theorem IsrPc.not_store {pc : IsrPc} (h : pc.storing = false) (a b : UInt8) (u : Update) :
    pc ≠ .store a b u := by
  intro rfl
  cases h

theorem TaskPc.not_store {pc : TaskPc} (h : pc.storing = false) (u : Update) : pc ≠ .store u := by
  intro rfl
  cases h

/-- A step between two states outside the stores that touches neither variable. -/
theorem Mirrored.carry {s s' : State} (h : Mirrored s) (hex : Exclusive s')
    (hcr : s'.driver.pwmDutyCr = s.driver.pwmDutyCr)
    (hpwm : s'.driver.shared.pwmDuty = s.driver.shared.pwmDuty) (hup : s'.updated = s.updated)
    (hunset : s'.task.registerUnset = s.task.registerUnset) (hisr : s.isr.storing = false)
    (hisr' : s'.isr.storing = false) (htask : s.task.storing = false)
    (htask' : s'.task.storing = false) : Mirrored s' := by
  refine ⟨hex, fun hu => ?_, fun a b u hs => absurd hs (IsrPc.not_store hisr' a b u),
    fun u hs => absurd hs (TaskPc.not_store htask' u), fun hu _ _ => ?_⟩
  · rw [hpwm, hup]
    exact h.unset (by rw [← hunset]; exact hu)
  · have hagree := h.agree (by rw [← hunset]; exact hu) hisr htask
    rw [hup]
    cases hd : s.updated with
    | none =>
      rw [hd] at hagree
      exact ⟨by rw [hcr]; exact hagree.1, by rw [hpwm]; exact hagree.2⟩
    | some distance =>
      rw [hd] at hagree
      exact ⟨by rw [hcr, hpwm]; exact hagree.1, by rw [hpwm]; exact hagree.2⟩

/-- Under a handler the motor task is neither storing nor before the reset. -/
theorem Exclusive.task_of_handler {s : State} (h : Exclusive s) (hi : s.isr ≠ .idle) :
    s.task.registerUnset = false ∧ s.task.storing = false := by
  cases hm : s.task.masked with
  | true => exact absurd (h.idle hm) hi
  | false => cases ht : s.task <;> rw [ht] at hm <;> first | exact ⟨rfl, rfl⟩ | cases hm

theorem mirrored_isrStep {s : State} (h : Mirrored s) : Mirrored (isrStep s) := by
  have hex := exclusive_isrStep h.exclusive
  cases hpc : s.isr with
  | idle =>
    simp only [isrStep, hpc]
    exact h
  | set a b u =>
    obtain ⟨hset, hstore⟩ := h.exclusive.task_of_handler (by rw [hpc]; exact IsrPc.noConfusion)
    simp only [isrStep, hpc] at hex ⊢
    refine ⟨hex, fun hu => ?_, fun a' b' u' hs => ?_, fun v hs => absurd hs
      (TaskPc.not_store hstore v), fun _ hs => by cases hs⟩
    · rw [show s.task.registerUnset = true from hu] at hset
      cases hset
    · cases hs
      exact u.encodes _
  | store a b u =>
    obtain ⟨hset, hstore⟩ := h.exclusive.task_of_handler (by rw [hpc]; exact IsrPc.noConfusion)
    have hwritten := h.handler a b u hpc
    simp only [isrStep, hpc] at hex ⊢
    refine ⟨hex, fun hu => ?_, fun a' b' u' hs => (by cases hs), fun v hs => absurd hs
      (TaskPc.not_store hstore v), fun _ _ _ => agree_stored s.driver u hwritten⟩
    rw [show s.task.registerUnset = true from hu] at hset
    cases hset
  | duty a b =>
    obtain ⟨hset, hstore⟩ := h.exclusive.task_of_handler (by rw [hpc]; exact IsrPc.noConfusion)
    simp only [isrStep, hpc] at hex ⊢
    by_cases hmode : s.driver.setPositionToDesired = true
    · rw [if_pos hmode] at hex ⊢
      exact h.carry hex rfl rfl rfl rfl (by rw [hpc]; rfl) rfl hstore hstore
    · rw [if_neg hmode] at hex ⊢
      exact h.carry hex rfl rfl rfl rfl (by rw [hpc]; rfl) rfl hstore hstore
  | _ =>
    obtain ⟨hset, hstore⟩ := h.exclusive.task_of_handler (by rw [hpc]; exact IsrPc.noConfusion)
    simp only [isrStep, hpc] at hex ⊢
    exact h.carry hex rfl rfl rfl rfl (by rw [hpc]; rfl) rfl hstore hstore

theorem mirrored_taskStep {s : State} (h : Mirrored s) (hi : s.isr = .idle) :
    Mirrored (taskStep s) := by
  have hex := exclusive_taskStep h.exclusive hi
  have hisr : s.isr.storing = false := by rw [hi]; rfl
  cases hpc : s.task with
  | initDuty =>
    -- the register becomes zero beside a mirror that still is
    obtain ⟨hpwm, hup⟩ := h.unset (by rw [hpc]; rfl)
    simp only [taskStep, hpc] at hex ⊢
    refine ⟨hex, fun hu => (by cases hu), fun a b u hs => absurd hs (IsrPc.not_store hisr a b u),
      fun u hs => (by cases hs), fun _ _ _ => ?_⟩
    simp only [hup]
    exact ⟨rfl, hpwm⟩
  | set u =>
    simp only [taskStep, hpc] at hex ⊢
    refine ⟨hex, fun hu => (by cases hu), fun a b v hs => absurd hs (IsrPc.not_store hisr a b v),
      fun v hs => ?_, fun _ _ hs => by cases hs⟩
    cases hs
    exact u.encodes _
  | store u =>
    have hwritten := h.task u hpc
    simp only [taskStep, hpc] at hex ⊢
    exact ⟨hex, fun hu => (by cases hu), fun a b v hs => absurd hs (IsrPc.not_store hisr a b v),
      fun v hs => (by cases hs), fun _ _ _ => agree_stored s.driver u hwritten⟩
  | take =>
    simp only [taskStep, hpc] at hex ⊢
    by_cases hsem : 0 < s.semMotorPwmChange
    · rw [if_pos hsem] at hex ⊢
      exact h.carry hex rfl rfl rfl (by rw [hpc]; rfl) hisr hisr (by rw [hpc]; rfl) rfl
    · rw [if_neg hsem]
      exact h
  | compute =>
    simp only [taskStep, hpc] at hex ⊢
    by_cases hmode : s.driver.setPositionToDesired = true
    · rw [if_pos hmode] at hex ⊢
      exact h.carry hex rfl rfl rfl (by rw [hpc]; rfl) hisr hisr (by rw [hpc]; rfl) rfl
    · rw [if_neg hmode] at hex ⊢
      exact h.carry hex rfl rfl rfl (by rw [hpc]; rfl) hisr hisr (by rw [hpc]; rfl) rfl
  | _ =>
    simp only [taskStep, hpc] at hex ⊢
    exact h.carry hex rfl rfl rfl (by rw [hpc]; rfl) hisr hisr (by rw [hpc]; rfl) rfl

theorem mirrored_step (a : Action) (s : State) (h : Mirrored s) : Mirrored (step a s) := by
  have hex := h.exclusive
  refine step_elim h (fun _ => ⟨⟨hex.disabled, hex.masked⟩, h.unset, h.handler, h.task, h.agree⟩)
    (fun _ hi hon => ⟨exclusive_enter hex hon, h.unset, fun a b u hs => (by cases hs), h.task,
      fun hu _ ht => h.agree hu (by rw [hi]; rfl) ht⟩)
    (fun _ => mirrored_isrStep h) (fun _ hi => mirrored_taskStep h hi)
    (fun _ _ _ => ⟨⟨hex.disabled, hex.masked⟩, h.unset, h.handler, h.task, h.agree⟩)
    (fun _ _ => ⟨⟨hex.disabled, hex.masked⟩, h.unset, h.handler, h.task, h.agree⟩)

theorem mirrored_run (setDesired : Bool) (shaft : Int) (cr status : BitVec 32)
    (acts : List Action) : Mirrored (run (initial setDesired shaft cr status) acts) :=
  run_invariant mirrored_step (mirrored_initial setDesired shaft cr status) acts

/-- No update stands between `set_motor_dutycycle` and the store of `pwm_duty`. -/
def Settled (s : State) : Prop :=
  s.task.registerUnset = false ∧ s.isr.storing = false ∧ s.task.storing = false

/-- **Register and published duty never drift apart**: from the reset of the register on,
in every settled state of every run they agree, and `set_motor_dutycycle` is called, by
either actor, with a duty that it accepts. -/
theorem register_mirrors_duty (setDesired : Bool) (shaft : Int) (cr status : BitVec 32)
    (acts : List Action) :
    let s := run (initial setDesired shaft cr status) acts
    (Settled s → Agree s.driver s.updated) ∧
      (∀ a b u, s.isr = .set a b u → ¬ (u.duty < -100 ∨ u.duty > 100)) ∧
      (∀ u, s.task = .set u → ¬ (u.duty < -100 ∨ u.duty > 100)) ∧
      ∀ distance : Int32, DutyFor distance (getPwm distance).toInt := by
  intro s
  have h : Mirrored s := mirrored_run setDesired shaft cr status acts
  exact ⟨fun hs => h.agree hs.1 hs.2.1 hs.2.2, fun _ _ u _ => u.accepted,
    fun u _ => u.accepted, getPwm_dutyFor⟩

/-- A datagram asks for position 100 and the motor task answers it. -/
def firstUpdate : List Action :=
  List.replicate 5 .task ++ [.receive (some [100, 0, 0, 0]), .give] ++ List.replicate 6 .task

theorem register_mirrors_first_update :
    Agree (run (initial true 0 7 0) firstUpdate).driver
      (run (initial true 0 7 0) firstUpdate).updated :=
  (register_mirrors_duty true 0 7 0 firstUpdate).1 ⟨by decide, by decide, by decide⟩

end RealTimeLabs.Motor
