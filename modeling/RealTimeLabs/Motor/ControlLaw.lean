import RealTimeLabs.Motor.Tasks

/-! The control law at quiescence.

With no request pending, the motor task waiting and no handler running, the published
duty should be that of the present distance. The handler computes and stores its duty
in one go. The motor task computes its duty before it disables the interrupt, so a
handler in between stores a newer duty that the task then overwrites with its own. A
run keeps the law exactly when, whenever the task enables the interrupt again without
a further request, the distance it computed from still asks for the same duty
(`controlLaw_iff_fresh`). -/
namespace RealTimeLabs.Motor
open Interleaving

/-- A request for a new duty is signalled, or about to be. -/
def State.pending (s : State) : Bool := 0 < s.semMotorPwmChange ∨ s.udp = .give

/-- The published duty is that of the present distance. -/
def Law (d : Driver) : Prop := d.shared.pwmDuty = (getPwm d.distance).toInt32

/-- The motor task is blocked in `semTake`, and nobody is about to wake it. -/
def Quiescent (s : State) : Prop := s.task = .take ∧ s.isr = .idle ∧ s.pending = false

def ControlLaw (s : State) : Prop := Quiescent s → Law s.driver

instance (s : State) : Decidable (ControlLaw s) := by
  unfold ControlLaw Quiescent Law
  infer_instance

/-- The task enables the interrupt with a request pending, or with a duty that the
present distance still asks for. -/
def Fresh : Action → State → Prop
  | .task, s => s.isr = .idle → s.pending = false → ∀ u, s.task = .enable u →
      getPwm s.driver.distance = getPwm u.distance
  | _, _ => True

/-! ### The invariant -/

/-- The handler's update is of the present distance. -/
def IsrPc.Current (d : Driver) : IsrPc → Prop
  | .set _ _ u | .store _ _ u => u.distance = d.distance
  | .clear _ _ => Law d
  | _ => True

/-- What the motor task owes while no request is pending. -/
def TaskPc.Current (d : Driver) : TaskPc → Prop
  | .initReset | .initDuty | .initReadA | .initReadB _ | .initEnable =>
    d.shared.position = 0 ∧ d.shared.desiredPosition = 0 ∧ d.shared.pwmDuty = 0
  | .take => Law d
  | _ => True

structure Governed (s : State) : Prop where
  exclusive : Exclusive s
  receiver : s.driver.setPositionToDesired = true
  handler : s.isr.Current s.driver
  task : s.isr = .idle → s.pending = false → s.task.Current s.driver
  stored : ∀ u, s.task = .enable u → s.driver.shared.pwmDuty = u.duty.toInt32

theorem governed_initial (shaft : Int) (cr status : BitVec 32) :
    Governed (initial true shaft cr status) :=
  ⟨exclusive_initial true shaft cr status, rfl, trivial, fun _ _ => ⟨rfl, rfl, rfl⟩,
    fun _ hu => by cases hu⟩

theorem law_of_governed (s : State) (h : Governed s) : ControlLaw s := by
  intro ⟨htake, hidle, hquiet⟩
  have := h.task hidle hquiet
  rwa [htake] at this

/-- A task that a handler can interrupt owes at most the law. -/
theorem TaskPc.current_of_law {t : TaskPc} (h : t.masked = false) {d : Driver} (hlaw : Law d) :
    t.Current d := by
  cases t <;> first | exact hlaw | trivial

theorem Exclusive.unmasked {s : State} (h : Exclusive s) (hi : s.isr ≠ .idle) :
    s.task.masked = false := by
  cases hm : s.task.masked with
  | false => rfl
  | true => exact absurd (h.idle hm) hi

theorem law_zero {d : Driver} (hp : d.shared.position = 0) (hd : d.shared.desiredPosition = 0)
    (hw : d.shared.pwmDuty = 0) : Law d := by
  unfold Law Driver.distance
  rw [hp, hd, hw]
  decide

theorem governed_isrStep {s : State} (h : Governed s) : Governed (isrStep s) := by
  have hex := exclusive_isrStep h.exclusive
  have hrec := h.receiver
  have hfit := h.handler
  cases hpc : s.isr with
  | idle =>
    simp only [isrStep, hpc] at hex ⊢
    exact h
  | duty a b =>
    simp only [isrStep, hpc, hrec, if_true] at hex ⊢
    exact ⟨hex, hrec, rfl, fun hi => (by cases hi), h.stored⟩
  | set a b u =>
    rw [hpc] at hfit
    simp only [isrStep, hpc] at hex ⊢
    exact ⟨hex, hrec, hfit, fun hi => (by cases hi), h.stored⟩
  | store a b u =>
    rw [hpc] at hfit
    have hmask := h.exclusive.unmasked (by rw [hpc]; exact IsrPc.noConfusion)
    simp only [isrStep, hpc] at hex ⊢
    refine ⟨hex, hrec, ?_, fun hi => (by cases hi), fun v hv => ?_⟩
    · -- the duty stored is that of the distance it was computed from, the present one
      show u.duty.toInt32 = (getPwm s.driver.distance).toInt32
      rw [u.computed, hfit]
    · simp only at hv
      rw [hv] at hmask
      cases hmask
  | clear a b =>
    rw [hpc] at hfit
    have hmask := h.exclusive.unmasked (by rw [hpc]; exact IsrPc.noConfusion)
    simp only [isrStep, hpc] at hex ⊢
    exact ⟨hex, hrec, trivial, fun _ _ => TaskPc.current_of_law hmask hfit, h.stored⟩
  | _ =>
    simp only [isrStep, hpc] at hex ⊢
    exact ⟨hex, hrec, trivial, fun hi => (by cases hi), h.stored⟩

theorem governed_taskStep {s : State} (h : Governed s) (hi : s.isr = .idle)
    (hc : Fresh .task s) : Governed (taskStep s) := by
  have hex := exclusive_taskStep h.exclusive hi
  have hrec := h.receiver
  have hfit := h.task hi
  have hhandler (d : Driver) : s.isr.Current d := by rw [hi]; trivial
  cases hpc : s.task with
  | initReset =>
    rw [hpc] at hfit
    simp only [taskStep, hpc] at hex ⊢
    exact ⟨hex, hrec, hhandler _, fun _ hq => ⟨rfl, (hfit hq).2.1, (hfit hq).2.2⟩,
      fun u hu => by cases hu⟩
  | initDuty =>
    rw [hpc] at hfit
    simp only [taskStep, hpc] at hex ⊢
    exact ⟨hex, hrec, hhandler _, fun _ hq => hfit hq, fun u hu => by cases hu⟩
  | initReadA =>
    rw [hpc] at hfit
    simp only [taskStep, hpc] at hex ⊢
    exact ⟨hex, hrec, hhandler _, fun _ hq => hfit hq, fun u hu => by cases hu⟩
  | initReadB srA =>
    rw [hpc] at hfit
    simp only [taskStep, hpc] at hex ⊢
    exact ⟨hex, hrec, hhandler _, fun _ hq => hfit hq, fun u hu => by cases hu⟩
  | initEnable =>
    rw [hpc] at hfit
    simp only [taskStep, hpc] at hex ⊢
    refine ⟨hex, hrec, hhandler _, fun _ hq => ?_, fun u hu => by cases hu⟩
    obtain ⟨hp, hd, hw⟩ := hfit hq
    exact law_zero hp hd hw
  | take =>
    simp only [taskStep, hpc] at hex ⊢
    split
    · rename_i hsem
      rw [if_pos hsem] at hex
      exact ⟨hex, hrec, hhandler _, fun _ _ => trivial, fun u hu => by cases hu⟩
    · exact h
  | compute =>
    simp only [taskStep, hpc, hrec, if_true] at hex ⊢
    exact ⟨hex, hrec, hhandler _, fun _ _ => trivial, fun u hu => by cases hu⟩
  | disable u =>
    simp only [taskStep, hpc] at hex ⊢
    exact ⟨hex, hrec, hhandler _, fun _ _ => trivial, fun u hu => by cases hu⟩
  | set u =>
    simp only [taskStep, hpc] at hex ⊢
    exact ⟨hex, hrec, hhandler _, fun _ _ => trivial, fun u hu => by cases hu⟩
  | store u =>
    simp only [taskStep, hpc] at hex ⊢
    refine ⟨hex, hrec, hhandler _, fun _ _ => trivial, fun v hv => ?_⟩
    cases hv
    rfl
  | enable u =>
    simp only [taskStep, hpc] at hex ⊢
    refine ⟨hex, hrec, hhandler _, fun _ hq => ?_, fun v hv => by cases hv⟩
    show s.driver.shared.pwmDuty = (getPwm s.driver.distance).toInt32
    rw [hc hi hq u hpc, ← u.computed]
    exact h.stored u hpc

theorem governed_step (a : Action) (s : State) (h : Governed s) (hc : Fresh a s) :
    Governed (step a s) := by
  have hex := h.exclusive
  refine step_elim h
    (fun _ => ⟨⟨hex.disabled, hex.masked⟩, h.receiver, h.handler, h.task, h.stored⟩)
    (fun _ _ hon =>
      ⟨exclusive_enter hex hon, h.receiver, trivial, fun hi => (by cases hi), h.stored⟩)
    (fun _ => governed_isrStep h) (fun ha hi => governed_taskStep h hi (ha ▸ hc))
    (fun outcome hi _ => ?_) (fun hi _ => ?_)
  · -- the new set-point is signalled before anything is owed for it
    exact ⟨⟨hex.disabled, hex.masked⟩, h.receiver, by rw [hi]; trivial,
      fun _ hq => by simp [State.pending] at hq, h.stored⟩
  · exact ⟨⟨hex.disabled, hex.masked⟩, h.receiver, h.handler,
      fun _ hq => by simp [State.pending] at hq, h.stored⟩

theorem toInt32_injective {x y : Int8} (h : x.toInt32 = y.toInt32) : x = y := by
  have hxy := congrArg Int32.toInt h
  rw [Int8.toInt_toInt32, Int8.toInt_toInt32] at hxy
  exact Int8.toInt_inj.mp hxy

/-- A stale duty that nobody is about to replace is in force at quiescence. -/
theorem lawless_of_stale (a : Action) (s : State) (h : Governed s) (hc : ¬ Fresh a s) :
    ¬ ControlLaw (step a s) := by
  cases a with
  | task =>
    simp only [Fresh, not_forall] at hc
    obtain ⟨hi, hq, u, hpc, hstale⟩ := hc
    intro hlaw
    simp only [step, if_pos hi, taskStep, hpc] at hlaw
    have hnow : s.driver.shared.pwmDuty = (getPwm s.driver.distance).toInt32 := hlaw ⟨rfl, hi, hq⟩
    rw [h.stored u hpc, u.computed] at hnow
    exact hstale (toInt32_injective hnow.symm)
  | _ => exact absurd trivial hc

/-- A run without stale duties keeps the law. -/
theorem throughout_of_fresh (shaft : Int) (cr status : BitVec 32) {acts : List Action}
    (h : Along step Fresh (initial true shaft cr status) acts) :
    Throughout step ControlLaw (initial true shaft cr status) acts :=
  (throughout_of_along governed_step (governed_initial shaft cr status) h).imp law_of_governed

/-- **The control law holds at every quiescent state of a run exactly when the motor
task never leaves a stale duty behind**: each time it enables the interrupt with no
further request, the present distance and the one it computed from give one duty. -/
theorem controlLaw_iff_fresh (shaft : Int) (cr status : BitVec 32) (acts : List Action) :
    Throughout step ControlLaw (initial true shaft cr status) acts ↔
      Along step Fresh (initial true shaft cr status) acts :=
  throughout_iff_along governed_step law_of_governed lawless_of_stale
    (governed_initial shaft cr status) acts

/-! ### A clear window -/

/-- No handler starts between the task's computation and its `intDisable`. -/
def WindowClear : Action → State → Prop
  | .enter, s => ∀ u, s.task ≠ .disable u
  | _, _ => True

/-- The task has computed a duty, and not yet disabled the interrupt. -/
def TaskPc.window : TaskPc → Bool
  | .disable _ => true
  | _ => false

theorem windowClear_enter_iff (s : State) : WindowClear .enter s ↔ s.task.window = false := by
  refine ⟨fun h => ?_, fun h u hu => ?_⟩
  · cases hpc : s.task with
    | disable u => exact absurd hpc (h u)
    | _ => rfl
  · rw [hu] at h
    cases h

instance : (a : Action) → (s : State) → Decidable (WindowClear a s)
  | .enter, s => decidable_of_iff _ (windowClear_enter_iff s).symm
  | .shaft _, _ | .isr, _ | .task, _ | .receive _, _ | .give, _ => .isTrue trivial

/-- The update that the motor task has computed and not yet finished. -/
def TaskPc.update : TaskPc → Option Update
  | .disable u | .set u | .store u | .enable u => some u
  | _ => none

/-- With the window clear, an update under way is of the present distance, unless a request
for another one is pending. -/
structure Undisturbed (s : State) : Prop where
  exclusive : Exclusive s
  handler : s.isr ≠ .idle → s.task.update = none
  current : ∀ u, s.task.update = some u → s.pending = false → u.distance = s.driver.distance

theorem undisturbed_initial (shaft : Int) (cr status : BitVec 32) :
    Undisturbed (initial true shaft cr status) :=
  ⟨exclusive_initial true shaft cr status, fun _ => rfl, fun _ hu => by cases hu⟩

theorem undisturbed_taskStep {s : State} (h : Undisturbed s) (hi : s.isr = .idle) :
    Undisturbed (taskStep s) := by
  refine ⟨exclusive_taskStep h.exclusive hi, fun hne => absurd (by simpa using hi) hne, ?_⟩
  intro u hu hq
  have hcur := h.current
  cases hpc : s.task with
  | compute =>
    simp only [taskStep, hpc] at hu ⊢
    split at hu
    · rename_i hmode
      cases hu
      rw [if_pos hmode]
      rfl
    · cases hu
  | take =>
    simp only [taskStep, hpc] at hu
    split at hu
    · cases hu
    · rw [hpc] at hu
      cases hu
  | disable v | set v | store v =>
    simp only [taskStep, hpc] at hu hq ⊢
    exact hcur u (by rw [hpc]; exact hu) hq
  | _ =>
    simp only [taskStep, hpc] at hu
    cases hu

theorem undisturbed_step (a : Action) (s : State) (h : Undisturbed s) (hc : WindowClear a s) :
    Undisturbed (step a s) := by
  have hex := h.exclusive
  refine step_elim h (fun _ => ⟨⟨hex.disabled, hex.masked⟩, h.handler, h.current⟩)
    (fun ha hi hon => ⟨exclusive_enter hex hon, fun _ => ?_, h.current⟩)
    (fun _ => ?_) (fun _ hi => undisturbed_taskStep h hi)
    (fun _ hi _ => ⟨⟨hex.disabled, hex.masked⟩, h.handler, fun _ _ hq => by
      simp [State.pending] at hq⟩)
    (fun hi _ => ⟨⟨hex.disabled, hex.masked⟩, h.handler, fun _ _ hq => by
      simp [State.pending] at hq⟩)
  · -- the interrupt is enabled, so the task can only be before its window
    subst ha
    cases hpc : s.task with
    | disable u => exact absurd hpc (hc u)
    | set u | store u | enable u =>
      rw [hex.masked (by rw [hpc]; rfl)] at hon
      cases hon
    | _ => rfl
  · cases hpc : s.isr with
    | idle =>
      simp only [isrStep, hpc]
      exact h
    | _ =>
      have hnone : (isrStep s).task.update = none := by
        rw [isrStep_task]
        exact h.handler (by rw [hpc]; exact IsrPc.noConfusion)
      refine ⟨exclusive_isrStep hex, fun _ => hnone, fun u hu => ?_⟩
      rw [hnone] at hu
      cases hu

/-- Then no duty is stale. -/
theorem fresh_of_undisturbed (a : Action) (s : State) (h : Undisturbed s) : Fresh a s := by
  cases a with
  | task =>
    intro _ hq u hpc
    rw [h.current u (by rw [hpc]; rfl) hq]
  | _ => trivial

/-- With no handler let into the window, the law holds at every quiescent state. -/
theorem controlLaw_of_windowClear (shaft : Int) (cr status : BitVec 32) {acts : List Action}
    (h : Along step WindowClear (initial true shaft cr status) acts) :
    Throughout step ControlLaw (initial true shaft cr status) acts :=
  throughout_of_fresh shaft cr status (Along.of_invariant undisturbed_step fresh_of_undisturbed
    (undisturbed_initial shaft cr status) h)

/-- A set-point of 100 arrives; the task computes 39, the shaft makes a step, the handler
stores 38, and the task puts its 39 over it. -/
def staleDuty : List Action :=
  List.replicate 5 .task ++ [.receive (some [100, 0, 0, 0]), .give, .task, .task] ++
    [.shaft true, .enter] ++ List.replicate 7 .isr ++ List.replicate 4 .task

theorem staleDuty_lawless : ¬ ControlLaw (run (initial true 0 0 0) staleDuty) := by decide

end RealTimeLabs.Motor
