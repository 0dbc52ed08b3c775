import RealTimeLabs.Motor.Acknowledge
import RealTimeLabs.Motor.ControlLaw
import RealTimeLabs.Motor.Symmetry

/-! Handlers and updates as wholes.

`step` interleaves the statements of the handler, of the motor task and of the receiving task, while
`react` takes each handler and each update at once. An update under way has still to be stored when
a set-point arrives, and edges come at any time. But as long as no handler starts between the task's
computation and its `intDisable`, a run does what these wholes do one after the other, each of them
at the statement that decides it: `decode` in the handler, the computation in the task
(`serialized`). -/
namespace RealTimeLabs.Motor
open Interleaving

/-- The whole that an action decides, if any. -/
def decided : Action → State → List Event
  | .isr, s =>
    match s.isr with
    | .decode irc_a irc_b => [.sample (irc_a ≠ 0) (irc_b ≠ 0)]
    | _ => []
  | .task, s => if s.isr = .idle ∧ s.task = .compute then [.update] else []
  | .receive outcome, s =>
    if s.isr = .idle ∧ s.udp = .receive then
      [.receive (received outcome s.driver.shared.desiredPosition)]
    else []
  | _, _ => []

/-- What the handler has still to do to the driver, once it has decoded its sample. -/
def IsrPc.rest : IsrPc → Driver → Driver
  | .duty _ _, d => motorUpdate d
  | .set _ _ u, d => (d.setDuty u.duty).storeDuty u.duty
  | .store _ _ u, d => d.storeDuty u.duty
  | _, d => d

/-- And the motor task, once it has computed its duty. -/
def TaskPc.rest : TaskPc → Driver → Driver
  | .disable u, d => (d.setDuty u.duty).storeDuty u.duty
  | .set u, d => (d.setDuty u.duty).storeDuty u.duty
  | .store u, d => d.storeDuty u.duty
  | _, d => d

def State.finished (s : State) : Driver := s.task.rest (s.isr.rest s.driver)

/-- But for the latch, which is no part of the wholes. -/
def Driver.unlatched (d : Driver) : Driver := { d with gpioIntStatus := 0 }

/-- Between handlers and between updates, after `motor_init`. -/
def Between (s : State) : Prop :=
  s.isr = .idle ∧ s.task.initialising = false ∧ s.task.update = none

instance (s : State) : Decidable (Between s) := inferInstanceAs (Decidable (_ ∧ _))

/-- The handler's locals are readings of the lines. -/
def IsrPc.Sampled : IsrPc → Prop
  | .readB irc_a => irc_a = 0 ∨ irc_a = 1
  | .decode irc_a irc_b => (irc_a = 0 ∨ irc_a = 1) ∧ (irc_b = 0 ∨ irc_b = 2)
  | _ => True

/-- What is done and what is left come to what the wholes have done. -/
structure Serial (s : State) (d : Driver) : Prop where
  exclusive : Exclusive s
  started : s.task.initialising = false
  handler : s.isr ≠ .idle → s.task.update = none
  sampled : s.isr.Sampled
  finished : s.finished.unlatched = d.unlatched

/-! ### Wholes -/

theorem motorUpdate_unlatched (d : Driver) :
    (motorUpdate d).unlatched = motorUpdate d.unlatched := by
  unfold motorUpdate
  by_cases hmode : d.setPositionToDesired = true
  · have hmode' : d.unlatched.setPositionToDesired = true := hmode
    rw [if_pos hmode, if_pos hmode']
    simp only [Driver.unlatched, Driver.setDuty, Driver.storeDuty, Driver.distance]
  · have hmode' : ¬ d.unlatched.setPositionToDesired = true := hmode
    rw [if_neg hmode, if_neg hmode']

theorem motorIsr_unlatched (srA srB : BitVec 32) (d : Driver) :
    (motorIsr srA srB d).unlatched = (motorUpdate (d.decode (ircA srA) (ircB srB))).unlatched := rfl

theorem react_unlatched (e : Event) {d d' : Driver} (h : d.unlatched = d'.unlatched) :
    (react e d).unlatched = (react e d').unlatched := by
  have hself : ∀ d, (react e d).unlatched = (react e d.unlatched).unlatched := by
    intro d
    cases e with
    | sample a b =>
      simp only [react]
      rw [motorIsr_unlatched, motorIsr_unlatched, motorUpdate_unlatched, motorUpdate_unlatched]
      rfl
    | receive desired => rfl
    | update =>
      simp only [react]
      rw [motorUpdate_unlatched, motorUpdate_unlatched]
      rfl
  rw [hself d, hself d', h]

theorem IsrPc.rest_unlatched (pc : IsrPc) {d d' : Driver} (h : d.unlatched = d'.unlatched) :
    (pc.rest d).unlatched = (pc.rest d').unlatched := by
  cases pc with
  | duty a b => exact react_unlatched .update h
  | set a b u => exact congrArg (fun d => (d.setDuty u.duty).storeDuty u.duty) h
  | store a b u => exact congrArg (·.storeDuty u.duty) h
  | _ => exact h

theorem TaskPc.rest_unlatched (pc : TaskPc) {d d' : Driver} (h : d.unlatched = d'.unlatched) :
    (pc.rest d).unlatched = (pc.rest d').unlatched := by
  cases pc with
  | disable u | set u =>
    exact congrArg (fun d => (d.setDuty u.duty).storeDuty u.duty) h
  | store u => exact congrArg (·.storeDuty u.duty) h
  | _ => exact h

theorem TaskPc.rest_of_update {pc : TaskPc} (h : pc.update = none) (d : Driver) :
    pc.rest d = d := by
  cases pc <;> first | rfl | cases h

/-- A set-point can arrive before a duty is stored as well as afterwards. -/
theorem TaskPc.rest_receive (pc : TaskPc) (desired : Int32) (d : Driver) :
    pc.rest (react (.receive desired) d) = react (.receive desired) (pc.rest d) := by
  cases pc <;> rfl

theorem ircA_lineSr_ne {a b : UInt8} (ha : a = 0 ∨ a = 1) (hb : b = 0 ∨ b = 2) :
    ircA (lineSr (a ≠ 0) (b ≠ 0)) = a ∧ ircB (lineSr (a ≠ 0) (b ≠ 0)) = b := by
  rcases ha with rfl | rfl <;> rcases hb with rfl | rfl <;> decide

/-- A sample that is decoded, with the update that is left. -/
theorem unlatched_decode {a b : UInt8} (ha : a = 0 ∨ a = 1) (hb : b = 0 ∨ b = 2) (d : Driver) :
    (motorUpdate (d.decode a b)).unlatched = (react (.sample (a ≠ 0) (b ≠ 0)) d).unlatched := by
  obtain ⟨hA, hB⟩ := ircA_lineSr_ne ha hb
  simp only [react]
  rw [motorIsr_unlatched, hA, hB]

theorem motorUpdate_of {d : Driver} (h : d.setPositionToDesired = true) :
    motorUpdate d = (d.setDuty (Update.of d.distance).duty).storeDuty (Update.of d.distance).duty :=
  if_pos h

theorem run_unlatched (events : List Event) {d d' : Driver} (h : d.unlatched = d'.unlatched) :
    (Interleaving.run react d events).unlatched = (Interleaving.run react d' events).unlatched := by
  induction events generalizing d d' with
  | nil => exact h
  | cons e rest ih => exact ih (react_unlatched e h)

/-! ### Steps -/

/-- A statement of the handler does a piece of what is left of it, or decides the whole. -/
theorem handler_isrStep (s : State) (h : s.isr.Sampled) : (isrStep s).isr.Sampled ∧
    ((isrStep s).isr.rest (isrStep s).driver).unlatched =
      (Interleaving.run react (s.isr.rest s.driver) (decided .isr s)).unlatched := by
  cases hpc : s.isr with
  | idle =>
    simp only [isrStep, decided, hpc]
    exact ⟨trivial, rfl⟩
  | readA =>
    simp only [isrStep, decided, hpc]
    exact ⟨ircA_cases _, rfl⟩
  | readB a =>
    rw [hpc] at h
    simp only [isrStep, decided, hpc]
    exact ⟨⟨h, ircB_cases _⟩, rfl⟩
  | decode a b =>
    rw [hpc] at h
    simp only [isrStep, decided, hpc]
    exact ⟨trivial, unlatched_decode h.1 h.2 s.driver⟩
  | duty a b =>
    by_cases hmode : s.driver.setPositionToDesired = true
    · simp only [isrStep, decided, hpc, if_pos hmode]
      exact ⟨trivial, congrArg Driver.unlatched (motorUpdate_of hmode).symm⟩
    · simp only [isrStep, decided, hpc, if_neg hmode]
      exact ⟨trivial, congrArg Driver.unlatched (if_neg hmode).symm⟩
  | set a b u =>
    simp only [isrStep, decided, hpc]
    exact ⟨trivial, rfl⟩
  | store a b u =>
    simp only [isrStep, decided, hpc]
    exact ⟨trivial, rfl⟩
  | clear a b =>
    simp only [isrStep, decided, hpc]
    exact ⟨trivial, rfl⟩

/-- And so does one of the motor task. -/
theorem task_taskStep (s : State) (hi : s.isr = .idle) (h : s.task.initialising = false) :
    (taskStep s).task.initialising = false ∧
      ((taskStep s).task.rest (taskStep s).driver).unlatched =
        (Interleaving.run react (s.task.rest s.driver) (decided .task s)).unlatched := by
  cases hpc : s.task with
  | take =>
    simp only [taskStep, decided, hpc]
    by_cases hsem : 0 < s.semMotorPwmChange
    · rw [if_pos hsem, if_neg (fun hc => by cases hc.2)]
      exact ⟨rfl, rfl⟩
    · rw [if_neg hsem, if_neg (fun hc => by cases hc.2), hpc]
      exact ⟨rfl, rfl⟩
  | compute =>
    by_cases hmode : s.driver.setPositionToDesired = true
    · simp only [taskStep, decided, hpc, hi, and_self, if_true, if_pos hmode]
      exact ⟨rfl, congrArg Driver.unlatched (motorUpdate_of hmode).symm⟩
    · simp only [taskStep, decided, hpc, hi, and_self, if_true, if_neg hmode]
      exact ⟨rfl, congrArg Driver.unlatched (if_neg hmode).symm⟩
  | disable u | set u | store u | enable u =>
    simp only [taskStep, decided, hpc]
    rw [if_neg (fun hc => by cases hc.2)]
    exact ⟨rfl, rfl⟩
  | _ =>
    rw [hpc] at h
    cases h

section
variable {s : State} {d : Driver}

theorem finished_handler (h : Serial s d) (hi : s.isr ≠ .idle) :
    s.finished = s.isr.rest s.driver := TaskPc.rest_of_update (h.handler hi) _

theorem finished_task (hi : s.isr = .idle) : s.finished = s.task.rest s.driver := by
  rw [State.finished, hi]
  rfl

theorem serial_isrStep (h : Serial s d) :
    Serial (isrStep s) (Interleaving.run react d (decided .isr s)) := by
  by_cases hi : s.isr = .idle
  · simp only [isrStep, decided, hi]
    exact h
  · obtain ⟨hsampled, hrest⟩ := handler_isrStep s h.sampled
    have hupdate := h.handler hi
    refine ⟨exclusive_isrStep h.exclusive, ?_, fun _ => ?_, hsampled, ?_⟩
    · rw [isrStep_task]
      exact h.started
    · rw [isrStep_task]
      exact hupdate
    · rw [State.finished, isrStep_task, TaskPc.rest_of_update hupdate, hrest,
        ← finished_handler h hi]
      exact run_unlatched _ h.finished

theorem serial_taskStep (h : Serial s d) (hi : s.isr = .idle) :
    Serial (taskStep s) (Interleaving.run react d (decided .task s)) := by
  obtain ⟨hstarted, hrest⟩ := task_taskStep s hi h.started
  have hidle : (taskStep s).isr = .idle := (taskStep_isr s).trans hi
  refine ⟨exclusive_taskStep h.exclusive hi, hstarted, fun hne => absurd hidle hne, ?_, ?_⟩
  · rw [hidle]
    trivial
  · rw [finished_task hidle, hrest, ← finished_task hi]
    exact run_unlatched _ h.finished

theorem serial_step (a : Action) (h : Serial s d) (hC : WindowClear a s) :
    Serial (step a s) (Interleaving.run react d (decided a s)) := by
  have hex := h.exclusive
  cases a with
  | shaft forward =>
    refine ⟨⟨hex.disabled, hex.masked⟩, h.started, h.handler, h.sampled, ?_⟩
    have hedge : (s.isr.rest s.driver.edge).unlatched = (s.isr.rest s.driver).unlatched :=
      s.isr.rest_unlatched rfl
    exact (s.task.rest_unlatched hedge).trans h.finished
  | enter =>
    simp only [step, decided]
    split
    · rename_i hgo
      refine ⟨exclusive_enter hex hgo.2, h.started, fun _ => ?_, trivial, ?_⟩
      · -- the task is not between its computation and its `intDisable`, by the condition, nor
        -- between this and its `intEnable`, or the interrupt would be disabled
        cases hpc : s.task with
        | disable u => exact absurd hpc (hC u)
        | set u | store u | enable u =>
          have hoff := hex.masked (by rw [hpc]; rfl)
          rw [hgo.2] at hoff
          cases hoff
        | _ => rfl
      · have hfinished := h.finished
        rw [finished_task hgo.1] at hfinished
        exact hfinished
    · exact h
  | isr => exact serial_isrStep h
  | task =>
    simp only [step]
    split
    · rename_i hi
      exact serial_taskStep h hi
    · rename_i hi
      simp only [decided]
      rw [if_neg fun hgo => hi hgo.1]
      exact h
  | receive outcome =>
    simp only [step, decided]
    by_cases hgo : s.isr = .idle ∧ s.udp = .receive
    · rw [if_pos hgo, if_pos hgo.1]
      have hafter : (receiveStep outcome s).finished =
          react (.receive (received outcome s.driver.shared.desiredPosition)) s.finished := by
        simp only [receiveStep, hgo.2, State.finished, hgo.1]
        exact s.task.rest_receive _ s.driver
      simp only [receiveStep, hgo.2] at hafter ⊢
      refine ⟨⟨hex.disabled, hex.masked⟩, h.started, h.handler, h.sampled, ?_⟩
      rw [hafter]
      exact react_unlatched (.receive _) h.finished
    · rw [if_neg hgo]
      split
      · rename_i hi
        cases hudp : s.udp with
        | receive => exact absurd ⟨hi, hudp⟩ hgo
        | give =>
          simp only [receiveStep, hudp]
          exact h
      · exact h
  | give =>
    simp only [step, decided]
    split
    · cases hudp : s.udp with
      | receive =>
        simp only [giveStep, hudp]
        exact h
      | give =>
        simp only [giveStep, hudp]
        exact ⟨⟨hex.disabled, hex.masked⟩, h.started, h.handler, h.sampled, h.finished⟩
    · exact h

end

/-! ### Requests -/

def Event.isUpdate : Event → Bool
  | .update => true
  | _ => false

def Event.isReceive : Event → Bool
  | .receive _ => true
  | _ => false

/-- The set-points that have been received, and not been updated for. -/
def State.requests (s : State) : Nat :=
  s.semMotorPwmChange + (if s.udp = .give then 1 else 0) + (if s.task = .compute then 1 else 0)

theorem isrStep_requests (s : State) : (isrStep s).requests = s.requests := by
  unfold isrStep
  split <;> (try split) <;> rfl

theorem requests_isr (s : State) : (decided .isr s).countP Event.isUpdate = 0 ∧
    (decided .isr s).countP Event.isReceive = 0 := by
  simp only [decided]
  split <;> exact ⟨rfl, rfl⟩

/-- The motor task takes a request, and updates for it. -/
theorem taskStep_requests {s : State} (hi : s.isr = .idle) :
    (decided .task s).countP Event.isUpdate + (taskStep s).requests =
      (decided .task s).countP Event.isReceive + s.requests := by
  cases hpc : s.task with
  | take =>
    simp only [decided, taskStep, hpc]
    by_cases hsem : 0 < s.semMotorPwmChange
    · simp [State.requests, hsem, hpc]
      omega
    · simp [State.requests, hsem, hpc]
  | compute =>
    have hcounted : s.requests = s.semMotorPwmChange + (if s.udp = .give then 1 else 0) + 1 := by
      rw [State.requests, if_pos hpc]
    rw [hcounted]
    simp only [decided, taskStep, hpc, hi, and_self, if_true]
    by_cases hmode : s.driver.setPositionToDesired = true
    · simp [State.requests, hmode, Event.isUpdate, Event.isReceive]
      omega
    · simp [State.requests, hmode, Event.isUpdate, Event.isReceive]
      omega
  | _ => simp [decided, taskStep, hpc, State.requests]

theorem requests_step (a : Action) (s : State) :
    (decided a s).countP Event.isUpdate + (step a s).requests =
      (decided a s).countP Event.isReceive + s.requests := by
  cases a with
  | shaft forward => rfl
  | enter =>
    simp only [step, decided]
    split <;> rfl
  | isr =>
    obtain ⟨hupdate, hreceive⟩ := requests_isr s
    simp only [step]
    rw [hupdate, hreceive, isrStep_requests]
  | task =>
    by_cases hi : s.isr = .idle
    · simp only [step, if_pos hi]
      exact taskStep_requests hi
    · simp only [step, decided, if_neg hi]
      rw [if_neg fun hgo => hi hgo.1]
      rfl
  | receive outcome =>
    by_cases hi : s.isr = .idle
    · cases hudp : s.udp with
      | receive =>
        simp [step, decided, hi, hudp, receiveStep, State.requests, Event.isUpdate,
          Event.isReceive]
        omega
      | give => simp [step, decided, hi, hudp, receiveStep]
    · simp only [step, decided, if_neg hi]
      rw [if_neg fun hgo => hi hgo.1]
      rfl
  | give =>
    by_cases hi : s.isr = .idle
    · cases hudp : s.udp with
      | receive => simp [step, decided, hi, hudp, giveStep]
      | give => simp [step, decided, hi, hudp, giveStep, State.requests]
    · simp only [step, decided, if_neg hi]
      rfl

/-- **A run is its wholes, one after the other**: from any moment between handlers and updates to
any other, as long as no handler starts between the task's computation and its `intDisable`, the
driver becomes what the handlers, set-points and updates that have been decided make of it, each as
a whole and in the order of their decisions. And every set-point is updated for once: those that
have not been are counted in the semaphore, about to be given, or about to be computed for. -/
theorem serialized (setDesired : Bool) (shaft : Int) (cr status : BitVec 32)
    (before acts : List Action)
    (hstart : Between (run (initial setDesired shaft cr status) before))
    (h : Along step WindowClear (run (initial setDesired shaft cr status) before) acts) :
    let s := run (initial setDesired shaft cr status) before
    let s' := run s acts
    let events := project decided step s acts
    (Between s' →
        s'.driver.unlatched = (Interleaving.run react s.driver events).unlatched) ∧
      events.countP Event.isUpdate + s'.requests =
        events.countP Event.isReceive + s.requests := by
  intro s s' events
  obtain ⟨hidle, hstarted, hupdate⟩ := hstart
  refine ⟨fun hend => ?_, countP_project requests_step s acts⟩
  obtain ⟨hidle', _, hupdate'⟩ := hend
  have hfinished (s : State) (hi : s.isr = .idle) (hu : s.task.update = none) :
      s.finished = s.driver := (finished_task hi).trans (TaskPc.rest_of_update hu _)
  have hserial : Serial s s.driver := by
    refine ⟨exclusive_run setDesired shaft cr status before, hstarted, fun _ => hupdate, ?_, ?_⟩
    · rw [hidle]
      trivial
    · rw [hfinished s hidle hupdate]
  have hrun : Serial s' (Interleaving.run react s.driver events) :=
    simulates (fun a _ _ hR hC => serial_step a hR hC) hserial h
  rw [← hfinished s' hidle' hupdate']
  exact hrun.finished

/-- A set-point arrives, the shaft makes a step, and another set-point while the task's duty is
still to be stored. -/
def crowded : List Action :=
  [.receive (some [100, 0, 0, 0]), .shaft true, .enter] ++ List.replicate 7 .isr ++
    [.give, .task, .task, .receive (some [50, 0, 0, 0]), .task, .shaft true, .task, .task, .task]

theorem serialized_crowded :
    let s := run (initial true 0 7 0) (List.replicate 5 .task)
    (run s crowded).driver.unlatched =
      (Interleaving.run react s.driver (project decided step s crowded)).unlatched :=
  (serialized true 0 7 0 (List.replicate 5 .task) crowded (by decide) (by decide)).1 (by decide)

end RealTimeLabs.Motor
