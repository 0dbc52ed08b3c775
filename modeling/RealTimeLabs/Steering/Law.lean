import RealTimeLabs.Motor.ControlLaw
import RealTimeLabs.Motor.DutyMirror
import RealTimeLabs.Steering.Replay

/-! What the two boards do to their motors.

The board that sends only counts: its motor task waits for a request that nobody makes, and its
duty register keeps the zero that `motor_init` has written (`transmitter_passive`). The board
that receives drives its motor by the way from its own position to the other one's, once all is
quiet: no datagram on its way, none owed by the transmitter, no request pending. This needs
a network that loses and reorders nothing, and no handler in the window of the motor task
(`steered_law`). -/
namespace RealTimeLabs.Steering
open Bytes Datagrams Interleaving Motor

/-! ### The board that sends -/

/-- The handler is about to write a duty. -/
def writesDuty : IsrPc → Bool
  | .set _ _ _ | .store _ _ _ => true
  | _ => false

/-- The driver of a board that only counts; before `motor_init` its register holds `cr`. -/
structure Passive (cr : BitVec 32) (s : Motor.State) : Prop where
  mode : s.driver.setPositionToDesired = false
  noRequest : s.semMotorPwmChange = 0
  waits : s.task.initialising = true ∨ s.task = .take
  handler : writesDuty s.isr = false
  pwmDuty : s.driver.shared.pwmDuty = 0
  desired : s.driver.shared.desiredPosition = 0
  unset : s.task.registerUnset = true → s.driver.pwmDutyCr = cr
  register : s.task.registerUnset = false → s.driver.pwmDutyCr = 0

theorem passive_isrStep {cr : BitVec 32} {s : Motor.State} (h : Passive cr s) :
    Passive cr (isrStep s) := by
  have hhandler := h.handler
  cases hpc : s.isr with
  | idle =>
    simp only [isrStep, hpc]
    exact h
  | duty a b =>
    simp only [isrStep, hpc, h.mode, Bool.false_eq_true, if_false]
    exact ⟨h.mode, h.noRequest, h.waits, rfl, h.pwmDuty, h.desired, h.unset, h.register⟩
  | set a b u | store a b u =>
    rw [hpc] at hhandler
    cases hhandler
  | _ =>
    simp only [isrStep, hpc]
    exact ⟨h.mode, h.noRequest, h.waits, rfl, h.pwmDuty, h.desired, h.unset, h.register⟩

/-- Without a request the task gets no further than its `semTake`. -/
theorem passive_taskStep {cr : BitVec 32} {s : Motor.State} (h : Passive cr s) :
    Passive cr (taskStep s) := by
  have hwaits := h.waits
  cases hpc : s.task with
  | take =>
    simp only [taskStep, hpc, h.noRequest, Nat.lt_irrefl, if_false]
    exact h
  | initReset =>
    simp only [taskStep, hpc]
    exact ⟨h.mode, h.noRequest, .inl rfl, h.handler, h.pwmDuty, h.desired,
      fun _ => h.unset (by rw [hpc]; rfl), fun hset => by cases hset⟩
  | initDuty =>
    simp only [taskStep, hpc]
    exact ⟨h.mode, h.noRequest, .inl rfl, h.handler, h.pwmDuty, h.desired,
      fun hunset => (by cases hunset), fun _ => rfl⟩
  | initReadA | initReadB srA | initEnable =>
    simp only [taskStep, hpc]
    exact ⟨h.mode, h.noRequest, by first | exact .inl rfl | exact .inr rfl, h.handler,
      h.pwmDuty, h.desired, fun hunset => (by cases hunset),
      fun _ => h.register (by rw [hpc]; rfl)⟩
  | _ =>
    rw [hpc] at hwaits
    rcases hwaits with hinit | htake
    · cases hinit
    · cases htake

theorem passive_motorStep {cr : BitVec 32} {a : Motor.Action} (ha : ofTransmitter a = true)
    {s : Motor.State} (h : Passive cr s) : Passive cr (Motor.step a s) := by
  cases a with
  | shaft forward =>
    exact ⟨h.mode, h.noRequest, h.waits, h.handler, h.pwmDuty, h.desired, h.unset, h.register⟩
  | enter =>
    simp only [Motor.step]
    split
    · exact ⟨h.mode, h.noRequest, h.waits, rfl, h.pwmDuty, h.desired, h.unset, h.register⟩
    · exact h
  | isr => exact passive_isrStep h
  | task =>
    simp only [Motor.step]
    split
    · exact passive_taskStep h
    · exact h
  | receive outcome => cases ha
  | give => cases ha

theorem passive_step (cr : BitVec 32) (a : Action) (s : Boards) (h : Passive cr s.transmitter) :
    Passive cr (step a s).transmitter := by
  rw [step_transmitter]
  cases a with
  | transmitter a =>
    simp only [transmitterActions]
    split
    · rename_i ha
      exact passive_motorStep ha h
    · exact h
  | _ => exact h

/-- **The board that sends never drives its motor**: in every state of every run of both
boards its motor task is in `motor_init` or waits, no handler writes a duty, and its register is
zero from the second statement of `motor_init` on. -/
theorem transmitter_passive (t r : Bench) (acts : List Action) :
    Passive t.cr (run (initial t r) acts).transmitter :=
  run_invariant (I := fun s : Boards => Passive t.cr s.transmitter) (passive_step t.cr)
    ⟨rfl, rfl, .inl rfl, rfl, rfl, rfl, fun _ => rfl, fun h => by cases h⟩ acts

/-! ### The board that receives -/

/-- The network delivers everything, in order and once. -/
def Faithful : Action → Boards → Prop
  | .deliver i, _ => i = 0
  | .lose _, _ | .duplicate _, _ => False
  | _, _ => True

/-- And no handler starts in the window of the receiver's motor task. -/
def Smooth (a : Action) (s : Boards) : Prop :=
  Faithful a s ∧ Along Motor.step WindowClear s.receiver (receiverActions a s)

instance : (a : Action) → (s : Boards) → Decidable (Faithful a s)
  | .deliver i, _ => inferInstanceAs (Decidable (i = 0))
  | .lose _, _ | .duplicate _, _ => .isFalse id
  | .transmitter _, _ | .receiver _, _ | .send, _ => .isTrue trivial

instance (a : Action) (s : Boards) : Decidable (Smooth a s) := inferInstanceAs (Decidable (_ ∧ _))

/-- The newest of the datagrams is the last one sent. -/
def Newest (f : Nat → Int32) (t : Dated) : Prop := f t.channel.newest = t.boards.lastSent

theorem newest_datedStep {f : Nat → Int32} (a : Action) (t : Dated) (h : Newest f t)
    (hnow : f t.now = t.boards.position) (hC : Faithful a t.boards) :
    Newest f (datedStep a t) := by
  have hfaithful : (event t.now a t.boards).Faithful := by
    cases a with
    | send =>
      simp only [event]
      split <;> trivial
    | deliver i =>
      simp only [event]
      split
      · exact hC
      · trivial
    | lose i | duplicate i => exact hC.elim
    | _ => trivial
  simp only [Newest, datedStep, newest_step hfaithful]
  cases a with
  | transmitter a | receiver a =>
    simp only [event, step]
    split <;> exact h
  | send =>
    by_cases hidle : t.boards.transmitter.isr = .idle
    · simp only [event, step, sendStep, if_pos hidle]
      exact hnow
    · simp only [event, step, sendStep, if_neg hidle]
      exact h
  | deliver i =>
    have hsame : (step (.deliver i) t.boards).lastSent = t.boards.lastSent := by
      simp only [step, deliverStep]
      split
      · split <;> rfl
      · rfl
    rw [hsame]
    simp only [event]
    split <;> exact h
  | lose i | duplicate i => exact hC.elim

theorem newest_run {t r : Bench} {acts : List Action}
    (hC : Along step Faithful (initial t r) acts) (k : Nat) (hk : k ≤ acts.length) :
    Newest (fun d => (run (initial t r) (acts.take d)).position)
      (Interleaving.run datedStep (dated (initial t r)) (acts.take k)) := by
  induction k with
  | zero => rfl
  | succ k ih =>
    have hlt : k < acts.length := hk
    rw [run_take_succ _ hlt]
    refine newest_datedStep _ _ (ih (Nat.le_of_lt hlt)) ?_ ?_
    · rw [run_dated_boards, run_dated_now, List.length_take_of_le (Nat.le_of_lt hlt)]
      change (run (initial t r) (acts.take (0 + k))).position = _
      rw [Nat.zero_add]
    · rw [run_dated_boards]
      exact hC.getElem hlt

/-- With nothing on its way, the set-point is what has been sent last. -/
theorem setPoint_lastSent {t r : Bench} {acts : List Action}
    (hC : Along step Faithful (initial t r) acts)
    (hempty : (run (initial t r) acts).inFlight = []) :
    (run (initial t r) acts).setPoint = (run (initial t r) acts).lastSent := by
  have hshows := shows_run t r acts acts.length (Nat.le_refl _)
  have hnewest := newest_run hC acts.length (Nat.le_refl _)
  rw [List.take_length] at hshows hnewest
  have hboards := run_dated_boards (initial t r) acts
  have hnone := hshows.inFlight
  rw [hboards, hempty] at hnone
  have hset := hshows.setPoint
  rw [hboards] at hset
  rw [Newest, newest_of_empty (List.map_eq_nil_iff.mp hnone.symm), hboards] at hnewest
  exact hset.trans hnewest

/-- The receiver's motor at rest: the published duty is that of the way to the other board's
position, and the register encodes it, or both are the zero of `motor_init`. -/
structure Steered (s : Boards) : Prop where
  duty : s.receiver.driver.shared.pwmDuty =
    (getPwm (s.position - s.receiver.driver.shared.position)).toInt32
  register : s.receiver.driver.pwmDutyCr = 0 ∧ s.receiver.driver.shared.pwmDuty = 0 ∨
    Encodes s.receiver.driver.pwmDutyCr s.receiver.driver.shared.pwmDuty.toInt

/-- **One motor follows the other shaft**: over a network that delivers everything in order, with
no handler in the window, whenever the receiver is quiescent, nothing is on its way and the
transmitter has not counted a step since its last datagram. -/
theorem steered_law (t r : Bench) (acts : List Action)
    (hC : Along step Smooth (initial t r) acts)
    (hquiet : Quiescent (run (initial t r) acts).receiver)
    (hempty : (run (initial t r) acts).inFlight = [])
    (hsent : (run (initial t r) acts).lastSent = (run (initial t r) acts).position) :
    Steered (run (initial t r) acts) := by
  have hset := setPoint_lastSent (hC.imp fun _ _ h => h.1) hempty
  have hrun := run_receiver (initial t r) acts
  have hclear := along_project step_receiver (hC.imp fun _ _ h => h.2)
  have hlaw := (controlLaw_of_windowClear r.shaft r.cr r.status hclear).last
  have hmirrored := mirrored_run true r.shaft r.cr r.status
    (Interleaving.project receiverActions step (initial t r) acts)
  change ControlLaw (Motor.run (initial t r).receiver _) at hlaw
  change Mirrored (Motor.run (initial t r).receiver _) at hmirrored
  rw [← hrun] at hlaw hmirrored
  constructor
  · have hduty := hlaw hquiet
    rw [Law, Driver.distance] at hduty
    rw [hduty]
    congr 2
    rw [← hsent, ← hset]
    rfl
  · have hagree := hmirrored.agree (by rw [hquiet.1]; rfl) (by rw [hquiet.2.1]; rfl)
      (by rw [hquiet.1]; rfl)
    cases hupdated : (run (initial t r) acts).receiver.updated with
    | none =>
      rw [hupdated] at hagree
      exact .inl hagree
    | some distance =>
      rw [hupdated] at hagree
      exact .inr hagree.1

/-- Both boards start, the one shaft makes a step, and the other board is told. -/
def oneStep : List Action :=
  List.replicate 5 (.transmitter .task) ++ List.replicate 5 (.receiver .task) ++
    [.transmitter (.shaft true), .transmitter .enter] ++
    List.replicate 5 (.transmitter .isr) ++ [.send, .deliver 0, .receiver .give] ++
    List.replicate 6 (.receiver .task)

theorem steered_oneStep : Steered (run (initial ⟨0, 0, 0⟩ ⟨7, 0, 0⟩) oneStep) :=
  steered_law ⟨0, 0, 0⟩ ⟨7, 0, 0⟩ oneStep (by decide +kernel) (by
    refine ⟨?_, ?_, ?_⟩ <;> decide +kernel) (by decide +kernel) (by decide +kernel)

end RealTimeLabs.Steering
