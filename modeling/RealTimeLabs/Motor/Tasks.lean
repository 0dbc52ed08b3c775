import RealTimeLabs.Library.Interleaving
import RealTimeLabs.Motor.Driver

/-! The driver under its three actors and the hardware.

One state holds the driver's memory and registers, the shaft, and where each actor
stands: the interrupt handler, the motor task (from `motor_init` on) and the
receiving UDP task. `step` performs one statement of one actor, or moves the shaft by
one position, which latches the encoder interrupt. A handler preempts both tasks:
while it runs, neither takes a step; it starts at any moment at which the interrupt
is enabled. The shaft moves whenever it likes. -/
namespace RealTimeLabs.Motor
open Bytes

/-- A duty under way, with the distance that it was computed from. -/
structure Update where
  distance : Int32
  duty : Int8
  computed : duty = getPwm distance
deriving DecidableEq

def Update.of (distance : Int32) : Update := ⟨distance, getPwm distance, rfl⟩

/-- Where `motor_isr` stands, with its locals `irc_a`, `irc_b` and `duty`. -/
inductive IsrPc where
  | idle
  | readA
  | readB (irc_a : UInt8)
  | decode (irc_a irc_b : UInt8)
  | duty (irc_a irc_b : UInt8)
  | set (irc_a irc_b : UInt8) (u : Update)
  | store (irc_a irc_b : UInt8) (u : Update)
  | clear (irc_a irc_b : UInt8)
deriving DecidableEq

/-- Where the motor task stands: in `motor_init`, then in the loop of `motor`. -/
inductive TaskPc where
  | initReset
  | initDuty
  | initReadA
  | initReadB (srA : BitVec 32)
  | initEnable
  | take
  | compute
  | disable (u : Update)
  | set (u : Update)
  | store (u : Update)
  | enable (u : Update)
deriving DecidableEq

/-- Where the receiving loop of `run_udp_srv` stands. -/
inductive UdpPc where
  | receive
  | give
deriving DecidableEq

structure State where
  driver : Driver
  shaft : Int
  isr : IsrPc
  task : TaskPc
  udp : UdpPc
  semMotorPwmChange : Nat
  intEnabled : Bool
  /-- The distance of the last duty stored, by whichever actor. -/
  updated : Option Int32
deriving DecidableEq

inductive Action where
  | shaft (forward : Bool)
  | enter
  | isr
  | task
  | receive (outcome : Option (List Byte))
  | give

/-- `recvfrom` into `desired_position`: an error leaves it, a datagram overwrites as many
of its bytes as it has. -/
def received (outcome : Option (List Byte)) (desired : Int32) : Int32 :=
  match outcome with
  | none => desired
  | some bytes => .ofBitVec (overlay desired.toBitVec bytes)

/-- One statement of `motor_isr`. -/
def isrStep (s : State) : State :=
  match s.isr with
  | .idle => s
  | .readA => { s with isr := .readB (ircA (motorSr s.shaft)) }
  | .readB a => { s with isr := .decode a (ircB (motorSr s.shaft)) }
  | .decode a b => { s with driver := s.driver.decode a b, isr := .duty a b }
  | .duty a b =>
    if s.driver.setPositionToDesired then { s with isr := .set a b (.of s.driver.distance) }
    else { s with isr := .clear a b }
  | .set a b u => { s with driver := s.driver.setDuty u.duty, isr := .store a b u }
  | .store a b u =>
    { s with driver := s.driver.storeDuty u.duty, updated := some u.distance, isr := .clear a b }
  | .clear _ _ => { s with driver := s.driver.acknowledge, isr := .idle }

/-- One statement of `motor_init` and of the loop of `motor`. -/
def taskStep (s : State) : State :=
  match s.task with
  | .initReset =>
    { s with
      driver := Driver.acknowledge
        { s.driver with shared := { s.driver.shared with position := 0, irqCount := 0 } }
      task := .initDuty }
  | .initDuty => { s with driver := { s.driver with pwmDutyCr := 0 }, task := .initReadA }
  | .initReadA => { s with task := .initReadB (motorSr s.shaft) }
  | .initReadB srA =>
    { s with
      driver := { s.driver with motorState := initState srA (motorSr s.shaft) }
      task := .initEnable }
  | .initEnable => { s with intEnabled := true, task := .take }
  | .take =>
    -- semTake with WAIT_FOREVER: without a request the task stays where it is
    if 0 < s.semMotorPwmChange then
      { s with semMotorPwmChange := s.semMotorPwmChange - 1, task := .compute }
    else s
  | .compute =>
    -- the duty is computed before the interrupt is disabled
    if s.driver.setPositionToDesired then { s with task := .disable (.of s.driver.distance) }
    else { s with task := .take }
  | .disable u => { s with intEnabled := false, task := .set u }
  | .set u => { s with driver := s.driver.setDuty u.duty, task := .store u }
  | .store u =>
    { s with driver := s.driver.storeDuty u.duty, updated := some u.distance, task := .enable u }
  | .enable _ => { s with intEnabled := true, task := .take }

def receiveStep (outcome : Option (List Byte)) (s : State) : State :=
  match s.udp with
  | .receive =>
    { s with
      driver := { s.driver with shared := { s.driver.shared with
        desiredPosition := received outcome s.driver.shared.desiredPosition } }
      udp := .give }
  | .give => s

def giveStep (s : State) : State :=
  match s.udp with
  | .receive => s
  | .give => { s with semMotorPwmChange := s.semMotorPwmChange + 1, udp := .receive }

def step : Action → State → State
  | .shaft forward, s =>
    { s with shaft := if forward then s.shaft + 1 else s.shaft - 1, driver := s.driver.edge }
  | .enter, s => if s.isr = .idle ∧ s.intEnabled then { s with isr := .readA } else s
  | .isr, s => isrStep s
  | .task, s => if s.isr = .idle then taskStep s else s
  | .receive outcome, s => if s.isr = .idle then receiveStep outcome s else s
  | .give, s => if s.isr = .idle then giveStep s else s

/-- At the entry of `motor_init`, with the shaft and both registers as they happen to be. -/
def initial (setDesired : Bool) (shaft : Int) (cr status : BitVec 32) : State where
  driver := { booted with
    setPositionToDesired := setDesired, pwmDutyCr := cr, gpioIntStatus := status }
  shaft := shaft
  isr := .idle
  task := .initReset
  udp := .receive
  semMotorPwmChange := 0
  intEnabled := false
  updated := none

def run (s : State) (acts : List Action) : State := Interleaving.run step s acts

/-! ### The functions as runs -/

/-- Statement by statement and left alone, `motor_init` is `motorInit`. -/
theorem run_motorInit (setDesired : Bool) (shaft : Int) (cr status : BitVec 32) :
    (run (initial setDesired shaft cr status) (List.replicate 4 .task)).driver =
      motorInit (motorSr shaft) (motorSr shaft) (initial setDesired shaft cr status).driver := rfl

/-- And a handler is `motorIsr`, in either mode. -/
theorem run_motorIsr {s : State} (h : s.isr = .readA) :
    (run s (List.replicate 7 .isr)).isr = .idle ∧
      (run s (List.replicate 7 .isr)).driver =
        motorIsr (motorSr s.shaft) (motorSr s.shaft) s.driver := by
  obtain ⟨driver, shaft, isr, task, udp, sem, enabled, updated⟩ := s
  subst h
  cases hmode : driver.setPositionToDesired with
  | true =>
    simp [run, Interleaving.run, step, isrStep, motorIsr, Driver.decode, hmode, Update.of]
  | false =>
    simp [run, Interleaving.run, step, isrStep, motorIsr, Driver.decode, hmode]

/-- What one action can lead to: an actor takes a step only where it is enabled, and
otherwise nothing changes. -/
theorem step_elim {P : State → Prop} {a : Action} {s : State} (same : P s)
    (shaft : ∀ forward, P (step (.shaft forward) s))
    (enter : a = .enter → s.isr = .idle → s.intEnabled = true → P { s with isr := .readA })
    (isr : a = .isr → P (isrStep s)) (task : a = .task → s.isr = .idle → P (taskStep s))
    (receive : ∀ outcome, s.isr = .idle → s.udp = .receive → P { s with
      driver := { s.driver with shared := { s.driver.shared with
        desiredPosition := received outcome s.driver.shared.desiredPosition } }
      udp := .give })
    (give : s.isr = .idle → s.udp = .give → P { s with
      semMotorPwmChange := s.semMotorPwmChange + 1, udp := .receive }) : P (step a s) := by
  cases a with
  | shaft forward => exact shaft forward
  | enter =>
    simp only [step]
    split
    · rename_i hgo
      exact enter rfl hgo.1 hgo.2
    · exact same
  | isr => exact isr rfl
  | task =>
    simp only [step]
    split
    · rename_i hi
      exact task rfl hi
    · exact same
  | receive outcome =>
    simp only [step]
    split
    · rename_i hi
      cases hudp : s.udp with
      | receive =>
        simp only [receiveStep, hudp]
        exact receive outcome hi hudp
      | give =>
        simp only [receiveStep, hudp]
        exact same
    · exact same
  | give =>
    simp only [step]
    split
    · rename_i hi
      cases hudp : s.udp with
      | receive =>
        simp only [giveStep, hudp]
        exact same
      | give =>
        simp only [giveStep, hudp]
        exact give hi hudp
    · exact same

@[simp] theorem isrStep_task (s : State) : (isrStep s).task = s.task := by
  unfold isrStep
  split <;> (try split) <;> rfl

@[simp] theorem taskStep_isr (s : State) : (taskStep s).isr = s.isr := by
  unfold taskStep
  split <;> (try split) <;> rfl

/-! ### Exclusion -/

/-- The motor task is in `motor_init`, or between `intDisable` and `intEnable`. -/
def TaskPc.masked : TaskPc → Bool
  | .take | .compute | .disable _ => false
  | _ => true

def TaskPc.initialising : TaskPc → Bool
  | .initReset | .initDuty | .initReadA | .initReadB _ | .initEnable => true
  | _ => false

/-- No handler runs with the interrupt disabled, and a masked task has it disabled. -/
structure Exclusive (s : State) : Prop where
  disabled : s.intEnabled = false → s.isr = .idle
  masked : s.task.masked = true → s.intEnabled = false

theorem Exclusive.idle {s : State} (h : Exclusive s) (hm : s.task.masked = true) : s.isr = .idle :=
  h.disabled (h.masked hm)

theorem masked_of_initialising {t : TaskPc} (h : t.initialising = true) : t.masked = true := by
  cases t <;> first | rfl | cases h

theorem exclusive_initial (setDesired : Bool) (shaft : Int) (cr status : BitVec 32) :
    Exclusive (initial setDesired shaft cr status) := ⟨fun _ => rfl, fun _ => rfl⟩

theorem exclusive_isrStep {s : State} (h : Exclusive s) : Exclusive (isrStep s) := by
  unfold isrStep
  split
  · exact h
  all_goals
    rename_i hpc
    have hon : s.intEnabled = true := by
      cases hi : s.intEnabled with
      | true => rfl
      | false => rw [h.disabled hi] at hpc; cases hpc
    have hmask : s.task.masked = false := by
      cases hm : s.task.masked with
      | false => rfl
      | true => rw [h.masked hm] at hon; cases hon
  case h_5 => split <;> exact ⟨fun hd => by simp_all, fun hm => by simp_all⟩
  all_goals exact ⟨fun hd => by simp_all, fun hm => by simp_all⟩

theorem exclusive_taskStep {s : State} (h : Exclusive s) (hi : s.isr = .idle) :
    Exclusive (taskStep s) := by
  unfold taskStep
  split
  case h_6 => split <;> exact ⟨fun _ => hi, fun hm => by simp_all [TaskPc.masked]⟩
  case h_7 => split <;> exact ⟨fun _ => hi, fun hm => by simp_all [TaskPc.masked]⟩
  all_goals exact ⟨fun _ => hi, fun hm => by
    have := h.masked
    simp_all [TaskPc.masked]⟩

theorem exclusive_enter {s : State} (h : Exclusive s) (hon : s.intEnabled = true) :
    Exclusive { s with isr := .readA } := by
  refine ⟨fun hd => ?_, h.masked⟩
  rw [show s.intEnabled = false from hd] at hon
  cases hon

theorem exclusive_step (a : Action) (s : State) (h : Exclusive s) : Exclusive (step a s) :=
  step_elim h (fun _ => ⟨h.disabled, h.masked⟩) (fun _ _ hon => exclusive_enter h hon)
    (fun _ => exclusive_isrStep h) (fun _ hi => exclusive_taskStep h hi)
    (fun _ _ _ => ⟨h.disabled, h.masked⟩) (fun _ _ => ⟨h.disabled, h.masked⟩)

/-- In no state of a run does a handler meet a task between `intDisable` and `intEnable`. -/
theorem exclusive_run (setDesired : Bool) (shaft : Int) (cr status : BitVec 32)
    (acts : List Action) : Exclusive (run (initial setDesired shaft cr status) acts) :=
  Interleaving.run_invariant exclusive_step (exclusive_initial setDesired shaft cr status) acts

end RealTimeLabs.Motor
