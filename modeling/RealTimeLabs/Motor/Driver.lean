import RealTimeLabs.Library.Bytes
import RealTimeLabs.Library.Quadrature

/-! The stepper motor driver (`stepper_motor.c`), function by function.

`Driver` is what the driver and the other tasks share in memory and in registers:
`motor_driver_shared`, the two decoder states, the mode flag, the PWM duty register
and the GPIO interrupt status. The statements that other code can interleave with
have names of their own (`decode`, `setDuty`, `storeDuty`, `acknowledge`), and
`motorIsr` is their composition. The registers that `motor_init` only configures
(direction, interrupt type, PWM period, enable bits) are read by nothing here and
are left out. -/
namespace RealTimeLabs.Motor
open Bytes

/-- `motor_driver_shared_t`. -/
structure MotorDriverShared where
  irqCount : UInt32
  position : Int32
  desiredPosition : Int32
  pwmDuty : Int32
deriving DecidableEq

def pwmPeriod : Int := 5000
def minPwmDuty : Int8 := 3
def motorSrIrcAMon : Nat := 8
def motorSrIrcBMon : Nat := 9
def dutyDirR : Nat := 31
def dutyDirF : Nat := 30
def dutyCycle : Nat := 0

def bit (i : Nat) : BitVec 32 := 1#32 <<< i

/-- `MOTOR_IRQ_PIN`, bit 2 of the GPIO interrupt registers. -/
def motorIrqPin : BitVec 32 := bit 2

structure Driver where
  shared : MotorDriverShared
  motorState : UInt8
  prevMotorState : UInt8
  setPositionToDesired : Bool
  /-- `PWM_DUTY_CR`. -/
  pwmDutyCr : BitVec 32
  /-- `GPIO_INT_STATUS`. -/
  gpioIntStatus : BitVec 32
deriving DecidableEq

/-- Static storage before any task has run. -/
def booted : Driver := ⟨⟨0, 0, 0, 0⟩, 0, 0, false, 0, 0⟩

/-! ### The decoder -/

/-- `TRANSITION(old, new)`. -/
def transition (old new : Nat) : Nat := (old <<< 2) ||| new

/-- The designated initialisers of `TRANSITION_TABLE`. -/
def transitions : List (Nat × Int32) :=
  [(transition 0 1, 1), (transition 1 3, 1), (transition 3 2, 1), (transition 2 0, 1),
    (transition 1 0, -1), (transition 3 1, -1), (transition 2 3, -1), (transition 0 2, -1)]

/-- `TRANSITION_TABLE`: an entry without an initialiser is zero. -/
def transitionTable (k : Nat) : Int32 := (transitions.lookup k).getD 0

/-- `MOTOR_SR` with the shaft at `p`: bits 8 and 9 monitor the two lines. -/
def motorSr (p : Int) : BitVec 32 :=
  (if Quadrature.lineA p then bit motorSrIrcAMon else 0) |||
    (if Quadrature.lineB p then bit motorSrIrcBMon else 0)

def ircA (sr : BitVec 32) : UInt8 := if sr &&& bit motorSrIrcAMon ≠ 0 then 1 else 0

def ircB (sr : BitVec 32) : UInt8 := if sr &&& bit motorSrIrcBMon ≠ 0 then 2 else 0

/-- The state of the two lines, the position and the interrupt count, from one sample. -/
def Driver.decode (irc_a irc_b : UInt8) (d : Driver) : Driver :=
  let prev := d.motorState
  let state := irc_a ||| irc_b
  { d with
    prevMotorState := prev
    motorState := state
    shared := { d.shared with
      position := d.shared.position + transitionTable (transition prev.toNat state.toNat)
      irqCount := d.shared.irqCount + 1 } }

/-! ### The duty cycle -/

/-- `set_motor_dutycycle`: the value left in `PWM_DUTY_CR`. -/
def setMotorDutycycle (duty_cycle_percent : Int8) (cr : BitVec 32) : BitVec 32 :=
  if duty_cycle_percent < -100 ∨ duty_cycle_percent > 100 then cr
  else if duty_cycle_percent < 0 then
    bit dutyDirR |||
      (BitVec.ofInt 32 ((pwmPeriod * -duty_cycle_percent.toInt).tdiv 100) <<< dutyCycle)
  else
    bit dutyDirF |||
      (BitVec.ofInt 32 ((pwmPeriod * duty_cycle_percent.toInt).tdiv 100) <<< dutyCycle)

/-- `get_pwm`. -/
def getPwm (distance : Int32) : Int8 :=
  let distance := max (min distance 200) (-200)
  let pwm := (min (max ((distance * distance.abs) >>> 8) (-100)) 100).toInt8
  if distance < 0 ∧ pwm > -minPwmDuty then -minPwmDuty
  else if distance > 0 ∧ pwm < minPwmDuty then minPwmDuty
  else pwm

/-- `desired_position - position`, as the 32-bit subtraction that both callers make. -/
def Driver.distance (d : Driver) : Int32 := d.shared.desiredPosition - d.shared.position

def Driver.setDuty (duty : Int8) (d : Driver) : Driver :=
  { d with pwmDutyCr := setMotorDutycycle duty d.pwmDutyCr }

def Driver.storeDuty (duty : Int8) (d : Driver) : Driver :=
  { d with shared := { d.shared with pwmDuty := duty.toInt32 } }

/-! ### Interrupt status -/

/-- A write to `GPIO_INT_STATUS` clears the bits written as one. -/
def Driver.writeIntStatus (v : BitVec 32) (d : Driver) : Driver :=
  { d with gpioIntStatus := d.gpioIntStatus &&& ~~~v }

def Driver.acknowledge (d : Driver) : Driver := d.writeIntStatus motorIrqPin

/-- The interrupt of the encoder lines is latched. -/
def Driver.latched (d : Driver) : Bool := d.gpioIntStatus &&& motorIrqPin ≠ 0

/-- An edge on the encoder lines sets the latch. -/
def Driver.edge (d : Driver) : Driver := { d with gpioIntStatus := d.gpioIntStatus ||| motorIrqPin }

@[simp] theorem acknowledge_latched (d : Driver) : d.acknowledge.latched = false := by
  simp [Driver.acknowledge, Driver.writeIntStatus, Driver.latched, BitVec.and_assoc]

@[simp] theorem edge_latched (d : Driver) : d.edge.latched = true := by
  have h : (d.gpioIntStatus ||| motorIrqPin) &&& motorIrqPin = motorIrqPin := by
    apply BitVec.eq_of_getLsbD_eq
    intro i _
    simp only [BitVec.getLsbD_and, BitVec.getLsbD_or]
    cases d.gpioIntStatus.getLsbD i <;> cases motorIrqPin.getLsbD i <;> rfl
  simp only [Driver.edge, Driver.latched, h]
  decide

/-! ### The handler and the initialisation -/

/-- `motor_isr`, from its two reads of `MOTOR_SR`. -/
def motorIsr (srA srB : BitVec 32) (d : Driver) : Driver :=
  let d := d.decode (ircA srA) (ircB srB)
  let d :=
    if d.setPositionToDesired then
      let duty := getPwm d.distance
      (d.setDuty duty).storeDuty duty
    else d
  d.acknowledge

/-- The `bool` reads of `motor_init`, as the state they are combined into. -/
def initState (srA srB : BitVec 32) : UInt8 :=
  let irc_a : Bool := srA &&& bit motorSrIrcAMon ≠ 0
  let irc_b : Bool := srB &&& bit motorSrIrcBMon ≠ 0
  irc_a.toUInt8 ||| (irc_b.toUInt8 <<< 1)

/-- `motor_init`, from its two reads of `MOTOR_SR`. -/
def motorInit (srA srB : BitVec 32) (d : Driver) : Driver :=
  let d := { d with shared := { d.shared with position := 0, irqCount := 0 } }
  let d := d.acknowledge
  let d := { d with pwmDutyCr := 0 }
  { d with motorState := initState srA srB }

end RealTimeLabs.Motor
