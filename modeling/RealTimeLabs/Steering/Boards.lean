import RealTimeLabs.Library.Datagrams
import RealTimeLabs.Motor.SetPoint

/-! Two boards, one steering the other (`main.c`, `server.c`).

`create_tasks(true, ip)` starts the driver of a board that only counts, and the sending loop
of `run_udp_srv`: again and again it gives the position, four bytes, to `sendto`.
`create_tasks(false, NULL)` starts the driver of a board that moves its motor, and the
receiving loop. Both drivers are those of `Motor.Tasks`, each with its own shaft. Between
them there is a network that delivers, loses and duplicates datagrams as it likes; nobody
else sends to the receiver. -/
namespace RealTimeLabs.Steering
open Bytes Motor

structure Boards where
  transmitter : Motor.State
  receiver : Motor.State
  /-- The datagrams on their way, up to the socket's buffer at the receiver. -/
  inFlight : List (List Byte)
  /-- The position in the last datagram sent. -/
  lastSent : Int32

inductive Action where
  | transmitter (a : Motor.Action)
  | receiver (a : Motor.Action)
  | send
  | deliver (i : Nat)
  | lose (i : Nat)
  | duplicate (i : Nat)

/-- The four bytes at `&motor_driver_shared.position`. -/
def datagram (position : Int32) : List Byte := wordBytes position.toBitVec

/-- `sendto`, by a task, so that no handler is running. -/
def sendStep (s : Boards) : Boards :=
  if s.transmitter.isr = .idle then
    { s with
      inFlight := s.inFlight ++ [datagram s.transmitter.driver.shared.position]
      lastSent := s.transmitter.driver.shared.position }
  else s

/-- A `recvfrom` that waits returns with a datagram. -/
def deliverStep (i : Nat) (s : Boards) : Boards :=
  if s.receiver.isr = .idle ∧ s.receiver.udp = .receive then
    match s.inFlight[i]? with
    | some bytes =>
      { s with
        receiver := Motor.step (.receive (some bytes)) s.receiver
        inFlight := s.inFlight.eraseIdx i }
    | none => s
  else s

/-- Whether an action of the driver is one of the board's own: datagrams only come from the
network, and a board that sends has no receiving loop. -/
def ofTransmitter (a : Motor.Action) : Bool := !a.ofReceiver

def ofBoard : Motor.Action → Bool
  | .receive (some _) => false
  | _ => true

def step : Action → Boards → Boards
  | .transmitter a, s =>
    if ofTransmitter a then { s with transmitter := Motor.step a s.transmitter } else s
  | .receiver a, s => if ofBoard a then { s with receiver := Motor.step a s.receiver } else s
  | .send, s => sendStep s
  | .deliver i, s => deliverStep i s
  | .lose i, s => { s with inFlight := s.inFlight.eraseIdx i }
  | .duplicate i, s => { s with inFlight := s.inFlight ++ s.inFlight[i]?.toList }

/-- A shaft and two registers as they happen to be. -/
structure Bench where
  shaft : Int
  cr : BitVec 32
  status : BitVec 32

/-- Both boards before `motor_init`. -/
def initial (t r : Bench) : Boards where
  transmitter := Motor.initial false t.shaft t.cr t.status
  receiver := Motor.initial true r.shaft r.cr r.status
  inFlight := []
  lastSent := 0

def run (s : Boards) (acts : List Action) : Boards := Interleaving.run step s acts

/-- The position that the transmitter has counted. -/
def Boards.position (s : Boards) : Int32 := s.transmitter.driver.shared.position

/-- The position that the receiver has been told to take. -/
def Boards.setPoint (s : Boards) : Int32 := s.receiver.driver.shared.desiredPosition

/-! ### The boards on their own -/

/-- What an action of the system is to the transmitter's driver. -/
def transmitterActions : Action → Boards → List Motor.Action
  | .transmitter a, _ => if ofTransmitter a then [a] else []
  | _, _ => []

/-- And to the receiver's. -/
def receiverActions : Action → Boards → List Motor.Action
  | .receiver a, _ => if ofBoard a then [a] else []
  | .deliver i, s =>
    if s.receiver.isr = .idle ∧ s.receiver.udp = .receive then
      s.inFlight[i]?.toList.map fun bytes => .receive (some bytes)
    else []
  | _, _ => []

theorem step_transmitter (a : Action) (s : Boards) :
    (step a s).transmitter =
      Interleaving.run Motor.step s.transmitter (transmitterActions a s) := by
  cases a with
  | transmitter a =>
    simp only [step, transmitterActions]
    split <;> rfl
  | receiver a =>
    simp only [step, transmitterActions]
    split <;> rfl
  | send =>
    simp only [step, sendStep, transmitterActions]
    split <;> rfl
  | deliver i =>
    simp only [step, deliverStep, transmitterActions]
    split
    · split <;> rfl
    · rfl
  | lose i => rfl
  | duplicate i => rfl

theorem step_receiver (a : Action) (s : Boards) :
    (step a s).receiver = Interleaving.run Motor.step s.receiver (receiverActions a s) := by
  cases a with
  | transmitter a =>
    simp only [step, receiverActions]
    split <;> rfl
  | receiver a =>
    simp only [step, receiverActions]
    split <;> rfl
  | send =>
    simp only [step, sendStep, receiverActions]
    split <;> rfl
  | deliver i =>
    simp only [step, deliverStep, receiverActions]
    split
    · cases s.inFlight[i]? <;> rfl
    · rfl
  | lose i => rfl
  | duplicate i => rfl

/-- Each board runs its own driver. -/
theorem run_transmitter (s : Boards) (acts : List Action) : (run s acts).transmitter =
    Motor.run s.transmitter (Interleaving.project transmitterActions step s acts) :=
  Interleaving.run_project step_transmitter s acts

theorem run_receiver (s : Boards) (acts : List Action) : (run s acts).receiver =
    Motor.run s.receiver (Interleaving.project receiverActions step s acts) :=
  Interleaving.run_project step_receiver s acts

/-! ### The set-point -/

/-- A datagram from the other board is a whole value. -/
theorem received_datagram (position desired : Int32) :
    received (some (datagram position)) desired = position := by
  apply received_whole
  have hload : load32 (writeBytes (fun _ => 0) 0 (wordBytes position.toBitVec)) 0 =
      position.toBitVec := load32_store32 (fun _ => 0) 0 position.toBitVec
  simp only [wholeValue, datagram, hload]
  rfl

/-- The receiver's own actions leave the set-point alone. -/
theorem setPoint_step_own {a : Motor.Action} (h : ofBoard a = true) (s : Motor.State) :
    (Motor.step a s).driver.shared.desiredPosition = s.driver.shared.desiredPosition := by
  rw [step_desiredPosition]
  cases a with
  | receive outcome =>
    cases outcome with
    | none =>
      by_cases hready : s.isr = .idle ∧ s.udp = .receive
      · simp only [receives, if_pos hready, received]
      · simp only [receives, if_neg hready]
    | some bytes => cases h
  | _ => rfl

end RealTimeLabs.Steering
