import RealTimeLabs.Motor.Settling
import RealTimeLabs.Steering.Law

/-! One motor follows the other.

The first board's shaft is turned by hand, and its position is sent; the second board's shaft has a
motor, which gives way to its drive. The network loses, duplicates and reorders datagrams, so an old
one can turn the second motor back; but once the first shaft rests, and nothing but its position is
on its way, a single datagram that arrives is enough (`follows`). On each board every quarter of the
shaft waits for the handler of the last one, and no handler starts in the window of the receiver's
motor task (`Tended`). -/
namespace RealTimeLabs.Steering
open Bytes Motor Interleaving

/-- Both shafts are paced, and the receiver's window is clear. -/
def Tended (t r : Bench) (a : Action) (s : Boards) : Prop :=
  Along Motor.step (Paced t.shaft) s.transmitter (transmitterActions a s) ∧
    Along Motor.step (Steady r.shaft) s.receiver (receiverActions a s)

instance (t r : Bench) (a : Action) (s : Boards) : Decidable (Tended t r a s) :=
  inferInstanceAs (Decidable (_ ∧ _))

/-- Nobody turns the first shaft, and nobody but its motor the second. -/
def Calm : Action → Boards → Prop
  | .transmitter (.shaft _), _ => False
  | .receiver (.shaft forward), s => Driven (.shaft forward) s.receiver
  | _, _ => True

instance : (a : Action) → (s : Boards) → Decidable (Calm a s)
  | .transmitter (.shaft _), _ => .isFalse id
  | .receiver (.shaft forward), s =>
    inferInstanceAs (Decidable (Driven (.shaft forward) s.receiver))
  | .transmitter .enter, _ | .transmitter .isr, _ | .transmitter .task, _
  | .transmitter (.receive _), _ | .transmitter .give, _ | .receiver .enter, _
  | .receiver .isr, _ | .receiver .task, _ | .receiver (.receive _), _ | .receiver .give, _
  | .send, _ | .deliver _, _ | .lose _, _ | .duplicate _, _ => .isTrue trivial

/-- The second motor makes a turn. -/
def Action.turns : Action → Bool
  | .receiver a => a.turns
  | _ => false

/-- The first shaft's last quarter has been handled, and nothing but its position is on its way. -/
structure Rested (s : Boards) : Prop where
  idle : s.transmitter.isr = .idle
  handled : s.transmitter.driver.latched = false
  inFlight : ∀ bytes ∈ s.inFlight, bytes = datagram s.position

/-! ### The first shaft -/

/-- It rests at a position, and no other is on its way. -/
structure Resting (origin shaft : Int) (position : Int32) (s : Boards) : Prop where
  agrees : position.toInt = shaft - origin
  located : Located origin s.transmitter
  shaft : s.transmitter.shaft = shaft
  counted : s.position = position
  inFlight : ∀ bytes ∈ s.inFlight, bytes = datagram position

section
variable {t r : Bench} {shaft : Int} {position : Int32} {a : Action} {s : Boards}

/-- What a calm action does to the transmitter. -/
theorem transmitterActions_calm (hcalm : Calm a s) :
    transmitterActions a s = [] ∨
      ∃ a', transmitterActions a s = [a'] ∧ Motor.Action.turns a' = false := by
  cases a with
  | transmitter a =>
    simp only [transmitterActions]
    split
    · refine .inr ⟨a, rfl, ?_⟩
      cases a <;> first | rfl | exact hcalm.elim
    · exact .inl rfl
  | _ => exact .inl rfl

theorem resting_transmitter (h : Resting t.shaft shaft position s) (hT : Tended t r a s)
    (hcalm : Calm a s) : Located t.shaft (step a s).transmitter ∧
      (step a s).transmitter.shaft = shaft ∧ (step a s).position = position := by
  have hpaced := hT.1
  have hcounted : s.transmitter.driver.shared.position.toInt = s.transmitter.shaft - t.shaft := by
    rw [show s.transmitter.driver.shared.position = position from h.counted, h.agrees, h.shaft]
  rw [Boards.position, step_transmitter]
  rcases transmitterActions_calm hcalm with hnone | ⟨a', hown, hstill⟩
  · rw [hnone]
    exact ⟨h.located, h.shaft, h.counted⟩
  · rw [hown] at hpaced ⊢
    exact ⟨located_step a' _ h.located hpaced.1, (step_shaft_of hstill _).trans h.shaft,
      (h.located.step_position hcounted hstill).trans h.counted⟩

/-- What is on its way stays the position. -/
theorem resting_inFlight (h : Resting t.shaft shaft position s) :
    ∀ bytes ∈ (step a s).inFlight, bytes = datagram position := by
  intro bytes hbytes
  cases a with
  | transmitter a | receiver a =>
    simp only [step] at hbytes
    split at hbytes <;> exact h.inFlight bytes hbytes
  | send =>
    simp only [step, sendStep] at hbytes
    split at hbytes
    · rcases List.mem_append.mp hbytes with hold | hnew
      · exact h.inFlight bytes hold
      · rw [List.mem_singleton.mp hnew, ← h.counted]
        rfl
    · exact h.inFlight bytes hbytes
  | deliver i =>
    simp only [step, deliverStep] at hbytes
    split at hbytes
    · split at hbytes
      · exact h.inFlight bytes (List.mem_of_mem_eraseIdx hbytes)
      · exact h.inFlight bytes hbytes
    · exact h.inFlight bytes hbytes
  | lose i => exact h.inFlight bytes (List.mem_of_mem_eraseIdx hbytes)
  | duplicate i =>
    rcases List.mem_append.mp hbytes with hold | hnew
    · exact h.inFlight bytes hold
    · exact h.inFlight bytes (List.mem_of_getElem? (Option.mem_toList.mp hnew))

theorem resting_step (h : Resting t.shaft shaft position s) (hT : Tended t r a s)
    (hcalm : Calm a s) : Resting t.shaft shaft position (step a s) := by
  obtain ⟨hlocated, hshaft, hcounted⟩ := resting_transmitter h hT hcalm
  exact ⟨h.agrees, hlocated, hshaft, hcounted, resting_inFlight h⟩

/-- And the receiver has been told. -/
structure Told (origin shaft : Int) (position : Int32) (s : Boards) : Prop where
  resting : Resting origin shaft position s
  setPoint : s.setPoint = position

/-- Whatever the receiver does, it keeps the set-point that it has been told. -/
theorem told_driven (h : Told t.shaft shaft position s) (hcalm : Calm a s) :
    Along Motor.step Driven s.receiver (receiverActions a s) := by
  cases a with
  | receiver a =>
    simp only [receiverActions]
    split
    · rename_i hown
      refine ⟨?_, trivial⟩
      cases a with
      | shaft forward => exact hcalm
      | receive outcome =>
        cases outcome with
        | none => exact rfl
        | some bytes => cases hown
      | _ => trivial
    · trivial
  | deliver i =>
    simp only [receiverActions]
    split
    · cases hget : s.inFlight[i]? with
      | none => trivial
      | some bytes =>
        refine ⟨?_, trivial⟩
        change received (some bytes) s.setPoint = s.setPoint
        rw [h.resting.inFlight bytes (List.mem_of_getElem? hget), received_datagram, h.setPoint]
    · trivial
  | _ => trivial

theorem told_step (h : Told t.shaft shaft position s) (hT : Tended t r a s) (hcalm : Calm a s) :
    Told t.shaft shaft position (step a s) := by
  refine ⟨resting_step h.resting hT hcalm, ?_⟩
  have hdriven := told_driven h hcalm
  rw [Boards.setPoint, step_receiver]
  have hkeep (own : List Motor.Action) (hown : Along Motor.step Driven s.receiver own)
      (hlen : own.length ≤ 1) :
      (Interleaving.run Motor.step s.receiver own).driver.shared.desiredPosition = position := by
    cases own with
    | nil => exact h.setPoint
    | cons a rest =>
      obtain rfl : rest = [] := List.eq_nil_of_length_eq_zero (by simpa using hlen)
      exact (Motor.step_setPoint hown.1).trans h.setPoint
  refine hkeep _ hdriven ?_
  cases a with
  | receiver a =>
    simp only [receiverActions]
    split <;> exact Nat.le_of_ble_eq_true rfl
  | deliver i =>
    simp only [receiverActions]
    split
    · cases s.inFlight[i]? <;> exact Nat.le_of_ble_eq_true rfl
    · exact Nat.zero_le 1
  | _ => exact Nat.zero_le 1

/-- A datagram that arrives tells it. -/
theorem told_deliver {i : Nat} (h : Resting t.shaft shaft position s)
    (hT : Tended t r (.deliver i) s) (hi : i < s.inFlight.length)
    (hready : s.receiver.isr = .idle ∧ s.receiver.udp = .receive) :
    Told t.shaft shaft position (step (.deliver i) s) := by
  refine ⟨resting_step h hT trivial, ?_⟩
  have hbytes := h.inFlight s.inFlight[i] (List.getElem_mem hi)
  simp only [Boards.setPoint, step, deliverStep, if_pos hready, List.getElem?_eq_getElem hi, hbytes]
  simp only [Motor.step, if_pos hready.1, receiveStep, hready.2]
  exact received_datagram position _

theorem told_run (h : Told t.shaft shaft position s) {acts : List Action}
    (hT : Along step (Tended t r) s acts) (hcalm : Along step Calm s acts) :
    Told t.shaft shaft position (run s acts) ∧
      Along step (fun a s => Along Motor.step Driven s.receiver (receiverActions a s)) s acts := by
  induction acts generalizing s with
  | nil => exact ⟨h, trivial⟩
  | cons a rest ih =>
    obtain ⟨hend, hdriven⟩ := ih (told_step h hT.1 hcalm.1) hT.2 hcalm.2
    exact ⟨hend, told_driven h hcalm.1, hdriven⟩

/-! ### The second shaft -/

/-- The motor's turns are the receiver's own. -/
theorem turns_receiverActions (a : Action) (s : Boards) :
    (receiverActions a s).countP Motor.Action.turns = a.turns.toNat := by
  cases a with
  | receiver a => cases a <;> first | rfl | (rename_i outcome; cases outcome <;> rfl)
  | deliver i =>
    simp only [receiverActions]
    split
    · cases s.inFlight[i]? <;> rfl
    · rfl
  | _ => rfl

theorem turns_project (s : Boards) (acts : List Action) :
    (project receiverActions step s acts).countP Motor.Action.turns =
      acts.countP Action.turns := by
  induction acts generalizing s with
  | nil => rfl
  | cons a rest ih =>
    rw [project, List.countP_append, turns_receiverActions, ih, List.countP_cons, Nat.add_comm]
    cases a.turns <;> rfl

theorem deliver_shaft (i : Nat) (s : Boards) :
    (step (.deliver i) s).receiver.shaft = s.receiver.shaft := by
  simp only [step, deliverStep]
  split
  · split
    · exact step_shaft_of rfl _
    · rfl
  · rfl

end

/-- How far the second shaft is behind the first, each counted from its origin. -/
def Boards.apart (t r : Bench) (s : Boards) : Int :=
  s.transmitter.shaft - t.shaft - (s.receiver.shaft - r.shaft)

/-- **One motor follows the other**, whatever both boards and the network have done before,
statement by statement, in a run in which every quarter of a shaft waits for the handler of the last
one and no handler starts in the window of the receiver's motor task: if the first shaft rests, and
nothing but its position is on its way, then one datagram that arrives is enough. From then on every
turn that the second motor makes, driven by a controller at rest, leads nearer to the position of
the first shaft; at rest the register drives it the way that is left, and if none is left, not at
all. -/
theorem follows (t r : Bench) (before after : List Action) (i : Nat)
    (hT : Along step (Tended t r) (initial t r) (before ++ .deliver i :: after))
    (hrested : Rested (run (initial t r) before))
    (hready : (run (initial t r) before).receiver.isr = .idle ∧
      (run (initial t r) before).receiver.udp = .receive)
    (hi : i < (run (initial t r) before).inFlight.length)
    (hcalm : Along step Calm (run (initial t r) (before ++ [.deliver i])) after)
    (hfits : Fits ((run (initial t r) before).apart t r)) :
    let s := run (initial t r) before
    let s' := run s (.deliver i :: after)
    s'.transmitter.shaft = s.transmitter.shaft ∧
      s'.receiver.shaft - r.shaft = approach (s.transmitter.shaft - t.shaft)
        (s.receiver.shaft - r.shaft) (after.countP Action.turns) ∧
      after.countP Action.turns + |s'.apart t r| = |s.apart t r| ∧
      (Quiescent s'.receiver → s'.receiver.driver.latched = false →
        drive s'.receiver.driver.pwmDutyCr = (s'.apart t r).sign ∧
          (s'.apart t r = 0 → s'.receiver.driver.shared.pwmDuty = 0)) := by
  intro s s'
  have hsplit : run (initial t r) (before ++ [.deliver i]) = step (.deliver i) s :=
    run_append step _ before [.deliver i]
  rw [hsplit] at hcalm
  have hbefore := hT.take before.length
  have hafter := hT.drop before.length
  rw [List.take_left] at hbefore
  rw [List.take_left, List.drop_left] at hafter
  obtain ⟨hdeliver, hafter⟩ := hafter
  -- the first board
  have htransmitter : Located t.shaft s.transmitter := by
    have hpaced : Along Motor.step (Paced t.shaft) (initial t r).transmitter
        (project transmitterActions step (initial t r) before) :=
      along_project step_transmitter (hbefore.imp fun _ _ h => h.1)
    change Located t.shaft (run (initial t r) before).transmitter
    rw [run_transmitter]
    exact located_run hpaced
  have hposition : s.position.toInt = s.transmitter.shaft - t.shaft :=
    htransmitter.position hrested.idle hrested.handled
  have htold : Told t.shaft s.transmitter.shaft s.position (step (.deliver i) s) :=
    told_deliver ⟨hposition, htransmitter, rfl, rfl, hrested.inFlight⟩ hdeliver hi hready
  obtain ⟨hend, hdriven⟩ := told_run htold hafter hcalm
  -- the second one
  have hsteady : Along step (fun a s => Along Motor.step (Steady r.shaft) s.receiver
      (receiverActions a s)) (initial t r) (before ++ [.deliver i]) :=
    along_append (hbefore.imp fun _ _ h => h.2) ⟨hdeliver.2, trivial⟩
  have hcontrolled : Controlled r.shaft (step (.deliver i) s).receiver := by
    rw [← hsplit, run_receiver]
    exact (throughout_of_along controlled_step (controlled_initial r.shaft r.cr r.status)
      (along_project step_receiver hsteady)).last
  have hway (s₁ : Boards) (hset : s₁.setPoint = s.position)
      (hshaft : s₁.transmitter.shaft = s.transmitter.shaft) :
      s₁.receiver.way r.shaft = s₁.apart t r := by
    change s₁.setPoint.toInt - _ = s₁.transmitter.shaft - _ - _
    rw [hset, hposition, hshaft]
  have hstart := hway _ htold.setPoint htold.resting.shaft
  have hsame : (step (.deliver i) s).apart t r = s.apart t r := by
    rw [Boards.apart, Boards.apart, htold.resting.shaft, deliver_shaft]
  have hunderway : Underway r.shaft s.position (step (.deliver i) s).receiver :=
    ⟨hcontrolled, htold.setPoint, by rw [hstart, hsame]; exact hfits⟩
  obtain ⟨hlast, hshaft, hleft⟩ := underway_run hunderway
    (along_project step_receiver (hafter.imp fun _ _ h => h.2))
    (along_project step_receiver hdriven)
  rw [turns_project] at hshaft hleft
  have hreceiver : s'.receiver = Motor.run (step (.deliver i) s).receiver
      (project receiverActions step (step (.deliver i) s) after) :=
    run_receiver (step (.deliver i) s) after
  rw [← hreceiver] at hlast hshaft hleft
  have hwayEnd : s'.receiver.way r.shaft = s'.apart t r := hway s' hend.setPoint hend.resting.shaft
  refine ⟨hend.resting.shaft, ?_, ?_, fun hquiet hhandled => ?_⟩
  · rw [hshaft, deliver_shaft, hposition]
    unfold approach
    omega
  · rw [← hwayEnd, ← hsame, ← hstart]
    exact hleft
  · obtain ⟨hdrive, hduty⟩ := hlast.controlled.drive hquiet hhandled hlast.fits
    rw [hwayEnd] at hdrive hduty
    refine ⟨hdrive, fun hnone => ?_⟩
    rw [hnone] at hduty
    exact Int32.toInt_inj.mp hduty

/-- Both boards start; the first shaft is turned by two quarters, with a datagram between them that
is lost, and the second is pushed back by one. -/
def turned : List Action :=
  (List.replicate 5 Motor.Action.task).map .transmitter ++
    (List.replicate 5 Motor.Action.task).map .receiver ++
    (.shaft true :: handled).map .transmitter ++ [.send] ++
    (.shaft true :: handled).map .transmitter ++ [.lose 0, .send, .duplicate 0] ++
    (.shaft false :: handled).map .receiver

/-- The update, and three turns, with the duplicate among them. -/
def follow : List Action :=
  (Motor.Action.give :: updated).map .receiver ++ (.shaft true :: handled).map .receiver ++
    [.deliver 0] ++ (Motor.Action.give :: updated ++ .shaft true :: handled).map .receiver ++
    [.send] ++ (.shaft true :: handled).map .receiver

theorem follows_turned :
    let s' := run (run (initial ⟨5, 7, 0⟩ ⟨-3, 0, 4⟩) turned) (.deliver 1 :: follow)
    s'.apart ⟨5, 7, 0⟩ ⟨-3, 0, 4⟩ = 0 ∧ drive s'.receiver.driver.pwmDutyCr = 0 := by
  dsimp only
  obtain ⟨_, _, hleft, hrest⟩ := follows ⟨5, 7, 0⟩ ⟨-3, 0, 4⟩ turned follow 1 (by decide +kernel)
    ⟨by decide +kernel, by decide +kernel, by decide +kernel⟩ (by decide +kernel)
    (by decide +kernel) (by decide +kernel) (by decide +kernel)
  have hway : |(run (initial ⟨5, 7, 0⟩ ⟨-3, 0, 4⟩) turned).apart ⟨5, 7, 0⟩ ⟨-3, 0, 4⟩| =
      (follow.countP Action.turns : Int) := by decide +kernel
  have hapart := abs_eq_zero.mp (add_eq_left.mp (hleft.trans hway))
  exact ⟨hapart, (hrest (by decide +kernel) (by decide +kernel)).1.trans
    (congrArg Int.sign hapart)⟩

end RealTimeLabs.Steering
