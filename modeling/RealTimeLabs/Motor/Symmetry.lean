import RealTimeLabs.Motor.Pwm
import RealTimeLabs.Motor.Tasks
import RealTimeLabs.Motor.Tracking

/-! Forwards and backwards.

Two runs of the receiver side by side, the second with its encoder lines exchanged at
every sample and every set-point negated. The decoder is symmetric, and so are the
clamps, the minimum duty and the encoding of the duty register. The scaling of the
squared distance is not: `>> 8` rounds towards the negative, so that a distance loses up
to one percent of duty forwards that it keeps backwards. It shows unless the square is a
multiple of 256, or is overruled by the minimum duty or by the limit of a hundred percent
(`duty_neg_iff`). The second run mirrors the first one exactly as far as no update is
made at another distance (`symmetric_iff_unskewed`). -/
namespace RealTimeLabs.Motor
open Quadrature Interleaving

/-! ### Events -/

/-- `MOTOR_SR` with the two lines as given. -/
def lineSr (a b : Bool) : BitVec 32 :=
  (if a then bit motorSrIrcAMon else 0) ||| (if b then bit motorSrIrcBMon else 0)

/-- An iteration of the loop of `motor`, after its `semTake`. -/
def motorUpdate (d : Driver) : Driver :=
  if d.setPositionToDesired then
    let duty := getPwm d.distance
    (d.setDuty duty).storeDuty duty
  else d

/-- Left alone, the motor task's statements are `motorUpdate`. -/
theorem run_motorUpdate {s : State} (htask : s.task = .compute) (hidle : s.isr = .idle)
    (hmode : s.driver.setPositionToDesired = true) :
    (run s (List.replicate 5 .task)).task = .take ∧
      (run s (List.replicate 5 .task)).driver = motorUpdate s.driver := by
  obtain ⟨driver, shaft, isr, task, udp, sem, enabled, updated⟩ := s
  subst htask hidle
  simp only at hmode
  simp [run, Interleaving.run, step, taskStep, motorUpdate, hmode, Update.of]

/-- What reaches the receiver: an interrupt with its sample of the lines, a set-point, and
the motor task's turn. -/
inductive Event where
  | sample (a b : Bool)
  | receive (desired : Int32)
  | update

/-- The event in the mirror. -/
def Event.mirror : Event → Event
  | .sample a b => .sample b a
  | .receive desired => .receive (-desired)
  | .update => .update

def react : Event → Driver → Driver
  | .sample a b, d => motorIsr (lineSr a b) (lineSr a b) d
  | .receive desired, d => { d with shared := { d.shared with desiredPosition := desired } }
  | .update, d => motorUpdate d

/-- The receiver after `motor_init`, its lines at `a` and `b`. -/
def started (desired : Int32) (a b : Bool) : Driver :=
  motorInit (lineSr a b) (lineSr a b)
    { booted with
      setPositionToDesired := true, shared := { booted.shared with desiredPosition := desired } }

/-- Both runs take the same step, the second in the mirror. -/
def stepBoth (e : Event) (s : Driver × Driver) : Driver × Driver :=
  (react e s.1, react e.mirror s.2)

def startedBoth (desired : Int32) (a b : Bool) : Driver × Driver :=
  (started desired a b, started (-desired) b a)

/-! ### The law -/

/-- The two direction bits change places. -/
def exchanged (cr : BitVec 32) : BitVec 32 :=
  cr.extractLsb' dutyDirF 1 ++ cr.extractLsb' dutyDirR 1 ++ cr.extractLsb' 0 30

/-- The second driver is the mirror image of the first. -/
structure Opposite (s : Driver × Driver) : Prop where
  position : s.2.shared.position = -s.1.shared.position
  pwmDuty : s.2.shared.pwmDuty = -s.1.shared.pwmDuty
  register : s.1.shared.pwmDuty ≠ 0 → s.2.pwmDutyCr = exchanged s.1.pwmDutyCr

/-- Where positions and set-points are supposed to stay, on both sides of zero. -/
def reach : Int := 1073741824

def Driver.Inside (d : Driver) : Prop :=
  (-reach < d.shared.position.toInt ∧ d.shared.position.toInt < reach) ∧
    (-reach < d.shared.desiredPosition.toInt ∧ d.shared.desiredPosition.toInt < reach)

instance (d : Driver) : Decidable d.Inside := inferInstanceAs (Decidable (_ ∧ _))

/-- A distance at which rounding towards the negative makes no difference. -/
def Unskewed (distance : Int32) : Prop :=
  distance.toInt.natAbs ≤ 27 ∨ 160 ≤ distance.toInt.natAbs ∨ distance.toInt % 16 = 0

instance (distance : Int32) : Decidable (Unskewed distance) :=
  inferInstanceAs (Decidable (_ ∨ _))

/-- The first run makes no update at a skewed distance, in an interrupt that of the
position just counted. -/
def UnskewedUpdate : Event → Driver × Driver → Prop
  | .sample a b, s => Unskewed (s.1.decode (ircA (lineSr a b)) (ircB (lineSr a b))).distance
  | .receive _, _ => True
  | .update, s => Unskewed s.1.distance

instance : (e : Event) → (s : Driver × Driver) → Decidable (UnskewedUpdate e s)
  | .sample _ _, _ => inferInstanceAs (Decidable (Unskewed _))
  | .receive _, _ => .isTrue trivial
  | .update, _ => inferInstanceAs (Decidable (Unskewed _))

/-! ### The control value -/

/-- All distances that the clamp lets through. -/
theorem duty_neg_clamped : ∀ n : Fin 201, duty (-(n.val : Int)) = -duty n.val ↔
    n.val ≤ 27 ∨ 160 ≤ n.val ∨ (n.val : Int) % 16 = 0 := by
  decide +kernel

theorem clampedDistance_neg (d : Int) : clampedDistance (-d) = -clampedDistance d := by
  unfold clampedDistance
  omega

theorem duty_clamped (d : Int) : duty (clampedDistance d) = duty d := by
  have hidem : clampedDistance (clampedDistance d) = clampedDistance d := by
    unfold clampedDistance
    omega
  unfold duty
  rw [hidem]

/-- Where the controller is as strong in both directions. -/
theorem duty_neg_iff (d : Int) :
    duty (-d) = -duty d ↔ d.natAbs ≤ 27 ∨ 160 ≤ d.natAbs ∨ d % 16 = 0 := by
  obtain ⟨n, hn, hsign⟩ : ∃ n : Nat, n = min d.natAbs 200 ∧
      (clampedDistance d = n ∨ clampedDistance d = -(n : Int)) := by
    refine ⟨_, rfl, ?_⟩
    unfold clampedDistance
    omega
  have hlt : n < 201 := by rw [hn]; exact Nat.lt_succ_of_le (Nat.min_le_right _ _)
  have hfinite := duty_neg_clamped ⟨n, hlt⟩
  have hsame : (d.natAbs ≤ 27 ∨ 160 ≤ d.natAbs ∨ d % 16 = 0) ↔
      n ≤ 27 ∨ 160 ≤ n ∨ (n : Int) % 16 = 0 := by
    clear hsign
    omega
  rw [hsame, ← hfinite, ← duty_clamped d, ← duty_clamped (-d), clampedDistance_neg]
  rcases hsign with hpos | hneg
  · rw [hpos]
  · rw [hneg, neg_neg]
    exact ⟨fun h => by rw [h, neg_neg], fun h => by rw [h, neg_neg]⟩

/-! ### The duty register -/

/-- Registers that encode opposite duties have their direction bits exchanged. -/
theorem Encodes.exchanged {cr cr' : BitVec 32} {pwm : Int} (h : Encodes cr pwm)
    (h' : Encodes cr' (-pwm)) (hne : pwm ≠ 0) : cr' = Motor.exchanged cr := by
  have hlow : cr'.setWidth 30 = cr.setWidth 30 := by
    apply BitVec.eq_of_toNat_eq
    have hshare := h'.share
    rw [abs_neg, ← h.share] at hshare
    exact_mod_cast hshare
  have hR : cr'.getLsbD dutyDirR = cr.getLsbD dutyDirF := by
    rw [Bool.eq_iff_iff, h'.reverse, h.forward]
    omega
  have hF : cr'.getLsbD dutyDirF = cr.getLsbD dutyDirR := by
    rw [Bool.eq_iff_iff, h'.forward, h.reverse]
    omega
  apply BitVec.eq_of_getLsbD_eq
  intro i hi
  simp only [Motor.exchanged, BitVec.getLsbD_append, BitVec.getLsbD_extractLsb']
  by_cases hi30 : i < 30
  · have hbit := congrArg (·.getLsbD i) hlow
    simp only [BitVec.getLsbD_setWidth, hi30, decide_true, Bool.true_and] at hbit
    simp [hi30, hbit]
  · have hcases : i = dutyDirF ∨ i = dutyDirR := by simp only [dutyDirF, dutyDirR]; omega
    rcases hcases with rfl | rfl
    · rw [hF]
      rfl
    · rw [hR]
      rfl

/-! ### One update in both runs -/

theorem toInt_distance {d : Driver} (h : d.Inside) :
    d.distance.toInt = d.shared.desiredPosition.toInt - d.shared.position.toInt := by
  obtain ⟨⟨hp, hp'⟩, hd, hd'⟩ := h
  simp only [reach] at hp hp' hd hd'
  unfold Driver.distance
  rw [Int32.toInt_sub]
  apply Int.bmod_eq_of_le <;> omega

/-- Inside the reach, the 32-bit negation of a distance is its negation. -/
theorem toInt_neg_distance {d : Driver} (h : d.Inside) :
    (-d.distance).toInt = -d.distance.toInt := by
  have hdist := toInt_distance h
  obtain ⟨⟨hp, hp'⟩, hd, hd'⟩ := h
  simp only [reach] at hp hp' hd hd'
  rw [Int32.toInt_neg]
  apply Int.bmod_eq_of_le <;> omega

/-- The published duties of two distances are opposite when the percentages are. -/
theorem toInt32_eq_neg_iff {duty duty' : Int8} (h : -100 ≤ duty.toInt ∧ duty.toInt ≤ 100) :
    duty'.toInt32 = -duty.toInt32 ↔ duty'.toInt = -duty.toInt := by
  have hneg : (-duty.toInt32).toInt = -duty.toInt := by
    rw [Int32.toInt_neg, Int8.toInt_toInt32]
    apply Int.bmod_eq_of_le <;> omega
  rw [← Int32.toInt_inj, hneg, Int8.toInt_toInt32]

/-- What an update relies on, and does not change. -/
structure Facing (s : Driver × Driver) : Prop where
  position : s.2.shared.position = -s.1.shared.position
  desired : s.2.shared.desiredPosition = -s.1.shared.desiredPosition
  receiver : s.1.setPositionToDesired = true ∧ s.2.setPositionToDesired = true

theorem Facing.distance {s : Driver × Driver} (h : Facing s) :
    s.2.distance = -s.1.distance := by
  unfold Driver.distance
  rw [h.position, h.desired]
  grind

section
variable (d : Driver)

theorem motorUpdate_unchanged : (motorUpdate d).motorState = d.motorState ∧
    (motorUpdate d).shared.position = d.shared.position ∧
    (motorUpdate d).shared.desiredPosition = d.shared.desiredPosition ∧
    (motorUpdate d).setPositionToDesired = d.setPositionToDesired := by
  unfold motorUpdate
  split
  · simp only [Driver.setDuty, Driver.storeDuty, and_self]
  · exact ⟨rfl, rfl, rfl, rfl⟩

@[simp] theorem motorUpdate_motorState : (motorUpdate d).motorState = d.motorState :=
  (motorUpdate_unchanged d).1

@[simp] theorem motorUpdate_position : (motorUpdate d).shared.position = d.shared.position :=
  (motorUpdate_unchanged d).2.1

@[simp] theorem motorUpdate_desiredPosition :
    (motorUpdate d).shared.desiredPosition = d.shared.desiredPosition :=
  (motorUpdate_unchanged d).2.2.1

@[simp] theorem motorUpdate_setPositionToDesired :
    (motorUpdate d).setPositionToDesired = d.setPositionToDesired :=
  (motorUpdate_unchanged d).2.2.2

theorem motorUpdate_pwmDuty (h : d.setPositionToDesired = true) :
    (motorUpdate d).shared.pwmDuty = (getPwm d.distance).toInt32 := by
  simp only [motorUpdate, if_pos h, Driver.setDuty, Driver.storeDuty]

theorem motorUpdate_pwmDutyCr (h : d.setPositionToDesired = true) :
    (motorUpdate d).pwmDutyCr = setMotorDutycycle (getPwm d.distance) d.pwmDutyCr := by
  simp only [motorUpdate, if_pos h, Driver.setDuty, Driver.storeDuty]

end

/-- **An update of both runs is symmetric exactly at the unskewed distances.** -/
theorem opposite_update_iff {s : Driver × Driver} (h : Facing s) (hin : s.1.Inside) :
    Opposite (motorUpdate s.1, motorUpdate s.2) ↔ Unskewed s.1.distance := by
  have hbounds := getPwm_range s.1.distance
  have hduty : (getPwm s.2.distance).toInt = -(getPwm s.1.distance).toInt ↔
      Unskewed s.1.distance := by
    rw [getPwm_toInt, getPwm_toInt, h.distance, toInt_neg_distance hin]
    exact duty_neg_iff _
  have hpwm := motorUpdate_pwmDuty s.1 h.receiver.1
  have hpwm' := motorUpdate_pwmDuty s.2 h.receiver.2
  rw [← hduty, ← toInt32_eq_neg_iff hbounds, ← hpwm, ← hpwm']
  constructor
  · exact fun hopp => hopp.pwmDuty
  · intro hneg
    refine ⟨?_, hneg, fun hne => ?_⟩
    · rw [motorUpdate_position, motorUpdate_position]
      exact h.position
    rw [hpwm, hpwm', toInt32_eq_neg_iff hbounds] at hneg
    have hne0 : (getPwm s.1.distance).toInt ≠ 0 := fun h0 =>
      hne (hpwm.trans (Int32.toInt_inj.mp ((Int8.toInt_toInt32 _).trans h0)))
    have hencodes := setMotorDutycycle_encodes (getPwm s.1.distance) s.1.pwmDutyCr hbounds
    have hencodes' := setMotorDutycycle_encodes (getPwm s.2.distance) s.2.pwmDutyCr
      (getPwm_range _)
    rw [hneg] at hencodes'
    rw [motorUpdate_pwmDutyCr s.1 h.receiver.1, motorUpdate_pwmDutyCr s.2 h.receiver.2]
    exact hencodes.exchanged hencodes' hne0

/-! ### The decoder in the mirror -/

theorem decode_swap (a b a' b' : Bool) : decode b a b' a' = -decode a b a' b' := by
  cases a <;> cases b <;> cases a' <;> cases b' <;> decide

theorem sample_lineSr (a b : Bool) : ircA (lineSr a b) ||| ircB (lineSr a b) = pattern a b := by
  cases a <;> cases b <;> decide

theorem initState_lineSr (a b : Bool) : initState (lineSr a b) (lineSr a b) = pattern a b := by
  cases a <;> cases b <;> decide

/-- The two runs between events: facing each other, lines and positions, and opposite in
what the last update has left. -/
structure MirrorImage (s : Driver × Driver) : Prop where
  facing : Facing s
  lines : ∃ a b, s.1.motorState = pattern a b ∧ s.2.motorState = pattern b a
  opposite : Opposite s

theorem mirrorImage_started (desired : Int32) (a b : Bool) :
    MirrorImage (startedBoth desired a b) :=
  have hzero : (0 : Int32) = -0 := by decide
  ⟨⟨hzero, rfl, rfl, rfl⟩, ⟨a, b, initState_lineSr a b, initState_lineSr b a⟩,
    ⟨hzero, hzero, fun hne => absurd rfl hne⟩⟩

theorem position_decode {a b a' b' : Bool} {d : Driver} (h : d.motorState = pattern a b) :
    (d.decode (ircA (lineSr a' b')) (ircB (lineSr a' b'))).shared.position =
      d.shared.position + Int32.ofInt (decode a b a' b') := by
  rw [← transitionTable_pattern, ← h, ← sample_lineSr a' b']
  rfl

/-- Samples with exchanged lines keep the runs facing each other. -/
theorem MirrorImage.decode {s : Driver × Driver} (h : MirrorImage s) (a b : Bool) :
    Facing (s.1.decode (ircA (lineSr a b)) (ircB (lineSr a b)),
      s.2.decode (ircA (lineSr b a)) (ircB (lineSr b a))) := by
  obtain ⟨a₀, b₀, h1, h2⟩ := h.lines
  refine ⟨?_, h.facing.desired, h.facing.receiver⟩
  simp only
  rw [position_decode h1, position_decode h2, h.facing.position, decode_swap, Int32.ofInt_neg]
  rw [Int32.neg_add, Int32.sub_eq_add_neg]

theorem facing_update {s : Driver × Driver} (h : Facing s) :
    Facing (motorUpdate s.1, motorUpdate s.2) := by
  refine ⟨?_, ?_, ?_⟩
  · simp only [motorUpdate_position]
    exact h.position
  · simp only [motorUpdate_desiredPosition]
    exact h.desired
  · simp only [motorUpdate_setPositionToDesired]
    exact h.receiver

theorem inside_update {d : Driver} (h : (motorUpdate d).Inside) : d.Inside := by
  simp only [Driver.Inside, motorUpdate_position, motorUpdate_desiredPosition] at h
  exact h

theorem mirrorImage_step (e : Event) (s : Driver × Driver) (h : MirrorImage s)
    (hin : (stepBoth e s).1.Inside) (hC : UnskewedUpdate e s) : MirrorImage (stepBoth e s) := by
  cases e with
  | sample a b =>
    -- a handler is a decoding, an update and the acknowledgement
    have hdecode := h.decode a b
    have hopp := (opposite_update_iff hdecode (inside_update hin)).mpr hC
    have hface := facing_update hdecode
    refine ⟨⟨hface.position, hface.desired, hface.receiver⟩, ⟨a, b, ?_, ?_⟩,
      ⟨hopp.position, hopp.pwmDuty, hopp.register⟩⟩
    · exact (motorUpdate_motorState _).trans (sample_lineSr a b)
    · exact (motorUpdate_motorState _).trans (sample_lineSr b a)
  | receive desired =>
    exact ⟨⟨h.facing.position, rfl, h.facing.receiver⟩, h.lines,
      ⟨h.opposite.position, h.opposite.pwmDuty, h.opposite.register⟩⟩
  | update =>
    refine ⟨facing_update h.facing, ?_,
      (opposite_update_iff h.facing (inside_update hin)).mpr hC⟩
    simp only [stepBoth, react, Event.mirror, motorUpdate_motorState]
    exact h.lines

/-- A skewed update shows at once. -/
theorem not_opposite_step (e : Event) (s : Driver × Driver) (h : MirrorImage s)
    (hin : (stepBoth e s).1.Inside) (hC : ¬ UnskewedUpdate e s) : ¬ Opposite (stepBoth e s) := by
  cases e with
  | sample a b =>
    intro hopp
    exact hC ((opposite_update_iff (h.decode a b) (inside_update hin)).mp
      ⟨hopp.position, hopp.pwmDuty, hopp.register⟩)
  | receive desired => exact absurd trivial hC
  | update => exact fun hopp => hC ((opposite_update_iff h.facing (inside_update hin)).mp hopp)

/-! ### The two runs -/

/-- **The mirrored run is the mirror image of the first exactly when the first makes all
its updates at unskewed distances**, as long as it stays inside the reach. -/
theorem symmetric_iff_unskewed (desired : Int32) (a b : Bool) (events : List Event)
    (hin : Throughout stepBoth (fun s => s.1.Inside) (startedBoth desired a b) events) :
    Throughout stepBoth Opposite (startedBoth desired a b) events ↔
      Along stepBoth UnskewedUpdate (startedBoth desired a b) events :=
  throughout_iff_along_within mirrorImage_step (fun _ h => h.opposite) not_opposite_step
    (mirrorImage_started desired a b) hin.along

/-- Full speed ahead, a step of the shaft, and a short way left. -/
theorem symmetric_run :
    Throughout stepBoth Opposite (startedBoth 200 false false)
      [.update, .sample true false, .receive 20, .update] ↔
      Along stepBoth UnskewedUpdate (startedBoth 200 false false)
        [.update, .sample true false, .receive 20, .update] :=
  symmetric_iff_unskewed 200 false false _ (by decide +kernel)

/-- A hundred steps off, the motor is driven at 39 percent forwards and at 40 backwards. -/
theorem skewed_hundred :
    Throughout stepBoth (fun s => s.1.Inside) (startedBoth 0 false false) [.receive 100, .update] ∧
      ¬ Throughout stepBoth Opposite (startedBoth 0 false false) [.receive 100, .update] := by
  refine ⟨by decide +kernel, fun h => ?_⟩
  have hduty := h.last.pwmDuty
  revert hduty
  decide +kernel

end RealTimeLabs.Motor
