import RealTimeLabs.Motor.ControlLaw
import RealTimeLabs.Motor.Direction
import RealTimeLabs.Motor.DutyMirror
import RealTimeLabs.Motor.Phase
import RealTimeLabs.Motor.SetPoint

/-! The controller and its motor.

The shaft of the receiver is driven by the register: wherever that gives one of the directions a
share of the period, the shaft can turn that way by a quarter of a line. Others may push it as well.
As long as each quarter waits for the handler of the last one, the position is where the shaft is
(`located_run`), and at rest the register is the duty of the way that is left. The minimum duty is
what a turn rests on: no distance but zero has a duty of zero (`drive_of_encodes`). So from a
set-point on, the turns of the motor lead straight to it, and there it rests (`settles`). -/
namespace RealTimeLabs.Motor
open Quadrature Interleaving

/-! ### The shaft -/

/-- Which way the register drives the motor, if any. -/
def drive (cr : BitVec 32) : Int :=
  if (cr.setWidth 30).toNat = 0 then 0
  else if cr.getLsbD dutyDirR then -1
  else if cr.getLsbD dutyDirF then 1
  else 0

def heading (forward : Bool) : Int := if forward then 1 else -1

/-- The shaft waits for `motor_init`, and with each quarter for the handler of the last one; and it
stays within 32 bits of its origin. -/
def Paced (origin : Int) : Action → State → Prop
  | .shaft forward, s =>
    s.task.initialising = false ∧ s.isr = .idle ∧ s.driver.latched = false ∧
      Fits (s.shaft + heading forward - origin)
  | _, _ => True

instance (origin : Int) : (a : Action) → (s : State) → Decidable (Paced origin a s)
  | .shaft forward, s => inferInstanceAs (Decidable (s.task.initialising = false ∧
      s.isr = .idle ∧ s.driver.latched = false ∧ Fits (s.shaft + heading forward - origin)))
  | .enter, _ | .isr, _ | .task, _ | .receive _, _ | .give, _ => .isTrue trivial

/-- And no handler starts in the window of the motor task. -/
def Steady (origin : Int) (a : Action) (s : State) : Prop := Paced origin a s ∧ WindowClear a s

instance (origin : Int) (a : Action) (s : State) : Decidable (Steady origin a s) :=
  inferInstanceAs (Decidable (_ ∧ _))

instance (s : State) : Decidable (Quiescent s) :=
  inferInstanceAs (Decidable (s.task = .take ∧ s.isr = .idle ∧ s.pending = false))

/-- Nobody but the motor turns the shaft: it gives way to its drive, once the controller is at
rest. And no other set-point comes. -/
def Driven : Action → State → Prop
  | .shaft forward, s => Quiescent s ∧ drive s.driver.pwmDutyCr = heading forward
  | .receive outcome, s =>
    received outcome s.driver.shared.desiredPosition = s.driver.shared.desiredPosition
  | _, _ => True

instance : (a : Action) → (s : State) → Decidable (Driven a s)
  | .shaft forward, s =>
    inferInstanceAs (Decidable (Quiescent s ∧ drive s.driver.pwmDutyCr = heading forward))
  | .receive outcome, s => inferInstanceAs (Decidable
      (received outcome s.driver.shared.desiredPosition = s.driver.shared.desiredPosition))
  | .enter, _ | .isr, _ | .task, _ | .give, _ => .isTrue trivial

def Action.turns : Action → Bool
  | .shaft _ => true
  | _ => false

/-- As near to the target as `n` quarters lead from `x`. -/
def approach (target x : Int) (n : Nat) : Int := max (x - n) (min (x + n) target)

theorem approach_add (target x : Int) (m n : Nat) :
    approach target (approach target x m) n = approach target x (m + n) := by
  unfold approach
  omega

theorem isrStep_shaft (s : State) : (isrStep s).shaft = s.shaft := by
  unfold isrStep
  split <;> (try split) <;> rfl

theorem taskStep_shaft (s : State) : (taskStep s).shaft = s.shaft := by
  unfold taskStep
  split <;> (try split) <;> rfl

theorem step_shaft_of {a : Action} (h : a.turns = false) (s : State) :
    (step a s).shaft = s.shaft := by
  cases a with
  | shaft forward => cases h
  | enter =>
    simp only [step]
    split <;> rfl
  | isr => exact isrStep_shaft s
  | task =>
    simp only [step]
    split
    · exact taskStep_shaft s
    · rfl
  | receive outcome =>
    simp only [step, receiveStep]
    split
    · split <;> rfl
    · rfl
  | give =>
    simp only [step, giveStep]
    split
    · split <;> rfl
    · rfl

theorem step_shaft (forward : Bool) (s : State) :
    (step (.shaft forward) s).shaft = s.shaft + heading forward := by
  cases forward <;> rfl

/-! ### The register and the motor -/

/-- The minimum duty keeps the motor driven until there is nothing left to go. -/
theorem drive_of_encodes {cr : BitVec 32} {d : Int} (h : Encodes cr (duty d)) :
    drive cr = d.sign := by
  obtain ⟨hzero, hpos, hneg⟩ := duty_spec d
  have hshare := h.share
  rw [pwmPeriod] at hshare
  unfold drive
  rcases Int.lt_trichotomy d 0 with hd | hd | hd
  · have hduty := hneg hd
    rw [abs_of_neg (by omega)] at hshare
    rw [if_neg (by omega), if_pos (h.reverse.mpr (by omega)), Int.sign_eq_neg_one_of_neg hd]
  · rw [hzero hd, abs_zero] at hshare
    rw [if_pos (by omega), hd]
    rfl
  · have hduty := hpos hd
    have hforward : ¬ duty d < 0 := by omega
    rw [abs_of_nonneg (by omega)] at hshare
    rw [if_neg (by omega), if_neg (fun hr => hforward (h.reverse.mp hr)),
      if_pos (h.forward.mpr hforward), Int.sign_eq_one_of_pos hd]

/-! ### The position of the shaft -/

/-- What a handler has read, and counted, of a shaft that waits for it. -/
def IsrPc.Counts (origin shaft : Int) (d : Driver) : IsrPc → Prop
  | .idle => d.latched = false → d.shared.position.toInt = shaft - origin
  | .readA => True
  | .readB irc_a => irc_a = ircA (motorSr shaft)
  | .decode irc_a irc_b => irc_a = ircA (motorSr shaft) ∧ irc_b = ircB (motorSr shaft)
  | _ => d.shared.position.toInt = shaft - origin

/-- The decoder's state and the position of a driver, with or without a motor to move, whose shaft
is at most a quarter ahead of them. -/
structure Located (origin : Int) (s : State) : Prop where
  exclusive : Exclusive s
  fits : Fits (s.shaft - origin)
  near : |s.shaft - (origin + s.driver.shared.position.toInt)| ≤ 1
  counts : s.isr.Counts origin s.shaft s.driver
  starting : s.task.initialising = true → s.shaft = origin ∧ s.driver.shared.position = 0
  reading : ∀ srA, s.task = .initReadB srA → srA = motorSr origin
  started : s.task.initialising = false ∨ s.task = .initEnable →
    s.driver.motorState = linePattern (origin + s.driver.shared.position.toInt)

theorem located_initial (setDesired : Bool) (origin : Int) (cr status : BitVec 32) :
    Located origin (initial setDesired origin cr status) where
  exclusive := exclusive_initial setDesired origin cr status
  fits := by
    change Fits (origin - origin)
    rw [Int.sub_self]
    decide
  near := by
    change |origin - (origin + 0)| ≤ 1
    rw [Int.add_zero, Int.sub_self]
    decide
  counts := fun _ => (Int.sub_self origin).symm
  starting := fun _ => ⟨rfl, rfl⟩
  reading := fun srA h => by cases h
  started := fun h => by rcases h with h | h <;> cases h

/-- A sample of a shaft a quarter ahead at most. -/
theorem decode_counts {p q : Int} {d : Driver} (hstate : d.motorState = linePattern p)
    (hmove : |q - p| ≤ 1) :
    (d.decode (ircA (motorSr q)) (ircB (motorSr q))).motorState = linePattern q ∧
      (d.decode (ircA (motorSr q)) (ircB (motorSr q))).shared.position =
        d.shared.position + Int32.ofInt (q - p) := by
  obtain ⟨hm, hp, _⟩ := motorIsr_decode (motorSr q) (motorSr q) d
  have hsame : effective q q = q := by
    rcases effective_mem q q with h | h <;> exact h
  have hstill : |q - q| ≤ 1 := by
    rw [Int.sub_self]
    decide
  obtain ⟨hstate', hposition, _⟩ := motorIsr_tracks q q p d hstate hstill (by rwa [hsame])
  rw [hsame] at hstate' hposition
  exact ⟨hm.symm.trans hstate', hp.symm.trans hposition⟩

theorem toInt_ofInt_near {k : Int} (h : |k| ≤ 1) : (Int32.ofInt k).toInt = k := by
  rw [abs_le] at h
  exact Int32.toInt_ofInt_of_le (by omega) (by omega)

section
variable {origin : Int} {s : State}

/-- Only a task that has been initialised can be interrupted. -/
theorem Exclusive.initialised (h : Exclusive s) (hi : s.isr ≠ .idle) :
    s.task.initialising = false := by
  cases hinit : s.task.initialising with
  | false => rfl
  | true => exact absurd (h.idle (masked_of_initialising hinit)) hi

/-- A step that leaves the shaft, the position and the decoder's state alone. -/
theorem Located.carry {s' : State} (h : Located origin s) (hex : Exclusive s')
    (hshaft : s'.shaft = s.shaft)
    (hposition : s'.driver.shared.position = s.driver.shared.position)
    (hstate : s'.driver.motorState = s.driver.motorState) (htask : s'.task = s.task)
    (hcounts : s'.isr.Counts origin s'.shaft s'.driver) : Located origin s' := by
  refine ⟨hex, ?_, ?_, hcounts, ?_, ?_, ?_⟩
  · rw [hshaft]
    exact h.fits
  · rw [hshaft, hposition]
    exact h.near
  · rw [hshaft, hposition, htask]
    exact h.starting
  · rw [htask]
    exact h.reading
  · rw [hstate, hposition, htask]
    exact h.started

/-- A statement of the loop of `motor` that leaves these alone. -/
theorem Located.loop {s' : State} (h : Located origin s) (hex : Exclusive s')
    (hshaft : s'.shaft = s.shaft)
    (hposition : s'.driver.shared.position = s.driver.shared.position)
    (hstate : s'.driver.motorState = s.driver.motorState)
    (hbefore : s.task.initialising = false) (hafter : s'.task.initialising = false)
    (hcounts : s'.isr.Counts origin s'.shaft s'.driver) : Located origin s' := by
  refine ⟨hex, ?_, ?_, hcounts, fun hs => ?_, fun srA hr => ?_, fun _ => ?_⟩
  · rw [hshaft]
    exact h.fits
  · rw [hshaft, hposition]
    exact h.near
  · cases hafter.symm.trans hs
  · rw [hr] at hafter
    cases hafter
  · rw [hstate, hposition]
    exact h.started (.inl hbefore)

/-- The sample is counted, and the position is the shaft's again. -/
theorem located_decode (h : Located origin s) {a b : UInt8} (hpc : s.isr = .decode a b) :
    Located origin (isrStep s) := by
  have hex := exclusive_isrStep h.exclusive
  have hcounts := h.counts
  have hinit := h.exclusive.initialised (by rw [hpc]; exact IsrPc.noConfusion)
  rw [hpc] at hcounts
  obtain ⟨rfl, rfl⟩ := hcounts
  obtain ⟨hstate, hposition⟩ := decode_counts (h.started (.inl hinit)) h.near
  have hsum : s.driver.shared.position.toInt +
      (Int32.ofInt (s.shaft - (origin + s.driver.shared.position.toInt))).toInt =
        s.shaft - origin := by
    rw [toInt_ofInt_near h.near]
    omega
  have hcounted : (s.driver.decode (ircA (motorSr s.shaft))
      (ircB (motorSr s.shaft))).shared.position.toInt = s.shaft - origin := by
    rw [hposition, (toInt_add_iff_fits _ _).mpr (by rw [hsum]; exact h.fits), hsum]
  have hshaft : origin + (s.driver.decode (ircA (motorSr s.shaft))
      (ircB (motorSr s.shaft))).shared.position.toInt = s.shaft := by omega
  simp only [isrStep, hpc] at hex ⊢
  refine ⟨hex, h.fits, ?_, hcounted, fun hinit' => ?_, h.reading, fun _ => ?_⟩
  · simp only [hshaft, Int.sub_self]
    decide
  · exact absurd (hinit'.symm.trans hinit) (by decide)
  · simp only [hshaft]
    exact hstate

theorem located_isrStep (h : Located origin s) : Located origin (isrStep s) := by
  have hex := exclusive_isrStep h.exclusive
  have hcounts := h.counts
  cases hpc : s.isr with
  | decode a b => exact located_decode h hpc
  | idle =>
    simp only [isrStep, hpc]
    exact h
  | duty a b =>
    rw [hpc] at hcounts
    simp only [isrStep, hpc] at hex ⊢
    split
    · rename_i hmode
      rw [if_pos hmode] at hex
      exact h.carry hex rfl rfl rfl rfl hcounts
    · rename_i hmode
      rw [if_neg hmode] at hex
      exact h.carry hex rfl rfl rfl rfl hcounts
  | readA =>
    simp only [isrStep, hpc] at hex ⊢
    exact h.carry hex rfl rfl rfl rfl rfl
  | readB a =>
    rw [hpc] at hcounts
    simp only [isrStep, hpc] at hex ⊢
    exact h.carry hex rfl rfl rfl rfl ⟨hcounts, rfl⟩
  | set a b u =>
    rw [hpc] at hcounts
    simp only [isrStep, hpc] at hex ⊢
    exact h.carry hex rfl rfl rfl rfl hcounts
  | store a b u =>
    rw [hpc] at hcounts
    simp only [isrStep, hpc] at hex ⊢
    exact h.carry hex rfl rfl rfl rfl hcounts
  | clear a b =>
    rw [hpc] at hcounts
    simp only [isrStep, hpc] at hex ⊢
    exact h.carry hex rfl rfl rfl rfl fun _ => hcounts

/-- `motor_init` starts the count, and the loop leaves it alone. -/
theorem located_taskStep (h : Located origin s) (hi : s.isr = .idle) :
    Located origin (taskStep s) := by
  have hex := exclusive_taskStep h.exclusive hi
  have hcounts := h.counts
  rw [hi] at hcounts
  have hidle {s' : State} (hisr : s'.isr = s.isr) (hshaft : s'.shaft = s.shaft)
      (hcount : s'.driver.latched = false → s'.driver.shared.position.toInt = s.shaft - origin) :
      s'.isr.Counts origin s'.shaft s'.driver := by
    rw [hisr, hi, hshaft]
    exact hcount
  cases hpc : s.task with
  | initReset =>
    obtain ⟨hshaft, -⟩ := h.starting (by rw [hpc]; rfl)
    simp only [taskStep, hpc] at hex ⊢
    refine ⟨hex, h.fits, ?_, hidle rfl rfl fun _ => ?_, fun _ => ⟨hshaft, rfl⟩,
      fun _ hr => (by cases hr), fun hs => by rcases hs with hs | hs <;> cases hs⟩
    · change |s.shaft - (origin + 0)| ≤ 1
      rw [hshaft, Int.add_zero, Int.sub_self]
      decide
    · rw [hshaft, Int.sub_self]
      rfl
  | initDuty =>
    have hstart := h.starting (by rw [hpc]; rfl)
    simp only [taskStep, hpc] at hex ⊢
    exact ⟨hex, h.fits, h.near, hidle rfl rfl hcounts, fun _ => hstart,
      fun _ hr => (by cases hr), fun hs => by rcases hs with hs | hs <;> cases hs⟩
  | initReadA =>
    have hstart := h.starting (by rw [hpc]; rfl)
    simp only [taskStep, hpc] at hex ⊢
    refine ⟨hex, h.fits, h.near, hidle rfl rfl hcounts, fun _ => hstart, fun srA hr => ?_,
      fun hs => by rcases hs with hs | hs <;> cases hs⟩
    cases hr
    rw [hstart.1]
  | initReadB srA =>
    have hstart := h.starting (by rw [hpc]; rfl)
    have hread := h.reading srA hpc
    simp only [taskStep, hpc] at hex ⊢
    refine ⟨hex, h.fits, h.near, hidle rfl rfl hcounts, fun _ => hstart,
      fun _ hr => (by cases hr), fun _ => ?_⟩
    change initState srA (motorSr s.shaft) = linePattern (origin + s.driver.shared.position.toInt)
    rw [hread, hstart.1, hstart.2, initState_motorSr, pattern_lines]
    exact congrArg linePattern (Int.add_zero origin).symm
  | initEnable =>
    have hstate := h.started (.inr hpc)
    simp only [taskStep, hpc] at hex ⊢
    exact ⟨hex, h.fits, h.near, hidle rfl rfl hcounts, fun hs => (by cases hs),
      fun _ hr => (by cases hr), fun _ => hstate⟩
  | take =>
    simp only [taskStep, hpc] at hex ⊢
    split
    · rename_i hsem
      rw [if_pos hsem] at hex
      exact h.loop hex rfl rfl rfl (by rw [hpc]; rfl) rfl (hidle rfl rfl hcounts)
    · exact h
  | compute =>
    simp only [taskStep, hpc] at hex ⊢
    split
    · rename_i hmode
      rw [if_pos hmode] at hex
      exact h.loop hex rfl rfl rfl (by rw [hpc]; rfl) rfl (hidle rfl rfl hcounts)
    · rename_i hmode
      rw [if_neg hmode] at hex
      exact h.loop hex rfl rfl rfl (by rw [hpc]; rfl) rfl (hidle rfl rfl hcounts)
  | disable u | set u | store u | enable u =>
    simp only [taskStep, hpc] at hex ⊢
    exact h.loop hex rfl rfl rfl (by rw [hpc]; rfl) rfl (hidle rfl rfl hcounts)

/-- A quarter on. -/
theorem located_shaft (h : Located origin s) {forward : Bool}
    (hC : Paced origin (.shaft forward) s) : Located origin (step (.shaft forward) s) := by
  obtain ⟨hinit, hidle, hhandled, hfits⟩ := hC
  have hcounts := h.counts
  rw [hidle] at hcounts
  have hcounted : s.driver.shared.position.toInt = s.shaft - origin := hcounts hhandled
  have hex := exclusive_step (.shaft forward) s h.exclusive
  have hshaft := step_shaft forward s
  refine ⟨hex, ?_, ?_, ?_, fun hs => absurd (hs.symm.trans hinit) (by decide),
    fun srA hr => h.reading srA hr, h.started⟩
  · rw [hshaft]
    exact hfits
  · rw [hshaft]
    change |s.shaft + heading forward - (origin + s.driver.shared.position.toInt)| ≤ 1
    rw [hcounted, abs_le]
    cases forward <;> simp only [heading] <;> omega
  · change s.isr.Counts origin _ s.driver.edge
    rw [hidle]
    intro hlatched
    rw [edge_latched] at hlatched
    cases hlatched

theorem located_step (a : Action) (s : State) (h : Located origin s) (hC : Paced origin a s) :
    Located origin (step a s) := by
  have hex := exclusive_step a s h.exclusive
  have hcounts := h.counts
  cases a with
  | shaft forward => exact located_shaft h hC
  | enter =>
    simp only [step] at hex ⊢
    split
    · rename_i hgo
      rw [if_pos hgo] at hex
      exact h.carry hex rfl rfl rfl rfl trivial
    · exact h
  | isr => exact located_isrStep h
  | task =>
    simp only [step]
    split
    · rename_i hi
      exact located_taskStep h hi
    · exact h
  | receive outcome =>
    simp only [step, receiveStep] at hex ⊢
    split
    · rename_i hi
      rw [if_pos hi] at hex
      split
      · rename_i hudp
        simp only [hudp] at hex
        refine h.carry hex rfl rfl rfl rfl ?_
        simp only [hi] at hcounts ⊢
        exact hcounts
      · exact h
    · exact h
  | give =>
    simp only [step, giveStep] at hex ⊢
    split
    · rename_i hi
      rw [if_pos hi] at hex
      split
      · exact h
      · rename_i hudp
        simp only [hudp] at hex
        exact h.carry hex rfl rfl rfl rfl hcounts
    · exact h

/-- A position that is the shaft's stays as it is while the shaft does. -/
theorem Located.step_position (h : Located origin s)
    (hcounted : s.driver.shared.position.toInt = s.shaft - origin) {a : Action}
    (ha : a.turns = false) : (step a s).driver.shared.position = s.driver.shared.position := by
  have hdecode (irc_a irc_b : UInt8) (hpc : s.isr = .decode irc_a irc_b) :
      (s.driver.decode irc_a irc_b).shared.position = s.driver.shared.position := by
    have hcounts := h.counts
    rw [hpc] at hcounts
    obtain ⟨rfl, rfl⟩ := hcounts
    have hinit := h.exclusive.initialised (by rw [hpc]; exact IsrPc.noConfusion)
    have hzero : s.shaft - (origin + s.driver.shared.position.toInt) = 0 := by omega
    rw [(decode_counts (h.started (.inl hinit)) h.near).2, hzero]
    exact Int32.add_zero _
  cases a with
  | shaft forward => cases ha
  | enter =>
    simp only [step]
    split <;> rfl
  | isr =>
    cases hpc : s.isr with
    | decode irc_a irc_b =>
      simp only [step, isrStep, hpc]
      exact hdecode irc_a irc_b hpc
    | duty irc_a irc_b =>
      simp only [step, isrStep, hpc]
      split <;> rfl
    | _ => simp only [step, isrStep, hpc] <;> rfl
  | task =>
    simp only [step]
    split
    · cases hpc : s.task with
      | initReset =>
        simp only [taskStep, hpc]
        exact (h.starting (by rw [hpc]; rfl)).2.symm
      | take | compute =>
        simp only [taskStep, hpc]
        split <;> rfl
      | _ => simp only [taskStep, hpc] <;> rfl
    · rfl
  | receive outcome =>
    simp only [step, receiveStep]
    split
    · split <;> rfl
    · rfl
  | give =>
    simp only [step, giveStep]
    split
    · split <;> rfl
    · rfl

/-- With the last quarter handled, the position is the shaft's. -/
theorem Located.position (h : Located origin s) (hi : s.isr = .idle)
    (hhandled : s.driver.latched = false) :
    s.driver.shared.position.toInt = s.shaft - origin := by
  have hcounts := h.counts
  rw [hi] at hcounts
  exact hcounts hhandled

end

theorem located_run {setDesired : Bool} {origin : Int} {cr status : BitVec 32}
    {acts : List Action}
    (h : Along step (Paced origin) (initial setDesired origin cr status) acts) :
    Located origin (run (initial setDesired origin cr status) acts) :=
  (throughout_of_along located_step (located_initial setDesired origin cr status) h).last

/-! ### The way to the set-point -/

/-- The receiver, with no handler in the window of its task. -/
structure Controlled (origin : Int) (s : State) : Prop where
  governed : Governed s
  undisturbed : Undisturbed s
  mirrored : Mirrored s
  located : Located origin s

theorem controlled_initial (origin : Int) (cr status : BitVec 32) :
    Controlled origin (initial true origin cr status) :=
  ⟨governed_initial origin cr status, undisturbed_initial origin cr status,
    mirrored_initial true origin cr status, located_initial true origin cr status⟩

theorem controlled_step {origin : Int} (a : Action) (s : State) (h : Controlled origin s)
    (hC : Steady origin a s) : Controlled origin (step a s) :=
  ⟨governed_step a s h.governed (fresh_of_undisturbed a s h.undisturbed),
    undisturbed_step a s h.undisturbed hC.2, mirrored_step a s h.mirrored,
    located_step a s h.located hC.1⟩

/-- What is left to go. -/
def State.way (origin : Int) (s : State) : Int :=
  s.driver.shared.desiredPosition.toInt - (s.shaft - origin)

section
variable {origin : Int} {s : State}

/-- At rest, with the last quarter handled, the register and the published duty are those of the way
that is left. -/
theorem Controlled.drive (h : Controlled origin s) (hquiet : Quiescent s)
    (hhandled : s.driver.latched = false) (hfits : Fits (s.way origin)) :
    Motor.drive s.driver.pwmDutyCr = (s.way origin).sign ∧
      s.driver.shared.pwmDuty.toInt = duty (s.way origin) := by
  have hway : s.driver.way = s.way origin := by
    rw [Driver.way, State.way, h.located.position hquiet.2.1 hhandled]
  have hdistance : s.driver.distance.toInt = s.way origin := by
    rw [← hway] at hfits ⊢
    exact (distance_iff_fits s.driver).mpr hfits
  have hduty : s.driver.shared.pwmDuty.toInt = duty (s.way origin) := by
    rw [law_of_governed s h.governed hquiet, Int8.toInt_toInt32, getPwm_toInt, hdistance]
  refine ⟨?_, hduty⟩
  have hagree := h.mirrored.agree (by rw [hquiet.1]; rfl) (by rw [hquiet.2.1]; rfl)
    (by rw [hquiet.1]; rfl)
  cases hupdated : s.updated with
  | some distance =>
    rw [hupdated] at hagree
    exact drive_of_encodes (hduty ▸ hagree.1)
  | none =>
    -- the zeros of `motor_init`, which are right where there is nothing to go
    rw [hupdated] at hagree
    obtain ⟨hcr, hpwm⟩ := hagree
    have hsign := sign_duty (s.way origin)
    rw [← hduty, hpwm] at hsign
    rw [hcr, ← hsign]
    rfl

/-- On the way to a set-point within reach. -/
structure Underway (origin : Int) (desired : Int32) (s : State) : Prop where
  controlled : Controlled origin s
  setPoint : s.driver.shared.desiredPosition = desired
  fits : Fits (s.way origin)

variable {desired : Int32} {a : Action}

theorem step_setPoint (hD : Driven a s) :
    (step a s).driver.shared.desiredPosition = s.driver.shared.desiredPosition := by
  rw [step_desiredPosition]
  cases a with
  | receive outcome =>
    by_cases hready : s.isr = .idle ∧ s.udp = .receive
    · simp only [receives, if_pos hready]
      exact hD
    · simp only [receives, if_neg hready]
  | _ => rfl

/-- A turn leads a quarter nearer: the motor is only driven while there is a way left. -/
theorem underway_turn (h : Underway origin desired s) {forward : Bool}
    (hC : Steady origin (.shaft forward) s) (hD : Driven (.shaft forward) s) :
    Underway origin desired (step (.shaft forward) s) ∧
      (step (.shaft forward) s).shaft = approach (origin + desired.toInt) s.shaft 1 ∧
      1 + |(step (.shaft forward) s).way origin| = |s.way origin| := by
  have hset := step_setPoint hD
  obtain ⟨hquiet, hdrive⟩ := hD
  have hsign := (h.controlled.drive hquiet hC.1.2.2.1 h.fits).1.symm.trans hdrive
  have hshaft := step_shaft forward s
  have hwayS : s.way origin = desired.toInt - (s.shaft - origin) := by
    rw [State.way, h.setPoint]
  have hway : (step (.shaft forward) s).way origin = s.way origin - heading forward := by
    rw [State.way, hset.trans h.setPoint, hshaft, hwayS]
    omega
  have hfits := h.fits
  have hdirection : heading forward = 1 ∧ 0 < s.way origin ∨
      heading forward = -1 ∧ s.way origin < 0 := by
    cases forward with
    | true => exact .inl ⟨rfl, Int.sign_eq_one_iff_pos.mp hsign⟩
    | false => exact .inr ⟨rfl, Int.sign_eq_neg_one_iff_neg.mp hsign⟩
  refine ⟨⟨controlled_step _ s h.controlled hC, h.setPoint, ?_⟩, ?_, ?_⟩
  · rw [hway]
    unfold Fits at hfits ⊢
    omega
  · rw [hshaft]
    unfold approach
    omega
  · rw [hway]
    rcases hdirection with ⟨hheading, hpos⟩ | ⟨hheading, hneg⟩
    · rw [hheading, abs_of_pos hpos, abs_of_nonneg (by omega)]
      omega
    · rw [hheading, abs_of_neg hneg, abs_of_nonpos (by omega)]
      omega

/-- Everything else leaves the shaft where it is. -/
theorem underway_still (h : Underway origin desired s) (ha : a.turns = false)
    (hC : Steady origin a s) (hD : Driven a s) :
    Underway origin desired (step a s) ∧ (step a s).way origin = s.way origin := by
  have hset := step_setPoint hD
  have hway : (step a s).way origin = s.way origin := by
    rw [State.way, State.way, hset, step_shaft_of ha]
  exact ⟨⟨controlled_step a s h.controlled hC, hset.trans h.setPoint, hway.symm ▸ h.fits⟩, hway⟩

/-- The turns of the motor lead straight to the set-point. -/
theorem underway_run (h : Underway origin desired s) {acts : List Action}
    (hC : Along step (Steady origin) s acts) (hD : Along step Driven s acts) :
    Underway origin desired (run s acts) ∧
      (run s acts).shaft =
        approach (origin + desired.toInt) s.shaft (acts.countP Action.turns) ∧
      acts.countP Action.turns + |(run s acts).way origin| = |s.way origin| := by
  induction acts generalizing s with
  | nil =>
    refine ⟨h, ?_, ?_⟩
    · change s.shaft = approach _ _ 0
      unfold approach
      omega
    · exact Int.zero_add _
  | cons a rest ih =>
    cases hturns : a.turns with
    | true =>
      cases a with
      | shaft forward =>
        obtain ⟨hnext, hshaft, hway⟩ := underway_turn h hC.1 hD.1
        obtain ⟨hend, happroach, hleft⟩ := ih hnext hC.2 hD.2
        rw [List.countP_cons_of_pos hturns]
        refine ⟨hend, happroach.trans ?_, ?_⟩
        · rw [hshaft, approach_add, Nat.add_comm]
        · change _ + |(run (step (.shaft forward) s) rest).way origin| = _
          omega
      | _ => cases hturns
    | false =>
      obtain ⟨hnext, hway⟩ := underway_still h hturns hC.1 hD.1
      obtain ⟨hend, happroach, hleft⟩ := ih hnext hC.2 hD.2
      rw [List.countP_cons_of_neg (by rw [hturns]; exact Bool.false_ne_true)]
      exact ⟨hend, happroach.trans (by rw [step_shaft_of hturns]), hleft.trans (by rw [hway])⟩

end

/-- **The motor comes to the set-point, and rests there.** Take any run of the receiver, statement
by statement, in which each quarter of the shaft waits for the handler of the last one and no
handler starts between the task's computation and its `intDisable`: with whatever turns, pushes and
set-points up to some moment, and from then on with no other set-point, and no other turns than
those of the motor, which gives way to its drive once the controller is at rest. Then every turn
leads straight to the set-point that it has at this moment. Whenever the controller is at rest the
register drives the motor the way that is left; and once the shaft has got there, not at all. -/
theorem settles (origin : Int) (cr status : BitVec 32) (before after : List Action)
    (hC : Along step (Steady origin) (initial true origin cr status) (before ++ after))
    (hD : Along step Driven (run (initial true origin cr status) before) after)
    (hfits : Fits ((run (initial true origin cr status) before).way origin)) :
    let s := run (initial true origin cr status) before
    let s' := run s after
    let target := origin + s.driver.shared.desiredPosition.toInt
    s'.shaft = approach target s.shaft (after.countP Action.turns) ∧
      after.countP Action.turns + |target - s'.shaft| = |target - s.shaft| ∧
      (Quiescent s' → s'.driver.latched = false →
        s'.driver.shared.position.toInt = s'.shaft - origin ∧
          drive s'.driver.pwmDutyCr = (target - s'.shaft).sign ∧
          (s'.shaft = target → s'.driver.shared.pwmDuty = 0)) := by
  intro s s' target
  have hbefore := hC.take before.length
  have hafter := hC.drop before.length
  rw [List.take_left] at hbefore
  rw [List.take_left, List.drop_left] at hafter
  have hstart : Underway origin s.driver.shared.desiredPosition s :=
    ⟨(throughout_of_along controlled_step (controlled_initial origin cr status) hbefore).last, rfl,
      hfits⟩
  obtain ⟨hend, hshaft, hleft⟩ := underway_run hstart hafter hD
  have hwayS : s.way origin = target - s.shaft := by
    change _ - _ = origin + _ - _
    omega
  have hway : s'.way origin = target - s'.shaft := by
    change s'.driver.shared.desiredPosition.toInt - _ = origin + _ - _
    rw [hend.setPoint]
    omega
  have hfits' := hend.fits
  refine ⟨hshaft, ?_, fun hquiet hhandled => ?_⟩
  · rw [← hway, ← hwayS]
    exact hleft
  · obtain ⟨hdrive, hduty⟩ := hend.controlled.drive hquiet hhandled hend.fits
    refine ⟨hend.controlled.located.position hquiet.2.1 hhandled, hway ▸ hdrive, fun harrived => ?_⟩
    have hzero : s'.way origin = 0 := by omega
    rw [hzero] at hduty
    exact Int32.toInt_inj.mp hduty

/-- A handler, and the end of it. -/
def handled : List Action := .enter :: List.replicate 7 .isr

/-- A turn of the loop of `motor`. -/
def updated : List Action := List.replicate 6 .task

/-- Pushed three quarters away, and told to go to the first of them. -/
def pushedAway : List Action :=
  List.replicate 5 .task ++
    (.shaft true :: handled) ++ (.shaft true :: handled) ++ (.shaft true :: handled) ++
    [.receive (some [1, 0, 0, 0])]

/-- An update with a handler behind it, and the two turns back. -/
def back : List Action :=
  .give :: updated ++ (.shaft false :: handled) ++ (.shaft false :: handled)

theorem settles_pushedAway :
    let s' := run (run (initial true 0 0 0) pushedAway) back
    s'.shaft = 1 ∧ s'.driver.shared.pwmDuty = 0 ∧ drive s'.driver.pwmDutyCr = 0 := by
  intro s'
  obtain ⟨hshaft, _, hrest⟩ := settles 0 0 0 pushedAway back (by decide +kernel)
    (by decide +kernel) (by decide +kernel)
  obtain ⟨_, hdrive, hduty⟩ := hrest (by decide +kernel) (by decide +kernel)
  have harrived : s'.shaft = 1 := hshaft.trans (by decide +kernel)
  exact ⟨harrived, hduty (by decide +kernel), hdrive.trans (by decide +kernel)⟩

end RealTimeLabs.Motor
