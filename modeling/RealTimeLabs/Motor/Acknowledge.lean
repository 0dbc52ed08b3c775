import RealTimeLabs.Motor.Tasks
import RealTimeLabs.Motor.Tracking

/-! Edges and the interrupt acknowledgement.

`motor_init` clears the latch before it reads the lines, so an edge after the reads
leaves the latch set. `motor_isr` reads first and clears last: an edge between its
reads and its write to `GPIO_INT_STATUS` is cleared with the one it serves. A run
keeps `Seen` exactly when every acknowledgement finds both lines as they were read
(`seen_iff_sampleCurrent`). -/
namespace RealTimeLabs.Motor
open Interleaving Quadrature

/-- With the latch clear and no handler running, the driver knows the present lines. -/
def Seen (s : State) : Prop :=
  s.task.initialising = false → s.isr = .idle → s.driver.latched = false →
    s.driver.motorState = linePattern s.shaft

instance (s : State) : Decidable (Seen s) := by
  unfold Seen
  infer_instance

/-- The handler acknowledges only while each line still reads as it was read. -/
def SampleCurrent : Action → State → Prop
  | .isr, s => ∀ irc_a irc_b, s.isr = .clear irc_a irc_b →
      irc_a = ircA (motorSr s.shaft) ∧ irc_b = ircB (motorSr s.shaft)
  | _, _ => True

theorem ircA_cases (sr : BitVec 32) : ircA sr = 0 ∨ ircA sr = 1 := by
  unfold ircA
  split
  · exact .inr rfl
  · exact .inl rfl

theorem ircB_cases (sr : BitVec 32) : ircB sr = 0 ∨ ircB sr = 2 := by
  unfold ircB
  split
  · exact .inr rfl
  · exact .inl rfl

/-- The two lines can be told apart in the state they are combined into. -/
theorem sample_inj {a b a' b' : UInt8} (ha : a = 0 ∨ a = 1) (hb : b = 0 ∨ b = 2)
    (ha' : a' = 0 ∨ a' = 1) (hb' : b' = 0 ∨ b' = 2) (h : a ||| b = a' ||| b') :
    a = a' ∧ b = b' := by
  rcases ha with rfl | rfl <;> rcases hb with rfl | rfl <;> rcases ha' with rfl | rfl <;>
    rcases hb' with rfl | rfl <;> revert h <;> decide

theorem sample_present (p : Int) : ircA (motorSr p) ||| ircB (motorSr p) = linePattern p := by
  rw [sample_motorSr, pattern_lines]

/-! ### The invariant -/

/-- The handler's locals are line readings, and after `decode` they are the state. -/
def IsrPc.Fits (d : Driver) : IsrPc → Prop
  | .idle | .readA => True
  | .readB a => a = 0 ∨ a = 1
  | .decode a b => (a = 0 ∨ a = 1) ∧ (b = 0 ∨ b = 2)
  | .duty a b | .set a b _ | .store a b _ | .clear a b =>
    ((a = 0 ∨ a = 1) ∧ (b = 0 ∨ b = 2)) ∧ d.motorState = a ||| b

/-- What a clear latch promises, from the reset of `motor_init` on. -/
def TaskPc.Fits (shaft : Int) (d : Driver) : TaskPc → Prop
  | .initReset | .initDuty | .initReadA => True
  | .initReadB srA => srA = motorSr shaft
  | _ => d.motorState = linePattern shaft

structure Caught (s : State) : Prop where
  exclusive : Exclusive s
  isr : s.isr.Fits s.driver
  task : s.isr = .idle → s.driver.latched = false → s.task.Fits s.shaft s.driver

theorem TaskPc.fits_iff {t : TaskPc} (h : t.initialising = false) (shaft : Int) (d : Driver) :
    t.Fits shaft d ↔ d.motorState = linePattern shaft := by
  cases t <;> first | rfl | cases h

theorem caught_initial (setDesired : Bool) (shaft : Int) (cr status : BitVec 32) :
    Caught (initial setDesired shaft cr status) :=
  ⟨exclusive_initial setDesired shaft cr status, trivial, fun _ _ => trivial⟩

theorem seen_of_caught (s : State) (h : Caught s) : Seen s := fun hrun hidle hlatch =>
  (TaskPc.fits_iff hrun s.shaft s.driver).mp (h.task hidle hlatch)

/-- A running handler finds the motor task past `motor_init`. -/
theorem running_of_handler {s : State} (h : Exclusive s) (hi : s.isr ≠ .idle) :
    s.task.initialising = false := by
  cases hini : s.task.initialising with
  | false => rfl
  | true => exact absurd (h.idle (masked_of_initialising hini)) hi

theorem caught_isrStep {s : State} (h : Caught s) (hc : SampleCurrent .isr s) :
    Caught (isrStep s) := by
  refine ⟨exclusive_isrStep h.exclusive, ?_, ?_⟩
  · have hfit := h.isr
    unfold isrStep
    cases hpc : s.isr with
    | idle => simpa [hpc] using hfit
    | readA => exact ircA_cases _
    | readB a =>
      rw [hpc] at hfit
      exact ⟨hfit, ircB_cases _⟩
    | decode a b =>
      rw [hpc] at hfit
      exact ⟨hfit, rfl⟩
    | duty a b =>
      rw [hpc] at hfit
      dsimp only
      split <;> exact hfit
    | set a b u =>
      rw [hpc] at hfit
      exact hfit
    | store a b u =>
      rw [hpc] at hfit
      exact hfit
    | clear a b => trivial
  · intro hidle hlatch
    cases hpc : s.isr with
    | clear a b =>
      -- the acknowledgement: the sampled state is the present one, by the condition
      have hrun := running_of_handler h.exclusive (by rw [hpc]; exact IsrPc.noConfusion)
      obtain ⟨hA, hB⟩ := hc a b hpc
      have hfit := h.isr
      rw [hpc] at hfit
      simp only [isrStep, hpc]
      rw [TaskPc.fits_iff hrun]
      show s.driver.motorState = linePattern s.shaft
      rw [hfit.2, hA, hB, sample_present]
    | idle =>
      simp only [isrStep, hpc] at hlatch ⊢
      exact h.task hpc hlatch
    | duty a b =>
      simp only [isrStep, hpc] at hidle
      split at hidle <;> cases hidle
    | _ =>
      simp only [isrStep, hpc] at hidle
      cases hidle

theorem caught_taskStep {s : State} (h : Caught s) (hi : s.isr = .idle) : Caught (taskStep s) := by
  refine ⟨exclusive_taskStep h.exclusive hi, ?_, ?_⟩
  · rw [taskStep_isr, hi]
    trivial
  · intro _ hlatch
    have hfit := h.task hi
    cases hpc : s.task with
    | initReset =>
      simp only [taskStep, hpc]
      trivial
    | initDuty =>
      simp only [taskStep, hpc]
      trivial
    | initReadA =>
      simp only [taskStep, hpc]
      exact rfl
    | initReadB srA =>
      simp only [taskStep, hpc] at hlatch ⊢
      have hA : srA = motorSr s.shaft := by
        have := hfit hlatch
        rwa [hpc] at this
      show initState srA (motorSr s.shaft) = linePattern s.shaft
      rw [hA, initState_motorSr, pattern_lines]
    | take =>
      simp only [taskStep, hpc] at hlatch ⊢
      rw [hpc] at hfit
      split at hlatch
      · rename_i hsem
        rw [if_pos hsem]
        exact hfit hlatch
      · rename_i hsem
        rw [if_neg hsem, hpc]
        exact hfit hlatch
    | compute =>
      simp only [taskStep, hpc] at hlatch ⊢
      rw [hpc] at hfit
      split at hlatch
      · rename_i hset
        rw [if_pos hset]
        exact hfit hlatch
      · rename_i hset
        rw [if_neg hset]
        exact hfit hlatch
    | _ =>
      simp only [taskStep, hpc] at hlatch ⊢
      rw [hpc] at hfit
      exact hfit hlatch

theorem caught_step (a : Action) (s : State) (h : Caught s) (hc : SampleCurrent a s) :
    Caught (step a s) := by
  have hex := h.exclusive
  refine step_elim h (fun forward => ⟨⟨hex.disabled, hex.masked⟩, ?_, fun _ hlatch => ?_⟩)
    (fun _ _ hon => ⟨exclusive_enter hex hon, trivial, fun hidle => by cases hidle⟩)
    (fun ha => caught_isrStep h (ha ▸ hc)) (fun _ hi => caught_taskStep h hi)
    (fun outcome hi _ => ⟨⟨hex.disabled, hex.masked⟩, ?_, fun hidle hlatch => ?_⟩)
    (fun _ _ => ⟨⟨hex.disabled, hex.masked⟩, h.isr, h.task⟩)
  · have hfit := h.isr
    show s.isr.Fits s.driver.edge
    cases hpc : s.isr <;> rw [hpc] at hfit <;> exact hfit
  · -- the edge has set the latch
    rw [show (step (.shaft forward) s).driver.latched = s.driver.edge.latched from rfl,
      edge_latched] at hlatch
    cases hlatch
  · rw [hi]
    trivial
  · have hfit := h.task hidle hlatch
    cases hpc : s.task <;> rw [hpc] at hfit <;> exact hfit

/-- An acknowledgement that finds a line changed leaves the change unseen. -/
theorem not_seen_of_stale (a : Action) (s : State) (h : Caught s) (hc : ¬ SampleCurrent a s) :
    ¬ Seen (step a s) := by
  cases a with
  | isr =>
    simp only [SampleCurrent, not_forall] at hc
    obtain ⟨irc_a, irc_b, hpc, hstale⟩ := hc
    have hrun := running_of_handler h.exclusive (by rw [hpc]; exact IsrPc.noConfusion)
    have hfit := h.isr
    rw [hpc] at hfit
    intro hseen
    simp only [step, isrStep, hpc] at hseen
    have hstate : s.driver.motorState = linePattern s.shaft :=
      hseen hrun rfl (acknowledge_latched s.driver)
    rw [hfit.2, ← sample_present] at hstate
    exact hstale (sample_inj hfit.1.1 hfit.1.2 (ircA_cases _) (ircB_cases _) hstate)
  | _ => exact absurd trivial hc

/-- **No edge is lost, exactly when every acknowledgement finds both lines as sampled**:
in every interleaving of single shaft steps with the handler and the tasks. -/
theorem seen_iff_sampleCurrent (setDesired : Bool) (shaft : Int) (cr status : BitVec 32)
    (acts : List Action) :
    Throughout step Seen (initial setDesired shaft cr status) acts ↔
      Along step SampleCurrent (initial setDesired shaft cr status) acts :=
  throughout_iff_along caught_step seen_of_caught not_seen_of_stale
    (caught_initial setDesired shaft cr status) acts

/-- The shaft makes one step, and a second one between the handler's reads and its
acknowledgement. The latch is clear again and the state is one step behind. -/
def lostEdge : List Action :=
  List.replicate 5 .task ++ [.shaft true, .enter, .isr, .isr, .shaft true] ++ List.replicate 5 .isr

theorem lostEdge_unseen : ¬ Seen (run (initial true 0 0 0) lostEdge) := by decide

end RealTimeLabs.Motor
