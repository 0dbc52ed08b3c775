import RealTimeLabs.History.Window
import RealTimeLabs.Svg.Generator

/-! The page of a history that stands still.

When no update comes in between, the copy loop of `generate_html_file` takes
`readerSteps` statements and leaves the window of each array, converted to `float`, in the
four arrays that the plots are drawn from. -/
namespace RealTimeLabs.History

variable {F : Type}

/-- The two conversions of an arithmetic. -/
def casts (A : Svg.Arith F) : Cast F := ⟨A.ofInt32, A.ofUInt32⟩

/-- `generate_html_file` from its first statement to the end of its loop. -/
def copied (c : Cast F) (s : State F) : State F :=
  (readerStep c)^[readerSteps] { s with reader := .capture }

/-- The reader's arrays. -/
def State.series (s : State F) : Svg.Series F where
  xActual := s.copies .timestamp
  yActual := s.copies .position
  yDesired := s.copies .desiredPosition
  yPwm := s.copies .pwmDuty

/-- The arrays that the plots are drawn from. -/
def series (A : Svg.Arith F) (s : State F) : Svg.Series F := (copied (casts A) s).series

/-- Element `k` of a history's window. -/
def MotorHistory.element (h : MotorHistory) (f : Field) (k : Nat) : f.Ty :=
  h.arrays f ((h.arrayStartIndex.toNat + k) % historyCyclicArraySize)

theorem history_readerStep (c : Cast F) (s : State F) : (readerStep c s).history = s.history := by
  unfold readerStep
  split
  case h_2 => split <;> rfl
  all_goals rfl

/-- The reader after its capture, while the history stands still. -/
def Still (c : Cast F) (h : MotorHistory) (s : State F) : Prop :=
  s.history = h ∧ Reading h.arrayStartIndex.toNat
    (fun f k _ v => v = c.toFloat f (h.element f k)) s

theorem still_readerStep {c : Cast F} {h : MotorHistory} {s : State F} (hs : Still c h s) :
    Still c h (readerStep c s) := by
  obtain ⟨hhistory, hreading⟩ := hs
  refine ⟨(history_readerStep c s).trans hhistory, reading_readerStep c hreading ?_⟩
  intro start i idx g hcopy
  have hr := hreading.reader
  rw [hcopy] at hr
  rw [hr.1.index, hhistory]
  rfl

/-- The progress of a reader alone, after its capture. -/
theorem progress_still {c : Cast F} {h : MotorHistory} {s : State F} (hs : Still c h s)
    (n : Nat) : Still c h ((readerStep c)^[n] s) ∧
      ((readerStep c)^[n] s).reader.progress = min (s.reader.progress + n) readerSteps := by
  induction n with
  | zero => exact ⟨hs, (Nat.min_eq_left (progress_le hs.2.reader)).symm⟩
  | succ n ih =>
    obtain ⟨hstill, hprogress⟩ := ih
    have hnext := still_readerStep hstill
    have hone := progress_readerStep c hstill.2.reader hnext.2.reader
    rw [Function.iterate_succ_apply']
    refine ⟨hnext, ?_⟩
    rw [hone, hprogress]
    omega

/-- **The page copies the window** of every array. -/
theorem copied_eq (c : Cast F) (s : State F)
    (hstart : s.history.arrayStartIndex.toNat < historyCyclicArraySize) :
    (copied c s).reader = .done historySize ∧ ∀ f k, k < historySize →
      (copied c s).copies f k = c.toFloat f (s.history.element f k) := by
  obtain ⟨s', hs'⟩ : ∃ s', s' = readerStep c { s with reader := .capture } := ⟨_, rfl⟩
  have hmod : s.history.arrayStartIndex.toNat % historyCyclicArraySize =
    s.history.arrayStartIndex.toNat := Nat.mod_eq_of_lt hstart
  have hstill : Still c s.history s' := by
    rw [hs']
    exact ⟨rfl, ReaderPc.noConfusion, ⟨⟨hmod.symm, hmod.symm⟩, Nat.zero_le _⟩,
      fun _ k hk => absurd hk (Nat.not_lt_zero k)⟩
  obtain ⟨rest, hrest⟩ : ∃ rest, readerSteps = rest + 1 := ⟨6 * historySize + 1, rfl⟩
  obtain ⟨hend, hprogress⟩ := progress_still hstill rest
  have hcopied : copied c s = (readerStep c)^[rest] s' := by
    rw [hs', copied, hrest, Function.iterate_succ_apply]
  have hone : s'.reader.progress = 1 := by
    rw [hs']
    rfl
  have hdone : ((readerStep c)^[rest] s').reader = .done historySize := by
    apply done_of_progress hend.2.reader
    rw [hprogress, hone, hrest]
    omega
  rw [hcopied]
  refine ⟨hdone, fun f k hk => hend.2.copies f k ?_⟩
  rw [hdone]
  exact hk

theorem series_copies (A : Svg.Arith F) (s : State F) :
    (series A s).xActual = (copied (casts A) s).copies .timestamp ∧
      (series A s).yActual = (copied (casts A) s).copies .position ∧
      (series A s).yDesired = (copied (casts A) s).copies .desiredPosition ∧
      (series A s).yPwm = (copied (casts A) s).copies .pwmDuty := by
  rw [series]
  -- the steps that lead there stay folded
  obtain ⟨t, ht⟩ : ∃ t, t = copied (casts A) s := ⟨_, rfl⟩
  rw [← ht]
  exact ⟨rfl, rfl, rfl, rfl⟩

end RealTimeLabs.History
