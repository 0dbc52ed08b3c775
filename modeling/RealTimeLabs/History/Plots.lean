import RealTimeLabs.History.Uptime
import RealTimeLabs.Svg.Scale

/-! Which plots of a page can be drawn.

The three plots share their times and have values of their own. In every state of the
board, from the first `create_tasks` on, a plot has scales that are numbers exactly when
the window holds two times, at its ends, and two values. -/
namespace RealTimeLabs.History
open Svg

/-- What an entry stands for. -/
def Field.value : (f : Field) → f.Ty → ℤ
  | .timestamp, n => (UInt32.toNat n : ℤ)
  | .desiredPosition, n => Int32.toInt n
  | .position, n => Int32.toInt n
  | .pwmDuty, n => Int32.toInt n

theorem Field.abs_value_le (f : Field) (v : f.Ty) : |(f.value v : ℚ)| ≤ 2 ^ 32 := by
  have hint (n : Int32) : |((n.toInt : ℤ) : ℚ)| ≤ 2 ^ 32 := by
    have hlo := n.le_toInt
    have hhi := n.toInt_lt
    rw [← Int.cast_abs]
    exact_mod_cast abs_le.mpr ⟨by omega, by omega⟩
  cases f with
  | timestamp =>
    have hlt : UInt32.toNat v < 2 ^ 32 := UInt32.toNat_lt v
    have hle : |Field.value .timestamp v| ≤ 2 ^ 32 := by
      rw [Field.value, Nat.abs_cast]
      exact_mod_cast hlt.le
    rw [← Int.cast_abs]
    exact_mod_cast hle
  | desiredPosition => exact hint v
  | position => exact hint v
  | pwmDuty => exact hint v

/-- An entry as the plots see it. -/
theorem toFloat_single (f : Field) (v : f.Ty) :
    (casts single).toFloat f v = .finite (float (f.value v)) ∧ Whole (float (f.value v)) := by
  have hcast : (casts single).toFloat f v = Single.ofRat (f.value v) := by
    cases f <;> rfl
  have hle := f.abs_value_le v
  rw [hcast]
  exact ⟨ofRat_of_abs_le (by norm_num) hle, exists_float_eq _, abs_float_le hle⟩

/-- The first and the last time of the window are different `float`s. -/
def MotorHistory.TimesDiffer (h : MotorHistory) : Prop :=
  float (Field.value .timestamp (h.element .timestamp 0)) ≠
    float (Field.value .timestamp (h.element .timestamp (historySize - 1)))

/-- Two entries of the window are different `float`s. -/
def MotorHistory.Varies (h : MotorHistory) (f : Field) : Prop :=
  ∃ i j, i < historySize ∧ j < historySize ∧
    float (f.value (h.element f i)) ≠ float (f.value (h.element f j))

theorem copied_drawable_iff (color : String) (s : State Single)
    (hstart : s.history.arrayStartIndex.toNat < historyCyclicArraySize) (f : Field) :
    Drawable color ((copied (casts single) s).copies .timestamp)
      ((copied (casts single) s).copies f) historySize ↔
      s.history.TimesDiffer ∧ s.history.Varies f := by
  have hcopy := (copied_eq (casts single) s hstart).2
  -- the steps that lead there stay folded
  obtain ⟨t, ht⟩ : ∃ t, t = copied (casts single) s := ⟨_, rfl⟩
  rw [← ht] at hcopy ⊢
  have hentry (f : Field) (k : Nat) (hk : k < historySize) :
      t.copies f k = .finite (float (f.value (s.history.element f k))) ∧
        Whole (float (f.value (s.history.element f k))) := by
    rw [hcopy f k hk]
    exact toFloat_single f _
  exact drawable_iff color (by decide) (hentry .timestamp) (hentry f)

/-- The start of the window is in the arrays, whatever has happened. -/
theorem index_step {F : Type} (freq : UInt32) (e : Event) (u : Uptime F)
    (h : u.board.history.arrayStartIndex.toNat < historyCyclicArraySize) :
    (Uptime.step freq e u).board.history.arrayStartIndex.toNat < historyCyclicArraySize := by
  cases e with
  | tick ticks => exact h
  | recreate => exact h
  | update d p w =>
    cases hpc : u.board.writer with
    | clock =>
      simp only [Uptime.step, writerStep, hpc]
      exact h
    | write f i =>
      simp only [Uptime.step, writerStep, hpc]
      exact h
    | advance =>
      have hnext := index_add (Nat.mod_eq_of_lt h).symm 1 (by decide)
      simp only [Uptime.step, writerStep, hpc]
      exact hnext.trans_lt (Nat.mod_lt _ (by decide))

theorem index_run {F : Type} (freq : UInt32) (now : Nat) (garbage : Field → Nat → F)
    (events : List Event) :
    (Uptime.run freq (Uptime.boot now garbage) events).board.history.arrayStartIndex.toNat <
      historyCyclicArraySize := by
  have hstep (e : Event) (u : Uptime F)
      (h : u.board.history.arrayStartIndex.toNat < historyCyclicArraySize) :
      (Uptime.step freq e u).board.history.arrayStartIndex.toNat < historyCyclicArraySize :=
    index_step freq e u h
  have hboot : (Uptime.boot now garbage).board.history.arrayStartIndex.toNat <
    historyCyclicArraySize := show 0 < historyCyclicArraySize by decide
  exact Interleaving.run_invariant hstep hboot events

/-- The calls of `svg_draw_to_file_xy` in `generate_html_file`. -/
inductive Plot where
  | actual
  | desired
  | pwm
deriving DecidableEq

namespace Plot

def color : Plot → String
  | .actual => "#ff0000"
  | .desired => "#00ff00"
  | .pwm => "#0000ff"

def y {F : Type} (d : Series F) : Plot → Nat → F
  | .actual => d.yActual
  | .desired => d.yDesired
  | .pwm => d.yPwm

def label : Plot → String
  | .actual => "Actual position (abs units)"
  | .desired => "Desired position (abs units)"
  | .pwm => "PWM duty cicle, +-100%"

/-- Where the values come from. -/
def field : Plot → Field
  | .actual => .position
  | .desired => .desiredPosition
  | .pwm => .pwmDuty

theorem y_actual {F : Type} (d : Series F) : Plot.actual.y d = d.yActual := rfl

theorem y_desired {F : Type} (d : Series F) : Plot.desired.y d = d.yDesired := rfl

theorem y_pwm {F : Type} (d : Series F) : Plot.pwm.y d = d.yPwm := rfl

end Plot

/-- The page is these calls, one after the other. -/
theorem generateHtmlFile_eq {F : Type} (A : Arith F) (fuel : Nat) (d : Series F) (f : File F) :
    generateHtmlFile A fuel d f = [Plot.actual, .desired, .pwm].foldlM (fun f p =>
      svgDrawToFileXy A fuel f p.color d.xActual (p.y d) historySize "t" p.label) f := by
  simp only [generateHtmlFile, List.foldlM_cons, List.foldlM_nil, bind_pure]
  rfl

/-- A plot can be drawn just when its window has two times and two values. -/
theorem drawable_series_iff (s : State Single)
    (hstart : s.history.arrayStartIndex.toNat < historyCyclicArraySize) (p : Plot) :
    Drawable p.color (series single s).xActual (p.y (series single s)) historySize ↔
      s.history.TimesDiffer ∧ s.history.Varies p.field := by
  have hx := (series_copies single s).1
  have hy : p.y (series single s) = (copied (casts single) s).copies p.field := by
    obtain ⟨-, hactual, hdesired, hpwm⟩ := series_copies single s
    cases p with
    | actual => rw [Plot.y_actual, hactual, Plot.field]
    | desired => rw [Plot.y_desired, hdesired, Plot.field]
    | pwm => rw [Plot.y_pwm, hpwm, Plot.field]
  rw [hx, hy]
  exact copied_drawable_iff p.color s hstart p.field

/-- **The scales are numbers** in every state, for each plot with two times and two values,
and for no other. -/
theorem plots_drawable_iff (freq : UInt32) (now : Nat) (garbage : Field → Nat → Single)
    (events : List Event) (p : Plot) :
    Drawable p.color
        (series single (Uptime.run freq (Uptime.boot now garbage) events).board).xActual
        (p.y (series single (Uptime.run freq (Uptime.boot now garbage) events).board))
        historySize ↔
      (Uptime.run freq (Uptime.boot now garbage) events).board.history.TimesDiffer ∧
        (Uptime.run freq (Uptime.boot now garbage) events).board.history.Varies p.field :=
  drawable_series_iff _ (index_run freq now garbage events) p

/-- Before the first update nothing can be. -/
theorem boot_undrawable : ¬ ∀ p : Plot, Drawable p.color
    (series single (Uptime.run 1000 (Uptime.boot 0 fun _ _ => .nan) []).board).xActual
    (p.y (series single (Uptime.run 1000 (Uptime.boot 0 fun _ _ => .nan) []).board))
    historySize := by
  intro h
  have hactual := h .actual
  rw [drawable_series_iff _ (index_run 1000 0 (fun _ _ => .nan) [])] at hactual
  have hsame (i : Nat) : (Uptime.run 1000 (Uptime.boot 0 fun _ _ => Single.nan)
      []).board.history.element .timestamp i = 0 := rfl
  exact hactual.1 (by rw [hsame, hsame])

end RealTimeLabs.History
