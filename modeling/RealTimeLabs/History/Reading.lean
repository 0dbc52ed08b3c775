import RealTimeLabs.History.Plots
import RealTimeLabs.Svg.Reading

/-! What a browser gets of the history.

From the entries of the window to the text of the page and back: in every state that the board can
reach, whoever reads the page again finds three curves, and in a curve whose window has two times
and two values a line for each entry, in the place that the generator has computed for it; no
entry stands lower than one that is not larger, and none before an earlier one (`window_read`). -/
namespace RealTimeLabs.History
open Svg Attributes

/-- A line that shows a point. -/
def Near (row : List Table.Fixed) (p : Single × Single) : Prop :=
  ∃ q r a b, p = (.finite q, .finite r) ∧ row = [a, b] ∧
    |Svg.value a - q| ≤ 1 / 2000000 ∧ |Svg.value b - r| ≤ 1 / 2000000

theorem near_of_written {row : List Table.Fixed} {p : Single × Single}
    (h : Written Single.number row p) : Near row p := by
  obtain ⟨q, r, hq, hr, hrow⟩ := h
  obtain ⟨v, w⟩ := p
  cases v <;> cases hq
  cases w <;> cases hr
  exact ⟨q, r, _, _, rfl, hrow, value_printed q, value_printed r⟩

/-- The lines of a plot, against the window that it shows. -/
structure Drawn (s : State Single) (p : Plot) (rows : List (List Table.Fixed)) : Prop where
  near : List.Forall₂ Near rows
    (plotted single (series single s).xActual (p.y (series single s)))
  /-- What is not larger is not higher. -/
  rising : ∀ k l a b c d, rows[k]? = some [a, b] → rows[l]? = some [c, d] →
    p.field.value (s.history.element p.field k) ≤ p.field.value (s.history.element p.field l) →
    Svg.value b ≤ Svg.value d
  /-- What is not later is not further right, if the times go on. -/
  onward : Field.value .timestamp (s.history.element .timestamp 0) <
      Field.value .timestamp (s.history.element .timestamp (historySize - 1)) →
    ∀ k l a b c d, rows[k]? = some [a, b] → rows[l]? = some [c, d] →
    Field.value .timestamp (s.history.element .timestamp k) ≤
      Field.value .timestamp (s.history.element .timestamp l) → Svg.value a ≤ Svg.value c

/-- The series of a plot, entry by entry. -/
theorem series_entries (s : State Single)
    (hstart : s.history.arrayStartIndex.toNat < historyCyclicArraySize) (p : Plot) (k : Nat)
    (hk : k < historySize) :
    ((series single s).xActual k =
        .finite (float (Field.value .timestamp (s.history.element .timestamp k))) ∧
      Whole (float (Field.value .timestamp (s.history.element .timestamp k)))) ∧
    (p.y (series single s) k =
        .finite (float (p.field.value (s.history.element p.field k))) ∧
      Whole (float (p.field.value (s.history.element p.field k)))) := by
  have hcopy := (copied_eq (casts single) s hstart).2
  obtain ⟨hx, hactual, hdesired, hpwm⟩ := series_copies single s
  have hy : p.y (series single s) = (copied (casts single) s).copies p.field := by
    cases p with
    | actual => rw [Plot.y_actual, hactual, Plot.field]
    | desired => rw [Plot.y_desired, hdesired, Plot.field]
    | pwm => rw [Plot.y_pwm, hpwm, Plot.field]
  rw [hx, hy, hcopy _ k hk, hcopy _ k hk]
  exact ⟨toFloat_single _ _, toFloat_single _ _⟩

theorem drawn_of_written (s : State Single)
    (hstart : s.history.arrayStartIndex.toNat < historyCyclicArraySize) (p : Plot)
    {rows : List (List Table.Fixed)} (htimes : s.history.TimesDiffer)
    (hvaries : s.history.Varies p.field)
    (h : ReadAs single Single.number rows (series single s).xActual (p.y (series single s))) :
    Drawn s p rows := by
  have ht (k : Nat) (hk : k < historySize) := (series_entries s hstart p k hk).1
  have hv (k : Nat) (hk : k < historySize) := (series_entries s hstart p k hk).2
  have hwritten := h (numbers_of_varied ht hv htimes hvaries)
  refine ⟨hwritten.imp fun _ _ => near_of_written, fun k l a b c d hk hl hle => ?_,
    fun hlt k l a b c d hk hl hle => ?_⟩
  · exact rising ht hv hwritten hvaries (isRounding_float.mono (Int.cast_le.mpr hle)) hk hl
  · have hspan := lt_of_le_of_ne (isRounding_float.mono (Int.cast_le.mpr hlt.le)) htimes
    exact onward ht hv hwritten hspan (isRounding_float.mono (Int.cast_le.mpr hle)) hk hl

/-- What is read of a page, plot by plot. -/
theorem plots_read (fuel : Nat) (d : Series Single) {out : File Single}
    (h : page single fuel d = .ok out) : ∃ rows : Plot → List (List Table.Fixed),
      (values pathKey (render single out)).map readPoints =
        [[], rows .actual, [], rows .desired, [], rows .pwm] ∧
      ∀ p : Plot, ReadAs single Single.number (rows p) d.xActual (p.y d) := by
  obtain ⟨actual, desired, pwm, hread, hactual, hdesired, hpwm⟩ :=
    curves_read single single_writesNumbers fuel d h
  refine ⟨fun p => p.casesOn (motive := fun _ => List (List Table.Fixed)) actual desired pwm, hread,
    fun p => ?_⟩
  cases p with
  | actual => exact hactual
  | desired => exact hdesired
  | pwm => exact hpwm

/-- **The window can be read off the page**: whatever statements of `update_statistics`, passing
time and new calls of `create_tasks` have led to, a page that comes to its end has the three curves
as the values of its attributes `d`, between those of the arrow heads, and each of them shows its
window, if this has two times and two values. -/
theorem window_read (freq : UInt32) (now : Nat) (garbage : Field → Nat → Single)
    (events : List Event) (fuel : Nat) :
    let s := (Uptime.run freq (Uptime.boot now garbage) events).board
    page single fuel (series single s) = .error .unfinished ∨
      ∃ (out : File Single) (rows : Plot → List (List Table.Fixed)),
        page single fuel (series single s) = .ok out ∧
        (values pathKey (render single out)).map readPoints =
          [[], rows .actual, [], rows .desired, [], rows .pwm] ∧
        ∀ p : Plot, s.history.TimesDiffer → s.history.Varies p.field → Drawn s p (rows p) := by
  intro s
  rcases page_cases single fuel (series single s) with hstop | ⟨out, hout, -⟩
  · exact .inl hstop
  · obtain ⟨rows, hread, hrows⟩ := plots_read fuel _ hout
    exact .inr ⟨out, rows, hout, hread, fun p htimes hvaries =>
      drawn_of_written s (index_run freq now garbage events) p htimes hvaries (hrows p)⟩

/-! ### A page of ten milliseconds -/

/-- Ten steps in ten milliseconds, and one update. -/
def moved : List Event := .tick 10 :: List.replicate 6 (.update 10 10 10)

def movedState : State Single := (Uptime.run 1000 (Uptime.boot 0 fun _ _ => .nan) moved).board

theorem moved_start : movedState.history.arrayStartIndex.toNat < historyCyclicArraySize := by
  unfold movedState
  exact index_run 1000 0 _ moved

theorem moved_element (f : Field) : ∀ k < historySize,
    f.value (movedState.history.element f k) = if k = 799 then 10 else 0 := by
  cases f <;> decide +kernel

/-- Both axes from zero to ten. -/
def movedScaling : Scaling Single :=
  ⟨.finite 0, .finite 10, .finite 0, .finite 10, single.sub (.finite 10) (.finite 0),
    single.sub (.finite 10) (.finite 0),
    single.div (single.cast (plotWidth - 2 * plotPadding : Int))
      (single.sub (.finite 10) (.finite 0)),
    single.div (single.cast (plotHeight - 2 * plotPadding : Int))
      (single.sub (.finite 10) (.finite 0))⟩

theorem moved_grid : (verticalCounters single movedScaling 10).isSome = true ∧
    (horizontalCounters single movedScaling 10).isSome = true := by decide +kernel

theorem scaling_of_moved {x y : Nat → Single}
    (hx : ∀ k < historySize, x k = .finite (if k = 799 then 10 else 0))
    (hy : ∀ k < historySize, y k = .finite (if k = 799 then 10 else 0)) :
    scaling single x y historySize = movedScaling := by
  obtain ⟨v, hv⟩ : ∃ v : Nat → ℚ, v = fun k => if k = 799 then 10 else 0 := ⟨_, rfl⟩
  have hlt (a b : ℚ) : single.lt (.finite a) (.finite b) = decide (a < b) := rfl
  obtain ⟨i, j, -, -, hmaxMin, hall⟩ :=
    maxMin_spec single hlt v (show historySize ≠ 0 by decide)
  have hbounds (k : Nat) : 0 ≤ v k ∧ v k ≤ 10 := by
    rw [hv]
    dsimp only
    split <;> norm_num
  have hfirst : v 0 = 0 := by rw [hv]; rfl
  have hlast : v 799 = 10 := by rw [hv]; rfl
  have hmin : v i = 0 := le_antisymm ((hall 0 (by decide)).1.trans_eq hfirst) (hbounds i).1
  have hmax : v j = 10 := le_antisymm (hbounds j).2 (hlast.symm.trans_le (hall 799 (by decide)).2)
  have hextremes : maxMin single y historySize = (.finite 0, .finite 10) := by
    rw [← hmin, ← hmax, ← hmaxMin]
    apply maxMinFrom_congr single
    intro k hk
    rw [hy k (Nat.lt_of_le_pred (by decide) hk), hv]
  rw [scaling_eq single x y hextremes, hx 0 (by decide), hx (historySize - 1) (by decide)]
  rfl

theorem plot_of_moved {x y : Nat → Single}
    (h : scaling single x y historySize = movedScaling) (f : File Single) {color : String}
    (hfit : color.utf8ByteSize < 20) (y_label : String) : ∃ out,
      svgDrawToFileXy single 10 f color x y historySize "t" y_label = .ok out := by
  obtain ⟨tv, hv⟩ := Option.isSome_iff_exists.mp moved_grid.1
  obtain ⟨th, hh⟩ := Option.isSome_iff_exists.mp moved_grid.2
  rw [svgDrawToFileXy_eq single 10 f color x y (by decide), h, hv, hh]
  exact ⟨_, if_pos hfit⟩

theorem page_of_moved {d : Series Single}
    (h : ∀ p : Plot, scaling single d.xActual (p.y d) historySize = movedScaling) :
    ∃ out, page single 10 d = .ok out :=
  page_of_plots single 10 (fun f _ hfit => plot_of_moved (h .actual) f hfit)
    (fun f _ hfit => plot_of_moved (h .desired) f hfit)
    (fun f _ hfit => plot_of_moved (h .pwm) f hfit)

theorem window_read_moved : ∃ (out : File Single) (rows : Plot → List (List Table.Fixed)),
    page single 10 (series single movedState) = .ok out ∧
      (values pathKey (render single out)).map readPoints =
        [[], rows .actual, [], rows .desired, [], rows .pwm] ∧
      ∀ p : Plot, Drawn movedState p (rows p) := by
  have hfloat (f : Field) (k : Nat) (hk : k < historySize) :
      float (f.value (movedState.history.element f k)) = if k = 799 then 10 else 0 := by
    rw [moved_element f k hk]
    split
    · exact float_ten
    · exact isRounding_float.zero
  have hscaling (p : Plot) : scaling single (series single movedState).xActual
      (p.y (series single movedState)) historySize = movedScaling := by
    have hentries := series_entries movedState moved_start p
    refine scaling_of_moved (fun k hk => ?_) (fun k hk => ?_)
    · rw [(hentries k hk).1.1, hfloat .timestamp k hk]
    · rw [(hentries k hk).2.1, hfloat p.field k hk]
  obtain ⟨out, hout⟩ := page_of_moved hscaling
  have hfinished : page single 10 (series single movedState) ≠ .error .unfinished := by
    rw [hout]
    exact nofun
  obtain ⟨out, rows, hout, hread, hdrawn⟩ :=
    (window_read 1000 0 (fun _ _ => .nan) moved 10).resolve_left hfinished
  have hdiffer (f : Field) : float (f.value (movedState.history.element f 0)) ≠
      float (f.value (movedState.history.element f 799)) := by
    rw [hfloat f 0 (by decide), hfloat f 799 (by decide), if_neg (by decide), if_pos rfl]
    norm_num
  exact ⟨out, rows, hout, hread, fun p =>
    hdrawn p (hdiffer .timestamp) ⟨0, 799, by decide, by decide, hdiffer p.field⟩⟩

end RealTimeLabs.History
