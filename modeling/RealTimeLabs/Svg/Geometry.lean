import Mathlib.Tactic.LinearCombination
import RealTimeLabs.Svg.Drawing

/-! Where the curve and the grid lines come to stand on the page.

`View` reads a drawing the way a viewer does: an element that is open has a transform to
the page, that of a group composed from the one around it and the calls in its own
`transform`, the first outermost. The curve is written in the units of a group that is
moved and flipped, the grid in those of the page, and in exact arithmetic both use the
same map, `pagePoint`. -/
namespace RealTimeLabs.Svg

/-! ### A viewer -/

abbrev Point := ℚ × ℚ

/-- The tag that is being written. -/
structure Tag where
  name : String
  transform : Point → Point
  options : List (String × ℚ)
  arrow : Bool

/-- `frames` are the transforms of the elements that are open, innermost first; what has
been seen is in the units of the page. -/
structure View where
  frames : List (Point → Point)
  tag : Tag
  points : List Point
  lines : List (Point × Point)
  arrows : List (Point × Point)

namespace View

def blank : View := ⟨[], ⟨"", id, [], false⟩, [], [], []⟩

def frame (v : View) : Point → Point := v.frames.headD id

/-- One more call in a `transform`. -/
def compose (v : View) (g : Point → Point) : View :=
  { v with tag := { v.tag with transform := v.tag.transform ∘ g } }

def option (v : View) (key : String) : ℚ := (v.tag.options.lookup key).getD 0

/-- The ends of a line. -/
def ends (v : View) : Point × Point :=
  (v.tag.transform (v.option "x1", v.option "y1"), v.tag.transform (v.option "x2", v.option "y2"))

/-- A rotation by 90 degrees, as often as the angle has them. -/
def turn (angle : Int) : Point → Point := (fun p => (-p.2, p.1))^[((angle / 90) % 4).toNat]

def look (v : View) : Print ℚ → View
  | .svgStart _ _ => { v with frames := v.frame :: v.frames }
  | .tagStart name _ => { v with tag := ⟨name, v.frame, [], false⟩ }
  | .optf key q => { v with tag := { v.tag with options := (key, q) :: v.tag.options } }
  | .opta key _ =>
    if key = "marker-end" then { v with tag := { v.tag with arrow := true } } else v
  | .translate dx dy => v.compose fun p => (p.1 + dx, p.2 + dy)
  | .scale sx sy => v.compose fun p => (sx * p.1, sy * p.2)
  | .rotate angle cx cy =>
    v.compose fun p =>
      let q := turn angle (p.1 - cx, p.2 - cy)
      (q.1 + cx, q.2 + cy)
  | .point _ x y => { v with points := v.points ++ [v.tag.transform (x, y)] }
  | .optEnd false => { v with frames := v.tag.transform :: v.frames }
  | .optEnd true =>
    if v.tag.name = "line" then
      if v.tag.arrow then { v with arrows := v.arrows ++ [v.ends] }
      else { v with lines := v.lines ++ [v.ends] }
    else v
  | .tagEnd _ => { v with frames := v.frames.tail }
  | _ => v

end View

def look (ps : List (Print ℚ)) : View := ps.foldl View.look View.blank

/-- The points of the path. -/
def curve (ps : List (Print ℚ)) : List Point := (look ps).points

/-- The lines that have no arrow. -/
def gridLines (ps : List (Print ℚ)) : List (Point × Point) := (look ps).lines

/-! ### What elements show -/

/-- Prints that show points and lines, inside an element with the transform `T`, and that
open and close the same elements. -/
def Shows (T : Point → Point) (ps : List (Print ℚ)) (points : List Point)
    (lines : List (Point × Point)) : Prop := ∀ v : View, v.frame = T →
  (ps.foldl View.look v).frames = v.frames ∧
    (ps.foldl View.look v).points = v.points ++ points ∧
    (ps.foldl View.look v).lines = v.lines ++ lines

section
variable {T : Point → Point}

theorem Shows.append {ps qs : List (Print ℚ)} {points points' : List Point}
    {lines lines' : List (Point × Point)} (hps : Shows T ps points lines)
    (hqs : Shows T qs points' lines') :
    Shows T (ps ++ qs) (points ++ points') (lines ++ lines') := by
  intro v hv
  rw [List.foldl_append]
  obtain ⟨hframes, hpoints, hlines⟩ := hps v hv
  have hframe : (ps.foldl View.look v).frame = T := by rw [View.frame, hframes]; exact hv
  obtain ⟨hframes', hpoints', hlines'⟩ := hqs _ hframe
  rw [hframes', hpoints', hlines', hframes, hpoints, hlines, List.append_assoc, List.append_assoc]
  exact ⟨rfl, rfl, rfl⟩

/-- Nothing to see. -/
theorem shows_nothing {ps : List (Print ℚ)} (h : ∀ v : View,
    (ps.foldl View.look v).frames = v.frames ∧ (ps.foldl View.look v).points = v.points ∧
      (ps.foldl View.look v).lines = v.lines) :
    Shows T ps [] [] := by
  intro v _
  rw [List.append_nil, List.append_nil]
  exact h v

theorem shows_flatMap {prints : ℚ → List (Print ℚ)} {line : ℚ → Point × Point}
    (h : ∀ t, Shows T (prints t) [] [line t]) (ts : List ℚ) :
    Shows T (ts.flatMap prints) [] (ts.map line) := by
  induction ts with
  | nil => exact shows_nothing fun _ => ⟨rfl, rfl, rfl⟩
  | cons t rest ih => exact (h t).append ih

variable (ctx : Context ℚ)

theorem line_shows (x1 y1 x2 y2 : ℚ) : Shows T (linePrints exact ctx x1 y1 x2 y2) []
    [(T (cordx exact ctx x1, cordy exact ctx y1), T (cordx exact ctx x2, cordy exact ctx y2))] := by
  intro v rfl
  exact ⟨rfl, (List.append_nil _).symm, rfl⟩

theorem arrow_shows (x1 y1 x2 y2 : ℚ) : Shows T (arrowPrints exact ctx x1 y1 x2 y2) [] [] :=
  shows_nothing fun _ => ⟨rfl, rfl, rfl⟩

theorem text_shows (txt : String) (x y : ℚ) : Shows T (textPrints exact ctx txt x y) [] [] :=
  shows_nothing fun _ => ⟨rfl, rfl, rfl⟩

theorem turned_shows (txt : String) (cx cy dx dy : Int) :
    Shows T (turnedPrints exact ctx txt cx cy dx dy) [] [] :=
  shows_nothing fun _ => ⟨rfl, rfl, rfl⟩

theorem vertical_shows (s : Scaling ℚ) (t : ℚ) : Shows T (verticalPrints exact s ctx t) []
    [(T (cordx exact ctx (verticalX exact s ctx.padding t),
        cordy exact ctx ((ctx.height - ctx.padding : Int) : ℚ)),
      T (cordx exact ctx (verticalX exact s ctx.padding t), cordy exact ctx (ctx.padding : ℚ)))] :=
  (line_shows (ctx.setDashArray "5,5") _ _ _ _).append (turned_shows ctx _ _ _ _ _)

theorem horizontal_shows (s : Scaling ℚ) (t : ℚ) : Shows T (horizontalPrints exact s ctx t) []
    [(T (cordx exact ctx (ctx.padding : ℚ),
        cordy exact ctx (horizontalY exact s ctx.height ctx.padding t)),
      T (cordx exact ctx ((ctx.width - ctx.padding : Int) : ℚ),
        cordy exact ctx (horizontalY exact s ctx.height ctx.padding t)))] :=
  (line_shows (ctx.setDashArray "5,5") _ _ _ _).append (text_shows ctx _ _ _)

theorem maxLabel_shows (s : Scaling ℚ) : Shows T (maxLabelPrints exact s ctx) [] [] :=
  (text_shows ctx _ _ _).append (turned_shows ctx _ _ _ _ _)

theorem axisY_shows (x_0 : ℚ) (y_label : String) :
    Shows T (axisYPrints exact x_0 y_label ctx) [] [] :=
  ((arrow_shows _ _ _ _ _).append (text_shows _ _ _ _)).append (turned_shows _ _ _ _ _ _)

theorem axisX_shows (s : Scaling ℚ) (x_label : String) :
    Shows T (axisXPrints exact s x_label ctx) [] [] :=
  ((arrow_shows _ _ _ _ _).append (text_shows _ _ _ _)).append (text_shows _ _ _ _)

/-- Points go through the transform of the tag that they are written into. -/
theorem foldl_points (x y : Nat → ℚ) (ks : List Nat) (v : View) :
    (ks.map fun i => Print.point (i == 0) (cordx exact ctx (x i)) (cordy exact ctx (y i))).foldl
      View.look v = { v with points := v.points ++
        (ks.map fun i => v.tag.transform (cordx exact ctx (x i), cordy exact ctx (y i))) } := by
  induction ks generalizing v with
  | nil => rw [List.map_nil, List.foldl_nil, List.map_nil, List.append_nil]
  | cons i rest ih =>
    rw [List.map_cons, List.foldl_cons, ih]
    simp only [View.look, List.append_assoc, List.singleton_append, List.map_cons]

/-- What the three calls in the group of the curve make of a point. -/
def groupTransform (p : Point) : Point :=
  (1 * (p.1 + (0 : Int)) + ctx.padding,
    -1 * (p.2 + (-ctx.height + 2 * ctx.padding : Int)) + ctx.padding)

theorem curve_shows (s : Scaling ℚ) (color : String) (x y : Nat → ℚ) (count : Nat) :
    Shows T (curvePrints exact s color x y count ctx) ((List.range count).map fun i =>
      T (groupTransform ctx (cordx exact (curveContext s color ctx) (x i),
        cordy exact (curveContext s color ctx) (y i)))) [] := by
  intro v rfl
  rw [curvePrints, List.foldl_append, List.foldl_append, pathPrints, foldl_points]
  exact ⟨rfl, rfl, (List.append_nil _).symm⟩

end

/-! ### One map for both -/

/-- Where the page has the point of two values of the plot. -/
def pagePoint (s : Scaling ℚ) (p : Point) : Point :=
  (plotPadding + (p.1 - s.minX) * s.mx, plotHeight - plotPadding - (p.2 - s.minY) * s.my)

/-- The curve gets there through its group. -/
theorem groupTransform_pagePoint (s : Scaling ℚ) (color : String) (p : Point) :
    groupTransform (gridContext (ctxObj exact []))
      (cordx exact (curveContext s color (gridContext (ctxObj exact []))) p.1,
        cordy exact (curveContext s color (gridContext (ctxObj exact []))) p.2) =
      pagePoint s p := by
  change ((1 : ℚ) * ((p.1 - s.minX) * s.mx + ((0 : Int) : ℚ)) + ((50 : Int) : ℚ),
    (-1 : ℚ) * ((p.2 - s.minY) * s.my + ((-300 + 2 * 50 : Int) : ℚ)) + ((50 : Int) : ℚ)) =
      (((50 : Int) : ℚ) + (p.1 - s.minX) * s.mx,
        ((300 : Int) : ℚ) - ((50 : Int) : ℚ) - (p.2 - s.minY) * s.my)
  push_cast
  apply Prod.ext <;> dsimp only <;> ring

/-- Grid lines get there directly. -/
theorem verticalX_pagePoint (s : Scaling ℚ) (p : Point) :
    verticalX exact s plotPadding p.1 = (pagePoint s p).1 := by
  change (p.1 - s.minX) * s.mx + (plotPadding : ℚ) = plotPadding + (p.1 - s.minX) * s.mx
  ring

theorem horizontalY_pagePoint (s : Scaling ℚ) (p : Point) :
    horizontalY exact s plotHeight plotPadding p.2 = (pagePoint s p).2 := by
  change (plotHeight : ℚ) - (p.2 - s.minY) * s.my - plotPadding =
    plotHeight - plotPadding - (p.2 - s.minY) * s.my
  ring

/-- The vertical line of a value of x, from the bottom to the top. -/
def verticalAt (s : Scaling ℚ) (t : ℚ) : Point × Point :=
  (((pagePoint s (t, s.minY)).1, plotHeight - plotPadding),
    ((pagePoint s (t, s.minY)).1, plotPadding))

/-- The horizontal line of a value of y, from the left to the right. -/
def horizontalAt (s : Scaling ℚ) (t : ℚ) : Point × Point :=
  ((plotPadding, (pagePoint s (s.minX, t)).2),
    (plotWidth - plotPadding, (pagePoint s (s.minX, t)).2))

/-- Outside the group of the curve the context leaves coordinates as they are. -/
theorem cord_grid (v : ℚ) : cordx exact (gridContext (ctxObj exact [])) v = v ∧
    cordy exact (gridContext (ctxObj exact [])) v = v := by
  change (v - 0) * 1 = v ∧ (v - 0) * 1 = v
  rw [sub_zero, mul_one]
  exact ⟨rfl, rfl⟩

theorem vertical_showsAt (s : Scaling ℚ) (t : ℚ) :
    Shows id (verticalPrints exact s (gridContext (ctxObj exact [])) t) [] [verticalAt s t] := by
  have hshows := vertical_shows (T := id) (gridContext (ctxObj exact [])) s t
  simp only [(cord_grid _).1, (cord_grid _).2, id_eq] at hshows
  rw [verticalAt, ← verticalX_pagePoint]
  exact_mod_cast hshows

theorem horizontal_showsAt (s : Scaling ℚ) (t : ℚ) :
    Shows id (horizontalPrints exact s (gridContext (ctxObj exact [])) t) []
      [horizontalAt s t] := by
  have hshows := horizontal_shows (T := id) (gridContext (ctxObj exact [])) s t
  simp only [(cord_grid _).1, (cord_grid _).2, id_eq] at hshows
  rw [horizontalAt, ← horizontalY_pagePoint]
  exact_mod_cast hshows

theorem curve_showsAt (s : Scaling ℚ) (color : String) (x y : Nat → ℚ) (count : Nat) :
    Shows id (curvePrints exact s color x y count (gridContext (ctxObj exact [])))
      ((List.range count).map fun i => pagePoint s (x i, y i)) [] := by
  have hshows := curve_shows (T := id) (gridContext (ctxObj exact [])) s color x y count
  simp only [groupTransform_pagePoint s color (x _, y _), id_eq] at hshows
  exact hshows

/-- What there is to see of a drawing. -/
theorem look_drawing (s : Scaling ℚ) (color x_label y_label : String) (x y : Nat → ℚ) (count : Nat)
    (tv th : List ℚ) :
    curve (drawing exact s color x y count x_label y_label tv th) =
        (List.range count).map (fun i => pagePoint s (x i, y i)) ∧
      gridLines (drawing exact s color x y count x_label y_label tv th) =
        tv.map (verticalAt s) ++ th.map (horizontalAt s) := by
  have hv := shows_flatMap (vertical_showsAt s) tv
  have hh := shows_flatMap (horizontal_showsAt s) th
  have hcurve := curve_showsAt s color x y count
  have haxisY := axisY_shows (T := id) (ctxObj exact []) (x 0) y_label
  have haxisX := axisX_shows (T := id) ((axisContext (ctxObj exact [])).setTextSize 25) s x_label
  have hend : Shows id [.text "</svg>"] [] [] := shows_nothing fun _ => ⟨rfl, rfl, rfl⟩
  have hlabels := maxLabel_shows (T := id) (ctxObj exact []) s
  have hinside := (((((hv.append hh).append hcurve).append hlabels).append haxisY).append
    haxisX).append hend
  simp only [List.append_nil, List.nil_append] at hinside
  -- the start of the document opens the drawing, in the units of the page
  have hframe : ((documentPrints exact (ctxObj exact [])).foldl View.look View.blank).frame = id :=
    rfl
  obtain ⟨-, hpoints, hlines⟩ := hinside _ hframe
  rw [← List.foldl_append] at hpoints hlines
  simp only [← List.append_assoc] at hpoints hlines
  exact ⟨hpoints, hlines⟩

/-! ### The loops in exact arithmetic -/

/-- A loop that is `n` steps away from its bound. -/
theorem counters_steps {max d : ℚ} {next : ℚ → ℚ} (hd : 0 < d) (hnext : ∀ t, next t = t + d)
    {n fuel : Nat} (hfuel : n ≤ fuel) : counters exact max next fuel (max - n * d) =
      some ((List.range n).map fun k : ℕ => max - (n - k) * d) := by
  have hlt (a b : ℚ) : exact.lt a b = decide (a < b) := rfl
  induction n generalizing fuel with
  | zero =>
    cases fuel <;> simp [counters, hlt]
  | succ n ih =>
    obtain ⟨fuel, rfl⟩ := Nat.exists_eq_add_of_le' hfuel
    have hbelow : max - (n + 1 : ℕ) * d < max := by
      push_cast
      nlinarith [mul_nonneg (Nat.cast_nonneg (α := ℚ) n) hd.le]
    have hstep : next (max - (n + 1 : ℕ) * d) = max - n * d := by
      rw [hnext]
      push_cast
      ring
    rw [← Nat.add_assoc, counters, hlt, if_pos (decide_eq_true hbelow), hstep, ih (by omega),
      List.range_succ_eq_map, List.map_cons, List.map_map, Option.map_some, Nat.cast_zero, sub_zero]
    congr 3
    funext k
    simp only [Function.comp_apply, Nat.cast_succ, add_sub_add_right_eq_sub]

/-- The vertical lines of a grid, counted from the left, and the horizontal ones from below. -/
def verticalPlace (k : ℕ) : Point × Point := ((50 + (k + 1) * 90, 250), (50 + (k + 1) * 90, 50))

def horizontalPlace (k : ℕ) : Point × Point := ((50, 250 - (k + 1) * 20), (950, 250 - (k + 1) * 20))

/-- A scaling of ranges that are not empty. -/
structure Proper (s : Scaling ℚ) : Prop where
  width_eq : s.width = s.maxX - s.minX
  height_eq : s.height = s.maxY - s.minY
  width_pos : 0 < s.width
  height_pos : 0 < s.height
  mx_eq : s.mx = (plotWidth - 2 * plotPadding) / s.width
  my_eq : s.my = (plotHeight - 2 * plotPadding) / s.height

/-- Nine values, a tenth of a span apart. -/
def tenths (min span : ℚ) : List ℚ := (List.range 9).map fun k : ℕ => min + (k + 1) * (span / 10)

theorem counters_tenths {min max span : ℚ} {next : ℚ → ℚ} (hspan : 0 < span)
    (hmax : span = max - min) (hnext : ∀ t, next t = t + span / 10) {fuel : Nat}
    (hfuel : 9 ≤ fuel) :
    counters exact max next fuel (firstLine exact min span) = some (tenths min span) := by
  have hfirst : firstLine exact min span = max - (9 : ℕ) * (span / 10) := by
    change min + span / 10 = _
    push_cast
    linarith
  rw [hfirst, counters_steps (by positivity) hnext hfuel, tenths]
  congr 2
  funext k
  push_cast
  linarith

/-- The least value of x is at the left edge, that of y at the bottom. -/
theorem pagePoint_least (s : Scaling ℚ) {p : Point} :
    (p.1 = s.minX → (pagePoint s p).1 = plotPadding) ∧
      (p.2 = s.minY → (pagePoint s p).2 = plotHeight - plotPadding) := by
  constructor
  · intro hp
    rw [pagePoint, hp, sub_self, zero_mul, add_zero]
  · intro hp
    rw [pagePoint, hp, sub_self, zero_mul, sub_zero]

namespace Proper
variable {s : Scaling ℚ} (h : Proper s)
include h

theorem verticalCounters_eq {fuel : Nat} (hfuel : 9 ≤ fuel) :
    verticalCounters exact s fuel = some (tenths s.minX s.width) :=
  counters_tenths h.width_pos h.width_eq (fun _ => rfl) hfuel

theorem horizontalCounters_eq {fuel : Nat} (hfuel : 9 ≤ fuel) :
    horizontalCounters exact s fuel = some (tenths s.minY s.height) :=
  counters_tenths h.height_pos h.height_eq (fun _ => rfl) hfuel

theorem width_mul_mx : s.width * s.mx = plotWidth - 2 * plotPadding := by
  rw [h.mx_eq, mul_div_cancel₀ _ h.width_pos.ne']

theorem height_mul_my : s.height * s.my = plotHeight - 2 * plotPadding := by
  rw [h.my_eq, mul_div_cancel₀ _ h.height_pos.ne']

theorem mx_pos : 0 < s.mx := by
  rw [h.mx_eq]
  exact div_pos (by norm_num [plotWidth, plotPadding]) h.width_pos

theorem my_pos : 0 < s.my := by
  rw [h.my_eq]
  exact div_pos (by norm_num [plotHeight, plotPadding]) h.height_pos

/-- The greatest value of x is at the right edge, that of y at the top. -/
theorem pagePoint_greatest {p : Point} :
    (p.1 = s.maxX → (pagePoint s p).1 = plotWidth - plotPadding) ∧
      (p.2 = s.maxY → (pagePoint s p).2 = plotPadding) := by
  constructor
  · intro hp
    rw [pagePoint, hp, ← h.width_eq, h.width_mul_mx]
    ring
  · intro hp
    rw [pagePoint, hp, ← h.height_eq, h.height_mul_my]
    ring

theorem pagePoint_mono {p q : Point} :
    (p.1 ≤ q.1 → (pagePoint s p).1 ≤ (pagePoint s q).1) ∧
      (p.2 ≤ q.2 → (pagePoint s q).2 ≤ (pagePoint s p).2) := by
  have hmx := h.mx_pos.le
  have hmy := h.my_pos.le
  constructor
  · intro hpq
    simp only [pagePoint]
    gcongr
  · intro hpq
    simp only [pagePoint]
    gcongr

theorem verticalAt_tenth (k : ℕ) :
    verticalAt s (s.minX + (k + 1) * (s.width / 10)) = verticalPlace k := by
  have hmul := h.width_mul_mx
  norm_num [plotWidth, plotPadding] at hmul
  have hplace : (k + 1) * (s.width / 10) * s.mx = ((k : ℚ) + 1) * 90 := by
    linear_combination ((k : ℚ) + 1) / 10 * hmul
  simp only [verticalAt, verticalPlace, pagePoint, add_sub_cancel_left, hplace]
  norm_num [plotPadding, plotHeight]

theorem horizontalAt_tenth (k : ℕ) :
    horizontalAt s (s.minY + (k + 1) * (s.height / 10)) = horizontalPlace k := by
  have hmul := h.height_mul_my
  norm_num [plotHeight, plotPadding] at hmul
  have hplace : (k + 1) * (s.height / 10) * s.my = ((k : ℚ) + 1) * 20 := by
    linear_combination ((k : ℚ) + 1) / 10 * hmul
  simp only [horizontalAt, horizontalPlace, pagePoint, add_sub_cancel_left, hplace]
  norm_num [plotPadding, plotHeight, plotWidth]

end Proper

/-! ### The plot -/

/-- Curve and grid lines agree on where a value belongs. -/
structure CurveOnGrid (x y : Nat → ℚ) (count : Nat) (s : Scaling ℚ) (ps : List (Print ℚ)) :
    Prop where
  curve_eq : curve ps = (List.range count).map fun i => pagePoint s (x i, y i)
  gridLines_eq : gridLines ps = (tenths s.minX s.width).map (verticalAt s) ++
    (tenths s.minY s.height).map (horizontalAt s)
  gridLines_places : gridLines ps =
    (List.range 9).map verticalPlace ++ (List.range 9).map horizontalPlace
  inside : ∀ p ∈ curve ps, plotPadding ≤ p.1 ∧ p.1 ≤ plotWidth - plotPadding ∧
    plotPadding ≤ p.2 ∧ p.2 ≤ plotHeight - plotPadding
  touches : (∃ p ∈ curve ps, p.1 = plotPadding) ∧ (∃ p ∈ curve ps, p.1 = plotWidth - plotPadding) ∧
    (∃ p ∈ curve ps, p.2 = plotPadding) ∧ ∃ p ∈ curve ps, p.2 = plotHeight - plotPadding

section
variable {x y : Nat → ℚ} {count : Nat} (hspan : x 0 < x (count - 1))
  (hy : ∃ i j, i < count ∧ j < count ∧ y i ≠ y j)
include hspan hy

/-- The scaling of data that varies, and where its extremes are. -/
theorem scaling_proper : Proper (scaling exact x y count) ∧
    (scaling exact x y count).minX = x 0 ∧ (scaling exact x y count).maxX = x (count - 1) ∧
    ∃ i j, i < count ∧ j < count ∧ (scaling exact x y count).minY = y i ∧
      (scaling exact x y count).maxY = y j ∧ ∀ k < count, y i ≤ y k ∧ y k ≤ y j := by
  have hcount : count ≠ 0 := by
    intro rfl
    exact lt_irrefl _ hspan
  have hlt (a b : ℚ) : exact.lt (id a) (id b) = decide (a < b) := rfl
  obtain ⟨i, j, hi, hj, hmaxMin, hall⟩ := maxMin_spec exact hlt y hcount
  have hvaries : y i < y j := by
    obtain ⟨a, b, ha, hb, hne⟩ := hy
    apply lt_of_le_of_ne (hall j hj).1
    intro heq
    apply hne
    have ha := hall a ha
    have hb := hall b hb
    linarith
  rw [scaling_eq exact x y hmaxMin]
  refine ⟨⟨rfl, rfl, sub_pos.mpr hspan, sub_pos.mpr hvaries, ?_, ?_⟩, rfl, rfl, i, j, hi, hj, rfl,
    rfl, hall⟩
  · change ((plotWidth - 2 * plotPadding : Int) : ℚ) / _ = _
    push_cast
    rfl
  · change ((plotHeight - 2 * plotPadding : Int) : ℚ) / _ = _
    push_cast
    rfl

theorem drawing_onGrid (hx : ∀ i j, i ≤ j → j < count → x i ≤ x j)
    (color x_label y_label : String) :
    CurveOnGrid x y count (scaling exact x y count)
      (drawing exact (scaling exact x y count) color x y count x_label y_label
        (tenths (scaling exact x y count).minX (scaling exact x y count).width)
        (tenths (scaling exact x y count).minY (scaling exact x y count).height)) := by
  obtain ⟨hproper, hminX, hmaxX, i, j, hi, hj, hminY, hmaxY, hall⟩ := scaling_proper hspan hy
  obtain ⟨s, hs⟩ : ∃ s, s = scaling exact x y count := ⟨_, rfl⟩
  rw [← hs] at hproper hminX hmaxX hminY hmaxY ⊢
  obtain ⟨hcurve, hlines⟩ := look_drawing s color x_label y_label x y count
    (tenths s.minX s.width) (tenths s.minY s.height)
  have hmem {k : Nat} (hk : k < count) : pagePoint s (x k, y k) ∈
      (List.range count).map fun i => pagePoint s (x i, y i) :=
    List.mem_map.mpr ⟨k, List.mem_range.mpr hk, rfl⟩
  have hcount : 0 < count := by omega
  have hlast : count - 1 < count := by omega
  refine ⟨hcurve, hlines, ?_, ?_, ?_⟩
  · have hvertical : (verticalAt s ∘ fun k : ℕ => s.minX + (k + 1) * (s.width / 10)) =
        verticalPlace := by
      funext k
      exact hproper.verticalAt_tenth k
    have hhorizontal : (horizontalAt s ∘ fun k : ℕ => s.minY + (k + 1) * (s.height / 10)) =
        horizontalPlace := by
      funext k
      exact hproper.horizontalAt_tenth k
    rw [hlines, tenths, tenths, List.map_map, List.map_map, hvertical, hhorizontal]
  · intro p hp
    rw [hcurve] at hp
    obtain ⟨k, hk, rfl⟩ := List.mem_map.mp hp
    rw [List.mem_range] at hk
    have hleft := (pagePoint_least s (p := (x 0, y i))).1 hminX.symm
    have hbottom := (pagePoint_least s (p := (x 0, y i))).2 hminY.symm
    have hright := (hproper.pagePoint_greatest (p := (x (count - 1), y j))).1 hmaxX.symm
    have htop := (hproper.pagePoint_greatest (p := (x (count - 1), y j))).2 hmaxY.symm
    exact ⟨hleft.symm.trans_le (hproper.pagePoint_mono.1 (hx 0 k (Nat.zero_le k) hk)),
      (hproper.pagePoint_mono.1 (hx k (count - 1) (by omega) hlast)).trans_eq hright,
      htop.symm.trans_le (hproper.pagePoint_mono.2 (hall k hk).2),
      (hproper.pagePoint_mono.2 (hall k hk).1).trans_eq hbottom⟩
  · rw [hcurve]
    exact ⟨⟨_, hmem hcount, (pagePoint_least s).1 hminX.symm⟩,
      ⟨_, hmem hlast, hproper.pagePoint_greatest.1 hmaxX.symm⟩,
      ⟨_, hmem hj, hproper.pagePoint_greatest.2 hmaxY.symm⟩,
      ⟨_, hmem hi, (pagePoint_least s).2 hminY.symm⟩⟩

end

/-- A plot of data that varies, with nine rounds for each loop. -/
theorem curve_on_grid {fuel : Nat} (hfuel : 9 ≤ fuel) (f : File ℚ) (color x_label y_label : String)
    (x y : Nat → ℚ) (count : Nat) (hx : ∀ i j, i ≤ j → j < count → x i ≤ x j)
    (hspan : x 0 < x (count - 1)) (hy : ∃ i j, i < count ∧ j < count ∧ y i ≠ y j) :
    ∃ ps, svgDrawToFileXy exact fuel f color x y count x_label y_label =
        (fits 20 color).map (fun _ => f ++ ps) ∧
      CurveOnGrid x y count (scaling exact x y count) ps := by
  have hcount : count ≠ 0 := by
    intro rfl
    exact lt_irrefl _ hspan
  refine ⟨_, ?_, drawing_onGrid hspan hy hx color x_label y_label⟩
  obtain ⟨hproper, -⟩ := scaling_proper hspan hy
  rw [svgDrawToFileXy_eq exact fuel f color x y hcount, hproper.verticalCounters_eq hfuel,
    hproper.horizontalCounters_eq hfuel, fits]
  dsimp only
  split <;> rfl

theorem curve_on_grid_diagonal : ∃ ps, svgDrawToFileXy exact 9 [] "#ff0000" (fun i => i)
    (fun i => i) 2 "t" "" = (fits 20 "#ff0000").map (fun _ => [] ++ ps) ∧
      CurveOnGrid (fun i => i) (fun i => i) 2 (scaling exact (fun i => i) (fun i => i) 2) ps :=
  curve_on_grid le_rfl [] "#ff0000" "t" "" (fun i => i) (fun i => i) 2
    (fun i j hij _ => Nat.cast_le.mpr hij) (by norm_num)
    ⟨0, 1, by decide, by decide, by norm_num⟩

end RealTimeLabs.Svg
