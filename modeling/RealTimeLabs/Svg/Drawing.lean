import RealTimeLabs.Svg.Generator

/-! What the parts of a plot have in common.

The strings that the plots set fit their arrays, so the bodies of the two loops cannot
fail, and a loop ends just when its counter reaches the bound. `max_min` finds an element
that is least and one that is greatest. -/
namespace RealTimeLabs.Svg

variable {F : Type} (A : Arith F)

/-! ### Prints and settings -/

namespace Context
variable (ctx : Context F)

@[simp] theorem prints_nil : ctx.prints [] = ctx := by
  simp only [prints, List.append_nil]

@[simp] theorem prints_prints (a b : List (Print F)) :
    (ctx.prints a).prints b = ctx.prints (a ++ b) := by
  simp only [prints, List.append_assoc]

@[simp] theorem setStrokeColor_prints (ps : List (Print F)) (color : String) :
    (ctx.prints ps).setStrokeColor color = (ctx.setStrokeColor color).prints ps := rfl

@[simp] theorem setFillColor_prints (ps : List (Print F)) (color : String) :
    (ctx.prints ps).setFillColor color = (ctx.setFillColor color).prints ps := rfl

@[simp] theorem setDashArray_prints (ps : List (Print F)) (dash : String) :
    (ctx.prints ps).setDashArray dash = (ctx.setDashArray dash).prints ps := rfl

@[simp] theorem setStrokeWidth_prints (ps : List (Print F)) (width : Nat) :
    (ctx.prints ps).setStrokeWidth width = (ctx.setStrokeWidth width).prints ps := rfl

@[simp] theorem setTextSize_prints (ps : List (Print F)) (size : Nat) :
    (ctx.prints ps).setTextSize size = (ctx.setTextSize size).prints ps := rfl

@[simp] theorem setScale_prints (ps : List (Print F)) (mx my ofx ofy : F) :
    (ctx.prints ps).setScale mx my ofx ofy = (ctx.setScale mx my ofx ofy).prints ps := rfl

@[simp] theorem setDashArray_setDashArray (a b : String) :
    (ctx.setDashArray a).setDashArray b = ctx.setDashArray b := rfl

@[simp] theorem cordx_prints (ps : List (Print F)) (var : F) :
    cordx A (ctx.prints ps) var = cordx A ctx var := rfl

@[simp] theorem cordy_prints (ps : List (Print F)) (var : F) :
    cordy A (ctx.prints ps) var = cordy A ctx var := rfl

end Context

theorem svgSetFill_eq (ctx : Context F) {color : String} (h : color.utf8ByteSize < 20) :
    svgSetFill ctx color = .ok (ctx.setFillColor color) := by
  rw [svgSetFill, fits, if_pos h]
  rfl

theorem svgSetStroke_eq (ctx : Context F) {color : String} (h : color.utf8ByteSize < 20) :
    svgSetStroke ctx color = .ok (ctx.setStrokeColor color) := by
  rw [svgSetStroke, fits, if_pos h]
  rfl

theorem svgSetStroke_overrun (ctx : Context F) {color : String} (h : ¬ color.utf8ByteSize < 20) :
    svgSetStroke ctx color = .error .overrun := by
  rw [svgSetStroke, fits, if_neg h]
  rfl

theorem svgSetDash_eq (ctx : Context F) {dash : String} (h : dash.utf8ByteSize < 30) :
    svgSetDash ctx dash = .ok (ctx.setDashArray dash) := by
  rw [svgSetDash, fits, if_pos h]
  rfl

/-! ### What the elements print -/

def strokePrint (ctx : Context F) : Print F :=
  .stroke ctx.strokeColor ctx.strokeWidth ctx.dashArray

def linePrints (ctx : Context F) (x1 y1 x2 y2 : F) : List (Print F) :=
  [.tagStart "line" true, .optf "x1" (cordx A ctx x1), .optf "y1" (cordy A ctx y1),
    .optf "x2" (cordx A ctx x2), .optf "y2" (cordy A ctx y2), strokePrint ctx, .optEnd true]

def arrowPrints (ctx : Context F) (x1 y1 x2 y2 : F) : List (Print F) :=
  [.tagStart "line" true, .optf "x1" (cordx A ctx x1), .optf "y1" (cordy A ctx y1),
    .optf "x2" (cordx A ctx x2), .optf "y2" (cordy A ctx y2),
    .opta "marker-end" "url(#markerArrow)", strokePrint ctx, .optEnd true]

def pathPrints (ctx : Context F) (x y : Nat → F) (count : Nat) : List (Print F) :=
  (List.range count).map fun i => .point (i == 0) (cordx A ctx (x i)) (cordy A ctx (y i))

def rectPrints (ctx : Context F) (x y w h : F) : List (Print F) :=
  [.tagStart "rect" true, .optf "x" (cordx A ctx x), .optf "y" (cordy A ctx y), .optf "width" w,
    .optf "height" h, .opta "fill" ctx.fillColor, strokePrint ctx, .optEnd true]

def textPrints (ctx : Context F) (txt : String) (x y : F) : List (Print F) :=
  [.tagStart "text" true, .optf "x" (cordx A ctx x), .optf "y" (cordy A ctx y),
    .opti "font-size" ctx.textSize, .opta "font-family" ctx.textFamily,
    .opta "fill" ctx.fillColor, strokePrint ctx, .optEnd false, .label txt, .tagEnd "text"]

theorem svgLine_eq (ctx : Context F) (x1 y1 x2 y2 : F) :
    svgLine A ctx x1 y1 x2 y2 = ctx.prints (linePrints A ctx x1 y1 x2 y2) := by
  simp [svgLine, svgTagStart, svgOptf, svgOptStroke, svgOptEnd, Context.print, linePrints,
    strokePrint]

theorem svgArrow_eq (ctx : Context F) (x1 y1 x2 y2 : F) :
    svgArrow A ctx x1 y1 x2 y2 = ctx.prints (arrowPrints A ctx x1 y1 x2 y2) := by
  simp [svgArrow, svgTagStart, svgOptf, svgOpta, svgOptStroke, svgOptEnd, Context.print,
    arrowPrints, strokePrint]

theorem svgRect_eq (ctx : Context F) (x y w h : F) :
    svgRect A ctx x y w h = ctx.prints (rectPrints A ctx x y w h) := by
  simp [svgRect, svgTagStart, svgOptf, svgOptFill, svgOptStroke, svgOptEnd, Context.print,
    rectPrints, strokePrint]

theorem svgText_eq (ctx : Context F) (txt : String) (x y : F) :
    svgText A ctx txt x y = ctx.prints (textPrints A ctx txt x y) := by
  simp [svgText, svgTagStart, svgOptf, svgOpti, svgOpta, svgOptFill, svgOptStroke, svgOptEnd,
    svgTagEnd, Context.print, textPrints, strokePrint]

theorem svgPathPoints_eq (ctx : Context F) (x y : Nat → F) (count : Nat) :
    svgPathPoints A ctx x y count = ctx.prints (pathPrints A ctx x y count) := by
  unfold svgPathPoints pathPrints
  induction count with
  | zero => rw [List.range_zero, List.foldl_nil, List.map_nil, Context.prints_nil]
  | succ n ih =>
    rw [List.range_succ, List.foldl_append, ih, List.map_append]
    simp [Context.print]

theorem svgPathData_eq (ctx : Context F) (x y : Nat → F) (count : Nat) :
    svgPathData A ctx x y count = ctx.prints ([.tagStart "path" true, .pathBeg] ++
      pathPrints A ctx x y count ++
      [.longEnd, .text "fill=\"none\" ", strokePrint ctx, .optEnd true]) := by
  simp [svgPathData, svgTagStart, svgPathPoints_eq, svgOptLongEnd, svgOptFillNone, svgOptStroke,
    svgOptEnd, Context.print, pathPrints, strokePrint]

/-! ### What the parts print -/

theorem ok_bind {α β : Type} (a : α) (g : α → Except Stop β) : (Except.ok a >>= g) = g a := rfl

theorem pure_eq_ok {α : Type} (a : α) : (pure a : Except Stop α) = .ok a := rfl

theorem error_bind {α β : Type} (e : Stop) (g : α → Except Stop β) :
    (Except.error e >>= g) = .error e := rfl

/-- A group that moves and turns its text. -/
def turnedPrints (ctx : Context F) (txt : String) (cx cy dx dy : Int) : List (Print F) :=
  [.tagStart "g" true, .longBeg "transform", .rotate (-90) cx cy, .translate dx dy, .longEnd,
    .optEnd false] ++ textPrints A ctx txt (A.cast 0) (A.cast 0) ++ [.tagEnd "g"]

theorem turnedText_eq (ctx : Context F) (txt : String) (cx cy dx dy : Int) :
    turnedText A txt cx cy dx dy ctx = ctx.prints (turnedPrints A ctx txt cx cy dx dy) := by
  simp [turnedText, svgTagStart, svgOptLongBeg, svgRotate, svgTranslate, svgOptLongEnd, svgOptEnd,
    svgTagEnd, svgText_eq, Context.print, turnedPrints, textPrints, strokePrint]

def documentPrints (ctx : Context F) : List (Print F) :=
  [.svgStart ctx.width ctx.height, .text "<defs>\n",
    .text ("<marker id=\"markerArrow\" markerWidth=\"13\" markerHeight=\"13\" refX=\"7\"" ++
      " refY=\"6\" orient=\"auto\">\n<path d=\"M2,8 L11,6 L2,4 Z\"" ++
      " style=\"fill: #000000;stroke: black;\" />    </marker>"),
    .text "</defs>\n"] ++
    rectPrints A (ctx.setFillColor "#ffffff") (A.cast 0) (A.cast 0) (A.cast ctx.width)
      (A.cast ctx.height)

theorem beginDocument_eq (ctx : Context F) :
    beginDocument A ctx = .ok ((ctx.setFillColor "#ffffff").prints (documentPrints A ctx)) := by
  have hfill (ctx : Context F) := svgSetFill_eq ctx (show "#ffffff".utf8ByteSize < 20 by decide)
  simp [beginDocument, hfill, ok_bind, pure_eq_ok, svgRect_eq, Context.print, documentPrints,
    rectPrints, strokePrint]

/-- Where a vertical line stands on the page. -/
def verticalX (s : Scaling F) (padding : Int) (t : F) : F :=
  A.add (A.mul (A.sub t s.minX) s.mx) (A.cast padding)

def verticalPrints (s : Scaling F) (ctx : Context F) (t : F) : List (Print F) :=
  let tx := verticalX A s ctx.padding t
  linePrints A (ctx.setDashArray "5,5") tx (A.cast (ctx.height - ctx.padding : Int)) tx
      (A.cast ctx.padding) ++
    turnedPrints A ctx (temp A t) (A.toInt tx - 3) (ctx.height - ctx.padding - 10)
      (A.toInt tx - 3) (ctx.height - ctx.padding - 10)

def horizontalY (s : Scaling F) (height padding : Int) (t : F) : F :=
  A.sub (A.sub (A.cast height) (A.mul (A.sub t s.minY) s.my)) (A.cast padding)

def horizontalPrints (s : Scaling F) (ctx : Context F) (t : F) : List (Print F) :=
  let ty := horizontalY A s ctx.height ctx.padding t
  linePrints A (ctx.setDashArray "5,5") (A.cast ctx.padding) ty
      (A.cast (ctx.width - ctx.padding : Int)) ty ++
    textPrints A ctx (temp A t) (A.add (A.cast ctx.padding) (A.cast 3)) (A.sub ty (A.cast 3))

theorem verticalLine_eq (s : Scaling F) (t : F) (ctx : Context F) :
    verticalLine A s t ctx =
      .ok ((ctx.setDashArray "").prints (verticalPrints A s (ctx.setDashArray "") t)) := by
  have hset (ctx : Context F) := svgSetDash_eq ctx (show "5,5".utf8ByteSize < 30 by decide)
  have hclear (ctx : Context F) := svgSetDash_eq ctx (show "".utf8ByteSize < 30 by decide)
  simp [verticalLine, hset, hclear, ok_bind, pure_eq_ok, svgLine_eq, svgTagStart, svgOptLongBeg,
    svgRotate, svgTranslate, svgOptLongEnd, svgOptEnd, svgTagEnd, svgText_eq, Context.print,
    verticalPrints, verticalX, turnedPrints, linePrints, textPrints, strokePrint]

theorem horizontalLine_eq (s : Scaling F) (t : F) (ctx : Context F) :
    horizontalLine A s t ctx =
      .ok ((ctx.setDashArray "").prints (horizontalPrints A s (ctx.setDashArray "") t)) := by
  have hset (ctx : Context F) := svgSetDash_eq ctx (show "5,5".utf8ByteSize < 30 by decide)
  have hclear (ctx : Context F) := svgSetDash_eq ctx (show "".utf8ByteSize < 30 by decide)
  simp [horizontalLine, hset, hclear, ok_bind, pure_eq_ok, svgLine_eq, svgText_eq,
    horizontalPrints, horizontalY, linePrints, textPrints, strokePrint]

/-! ### Loops -/

/-- The values of the counter for which the body of a loop is executed, if it ends in time. -/
def counters (max : F) (next : F → F) : Nat → F → Option (List F)
  | 0, t => if A.lt t max then none else some []
  | fuel + 1, t => if A.lt t max then (counters max next fuel (next t)).map (t :: ·) else some []

/-- With enough fuel, a loop is over just when its counter gets to the bound. -/
theorem counters_isSome_iff (max : F) (next : F → F) (t : F) :
    (∃ fuel, (counters A max next fuel t).isSome) ↔ ∃ n, A.lt (next^[n] t) max = false := by
  constructor
  · intro ⟨fuel, h⟩
    induction fuel generalizing t with
    | zero =>
      rw [counters] at h
      split at h
      · cases h
      · rename_i hlt
        exact ⟨0, eq_false_of_ne_true hlt⟩
    | succ fuel ih =>
      rw [counters] at h
      split at h
      · rw [Option.isSome_map] at h
        obtain ⟨n, hn⟩ := ih (next t) h
        exact ⟨n + 1, hn⟩
      · rename_i hlt
        exact ⟨0, eq_false_of_ne_true hlt⟩
  · intro ⟨n, hn⟩
    refine ⟨n, ?_⟩
    induction n generalizing t with
    | zero =>
      have hlt : A.lt t max = false := hn
      rw [counters, hlt]
      rfl
    | succ n ih =>
      rw [counters]
      split
      · rw [Option.isSome_map]
        exact ih (next t) hn
      · rfl

/-- More fuel changes nothing. -/
theorem counters_le {max : F} {next : F → F} {fuel fuel' : Nat} (hle : fuel ≤ fuel') {t : F}
    {ts : List F} (h : counters A max next fuel t = some ts) :
    counters A max next fuel' t = some ts := by
  induction fuel generalizing fuel' t ts with
  | zero =>
    rw [counters] at h
    split at h
    · cases h
    · rename_i hlt
      cases fuel' <;> rw [counters, if_neg hlt] <;> exact h
  | succ fuel ih =>
    obtain ⟨fuel', rfl⟩ := Nat.exists_eq_add_of_le' hle
    rw [Nat.add_succ, counters]
    rw [counters] at h
    split at h
    · rename_i hlt
      obtain ⟨rest, hrest, rfl⟩ := Option.map_eq_some_iff.mp h
      rw [if_pos hlt, ih (by omega) hrest]
      rfl
    · rename_i hlt
      rw [if_neg hlt]
      exact h

/-- A loop whose body prints, and leaves the context as it is. -/
theorem gridLoop_eq {max : F} {next : F → F} {body : F → Context F → Except Stop (Context F)}
    {ctx : Context F} {lines : F → List (Print F)}
    (hbody : ∀ t ps, body t (ctx.prints ps) = .ok (ctx.prints (ps ++ lines t))) (fuel : Nat) (t : F)
    (ps : List (Print F)) :
    gridLoop A max next body fuel t (ctx.prints ps) =
      match counters A max next fuel t with
      | some ts => .ok (ctx.prints (ps ++ ts.flatMap lines))
      | none => .error .unfinished := by
  induction fuel generalizing t ps with
  | zero =>
    rw [gridLoop, counters]
    split <;> simp
  | succ fuel ih =>
    rw [gridLoop, counters]
    split
    · rw [hbody, ok_bind, ih]
      cases counters A max next fuel (next t) <;> simp
    · simp

theorem Context.setDashArray_self {ctx : Context F} {dash : String} (h : ctx.dashArray = dash) :
    ctx.setDashArray dash = ctx := by
  rw [← h]
  rfl

/-- Grid lines are grey. -/
def gridContext (ctx : Context F) : Context F := (ctx.setStrokeColor "#aaaaaa").setStrokeWidth 1

def verticalCounters (s : Scaling F) (fuel : Nat) : Option (List F) :=
  counters A s.maxX (nextVertical A s.width) fuel (firstLine A s.minX s.width)

def horizontalCounters (s : Scaling F) (fuel : Nat) : Option (List F) :=
  counters A s.maxY (nextHorizontal A s.height) fuel (firstLine A s.minY s.height)

theorem verticalLines_eq (s : Scaling F) (fuel : Nat) {ctx : Context F} (hdash : ctx.dashArray = "")
    (ps : List (Print F)) :
    verticalLines A s fuel (ctx.prints ps) =
      match verticalCounters A s fuel with
      | some ts => .ok ((gridContext ctx).prints
          (ps ++ ts.flatMap (verticalPrints A s (gridContext ctx))))
      | none => .error .unfinished := by
  have hstroke (ctx : Context F) := svgSetStroke_eq ctx (show "#aaaaaa".utf8ByteSize < 20 by decide)
  have hself : (gridContext ctx).setDashArray "" = gridContext ctx :=
    Context.setDashArray_self hdash
  have hbody (t : F) (ps : List (Print F)) : verticalLine A s t ((gridContext ctx).prints ps) =
      .ok ((gridContext ctx).prints (ps ++ verticalPrints A s (gridContext ctx) t)) := by
    rw [verticalLine_eq, Context.setDashArray_prints, hself, Context.prints_prints]
    rfl
  unfold verticalLines
  rw [hstroke, ok_bind]
  exact gridLoop_eq A hbody fuel _ ps

theorem horizontalLines_eq (s : Scaling F) (fuel : Nat) {ctx : Context F}
    (hdash : ctx.dashArray = "") (ps : List (Print F)) :
    horizontalLines A s fuel (ctx.prints ps) =
      match horizontalCounters A s fuel with
      | some ts => .ok ((gridContext ctx).prints
          (ps ++ ts.flatMap (horizontalPrints A s (gridContext ctx))))
      | none => .error .unfinished := by
  have hstroke (ctx : Context F) := svgSetStroke_eq ctx (show "#aaaaaa".utf8ByteSize < 20 by decide)
  have hself : (gridContext ctx).setDashArray "" = gridContext ctx :=
    Context.setDashArray_self hdash
  have hbody (t : F) (ps : List (Print F)) : horizontalLine A s t ((gridContext ctx).prints ps) =
      .ok ((gridContext ctx).prints (ps ++ horizontalPrints A s (gridContext ctx) t)) := by
    rw [horizontalLine_eq, Context.setDashArray_prints, hself, Context.prints_prints]
    rfl
  unfold horizontalLines
  rw [hstroke, ok_bind]
  exact gridLoop_eq A hbody fuel _ ps

/-! ### The curve and the labels -/

def curveContext (s : Scaling F) (color : String) (ctx : Context F) : Context F :=
  ((ctx.setScale s.mx s.my s.minX s.minY).setStrokeColor color).setDashArray ""

def curvePrints (s : Scaling F) (color : String) (x y : Nat → F) (count : Nat) (ctx : Context F) :
    List (Print F) :=
  [.tagStart "g" true, .longBeg "transform", .translate ctx.padding ctx.padding,
    .scale (A.cast 1) (A.cast (-1)), .translate 0 (-ctx.height + 2 * ctx.padding), .longEnd,
    .optEnd false, .tagStart "path" true, .pathBeg] ++
    pathPrints A (curveContext s color ctx) x y count ++
    [.longEnd, .text "fill=\"none\" ", strokePrint (curveContext s color ctx), .optEnd true,
      .tagEnd "g"]

theorem plotData_eq (s : Scaling F) {color : String} (hcolor : color.utf8ByteSize < 20)
    (x y : Nat → F) (count : Nat) (ctx : Context F) (ps : List (Print F)) :
    plotData A s color x y count (ctx.prints ps) =
      .ok ((((ctx.setDashArray "").setStrokeColor "#000000").setScale (A.cast 1) (A.cast 1)
        (A.cast 0) (A.cast 0)).prints (ps ++ curvePrints A s color x y count ctx)) := by
  have hblack (ctx : Context F) := svgSetStroke_eq ctx (show "#000000".utf8ByteSize < 20 by decide)
  have hcolor' (ctx : Context F) := svgSetStroke_eq ctx hcolor
  have hdash (ctx : Context F) := svgSetDash_eq ctx (show "".utf8ByteSize < 30 by decide)
  have hpath (ctx : Context F) (ps : List (Print F)) :
      pathPrints A (ctx.prints ps) x y count = pathPrints A ctx x y count := rfl
  have hstroke (ctx : Context F) (ps : List (Print F)) :
      strokePrint (ctx.prints ps) = strokePrint ctx := rfl
  simp only [plotData, svgTagStart, svgOptLongBeg, svgTranslate, svgScale, svgOptLongEnd, svgOptEnd,
    svgTagEnd, Context.print, hblack, hcolor', hdash, ok_bind, pure_eq_ok, svgPathData_eq,
    Context.prints_prints, Context.setStrokeColor_prints, Context.setDashArray_prints,
    Context.setScale_prints, hpath, hstroke, curvePrints, List.append_assoc]
  rfl

theorem plotData_overrun (s : Scaling F) {color : String} (hcolor : ¬ color.utf8ByteSize < 20)
    (x y : Nat → F) (count : Nat) (ctx : Context F) :
    plotData A s color x y count ctx = .error .overrun := by
  simp only [plotData, svgSetStroke_overrun _ hcolor, error_bind]

def maxLabelPrints (s : Scaling F) (ctx : Context F) : List (Print F) :=
  textPrints A ctx (temp A s.maxY) (A.add (A.cast ctx.padding) (A.cast 3)) (A.cast ctx.padding) ++
    turnedPrints A ctx (temp A s.maxX) (ctx.width - ctx.padding - ctx.textSize / 2)
      (ctx.height - ctx.padding - ctx.textSize) (ctx.width - ctx.padding - ctx.textSize)
      (ctx.height - ctx.padding - ctx.textSize)

theorem maxLabels_eq (s : Scaling F) (ctx : Context F) (ps : List (Print F)) :
    maxLabels A s (ctx.prints ps) = ctx.prints (ps ++ maxLabelPrints A s ctx) := by
  simp [maxLabels, svgText_eq, turnedText_eq, maxLabelPrints, turnedPrints, textPrints, strokePrint]

/-- Axes are black. -/
def axisContext (ctx : Context F) : Context F :=
  ((ctx.setFillColor "#000000").setStrokeColor "#000000").setDashArray ""

def axisYPrints (x_0 : F) (y_label : String) (ctx : Context F) : List (Print F) :=
  let large := (axisContext ctx).setTextSize (ctx.padding / 2).toNat
  let small := ((axisContext ctx).setStrokeWidth 1).setTextSize 14
  arrowPrints A (large.setStrokeWidth 2) (A.cast ctx.padding)
      (A.cast (ctx.height - ctx.padding / (2 : ℚ))) (A.cast ctx.padding)
      (A.cast (ctx.padding / (2 : ℚ))) ++
    textPrints A (large.setStrokeWidth 1) y_label (A.cast (ctx.padding + large.textSize / (4 : ℚ)))
      (A.cast (ctx.padding / (2 : ℚ) + large.textSize / (4 : ℚ))) ++
    turnedPrints A small (temp A x_0) (ctx.padding - small.textSize / 2)
      (ctx.height - ctx.padding - small.textSize) (ctx.padding - small.textSize)
      (ctx.height - ctx.padding - small.textSize)

theorem axisY_eq (x_0 : F) (y_label : String) (ctx : Context F) (ps : List (Print F)) :
    axisY A x_0 y_label (ctx.prints ps) =
      .ok ((((axisContext ctx).setStrokeWidth 1).setTextSize (ctx.padding / 2).toNat).prints
        (ps ++ axisYPrints A x_0 y_label ctx)) := by
  have hfill (ctx : Context F) := svgSetFill_eq ctx (show "#000000".utf8ByteSize < 20 by decide)
  have hblack (ctx : Context F) := svgSetStroke_eq ctx (show "#000000".utf8ByteSize < 20 by decide)
  have hdash (ctx : Context F) := svgSetDash_eq ctx (show "".utf8ByteSize < 30 by decide)
  have htext (ctx : Context F) (ps : List (Print F)) (txt : String) (x y : F) :
      textPrints A (ctx.prints ps) txt x y = textPrints A ctx txt x y := rfl
  have hturned (ctx : Context F) (ps : List (Print F)) (txt : String) (cx cy dx dy : Int) :
      turnedPrints A (ctx.prints ps) txt cx cy dx dy = turnedPrints A ctx txt cx cy dx dy := rfl
  have harrow (ctx : Context F) (ps : List (Print F)) (x1 y1 x2 y2 : F) :
      arrowPrints A (ctx.prints ps) x1 y1 x2 y2 = arrowPrints A ctx x1 y1 x2 y2 := rfl
  simp only [axisY, hfill, hblack, hdash, ok_bind, pure_eq_ok, svgArrow_eq, svgText_eq,
    turnedText_eq, Context.prints_prints, Context.setFillColor_prints,
    Context.setStrokeColor_prints, Context.setDashArray_prints, Context.setStrokeWidth_prints,
    Context.setTextSize_prints, htext, hturned, harrow, axisYPrints, List.append_assoc]
  rfl

def axisXPrints (s : Scaling F) (x_label : String) (ctx : Context F) : List (Print F) :=
  let large := (ctx.setStrokeWidth 1).setTextSize (ctx.padding / 2).toNat
  let small := large.setTextSize 14
  arrowPrints A (ctx.setStrokeWidth 2) (A.div (A.cast ctx.padding) (A.cast 2))
      (A.cast (ctx.height - ctx.padding : Int)) (A.cast (ctx.width - ctx.padding / (2 : ℚ)))
      (A.cast (ctx.height - ctx.padding : Int)) ++
    textPrints A large x_label
      (A.cast ((ctx.width - x_label.utf8ByteSize * large.textSize) % sizeLimit : Int))
      (A.cast (ctx.height - ctx.padding - large.textSize / (2 : ℚ))) ++
    textPrints A small (temp A s.minY) (A.add (A.cast ctx.padding) (A.cast 3))
      (A.cast (ctx.height - ctx.padding + small.textSize : Int))

theorem axisX_eq (s : Scaling F) (x_label : String) (ctx : Context F) (ps : List (Print F)) :
    axisX A s x_label (ctx.prints ps) =
      (((ctx.setStrokeWidth 1).setTextSize (ctx.padding / 2).toNat).setTextSize 14).prints
        (ps ++ axisXPrints A s x_label ctx) := by
  have htext (ctx : Context F) (ps : List (Print F)) (txt : String) (x y : F) :
      textPrints A (ctx.prints ps) txt x y = textPrints A ctx txt x y := rfl
  have harrow (ctx : Context F) (ps : List (Print F)) (x1 y1 x2 y2 : F) :
      arrowPrints A (ctx.prints ps) x1 y1 x2 y2 = arrowPrints A ctx x1 y1 x2 y2 := rfl
  simp only [axisX, svgArrow_eq, svgText_eq, Context.prints_prints, Context.setStrokeWidth_prints,
    Context.setTextSize_prints, htext, harrow, axisXPrints, List.append_assoc]
  rfl

/-! ### The whole plot -/

/-- What a plot prints, once its loops have visited `tv` and `th`. -/
def drawing (s : Scaling F) (color : String) (x y : Nat → F) (count : Nat)
    (x_label y_label : String) (tv th : List F) : List (Print F) :=
  let ctx := ctxObj A []
  documentPrints A ctx ++ tv.flatMap (verticalPrints A s (gridContext ctx)) ++
    th.flatMap (horizontalPrints A s (gridContext ctx)) ++
    curvePrints A s color x y count (gridContext ctx) ++ maxLabelPrints A s ctx ++
    axisYPrints A (x 0) y_label ctx ++
    axisXPrints A s x_label ((axisContext ctx).setTextSize 25) ++ [.text "</svg>"]

theorem svgDrawToFileXy_eq (fuel : Nat) (f : File F) (color : String) (x y : Nat → F) {count : Nat}
    (hcount : count ≠ 0) (x_label y_label : String) :
    svgDrawToFileXy A fuel f color x y count x_label y_label =
      match verticalCounters A (scaling A x y count) fuel,
        horizontalCounters A (scaling A x y count) fuel with
      | some tv, some th =>
        if color.utf8ByteSize < 20 then
          .ok (f ++ drawing A (scaling A x y count) color x y count x_label y_label tv th)
        else .error .overrun
      | _, _ => .error .unfinished := by
  have hobj : ctxObj A f = (ctxObj A []).prints f := rfl
  have hbegin : beginDocument A (ctxObj A f) =
      .ok ((ctxObj A []).prints (f ++ documentPrints A (ctxObj A []))) := by
    rw [beginDocument_eq]
    exact congrArg Except.ok (Context.prints_prints (ctxObj A []) f _)
  have hdash : (ctxObj A []).dashArray = "" := rfl
  have hdash' : (gridContext (ctxObj A [])).dashArray = "" := rfl
  have hv := verticalLines_eq A (scaling A x y count) fuel hdash
  have hh := horizontalLines_eq A (scaling A x y count) fuel hdash'
  -- after the curve the context is as it was at the start
  have hplot (hcolor : color.utf8ByteSize < 20) (ps : List (Print F)) :
      plotData A (scaling A x y count) color x y count
          ((gridContext (gridContext (ctxObj A []))).prints ps) =
        .ok ((ctxObj A []).prints (ps ++ curvePrints A (scaling A x y count) color x y count
          (gridContext (ctxObj A [])))) :=
    plotData_eq A (scaling A x y count) hcolor x y count _ ps
  rw [svgDrawToFileXy, if_neg hcount]
  simp only [hbegin, ok_bind, hv]
  cases verticalCounters A (scaling A x y count) fuel with
  | none => rfl
  | some tv =>
    simp only [ok_bind, hh]
    cases horizontalCounters A (scaling A x y count) fuel with
    | none => rfl
    | some th =>
      simp only [ok_bind]
      split
      · rename_i hcolor
        simp only [hplot hcolor, ok_bind, maxLabels_eq, axisY_eq, axisX_eq, svgFinish,
          Context.print, pure_eq_ok, Context.prints_f, drawing, List.append_assoc]
        rfl
      · rename_i hcolor
        rw [plotData_overrun A _ hcolor, error_bind]

/-- A plot is drawn to its end, or stopped by its colour, just when both loops end. -/
theorem svgDrawToFileXy_finishes_iff (f : File F) (color : String) (x y : Nat → F) {count : Nat}
    (hcount : count ≠ 0) (x_label y_label : String) :
    (∃ fuel, svgDrawToFileXy A fuel f color x y count x_label y_label ≠ .error .unfinished) ↔
      (∃ fuel, (verticalCounters A (scaling A x y count) fuel).isSome) ∧
        ∃ fuel, (horizontalCounters A (scaling A x y count) fuel).isSome := by
  simp only [svgDrawToFileXy_eq A _ f color x y hcount]
  constructor
  · intro ⟨fuel, h⟩
    constructor
    · refine ⟨fuel, ?_⟩
      cases hv : verticalCounters A (scaling A x y count) fuel with
      | none => simp [hv] at h
      | some tv => rfl
    · refine ⟨fuel, ?_⟩
      cases hh : horizontalCounters A (scaling A x y count) fuel with
      | none => cases hv : verticalCounters A (scaling A x y count) fuel <;> simp [hv, hh] at h
      | some th => rfl
  · intro ⟨⟨fuelV, hv⟩, fuelH, hh⟩
    obtain ⟨tv, hv⟩ := Option.isSome_iff_exists.mp hv
    obtain ⟨th, hh⟩ := Option.isSome_iff_exists.mp hh
    refine ⟨max fuelV fuelH, ?_⟩
    simp only [verticalCounters, horizontalCounters] at hv hh ⊢
    rw [counters_le A (le_max_left _ _) hv, counters_le A (le_max_right _ _) hh]
    dsimp only
    split <;> simp

/-! ### Extremes -/

/-- `max_min` over values in which `<` is that of the rationals they stand for. -/
theorem maxMinFrom_spec {value : ℚ → F} (hlt : ∀ a b, A.lt (value a) (value b) = decide (a < b))
    (data : Nat → ℚ) (n : Nat) : ∃ i j, i ≤ n ∧ j ≤ n ∧
      maxMinFrom A (fun k => value (data k)) n = (value (data i), value (data j)) ∧
      ∀ k ≤ n, data i ≤ data k ∧ data k ≤ data j := by
  induction n with
  | zero =>
    refine ⟨0, 0, le_rfl, le_rfl, rfl, fun k hk => ?_⟩
    rw [Nat.le_zero.mp hk]
    exact ⟨le_rfl, le_rfl⟩
  | succ n ih =>
    obtain ⟨i, j, hi, hj, heq, hall⟩ := ih
    have hij : data i ≤ data j := (hall i hi).2
    have hnew {i' j' : Nat} (hlo : data i' ≤ data i) (hhi : data j ≤ data j')
        (hlo' : data i' ≤ data (n + 1)) (hhi' : data (n + 1) ≤ data j') (k : Nat)
        (hk : k ≤ n + 1) : data i' ≤ data k ∧ data k ≤ data j' := by
      rcases Nat.le_succ_iff.mp hk with hk | rfl
      · exact ⟨hlo.trans (hall k hk).1, (hall k hk).2.trans hhi⟩
      · exact ⟨hlo', hhi'⟩
    simp only [maxMinFrom, heq, hlt, decide_eq_true_eq]
    split
    · rename_i h
      exact ⟨n + 1, j, le_rfl, by omega, rfl, hnew h.le le_rfl le_rfl (h.le.trans hij)⟩
    · rename_i h
      have h := le_of_not_gt h
      split
      · rename_i h'
        exact ⟨i, n + 1, by omega, le_rfl, rfl, hnew le_rfl h'.le h le_rfl⟩
      · rename_i h'
        exact ⟨i, j, by omega, by omega, rfl, hnew le_rfl le_rfl h (le_of_not_gt h')⟩

theorem maxMin_spec {value : ℚ → F} (hlt : ∀ a b, A.lt (value a) (value b) = decide (a < b))
    (data : Nat → ℚ) {count : Nat} (hcount : count ≠ 0) : ∃ i j, i < count ∧ j < count ∧
      maxMin A (fun k => value (data k)) count = (value (data i), value (data j)) ∧
      ∀ k < count, data i ≤ data k ∧ data k ≤ data j := by
  obtain ⟨i, j, hi, hj, heq, hall⟩ := maxMinFrom_spec A hlt data (count - 1)
  exact ⟨i, j, by omega, by omega, heq, fun k hk => hall k (by omega)⟩

/-- The scaling of a plot whose extremes are known. -/
theorem scaling_eq (x y : Nat → F) {count : Nat} {min_y max_y : F}
    (h : maxMin A y count = (min_y, max_y)) : scaling A x y count =
      ⟨x 0, x (count - 1), min_y, max_y, A.sub (x (count - 1)) (x 0), A.sub max_y min_y,
        A.div (A.cast (plotWidth - 2 * plotPadding : Int)) (A.sub (x (count - 1)) (x 0)),
        A.div (A.cast (plotHeight - 2 * plotPadding : Int)) (A.sub max_y min_y)⟩ := by
  rw [scaling, h]

end RealTimeLabs.Svg
