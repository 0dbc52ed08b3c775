import RealTimeLabs.Svg.Drawing

/-! The page is well-nested markup.

The helpers write a tag piece by piece, so most prints are not balanced by themselves:
each takes the scanner of `Markup` from one state to another. An element, a group, a
grid line, the curve are `Balanced` lists of prints: inside an element that is open they
leave the scanner where it was, whatever is open around it. Lists of balanced lists are
balanced, and so is whatever the loops add, however often they run. -/
namespace RealTimeLabs.Svg
open Markup

variable {F : Type} (A : Arith F)

/-- Characters that mean nothing to the markup. -/
def PlainText (s : String) : Prop := ∀ c ∈ s.toList, Plain c

instance (s : String) : Decidable (PlainText s) :=
  decidable_of_iff (s.toList.all (fun c => decide (Plain c)) = true)
    ⟨plain_of_all, fun h => List.all_eq_true.mpr fun c hc => decide_eq_true (h c hc)⟩

theorem temp_plain (t : F) : PlainText (temp A t) := by
  intro c hc
  rw [temp, String.toList_ofList] at hc
  exact formatInt_plain _ c hc

/-- The strings that a context puts into attributes. -/
structure Context.PlainStrings (ctx : Context F) : Prop where
  strokeColor : PlainText ctx.strokeColor
  fillColor : PlainText ctx.fillColor
  textFamily : PlainText ctx.textFamily
  dashArray : PlainText ctx.dashArray

namespace Context.PlainStrings
variable {ctx : Context F} (h : ctx.PlainStrings)
include h

theorem setStrokeColor {color : String} (hcolor : PlainText color) :
    (ctx.setStrokeColor color).PlainStrings := ⟨hcolor, h.fillColor, h.textFamily, h.dashArray⟩

theorem setFillColor {color : String} (hcolor : PlainText color) :
    (ctx.setFillColor color).PlainStrings := ⟨h.strokeColor, hcolor, h.textFamily, h.dashArray⟩

theorem setDashArray {dash : String} (hdash : PlainText dash) :
    (ctx.setDashArray dash).PlainStrings := ⟨h.strokeColor, h.fillColor, h.textFamily, hdash⟩

theorem setStrokeWidth (width : Nat) : (ctx.setStrokeWidth width).PlainStrings :=
  ⟨h.1, h.2, h.3, h.4⟩

theorem setTextSize (size : Nat) : (ctx.setTextSize size).PlainStrings := ⟨h.1, h.2, h.3, h.4⟩

theorem setScale (mx my ofx ofy : F) : (ctx.setScale mx my ofx ofy).PlainStrings :=
  ⟨h.1, h.2, h.3, h.4⟩

end Context.PlainStrings

/-- An attribute, and the space behind it. -/
def option (name : String) (text : List Char) : List Char :=
  name.toList ++ "=\"".toList ++ text ++ "\" ".toList

/-- One print for three attributes. -/
theorem render_stroke (ctx : Context F) :
    (strokePrint ctx).render A = option "stroke" ctx.strokeColor.toList ++
      option "stroke-width" (formatInt ctx.strokeWidth) ++
      option "stroke-dasharray" ctx.dashArray.toList := by
  have hassoc (a b c d e f : List Char) : a ++ b ++ (['"', ' '] ++ c) ++ d ++
      (['"', ' '] ++ e) ++ f ++ ['"', ' '] =
        a ++ b ++ ['"', ' '] ++ (c ++ d ++ ['"', ' ']) ++ (e ++ f ++ ['"', ' ']) := by
    simp only [List.append_assoc]
  exact hassoc ("stroke".toList ++ ['=', '"']) _ ("stroke-width".toList ++ ['=', '"']) _
    ("stroke-dasharray".toList ++ ['=', '"']) _

/-! ### One print -/

section
variable {around : List (List Char)} {name : List Char} {keys : List (List Char)}

theorem feed_print_tagStart {s : String} (hs : IsName s.toList) :
    feed (.content around) ((Print.tagStart s true : Print F).render A) =
      some (.inTag around s.toList []) := by
  have hstart : feed (.content around) ('\n' :: '<' :: s.toList) =
      some (.startTag around s.toList) := feed_tagStart hs
  exact feed_trans hstart rfl

theorem feed_print_optf {key : String} (hkey : IsName key.toList) (hnew : key.toList ∉ keys)
    (v : F) : feed (.inTag around name keys) ((Print.optf key v).render A) =
      some (.inTag around name (key.toList :: keys)) :=
  feed_attribute hkey hnew (A.format_plain v)

theorem feed_print_opti {key : String} (hkey : IsName key.toList) (hnew : key.toList ∉ keys)
    (v : Int) : feed (.inTag around name keys) ((Print.opti key v : Print F).render A) =
      some (.inTag around name (key.toList :: keys)) :=
  feed_attribute hkey hnew (formatInt_plain v)

theorem feed_print_opta {key v : String} (hkey : IsName key.toList) (hnew : key.toList ∉ keys)
    (hv : PlainText v) : feed (.inTag around name keys) ((Print.opta key v : Print F).render A) =
      some (.inTag around name (key.toList :: keys)) :=
  feed_attribute hkey hnew hv

/-- The three options of a stroke, the last first. -/
def strokeKeys : List (List Char) :=
  ["stroke-dasharray".toList, "stroke-width".toList, "stroke".toList]

theorem feed_print_stroke {ctx : Context F} (hctx : ctx.PlainStrings)
    (hnew : ∀ k ∈ strokeKeys, k ∉ keys) :
    feed (.inTag around name keys) ((strokePrint ctx).render A) =
      some (.inTag around name (strokeKeys ++ keys)) := by
  have hcolor : feed (.inTag around name keys) (option "stroke" ctx.strokeColor.toList) =
        some (.inTag around name ("stroke".toList :: keys)) :=
    feed_attribute (by decide) (hnew _ (by decide)) hctx.strokeColor
  have hwidth : feed (.inTag around name ("stroke".toList :: keys))
      (option "stroke-width" (formatInt ctx.strokeWidth)) =
        some (.inTag around name ("stroke-width".toList :: "stroke".toList :: keys)) := by
    apply feed_attribute (by decide) _ (formatInt_plain _)
    rw [List.mem_cons, not_or]
    exact ⟨by decide, hnew _ (by decide)⟩
  have hdash : feed (.inTag around name ("stroke-width".toList :: "stroke".toList :: keys))
      (option "stroke-dasharray" ctx.dashArray.toList) =
        some (.inTag around name (strokeKeys ++ keys)) := by
    apply feed_attribute (by decide) _ hctx.dashArray
    rw [List.mem_cons, List.mem_cons, not_or, not_or]
    exact ⟨by decide, by decide, hnew _ (by decide)⟩
  rw [render_stroke]
  exact feed_trans (feed_trans hcolor hwidth) hdash

theorem feed_print_longBeg {key : String} (hkey : IsName key.toList) (hnew : key.toList ∉ keys) :
    feed (.inTag around name keys) ((Print.longBeg key : Print F).render A) =
      some (.value around name (key.toList :: keys)) :=
  feed_attributeStart hkey hnew

theorem feed_print_longEnd :
    feed (.value around name keys) ((Print.longEnd : Print F).render A) =
      some (.inTag around name keys) := rfl

theorem feed_print_optEnd {innermost : List Char} :
    feed (.inTag (innermost :: around) name keys) ((Print.optEnd true : Print F).render A) =
      some (.content (innermost :: around)) := rfl

theorem feed_print_optEnd_open :
    feed (.inTag around name keys) ((Print.optEnd false : Print F).render A) =
      some (.content (name :: around)) := rfl

theorem feed_print_fillNone :
    feed (.inTag around name [['d']]) ((Print.text "fill=\"none\" " : Print F).render A) =
      some (.inTag around name ["fill".toList, ['d']]) := rfl

theorem feed_print_label {s : String} (hs : PlainText s) :
    feed (.content (name :: around)) ((Print.label s : Print F).render A) =
      some (.content (name :: around)) := feed_text hs

theorem feed_print_tagEnd {s : String} (hs : IsName s.toList) :
    feed (.content (s.toList :: around)) ((Print.tagEnd s : Print F).render A) =
      some (.after around) := feed_tagEnd hs.chars

/-- Prints inside the value of an attribute. -/
def InValue : Print F → Prop
  | .rotate .. | .translate .. | .scale .. | .point .. => True
  | _ => False

theorem plain_append {a b : List Char} (ha : ∀ c ∈ a, Plain c) (hb : ∀ c ∈ b, Plain c) :
    ∀ c ∈ a ++ b, Plain c := List.forall_mem_append.mpr ⟨ha, hb⟩

theorem render_plain {p : Print F} (hp : InValue p) : ∀ c ∈ p.render A, Plain c := by
  have hint := formatInt_plain
  have hformat := A.format_plain
  cases p with
  | rotate angle cx cy =>
    refine plain_append (plain_append (plain_append (plain_append (plain_append (plain_append
      (plain_append (plain_append (plain_append (plain_append ?_ (hint _)) ?_) (hint _)) ?_)
      (hint _)) ?_) (hint _)) ?_) (hint _)) ?_ <;> exact plain_of_all rfl
  | translate dx dy =>
    refine plain_append (plain_append (plain_append (plain_append ?_ (hint _)) ?_) (hint _)) ?_ <;>
      exact plain_of_all rfl
  | scale sx sy =>
    refine plain_append (plain_append (plain_append (plain_append ?_ (hformat _)) ?_)
      (hformat _)) ?_ <;> exact plain_of_all rfl
  | point first x y =>
    refine plain_append (plain_append (plain_append (plain_append ?_ (hformat _)) ?_)
      (hformat _)) ?_
    · cases first <;> exact plain_of_all rfl
    · exact plain_of_all rfl
    · exact plain_of_all rfl
  | _ => exact hp.elim

theorem feed_print_value {p : Print F} (hp : InValue p) :
    feed (.value around name keys) (p.render A) = some (.value around name keys) :=
  feed_value (render_plain A hp)

end

/-! ### Several prints -/

theorem render_append (ps qs : List (Print F)) : render A (ps ++ qs) = render A ps ++ render A qs :=
  List.flatMap_append

theorem feed_nil (s : State) : feed s (render A []) = some s := rfl

theorem feed_cons {s s' s'' : State} {p : Print F} {ps : List (Print F)}
    (hp : feed s (p.render A) = some s') (hps : feed s' (render A ps) = some s'') :
    feed s (render A (p :: ps)) = some s'' := feed_trans hp hps

theorem feed_prints {s s' s'' : State} {ps qs : List (Print F)}
    (hps : feed s (render A ps) = some s') (hqs : feed s' (render A qs) = some s'') :
    feed s (render A (ps ++ qs)) = some s'' := by
  rw [render_append]
  exact feed_trans hps hqs

/-- Prints that open and close the same elements. -/
def Balanced (ps : List (Print F)) : Prop := ∀ (innermost : List Char) (around : List (List Char)),
  feed (.content (innermost :: around)) (render A ps) = some (.content (innermost :: around))

variable {A} in
theorem Balanced.append {ps qs : List (Print F)} (hps : Balanced A ps) (hqs : Balanced A qs) :
    Balanced A (ps ++ qs) := fun innermost around =>
  feed_prints A (hps innermost around) (hqs innermost around)

/-- However often a loop runs. -/
theorem balanced_flatMap {lines : F → List (Print F)} (h : ∀ t, Balanced A (lines t))
    (ts : List F) : Balanced A (ts.flatMap lines) := by
  intro innermost around
  induction ts with
  | nil => rfl
  | cons t rest ih =>
    rw [List.flatMap_cons]
    exact feed_prints A (h t innermost around) ih

/-! ### Elements and groups -/

/-- A tag with four numbers for a place, as lines and rectangles begin. -/
theorem feed_placed {tag k1 k2 k3 k4 : String} (htag : IsName tag.toList)
    (hnames : ∀ k ∈ [k1, k2, k3, k4], IsName k.toList)
    (hnodup : [k4.toList, k3.toList, k2.toList, k1.toList].Nodup) (a b c d : F)
    (around : List (List Char)) {s : State} {ps : List (Print F)}
    (hps : feed (.inTag around tag.toList [k4.toList, k3.toList, k2.toList, k1.toList])
      (render A ps) = some s) :
    feed (.content around) (render A
      (.tagStart tag true :: .optf k1 a :: .optf k2 b :: .optf k3 c :: .optf k4 d :: ps)) =
        some s := by
  simp only [List.mem_cons, List.not_mem_nil, or_false, forall_eq_or_imp, forall_eq] at hnames
  obtain ⟨h1, h2, h3, h4⟩ := hnames
  obtain ⟨hnew4, hnodup⟩ := List.nodup_cons.mp hnodup
  obtain ⟨hnew3, hnodup⟩ := List.nodup_cons.mp hnodup
  obtain ⟨hnew2, -⟩ := List.nodup_cons.mp hnodup
  apply feed_cons A (feed_print_tagStart A htag)
  apply feed_cons A (feed_print_optf A h1 List.not_mem_nil a)
  apply feed_cons A (feed_print_optf A h2 hnew2 b)
  apply feed_cons A (feed_print_optf A h3 hnew3 c)
  exact feed_cons A (feed_print_optf A h4 hnew4 d) hps

section
variable {ctx : Context F} (hctx : ctx.PlainStrings)
include hctx

theorem line_balanced (x1 y1 x2 y2 : F) : Balanced A (linePrints A ctx x1 y1 x2 y2) := by
  intro innermost around
  apply feed_placed A (by decide) (by decide) (by decide)
  apply feed_cons A (feed_print_stroke A hctx (by decide))
  exact feed_cons A (feed_print_optEnd A) (feed_nil A _)

theorem arrow_balanced (x1 y1 x2 y2 : F) : Balanced A (arrowPrints A ctx x1 y1 x2 y2) := by
  intro innermost around
  apply feed_placed A (by decide) (by decide) (by decide)
  apply feed_cons A (feed_print_opta A (by decide) (by decide) (by decide))
  apply feed_cons A (feed_print_stroke A hctx (by decide))
  exact feed_cons A (feed_print_optEnd A) (feed_nil A _)

theorem rect_balanced (x y w h : F) : Balanced A (rectPrints A ctx x y w h) := by
  intro innermost around
  apply feed_placed A (by decide) (by decide) (by decide)
  apply feed_cons A (feed_print_opta A (by decide) (by decide) hctx.fillColor)
  apply feed_cons A (feed_print_stroke A hctx (by decide))
  exact feed_cons A (feed_print_optEnd A) (feed_nil A _)

theorem text_balanced {txt : String} (htxt : PlainText txt) (x y : F) :
    Balanced A (textPrints A ctx txt x y) := by
  intro innermost around
  apply feed_cons A (feed_print_tagStart A (by decide))
  apply feed_cons A (feed_print_optf A (by decide) (by decide) _)
  apply feed_cons A (feed_print_optf A (by decide) (by decide) _)
  apply feed_cons A (feed_print_opti A (by decide) (by decide) _)
  apply feed_cons A (feed_print_opta A (by decide) (by decide) hctx.textFamily)
  apply feed_cons A (feed_print_opta A (by decide) (by decide) hctx.fillColor)
  apply feed_cons A (feed_print_stroke A hctx (by decide))
  apply feed_cons A (feed_print_optEnd_open A)
  apply feed_cons A (feed_print_label A htxt)
  exact feed_cons A (feed_print_tagEnd A (by decide)) (feed_nil A _)

theorem turned_balanced {txt : String} (htxt : PlainText txt) (cx cy dx dy : Int) :
    Balanced A (turnedPrints A ctx txt cx cy dx dy) := by
  intro innermost around
  have hstart : feed (.content (innermost :: around)) (render A
      ([.tagStart "g" true, .longBeg "transform", .rotate (-90) cx cy, .translate dx dy, .longEnd,
        .optEnd false] : List (Print F))) = some (.content (['g'] :: innermost :: around)) := by
    apply feed_cons A (feed_print_tagStart A (by decide))
    apply feed_cons A (feed_print_longBeg A (by decide) (by decide))
    apply feed_cons A (feed_print_value A (by trivial))
    apply feed_cons A (feed_print_value A (by trivial))
    apply feed_cons A (feed_print_longEnd A)
    exact feed_cons A (feed_print_optEnd_open A) (feed_nil A _)
  apply feed_prints A (feed_prints A hstart (text_balanced A hctx htxt _ _ _ _))
  exact feed_cons A (feed_print_tagEnd (s := "g") A (by decide)) (feed_nil A _)

end

/-! ### Grid, curve and labels -/

theorem render_text_append (a b c : String) :
    (Print.text (a ++ b ++ c) : Print F).render A = a.toList ++ b.toList ++ c.toList := by
  change (a ++ b ++ c).toList = _
  rw [String.toList_append, String.toList_append]

set_option maxRecDepth 1000 in
/-- The arrow head, and the end of the definitions. -/
theorem feed_marker (innermost : List Char) (around : List (List Char)) :
    feed (.content ("defs".toList :: innermost :: around)) (render A [
      .text ("<marker id=\"markerArrow\" markerWidth=\"13\" markerHeight=\"13\" refX=\"7\"" ++
        " refY=\"6\" orient=\"auto\">\n<path d=\"M2,8 L11,6 L2,4 Z\"" ++
        " style=\"fill: #000000;stroke: black;\" />    </marker>"),
      .text "</defs>\n"]) = some (.content (innermost :: around)) := by
  have hfirst : feed (.content ("defs".toList :: innermost :: around))
      "<marker id=\"markerArrow\" markerWidth=\"13\" markerHeight=\"13\" refX=\"7\"".toList =
        some (.valued ("defs".toList :: innermost :: around) "marker".toList
          ["refX".toList, "markerHeight".toList, "markerWidth".toList, "id".toList]) := by rfl
  have hpath : feed (.valued ("defs".toList :: innermost :: around) "marker".toList
      ["refX".toList, "markerHeight".toList, "markerWidth".toList, "id".toList])
      " refY=\"6\" orient=\"auto\">\n<path d=\"M2,8 L11,6 L2,4 Z\"".toList =
        some (.valued ("marker".toList :: "defs".toList :: innermost :: around) "path".toList
          [['d']]) := by rfl
  have hlast : feed (.valued ("marker".toList :: "defs".toList :: innermost :: around)
      "path".toList [['d']])
      " style=\"fill: #000000;stroke: black;\" />    </marker>".toList =
        some (.content ("defs".toList :: innermost :: around)) := by rfl
  have hmarker := feed_trans (feed_trans hfirst hpath) hlast
  rw [← render_text_append A] at hmarker
  exact feed_cons A hmarker rfl

/-- The start of the document, whatever is open around it. -/
theorem feed_document (around : List (List Char)) {ctx : Context F} (hctx : ctx.PlainStrings) :
    feed (.content around) (render A (documentPrints A ctx)) =
      some (.content ("svg".toList :: around)) := by
  have hopen : feed (.content around) ((Print.svgStart ctx.width ctx.height : Print F).render A) =
      some (.content ("svg".toList :: around)) := by
    have hstart : feed (.content around) "<svg version=\"1.2\" width=\"".toList =
        some (.value around "svg".toList ["width".toList, "version".toList]) := rfl
    have hnext : feed (.value around "svg".toList ["width".toList, "version".toList])
        "\" height=\"".toList =
          some (.value around "svg".toList ["height".toList, "width".toList, "version".toList]) :=
      rfl
    have hwidth := feed_trans (feed_trans hstart (feed_value (formatInt_plain ctx.width))) hnext
    exact feed_trans (feed_trans hwidth (feed_value (formatInt_plain ctx.height))) rfl
  have hdefs : feed (.content ("svg".toList :: around))
      ((Print.text "<defs>\n" : Print F).render A) =
        some (.content ("defs".toList :: "svg".toList :: around)) := rfl
  have hrect := rect_balanced A (hctx.setFillColor (show PlainText "#ffffff" by decide))
  exact feed_cons A hopen (feed_cons A hdefs
    (feed_prints A (feed_marker A _ _) (hrect _ _ _ _ _ _)))

section
variable {ctx : Context F} (hctx : ctx.PlainStrings) (s : Scaling F)
include hctx

theorem vertical_balanced (t : F) : Balanced A (verticalPrints A s ctx t) :=
  (line_balanced A (hctx.setDashArray (by decide)) _ _ _ _).append
    (turned_balanced A hctx (temp_plain A t) _ _ _ _)

theorem horizontal_balanced (t : F) : Balanced A (horizontalPrints A s ctx t) :=
  (line_balanced A (hctx.setDashArray (by decide)) _ _ _ _).append
    (text_balanced A hctx (temp_plain A t) _ _)

theorem maxLabel_balanced : Balanced A (maxLabelPrints A s ctx) :=
  (text_balanced A hctx (temp_plain A _) _ _).append
    (turned_balanced A hctx (temp_plain A _) _ _ _ _)

omit hctx in
/-- The points stay inside the value that they are written into. -/
theorem feed_points (ctx : Context F) (x y : Nat → F) (count : Nat) (around : List (List Char))
    (name : List Char) (keys : List (List Char)) :
    feed (.value around name keys) (render A (pathPrints A ctx x y count)) =
      some (.value around name keys) := by
  apply feed_value
  intro c hc
  obtain ⟨p, hp, hc⟩ := List.mem_flatMap.mp hc
  obtain ⟨i, -, rfl⟩ := List.mem_map.mp hp
  exact render_plain A (by trivial) c hc

theorem curve_balanced {color : String} (hcolor : PlainText color) (x y : Nat → F) (count : Nat) :
    Balanced A (curvePrints A s color x y count ctx) := by
  intro innermost around
  have hcurve : (curveContext s color ctx).PlainStrings :=
    ((hctx.setScale _ _ _ _).setStrokeColor hcolor).setDashArray (by decide)
  have hstart : feed (.content (innermost :: around)) (render A
      ([.tagStart "g" true, .longBeg "transform", .translate ctx.padding ctx.padding,
        .scale (A.cast 1) (A.cast (-1)), .translate 0 (-ctx.height + 2 * ctx.padding), .longEnd,
        .optEnd false, .tagStart "path" true, .pathBeg] : List (Print F))) =
      some (.value (['g'] :: innermost :: around) "path".toList [['d']]) := by
    apply feed_cons A (feed_print_tagStart A (by decide))
    apply feed_cons A (feed_print_longBeg A (by decide) (by decide))
    apply feed_cons A (feed_print_value A (by trivial))
    apply feed_cons A (feed_print_value A (by trivial))
    apply feed_cons A (feed_print_value A (by trivial))
    apply feed_cons A (feed_print_longEnd A)
    apply feed_cons A (feed_print_optEnd_open A)
    apply feed_cons A (feed_print_tagStart A (by decide))
    exact feed_cons A rfl (feed_nil A _)
  apply feed_prints A (feed_prints A hstart (feed_points A _ x y count _ _ _))
  apply feed_cons A (feed_print_longEnd A)
  apply feed_cons A (feed_print_fillNone A)
  apply feed_cons A (feed_print_stroke A hcurve (by decide))
  apply feed_cons A (feed_print_optEnd A)
  exact feed_cons A (feed_print_tagEnd (s := "g") A (by decide)) (feed_nil A _)

theorem axis_plainStrings : (axisContext ctx).PlainStrings :=
  ((hctx.setFillColor (by decide)).setStrokeColor (by decide)).setDashArray (by decide)

theorem axisY_balanced (x_0 : F) {y_label : String} (hlabel : PlainText y_label) :
    Balanced A (axisYPrints A x_0 y_label ctx) := by
  have haxis := axis_plainStrings hctx
  have harrow := arrow_balanced A ((haxis.setTextSize (ctx.padding / 2).toNat).setStrokeWidth 2)
  have htext := text_balanced A ((haxis.setTextSize (ctx.padding / 2).toNat).setStrokeWidth 1)
    hlabel
  have hturned := turned_balanced A ((haxis.setStrokeWidth 1).setTextSize 14) (temp_plain A x_0)
  exact ((harrow _ _ _ _).append (htext _ _)).append (hturned _ _ _ _)

theorem axisX_balanced {x_label : String} (hlabel : PlainText x_label) :
    Balanced A (axisXPrints A s x_label ctx) := by
  have hlarge := (hctx.setStrokeWidth 1).setTextSize (ctx.padding / 2).toNat
  have harrow := arrow_balanced A (hctx.setStrokeWidth 2)
  have hlabel := text_balanced A hlarge hlabel
  have hmin := text_balanced A (hlarge.setTextSize 14) (temp_plain A s.minY)
  exact ((harrow _ _ _ _).append (hlabel _ _)).append (hmin _ _)

end

/-! ### The whole plot, and the page -/

theorem ctxObj_plainStrings (f : File F) : (ctxObj A f).PlainStrings where
  strokeColor := show PlainText "#000000" by decide
  fillColor := show PlainText "#ffffff" by decide
  textFamily := show PlainText "monospace" by decide
  dashArray := show PlainText "" by decide

/-- A drawing is one element, for any number of grid lines. -/
theorem feed_drawing (around : List (List Char)) (s : Scaling F) {color x_label y_label : String}
    (hcolor : PlainText color) (hx : PlainText x_label) (hy : PlainText y_label) (x y : Nat → F)
    (count : Nat) (tv th : List F) :
    feed (.content around) (render A (drawing A s color x y count x_label y_label tv th)) =
      some (.after around) := by
  have hctx := ctxObj_plainStrings A []
  have hgrid : (gridContext (ctxObj A [])).PlainStrings :=
    (hctx.setStrokeColor (by decide)).setStrokeWidth 1
  have hv := balanced_flatMap A (vertical_balanced A hgrid s) tv
  have hh := balanced_flatMap A (horizontal_balanced A hgrid s) th
  have hcurve := curve_balanced A hgrid s hcolor x y count
  have haxisX := axisX_balanced A ((axis_plainStrings hctx).setTextSize 25) s hx
  have hinside := ((((hv.append hh).append hcurve).append (maxLabel_balanced A hctx s)).append
    (axisY_balanced A hctx (x 0) hy)).append haxisX
  have hstart := feed_prints A (feed_document A around hctx) (hinside "svg".toList around)
  have hend : feed (.content ("svg".toList :: around))
      (render A ([.text "</svg>"] : List (Print F))) = some (.after around) := rfl
  have hall := feed_prints A hstart hend
  simp only [← List.append_assoc] at hall
  exact hall

/-- With a colour that fits, a plot is added to the file, unless a loop does not end. -/
theorem svgDrawToFileXy_cases (fuel : Nat) (f : File F) {color : String}
    (hfit : color.utf8ByteSize < 20) (x y : Nat → F) {count : Nat} (hcount : count ≠ 0)
    (x_label y_label : String) :
    svgDrawToFileXy A fuel f color x y count x_label y_label = .error .unfinished ∨
      ∃ tv th, svgDrawToFileXy A fuel f color x y count x_label y_label =
        .ok (f ++ drawing A (scaling A x y count) color x y count x_label y_label tv th) := by
  rw [svgDrawToFileXy_eq A fuel f color x y hcount]
  split
  · rw [if_pos hfit]
    exact .inr ⟨_, _, rfl⟩
  · exact .inl rfl

/-- A plot of the page, in the elements that the page has opened. -/
theorem plot_continues (fuel : Nat) {f : File F} {innermost : List Char}
    {around : List (List Char)} (color y_label : String) (x y : Nat → F)
    (hf : feed (.content []) (render A f) = some (.content (innermost :: around)))
    (hfit : color.utf8ByteSize < 20) (hcolor : PlainText color) (hy : PlainText y_label) :
    svgDrawToFileXy A fuel f color x y historySize "t" y_label = .error .unfinished ∨
      ∃ out, svgDrawToFileXy A fuel f color x y historySize "t" y_label = .ok out ∧
        feed (.content []) (render A out) = some (.content (innermost :: around)) := by
  have hlabel : PlainText "t" := by decide
  have hsize : historySize ≠ 0 := by decide
  rcases svgDrawToFileXy_cases A fuel f hfit x y hsize "t" y_label with h | ⟨tv, th, h⟩
  · exact .inl h
  · exact .inr ⟨_, h, feed_prints A hf (feed_drawing A _ _ hcolor hlabel hy x y _ tv th)⟩

set_option maxRecDepth 1000 in
theorem feed_pageStart : feed (.content []) (render A ([.text "<!DOCTYPE html>\n<html>\n",
    .text "<body onload=\"setTimeout(function()\x7blocation.reload()\x7d, 400);\">"] : File F)) =
      some (.content ["body".toList, "html".toList]) := by rfl

theorem page_cases (fuel : Nat) (d : Series F) : page A fuel d = .error .unfinished ∨
    ∃ out, page A fuel d = .ok out ∧ WellNested (render A out) := by
  have hend : feed (.content ["body".toList, "html".toList])
      (render A ([.text "</body>\n</html>"] : File F)) = some .done := rfl
  rw [page, generateHtmlFile]
  rcases plot_continues A fuel "#ff0000" "Actual position (abs units)" d.xActual
    d.yActual (feed_pageStart A) (by decide) (by decide) (by decide) with h | ⟨f1, h, hf1⟩ <;>
    rw [h]
  · exact .inl rfl
  rw [ok_bind]
  rcases plot_continues A fuel "#00ff00" "Desired position (abs units)" d.xActual
    d.yDesired hf1 (by decide) (by decide) (by decide) with h | ⟨f2, h, hf2⟩ <;> rw [h]
  · exact .inl rfl
  rw [ok_bind]
  rcases plot_continues A fuel "#0000ff" "PWM duty cicle, +-100%" d.xActual
    d.yPwm hf2 (by decide) (by decide) (by decide) with h | ⟨f3, h, hf3⟩ <;> rw [h]
  · exact .inl rfl
  exact .inr ⟨_, rfl, feed_prints A hf3 hend⟩

/-- A page whose plots can all be drawn. -/
theorem page_of_plots (fuel : Nat) {d : Series F}
    (hactual : ∀ f color, color.utf8ByteSize < 20 → ∀ y_label, ∃ out,
      svgDrawToFileXy A fuel f color d.xActual d.yActual historySize "t" y_label = .ok out)
    (hdesired : ∀ f color, color.utf8ByteSize < 20 → ∀ y_label, ∃ out,
      svgDrawToFileXy A fuel f color d.xActual d.yDesired historySize "t" y_label = .ok out)
    (hpwm : ∀ f color, color.utf8ByteSize < 20 → ∀ y_label, ∃ out,
      svgDrawToFileXy A fuel f color d.xActual d.yPwm historySize "t" y_label = .ok out) :
    ∃ out, page A fuel d = .ok out := by
  rw [page, generateHtmlFile]
  obtain ⟨f1, h1⟩ := hactual _ "#ff0000" (by decide) "Actual position (abs units)"
  rw [h1, ok_bind]
  obtain ⟨f2, h2⟩ := hdesired f1 "#00ff00" (by decide) "Desired position (abs units)"
  rw [h2, ok_bind]
  obtain ⟨f3, h3⟩ := hpwm f2 "#0000ff" (by decide) "PWM duty cicle, +-100%"
  rw [h3, ok_bind]
  exact ⟨_, rfl⟩

/-- Whatever the history and however many grid lines, the page is one element, and so is each
plot by itself. -/
theorem markup_wellNested (fuel : Nat) :
    (∀ d : Series F, page A fuel d ≠ .error .unfinished →
      ∃ out, page A fuel d = .ok out ∧ WellNested (render A out)) ∧
    ∀ (color : String) (x y : Nat → F) (count : Nat) (x_label y_label : String), count ≠ 0 →
      color.utf8ByteSize < 20 → PlainText color → PlainText x_label → PlainText y_label →
      svgDrawToFileXy A fuel [] color x y count x_label y_label ≠ .error .unfinished →
      ∃ out, svgDrawToFileXy A fuel [] color x y count x_label y_label = .ok out ∧
        WellNested (render A out) := by
  constructor
  · intro d hends
    exact (page_cases A fuel d).resolve_left hends
  · intro color x y count x_label y_label hcount hfit hcolor hx hy hends
    obtain ⟨tv, th, h⟩ :=
      (svgDrawToFileXy_cases A fuel [] hfit x y hcount x_label y_label).resolve_left hends
    exact ⟨_, h, feed_drawing A [] _ hcolor hx hy x y count tv th⟩

/-- A value that goes up by one from point to point. -/
def ramp (k : Nat) : ℚ := k

/-- Each loop draws nine lines. -/
theorem ramp_counters :
    ∃ tv th, verticalCounters exact (scaling exact ramp ramp historySize) 10 = some tv ∧
      horizontalCounters exact (scaling exact ramp ramp historySize) 10 = some th ∧
      tv.length = 9 ∧ th.length = 9 := by
  have hlines (ts : Option (List ℚ)) (h : ts.map List.length = some 9) :
      ∃ lines, ts = some lines ∧ lines.length = 9 := Option.map_eq_some_iff.mp h
  obtain ⟨tv, hv, hnine⟩ := hlines (verticalCounters exact (scaling exact ramp ramp historySize) 10)
    (by decide +kernel)
  obtain ⟨th, hh, hnine'⟩ := hlines
    (horizontalCounters exact (scaling exact ramp ramp historySize) 10) (by decide +kernel)
  exact ⟨tv, th, hv, hh, hnine, hnine'⟩

theorem ramp_plot (f : File ℚ) (color label : String) : ∃ out,
    svgDrawToFileXy exact 10 f color ramp ramp historySize "t" label =
      if color.utf8ByteSize < 20 then .ok out else .error .overrun := by
  obtain ⟨tv, th, hv, hh, -⟩ := ramp_counters
  rw [svgDrawToFileXy_eq exact 10 f color ramp ramp (by decide), hv, hh]
  exact ⟨_, rfl⟩

theorem markup_wellNested_ramp :
    (∃ out, page exact 10 ⟨ramp, ramp, ramp, ramp⟩ = .ok out ∧ WellNested (render exact out)) ∧
      ∃ out, svgDrawToFileXy exact 10 [] "#abcdef" ramp ramp historySize "t" "x" = .ok out ∧
        WellNested (render exact out) := by
  have hplot (f : File ℚ) (color : String) (hfit : color.utf8ByteSize < 20) (label : String) :
      ∃ out, svgDrawToFileXy exact 10 f color ramp ramp historySize "t" label = .ok out := by
    obtain ⟨out, hout⟩ := ramp_plot f color label
    exact ⟨out, hout.trans (if_pos hfit)⟩
  obtain ⟨page', hpage⟩ := page_of_plots exact 10 (d := ⟨ramp, ramp, ramp, ramp⟩) hplot hplot hplot
  refine ⟨(markup_wellNested exact 10).1 ⟨ramp, ramp, ramp, ramp⟩ fun h => ?_,
    (markup_wellNested exact 10).2 "#abcdef" ramp ramp historySize "t" "x" (by decide) (by decide)
      (by decide) (by decide) (by decide) fun h => ?_⟩
  · cases hpage.symm.trans h
  · obtain ⟨out, hout⟩ := hplot [] "#abcdef" (by decide) "x"
    cases hout.symm.trans h

/-- A colour of twenty characters is copied over what follows `stroke_color`. -/
theorem longColor_overruns : PlainText "lightgoldenrodyellow" ∧
    svgDrawToFileXy exact 10 [] "lightgoldenrodyellow" ramp ramp historySize "t" "" =
      .error .overrun := by
  obtain ⟨out, hout⟩ := ramp_plot [] "lightgoldenrodyellow" ""
  exact ⟨by decide, hout.trans (if_neg (by decide))⟩

end RealTimeLabs.Svg
