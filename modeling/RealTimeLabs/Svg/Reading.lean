import RealTimeLabs.Library.Attributes
import RealTimeLabs.Svg.Nesting
import RealTimeLabs.Svg.Scale

/-! The curves can be read back.

A reader of the page that knows nothing of how it was made finds the attributes `d`, and in them
lines of numbers. Three of them are the curves; the others belong to the arrow heads
(`curves_read`). Where the points of a curve are numbers, each has its line, with what `%f` has
left of its coordinates: they are right to half a millionth (`value_printed`) and keep their order
(`rising`, `onward`). -/
namespace RealTimeLabs.Svg
open Attributes Markup

/-! ### Numbers -/

/-- The number that is written. -/
def value (a : Table.Fixed) : ℚ := (if a.negative then -1 else 1) * (a.millionths / 1000000)

theorem value_printed_of_neg {q : ℚ} (h : q < 0) :
    value (printed q) = -(Rounding.halfEven (-q * 1000000) / 1000000) := by
  have hpos : 0 ≤ -q * 1000000 := by linarith
  have hnonneg := Rounding.halfEven_nonneg hpos
  simp only [value, printed, abs_of_neg h, decide_eq_true_eq, if_pos h, Nat.cast_natAbs,
    abs_of_nonneg hnonneg]
  ring

theorem value_printed_of_nonneg {q : ℚ} (h : 0 ≤ q) :
    value (printed q) = Rounding.halfEven (q * 1000000) / 1000000 := by
  have hpos : 0 ≤ q * 1000000 := by linarith
  have hnonneg := Rounding.halfEven_nonneg hpos
  simp only [value, printed, abs_of_nonneg h, decide_eq_true_eq, if_neg (not_lt.mpr h),
    Nat.cast_natAbs, abs_of_nonneg hnonneg, one_mul]

theorem value_printed (q : ℚ) : |value (printed q) - q| ≤ 1 / 2000000 := by
  rcases lt_or_ge q 0 with hq | hq
  · obtain ⟨hlow, hhigh⟩ := abs_le.mp (Rounding.abs_halfEven_sub_le (-q * 1000000))
    rw [value_printed_of_neg hq]
    exact abs_le.mpr ⟨by linarith, by linarith⟩
  · obtain ⟨hlow, hhigh⟩ := abs_le.mp (Rounding.abs_halfEven_sub_le (q * 1000000))
    rw [value_printed_of_nonneg hq]
    exact abs_le.mpr ⟨by linarith, by linarith⟩

/-- The six digits keep the order. -/
theorem value_printed_mono {q r : ℚ} (h : q ≤ r) : value (printed q) ≤ value (printed r) := by
  rcases lt_or_ge q 0 with hq | hq
  · rw [value_printed_of_neg hq]
    rcases lt_or_ge r 0 with hr | hr
    · have hle : (Rounding.halfEven (-r * 1000000) : ℚ) ≤ Rounding.halfEven (-q * 1000000) :=
        Int.cast_le.mpr (Rounding.halfEven_mono (by linarith))
      rw [value_printed_of_neg hr]
      linarith
    · have hleft : (0 : ℚ) ≤ Rounding.halfEven (-q * 1000000) :=
        Int.cast_nonneg (Rounding.halfEven_nonneg (by linarith))
      have hright : (0 : ℚ) ≤ Rounding.halfEven (r * 1000000) :=
        Int.cast_nonneg (Rounding.halfEven_nonneg (by linarith))
      rw [value_printed_of_nonneg hr]
      linarith
  · have hle : (Rounding.halfEven (q * 1000000) : ℚ) ≤ Rounding.halfEven (r * 1000000) :=
      Int.cast_le.mpr (Rounding.halfEven_mono (by linarith))
    rw [value_printed_of_nonneg hq, value_printed_of_nonneg (hq.trans h)]
    linarith

/-! ### Points -/

def comma : Table.Separator Table.fixed := .single ',' rfl

/-- The lines of the attribute `d`. -/
def readPoints (text : List Char) : List (List Table.Fixed) := Table.read Table.fixed text

variable {F : Type} (A : Arith F)

/-- Where a point of a curve stands in its group. -/
def pointAt (s : Scaling F) (x y : Nat → F) (i : Nat) : F × F :=
  (A.mul (A.sub (x i) s.minX) s.mx, A.mul (A.sub (y i) s.minY) s.my)

def points (s : Scaling F) (x y : Nat → F) (count : Nat) : List (F × F) :=
  (List.range count).map (pointAt A s x y)

/-- The lines of a curve, as `svg_path_data` writes them. -/
def curveText (s : Scaling F) (x y : Nat → F) (count : Nat) : List Char :=
  render A ((List.range count).map fun i =>
    .point (i == 0) (A.mul (A.sub (x i) s.minX) s.mx) (A.mul (A.sub (y i) s.minY) s.my))

/-- `number` are the values that `%f` writes as numbers. -/
def WritesNumbers (number : F → Option ℚ) : Prop :=
  ∀ v q, number v = some q → A.format v = formatRat q

/-- The value of a `float`, unless it is infinite or not a number. -/
def Single.number : Single → Option ℚ
  | .finite q => some q
  | _ => none

theorem single_writesNumbers : WritesNumbers single Single.number := by
  intro v q hv
  cases v <;> cases hv
  rfl

/-- Both coordinates are numbers. -/
def Numbers (number : F → Option ℚ) (p : F × F) : Prop :=
  ∃ q r, number p.1 = some q ∧ number p.2 = some r

/-- A line that shows a point. -/
def Written (number : F → Option ℚ) (row : List Table.Fixed) (p : F × F) : Prop :=
  ∃ q r, number p.1 = some q ∧ number p.2 = some r ∧ row = [printed q, printed r]

section
variable {A} {number : F → Option ℚ} (hnumber : WritesNumbers A number)
include hnumber

/-- A line of the path. -/
theorem take_point (first : Bool) {x y : F} (h : Numbers number (x, y))
    (rows : List (List Table.Fixed)) : ∃ row, Written number row (x, y) ∧
      Table.Reader.take Table.fixed ⟨rows, [], []⟩ ((Print.point first x y).render A) =
        ⟨rows ++ [row], [], []⟩ := by
  obtain ⟨q, r, hq, hr⟩ := h
  have hline : (Print.point first x y).render A = (if first then "M" else " L").toList ++
      Table.line comma [printed q, printed r] := by
    change (if first then "M" else " L").toList ++ A.format x ++ [','] ++ A.format y ++ ['\n'] = _
    rw [hnumber x q hq, hnumber y r hr, formatRat, formatRat]
    simp only [Table.line, Table.tail, comma, Table.Separator.single, List.flatMap_cons,
      List.flatMap_nil, List.append_nil, List.append_assoc]
  have hmark : Table.fixed.plain (if first then "M" else " L").toList = true := by
    cases first <;> rfl
  refine ⟨_, ⟨q, r, hq, hr, rfl⟩, ?_⟩
  rw [hline, Table.take_append, Table.take_plain _ _ _ hmark, Table.take_line]

/-- The points of a curve are read, one by one. -/
theorem take_points (indexes : List Nat) (rows : List (List Table.Fixed)) (f g : Nat → F)
    (h : ∀ i ∈ indexes, Numbers number (f i, g i)) :
    ∃ more, List.Forall₂ (Written number) more (indexes.map fun i => (f i, g i)) ∧
      Table.Reader.take Table.fixed ⟨rows, [], []⟩
          (render A (indexes.map fun i => .point (i == 0) (f i) (g i))) =
        ⟨rows ++ more, [], []⟩ := by
  induction indexes generalizing rows with
  | nil =>
    refine ⟨[], .nil, ?_⟩
    rw [List.append_nil]
    rfl
  | cons i rest ih =>
    obtain ⟨hi, hrest⟩ := List.forall_mem_cons.mp h
    obtain ⟨row, hwritten, htake⟩ := take_point hnumber (i == 0) hi rows
    obtain ⟨more, hall, hmore⟩ := ih (rows ++ [row]) hrest
    have hcons : render A ((i :: rest).map fun i => .point (i == 0) (f i) (g i)) =
        (Print.point (i == 0) (f i) (g i)).render A ++
          render A (rest.map fun i => .point (i == 0) (f i) (g i)) := List.flatMap_cons
    refine ⟨row :: more, .cons hwritten hall, ?_⟩
    rw [hcons, Table.take_append, htake, hmore, List.append_assoc, List.singleton_append]

theorem readPoints_curveText (s : Scaling F) (x y : Nat → F) (count : Nat)
    (h : ∀ p ∈ points A s x y count, Numbers number p) :
    List.Forall₂ (Written number) (readPoints (curveText A s x y count))
      (points A s x y count) := by
  have hindexes : ∀ i ∈ List.range count, Numbers number
      (A.mul (A.sub (x i) s.minX) s.mx, A.mul (A.sub (y i) s.minY) s.my) := fun i hi =>
    h _ (List.mem_map_of_mem hi)
  obtain ⟨rows, hwritten, htake⟩ := take_points hnumber (List.range count) [] _ _ hindexes
  rw [readPoints, Table.read, curveText, htake, List.nil_append]
  exact hwritten

omit hnumber in
/-- What stands in a line that shows a point. -/
theorem written_at {s : Scaling F} {x y : Nat → F} {count : Nat} {rows : List (List Table.Fixed)}
    (h : List.Forall₂ (Written number) rows (points A s x y count)) {i : Nat} {a b : Table.Fixed}
    (hrow : rows[i]? = some [a, b]) : i < count ∧ ∃ q r, number (pointAt A s x y i).1 = some q ∧
      number (pointAt A s x y i).2 = some r ∧ a = printed q ∧ b = printed r := by
  obtain ⟨hi, hrow⟩ := List.getElem?_eq_some_iff.mp hrow
  have hlength : (points A s x y count).length = count := by
    rw [points, List.length_map, List.length_range]
  have hcount : i < (points A s x y count).length := h.length_eq ▸ hi
  obtain ⟨q, r, hq, hr, heq⟩ := h.get hi hcount
  have hpoint : (points A s x y count).get ⟨i, hcount⟩ = pointAt A s x y i := by
    simp only [points, List.get_eq_getElem, List.getElem_map, List.getElem_range]
  rw [hpoint] at hq hr
  rw [List.get_eq_getElem, hrow] at heq
  cases heq
  exact ⟨hlength ▸ hcount, q, r, hq, hr, rfl, rfl⟩

end

/-! ### Prints without points -/

/-- The attribute that the points stand in. -/
def pathKey : List Char := ['d']

/-- Prints in which nothing is read. -/
def QuietPrints (ps : List (Print F)) : Prop := Quiet pathKey (render A ps)

section
variable {A}

theorem QuietPrints.append {ps qs : List (Print F)} (hps : QuietPrints A ps)
    (hqs : QuietPrints A qs) : QuietPrints A (ps ++ qs) := by
  rw [QuietPrints, render_append]
  exact Quiet.append hps hqs

theorem QuietPrints.cons {p : Print F} {ps : List (Print F)} (hp : Quiet pathKey (p.render A))
    (hps : QuietPrints A ps) : QuietPrints A (p :: ps) := Quiet.append hp hps

theorem quietPrints_nil : QuietPrints A ([] : List (Print F)) := fun word => ⟨word, rfl⟩

theorem quietPrints_single {p : Print F} (hp : Quiet pathKey (p.render A)) : QuietPrints A [p] :=
  QuietPrints.cons hp quietPrints_nil

theorem quietPrints_flatMap {lines : F → List (Print F)} (h : ∀ t, QuietPrints A (lines t))
    (ts : List F) : QuietPrints A (ts.flatMap lines) := by
  induction ts with
  | nil => exact quietPrints_nil
  | cons t rest ih =>
    rw [List.flatMap_cons]
    exact (h t).append ih

end

/-- The name of an attribute, but not of that one. -/
def OtherName (name : String) : Prop :=
  ¬ name.toList <:+ pathKey ∧ Word name.toList

instance (name : String) : Decidable (OtherName name) := inferInstanceAs (Decidable (_ ∧ _))

theorem quiet_option {name : String} (hname : OtherName name) {text : List Char}
    (h : ∀ c ∈ text, Plain c) : Quiet pathKey (option name text) := by
  have hspace : Quiet pathKey [' '] := quiet_unquoted (by decide)
  have hquiet := (quiet_attribute hname.1 hname.2 (unquoted_of_plain h)).append hspace
  rw [List.append_assoc _ ['"'] [' ']] at hquiet
  exact hquiet

section
variable {A}

theorem quiet_tagStart {name : String} (hname : Unquoted name.toList) :
    Quiet pathKey ((Print.tagStart name true : Print F).render A) :=
  quiet_unquoted ((Unquoted.append (by decide) hname).append (by decide))

theorem quiet_optf {key : String} (hkey : OtherName key) (v : F) :
    Quiet pathKey ((Print.optf key v).render A) := quiet_option hkey (A.format_plain v)

theorem quiet_opti {key : String} (hkey : OtherName key) (v : Int) :
    Quiet pathKey ((Print.opti key v : Print F).render A) := quiet_option hkey (formatInt_plain v)

theorem quiet_opta {key v : String} (hkey : OtherName key) (hv : PlainText v) :
    Quiet pathKey ((Print.opta key v : Print F).render A) := quiet_option hkey hv

theorem quiet_stroke {ctx : Context F} (hctx : ctx.PlainStrings) :
    Quiet pathKey ((strokePrint ctx).render A) := by
  rw [render_stroke]
  exact ((quiet_option (by decide) hctx.strokeColor).append
    (quiet_option (by decide) (formatInt_plain _))).append
      (quiet_option (by decide) hctx.dashArray)

theorem quiet_optEnd (selfclose : Bool) :
    Quiet pathKey ((Print.optEnd selfclose : Print F).render A) := by
  cases selfclose with
  | true => exact quiet_unquoted (show Unquoted " />\n".toList by decide)
  | false => exact quiet_unquoted (show Unquoted " >\n".toList by decide)

theorem quiet_label {txt : String} (htxt : PlainText txt) :
    Quiet pathKey ((Print.label txt : Print F).render A) := quiet_unquoted (unquoted_of_plain htxt)

theorem quiet_tagEnd {name : String} (hname : Unquoted name.toList) :
    Quiet pathKey ((Print.tagEnd name : Print F).render A) :=
  quiet_unquoted ((Unquoted.append (by decide) hname).append (by decide))

/-- A transformation, print by print. -/
theorem quiet_long {key : String} (hkey : OtherName key) {ps : List (Print F)}
    (hps : ∀ p ∈ ps, InValue p) : QuietPrints A (.longBeg key :: ps ++ [.longEnd]) := by
  have hplain : ∀ c ∈ render A ps, Plain c := fun c hc => by
    obtain ⟨p, hp, hc⟩ := List.mem_flatMap.mp hc
    exact render_plain A (hps p hp) c hc
  have hrender : render A (.longBeg key :: ps ++ [.longEnd]) = option key (render A ps) := by
    rw [render_append]
    rfl
  rw [QuietPrints, hrender]
  exact quiet_option hkey hplain

end

/-! ### Elements and groups -/

section
variable {A} {ctx : Context F} (hctx : ctx.PlainStrings)

/-- A tag with four numbers for a place. -/
theorem quiet_placed {tag k1 k2 k3 k4 : String} (htag : Unquoted tag.toList)
    (hnames : ∀ k ∈ [k1, k2, k3, k4], OtherName k) (a b c d : F) {ps : List (Print F)}
    (hps : QuietPrints A ps) : QuietPrints A
      (.tagStart tag true :: .optf k1 a :: .optf k2 b :: .optf k3 c :: .optf k4 d :: ps) := by
  simp only [List.mem_cons, List.not_mem_nil, or_false, forall_eq_or_imp, forall_eq] at hnames
  obtain ⟨h1, h2, h3, h4⟩ := hnames
  apply QuietPrints.cons (quiet_tagStart htag)
  apply QuietPrints.cons (quiet_optf h1 a)
  apply QuietPrints.cons (quiet_optf h2 b)
  apply QuietPrints.cons (quiet_optf h3 c)
  exact QuietPrints.cons (quiet_optf h4 d) hps

include hctx

theorem line_quiet (x1 y1 x2 y2 : F) : QuietPrints A (linePrints A ctx x1 y1 x2 y2) := by
  apply quiet_placed (by decide) (by decide)
  apply QuietPrints.cons (quiet_stroke hctx)
  exact quietPrints_single (quiet_optEnd true)

theorem arrow_quiet (x1 y1 x2 y2 : F) : QuietPrints A (arrowPrints A ctx x1 y1 x2 y2) := by
  apply quiet_placed (by decide) (by decide)
  apply QuietPrints.cons (quiet_opta (by decide) (by decide))
  apply QuietPrints.cons (quiet_stroke hctx)
  exact quietPrints_single (quiet_optEnd true)

theorem rect_quiet (x y w h : F) : QuietPrints A (rectPrints A ctx x y w h) := by
  apply quiet_placed (by decide) (by decide)
  apply QuietPrints.cons (quiet_opta (by decide) hctx.fillColor)
  apply QuietPrints.cons (quiet_stroke hctx)
  exact quietPrints_single (quiet_optEnd true)

theorem text_quiet {txt : String} (htxt : PlainText txt) (x y : F) :
    QuietPrints A (textPrints A ctx txt x y) := by
  apply QuietPrints.cons (quiet_tagStart (by decide))
  apply QuietPrints.cons (quiet_optf (by decide) _)
  apply QuietPrints.cons (quiet_optf (by decide) _)
  apply QuietPrints.cons (quiet_opti (by decide) _)
  apply QuietPrints.cons (quiet_opta (by decide) hctx.textFamily)
  apply QuietPrints.cons (quiet_opta (by decide) hctx.fillColor)
  apply QuietPrints.cons (quiet_stroke hctx)
  apply QuietPrints.cons (quiet_optEnd false)
  apply QuietPrints.cons (quiet_label htxt)
  exact quietPrints_single (quiet_tagEnd (by decide))

theorem turned_quiet {txt : String} (htxt : PlainText txt) (cx cy dx dy : Int) :
    QuietPrints A (turnedPrints A ctx txt cx cy dx dy) := by
  have hmove : QuietPrints A
      (.longBeg "transform" :: [.rotate (-90) cx cy, .translate dx dy] ++ [.longEnd]) :=
    quiet_long (by decide) (by simp [InValue])
  have hstart : QuietPrints A ([.tagStart "g" true] : List (Print F)) :=
    quietPrints_single (quiet_tagStart (by decide))
  have hopen : QuietPrints A ([.optEnd false] : List (Print F)) :=
    quietPrints_single (quiet_optEnd false)
  have hend : QuietPrints A ([.tagEnd "g"] : List (Print F)) :=
    quietPrints_single (quiet_tagEnd (by decide))
  exact (((hstart.append hmove).append hopen).append (text_quiet hctx htxt _ _)).append hend

variable (s : Scaling F)

theorem vertical_quiet (t : F) : QuietPrints A (verticalPrints A s ctx t) :=
  (line_quiet (hctx.setDashArray (by decide)) _ _ _ _).append
    (turned_quiet hctx (temp_plain A t) _ _ _ _)

theorem horizontal_quiet (t : F) : QuietPrints A (horizontalPrints A s ctx t) :=
  (line_quiet (hctx.setDashArray (by decide)) _ _ _ _).append
    (text_quiet hctx (temp_plain A t) _ _)

theorem maxLabel_quiet : QuietPrints A (maxLabelPrints A s ctx) :=
  (text_quiet hctx (temp_plain A _) _ _).append (turned_quiet hctx (temp_plain A _) _ _ _ _)

theorem axisY_quiet (x_0 : F) {y_label : String} (hlabel : PlainText y_label) :
    QuietPrints A (axisYPrints A x_0 y_label ctx) := by
  have haxis := axis_plainStrings hctx
  have harrow := arrow_quiet (A := A)
    ((haxis.setTextSize (ctx.padding / 2).toNat).setStrokeWidth 2)
  have htext := text_quiet (A := A) ((haxis.setTextSize (ctx.padding / 2).toNat).setStrokeWidth 1)
    hlabel
  have hturned := turned_quiet (A := A) ((haxis.setStrokeWidth 1).setTextSize 14)
    (temp_plain A x_0)
  exact ((harrow _ _ _ _).append (htext _ _)).append (hturned _ _ _ _)

theorem axisX_quiet {x_label : String} (hlabel : PlainText x_label) :
    QuietPrints A (axisXPrints A s x_label ctx) := by
  have hlarge := (hctx.setStrokeWidth 1).setTextSize (ctx.padding / 2).toNat
  have harrow := arrow_quiet (A := A) (hctx.setStrokeWidth 2)
  have hlabel := text_quiet (A := A) hlarge hlabel
  have hmin := text_quiet (A := A) (hlarge.setTextSize 14) (temp_plain A s.minY)
  exact ((harrow _ _ _ _).append (hlabel _ _)).append (hmin _ _)

end

/-! ### The arrow head and the curve -/

/-- What is read of prints. -/
def FoundIn (ps : List (Print F)) (vs : List (List Char)) : Prop := Found pathKey (render A ps) vs

section
variable {A}

theorem FoundIn.append {ps qs : List (Print F)} {vs ws : List (List Char)}
    (hps : FoundIn A ps vs) (hqs : FoundIn A qs ws) : FoundIn A (ps ++ qs) (vs ++ ws) := by
  rw [FoundIn, render_append]
  exact Found.append hps hqs

end

/-- The path of `MARKER_ARROW`. -/
def arrowHead : List Char := "M2,8 L11,6 L2,4 Z".toList

theorem quiet_svgStart (width height : Int) :
    Quiet pathKey ((Print.svgStart width height : Print F).render A) := by
  have hopen : Quiet pathKey "<svg ".toList := quiet_unquoted (by decide)
  have hversion : Quiet pathKey (option "version" "1.2".toList) :=
    quiet_option (by decide) (show PlainText "1.2" by decide)
  have hwidth : Quiet pathKey (option "width" (formatInt width)) :=
    quiet_option (by decide) (formatInt_plain width)
  have hheight : Quiet pathKey (option "height" (formatInt height)) :=
    quiet_option (by decide) (formatInt_plain height)
  have hspace : Quiet pathKey
      ("xmlns".toList ++ ['=', '"'] ++ "http://www.w3.org/2000/svg".toList ++ ['"']) :=
    quiet_attribute (by decide) (by decide) (by decide)
  have hend : Quiet pathKey ">".toList := quiet_unquoted (by decide)
  have hassoc (a b c w d h e f : List Char) : a ++ b ++ c ++ w ++ (['"', ' '] ++ d) ++ h ++
      (['"', ' '] ++ e ++ f) =
        a ++ b ++ (c ++ w ++ ['"', ' ']) ++ (d ++ h ++ ['"', ' ']) ++ e ++ f := by
    simp only [List.append_assoc]
  have hrender : (Print.svgStart width height : Print F).render A =
      "<svg ".toList ++ option "version" "1.2".toList ++ option "width" (formatInt width) ++
        option "height" (formatInt height) ++ ("xmlns".toList ++ ['=', '"'] ++
          "http://www.w3.org/2000/svg".toList ++ ['"']) ++ ">".toList :=
    hassoc "<svg ".toList (option "version" "1.2".toList) ("width".toList ++ ['=', '"']) _
      ("height".toList ++ ['=', '"']) _
      ("xmlns".toList ++ ['=', '"'] ++ "http://www.w3.org/2000/svg".toList ++ ['"']) ">".toList
  rw [hrender]
  exact ((((hopen.append hversion).append hwidth).append hheight).append hspace).append hend

set_option maxRecDepth 1000 in
theorem found_marker : FoundIn A ([.text "<defs>\n", .text
    ("<marker id=\"markerArrow\" markerWidth=\"13\" markerHeight=\"13\" refX=\"7\"" ++
      " refY=\"6\" orient=\"auto\">\n<path d=\"M2,8 L11,6 L2,4 Z\"" ++
      " style=\"fill: #000000;stroke: black;\" />    </marker>"),
    .text "</defs>\n"] : List (Print F)) [arrowHead] := by
  intro word
  have hword : Word "<defs>".toList := by decide
  have hdefs : Reads pathKey (.outside word) "<defs>\n".toList [] (.outside []) :=
    (reads_word hword word).append rfl
  have hfirst : Reads pathKey (.outside [])
      "<marker id=\"markerArrow\" markerWidth=\"13\" markerHeight=\"13\" refX=\"7\"".toList []
        (.outside []) := by rfl
  have hpath : Reads pathKey (.outside [])
      " refY=\"6\" orient=\"auto\">\n<path d=\"M2,8 L11,6 L2,4 Z\"".toList [arrowHead]
        (.outside []) := by rfl
  have hlast : Reads pathKey (.outside [])
      " style=\"fill: #000000;stroke: black;\" />    </marker>".toList []
        (.outside "</marker>".toList) := by rfl
  have hend : Reads pathKey (.outside "</marker>".toList) "</defs>\n".toList [] (.outside []) := by
    rfl
  have hmarker := (hfirst.append hpath).append hlast
  rw [← render_text_append A] at hmarker
  exact ⟨[], hdefs.append (hmarker.append hend)⟩

theorem found_document {ctx : Context F} (hctx : ctx.PlainStrings) :
    FoundIn A (documentPrints A ctx) [arrowHead] := by
  have hrect := rect_quiet (A := A) (hctx.setFillColor (show PlainText "#ffffff" by decide))
  have hstart : QuietPrints A ([.svgStart ctx.width ctx.height] : List (Print F)) :=
    quietPrints_single (quiet_svgStart A _ _)
  exact (FoundIn.append hstart (found_marker A)).append (hrect (A.cast 0) (A.cast 0)
    (A.cast ctx.width) (A.cast ctx.height))

theorem found_curve {ctx : Context F} (hctx : ctx.PlainStrings) (s : Scaling F) {color : String}
    (hcolor : PlainText color) (x y : Nat → F) (count : Nat) :
    FoundIn A (curvePrints A s color x y count ctx) [curveText A s x y count] := by
  have hcurve : (curveContext s color ctx).PlainStrings :=
    ((hctx.setScale _ _ _ _).setStrokeColor hcolor).setDashArray (by decide)
  have hmove : QuietPrints A (.longBeg "transform" :: [.translate ctx.padding ctx.padding,
      .scale (A.cast 1) (A.cast (-1)), .translate 0 (-ctx.height + 2 * ctx.padding)] ++
        [.longEnd]) := quiet_long (by decide) (by simp [InValue])
  have hstart : QuietPrints A ([.tagStart "g" true] : List (Print F)) :=
    quietPrints_single (quiet_tagStart (by decide))
  have hopen : QuietPrints A ([.optEnd false] : List (Print F)) :=
    quietPrints_single (quiet_optEnd false)
  have hpath : FoundIn A ([.tagStart "path" true, .pathBeg] ++
      pathPrints A (curveContext s color ctx) x y count ++ [.longEnd])
        [curveText A s x y count] := by
    intro word
    have hbegin : Reads pathKey (.outside word) "<path ".toList [] (.outside []) := rfl
    have hpoints : Unquoted (curveText A s x y count) := by
      intro c hc
      obtain ⟨p, hp, hc⟩ := List.mem_flatMap.mp hc
      obtain ⟨i, -, rfl⟩ := List.mem_map.mp hp
      exact unquoted_of_plain (render_plain A (by trivial)) c hc
    have hvalue : Reads pathKey (.outside [])
        (pathKey ++ ['=', '"'] ++ curveText A s x y count ++ ['"']) [curveText A s x y count]
          (.outside []) := reads_attribute (by decide) hpoints
    have hend : Reads pathKey (.outside []) [' '] [] (.outside []) := rfl
    have hassoc (a b c d e : List Char) : a ++ b ++ c ++ (d ++ e) = a ++ (b ++ c ++ d) ++ e := by
      simp only [List.append_assoc]
    refine ⟨[], ?_⟩
    rw [render_append, render_append]
    change Reads pathKey _ ("<path ".toList ++ (pathKey ++ ['=', '"']) ++
      curveText A s x y count ++ (['"'] ++ [' '])) _ _
    rw [hassoc]
    exact (hbegin.append hvalue).append hend
  have hnone : Quiet pathKey (option "fill" "none".toList) := quiet_option (by decide)
    (show PlainText "none" by decide)
  have hfill : Quiet pathKey ((Print.text "fill=\"none\" " : Print F).render A) := hnone
  have hrest : QuietPrints A ([.text "fill=\"none\" ", strokePrint (curveContext s color ctx),
      .optEnd true, .tagEnd "g"] : List (Print F)) := by
    apply QuietPrints.cons hfill
    apply QuietPrints.cons (quiet_stroke hcurve)
    apply QuietPrints.cons (quiet_optEnd true)
    exact quietPrints_single (quiet_tagEnd (by decide))
  have hall := (FoundIn.append ((hstart.append hmove).append hopen) hpath).append hrest
  rw [curvePrints]
  simp only [List.append_assoc] at hall ⊢
  exact hall

/-! ### The page -/

theorem found_drawing (s : Scaling F) {color x_label y_label : String} (hcolor : PlainText color)
    (hx : PlainText x_label) (hy : PlainText y_label) (x y : Nat → F) (count : Nat)
    (tv th : List F) : FoundIn A (drawing A s color x y count x_label y_label tv th)
      [arrowHead, curveText A s x y count] := by
  have hctx := ctxObj_plainStrings A []
  have hgrid : (gridContext (ctxObj A [])).PlainStrings :=
    (hctx.setStrokeColor (by decide)).setStrokeWidth 1
  have hv := quietPrints_flatMap (vertical_quiet (A := A) hgrid s) tv
  have hh := quietPrints_flatMap (horizontal_quiet (A := A) hgrid s) th
  have hcurve := found_curve A hgrid s hcolor x y count
  have hlabels := (maxLabel_quiet (A := A) hctx s).append (axisY_quiet hctx (x 0) hy)
  have haxisX := axisX_quiet (A := A) ((axis_plainStrings hctx).setTextSize 25) s hx
  have hend : QuietPrints A ([.text "</svg>"] : List (Print F)) :=
    quietPrints_single (quiet_unquoted (show Unquoted "</svg>".toList by decide))
  have hstart := (FoundIn.append (found_document A hctx) hv).append hh
  have hall := (hstart.append hcurve).append ((hlabels.append haxisX).append hend)
  simp only [drawing, List.append_assoc] at hall ⊢
  exact hall

/-- A plot of the page adds its arrow head and its curve. -/
theorem found_plot (fuel : Nat) {f out : File F} {vs : List (List Char)} {color y_label : String}
    {x y : Nat → F} (hf : FoundIn A f vs) (hfit : color.utf8ByteSize < 20)
    (hcolor : PlainText color) (hy : PlainText y_label)
    (h : svgDrawToFileXy A fuel f color x y historySize "t" y_label = .ok out) :
    FoundIn A out
      (vs ++ [arrowHead, curveText A (scaling A x y historySize) x y historySize]) := by
  have hsize : historySize ≠ 0 := by decide
  have hlabel : PlainText "t" := by decide
  rcases svgDrawToFileXy_cases A fuel f hfit x y hsize "t" y_label with hstop | ⟨tv, th, hok⟩
  · cases hstop.symm.trans h
  · cases hok.symm.trans h
    exact hf.append (found_drawing A _ hcolor hlabel hy x y _ tv th)

set_option maxRecDepth 1000 in
theorem found_pageStart : FoundIn A ([.text "<!DOCTYPE html>\n<html>\n", .text
    "<body onload=\"setTimeout(function()\x7blocation.reload()\x7d, 400);\">"] : File F) [] := by
  intro word
  obtain ⟨word', hfirst⟩ :=
    (quiet_unquoted (by decide) : Quiet pathKey "<!DOCTYPE html>\n<html>".toList) word
  have hnewline : Reads pathKey (.outside word') ['\n'] [] (.outside []) := rfl
  have hbody : Reads pathKey (.outside [])
      "<body onload=\"setTimeout(function()\x7blocation.reload()\x7d, 400);\">".toList []
        (.outside ['>']) := by rfl
  exact ⟨['>'], (hfirst.append hnewline).append hbody⟩

/-- Nothing is returned without an intermediate result. -/
theorem of_bind_eq_ok {α β : Type} {x : Except Stop α} {g : α → Except Stop β} {b : β}
    (h : x >>= g = .ok b) : ∃ a, x = .ok a ∧ g a = .ok b := by
  cases x with
  | error e => cases h
  | ok a => exact ⟨a, rfl, h⟩

/-- What is read of a page. -/
theorem found_page (fuel : Nat) (d : Series F) {out : File F} (h : page A fuel d = .ok out) :
    values pathKey (render A out) =
      [arrowHead, curveText A (scaling A d.xActual d.yActual historySize) d.xActual d.yActual
          historySize,
        arrowHead, curveText A (scaling A d.xActual d.yDesired historySize) d.xActual d.yDesired
          historySize,
        arrowHead, curveText A (scaling A d.xActual d.yPwm historySize) d.xActual d.yPwm
          historySize] := by
  rw [page, generateHtmlFile] at h
  obtain ⟨f3, hplots, hout⟩ := of_bind_eq_ok h
  obtain ⟨f1, h1, hrest⟩ := of_bind_eq_ok hplots
  obtain ⟨f2, h2, h3⟩ := of_bind_eq_ok hrest
  cases hout
  have hf1 := found_plot A fuel (found_pageStart A) (by decide) (by decide) (by decide) h1
  have hf2 := found_plot A fuel hf1 (by decide) (by decide) (by decide) h2
  have hf3 := found_plot A fuel hf2 (by decide) (by decide) (by decide) h3
  have hend : QuietPrints A ([.text "</body>\n</html>"] : List (Print F)) :=
    quietPrints_single (quiet_unquoted (show Unquoted "</body>\n</html>".toList by decide))
  exact (hf3.append hend).values

/-- The points of a plot of the page, as they are computed. -/
def plotted (x y : Nat → F) : List (F × F) := points A (scaling A x y historySize) x y historySize

/-- A curve is read with all its points, if they are numbers. -/
def ReadAs (number : F → Option ℚ) (rows : List (List Table.Fixed)) (x y : Nat → F) : Prop :=
  (∀ p ∈ plotted A x y, Numbers number p) → List.Forall₂ (Written number) rows (plotted A x y)

/-- Whatever the arithmetic, as long as it writes its numbers with `%f`, the attributes `d` of a
page are, besides the three arrow heads, in which there is no line of numbers, the three curves. -/
theorem curves_read {number : F → Option ℚ} (hnumber : WritesNumbers A number) (fuel : Nat)
    (d : Series F) {out : File F} (h : page A fuel d = .ok out) :
    ∃ actual desired pwm, (values pathKey (render A out)).map readPoints =
        [[], actual, [], desired, [], pwm] ∧
      ReadAs A number actual d.xActual d.yActual ∧
      ReadAs A number desired d.xActual d.yDesired ∧
      ReadAs A number pwm d.xActual d.yPwm := by
  have hhead : readPoints arrowHead = [] := rfl
  rw [found_page A fuel d h]
  simp only [List.map_cons, List.map_nil, hhead]
  exact ⟨_, _, _, rfl, readPoints_curveText hnumber _ _ _ _, readPoints_curveText hnumber _ _ _ _,
    readPoints_curveText hnumber _ _ _ _⟩

/-! ### Places of whole numbers -/

/-- The span of two whole numbers, `length` divided by it, and the values scaled so. -/
def coordinate (lo hi length v : ℚ) : Single :=
  single.mul (single.sub (.finite v) (.finite lo))
    (single.div (single.cast length) (single.sub (.finite hi) (.finite lo)))

/-- A larger number does not stand before a smaller one. -/
theorem coordinate_mono {lo hi length : ℚ} (hlo : Whole lo) (hhi : Whole hi) (hlt : lo < hi)
    (hnonneg : 0 ≤ length) (hlength : |length| ≤ 2 ^ 10) {v w : ℚ} (hv : Whole v) (hw : Whole w)
    (hle : v ≤ w) : ∃ q r, coordinate lo hi length v = .finite q ∧
      coordinate lo hi length w = .finite r ∧ q ≤ r := by
  obtain ⟨m, hscale, hm⟩ := single_div_span (one_le_abs_span hlo hhi hlt.ne) hlength
  have hspan : 0 ≤ float (hi - lo) := isRounding_float.nonneg (sub_nonneg.mpr hlt.le)
  have hm0 : 0 ≤ m := by
    have hquotient : 0 ≤ float length / float (hi - lo) :=
      div_nonneg (isRounding_float.nonneg hnonneg) hspan
    change Single.div (Single.ofRat length) _ = _ at hscale
    rw [ofRat_of_abs_le (by norm_num) hlength, Single.div, Single.ofRat] at hscale
    split at hscale
    · split at hscale <;> cases hscale
    · split at hscale
      · cases hscale
        exact isRounding_float.nonneg hquotient
      · cases hscale
  have hproduct {u : ℚ} (hu : Whole u) :
      coordinate lo hi length u = .finite (float (float (u - lo) * m)) := by
    have hsmall : |float (u - lo) * m| ≤ 2 ^ 43 := by
      rw [abs_mul, show (2 : ℚ) ^ 43 = 2 ^ 33 * 2 ^ 10 by norm_num]
      exact mul_le_mul (abs_float_le (abs_sub_le_of_whole hlo hu)) hm (abs_nonneg _) (by norm_num)
    rw [coordinate, single_sub_whole hlo hhi, single_sub_whole hlo hu, hscale]
    exact ofRat_of_abs_le (by norm_num) hsmall
  refine ⟨_, _, hproduct hv, hproduct hw, isRounding_float.mono ?_⟩
  exact mul_le_mul_of_nonneg_right (isRounding_float.mono (by linarith)) hm0

/-- Numbers in order are read in order. -/
theorem value_le_of_ordered {v w : Single} {a b : ℚ}
    (h : ∃ q r, v = .finite q ∧ w = .finite r ∧ q ≤ r) (hv : v.number = some a)
    (hw : w.number = some b) : value (printed a) ≤ value (printed b) := by
  obtain ⟨q, r, rfl, rfl, hle⟩ := h
  cases hv
  cases hw
  exact value_printed_mono hle

/-- Between extremes that are not the same there is a span. -/
theorem extremes_lt {v : Nat → ℚ} {count i j : Nat} (hj : j < count)
    (hall : ∀ k < count, v i ≤ v k ∧ v k ≤ v j)
    (hvaries : ∃ i j, i < count ∧ j < count ∧ v i ≠ v j) : v i < v j := by
  obtain ⟨m, n, hm, hn, hne⟩ := hvaries
  apply lt_of_le_of_ne (hall j hj).1
  intro heq
  apply hne
  have hm := hall m hm
  have hn := hall n hn
  linarith

theorem plotWidth_bounds : (0 : ℚ) ≤ (plotWidth - 2 * plotPadding : Int) ∧
    |((plotWidth - 2 * plotPadding : Int) : ℚ)| ≤ 2 ^ 10 := by
  norm_num [plotWidth, plotPadding]

theorem plotHeight_bounds : (0 : ℚ) ≤ (plotHeight - 2 * plotPadding : Int) ∧
    |((plotHeight - 2 * plotPadding : Int) : ℚ)| ≤ 2 ^ 10 := by
  norm_num [plotHeight, plotPadding]

section
variable {x y : Nat → Single} {t v : Nat → ℚ}
  (ht : ∀ k < historySize, x k = .finite (t k) ∧ Whole (t k))
  (hv : ∀ k < historySize, y k = .finite (v k) ∧ Whole (v k))
include ht hv

/-- The coordinates of a curve of whole numbers. -/
theorem pointAt_eq : ∃ i j, i < historySize ∧ j < historySize ∧
    (∀ k < historySize, v i ≤ v k ∧ v k ≤ v j) ∧ ∀ k < historySize,
      pointAt single (scaling single x y historySize) x y k =
        (coordinate (t 0) (t (historySize - 1)) (plotWidth - 2 * plotPadding : Int) (t k),
          coordinate (v i) (v j) (plotHeight - 2 * plotPadding : Int) (v k)) := by
  have hlt (a b : ℚ) : single.lt (.finite a) (.finite b) = decide (a < b) := rfl
  obtain ⟨i, j, hi, hj, hmaxMin, hall⟩ := maxMin_spec single hlt v (show historySize ≠ 0 by decide)
  have hextremes : maxMin single y historySize = (.finite (v i), .finite (v j)) := by
    rw [← hmaxMin]
    exact maxMinFrom_congr single fun k hk => (hv k (Nat.lt_of_le_pred (by decide) hk)).1
  have hscaling := scaling_eq single x y hextremes
  rw [(ht 0 (by decide)).1, (ht (historySize - 1) (by decide)).1] at hscaling
  refine ⟨i, j, hi, hj, hall, fun k hk => ?_⟩
  rw [hscaling, pointAt, (ht k hk).1, (hv k hk).1]
  rfl

/-- Two times and two values make every point one of numbers. -/
theorem numbers_of_varied (hspan : t 0 ≠ t (historySize - 1))
    (hvaries : ∃ i j, i < historySize ∧ j < historySize ∧ v i ≠ v j) :
    ∀ p ∈ plotted single x y, Numbers Single.number p := by
  obtain ⟨i, j, hi, hj, hall, hpoint⟩ := pointAt_eq ht hv
  intro p hp
  obtain ⟨k, hk, rfl⟩ := List.mem_map.mp hp
  rw [List.mem_range] at hk
  have hfirst := (ht 0 (by decide)).2
  have hlast := (ht (historySize - 1) (by decide)).2
  have hwidth := ((axis_finite_iff hfirst hlast plotWidth_bounds.2).2 hspan).2
  have hheight := ((axis_finite_iff (hv i hi).2 (hv j hj).2 plotHeight_bounds.2).2
    (extremes_lt hj hall hvaries).ne).2
  obtain ⟨q, (hq : coordinate _ _ _ _ = _)⟩ := hwidth (t k) (ht k hk).2
  obtain ⟨r, (hr : coordinate _ _ _ _ = _)⟩ := hheight (v k) (hv k hk).2
  rw [hpoint k hk, hq, hr]
  exact ⟨q, r, rfl, rfl⟩

variable {rows : List (List Table.Fixed)}
  (h : List.Forall₂ (Written Single.number) rows (plotted single x y))
include h

/-- A larger value is not read as a lower one. -/
theorem rising (hvaries : ∃ i j, i < historySize ∧ j < historySize ∧ v i ≠ v j) {k l : Nat}
    (hle : v k ≤ v l) {a b c d : Table.Fixed} (hrow : rows[k]? = some [a, b])
    (hrow' : rows[l]? = some [c, d]) : value b ≤ value d := by
  obtain ⟨i, j, hi, hj, hall, hpoint⟩ := pointAt_eq ht hv
  have hlt := extremes_lt hj hall hvaries
  obtain ⟨hheight, hsmall⟩ := plotHeight_bounds
  obtain ⟨hk, -, r, -, hr, -, rfl⟩ := written_at h hrow
  obtain ⟨hl, -, r', -, hr', -, rfl⟩ := written_at h hrow'
  have horder := coordinate_mono (hv i hi).2 (hv j hj).2 hlt hheight hsmall (hv k hk).2
    (hv l hl).2 hle
  rw [hpoint k hk] at hr
  rw [hpoint l hl] at hr'
  exact value_le_of_ordered horder hr hr'

/-- And if the times go on, a later one is not read as an earlier one. -/
theorem onward (hlt : t 0 < t (historySize - 1)) {k l : Nat} (hle : t k ≤ t l)
    {a b c d : Table.Fixed} (hrow : rows[k]? = some [a, b]) (hrow' : rows[l]? = some [c, d]) :
    value a ≤ value c := by
  obtain ⟨i, j, hi, hj, hall, hpoint⟩ := pointAt_eq ht hv
  obtain ⟨hwidth, hsmall⟩ := plotWidth_bounds
  obtain ⟨hk, r, -, hr, -, rfl, -⟩ := written_at h hrow
  obtain ⟨hl, r', -, hr', -, rfl, -⟩ := written_at h hrow'
  have horder := coordinate_mono (ht 0 (by decide)).2 (ht (historySize - 1) (by decide)).2 hlt
    hwidth hsmall (ht k hk).2 (ht l hl).2 hle
  rw [hpoint k hk] at hr
  rw [hpoint l hl] at hr'
  exact value_le_of_ordered horder hr hr'

end

end RealTimeLabs.Svg
