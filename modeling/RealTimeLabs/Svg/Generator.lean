import Mathlib.Tactic.Simps.Basic
import RealTimeLabs.History.Statistics
import RealTimeLabs.Svg.Arithmetic

/-! The plots, call by call (`svg_generator.c`).

The file is the list of what the calls of `fprintf` write, one `Print` for a format with
its arguments; `render` makes the text of it. Each helper takes the context and returns it
as it leaves it, with the file one or more prints longer. Two things can keep a plot from
being drawn: a colour that overruns its array (`strcpy`), and a loop over the grid lines
that is still not over when the fuel is. The members of `svg_context` that no function reads
(`stroke`, `fill`, `flip`, `decimals`) are left out. -/
namespace RealTimeLabs.Svg
export History (historySize)

/-- One `fprintf`. -/
inductive Print (F : Type) where
  /-- A format without conversions. -/
  | text (s : String)
  | svgStart (width height : Int)
  | tagStart (name : String) (use_opt : Bool)
  | optEnd (selfclose : Bool)
  | optf (key : String) (v : F)
  | opti (key : String) (v : Int)
  | opta (key : String) (v : String)
  | stroke (color : String) (width : Int) (dash : String)
  | longBeg (key : String)
  | longEnd
  | rotate (angle cx cy : Int)
  | translate (dx dy : Int)
  | scale (sx sy : F)
  | pathBeg
  | point (first : Bool) (x y : F)
  | label (txt : String)
  | tagEnd (name : String)
deriving DecidableEq

abbrev File (F : Type) := List (Print F)

variable {F : Type}

/-- The text of a print. -/
def Print.render (A : Arith F) : Print F → List Char
  | .text s => s.toList
  | .svgStart width height =>
    "<svg version=\"1.2\" width=\"".toList ++ formatInt width ++ "\" height=\"".toList ++
      formatInt height ++ "\" xmlns=\"http://www.w3.org/2000/svg\">".toList
  | .tagStart name use_opt =>
    "\n<".toList ++ name.toList ++ (if use_opt then "  " else " >").toList
  | .optEnd selfclose => (if selfclose then " />\n" else " >\n").toList
  | .optf key v => key.toList ++ "=\"".toList ++ A.format v ++ "\" ".toList
  | .opti key v => key.toList ++ "=\"".toList ++ formatInt v ++ "\" ".toList
  | .opta key v => key.toList ++ "=\"".toList ++ v.toList ++ "\" ".toList
  | .stroke color width dash =>
    "stroke=\"".toList ++ color.toList ++ "\" stroke-width=\"".toList ++ formatInt width ++
      "\" stroke-dasharray=\"".toList ++ dash.toList ++ "\" ".toList
  | .longBeg key => key.toList ++ "=\"".toList
  | .longEnd => "\" ".toList
  | .rotate angle cx cy =>
    "translate(".toList ++ formatInt cx ++ ",".toList ++ formatInt cy ++ ") rotate(".toList ++
      formatInt angle ++ ") translate(".toList ++ formatInt (-cx) ++ ",".toList ++
      formatInt (-cy) ++ ") ".toList
  | .translate dx dy =>
    "translate(".toList ++ formatInt dx ++ ",".toList ++ formatInt dy ++ ") ".toList
  | .scale sx sy => "scale(".toList ++ A.format sx ++ ",".toList ++ A.format sy ++ ") ".toList
  | .pathBeg => " d=\"".toList
  | .point first x y =>
    (if first then "M" else " L").toList ++ A.format x ++ ",".toList ++ A.format y ++ "\n".toList
  | .label txt => txt.toList
  | .tagEnd name => "\n</".toList ++ name.toList ++ ">".toList

def render (A : Arith F) (f : File F) : List Char := f.flatMap (Print.render A)

/-- `svg_context`. -/
structure Context (F : Type) where
  strokeColor : String
  fillColor : String
  textFamily : String
  dashArray : String
  textSize : Nat
  strokeWidth : Nat
  padding : Int
  width : Int
  height : Int
  mx : F
  my : F
  ofx : F
  ofy : F
  f : File F

/-- Why a plot is not drawn. -/
inductive Stop where
  | overrun
  | unfinished
deriving DecidableEq

/-! ### Writing to the file, and to the members -/

namespace Context
variable (ctx : Context F)

/-- What several calls of `fprintf` write. -/
@[simps] def prints (ps : List (Print F)) : Context F := { ctx with f := ctx.f ++ ps }

def print (p : Print F) : Context F := ctx.prints [p]

@[simps] def setStrokeColor (color : String) : Context F := { ctx with strokeColor := color }

@[simps] def setFillColor (color : String) : Context F := { ctx with fillColor := color }

@[simps] def setDashArray (dash : String) : Context F := { ctx with dashArray := dash }

@[simps] def setStrokeWidth (width : Nat) : Context F := { ctx with strokeWidth := width }

@[simps] def setTextSize (size : Nat) : Context F := { ctx with textSize := size }

/-- `mx`, `my`, `ofx` and `ofy`. -/
@[simps] def setScale (mx my ofx ofy : F) : Context F :=
  { ctx with mx := mx, my := my, ofx := ofx, ofy := ofy }

end Context

/-! ### Tags and options -/

def svgTagStart (ctx : Context F) (name : String) (use_opt : Bool) : Context F :=
  ctx.print (.tagStart name use_opt)

def svgFinish (ctx : Context F) : Context F := ctx.print (.text "</svg>")

def svgOptEnd (ctx : Context F) (selfclose : Bool) : Context F := ctx.print (.optEnd selfclose)

def svgOptf (ctx : Context F) (key : String) (v : F) : Context F := ctx.print (.optf key v)

def svgOpti (ctx : Context F) (key : String) (v : Int) : Context F := ctx.print (.opti key v)

def svgOpta (ctx : Context F) (key v : String) : Context F := ctx.print (.opta key v)

def svgOptFill (ctx : Context F) : Context F := ctx.print (.opta "fill" ctx.fillColor)

def svgOptFillNone (ctx : Context F) : Context F := ctx.print (.text "fill=\"none\" ")

def svgOptStroke (ctx : Context F) : Context F :=
  ctx.print (.stroke ctx.strokeColor ctx.strokeWidth ctx.dashArray)

def svgOptLongBeg (ctx : Context F) (key : String) : Context F := ctx.print (.longBeg key)

def svgOptLongEnd (ctx : Context F) : Context F := ctx.print .longEnd

def svgRotate (ctx : Context F) (angle cx cy : Int) : Context F := ctx.print (.rotate angle cx cy)

def svgTranslate (ctx : Context F) (dx dy : Int) : Context F := ctx.print (.translate dx dy)

def svgScale (ctx : Context F) (sx sy : F) : Context F := ctx.print (.scale sx sy)

def svgTagEnd (ctx : Context F) (name : String) : Context F := ctx.print (.tagEnd name)

/-- `strcpy` into an array of `size` characters. -/
def fits (size : Nat) (s : String) : Except Stop Unit :=
  if s.utf8ByteSize < size then .ok () else .error .overrun

def svgSetFill (ctx : Context F) (color : String) : Except Stop (Context F) := do
  fits 20 color
  return ctx.setFillColor color

def svgSetDash (ctx : Context F) (dash : String) : Except Stop (Context F) := do
  fits 30 dash
  return ctx.setDashArray dash

def svgSetStroke (ctx : Context F) (color : String) : Except Stop (Context F) := do
  fits 20 color
  return ctx.setStrokeColor color

/-! ### Elements -/

section
variable (A : Arith F)

def cordx (ctx : Context F) (var : F) : F := A.mul (A.sub var ctx.ofx) ctx.mx

def cordy (ctx : Context F) (var : F) : F := A.mul (A.sub var ctx.ofy) ctx.my

def svgLine (ctx : Context F) (x1 y1 x2 y2 : F) : Context F :=
  let ctx := svgTagStart ctx "line" true
  let ctx := svgOptf ctx "x1" (cordx A ctx x1)
  let ctx := svgOptf ctx "y1" (cordy A ctx y1)
  let ctx := svgOptf ctx "x2" (cordx A ctx x2)
  let ctx := svgOptf ctx "y2" (cordy A ctx y2)
  let ctx := svgOptStroke ctx
  svgOptEnd ctx true

def svgArrow (ctx : Context F) (x1 y1 x2 y2 : F) : Context F :=
  let ctx := svgTagStart ctx "line" true
  let ctx := svgOptf ctx "x1" (cordx A ctx x1)
  let ctx := svgOptf ctx "y1" (cordy A ctx y1)
  let ctx := svgOptf ctx "x2" (cordx A ctx x2)
  let ctx := svgOptf ctx "y2" (cordy A ctx y2)
  let ctx := svgOpta ctx "marker-end" "url(#markerArrow)"
  let ctx := svgOptStroke ctx
  svgOptEnd ctx true

/-- The loop of `svg_path_data`, up to `count`. -/
def svgPathPoints (ctx : Context F) (x y : Nat → F) (count : Nat) : Context F :=
  (List.range count).foldl
    (fun ctx i => ctx.print (.point (i == 0) (cordx A ctx (x i)) (cordy A ctx (y i)))) ctx

def svgPathData (ctx : Context F) (x y : Nat → F) (count : Nat) : Context F :=
  let ctx := svgTagStart ctx "path" true
  let ctx := ctx.print .pathBeg
  let ctx := svgPathPoints A ctx x y count
  let ctx := svgOptLongEnd ctx
  let ctx := svgOptFillNone ctx
  let ctx := svgOptStroke ctx
  svgOptEnd ctx true

def svgRect (ctx : Context F) (x y w h : F) : Context F :=
  let ctx := svgTagStart ctx "rect" true
  let ctx := svgOptf ctx "x" (cordx A ctx x)
  let ctx := svgOptf ctx "y" (cordy A ctx y)
  let ctx := svgOptf ctx "width" w
  let ctx := svgOptf ctx "height" h
  let ctx := svgOptFill ctx
  let ctx := svgOptStroke ctx
  svgOptEnd ctx true

def svgText (ctx : Context F) (txt : String) (x y : F) : Context F :=
  let ctx := svgTagStart ctx "text" true
  let ctx := svgOptf ctx "x" (cordx A ctx x)
  let ctx := svgOptf ctx "y" (cordy A ctx y)
  let ctx := svgOpti ctx "font-size" ctx.textSize
  let ctx := svgOpta ctx "font-family" ctx.textFamily
  let ctx := svgOptFill ctx
  let ctx := svgOptStroke ctx
  let ctx := svgOptEnd ctx false
  let ctx := ctx.print (.label txt)
  svgTagEnd ctx "text"

/-- `sprintf(temp, "%i", (int) t)`. -/
def temp (t : F) : String := String.ofList (formatInt (A.toInt t))

/-! ### Scales -/

/-- The loop of `max_min` after its first round and `n` more. -/
def maxMinFrom (data : Nat → F) : Nat → F × F
  | 0 => (data 0, data 0)
  | n + 1 =>
    let (min, max) := maxMinFrom data n
    if A.lt (data (n + 1)) min then (data (n + 1), max)
    else if A.lt max (data (n + 1)) then (min, data (n + 1))
    else (min, max)

/-- `max_min`, of one element at least. -/
def maxMin (data : Nat → F) (count : Nat) : F × F := maxMinFrom A data (count - 1)

def plotWidth : Int := 1000
def plotHeight : Int := 300
def plotPadding : Int := 50

/-- What `svg_draw_to_file_xy` finds out about its data before it draws. -/
structure Scaling (F : Type) where
  minX : F
  maxX : F
  minY : F
  maxY : F
  width : F
  height : F
  mx : F
  my : F

def scaling (x y : Nat → F) (count : Nat) : Scaling F :=
  let min_x := x 0
  let max_x := x (count - 1)
  let (min_y, max_y) := maxMin A y count
  let width := A.sub max_x min_x
  let height := A.sub max_y min_y
  { minX := min_x
    maxX := max_x
    minY := min_y
    maxY := max_y
    width := width
    height := height
    mx := A.div (A.cast (plotWidth - 2 * plotPadding : Int)) width
    my := A.div (A.cast (plotHeight - 2 * plotPadding : Int)) height }

/-! ### `svg_draw_to_file_xy`, part by part -/

/-- `ctx_obj`, with its strings set. -/
def ctxObj (f : File F) : Context F where
  strokeColor := "#000000"
  fillColor := "#ffffff"
  textFamily := "monospace"
  dashArray := ""
  textSize := 14
  strokeWidth := 1
  padding := plotPadding
  width := plotWidth
  height := plotHeight
  mx := A.cast 1
  my := A.cast 1
  ofx := A.cast 0
  ofy := A.cast 0
  f := f

/-- The document up to the background. -/
def beginDocument (ctx : Context F) : Except Stop (Context F) := do
  let ctx := ctx.print (.svgStart ctx.width ctx.height)
  let ctx := ctx.print (.text "<defs>\n")
  -- MARKER_ARROW
  let ctx := ctx.print (.text
    ("<marker id=\"markerArrow\" markerWidth=\"13\" markerHeight=\"13\" refX=\"7\"" ++
      " refY=\"6\" orient=\"auto\">\n<path d=\"M2,8 L11,6 L2,4 Z\"" ++
      " style=\"fill: #000000;stroke: black;\" />    </marker>"))
  let ctx := ctx.print (.text "</defs>\n")
  let ctx ← svgSetFill ctx "#ffffff"
  return svgRect A ctx (A.cast 0) (A.cast 0) (A.cast ctx.width) (A.cast ctx.height)

/-- `for (; t < max; t = next(t)) body`, as far as the fuel goes. -/
def gridLoop (max : F) (next : F → F) (body : F → Context F → Except Stop (Context F)) :
    Nat → F → Context F → Except Stop (Context F)
  | 0, t, ctx => if A.lt t max then .error .unfinished else .ok ctx
  | fuel + 1, t, ctx =>
    if A.lt t max then do
      let ctx ← body t ctx
      gridLoop max next body fuel (next t) ctx
    else .ok ctx

/-- `t = min_x + width / 10`. -/
def firstLine (min span : F) : F := A.add min (A.div span (A.cast 10))

/-- `t = t + width / 10`. -/
def nextVertical (width t : F) : F := A.add t (A.div width (A.cast 10))

/-- `t = t + height / 10.0`. -/
def nextHorizontal (height t : F) : F := A.addTenth t height

def verticalLine (s : Scaling F) (t : F) (ctx : Context F) : Except Stop (Context F) := do
  let tx := A.add (A.mul (A.sub t s.minX) s.mx) (A.cast ctx.padding)
  let ctx ← svgSetDash ctx "5,5"
  let ctx := svgLine A ctx tx (A.cast (ctx.height - ctx.padding : Int)) tx (A.cast ctx.padding)
  let ctx ← svgSetDash ctx ""
  let ctx := svgTagStart ctx "g" true
  let ctx := svgOptLongBeg ctx "transform"
  let ctx := svgRotate ctx (-90) (A.toInt tx - 3) (ctx.height - ctx.padding - 10)
  let ctx := svgTranslate ctx (A.toInt tx - 3) (ctx.height - ctx.padding - 10)
  let ctx := svgOptLongEnd ctx
  let ctx := svgOptEnd ctx false
  let ctx := svgText A ctx (temp A t) (A.cast 0) (A.cast 0)
  return svgTagEnd ctx "g"

def horizontalLine (s : Scaling F) (t : F) (ctx : Context F) : Except Stop (Context F) := do
  let ty := A.sub (A.sub (A.cast ctx.height) (A.mul (A.sub t s.minY) s.my)) (A.cast ctx.padding)
  let ctx ← svgSetDash ctx "5,5"
  let ctx := svgLine A ctx (A.cast ctx.padding) ty (A.cast (ctx.width - ctx.padding : Int)) ty
  let ctx ← svgSetDash ctx ""
  return svgText A ctx (temp A t) (A.add (A.cast ctx.padding) (A.cast 3)) (A.sub ty (A.cast 3))

def verticalLines (s : Scaling F) (fuel : Nat) (ctx : Context F) : Except Stop (Context F) := do
  let ctx ← svgSetStroke ctx "#aaaaaa"
  let ctx := ctx.setStrokeWidth 1
  gridLoop A s.maxX (nextVertical A s.width) (verticalLine A s) fuel
    (firstLine A s.minX s.width) ctx

def horizontalLines (s : Scaling F) (fuel : Nat) (ctx : Context F) : Except Stop (Context F) := do
  let ctx ← svgSetStroke ctx "#aaaaaa"
  let ctx := ctx.setStrokeWidth 1
  gridLoop A s.maxY (nextHorizontal A s.height) (horizontalLine A s) fuel
    (firstLine A s.minY s.height) ctx

/-- The curve, in a group of its own. -/
def plotData (s : Scaling F) (color : String) (x y : Nat → F) (count : Nat) (ctx : Context F) :
    Except Stop (Context F) := do
  let ctx := svgTagStart ctx "g" true
  let ctx := ctx.setScale s.mx s.my s.minX s.minY
  let ctx := svgOptLongBeg ctx "transform"
  let ctx := svgTranslate ctx ctx.padding ctx.padding
  let ctx := svgScale ctx (A.cast 1) (A.cast (-1))
  let ctx := svgTranslate ctx 0 (-ctx.height + 2 * ctx.padding)
  let ctx := svgOptLongEnd ctx
  let ctx := svgOptEnd ctx false
  let ctx ← svgSetStroke ctx color
  let ctx ← svgSetDash ctx ""
  let ctx := svgPathData A ctx x y count
  let ctx ← svgSetStroke ctx "#000000"
  let ctx := svgTagEnd ctx "g"
  return ctx.setScale (A.cast 1) (A.cast 1) (A.cast 0) (A.cast 0)

/-- A number on its side, in a group of its own. -/
def turnedText (txt : String) (cx cy dx dy : Int) (ctx : Context F) : Context F :=
  let ctx := svgTagStart ctx "g" true
  let ctx := svgOptLongBeg ctx "transform"
  let ctx := svgRotate ctx (-90) cx cy
  let ctx := svgTranslate ctx dx dy
  let ctx := svgOptLongEnd ctx
  let ctx := svgOptEnd ctx false
  let ctx := svgText A ctx txt (A.cast 0) (A.cast 0)
  svgTagEnd ctx "g"

def maxLabels (s : Scaling F) (ctx : Context F) : Context F :=
  let ctx := svgText A ctx (temp A s.maxY) (A.add (A.cast ctx.padding) (A.cast 3))
    (A.cast ctx.padding)
  turnedText A (temp A s.maxX) (ctx.width - ctx.padding - ctx.textSize / 2)
    (ctx.height - ctx.padding - ctx.textSize) (ctx.width - ctx.padding - ctx.textSize)
    (ctx.height - ctx.padding - ctx.textSize) ctx

def axisY (x_0 : F) (y_label : String) (ctx : Context F) : Except Stop (Context F) := do
  let ctx ← svgSetFill ctx "#000000"
  let ctx ← svgSetStroke ctx "#000000"
  let ctx ← svgSetDash ctx ""
  let ctx := (ctx.setStrokeWidth 2).setTextSize (ctx.padding / 2).toNat
  let ctx ← svgSetStroke ctx "#000000"
  let ctx ← svgSetDash ctx ""
  let ctx := svgArrow A ctx (A.cast ctx.padding) (A.cast (ctx.height - ctx.padding / (2 : ℚ)))
    (A.cast ctx.padding) (A.cast (ctx.padding / (2 : ℚ)))
  let ctx := ctx.setStrokeWidth 1
  let ctx := svgText A ctx y_label (A.cast (ctx.padding + ctx.textSize / (4 : ℚ)))
    (A.cast (ctx.padding / (2 : ℚ) + ctx.textSize / (4 : ℚ)))
  let ctx := ctx.setTextSize 14
  let ctx := turnedText A (temp A x_0) (ctx.padding - ctx.textSize / 2)
    (ctx.height - ctx.padding - ctx.textSize) (ctx.padding - ctx.textSize)
    (ctx.height - ctx.padding - ctx.textSize) ctx
  return ctx.setTextSize (ctx.padding / 2).toNat

/-- The first number that a `size_t` cannot count to. -/
def sizeLimit : Int := 4294967296

def axisX (s : Scaling F) (x_label : String) (ctx : Context F) : Context F :=
  let ctx := ctx.setStrokeWidth 2
  let ctx := svgArrow A ctx (A.div (A.cast ctx.padding) (A.cast 2))
    (A.cast (ctx.height - ctx.padding : Int)) (A.cast (ctx.width - ctx.padding / (2 : ℚ)))
    (A.cast (ctx.height - ctx.padding : Int))
  let ctx := (ctx.setStrokeWidth 1).setTextSize (ctx.padding / 2).toNat
  let ctx := svgText A ctx x_label
    (A.cast ((ctx.width - x_label.utf8ByteSize * ctx.textSize) % sizeLimit : Int))
    (A.cast (ctx.height - ctx.padding - ctx.textSize / (2 : ℚ)))
  let ctx := ctx.setTextSize 14
  svgText A ctx (temp A s.minY) (A.add (A.cast ctx.padding) (A.cast 3))
    (A.cast (ctx.height - ctx.padding + ctx.textSize : Int))

/-- The file after the plot, with `fuel` rounds at most for each of the two loops. -/
def svgDrawToFileXy (fuel : Nat) (f : File F) (color : String) (x y : Nat → F) (count : Nat)
    (x_label y_label : String) : Except Stop (File F) :=
  if count = 0 then .ok f
  else do
    let s := scaling A x y count
    let ctx ← beginDocument A (ctxObj A f)
    let ctx ← verticalLines A s fuel ctx
    let ctx ← horizontalLines A s fuel ctx
    let ctx ← plotData A s color x y count ctx
    let ctx := maxLabels A s ctx
    let ctx ← axisY A (x 0) y_label ctx
    let ctx := axisX A s x_label ctx
    return (svgFinish ctx).f

end

/-! ### The page -/

/-- The arrays of `generate_html_file`, as its loop has filled them. -/
structure Series (F : Type) where
  xActual : Nat → F
  yActual : Nat → F
  yDesired : Nat → F
  yPwm : Nat → F

/-- The drawing part of `generate_html_file`. -/
def generateHtmlFile (A : Arith F) (fuel : Nat) (d : Series F) (f : File F) :
    Except Stop (File F) := do
  let f ← svgDrawToFileXy A fuel f "#ff0000" d.xActual d.yActual historySize "t"
    "Actual position (abs units)"
  let f ← svgDrawToFileXy A fuel f "#00ff00" d.xActual d.yDesired historySize "t"
    "Desired position (abs units)"
  svgDrawToFileXy A fuel f "#0000ff" d.xActual d.yPwm historySize "t" "PWM duty cicle, +-100%"

/-- What `one_client_server` sends after the response header. -/
def page (A : Arith F) (fuel : Nat) (d : Series F) : Except Stop (File F) := do
  let f : File F := [.text "<!DOCTYPE html>\n<html>\n",
    .text "<body onload=\"setTimeout(function()\x7blocation.reload()\x7d, 400);\">"]
  let f ← generateHtmlFile A fuel d f
  return f ++ [.text "</body>\n</html>"]

end RealTimeLabs.Svg
