import RealTimeLabs.Library.Markup
import RealTimeLabs.Library.Rounding
import RealTimeLabs.Library.Table

/-! The arithmetic that the plots are drawn with, and how `printf` writes a number.

`svg_generator.c` computes in `float`, with a `double` in between where a constant is one.
What it computes depends on the operations, how it goes about it does not, so the model
takes them as a parameter: `Arith`. Three of them are used here: exact rationals, the
rationals that have 24 bits, and `Single`, which has an infinity to overflow to. -/
namespace RealTimeLabs.Svg

/-- C's `float` and its conversions. -/
structure Arith (F : Type) where
  /-- `(float)` of a value that `int` or `double` holds exactly. -/
  cast : ℚ → F
  add : F → F → F
  sub : F → F → F
  mul : F → F → F
  div : F → F → F
  /-- `t = t + height / 10.0`, a `double` addition assigned to a `float`. -/
  addTenth : F → F → F
  lt : F → F → Bool
  /-- `(int)`. -/
  toInt : F → Int
  /-- `%f`. -/
  format : F → List Char
  format_plain : ∀ v, ∀ c ∈ format v, Markup.Plain c

/-- `(float)` of an `int32_t`. -/
def Arith.ofInt32 {F : Type} (A : Arith F) (n : Int32) : F := A.cast n.toInt

/-- `(float)` of a `uint32_t`. -/
def Arith.ofUInt32 {F : Type} (A : Arith F) (n : UInt32) : F := A.cast n.toNat

/-! ### Numbers as text -/

theorem plain_of_isDigit {c : Char} (h : c.isDigit = true) : Markup.Plain c := by
  refine ⟨?_, ?_, ?_, ?_⟩ <;> intro rfl <;> cases h

/-- `%i`. -/
def formatInt (n : Int) : List Char := Table.decimal.write n

/-- A finite value in millionths, to the nearest. -/
def printed (q : ℚ) : Table.Fixed := ⟨q < 0, (Rounding.halfEven (|q| * 1000000)).natAbs⟩

/-- `%f` of a finite value. -/
def formatRat (q : ℚ) : List Char := Table.fixed.write (printed q)

theorem formatInt_plain (n : Int) : ∀ c ∈ formatInt n, Markup.Plain c := by
  intro c hc
  have hmark := Table.decimal.isMark_write n c hc
  rcases Bool.or_eq_true_iff.mp hmark with h | h
  · rw [beq_iff_eq.mp h]
    decide
  · exact plain_of_isDigit h

theorem formatRat_plain (q : ℚ) : ∀ c ∈ formatRat q, Markup.Plain c := by
  intro c hc
  have hmark := Table.fixed.isMark_write (printed q) c hc
  rcases Bool.or_eq_true_iff.mp hmark with h | h
  · rcases Bool.or_eq_true_iff.mp h with h | h
    · rw [beq_iff_eq.mp h]
      decide
    · rw [beq_iff_eq.mp h]
      decide
  · exact plain_of_isDigit h

/-! ### Rationals -/

/-- The fractional part cut off. -/
def truncate (q : ℚ) : Int := if q < 0 then -⌊-q⌋ else ⌊q⌋

def exact : Arith ℚ where
  cast := id
  add := (· + ·)
  sub := (· - ·)
  mul := (· * ·)
  div := (· / ·)
  addTenth t height := t + height / 10
  lt a b := a < b
  toInt := truncate
  format := formatRat
  format_plain := formatRat_plain

/-- `float`, as a set of rationals. -/
def float : ℚ → ℚ := Rounding.round 24

/-- Every operation rounded to a `float`; `wide` is the rounding of the `double` addition. -/
def rounded (wide : ℚ → ℚ) : Arith ℚ where
  cast := float
  add a b := float (a + b)
  sub a b := float (a - b)
  mul a b := float (a * b)
  div a b := float (a / b)
  addTenth t height := float (wide (t + wide (height / 10)))
  lt a b := a < b
  toInt := truncate
  format := formatRat
  format_plain := formatRat_plain

/-- `double`. -/
def double : ℚ → ℚ := Rounding.round 53

/-! ### Values that need not be finite -/

/-- A `float`, its zeros not told apart. -/
inductive Single where
  | finite (q : ℚ)
  | infinite (negative : Bool)
  | nan
deriving DecidableEq

namespace Single

/-- The first magnitude that a `float` cannot reach. -/
def limit : ℚ := 2 ^ 128

/-- The result of an operation, or infinity where it is too large. -/
def ofRat (q : ℚ) : Single :=
  if |float q| < limit then .finite (float q) else .infinite (q < 0)

def neg : Single → Single
  | .finite q => .finite (-q)
  | .infinite negative => .infinite !negative
  | .nan => .nan

def add : Single → Single → Single
  | .finite a, .finite b => ofRat (a + b)
  | .finite _, .infinite negative => .infinite negative
  | .infinite negative, .finite _ => .infinite negative
  | .infinite a, .infinite b => if a = b then .infinite a else .nan
  | _, _ => .nan

def mul : Single → Single → Single
  | .finite a, .finite b => ofRat (a * b)
  | .finite a, .infinite negative => if a = 0 then .nan else .infinite (negative ^^ a < 0)
  | .infinite negative, .finite b => if b = 0 then .nan else .infinite (negative ^^ b < 0)
  | .infinite a, .infinite b => .infinite (a ^^ b)
  | _, _ => .nan

def div : Single → Single → Single
  | .finite a, .finite b =>
    if b = 0 then if a = 0 then .nan else .infinite (a < 0) else ofRat (a / b)
  | .finite _, .infinite _ => .finite 0
  | .infinite negative, .finite b => .infinite (negative ^^ b < 0)
  | _, _ => .nan

def lt : Single → Single → Bool
  | .finite a, .finite b => a < b
  | .finite _, .infinite negative => !negative
  | .infinite negative, .finite _ => negative
  | .infinite a, .infinite b => a && !b
  | _, _ => false

def addTenth : Single → Single → Single
  | .finite t, .finite height => ofRat (double (t + double (height / 10)))
  | t, height => add t height

def toInt : Single → Int
  | .finite q => truncate q
  | _ => 0

def format : Single → List Char
  | .finite q => formatRat q
  | .infinite negative => (if negative then ['-'] else []) ++ ['i', 'n', 'f']
  | .nan => ['n', 'a', 'n']

theorem format_plain (v : Single) : ∀ c ∈ format v, Markup.Plain c := by
  cases v with
  | finite q => exact formatRat_plain q
  | infinite negative => cases negative <;> exact Markup.plain_of_all rfl
  | nan => exact Markup.plain_of_all rfl

end Single

def single : Arith Single where
  cast := Single.ofRat
  add := Single.add
  sub a b := Single.add a b.neg
  mul := Single.mul
  div := Single.div
  addTenth := Single.addTenth
  lt := Single.lt
  toInt := Single.toInt
  format := Single.format
  format_plain := Single.format_plain

end RealTimeLabs.Svg
