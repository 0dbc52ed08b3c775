import Mathlib.Algebra.Order.Ring.Int

/-! The subtraction of two times.

`timespec_subtract` carries a second from the seconds of its second operand to the
nanoseconds of the first, in place, so that the operand still denotes the same instant. The
second correction never applies to normalised times, of which a difference of nanoseconds
is below a second. `time_t` has `w` bits, with a sign. Where it can hold the carried
seconds and the difference, the result is exact, and so is its sign
(`timespecSubtract_exact`). -/
namespace RealTimeLabs.Priority

/-- `struct timespec`, its `tv_nsec` of 32 bits. -/
structure Timespec (w : Nat) where
  tv_sec : BitVec w
  tv_nsec : Int32
deriving DecidableEq

variable {w : Nat}

/-! ### The functions -/

/-- What `timespec_subtract` leaves: its result, its second operand, and whether it
returns 1. -/
structure Subtraction (w : Nat) where
  result : Timespec w
  y : Timespec w
  negative : Bool
deriving DecidableEq

/-- An `int` in an expression of type `time_t`. -/
def toTime (w : Nat) (n : Int32) : BitVec w := BitVec.ofInt w n.toInt

def timespecSubtract (x y : Timespec w) : Subtraction w :=
  let y : Timespec w :=
    if x.tv_nsec < y.tv_nsec then
      let num_sec := (y.tv_nsec - x.tv_nsec) / 1000000000 + 1
      ⟨y.tv_sec + toTime w num_sec, y.tv_nsec - 1000000000 * num_sec⟩
    else y
  let y : Timespec w :=
    if x.tv_nsec - y.tv_nsec > 1000000000 then
      let num_sec := (x.tv_nsec - y.tv_nsec) / 1000000000
      ⟨y.tv_sec - toTime w num_sec, y.tv_nsec + 1000000000 * num_sec⟩
    else y
  { result := ⟨x.tv_sec - y.tv_sec, x.tv_nsec - y.tv_nsec⟩
    y := y
    negative := x.tv_sec.slt y.tv_sec }

/-- The sum is made in `time_t`, and returned as an `int`. -/
def timeToMs (time : Timespec w) : Int32 :=
  Int32.ofInt (time.tv_sec * toTime w 1000 + toTime w (time.tv_nsec / 1000000)).toInt

/-! ### Instants -/

/-- In nanoseconds. -/
def Timespec.instant (t : Timespec w) : Int := t.tv_sec.toInt * 1000000000 + t.tv_nsec.toInt

def Timespec.Normalised (t : Timespec w) : Prop :=
  0 ≤ t.tv_nsec.toInt ∧ t.tv_nsec.toInt < 1000000000

instance (t : Timespec w) : Decidable t.Normalised := inferInstanceAs (Decidable (_ ∧ _))

/-- The second that is carried. -/
def carry (x y : Timespec w) : Int := if x.tv_nsec < y.tv_nsec then 1 else 0

/-- A `time_t` can hold it. -/
def Holds (w : Nat) (n : Int) : Prop := -2 ^ (w - 1) ≤ n ∧ n < 2 ^ (w - 1)

/-- A `time_t` can hold the seconds after the carry, and the difference in seconds. -/
structure Fits (x y : Timespec w) : Prop where
  carried : Holds w (y.tv_sec.toInt + carry x y)
  difference : Holds w (x.tv_sec.toInt - (y.tv_sec.toInt + carry x y))

/-- The result is normalised and exact, and its sign is right; the second operand denotes
the instant that it did. -/
structure Exact (x y : Timespec w) : Prop where
  normalised : (timespecSubtract x y).result.Normalised
  result : (timespecSubtract x y).result.instant = x.instant - y.instant
  operand : (timespecSubtract x y).y.instant = y.instant
  negative : (timespecSubtract x y).negative = true ↔ x.instant < y.instant

/-! ### Arithmetic in `time_t` -/

section
variable (hw : 32 ≤ w)
include hw

theorem bmod_of_holds {n : Int} (h : Holds w n) : n.bmod (2 ^ w) = n := by
  rw [← BitVec.toInt_ofInt]
  exact BitVec.toInt_ofInt_eq_self (by omega) h.1 h.2

theorem holds_of_fits {n : Int} (h : -2147483648 ≤ n ∧ n < 2147483648) : Holds w n := by
  have hpow : (2 : Int) ^ 31 ≤ 2 ^ (w - 1) := pow_le_pow_right₀ (by decide) (by omega)
  have hvalue : (2 : Int) ^ 31 = 2147483648 := by decide
  rw [hvalue] at hpow
  constructor <;> omega

theorem toInt_toTime (n : Int32) : (toTime w n).toInt = n.toInt := by
  rw [toTime, BitVec.toInt_ofInt]
  exact bmod_of_holds hw (holds_of_fits hw ⟨n.le_toInt, n.toInt_lt⟩)

end

/-- A difference of two numbers of nanoseconds, one of them carried perhaps. -/
theorem toInt_sub_nsec {a b : Int32} (ha : -1000000000 ≤ a.toInt ∧ a.toInt < 1000000000)
    (hb : -1000000000 ≤ b.toInt ∧ b.toInt ≤ 1000000000) :
    (a - b).toInt = a.toInt - b.toInt := by
  rw [Int32.toInt_sub]
  apply Int.bmod_eq_of_le <;> omega

theorem toInt_billion : (1000000000 : Int32).toInt = 1000000000 := rfl

/-- The carry is of one second. -/
theorem num_sec_eq {a b : Int32} (ha : 0 ≤ a.toInt ∧ a.toInt < 1000000000)
    (hb : 0 ≤ b.toInt ∧ b.toInt < 1000000000) (hlt : a.toInt < b.toInt) :
    (b - a) / 1000000000 + 1 = 1 := by
  have hdifference := toInt_sub_nsec (a := b) (b := a) (by omega) (by omega)
  have hquotient : (b - a) / 1000000000 = 0 := by
    apply Int32.toInt_inj.mp
    rw [Int32.toInt_div, toInt_billion, hdifference,
      Int.tdiv_eq_zero_of_lt (by omega) (by omega)]
    rfl
  rw [hquotient]
  rfl

theorem carry_cases (x y : Timespec w) :
    carry x y = 1 ∧ x.tv_nsec.toInt < y.tv_nsec.toInt ∨
      carry x y = 0 ∧ y.tv_nsec.toInt ≤ x.tv_nsec.toInt := by
  unfold carry
  split
  · rename_i hlt
    exact .inl ⟨rfl, Int32.lt_iff_toInt_lt.mp hlt⟩
  · rename_i hge
    exact .inr ⟨rfl, not_lt.mp fun hlt => hge (Int32.lt_iff_toInt_lt.mpr hlt)⟩

/-! ### The result -/

/-- One second is carried, or nothing. -/
theorem timespecSubtract_eq (hw : 32 ≤ w) {x y : Timespec w} (hx : x.Normalised)
    (hy : y.Normalised) (hfits : Holds w (y.tv_sec.toInt + carry x y)) :
    ∃ y' : Timespec w, timespecSubtract x y =
        ⟨⟨x.tv_sec - y'.tv_sec, x.tv_nsec - y'.tv_nsec⟩, y', x.tv_sec.slt y'.tv_sec⟩ ∧
      y'.tv_sec.toInt = y.tv_sec.toInt + carry x y ∧
      y'.tv_nsec.toInt = y.tv_nsec.toInt - 1000000000 * carry x y := by
  obtain ⟨hx0, hx1⟩ := hx
  obtain ⟨hy0, hy1⟩ := hy
  by_cases hlt : x.tv_nsec < y.tv_nsec
  · have hlt' := Int32.lt_iff_toInt_lt.mp hlt
    have hone := num_sec_eq ⟨hx0, hx1⟩ ⟨hy0, hy1⟩ hlt'
    have hcarry : carry x y = 1 := if_pos hlt
    have hnsec : (y.tv_nsec - 1000000000).toInt = y.tv_nsec.toInt - 1000000000 :=
      toInt_sub_nsec (by omega) (by rw [toInt_billion]; omega)
    have hsecond : ¬ x.tv_nsec - (y.tv_nsec - 1000000000 * 1) > 1000000000 := by
      rw [Int32.mul_one, gt_iff_lt, Int32.lt_iff_toInt_lt, toInt_billion,
        toInt_sub_nsec (by omega) (by omega), hnsec]
      omega
    refine ⟨⟨y.tv_sec + toTime w 1, y.tv_nsec - 1000000000 * 1⟩, ?_, ?_, ?_⟩
    · simp only [timespecSubtract, if_pos hlt, hone, if_neg hsecond]
    · rw [hcarry] at hfits ⊢
      have htime : (toTime w 1).toInt = 1 := toInt_toTime hw 1
      rw [BitVec.toInt_add, htime]
      exact bmod_of_holds hw hfits
    · simp only [Int32.mul_one, hnsec, hcarry]
      omega
  · have hcarry : carry x y = 0 := if_neg hlt
    have hsecond : ¬ x.tv_nsec - y.tv_nsec > 1000000000 := by
      rw [gt_iff_lt, Int32.lt_iff_toInt_lt, toInt_billion, toInt_sub_nsec (by omega) (by omega)]
      omega
    refine ⟨y, ?_, by omega, by omega⟩
    simp only [timespecSubtract, if_neg hlt, if_neg hsecond]

/-- **Between normalised times the subtraction is exact**, as far as a `time_t` can hold
what it is made of. -/
theorem timespecSubtract_exact (hw : 32 ≤ w) {x y : Timespec w} (hx : x.Normalised)
    (hy : y.Normalised) (hfits : Fits x y) : Exact x y := by
  obtain ⟨y', hsubtract, hsec, hnsec⟩ := timespecSubtract_eq hw hx hy hfits.carried
  obtain ⟨hx0, hx1⟩ := hx
  obtain ⟨hy0, hy1⟩ := hy
  have hcarry := carry_cases x y
  have hdifference : (x.tv_sec - y'.tv_sec).toInt = x.tv_sec.toInt - y'.tv_sec.toInt := by
    rw [BitVec.toInt_sub, hsec]
    exact bmod_of_holds hw hfits.difference
  have hrest : (x.tv_nsec - y'.tv_nsec).toInt = x.tv_nsec.toInt - y'.tv_nsec.toInt :=
    toInt_sub_nsec (by omega) (by omega)
  constructor
  · rw [hsubtract]
    simp only [Timespec.Normalised, hrest]
    omega
  · rw [hsubtract]
    simp only [Timespec.instant, hdifference, hrest]
    omega
  · rw [hsubtract]
    simp only [Timespec.instant]
    omega
  · rw [hsubtract]
    simp only [BitVec.slt_iff_toInt_lt, Timespec.instant]
    omega

end RealTimeLabs.Priority
