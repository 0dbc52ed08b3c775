import Mathlib.Logic.Basic

/-! The `int` that counts the turns of a loop. -/
namespace Counter

/-- `i++` below a number that an `int` can hold does not overflow. -/
theorem toInt_succ_of_lt {i n : Int32} (h : i.toInt < n.toInt) : (i + 1).toInt = i.toInt + 1 := by
  have hle := n.toInt_le
  have hmin := i.le_toInt
  have hone : (1 : Int32).toInt = 1 := rfl
  rw [Int32.toInt_maxValue] at hle
  rw [Int32.toInt_add, hone, Int.bmod_eq_of_le (by omega) (by omega)]

theorem toInt_lt_maxValue {i : Int32} (h : i ≠ Int32.maxValue) : i.toInt < Int32.maxValue.toInt :=
  Int.lt_iff_le_and_ne.mpr ⟨i.toInt_le, fun heq => h (Int32.toInt_inj.mp heq)⟩

theorem toInt_succ {i : Int32} (h : i ≠ Int32.maxValue) : (i + 1).toInt = i.toInt + 1 :=
  toInt_succ_of_lt (toInt_lt_maxValue h)

/-- A count that is not zero is not the one that means "without end". -/
theorem ne_zero_of_pos {n : Int32} (h : 0 < n.toInt) : n ≠ 0 := fun heq => by
  rw [heq] at h
  exact absurd h (by decide)

end Counter
