import Mathlib.Algebra.Order.Group.Abs
import Mathlib.Algebra.Order.Group.Int

/-! Quadrature encoders: two lines that carry the position of a shaft modulo four.

The lines run through the cycle 00, 10, 11, 01 (line A first), so neighbouring
positions differ in exactly one line. Two facts follow. A sample whose lines are
read at two neighbouring positions is the sample of one of the two (`effective`):
reading the lines one after the other does no harm. And the two samples of a
movement by at most one position determine the movement (`decode_lines`); those of any
movement determine it modulo four, but for half a cycle where both lines change
(`decode_phase`). -/
namespace Quadrature

/-- Line A at a shaft position. -/
def lineA (p : Int) : Bool := p % 4 = 1 ∨ p % 4 = 2

/-- Line B at a shaft position. -/
def lineB (p : Int) : Bool := p % 4 = 2 ∨ p % 4 = 3

theorem lineA_eq_iff (p q : Int) :
    lineA p = lineA q ↔ (p % 4 = 1 ∨ p % 4 = 2 ↔ q % 4 = 1 ∨ q % 4 = 2) := by
  rw [Bool.eq_iff_iff]
  simp [lineA]

theorem lineB_eq_iff (p q : Int) :
    lineB p = lineB q ↔ (p % 4 = 2 ∨ p % 4 = 3 ↔ q % 4 = 2 ∨ q % 4 = 3) := by
  rw [Bool.eq_iff_iff]
  simp [lineB]

/-- Neighbouring positions agree in one line at least. -/
theorem lines_adjacent (p q : Int) (h : |p - q| ≤ 1) : lineA p = lineA q ∨ lineB p = lineB q := by
  rw [abs_le] at h
  rw [lineA_eq_iff, lineB_eq_iff]
  omega

/-- The position that a sample stands for, its A line read at `a` and its B line at `b`. -/
def effective (a b : Int) : Int := if lineA a = lineA b then b else a

theorem effective_mem (a b : Int) : effective a b = a ∨ effective a b = b := by
  unfold effective
  split
  · exact .inr rfl
  · exact .inl rfl

/-- A sample torn between neighbouring positions is the sample of its effective position. -/
theorem effective_lines (a b : Int) (h : |a - b| ≤ 1) :
    lineA (effective a b) = lineA a ∧ lineB (effective a b) = lineB b := by
  unfold effective
  by_cases hA : lineA a = lineA b
  · rw [if_pos hA]
    exact ⟨hA.symm, rfl⟩
  · rw [if_neg hA]
    exact ⟨rfl, (lines_adjacent a b h).resolve_left hA⟩

/-- The quarter of the cycle that a pair of lines marks. -/
def quarter (a b : Bool) : Int :=
  match a, b with
  | false, false => 0
  | true, false => 1
  | true, true => 2
  | false, true => 3

theorem quarter_lines (p : Int) : quarter (lineA p) (lineB p) = p % 4 := by
  have h4 : p % 4 = 0 ∨ p % 4 = 1 ∨ p % 4 = 2 ∨ p % 4 = 3 := by omega
  rcases h4 with h | h | h | h <;> simp [quarter, lineA, lineB, h]

/-- The movement that two samples show: a quarter forward or back. A movement by two
quarters has no direction, and counts as none. -/
def decode (a b a' b' : Bool) : Int :=
  match (quarter a' b' - quarter a b) % 4 with
  | 1 => 1
  | 3 => -1
  | _ => 0

/-- The samples of a movement by at most one position decode to the movement. -/
theorem decode_lines (p q : Int) (h : |q - p| ≤ 1) :
    decode (lineA p) (lineB p) (lineA q) (lineB q) = q - p := by
  rw [abs_le] at h
  have hmove : q - p = -1 ∨ q - p = 0 ∨ q - p = 1 := by omega
  unfold decode
  rw [quarter_lines, quarter_lines]
  rcases hmove with hm | hm | hm
  · rw [show (q % 4 - p % 4) % 4 = 3 by omega, hm]
    rfl
  · rw [show (q % 4 - p % 4) % 4 = 0 by omega, hm]
    rfl
  · rw [show (q % 4 - p % 4) % 4 = 1 by omega, hm]
    rfl

/-- Both lines differ between two samples. -/
def bothDiffer (a b a' b' : Bool) : Bool := a != a' && b != b'

/-- Both lines differ exactly half a cycle apart. -/
theorem bothDiffer_iff (a b a' b' : Bool) :
    bothDiffer a b a' b' = true ↔ (quarter a' b' - quarter a b) % 4 = 2 := by
  cases a <;> cases b <;> cases a' <;> cases b' <;> decide

/-- Whatever the movement between two samples, it decodes to itself modulo four, but for
the half cycle that a movement without a direction leaves out. -/
theorem decode_phase (p q : Int) :
    decode (lineA p) (lineB p) (lineA q) (lineB q) % 4 =
      (q - p + 2 * (bothDiffer (lineA p) (lineB p) (lineA q) (lineB q)).toNat) % 4 := by
  have hboth := bothDiffer_iff (lineA p) (lineB p) (lineA q) (lineB q)
  have h4 : (q % 4 - p % 4) % 4 = 0 ∨ (q % 4 - p % 4) % 4 = 1 ∨ (q % 4 - p % 4) % 4 = 2 ∨
      (q % 4 - p % 4) % 4 = 3 := by omega
  unfold decode
  rw [quarter_lines, quarter_lines] at hboth ⊢
  by_cases hhalf : (q % 4 - p % 4) % 4 = 2
  · rw [hboth.mpr hhalf, hhalf]
    change (0 : Int) % 4 = (q - p + 2 * 1) % 4
    omega
  · rw [Bool.eq_false_iff.mpr fun hb => hhalf (hboth.mp hb)]
    rcases h4 with h | h | h | h
    · rw [h]
      change (0 : Int) % 4 = (q - p + 2 * 0) % 4
      omega
    · rw [h]
      change (1 : Int) % 4 = (q - p + 2 * 0) % 4
      omega
    · exact absurd h hhalf
    · rw [h]
      change (-1 : Int) % 4 = (q - p + 2 * 0) % 4
      omega

end Quadrature
