import Mathlib.Algebra.Order.Floor.Ring
import Mathlib.Data.Int.Log
import Mathlib.Data.Rat.Floor
import Mathlib.Tactic.Linarith
import Mathlib.Tactic.Ring
import Mathlib.Tactic.Positivity

/-! Binary floating point of `p` bits, as rounding of rationals.

A number is `Representable` if it is an integer of at most `p` bits times a power of two;
the exponent is unbounded. `round` goes to the nearest such number, and between two to the
one with the even significand. Everything that follows needs three facts: rounding fixes
the representable numbers, is monotone, and between two powers of two goes to the nearest
multiple of the spacing there (`round_mul`). -/
namespace Rounding

/-- The nearest integer, the even one of two. -/
def halfEven (q : ℚ) : ℤ :=
  if q - ⌊q⌋ < 1 / 2 then ⌊q⌋
  else if 1 / 2 < q - ⌊q⌋ then ⌊q⌋ + 1
  else if Even ⌊q⌋ then ⌊q⌋ else ⌊q⌋ + 1

/-- The spacing of the numbers of `p` bits at the magnitude of `q`. -/
def quantum (p : ℕ) (q : ℚ) : ℚ := 2 ^ (Int.log 2 |q| + 1 - p)

def round (p : ℕ) (q : ℚ) : ℚ := halfEven (q / quantum p q) * quantum p q

def Representable (p : ℕ) (q : ℚ) : Prop := ∃ n e : ℤ, |n| ≤ 2 ^ p ∧ q = n * 2 ^ e

/-! ### Integers -/

theorem halfEven_add (n : ℤ) {f : ℚ} (h0 : 0 ≤ f) (hf : f < 1 / 2 ∨ f = 1 / 2 ∧ Even n) :
    halfEven (n + f) = n := by
  have hlt : f < 1 := by rcases hf with hf | ⟨hf, _⟩ <;> linarith
  have hfloor : ⌊(n : ℚ) + f⌋ = n := by
    rw [Int.floor_intCast_add, Int.floor_eq_zero_iff.mpr ⟨h0, hlt⟩, add_zero]
  rw [halfEven, hfloor, add_sub_cancel_left]
  rcases hf with hf | ⟨rfl, heven⟩
  · rw [if_pos hf]
  · rw [if_neg (lt_irrefl _), if_neg (lt_irrefl _), if_pos heven]

theorem halfEven_add_half {n : ℤ} (h : ¬ Even n) : halfEven (n + 1 / 2) = n + 1 := by
  have hfloor : ⌊(n : ℚ) + 1 / 2⌋ = n := by
    rw [Int.floor_intCast_add, Int.floor_eq_zero_iff.mpr ⟨by norm_num, by norm_num⟩, add_zero]
  rw [halfEven, hfloor, add_sub_cancel_left, if_neg (lt_irrefl _), if_neg (lt_irrefl _), if_neg h]

theorem abs_halfEven_sub_le (q : ℚ) : |halfEven q - q| ≤ 1 / 2 := by
  have hlo := Int.floor_le q
  have hhi := Int.lt_floor_add_one q
  unfold halfEven
  rw [abs_le]
  split
  · constructor <;> linarith
  · split
    · push_cast
      constructor <;> linarith
    · split
      · constructor <;> linarith
      · push_cast
        constructor <;> linarith

theorem halfEven_mono {p q : ℚ} (h : p ≤ q) : halfEven p ≤ halfEven q := by
  by_contra! hlt
  obtain ⟨-, hp⟩ := abs_le.mp (abs_halfEven_sub_le p)
  obtain ⟨hq, -⟩ := abs_le.mp (abs_halfEven_sub_le q)
  have hgap : (halfEven q : ℚ) + 1 ≤ halfEven p := by exact_mod_cast hlt
  -- both would be the same half
  have heq : p = q := by linarith
  rw [heq] at hlt
  exact lt_irrefl _ hlt

theorem halfEven_nonneg {q : ℚ} (h : 0 ≤ q) : 0 ≤ halfEven q := by
  obtain ⟨hlow, -⟩ := abs_le.mp (abs_halfEven_sub_le q)
  have hlarge : (-1 : ℚ) < halfEven q := by linarith
  have hint : -1 < halfEven q := by exact_mod_cast hlarge
  omega

/-- No integer is nearer. -/
theorem abs_halfEven_sub_le_abs (q : ℚ) (n : ℤ) : |halfEven q - q| ≤ |n - q| := by
  rcases eq_or_ne n (halfEven q) with rfl | hne
  · exact le_rfl
  · have hhalf := abs_halfEven_sub_le q
    have hone : (1 : ℚ) ≤ |(n : ℚ) - halfEven q| := by
      have h := Int.one_le_abs (sub_ne_zero.mpr hne)
      exact_mod_cast h
    have htri := abs_sub_le (n : ℚ) q (halfEven q)
    rw [abs_sub_comm q] at htri
    linarith

/-! ### Spacing -/

theorem quantum_pos (p : ℕ) (q : ℚ) : 0 < quantum p q := zpow_pos two_pos _

/-- A number between `2 ^ (p - 1)` and `2 ^ p` units has that unit for its spacing. -/
theorem quantum_eq {p : ℕ} {q : ℚ} {e : ℤ} (hlo : (2 : ℚ) ^ (e + p - 1) ≤ |q|)
    (hhi : |q| < 2 ^ (e + p)) : quantum p q = 2 ^ e := by
  have hpos : 0 < |q| := lt_of_lt_of_le (zpow_pos two_pos _) hlo
  have hle : e + p - 1 ≤ Int.log 2 |q| := (Int.zpow_le_iff_le_log one_lt_two hpos).mp hlo
  have hlt : Int.log 2 |q| < e + p := (Int.lt_zpow_iff_log_lt one_lt_two hpos).mp hhi
  unfold quantum
  congr 1
  omega

theorem pow_mul_quantum (p : ℕ) (q : ℚ) : 2 ^ p * quantum p q = 2 ^ (Int.log 2 |q| + 1) := by
  rw [quantum, ← zpow_natCast, ← zpow_add₀ two_ne_zero]
  congr 1
  omega

theorem abs_lt_pow_mul_quantum (p : ℕ) (q : ℚ) : |q| < 2 ^ p * quantum p q := by
  rw [pow_mul_quantum]
  exact Int.lt_zpow_succ_log_self one_lt_two _

/-- A multiple of a power of two is one of every smaller power. -/
theorem exists_multiple (n : ℤ) {e e' : ℤ} (h : e ≤ e') :
    ∃ m : ℤ, (n : ℚ) * 2 ^ e' = m * 2 ^ e := by
  obtain ⟨k, rfl⟩ := Int.le.dest h
  refine ⟨n * 2 ^ k, ?_⟩
  rw [zpow_add₀ two_ne_zero, zpow_natCast]
  push_cast
  ring

/-- A representable number is a multiple of the spacing at every smaller magnitude. -/
theorem Representable.multiple {p : ℕ} {r : ℚ} (h : Representable p r) (hp : 1 ≤ p) {e : ℤ}
    (hr : (2 : ℚ) ^ (e + p - 1) ≤ |r|) : ∃ n : ℤ, r = n * 2 ^ e := by
  obtain ⟨n, e', hn, rfl⟩ := h
  have hpow : (0 : ℚ) < 2 ^ e' := zpow_pos two_pos _
  have habs : |(n : ℚ) * 2 ^ e'| = |(n : ℚ)| * 2 ^ e' := by rw [abs_mul, abs_of_pos hpow]
  rw [habs] at hr
  rcases lt_or_eq_of_le hn with hlt | heq
  · apply exists_multiple
    have hcast : |(n : ℚ)| < 2 ^ p := by exact_mod_cast hlt
    have hbound : (2 : ℚ) ^ (e + p - 1) < 2 ^ (p + e') := by
      rw [zpow_add₀ two_ne_zero, zpow_natCast]
      exact lt_of_le_of_lt hr (mul_lt_mul_of_pos_right hcast hpow)
    have := (zpow_lt_zpow_iff_right₀ one_lt_two).mp hbound
    omega
  · -- the largest significand, a power of two itself
    have hcast : |(n : ℚ)| = 2 ^ p := by exact_mod_cast heq
    have hbound : (2 : ℚ) ^ (e + p - 1) ≤ 2 ^ (p + e') := by
      rw [zpow_add₀ two_ne_zero (p : ℤ), zpow_natCast, ← hcast]
      exact hr
    have hle := (zpow_le_zpow_iff_right₀ one_lt_two).mp hbound
    obtain ⟨m, hm⟩ := exists_multiple n.sign (show e ≤ p + e' by omega)
    refine ⟨m, hm.symm.trans ?_ |>.symm⟩
    rw [zpow_add₀ two_ne_zero, zpow_natCast, ← mul_assoc]
    congr 1
    rw [← hcast]
    exact_mod_cast Int.sign_mul_abs n

theorem representable_round (p : ℕ) (q : ℚ) : Representable p (round p q) := by
  refine ⟨halfEven (q / quantum p q), Int.log 2 |q| + 1 - p, ?_, rfl⟩
  have hu := quantum_pos p q
  have hlt : |q / quantum p q| < 2 ^ p := by
    rw [abs_div, abs_of_pos hu, div_lt_iff₀ hu]
    exact abs_lt_pow_mul_quantum p q
  have herr := abs_halfEven_sub_le (q / quantum p q)
  have htri := abs_sub_abs_le_abs_sub (halfEven (q / quantum p q) : ℚ) (q / quantum p q)
  have hsum : |(halfEven (q / quantum p q) : ℚ)| < 2 ^ p + 1 := by linarith
  have hint : |halfEven (q / quantum p q)| < 2 ^ p + 1 := by exact_mod_cast hsum
  omega

/-! ### Rounding -/

theorem round_sub (p : ℕ) (q : ℚ) :
    round p q - q = (halfEven (q / quantum p q) - q / quantum p q) * quantum p q := by
  rw [round, sub_mul, div_mul_cancel₀ q (quantum_pos p q).ne']

/-- No multiple of the spacing is nearer. -/
theorem abs_round_sub_le_multiple (p : ℕ) (q : ℚ) (n : ℤ) :
    |round p q - q| ≤ |n * quantum p q - q| := by
  have hu := quantum_pos p q
  have hother : n * quantum p q - q = (n - q / quantum p q) * quantum p q := by
    rw [sub_mul, div_mul_cancel₀ q hu.ne']
  rw [round_sub, hother, abs_mul, abs_mul, abs_of_pos hu]
  exact mul_le_mul_of_nonneg_right (abs_halfEven_sub_le_abs _ n) hu.le

/-- No representable number is nearer. -/
theorem abs_round_sub_le {p : ℕ} (hp : 1 ≤ p) (q : ℚ) {r : ℚ} (hr : Representable p r) :
    |round p q - q| ≤ |r - q| := by
  rcases eq_or_ne q 0 with rfl | hq
  · have hzero : halfEven 0 = 0 := by simpa using halfEven_add 0 le_rfl (.inl one_half_pos)
    rw [round, zero_div, hzero, Int.cast_zero, zero_mul, sub_zero, abs_zero]
    exact abs_nonneg _
  · have hunit : Int.log 2 |q| + 1 - p + p - 1 = Int.log 2 |q| := by omega
    rcases le_or_gt ((2 : ℚ) ^ Int.log 2 |q|) |r| with hlarge | hsmall
    · obtain ⟨n, rfl⟩ := hr.multiple (e := Int.log 2 |q| + 1 - p) hp (by rwa [hunit])
      exact abs_round_sub_le_multiple p q n
    · -- the power of two between them is a multiple of the spacing, and nearer than `r`
      have hle : (2 : ℚ) ^ Int.log 2 |q| ≤ |q| :=
        Int.zpow_log_le_self one_lt_two (abs_pos.mpr hq)
      have hbetween : ∃ c : ℤ, |c * 2 ^ Int.log 2 |q| - q| = |q| - 2 ^ Int.log 2 |q| := by
        rcases lt_or_gt_of_ne hq with hneg | hpos
        · refine ⟨-1, ?_⟩
          rw [abs_of_neg hneg] at hle ⊢
          rw [abs_of_nonneg] <;> push_cast <;> linarith
        · refine ⟨1, ?_⟩
          rw [abs_of_pos hpos] at hle ⊢
          rw [abs_of_nonpos] <;> push_cast <;> linarith
      obtain ⟨c, hc⟩ := hbetween
      obtain ⟨n, hn⟩ := exists_multiple c
        (show Int.log 2 |q| + 1 - p ≤ Int.log 2 |q| by omega)
      calc |round p q - q| ≤ |n * quantum p q - q| := abs_round_sub_le_multiple p q n
        _ = |q| - 2 ^ Int.log 2 |q| := by rw [quantum, ← hn, hc]
        _ ≤ |q| - |r| := by linarith
        _ ≤ |r - q| := by rw [abs_sub_comm]; exact abs_sub_abs_le_abs_sub q r

theorem round_eq_self {p : ℕ} (hp : 1 ≤ p) {q : ℚ} (h : Representable p q) : round p q = q := by
  have hnear := abs_round_sub_le hp q h
  rw [sub_self, abs_zero] at hnear
  exact sub_eq_zero.mp (abs_eq_zero.mp (le_antisymm hnear (abs_nonneg _)))

theorem round_mono {p : ℕ} (hp : 1 ≤ p) : Monotone (round p) := by
  intro q q' hle
  rcases eq_or_lt_of_le hle with rfl | hlt
  · exact le_rfl
  · by_contra hgt
    push Not at hgt
    -- each is at least as near to its own image as to the other's
    have hq := abs_round_sub_le hp q (representable_round p q')
    have hq' := abs_round_sub_le hp q' (representable_round p q)
    rcases abs_cases (round p q - q) with h1 | h1 <;>
      rcases abs_cases (round p q' - q) with h2 | h2 <;>
      rcases abs_cases (round p q' - q') with h3 | h3 <;>
      rcases abs_cases (round p q - q') with h4 | h4 <;> linarith

/-! ### Near a multiple of the spacing -/

theorem representable_mul {p : ℕ} {n : ℤ} (h : |n| ≤ 2 ^ p) (e : ℤ) :
    Representable p (n * 2 ^ e) := ⟨n, e, h, rfl⟩

theorem Representable.mono {p p' : ℕ} (hp : p ≤ p') {q : ℚ} (h : Representable p q) :
    Representable p' q := by
  obtain ⟨n, e, hn, rfl⟩ := h
  exact representable_mul (hn.trans (pow_le_pow_right₀ one_le_two hp)) e

theorem round_mul {p : ℕ} {a : ℚ} (e : ℤ) (hlo : (2 : ℚ) ^ ((p : ℤ) - 1) ≤ |a|)
    (hhi : |a| < 2 ^ p) : round p (a * 2 ^ e) = halfEven a * 2 ^ e := by
  have hu : (0 : ℚ) < 2 ^ e := zpow_pos two_pos _
  have habs : |a * 2 ^ e| = |a| * 2 ^ e := by rw [abs_mul, abs_of_pos hu]
  have hquantum : quantum p (a * 2 ^ e) = 2 ^ e := by
    apply quantum_eq
    · rw [habs, show e + p - 1 = (p : ℤ) - 1 + e by ring, zpow_add₀ two_ne_zero]
      exact mul_le_mul_of_nonneg_right hlo hu.le
    · rw [habs, add_comm, zpow_add₀ two_ne_zero, zpow_natCast]
      exact mul_lt_mul_of_pos_right hhi hu
  rw [round, hquantum, mul_div_cancel_right₀ a hu.ne']

/-- Up to magnitude `2 ^ p`, rounding moves a number by half a unit at most. -/
theorem abs_round_sub_le_half {p : ℕ} (hp : 1 ≤ p) {a : ℚ} (e : ℤ) (h : |a| ≤ 2 ^ p) :
    |round p (a * 2 ^ e) - a * 2 ^ e| ≤ 2 ^ e / 2 := by
  have hu : (0 : ℚ) < 2 ^ e := zpow_pos two_pos _
  have herr := abs_halfEven_sub_le a
  have hint : |halfEven a| ≤ 2 ^ p := by
    have htri := abs_sub_abs_le_abs_sub (halfEven a : ℚ) a
    have hlt : |(halfEven a : ℚ)| < 2 ^ p + 1 := by linarith
    have hlt' : |halfEven a| < 2 ^ p + 1 := by exact_mod_cast hlt
    omega
  calc |round p (a * 2 ^ e) - a * 2 ^ e| ≤ |halfEven a * 2 ^ e - a * 2 ^ e| :=
        abs_round_sub_le hp _ (representable_mul hint e)
    _ = |(halfEven a : ℚ) - a| * 2 ^ e := by rw [← sub_mul, abs_mul, abs_of_pos hu]
    _ ≤ 1 / 2 * 2 ^ e := mul_le_mul_of_nonneg_right herr hu.le
    _ = 2 ^ e / 2 := by ring

/-! ### Roundings in general -/

/-- Monotone, and at least `p` bits wide. -/
structure IsRounding (p : ℕ) (r : ℚ → ℚ) : Prop where
  mono : Monotone r
  fixes : ∀ q, Representable p q → r q = q

theorem isRounding_round {p : ℕ} (hp : 1 ≤ p) : IsRounding p (round p) :=
  ⟨round_mono hp, fun _ => round_eq_self hp⟩

theorem isRounding_id (p : ℕ) : IsRounding p id := ⟨monotone_id, fun _ _ => rfl⟩

theorem IsRounding.of_le {p p' : ℕ} {r : ℚ → ℚ} (h : IsRounding p' r) (hp : p ≤ p') :
    IsRounding p r := ⟨h.mono, fun q hq => h.fixes q (hq.mono hp)⟩

theorem IsRounding.mul {p : ℕ} {r : ℚ → ℚ} (h : IsRounding p r) {n : ℤ} (hn : |n| ≤ 2 ^ p)
    (e : ℤ) : r (n * 2 ^ e) = n * 2 ^ e := h.fixes _ (representable_mul hn e)

/-- Parts of a unit, by a power of two. -/
theorem IsRounding.mul_part {p : ℕ} {r : ℚ → ℚ} (h : IsRounding p r) {n : ℤ}
    (hn : |n| ≤ 2 ^ p) (d : ℕ) (e : ℤ) : r (n / 2 ^ d * 2 ^ e) = n / 2 ^ d * 2 ^ e := by
  have hform : (n : ℚ) / 2 ^ d * 2 ^ e = n * 2 ^ (e - d) := by
    rw [zpow_sub₀ two_ne_zero, zpow_natCast]
    ring
  rw [hform]
  exact h.mul hn _

theorem IsRounding.zero {p : ℕ} {r : ℚ → ℚ} (h : IsRounding p r) : r 0 = 0 := by
  apply h.fixes
  exact ⟨0, 0, by positivity, by simp⟩

theorem IsRounding.nonneg {p : ℕ} {r : ℚ → ℚ} (h : IsRounding p r) {q : ℚ} (hq : 0 ≤ q) :
    0 ≤ r q := by
  rw [← h.zero]
  exact h.mono hq

end Rounding
