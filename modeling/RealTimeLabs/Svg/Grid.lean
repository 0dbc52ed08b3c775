import Mathlib.Algebra.Order.Archimedean.Basic
import RealTimeLabs.Svg.Drawing

/-! Whether the loops over the grid lines end.

In exact arithmetic each takes nine rounds. Their counter is a `float`, though, and adding
a tenth of the span to it only helps as long as that is more than half the spacing of the
`float`s around it (`grain`). With less than that the counter comes to a number that it
does not leave any more; with exactly half it comes to the next even one. `Advances` says
which spans are wide enough, and names the one exception, where the counter starts on the
last coarse number before a finer range. -/
namespace RealTimeLabs.Svg
open Rounding

/-! ### Loops -/

/-- Some round of a loop finds its counter at the bound. -/
def Ends (max : ℚ) (next : ℚ → ℚ) (t : ℚ) : Prop := ∃ n, max ≤ next^[n] t

section
variable {max : ℚ} {next : ℚ → ℚ}

/-- A monotone step that goes nowhere from some point below the bound. -/
theorem not_ends_of_stuck {stop t : ℚ} (hmono : Monotone next) (hstop : next stop ≤ stop)
    (ht : t ≤ stop) (hmax : stop < max) : ¬ Ends max next t := by
  have hbelow (n : ℕ) : next^[n] t ≤ stop := by
    induction n with
    | zero => exact ht
    | succ n ih =>
      rw [Function.iterate_succ_apply']
      exact (hmono ih).trans hstop
  intro ⟨n, hn⟩
  exact absurd (hn.trans (hbelow n)) (not_le.mpr hmax)

/-- A step that gains a fixed amount wherever it does not reach the bound. -/
theorem ends_of_gain {start gain t : ℚ} (hpos : 0 < gain)
    (h : ∀ t, start ≤ t → t < max → max ≤ next t ∨ t + gain ≤ next t) (ht : start ≤ t) :
    Ends max next t := by
  obtain ⟨k, hk⟩ := Archimedean.arch (max - t) hpos
  rw [nsmul_eq_mul] at hk
  induction k generalizing t with
  | zero => exact ⟨0, by simp only [Function.iterate_zero, id_eq]; push_cast at hk; linarith⟩
  | succ k ih =>
    by_cases hmax : max ≤ t
    · exact ⟨0, hmax⟩
    · rcases h t ht (lt_of_not_ge hmax) with hreach | hgain
      · exact ⟨1, hreach⟩
      · push_cast at hk
        obtain ⟨n, hn⟩ := ih (t := next t) (by linarith) (by linarith)
        exact ⟨n + 1, hn⟩

end

/-! ### One step -/

/-- The counter after a step of the loops; `wide` is the precision of the addition. -/
def stepBy (wide : ℚ → ℚ) (s t : ℚ) : ℚ := float (wide (t + s))

theorem isRounding_float : IsRounding 24 float := isRounding_round (by decide)

theorem isRounding_double : IsRounding 53 double := isRounding_round (by decide)

section
variable {wide : ℚ → ℚ} (hw : IsRounding 53 wide)
include hw

theorem stepBy_mono (s : ℚ) : Monotone (stepBy wide s) := fun _ _ h =>
  isRounding_float.mono (hw.mono (add_le_add_left h s))

/-- A number of units with all its 24 bits, of which a half more still has 24. -/
def Coarse (k : ℤ) : Prop := 2 ^ 23 ≤ k ∧ k < 2 ^ 24 ∨ -2 ^ 24 ≤ k ∧ k < -2 ^ 23

omit hw in
theorem Coarse.bounds {k : ℤ} (h : Coarse k) {f : ℚ} (h0 : 0 < f) (hf : f ≤ 1 / 2) :
    (2 : ℚ) ^ ((24 : ℤ) - 1) ≤ |(k : ℚ) + f| ∧ |(k : ℚ) + f| < 2 ^ 24 := by
  have hpow : (2 : ℚ) ^ ((24 : ℤ) - 1) = 8388608 := by norm_num
  rw [hpow]
  rcases h with ⟨hlo, hhi⟩ | ⟨hlo, hhi⟩
  · have hlo' : (8388608 : ℚ) ≤ k := by exact_mod_cast hlo
    have hhi' : (k : ℚ) + 1 ≤ 16777216 := by exact_mod_cast hhi
    rw [abs_of_nonneg (by linarith)]
    constructor <;> linarith
  · have hlo' : (-16777216 : ℚ) ≤ k := by exact_mod_cast hlo
    have hhi' : (k : ℚ) + 1 ≤ -8388608 := by exact_mod_cast hhi
    rw [abs_of_nonpos (by linarith)]
    constructor <;> linarith

/-- A fraction of a unit, in thirty-seconds, is exact in 53 bits. -/
theorem wide_fraction {k j : ℤ} (hk : |k| ≤ 2 ^ 24) (hj : |j| ≤ 32) (e : ℤ) :
    wide ((k + j / 32) * 2 ^ e) = (k + j / 32) * 2 ^ e := by
  have hform : (k : ℚ) + j / 32 = ((32 * k + j : ℤ) : ℚ) / 2 ^ 5 := by
    push_cast
    ring
  rw [hform]
  apply hw.mul_part
  rw [abs_le] at *
  constructor <;> norm_num at * <;> omega

/-- Less than half a unit is lost, and so is a half on an even number. -/
theorem stepBy_stays {k e : ℤ} (hk : Coarse k) {s : ℚ}
    (hs : s ≤ 15 / 32 * 2 ^ e ∨ s ≤ 1 / 2 * 2 ^ e ∧ Even k) :
    stepBy wide s (k * 2 ^ e) ≤ k * 2 ^ e := by
  have habs : |k| ≤ 2 ^ 24 := by
    rw [abs_le]
    rcases hk with h | h <;> constructor <;> omega
  -- it is enough to look at the largest step
  have hle {j : ℤ} {f : ℚ} (hf : (j : ℚ) / 32 = f) (hj : |j| ≤ 32) (h0 : 0 < f)
      (hhalf : f ≤ 1 / 2) (heven : f < 1 / 2 ∨ f = 1 / 2 ∧ Even k) (hsf : s ≤ f * 2 ^ e) :
      stepBy wide s (k * 2 ^ e) ≤ k * 2 ^ e := by
    have hsum : (k : ℚ) * 2 ^ e + s ≤ (k + f) * 2 ^ e := by linarith
    have hwide : wide ((k + f) * 2 ^ e) = (k + f) * 2 ^ e := by
      rw [← hf]
      exact wide_fraction hw habs hj e
    have hround : float ((k + f) * 2 ^ e) = k * 2 ^ e := by
      obtain ⟨hlo, hhi⟩ := hk.bounds h0 hhalf
      rw [float, round_mul e hlo hhi, halfEven_add k h0.le heven]
    calc stepBy wide s (k * 2 ^ e) ≤ float (wide ((k + f) * 2 ^ e)) :=
          isRounding_float.mono (hw.mono hsum)
      _ = k * 2 ^ e := by rw [hwide, hround]
  rcases hs with hs | ⟨hs, heven⟩
  · exact hle (j := 15) (by norm_num) (by norm_num) (by norm_num) (by norm_num)
      (.inl (by norm_num)) hs
  · exact hle (j := 16) (by norm_num) (by norm_num) (by norm_num) le_rfl (.inr ⟨rfl, heven⟩) hs

/-- More than half a unit is a gain, up to the end of the binade. -/
theorem stepBy_gains {e : ℤ} {s t max : ℚ} (hs : 17 / 32 * 2 ^ e ≤ s)
    (ht : -2 ^ 24 * 2 ^ e ≤ t) (hmax : max ≤ 2 ^ 24 * 2 ^ e) :
    max ≤ stepBy wide s t ∨ t + 1 / 64 * 2 ^ e ≤ stepBy wide s t := by
  have hu : (0 : ℚ) < 2 ^ e := zpow_pos two_pos _
  obtain ⟨r, hr⟩ : ∃ r, t + s = r * 2 ^ e := ⟨(t + s) / 2 ^ e, (div_mul_cancel₀ _ hu.ne').symm⟩
  have hrlo : -2 ^ 24 ≤ r := by nlinarith
  rcases le_or_gt ((2 : ℚ) ^ 24) r with hlarge | hsmall
  · left
    have htop : stepBy wide s t ≥ float (wide ((2 ^ 24 : ℤ) * 2 ^ e)) := by
      apply isRounding_float.mono (hw.mono ?_)
      rw [hr]
      push_cast
      exact mul_le_mul_of_nonneg_right hlarge hu.le
    rw [hw.mul (by norm_num), isRounding_float.mul (by norm_num)] at htop
    push_cast at htop
    linarith
  · right
    -- below the sum by less than a sixty-fourth, and exact in 53 bits
    have hfloor := Int.floor_le (64 * r)
    have hnext := Int.lt_floor_add_one (64 * r)
    obtain ⟨k, hk⟩ : ∃ k, k = ⌊64 * r⌋ := ⟨_, rfl⟩
    rw [← hk] at hfloor hnext
    have hklo : -2 ^ 30 ≤ k := by
      have : (-2 ^ 30 : ℚ) < k + 1 := by linarith
      have : (-2 ^ 30 : ℤ) < k + 1 := by exact_mod_cast this
      omega
    have hkhi : k ≤ 2 ^ 30 := by
      have : (k : ℚ) ≤ 2 ^ 30 := by linarith
      exact_mod_cast this
    have hwide : wide (k / 64 * 2 ^ e) = k / 64 * 2 ^ e := by
      have hbits : |k| ≤ 2 ^ 53 := by
        rw [abs_le]
        constructor <;> norm_num <;> omega
      have hpart := hw.mul_part hbits 6 e
      norm_num only at hpart
      exact hpart
    have hbelow : float (k / 64 * 2 ^ e) ≤ stepBy wide s t := by
      rw [← hwide]
      apply isRounding_float.mono (hw.mono ?_)
      rw [hr]
      exact mul_le_mul_of_nonneg_right (by linarith) hu.le
    have hnear := abs_round_sub_le_half (p := 24) (by decide) (a := k / 64) e (by
      have hlo : (-2 ^ 30 : ℚ) ≤ k := by exact_mod_cast hklo
      have hhi : (k : ℚ) ≤ 2 ^ 30 := by exact_mod_cast hkhi
      rw [abs_le]
      constructor <;> norm_num at * <;> linarith)
    have hhalf := (abs_le.mp hnear).1
    change -(2 ^ e / 2) ≤ float _ - _ at hhalf
    have hlost : r * 2 ^ e < (k / 64 + 1 / 64) * 2 ^ e :=
      mul_lt_mul_of_pos_right (by linarith) hu
    linarith

/-- Half a unit on an odd number goes up to the next. -/
theorem stepBy_odd {k e : ℤ} (hk : Coarse k) (hodd : ¬ Even k) :
    stepBy wide (1 / 2 * 2 ^ e) (k * 2 ^ e) = (k + 1) * 2 ^ e := by
  have habs : |k| ≤ 2 ^ 24 := by
    rw [abs_le]
    rcases hk with h | h <;> constructor <;> omega
  have hwide := wide_fraction hw habs (j := 16) (by norm_num) e
  obtain ⟨hlo, hhi⟩ := hk.bounds one_half_pos le_rfl
  have hsum : (k : ℚ) * 2 ^ e + 1 / 2 * 2 ^ e = (k + ((16 : ℤ) : ℚ) / 32) * 2 ^ e := by
    push_cast
    ring
  rw [stepBy, hsum, hwide, ← hsum, ← add_mul, float, round_mul e hlo hhi, halfEven_add_half hodd]
  push_cast
  ring

/-- Where the spacing is half a unit or less, half a unit is exact. -/
theorem stepBy_fine {k e : ℤ} (hk : |k + 1| ≤ 2 ^ 24) :
    stepBy wide (1 / 2 * 2 ^ e) (k / 2 * 2 ^ e) = (k + 1) / 2 * 2 ^ e := by
  have hform : (k : ℚ) / 2 * 2 ^ e + 1 / 2 * 2 ^ e = ((k + 1 : ℤ) : ℚ) / 2 ^ 1 * 2 ^ e := by
    push_cast
    ring
  have hdouble : |k + 1| ≤ 2 ^ 53 := hk.trans (by norm_num)
  rw [stepBy, hform, hw.mul_part hdouble, isRounding_float.mul_part hk, ← hform]
  ring

end

/-! ### Which spans are wide enough -/

/-- The spacing of the `float`s just below the larger magnitude. -/
def grain (min max : ℚ) : ℚ := 2 ^ (Int.clog 2 (Max.max |min| |max|) - 24)

/-- The loop from `min` to `max` has nothing to do, or a tenth of the span is more than half
the spacing; or it is just half of it, from the last number before a finer range on. -/
def Advances (min max : ℚ) : Prop :=
  max ≤ min ∨ 5 * grain min max < max - min ∨
    min = -(2 ^ 23 + 1) * grain min max ∧ max - min = 5 * grain min max

/-- A tenth of a span, as the loops compute it: what matters of it at the unit `u`. -/
structure IsTenth (u span s : ℚ) : Prop where
  nonneg : 0 ≤ s
  large : 11 / 2 * u ≤ span → 17 / 32 * u ≤ s
  small : span ≤ 9 / 2 * u → s ≤ 15 / 32 * u
  half : span = 5 * u → s = 1 / 2 * u

theorem isTenth_rounding {r : ℚ → ℚ} (hr : IsRounding 24 r) {e : ℤ} {span : ℚ}
    (hspan : 0 ≤ span) : IsTenth (2 ^ e) span (r (float span / 10)) := by
  have hu : (0 : ℚ) < 2 ^ e := zpow_pos two_pos _
  -- multiples of a thirty-second of the unit are exact
  have hexact {r : ℚ → ℚ} (hr : IsRounding 24 r) {n : ℤ} (hn : |n| ≤ 2 ^ 24) :
      r (n / 32 * 2 ^ e) = n / 32 * 2 ^ e := by
    have hpart := hr.mul_part hn 5 e
    norm_num only at hpart
    exact hpart
  refine ⟨hr.nonneg (div_nonneg (isRounding_float.nonneg hspan) (by norm_num)),
    fun h => ?_, fun h => ?_, fun h => ?_⟩
  · have hfloat := isRounding_float.mono h
    have hspan' := hexact isRounding_float (n := 176) (by norm_num)
    have hten := hr.mono (show ((17 : ℤ) : ℚ) / 32 * 2 ^ e ≤ float span / 10 by
      rw [show (11 : ℚ) / 2 * 2 ^ e = (176 : ℤ) / 32 * 2 ^ e by push_cast; ring, hspan'] at hfloat
      push_cast at hfloat ⊢
      linarith)
    rw [hexact hr (by norm_num)] at hten
    push_cast at hten
    exact hten
  · have hfloat := isRounding_float.mono h
    have hspan' := hexact isRounding_float (n := 144) (by norm_num)
    have hten := hr.mono (show float span / 10 ≤ ((15 : ℤ) : ℚ) / 32 * 2 ^ e by
      rw [show (9 : ℚ) / 2 * 2 ^ e = (144 : ℤ) / 32 * 2 ^ e by push_cast; ring, hspan'] at hfloat
      push_cast at hfloat ⊢
      linarith)
    rw [hexact hr (by norm_num)] at hten
    push_cast at hten
    exact hten
  · have hspan' := hexact isRounding_float (n := 160) (by norm_num)
    have hhalf := hexact hr (n := 16) (by norm_num)
    have hfloat : float span = 5 * 2 ^ e := by
      rw [h, show (5 : ℚ) * 2 ^ e = (160 : ℤ) / 32 * 2 ^ e by push_cast; ring, hspan']
    rw [hfloat, show (5 : ℚ) * 2 ^ e / 10 = (16 : ℤ) / 32 * 2 ^ e by push_cast; ring, hhalf]
    push_cast
    ring

/-! ### The ends of a plot, in units -/

theorem whole_of_large {q : ℚ} (hq : Representable 24 q) {e : ℤ}
    (hlarge : 2 ^ 23 * 2 ^ e ≤ |q|) : ∃ n : ℤ, q = n * 2 ^ e := by
  apply hq.multiple (by decide)
  rw [show e + (24 : ℕ) - 1 = 23 + e by push_cast; ring, zpow_add₀ two_ne_zero]
  exact hlarge

theorem halves_of_large {q : ℚ} (hq : Representable 24 q) {e : ℤ}
    (hlarge : 2 ^ 22 * 2 ^ e ≤ |q|) : ∃ n : ℤ, q = n / 2 * 2 ^ e := by
  obtain ⟨n, hn⟩ := hq.multiple (e := e - 1) (by decide) (by
    rw [show e - 1 + (24 : ℕ) - 1 = 22 + e by push_cast; ring, zpow_add₀ two_ne_zero]
    exact hlarge)
  refine ⟨n, hn.trans ?_⟩
  rw [zpow_sub₀ two_ne_zero]
  ring

/-- A number below a whole number of units, where that is coarse, is a unit below at least. -/
theorem le_pred_of_lt {q : ℚ} (hq : Representable 24 q) {n e : ℤ} (hn : 2 ^ 23 < n)
    (hlt : q < n * 2 ^ e) : q ≤ (n - 1) * 2 ^ e := by
  have hu : (0 : ℚ) < 2 ^ e := zpow_pos two_pos _
  rcases le_or_gt ((2 : ℚ) ^ 23 * 2 ^ e) q with hlarge | hsmall
  · obtain ⟨k, rfl⟩ := whole_of_large hq (hlarge.trans (le_abs_self q))
    have hkn : (k : ℚ) < n := lt_of_mul_lt_mul_right hlt hu.le
    have hint : k < n := by exact_mod_cast hkn
    have hpred : (k : ℚ) ≤ ((n - 1 : ℤ) : ℚ) := Int.cast_le.mpr (by omega)
    push_cast at hpred
    exact mul_le_mul_of_nonneg_right hpred hu.le
  · have hpred : (((2 : ℤ) ^ 23 : ℤ) : ℚ) ≤ ((n - 1 : ℤ) : ℚ) := Int.cast_le.mpr (by omega)
    push_cast at hpred
    exact hsmall.le.trans (mul_le_mul_of_nonneg_right hpred hu.le)

theorem two_halves (n : ℤ) : ((2 * n : ℤ) : ℚ) / 2 = n := by
  push_cast
  ring

/-- Two ends in units and half units, their distance in half units. -/
theorem gap_bounds {a b e : ℤ} (hlt : (a : ℚ) / 2 * 2 ^ e < b / 2 * 2 ^ e)
    (hnear : (b : ℚ) / 2 * 2 ^ e - a / 2 * 2 ^ e < 11 / 2 * 2 ^ e) : a < b ∧ b - a < 11 := by
  have hu : (0 : ℚ) < 2 ^ e := zpow_pos two_pos _
  rw [← sub_mul] at hnear
  have hab : (a : ℚ) / 2 < b / 2 := lt_of_mul_lt_mul_right hlt hu.le
  have hgap : (b : ℚ) / 2 - a / 2 < 11 / 2 := lt_of_mul_lt_mul_right hnear hu.le
  constructor
  · have : (a : ℚ) < b := by linarith
    exact_mod_cast this
  · have : (b : ℚ) - a < 11 := by linarith
    exact_mod_cast this

section
variable {m M : ℚ} {e : ℤ} (he : e = Int.clog 2 (max |m| |M|) - 24) (hlt : m < M)
include he hlt

theorem units_bounds : -2 ^ 24 * 2 ^ e ≤ m ∧ M ≤ 2 ^ 24 * 2 ^ e ∧
    (2 ^ 23 * 2 ^ e < M ∨ m < -2 ^ 23 * 2 ^ e) := by
  have htop : (2 : ℚ) ^ 24 * 2 ^ e = 2 ^ Int.clog 2 (max |m| |M|) := by
    rw [he, zpow_sub₀ two_ne_zero]
    norm_num
    ring
  have hpos : 0 < max |m| |M| := by
    rcases eq_or_ne m 0 with rfl | hm
    · exact lt_max_of_lt_right (abs_pos.mpr hlt.ne')
    · exact lt_max_of_lt_left (abs_pos.mpr hm)
  have hle := Int.self_le_zpow_clog (b := 2) (by decide) (max |m| |M|)
  have hgt := Int.zpow_pred_clog_lt_self (b := 2) (by decide) hpos
  have hlow : (2 : ℚ) ^ 23 * 2 ^ e = 2 ^ (Int.clog 2 (max |m| |M|) - 1) := by
    rw [he, zpow_sub₀ two_ne_zero, zpow_sub₀ two_ne_zero]
    norm_num
    ring
  push_cast at hle hgt
  rw [← htop] at hle
  rw [← hlow] at hgt
  obtain ⟨hm, hM⟩ := max_le_iff.mp hle
  refine ⟨by linarith [neg_abs_le m], (le_abs_self M).trans hM, ?_⟩
  rcases lt_max_iff.mp hgt with h | h
  · rcases lt_abs.mp h with h | h
    · exact .inl (h.trans hlt)
    · exact .inr (by linarith)
  · rcases lt_abs.mp h with h | h
    · exact .inl h
    · exact .inr (by linarith)

/-- Ends of a short span are multiples of half a unit, the outer one of a whole. -/
theorem units_of_near (hm : Representable 24 m) (hM : Representable 24 M)
    (hnear : M - m < 11 / 2 * 2 ^ e) : ∃ n j : ℤ, 0 < j ∧ j < 11 ∧
      (M = n * 2 ^ e ∧ m = (n - j / 2) * 2 ^ e ∧ 2 ^ 23 < n ∧ n ≤ 2 ^ 24 ∨
        m = n * 2 ^ e ∧ M = (n + j / 2) * 2 ^ e ∧ -2 ^ 24 ≤ n ∧ n < -2 ^ 23) := by
  obtain ⟨hlo, hhi, houter⟩ := units_bounds he hlt
  have hu : (0 : ℚ) < 2 ^ e := zpow_pos two_pos _
  rcases houter with hP | hN
  · have hlarge : 2 ^ 23 * 2 ^ e ≤ |M| := hP.le.trans (le_abs_self M)
    have hinner : 2 ^ 22 * 2 ^ e ≤ |m| := by linarith [le_abs_self m]
    obtain ⟨n, rfl⟩ := whole_of_large hM hlarge
    obtain ⟨i, rfl⟩ := halves_of_large hm hinner
    have hn : (2 : ℚ) ^ 23 < n := lt_of_mul_lt_mul_right hP hu.le
    have hn' : (n : ℚ) ≤ 2 ^ 24 := le_of_mul_le_mul_right hhi hu
    rw [← two_halves n] at hlt hnear
    obtain ⟨h0, h11⟩ := gap_bounds hlt hnear
    refine ⟨n, 2 * n - i, by omega, h11,
      .inl ⟨rfl, ?_, by exact_mod_cast hn, by exact_mod_cast hn'⟩⟩
    push_cast
    ring
  · have hlarge : 2 ^ 23 * 2 ^ e ≤ |m| := by linarith [neg_abs_le m]
    have hinner : 2 ^ 22 * 2 ^ e ≤ |M| := by linarith [neg_abs_le M]
    obtain ⟨n, rfl⟩ := whole_of_large hm hlarge
    obtain ⟨i, rfl⟩ := halves_of_large hM hinner
    have hn : (n : ℚ) < -2 ^ 23 := lt_of_mul_lt_mul_right hN hu.le
    have hn' : (-2 ^ 24 : ℚ) ≤ n := le_of_mul_le_mul_right hlo hu
    rw [← two_halves n] at hlt hnear
    obtain ⟨h0, h11⟩ := gap_bounds hlt hnear
    refine ⟨n, i - 2 * n, by omega, h11,
      .inr ⟨rfl, ?_, by exact_mod_cast hn', by exact_mod_cast hn⟩⟩
    push_cast
    ring

end

/-! ### The loops -/

section
variable {wide : ℚ → ℚ} (hw : IsRounding 53 wide) {m M : ℚ} {e : ℤ} {s₀ s : ℚ}
  (h₀ : IsTenth (2 ^ e) (M - m) s₀) (h : IsTenth (2 ^ e) (M - m) s)
include hw h₀ h

/-- A number of units, at least the start and below the end, that neither step leaves. -/
theorem not_ends_of_stays {k : ℤ} (hk : Coarse k) (hstart : m ≤ k * 2 ^ e)
    (hend : k * 2 ^ e < M)
    (hshort : M - m ≤ 9 / 2 * 2 ^ e ∨ M - m = 5 * 2 ^ e ∧ Even k) :
    ¬ Ends M (stepBy wide s) (stepBy id s₀ m) := by
  have hstays {wide : ℚ → ℚ} (hw : IsRounding 53 wide) {s : ℚ}
      (h : IsTenth (2 ^ e) (M - m) s) : stepBy wide s (k * 2 ^ e) ≤ k * 2 ^ e := by
    apply stepBy_stays hw hk
    rcases hshort with hsmall | ⟨hhalf, heven⟩
    · exact .inl (h.small hsmall)
    · exact .inr ⟨(h.half hhalf).le, heven⟩
  have hfirst := (stepBy_mono (isRounding_id 53) s₀ hstart).trans (hstays (isRounding_id 53) h₀)
  exact not_ends_of_stuck (stepBy_mono hw s) (hstays hw h) hfirst hend

omit hw h in
theorem first_ge (hm : Representable 24 m) : m ≤ stepBy id s₀ m := by
  have hle : m ≤ m + s₀ := le_add_of_nonneg_right h₀.nonneg
  calc m = float m := (isRounding_float.fixes m hm).symm
    _ ≤ float (m + s₀) := isRounding_float.mono hle

theorem ends_of_wide (hm : Representable 24 m) (hlo : -2 ^ 24 * 2 ^ e ≤ m)
    (hhi : M ≤ 2 ^ 24 * 2 ^ e) (hwide : 11 / 2 * 2 ^ e ≤ M - m) :
    Ends M (stepBy wide s) (stepBy id s₀ m) := by
  have hu : (0 : ℚ) < 2 ^ e := zpow_pos two_pos _
  have hgain (t : ℚ) (ht : m ≤ t) (_ : t < M) :
      M ≤ stepBy wide s t ∨ t + 1 / 64 * 2 ^ e ≤ stepBy wide s t :=
    stepBy_gains hw (h.large hwide) (hlo.trans ht) hhi
  exact ends_of_gain (by positivity) hgain (first_ge h₀ hm)

/-- From the last coarse number before a finer range, half units are enough. -/
theorem ends_of_fine (hm : m = -(2 ^ 23 + 1) * 2 ^ e) (hspan : M - m = 5 * 2 ^ e) :
    Ends M (stepBy wide s) (stepBy id s₀ m) := by
  have hfirst : stepBy id s₀ m = ((-2 ^ 24 : ℤ) : ℚ) / 2 * 2 ^ e := by
    have hodd := stepBy_odd (isRounding_id 53) (k := -(2 ^ 23 + 1)) (e := e)
      (.inr ⟨by norm_num, by norm_num⟩) (by decide)
    have hstart : m = ((-(2 ^ 23 + 1) : ℤ) : ℚ) * 2 ^ e := by
      rw [hm]
      push_cast
      ring
    rw [h₀.half hspan, hstart, hodd]
    push_cast
    ring
  have hrun (n : ℕ) (hn : n ≤ 8) :
      (stepBy wide s)^[n] (stepBy id s₀ m) = ((-2 ^ 24 + n : ℤ) : ℚ) / 2 * 2 ^ e := by
    induction n with
    | zero => rw [Function.iterate_zero, id_eq, hfirst, Nat.cast_zero, add_zero]
    | succ n ih =>
      have hfine := stepBy_fine hw (k := -2 ^ 24 + n) (e := e) (by
        rw [abs_le]
        constructor <;> norm_num <;> omega)
      rw [Function.iterate_succ_apply', ih (by omega), h.half hspan, hfine]
      push_cast
      ring
  refine ⟨8, ?_⟩
  rw [hrun 8 le_rfl]
  push_cast
  linarith

/-- With a step of just half a unit, it depends on where the loop starts. -/
theorem ends_iff_of_five (hfive : M - m = 5 * 2 ^ e) {n : ℤ}
    (hplace : M = n * 2 ^ e ∧ 2 ^ 23 < n ∧ n ≤ 2 ^ 24 ∨
      m = n * 2 ^ e ∧ -2 ^ 24 ≤ n ∧ n < -2 ^ 23) :
    Ends M (stepBy wide s) (stepBy id s₀ m) ↔ m = -(2 ^ 23 + 1) * 2 ^ e := by
  have hu : (0 : ℚ) < 2 ^ e := zpow_pos two_pos _
  have hstays {k : ℤ} (hk : Coarse k) (heven : Even k) (hstart : m ≤ k * 2 ^ e)
      (hend : k * 2 ^ e < M) : ¬ Ends M (stepBy wide s) (stepBy id s₀ m) :=
    not_ends_of_stays hw h₀ h hk hstart hend (.inr ⟨hfive, heven⟩)
  rcases hplace with ⟨hM, hn, hn'⟩ | ⟨hm, hn, hn'⟩
  · refine iff_of_false ?_ fun hexc => ?_
    · -- the even one of the two numbers below the end
      rcases Int.even_or_odd (n - 1) with heven | hodd
      · apply hstays (.inl ⟨by omega, by omega⟩) heven <;> push_cast <;> linarith
      · have heven : Even (n - 2) := by
          obtain ⟨k, hk⟩ := hodd
          exact ⟨k, by omega⟩
        have hne : n - 1 ≠ 2 ^ 23 := by
          intro he
          rw [he] at hodd
          exact absurd hodd (by decide)
        apply hstays (.inl ⟨by omega, by omega⟩) heven <;> push_cast <;> linarith
    · have hcast : (n : ℚ) = -8388604 := mul_right_cancel₀ hu.ne' (by linarith)
      have hint : n = -8388604 := by exact_mod_cast hcast
      omega
  · rcases eq_or_ne n (-(2 ^ 23 + 1)) with rfl | hne
    · have hexc : m = -(2 ^ 23 + 1) * 2 ^ e := by
        rw [hm]
        push_cast
        ring
      exact iff_of_true (ends_of_fine hw h₀ h hexc hfive) hexc
    · refine iff_of_false ?_ fun hexc => hne ?_
      · -- the even one of the start and the number above it
        rcases Int.even_or_odd n with heven | hodd
        · exact hstays (.inr ⟨hn, hn'⟩) heven hm.le (by linarith)
        · have heven : Even (n + 1) := hodd.add_one
          apply hstays (.inr ⟨by omega, by omega⟩) heven <;> push_cast <;> linarith
      · have hcast : (n : ℚ) = -8388609 := mul_right_cancel₀ hu.ne' (by linarith)
        have hint : n = -8388609 := by exact_mod_cast hcast
        omega

end

/-- A loop over grid lines ends exactly when it advances. -/
theorem ends_iff_advances {wide : ℚ → ℚ} (hw : IsRounding 53 wide) {m M s₀ s : ℚ}
    (hm : Representable 24 m) (hM : Representable 24 M)
    (h₀ : ∀ e : ℤ, IsTenth (2 ^ e) (M - m) s₀) (h : ∀ e : ℤ, IsTenth (2 ^ e) (M - m) s) :
    Ends M (stepBy wide s) (stepBy id s₀ m) ↔ Advances m M := by
  rcases le_or_gt M m with hle | hlt
  · exact iff_of_true ⟨0, hle.trans (first_ge (h₀ 0) hm)⟩ (.inl hle)
  · obtain ⟨e, he⟩ : ∃ e, e = Int.clog 2 (max |m| |M|) - 24 := ⟨_, rfl⟩
    have hgrain : grain m M = 2 ^ e := by rw [grain, he]
    have hu : (0 : ℚ) < 2 ^ e := zpow_pos two_pos _
    obtain ⟨hlo, hhi, -⟩ := units_bounds he hlt
    have hpast : ¬ M ≤ m := not_le.mpr hlt
    simp only [Advances, hgrain, hpast, false_or]
    rcases le_or_gt (11 / 2 * 2 ^ e) (M - m) with hwide | hnear
    · exact iff_of_true (ends_of_wide hw (h₀ e) (h e) hm hlo hhi hwide) (.inl (by linarith))
    · obtain ⟨n, j, hj0, hj11, hplace⟩ := units_of_near he hlt hm hM hnear
      have hspan : M - m = j / 2 * 2 ^ e := by
        rcases hplace with ⟨rfl, rfl, -⟩ | ⟨rfl, rfl, -⟩ <;> ring
      have hstays {k : ℤ} := not_ends_of_stays hw (h₀ e) (h e) (k := k)
      rcases le_or_gt j 9 with hj | hj
      · have hj' : (j : ℚ) ≤ 9 := by exact_mod_cast hj
        have hshort : M - m ≤ 9 / 2 * 2 ^ e := by
          rw [hspan]
          exact mul_le_mul_of_nonneg_right (by linarith) hu.le
        refine iff_of_false ?_ fun hno => ?_
        · rcases hplace with ⟨hMn, -, hn, hn'⟩ | ⟨hmn, -, hn, hn'⟩
          · have hbefore := le_pred_of_lt hm hn (hlt.trans_eq hMn)
            refine hstays (k := n - 1) (.inl ⟨by omega, by omega⟩) ?_ ?_ (.inl hshort)
            · push_cast
              exact hbefore
            · push_cast
              linarith
          · exact hstays (k := n) (.inr ⟨hn, hn'⟩) hmn.le (by linarith) (.inl hshort)
        · rcases hno with h | h <;> linarith
      · obtain rfl : j = 10 := by omega
        have hfive : M - m = 5 * 2 ^ e := by
          rw [hspan]
          push_cast
          ring
        simp only [hfive, lt_irrefl, false_or, and_true]
        apply ends_iff_of_five hw (h₀ e) (h e) hfive (n := n)
        exact hplace.imp (fun h => ⟨h.1, h.2.2⟩) fun h => ⟨h.1, h.2.2⟩

/-! ### The plots -/

/-- The precision in which `height / 10.0` is added. -/
inductive Width where
  | exact
  | double
deriving DecidableEq

def Width.round : Width → ℚ → ℚ
  | .exact => id
  | .double => Svg.double

theorem isRounding_width (w : Width) : IsRounding 53 w.round := by
  cases w with
  | exact => exact isRounding_id 53
  | double => exact isRounding_double

theorem lt_rounded (wide : ℚ → ℚ) (a b : ℚ) : (rounded wide).lt a b = decide (a < b) := rfl

theorem representable_float (q : ℚ) : Representable 24 (float q) := representable_round 24 q

theorem float_ten : float 10 = 10 := isRounding_float.fixes 10 ⟨10, 0, by norm_num, by norm_num⟩

section
variable (wide : ℚ → ℚ) (s : Scaling ℚ)

theorem firstLine_rounded (min span : ℚ) :
    firstLine (rounded wide) min span = stepBy id (float (span / 10)) min := by
  change float (min + float (span / float 10)) = float (min + float (span / 10))
  rw [float_ten]

theorem nextVertical_rounded (width : ℚ) :
    nextVertical (rounded wide) width = stepBy id (float (width / 10)) := by
  funext t
  change float (t + float (width / float 10)) = float (t + float (width / 10))
  rw [float_ten]

theorem nextHorizontal_rounded (height : ℚ) :
    nextHorizontal (rounded wide) height = stepBy wide (wide (height / 10)) := rfl

/-- A loop of the plot, as one of the loops above. -/
theorem counters_rounded_iff (max t : ℚ) (next : ℚ → ℚ) :
    (∃ fuel, (counters (rounded wide) max next fuel t).isSome) ↔ Ends max next t := by
  rw [counters_isSome_iff]
  simp only [lt_rounded, decide_eq_false_iff_not, not_lt]
  rfl

end

/-- The loop of vertical lines, and that of horizontal ones. -/
theorem loops_end_iff (w : Width) {m M : ℚ} (hm : Representable 24 m) (hM : Representable 24 M)
    (hle : m ≤ M) :
    (Ends M (nextVertical (rounded w.round) (float (M - m)))
        (firstLine (rounded w.round) m (float (M - m))) ↔ Advances m M) ∧
      (Ends M (nextHorizontal (rounded w.round) (float (M - m)))
        (firstLine (rounded w.round) m (float (M - m))) ↔ Advances m M) := by
  have hspan : 0 ≤ M - m := sub_nonneg.mpr hle
  have h24 : IsRounding 24 w.round := (isRounding_width w).of_le (by decide)
  have hfirst (e : ℤ) := isTenth_rounding isRounding_float (e := e) hspan
  have hwide (e : ℤ) := isTenth_rounding h24 (e := e) hspan
  rw [firstLine_rounded, nextVertical_rounded, nextHorizontal_rounded]
  exact ⟨ends_iff_advances (isRounding_id 53) hm hM hfirst hfirst,
    ends_iff_advances (isRounding_width w) hm hM hfirst hwide⟩

/-- The counters of both loops of a plot advance. -/
structure GridAdvances (x : Nat → UInt32) (y : Nat → Int32) : Prop where
  vertical : Advances (float (x 0).toNat) (float (x (historySize - 1)).toNat)
  horizontal : ∀ i < historySize, ∀ j < historySize,
    (∀ k < historySize, (y i).toInt ≤ (y k).toInt ∧ (y k).toInt ≤ (y j).toInt) →
    Advances (float (y i).toInt) (float (y j).toInt)

/-- An element that is least, and one that is greatest. -/
theorem exists_extremes (wide : ℚ → ℚ) (data : Nat → ℚ) :
    ∃ i j, i < historySize ∧ j < historySize ∧
      maxMin (rounded wide) data historySize = (data i, data j) ∧
      ∀ k < historySize, data i ≤ data k ∧ data k ≤ data j := by
  have hlt (a b : ℚ) : (rounded wide).lt (id a) (id b) = decide (a < b) := rfl
  exact maxMin_spec (rounded wide) hlt data (by decide)

/-- The extremes of the rounded values are those of the values, rounded. -/
theorem advances_extremes_iff (y : Nat → Int32) (i j : Nat) (hi : i < historySize)
    (hj : j < historySize) (hall : ∀ k < historySize,
      float (y i).toInt ≤ float (y k).toInt ∧ float (y k).toInt ≤ float (y j).toInt) :
    Advances (float (y i).toInt) (float (y j).toInt) ↔
      ∀ i < historySize, ∀ j < historySize,
        (∀ k < historySize, (y i).toInt ≤ (y k).toInt ∧ (y k).toInt ≤ (y j).toInt) →
        Advances (float (y i).toInt) (float (y j).toInt) := by
  have hfloat {a b : Nat} (h : (y a).toInt ≤ (y b).toInt) :
      float (y a).toInt ≤ float (y b).toInt := isRounding_float.mono (by exact_mod_cast h)
  have hsame {i' j' : Nat} (hi' : i' < historySize) (hj' : j' < historySize)
      (h : ∀ k < historySize, (y i').toInt ≤ (y k).toInt ∧ (y k).toInt ≤ (y j').toInt) :
      float (y i').toInt = float (y i).toInt ∧ float (y j').toInt = float (y j).toInt :=
    ⟨le_antisymm (hfloat (h i hi).1) (hall i' hi').1,
      le_antisymm (hall j' hj').2 (hfloat (h j hj).2)⟩
  constructor
  · intro hadv i' hi' j' hj' h
    rw [(hsame hi' hj' h).1, (hsame hi' hj' h).2]
    exact hadv
  · intro hadv
    obtain ⟨i', j', hi', hj', -, h⟩ := exists_extremes id fun k => (y k).toInt
    have hint (k : Nat) (hk : k < historySize) :
        (y i').toInt ≤ (y k).toInt ∧ (y k).toInt ≤ (y j').toInt := by
      have hcast := h k hk
      exact ⟨by exact_mod_cast hcast.1, by exact_mod_cast hcast.2⟩
    rw [← (hsame hi' hj' hint).1, ← (hsame hi' hj' hint).2]
    exact hadv i' hi' j' hj' hint

theorem plot_finishes_iff (w : Width) (x : Nat → UInt32) (y : Nat → Int32)
    (hx : x 0 ≤ x (historySize - 1)) (f : File ℚ) (color x_label y_label : String) :
    (∃ fuel, svgDrawToFileXy (rounded w.round) fuel f color
        (fun i => (rounded w.round).ofUInt32 (x i)) (fun i => (rounded w.round).ofInt32 (y i))
        historySize x_label y_label ≠ .error .unfinished) ↔ GridAdvances x y := by
  obtain ⟨i, j, hi, hj, hmaxMin, hall⟩ := exists_extremes w.round fun k => float (y k).toInt
  have hxle : float (x 0).toNat ≤ float (x (historySize - 1)).toNat :=
    isRounding_float.mono (by exact_mod_cast UInt32.le_iff_toNat_le.mp hx)
  have hv := (loops_end_iff w (representable_float _) (representable_float _) hxle).1
  have hh := (loops_end_iff w (representable_float _) (representable_float _) (hall j hj).1).2
  have hscaling := scaling_eq (rounded w.round) (fun i => (rounded w.round).ofUInt32 (x i))
    (fun i => (rounded w.round).ofInt32 (y i)) hmaxMin
  rw [svgDrawToFileXy_finishes_iff _ f color _ _ (by decide), hscaling]
  simp only [verticalCounters, horizontalCounters, counters_rounded_iff]
  rw [advances_extremes_iff y i j hi hj hall] at hh
  constructor
  · intro hends
    exact ⟨hv.mp hends.1, hh.mp hends.2⟩
  · intro hadvances
    exact ⟨hv.mpr hadvances.1, hh.mpr hadvances.2⟩

/-- Both loops of a plot of `generate_html_file` end just when both advance. -/
theorem grid_ends_iff_advances (w : Width) (x : Nat → UInt32) (y : Nat → Int32)
    (hx : ∀ i j, i ≤ j → j < historySize → x i ≤ x j) (f : File ℚ)
    (color x_label y_label : String) :
    (∃ fuel, svgDrawToFileXy (rounded w.round) fuel f color
        (fun i => (rounded w.round).ofUInt32 (x i)) (fun i => (rounded w.round).ofInt32 (y i))
        historySize x_label y_label ≠ .error .unfinished) ↔ GridAdvances x y :=
  plot_finishes_iff w x y (hx 0 (historySize - 1) (Nat.zero_le _) (by decide)) f color x_label
    y_label

/-- The grain of two natural numbers. -/
theorem grain_natCast (a b : Nat) :
    grain a b = 2 ^ ((Nat.clog 2 (max a b) : ℤ) - 24) := by
  rw [grain, Nat.abs_cast, Nat.abs_cast, ← Nat.cast_max, Int.clog_natCast]

/-- A millisecond passes between two samples, and the motor stands still. -/
def idleTimes (i : Nat) : UInt32 := UInt32.ofNat i

theorem idleTimes_toNat {i : Nat} (h : i < historySize) : (idleTimes i).toNat = i :=
  UInt32.toNat_ofNat_of_lt (h.trans (by decide))

theorem idleTimes_le (i j : Nat) (hij : i ≤ j) (hj : j < historySize) :
    idleTimes i ≤ idleTimes j := by
  rw [UInt32.le_iff_toNat_le, idleTimes_toNat (hij.trans_lt hj), idleTimes_toNat hj]
  exact hij

theorem idle_gridAdvances : GridAdvances idleTimes fun _ => 0 := by
  constructor
  · have hfirst : float ((idleTimes 0).toNat : ℚ) = (0 : ℕ) :=
      isRounding_float.fixes _ ⟨0, 0, by norm_num, by norm_num [idleTimes]⟩
    have hlast : float ((idleTimes (historySize - 1)).toNat : ℚ) = (799 : ℕ) :=
      isRounding_float.fixes _ ⟨799, 0, by norm_num, by norm_num [idleTimes, historySize]⟩
    have hclog : Nat.clog 2 (max 0 799) = 10 := by decide
    right
    left
    rw [hfirst, hlast, grain_natCast, hclog]
    norm_num
  · intro i _ j _ _
    exact .inl le_rfl

theorem idle_grid_ends : ∃ fuel, svgDrawToFileXy (rounded Width.double.round) fuel [] "#ff0000"
    (fun i => (rounded Width.double.round).ofUInt32 (idleTimes i))
    (fun _ => (rounded Width.double.round).ofInt32 0) historySize "t"
    "Actual position (abs units)" ≠ .error .unfinished :=
  (grid_ends_iff_advances .double idleTimes (fun _ => 0) idleTimes_le [] "#ff0000" "t"
    "Actual position (abs units)").mpr idle_gridAdvances

/-- A set-point far from zero, moved a little. -/
def farSetPoints (i : Nat) : Int32 := if i = 0 then 1073741824 else 1073741952

theorem farSetPoints_stuck : ¬ GridAdvances idleTimes farSetPoints := by
  intro ⟨_, h⟩
  have hlow : (farSetPoints 0).toInt = 1073741824 := by decide
  have hhigh : (farSetPoints 1).toInt = 1073741952 := by decide
  have hmin : float ((farSetPoints 0).toInt : ℚ) = (1073741824 : ℕ) :=
    isRounding_float.fixes _ ⟨2 ^ 23, 7, by norm_num, by norm_num [hlow]⟩
  have hmax : float ((farSetPoints 1).toInt : ℚ) = (1073741952 : ℕ) :=
    isRounding_float.fixes _ ⟨2 ^ 23 + 1, 7, by norm_num, by norm_num [hhigh]⟩
  have hall (k : Nat) (_ : k < historySize) :
      (farSetPoints 0).toInt ≤ (farSetPoints k).toInt ∧
        (farSetPoints k).toInt ≤ (farSetPoints 1).toInt := by
    rw [hlow, hhigh]
    unfold farSetPoints
    split <;> decide
  have hclog : Nat.clog 2 (max 1073741824 1073741952) = 31 := by decide
  have hadv := h 0 (by decide) 1 (by decide) hall
  rw [hmin, hmax] at hadv
  rcases hadv with h | h | ⟨h, -⟩
  · norm_num at h
  · rw [grain_natCast, hclog] at h
    norm_num at h
  · rw [grain_natCast, hclog] at h
    norm_num at h

/-- The plot of the set-point is never over. -/
theorem farSetPoints_unfinished :
    (∀ i j, i ≤ j → j < historySize → idleTimes i ≤ idleTimes j) ∧
    ∀ (w : Width) (fuel : Nat), svgDrawToFileXy (rounded w.round) fuel [] "#00ff00"
      (fun i => (rounded w.round).ofUInt32 (idleTimes i))
      (fun i => (rounded w.round).ofInt32 (farSetPoints i)) historySize "t"
      "Desired position (abs units)" = .error .unfinished := by
  refine ⟨idleTimes_le, fun w fuel => ?_⟩
  by_contra hne
  have hle := idleTimes_le 0 (historySize - 1) (Nat.zero_le _) (by decide)
  exact farSetPoints_stuck ((plot_finishes_iff w idleTimes farSetPoints hle [] "#00ff00" "t"
    "Desired position (abs units)").mp ⟨fuel, hne⟩)

end RealTimeLabs.Svg
