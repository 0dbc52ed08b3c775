import RealTimeLabs.Svg.Grid

/-! When the scales of a plot are numbers.

The scales divide by the span of the times and by that of the values, and nothing keeps
these from being zero: a page before the first update has no span of time, and a motor
that stands still none of positions. Zero through zero is not a number, and then neither
is any coordinate of the curve. With two different values on each axis everything is
finite, since what a history holds is far from the limit of a `float`. -/
namespace RealTimeLabs.Svg
open Rounding

/-! ### Finite results -/

theorem float_pow (k : ℕ) : float (2 ^ k) = 2 ^ k ∧ float (-2 ^ k) = -2 ^ k :=
  ⟨isRounding_float.fixes _ ⟨1, k, by norm_num, by rw [Int.cast_one, one_mul, zpow_natCast]⟩,
    isRounding_float.fixes _
      ⟨-1, k, by norm_num, by rw [Int.cast_neg, Int.cast_one, neg_one_mul, zpow_natCast]⟩⟩

theorem abs_float_le {q : ℚ} {k : ℕ} (h : |q| ≤ 2 ^ k) : |float q| ≤ 2 ^ k := by
  obtain ⟨hlo, hhi⟩ := abs_le.mp h
  have hfloatLo := isRounding_float.mono hlo
  have hfloatHi := isRounding_float.mono hhi
  rw [(float_pow k).2] at hfloatLo
  rw [(float_pow k).1] at hfloatHi
  exact abs_le.mpr ⟨hfloatLo, hfloatHi⟩

theorem le_abs_float {q : ℚ} {k : ℕ} (h : 2 ^ k ≤ |q|) : 2 ^ k ≤ |float q| := by
  rcases le_abs.mp h with hpos | hneg
  · have hfloat := isRounding_float.mono hpos
    rw [(float_pow k).1] at hfloat
    exact hfloat.trans (le_abs_self _)
  · have hfloat := isRounding_float.mono (show q ≤ -2 ^ k by linarith)
    rw [(float_pow k).2] at hfloat
    exact le_abs.mpr (.inr (by linarith))

theorem ofRat_of_abs_le {q : ℚ} {k : ℕ} (hk : k < 128) (h : |q| ≤ 2 ^ k) :
    Single.ofRat q = .finite (float q) := by
  have hlimit : (2 : ℚ) ^ k < Single.limit := pow_lt_pow_right₀ (by norm_num) hk
  rw [Single.ofRat, if_pos ((abs_float_le h).trans_lt hlimit)]

/-- Whole numbers stay whole. -/
theorem exists_float_eq (n : ℤ) : ∃ m : ℤ, float n = m := by
  rcases le_or_gt |n| (2 ^ 24) with hsmall | hlarge
  · exact ⟨n, isRounding_float.fixes _ ⟨n, 0, hsmall, by rw [zpow_zero, mul_one]⟩⟩
  · have hmagnitude : (2 : ℚ) ^ 23 ≤ |(n : ℚ)| := by
      rw [← Int.cast_abs]
      exact_mod_cast (by omega : (2 : ℤ) ^ 23 ≤ |n|)
    have hfloat := le_abs_float hmagnitude
    obtain ⟨m, hm⟩ := whole_of_large (representable_float n) (e := 0) (by
      rw [zpow_zero, mul_one]
      exact hfloat)
    exact ⟨m, hm.trans (by rw [zpow_zero, mul_one])⟩

theorem one_le_abs_float {n : ℤ} (hn : n ≠ 0) : 1 ≤ |float n| := by
  have hone : (2 : ℚ) ^ 0 ≤ |(n : ℚ)| := by
    rw [pow_zero, ← Int.cast_abs]
    exact_mod_cast Int.one_le_abs hn
  exact (pow_zero (2 : ℚ)).symm.trans_le (le_abs_float hone)

/-! ### One axis -/

/-- A number, and not an infinity or none. -/
def Single.IsFinite (v : Single) : Prop := ∃ q, v = .finite q

/-- What a `float` is that has been cast from 32 bits. -/
structure Whole (q : ℚ) : Prop where
  int : ∃ n : ℤ, q = n
  abs_le : |q| ≤ 2 ^ 32

section
variable {lo v : ℚ} (hlo : Whole lo) (hv : Whole v)
include hlo hv

theorem abs_sub_le_of_whole : |v - lo| ≤ 2 ^ 33 := by
  have hsum := abs_sub v lo
  have hpow : (2 : ℚ) ^ 33 = 2 ^ 32 + 2 ^ 32 := by norm_num
  have := hv.abs_le
  have := hlo.abs_le
  linarith

theorem single_sub_whole : single.sub (.finite v) (.finite lo) = .finite (float (v - lo)) := by
  change Single.ofRat (v + -lo) = _
  rw [← sub_eq_add_neg]
  exact ofRat_of_abs_le (by norm_num) (abs_sub_le_of_whole hlo hv)

/-- The span of different whole numbers is not rounded away. -/
theorem one_le_abs_span (hne : lo ≠ v) : 1 ≤ |float (v - lo)| := by
  obtain ⟨m, rfl⟩ := hlo.int
  obtain ⟨n, rfl⟩ := hv.int
  rw [← Int.cast_sub]
  apply one_le_abs_float
  intro heq
  exact hne (by rw [sub_eq_zero.mp heq])

end

/-- A length divided by a span of one or more. -/
theorem single_div_span {span length : ℚ} (hspan : 1 ≤ |span|) (hlength : |length| ≤ 2 ^ 10) :
    ∃ q, single.div (single.cast length) (.finite span) = .finite q ∧ |q| ≤ 2 ^ 10 := by
  have hpos : span ≠ 0 := by
    intro rfl
    rw [abs_zero] at hspan
    norm_num at hspan
  have hquotient : |float length / span| ≤ 2 ^ 10 := by
    rw [abs_div]
    exact (div_le_self (abs_nonneg _) hspan).trans (abs_float_le hlength)
  refine ⟨_, ?_, abs_float_le hquotient⟩
  change Single.div (Single.ofRat length) _ = _
  rw [ofRat_of_abs_le (by norm_num) hlength, Single.div, if_neg hpos]
  exact ofRat_of_abs_le (by norm_num) hquotient

/-- The span of two whole numbers, `length` divided by it, and the values scaled so. -/
theorem axis_finite_iff {lo hi length : ℚ} (hlo : Whole lo) (hhi : Whole hi)
    (hlength : |length| ≤ 2 ^ 10) :
    (single.sub (.finite hi) (.finite lo) ≠ .finite 0 ↔ lo ≠ hi) ∧
      (lo ≠ hi →
        (single.div (single.cast length) (single.sub (.finite hi) (.finite lo))).IsFinite ∧
        ∀ v, Whole v → (single.mul (single.sub (.finite v) (.finite lo))
          (single.div (single.cast length) (single.sub (.finite hi) (.finite lo)))).IsFinite) := by
  rw [single_sub_whole hlo hhi]
  refine ⟨⟨fun hspan heq => hspan ?_, fun hne hzero => ?_⟩, fun hne => ?_⟩
  · rw [heq, sub_self, isRounding_float.zero]
  · have hone := one_le_abs_span hlo hhi hne
    rw [Single.finite.inj hzero, abs_zero] at hone
    norm_num at hone
  · obtain ⟨q, hscale, hq⟩ := single_div_span (one_le_abs_span hlo hhi hne) hlength
    rw [hscale]
    refine ⟨⟨_, rfl⟩, fun v hv => ?_⟩
    rw [single_sub_whole hlo hv]
    have hproduct : |float (v - lo) * q| ≤ 2 ^ 43 := by
      rw [abs_mul, show (2 : ℚ) ^ 43 = 2 ^ 33 * 2 ^ 10 by norm_num]
      exact mul_le_mul (abs_float_le (abs_sub_le_of_whole hlo hv)) hq (abs_nonneg _)
        (by norm_num)
    exact ⟨_, ofRat_of_abs_le (by norm_num) hproduct⟩

/-! ### One plot -/

/-- Both divisors are numbers other than zero, and both scales and all coordinates of the
curve are finite. -/
structure Drawable (color : String) (x y : Nat → Single) (count : Nat) : Prop where
  width : (scaling single x y count).width ≠ .finite 0
  height : (scaling single x y count).height ≠ .finite 0
  mx : (scaling single x y count).mx.IsFinite
  my : (scaling single x y count).my.IsFinite
  path : ∀ p ∈ pathPrints single (curveContext (scaling single x y count) color
      (gridContext (ctxObj single []))) x y count,
    ∃ first v w, p = .point first v w ∧ v.IsFinite ∧ w.IsFinite

/-- `max_min` looks no further than `count`. -/
theorem maxMinFrom_congr {F : Type} (A : Arith F) {data data' : Nat → F} {n : Nat}
    (h : ∀ k ≤ n, data k = data' k) : maxMinFrom A data n = maxMinFrom A data' n := by
  induction n with
  | zero => rw [maxMinFrom, maxMinFrom, h 0 le_rfl]
  | succ n ih =>
    rw [maxMinFrom, maxMinFrom, ih fun k hk => h k (Nat.le_succ_of_le hk), h (n + 1) le_rfl]

theorem drawable_iff (color : String) {x y : Nat → Single} {t v : Nat → ℚ} {count : Nat}
    (hcount : count ≠ 0) (ht : ∀ k < count, x k = .finite (t k) ∧ Whole (t k))
    (hv : ∀ k < count, y k = .finite (v k) ∧ Whole (v k)) :
    Drawable color x y count ↔
      t 0 ≠ t (count - 1) ∧ ∃ i j, i < count ∧ j < count ∧ v i ≠ v j := by
  have hlt (a b : ℚ) : single.lt (.finite a) (.finite b) = decide (a < b) := rfl
  obtain ⟨i, j, hi, hj, hmaxMin, hall⟩ := maxMin_spec single hlt v hcount
  have hextremes : maxMin single y count = (.finite (v i), .finite (v j)) := by
    rw [← hmaxMin]
    exact maxMinFrom_congr single fun k hk => (hv k (by omega)).1
  have hfirst := ht 0 (by omega)
  have hlast := ht (count - 1) (by omega)
  have hvaries : (∃ i j, i < count ∧ j < count ∧ v i ≠ v j) ↔ v i ≠ v j := by
    refine ⟨fun ⟨a, b, ha, hb, hne⟩ heq => hne ?_, fun hne => ⟨i, j, hi, hj, hne⟩⟩
    have ha := hall a ha
    have hb := hall b hb
    linarith
  obtain ⟨s, hs⟩ : ∃ s, s = scaling single x y count := ⟨_, rfl⟩
  have hscaling := scaling_eq single x y hextremes
  rw [hfirst.1, hlast.1] at hscaling
  have hplotWidth : |((plotWidth - 2 * plotPadding : Int) : ℚ)| ≤ 2 ^ 10 := by
    norm_num [plotWidth, plotPadding]
  have hplotHeight : |((plotHeight - 2 * plotPadding : Int) : ℚ)| ≤ 2 ^ 10 := by
    norm_num [plotHeight, plotPadding]
  obtain ⟨hwidth, hhorizontal⟩ := axis_finite_iff hfirst.2 hlast.2 hplotWidth
  obtain ⟨hheight, hvertical⟩ := axis_finite_iff (hv i hi).2 (hv j hj).2 hplotHeight
  rw [hvaries]
  constructor
  · intro ⟨hw, hh, _, _, _⟩
    rw [hscaling] at hw hh
    exact ⟨hwidth.mp hw, hheight.mp hh⟩
  · intro ⟨hx, hy⟩
    obtain ⟨hmx, hxs⟩ := hhorizontal hx
    obtain ⟨hmy, hys⟩ := hvertical hy
    rw [← hs] at hscaling
    refine ⟨?_, ?_, ?_, ?_, ?_⟩ <;> rw [← hs, hscaling]
    · exact hwidth.mpr hx
    · exact hheight.mpr hy
    · exact hmx
    · exact hmy
    · intro p hp
      obtain ⟨k, hk, rfl⟩ := List.mem_map.mp hp
      rw [List.mem_range] at hk
      have hxk := hxs (t k) (ht k hk).2
      have hyk := hys (v k) (hv k hk).2
      rw [← (ht k hk).1] at hxk
      rw [← (hv k hk).1] at hyk
      exact ⟨_, _, _, rfl, hxk, hyk⟩

end RealTimeLabs.Svg
