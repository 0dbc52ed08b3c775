import RealTimeLabs.Motor.Driver
import Mathlib.Algebra.Order.Group.Abs
import Mathlib.Tactic.Linarith

/-! The control value and its encoding in the duty register.

`getPwm_toInt` reads the 32-bit arithmetic of `get_pwm` as arithmetic on integers:
after the clamp nothing wraps, the right shift is a floor division and the narrowing
to eight bits loses nothing. The range and the sign of the duty follow
(`duty_spec`), and with them what `set_motor_dutycycle` leaves in the register
(`setMotorDutycycle_encodes`). -/
namespace RealTimeLabs.Motor

theorem toInt_max (a b : Int32) : (max a b).toInt = max a.toInt b.toInt := by
  rw [Int.max_def]
  show (if a ≤ b then b else a).toInt = _
  simp only [Int32.le_iff_toInt_le]
  split <;> rfl

theorem toInt_min (a b : Int32) : (min a b).toInt = min a.toInt b.toInt := by
  rw [Int.min_def]
  show (if a ≤ b then a else b).toInt = _
  simp only [Int32.le_iff_toInt_le]
  split <;> rfl

/-- The clamp of the distance, on integers. -/
def clampedDistance (d : Int) : Int := max (min d 200) (-200)

/-- The signed square of the clamped distance, scaled and clamped to a percentage. -/
def rawDuty (c : Int) : Int := min (max (c * |c| / 256) (-100)) 100

/-- `get_pwm` on integers. -/
def duty (d : Int) : Int :=
  let c := clampedDistance d
  if c < 0 ∧ rawDuty c > -3 then -3
  else if c > 0 ∧ rawDuty c < 3 then 3
  else rawDuty c

theorem clampedDistance_bounds (d : Int) :
    -200 ≤ clampedDistance d ∧ clampedDistance d ≤ 200 := by
  unfold clampedDistance
  omega

/-- The square of the clamped distance is far from wrapping, and keeps the sign. -/
theorem signedSquare_bounds (c : Int) (h : -200 ≤ c ∧ c ≤ 200) :
    -40000 ≤ c * |c| ∧ c * |c| ≤ 40000 := by
  rcases le_or_gt 0 c with hc | hc
  · rw [abs_of_nonneg hc]
    constructor <;> nlinarith
  · rw [abs_of_neg hc]
    constructor <;> nlinarith

theorem rawDuty_bounds (c : Int) : -100 ≤ rawDuty c ∧ rawDuty c ≤ 100 := by
  unfold rawDuty
  omega

/-! ### The 32-bit arithmetic -/

theorem toInt_clamp (d : Int32) : (max (min d 200) (-200)).toInt = clampedDistance d.toInt := by
  rw [toInt_max, toInt_min]
  rfl

theorem toInt_abs (c : Int32) (h : -200 ≤ c.toInt ∧ c.toInt ≤ 200) :
    c.abs.toInt = |c.toInt| := by
  have hne : c.toBitVec ≠ BitVec.intMin 32 := by
    intro he
    have hmin : c.toInt = (BitVec.intMin 32).toInt := congrArg BitVec.toInt he
    have : (BitVec.intMin 32).toInt = -2147483648 := by decide
    omega
  show c.toBitVec.abs.toInt = _
  rw [BitVec.toInt_abs_eq_natAbs_of_ne_intMin hne, Int.abs_eq_natAbs]
  rfl

theorem toInt_signedSquare (c : Int32) (h : -200 ≤ c.toInt ∧ c.toInt ≤ 200) :
    ((c * c.abs) >>> 8).toInt = c.toInt * |c.toInt| / 256 := by
  have hb := signedSquare_bounds c.toInt h
  have hmul : (c * c.abs).toInt = c.toInt * |c.toInt| := by
    rw [Int32.toInt_mul, toInt_abs c h]
    apply Int.bmod_eq_of_le <;> omega
  show ((c * c.abs).toBitVec.sshiftRight' ((8 : Int32).toBitVec.smod 32)).toInt = _
  rw [BitVec.toInt_sshiftRight']
  show (c * c.abs).toInt >>> (8 : Nat) = _
  rw [hmul, Int.shiftRight_eq_div_pow]
  rfl

/-- **`get_pwm` is its integer reading**, for every 32-bit distance. -/
theorem getPwm_toInt (d : Int32) : (getPwm d).toInt = duty d.toInt := by
  have hc := clampedDistance_bounds d.toInt
  have hsq := toInt_signedSquare (max (min d 200) (-200)) (by rw [toInt_clamp]; exact hc)
  rw [toInt_clamp] at hsq
  have hraw : (min (max ((max (min d 200) (-200) * (max (min d 200) (-200)).abs) >>> 8) (-100))
      100).toInt8.toInt = rawDuty (clampedDistance d.toInt) := by
    have hr := rawDuty_bounds (clampedDistance d.toInt)
    rw [Int32.toInt_toInt8, toInt_min, toInt_max, hsq]
    exact Int.bmod_eq_of_le (by exact le_trans (by decide) hr.1) (lt_of_le_of_lt hr.2 (by decide))
  unfold getPwm duty
  simp only [Int32.lt_iff_toInt_lt, Int8.lt_iff_toInt_lt, gt_iff_lt, toInt_clamp, hraw]
  have h3 : minPwmDuty.toInt = 3 := rfl
  have hm3 : (-minPwmDuty).toInt = -3 := rfl
  have h0 : (0 : Int32).toInt = 0 := rfl
  rw [h3, hm3, h0]
  split
  · exact hm3
  · split
    · exact h3
    · exact hraw

/-! ### Range and sign -/

/-- No duty without a distance, and otherwise a duty of the distance's sign, from the
minimum up to a hundred percent. -/
theorem duty_spec (d : Int) :
    (d = 0 → duty d = 0) ∧ (0 < d → 3 ≤ duty d ∧ duty d ≤ 100) ∧
      (d < 0 → -100 ≤ duty d ∧ duty d ≤ -3) := by
  have hr := rawDuty_bounds (clampedDistance d)
  have hzero : d = 0 → clampedDistance d = 0 := by unfold clampedDistance; omega
  have hpos : 0 < d → 0 < clampedDistance d := by unfold clampedDistance; omega
  have hneg : d < 0 → clampedDistance d < 0 := by unfold clampedDistance; omega
  refine ⟨fun h => ?_, fun h => ?_, fun h => ?_⟩
  · rw [h]
    decide
  · have hc := hpos h
    simp only [duty, if_neg (show ¬ (clampedDistance d < 0 ∧ rawDuty (clampedDistance d) > -3) by
      omega)]
    split <;> omega
  · have hc := hneg h
    simp only [duty, if_neg (show ¬ (clampedDistance d > 0 ∧ rawDuty (clampedDistance d) < 3) by
      omega)]
    split <;> omega

theorem duty_bounds (d : Int) : -100 ≤ duty d ∧ duty d ≤ 100 := by
  obtain ⟨hzero, hpos, hneg⟩ := duty_spec d
  rcases Int.lt_trichotomy d 0 with h | h | h
  · have := hneg h
    omega
  · have := hzero h
    omega
  · have := hpos h
    omega

/-- The range that `set_motor_dutycycle` accepts. -/
theorem getPwm_range (distance : Int32) :
    -100 ≤ (getPwm distance).toInt ∧ (getPwm distance).toInt ≤ 100 := by
  rw [getPwm_toInt]
  exact duty_bounds _

/-! ### The duty register -/

/-- The register that stands for a signed duty: one direction bit, and the magnitude as
a share of the period in the bits below. -/
structure Encodes (cr : BitVec 32) (pwm : Int) : Prop where
  reverse : cr.getLsbD dutyDirR = true ↔ pwm < 0
  forward : cr.getLsbD dutyDirF = true ↔ ¬ pwm < 0
  share : ((cr.setWidth 30).toNat : Int) = pwmPeriod * |pwm| / 100
  bound : ((cr.setWidth 30).toNat : Int) ≤ pwmPeriod

/-- A direction bit over a share that stays below it. -/
theorem direction_word (dir n : Nat) (hdir : dir = dutyDirF ∨ dir = dutyDirR) (hn : n < 2 ^ 30) :
    (bit dir ||| BitVec.ofNat 32 n).getLsbD dutyDirR = decide (dir = dutyDirR) ∧
      (bit dir ||| BitVec.ofNat 32 n).getLsbD dutyDirF = decide (dir = dutyDirF) ∧
      ((bit dir ||| BitVec.ofNat 32 n).setWidth 30).toNat = n := by
  have hR : n.testBit dutyDirR = false := Nat.testBit_lt_two_pow (Nat.lt_trans hn (by decide))
  have hF : n.testBit dutyDirF = false := Nat.testBit_lt_two_pow hn
  refine ⟨?_, ?_, ?_⟩
  · rw [BitVec.getLsbD_or, BitVec.getLsbD_ofNat, hR, Bool.and_false, Bool.or_false]
    rcases hdir with rfl | rfl <;> decide
  · rw [BitVec.getLsbD_or, BitVec.getLsbD_ofNat, hF, Bool.and_false, Bool.or_false]
    rcases hdir with rfl | rfl <;> decide
  · have hz : (bit dir).setWidth 30 = 0#30 := by rcases hdir with rfl | rfl <;> decide
    rw [BitVec.setWidth_or, hz, BitVec.zero_or, BitVec.setWidth_ofNat_of_le (by decide),
      BitVec.toNat_ofNat, Nat.mod_eq_of_lt hn]

/-- A duty in range is encoded, whatever the register held before. -/
theorem setMotorDutycycle_encodes (d : Int8) (cr : BitVec 32)
    (h : -100 ≤ d.toInt ∧ d.toInt ≤ 100) : Encodes (setMotorDutycycle d cr) d.toInt := by
  have hin : ¬ (d < -100 ∨ d > 100) := by
    simp only [Int8.lt_iff_toInt_lt, gt_iff_lt]
    have h1 : (-100 : Int8).toInt = -100 := rfl
    have h2 : (100 : Int8).toInt = 100 := rfl
    omega
  obtain ⟨n, hn, habs⟩ : ∃ n : Nat, n ≤ 100 ∧ |d.toInt| = n :=
    ⟨d.toInt.natAbs, by omega, Int.abs_eq_natAbs _⟩
  have hword (x : Int) (hx : x = |d.toInt|) :
      BitVec.ofInt 32 ((pwmPeriod * x).tdiv 100) <<< dutyCycle = BitVec.ofNat 32 (50 * n) := by
    have : (pwmPeriod * x).tdiv 100 = ((50 * n : Nat) : Int) := by
      rw [hx, habs, pwmPeriod, Int.tdiv_eq_ediv_of_nonneg (by omega)]
      omega
    rw [this, BitVec.ofInt_natCast]
    exact BitVec.shiftLeft_zero _
  have hshare : pwmPeriod * |d.toInt| / 100 = ((50 * n : Nat) : Int) := by
    rw [habs, pwmPeriod]
    omega
  have hperiod : ((50 * n : Nat) : Int) ≤ pwmPeriod := by
    rw [pwmPeriod]
    omega
  unfold setMotorDutycycle
  rw [if_neg hin]
  by_cases hneg : d.toInt < 0
  · rw [if_pos (Int8.lt_iff_toInt_lt.mpr hneg), hword _ (abs_of_neg hneg).symm]
    obtain ⟨hR, hF, hlow⟩ := direction_word dutyDirR (50 * n) (.inr rfl) (by omega)
    exact ⟨by rw [hR]; simp [hneg], by rw [hF]; simp [hneg, dutyDirF, dutyDirR],
      by rw [hlow, hshare], by rw [hlow]; exact hperiod⟩
  · rw [if_neg (fun hlt => hneg (Int8.lt_iff_toInt_lt.mp hlt)),
      hword _ (abs_of_nonneg (by omega)).symm]
    obtain ⟨hR, hF, hlow⟩ := direction_word dutyDirF (50 * n) (.inl rfl) (by omega)
    exact ⟨by rw [hR]; simp [hneg, dutyDirF, dutyDirR], by rw [hF]; simp [hneg],
      by rw [hlow, hshare], by rw [hlow]; exact hperiod⟩

end RealTimeLabs.Motor
