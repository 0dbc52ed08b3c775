import RealTimeLabs.Motor.Symmetry

/-! Which way the controller drives.

Both call sites of `get_pwm` subtract the position from the set-point in 32 bits, and clamp
the result afterwards. Where the true difference does not fit, what is left of it has the
other sign, and the motor is driven away from the set-point (`sign_pwmDuty_iff`). The
position itself is a 32-bit count of the steps that the samples have shown. So the law
holds in a run exactly as long as the steps fit, and the set-point is no further from them
than 32 bits reach (`drives_iff_inRange`). -/
namespace RealTimeLabs.Motor
open Quadrature Interleaving

/-- An `int32_t` can hold it. -/
def Fits (n : Int) : Prop := -2147483648 ≤ n ∧ n < 2147483648

instance (n : Int) : Decidable (Fits n) := inferInstanceAs (Decidable (_ ∧ _))

/-- The entry of `TRANSITION_TABLE` that a sample leads to. -/
def decoded (a b : Bool) (d : Driver) : Int :=
  (transitionTable (transition d.motorState.toNat
    (ircA (lineSr a b) ||| ircB (lineSr a b)).toNat)).toInt

/-- The driver, and the steps that it has decoded, counted without a limit. -/
structure Counted where
  driver : Driver
  steps : Int

def countedStep (e : Event) (t : Counted) : Counted where
  driver := react e t.driver
  steps := match e with
    | .sample a b => t.steps + decoded a b t.driver
    | _ => t.steps

def startedCount (desired : Int32) (a b : Bool) : Counted := ⟨started desired a b, 0⟩

/-- The way to the set-point. -/
def Driver.way (d : Driver) : Int := d.shared.desiredPosition.toInt - d.shared.position.toInt

/-- After an update: the subtraction has not overflowed, and the duty shows the way. -/
structure Towards (d : Driver) : Prop where
  exact : d.distance.toInt = d.way
  sign : d.shared.pwmDuty.toInt.sign = d.way.sign

/-- No addition or subtraction of the event overflows, and its duty shows the way. -/
def Drives : Event → Counted → Prop
  | .sample a b, t =>
    (react (.sample a b) t.driver).shared.position.toInt =
        t.driver.shared.position.toInt + decoded a b t.driver ∧
      Towards (react (.sample a b) t.driver)
  | .receive _, _ => True
  | .update, t => Towards (react .update t.driver)

/-- The steps fit 32 bits, and so does the way from them to the set-point. -/
def InRange : Event → Counted → Prop
  | .sample a b, t =>
    Fits (t.steps + decoded a b t.driver) ∧
      Fits (t.driver.shared.desiredPosition.toInt - (t.steps + decoded a b t.driver))
  | .receive _, _ => True
  | .update, t => Fits (t.driver.shared.desiredPosition.toInt - t.steps)

instance : (e : Event) → (t : Counted) → Decidable (InRange e t)
  | .sample _ _, _ => inferInstanceAs (Decidable (_ ∧ _))
  | .receive _, _ => .isTrue trivial
  | .update, _ => inferInstanceAs (Decidable (Fits _))

/-! ### The 32-bit operations -/

theorem fits_toInt (n : Int32) : Fits n.toInt := ⟨n.le_toInt, n.toInt_lt⟩

/-- A sum or difference is exact where it fits, and nowhere else. -/
theorem bmod_eq_iff_fits (n : Int) : n.bmod (2 ^ 32) = n ↔ Fits n := by
  have hlo : -(2 ^ 32 : Int) ≤ 2 * n.bmod (2 ^ 32) := by
    have := Int.le_bmod (x := n) (m := 2 ^ 32) (by decide)
    omega
  have hhi : 2 * n.bmod (2 ^ 32) < 2 ^ 32 := by
    have := Int.bmod_lt (x := n) (m := 2 ^ 32) (by decide)
    omega
  constructor
  · intro h
    unfold Fits
    omega
  · intro h
    obtain ⟨hlo', hhi'⟩ := h
    apply Int.bmod_eq_of_le <;> omega

theorem toInt_add_iff_fits (a b : Int32) :
    (a + b).toInt = a.toInt + b.toInt ↔ Fits (a.toInt + b.toInt) := by
  rw [Int32.toInt_add]
  exact bmod_eq_iff_fits _

theorem distance_iff_fits (d : Driver) : d.distance.toInt = d.way ↔ Fits d.way := by
  rw [Driver.distance, Int32.toInt_sub]
  exact bmod_eq_iff_fits _

/-! ### One update -/

/-- The control value keeps the sign of its distance. -/
theorem sign_duty (d : Int) : (duty d).sign = d.sign := by
  obtain ⟨hzero, hpos, hneg⟩ := duty_spec d
  rcases Int.lt_trichotomy d 0 with h | h | h
  · have hduty := hneg h
    rw [Int.sign_eq_neg_one_of_neg h, Int.sign_eq_neg_one_of_neg (by omega)]
  · rw [hzero h, h]
  · have hduty := hpos h
    rw [Int.sign_eq_one_of_pos h, Int.sign_eq_one_of_pos (by omega)]

theorem sign_getPwm (distance : Int32) :
    (getPwm distance).toInt32.toInt.sign = distance.toInt.sign := by
  rw [Int8.toInt_toInt32, getPwm_toInt]
  exact sign_duty _

/-- The difference of two positions is off by at most once round the 32 bits. -/
theorem way_bounds (d : Driver) : -4294967296 < d.way ∧ d.way < 4294967296 := by
  have hdesired := fits_toInt d.shared.desiredPosition
  have hposition := fits_toInt d.shared.position
  unfold Fits at hdesired hposition
  unfold Driver.way
  omega

/-- A wrapped distance has the other sign. -/
theorem sign_distance_iff (d : Driver) : d.distance.toInt.sign = d.way.sign ↔ Fits d.way := by
  constructor
  · intro hsign
    have hbounds := way_bounds d
    have hdistance := fits_toInt d.distance
    have hwrap : ∃ k : Int, d.distance.toInt = d.way + 4294967296 * k := by
      rw [Driver.distance, Int32.toInt_sub, Int.bmod_eq_self_sub_mul_bdiv]
      exact ⟨-d.way.bdiv (2 ^ 32), by rw [Int.mul_neg]; rfl⟩
    obtain ⟨k, hk⟩ := hwrap
    unfold Fits at hdistance ⊢
    rcases Int.lt_trichotomy d.way 0 with hway | hway | hway
    · have hneg := Int.sign_eq_neg_one_iff_neg.mp
        (hsign.trans (Int.sign_eq_neg_one_of_neg hway))
      omega
    · omega
    · have hpos := Int.sign_eq_one_iff_pos.mp (hsign.trans (Int.sign_eq_one_of_pos hway))
      omega
  · intro hfits
    rw [(distance_iff_fits d).mpr hfits]

/-- The motor is driven towards the set-point by an update exactly when 32 bits reach from
the position to the set-point. -/
theorem sign_pwmDuty_iff {d : Driver} (h : d.setPositionToDesired = true) :
    (motorUpdate d).shared.pwmDuty.toInt.sign = d.way.sign ↔ Fits d.way := by
  rw [motorUpdate_pwmDuty d h, sign_getPwm]
  exact sign_distance_iff d

theorem towards_iff {d : Driver} (h : d.setPositionToDesired = true) :
    Towards (motorUpdate d) ↔ Fits d.way := by
  have hway : (motorUpdate d).way = d.way := by
    unfold Driver.way
    rw [motorUpdate_position, motorUpdate_desiredPosition]
  have hdistance : (motorUpdate d).distance = d.distance := by
    unfold Driver.distance
    rw [motorUpdate_position, motorUpdate_desiredPosition]
  constructor
  · intro ht
    rw [← distance_iff_fits, ← hdistance, ← hway]
    exact ht.exact
  · intro hfits
    refine ⟨?_, ?_⟩
    · rw [hdistance, hway]
      exact (distance_iff_fits d).mpr hfits
    · rw [hway]
      exact (sign_pwmDuty_iff h).mpr hfits

/-! ### The position -/

/-- A controller that has counted every step so far. -/
structure Counting (t : Counted) : Prop where
  receiver : t.driver.setPositionToDesired = true
  position : t.driver.shared.position.toInt = t.steps

theorem counting_started (desired : Int32) (a b : Bool) :
    Counting (startedCount desired a b) := ⟨rfl, rfl⟩

/-- The driver between the count of a sample and its duty. -/
def counted (a b : Bool) (d : Driver) : Driver :=
  d.decode (ircA (lineSr a b)) (ircB (lineSr a b))

theorem position_sample (a b : Bool) (d : Driver) :
    (react (.sample a b) d).shared.position = (counted a b d).shared.position :=
  motorUpdate_position _

theorem sampled_position_iff (a b : Bool) {t : Counted} (h : Counting t) :
    (counted a b t.driver).shared.position.toInt = t.steps + decoded a b t.driver ↔
      Fits (t.steps + decoded a b t.driver) := by
  rw [← h.position]
  exact toInt_add_iff_fits _ _

/-- With the sample counted, what is left to go is left from the steps. -/
theorem sampled_way {a b : Bool} {t : Counted}
    (h : (counted a b t.driver).shared.position.toInt = t.steps + decoded a b t.driver) :
    (counted a b t.driver).way =
      t.driver.shared.desiredPosition.toInt - (t.steps + decoded a b t.driver) := by
  unfold Driver.way
  rw [h]
  rfl

theorem drives_iff (e : Event) (t : Counted) (h : Counting t) : Drives e t ↔ InRange e t := by
  cases e with
  | sample a b =>
    have htowards : Towards (react (.sample a b) t.driver) ↔ Fits (counted a b t.driver).way := by
      rw [← towards_iff (d := counted a b t.driver) h.receiver]
      exact ⟨fun ht => ⟨ht.exact, ht.sign⟩, fun ht => ⟨ht.exact, ht.sign⟩⟩
    simp only [Drives, InRange, position_sample, h.position, htowards]
    constructor
    · intro ⟨hexact, hfits⟩
      rw [sampled_way hexact] at hfits
      exact ⟨(sampled_position_iff a b h).mp hexact, hfits⟩
    · intro ⟨hsteps, hfits⟩
      have hexact := (sampled_position_iff a b h).mpr hsteps
      rw [← sampled_way hexact] at hfits
      exact ⟨hexact, hfits⟩
  | receive desired => exact Iff.rfl
  | update =>
    have hway : t.driver.way = t.driver.shared.desiredPosition.toInt - t.steps := by
      rw [Driver.way, h.position]
    simp only [Drives, InRange, ← hway]
    exact towards_iff h.receiver

theorem counting_step (e : Event) (t : Counted) (h : Counting t) (hC : InRange e t) :
    Counting (countedStep e t) := by
  cases e with
  | sample a b =>
    refine ⟨(motorUpdate_setPositionToDesired _).trans h.receiver, ?_⟩
    simp only [countedStep, position_sample]
    exact (sampled_position_iff a b h).mpr hC.1
  | receive desired => exact ⟨h.receiver, h.position⟩
  | update =>
    refine ⟨(motorUpdate_setPositionToDesired _).trans h.receiver, ?_⟩
    simp only [countedStep, react, motorUpdate_position]
    exact h.position

/-! ### Runs -/

/-- **The controller drives towards the set-point, with nothing overflowing, exactly as long
as the steps fit 32 bits and so does the way from them to the set-point.** -/
theorem drives_iff_inRange (desired : Int32) (a b : Bool) (events : List Event) :
    Along countedStep Drives (startedCount desired a b) events ↔
      Along countedStep InRange (startedCount desired a b) events :=
  along_iff_along_within (fun e t h _ hC => counting_step e t h hC)
    (fun e t h _ => drives_iff e t h) (counting_started desired a b)
    (Along.of_forall (fun _ _ => trivial) _ _)

/-- With the lowest set-point there is, one step forwards turns the motor round. -/
theorem lowest_setPoint_turns :
    ¬ Along countedStep Drives (startedCount 0 false false)
      [.receive (-2147483648), .sample true false] := by
  intro ⟨_, ⟨_, htowards⟩, _⟩
  have hsign := htowards.sign
  revert hsign
  decide +kernel

end RealTimeLabs.Motor
