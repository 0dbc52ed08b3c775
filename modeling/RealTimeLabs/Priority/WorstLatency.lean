import RealTimeLabs.Library.Records
import RealTimeLabs.Priority.Timespec

/-! The worst latency of the task with the high priority.

`tHPrio` takes the time before and after it waits for the mutex, and prints a latency when
it is worse than all before it. Between two readings of a monotonic clock nothing
overflows (`fits_of_reading`), so that the milliseconds are those of the true difference,
rounded down (`timeToMs_eq`). What is printed, from the 0 on with which the report starts,
are the records of the latencies (`worstLatency_reported`). -/
namespace RealTimeLabs.Priority
open Records

variable {w : Nat}

/-! ### The task -/

/-- The locals of `tHPrio` that outlive a measurement, and the numbers printed. -/
structure Report where
  maxTime : Int32
  printed : List Int32

/-- One measurement. -/
def measure (tstart tend : Timespec w) (r : Report) : Report :=
  let current := timeToMs (timespecSubtract tend tstart).result
  if current > r.maxTime then { maxTime := current, printed := r.printed ++ [current] } else r

/-- The report after `n` measurements, with the two readings of each. -/
def report (readings : Nat → Timespec w × Timespec w) : Nat → Report
  | 0 => ⟨0, [0]⟩
  | n + 1 => measure (readings n).1 (readings n).2 (report readings n)

/-- `for (i = 0; i < num_of_mes; ++i)` -/
def tHPrio (num_of_mes : Int32) (readings : Nat → Timespec w × Timespec w) : Report :=
  report readings num_of_mes.toInt.toNat

/-! ### What it should report -/

/-- Two readings of a monotonic clock, less than 2^31 milliseconds apart. -/
structure Reading (tstart tend : Timespec w) : Prop where
  before : tstart.Normalised
  after : tend.Normalised
  onward : tstart.instant ≤ tend.instant
  short : tend.instant - tstart.instant < 2147483648 * 1000000

instance (tstart tend : Timespec w) : Decidable (Reading tstart tend) :=
  decidable_of_iff (tstart.Normalised ∧ tend.Normalised ∧ tstart.instant ≤ tend.instant ∧
      tend.instant - tstart.instant < 2147483648 * 1000000)
    ⟨fun h => ⟨h.1, h.2.1, h.2.2.1, h.2.2.2⟩, fun h => ⟨h.before, h.after, h.onward, h.short⟩⟩

/-- In milliseconds. -/
def latency (tstart tend : Timespec w) : Int := (tend.instant - tstart.instant) / 1000000

/-- The latencies, with a 0 before them. -/
def latencies (readings : Nat → Timespec w × Timespec w) : Nat → Int
  | 0 => 0
  | i + 1 => latency (readings i).1 (readings i).2

/-- The report on `n` measurements. -/
structure Reported (readings : Nat → Timespec w × Timespec w) (n : Nat) (r : Report) : Prop where
  /-- Each subtraction is exact, and returns 0. -/
  subtraction : ∀ i < n, Exact (readings i).2 (readings i).1 ∧
    (timespecSubtract (readings i).2 (readings i).1).negative = false
  printed : r.printed.map Int32.toInt = strictMaxima (latencies readings) (n + 1)
  /-- The last number is the worst latency. -/
  last : ∃ worst, r.printed.getLast? = some worst ∧
    (∀ i < n, latency (readings i).1 (readings i).2 ≤ worst.toInt) ∧
    (0 < n → ∃ i < n, latency (readings i).1 (readings i).2 = worst.toInt)

/-! ### One measurement -/

section
variable (hw : 32 ≤ w)
include hw

theorem fits_of_reading {tstart tend : Timespec w} (h : Reading tstart tend) :
    Fits tend tstart := by
  obtain ⟨⟨hs0, hs1⟩, ⟨he0, he1⟩, honward, hshort⟩ := h
  simp only [Timespec.instant] at honward hshort
  have hlo := BitVec.le_toInt tstart.tv_sec
  have hhi := BitVec.toInt_lt (x := tend.tv_sec)
  have hcarry := carry_cases tend tstart
  refine ⟨⟨by omega, by omega⟩, holds_of_fits hw ⟨by omega, by omega⟩⟩

/-- The milliseconds of a difference. -/
theorem timeToMs_eq {t : Timespec w} (h : t.Normalised) (hpos : 0 ≤ t.instant)
    (hshort : t.instant < 2147483648 * 1000000) :
    (timeToMs t).toInt = t.instant / 1000000 := by
  obtain ⟨h0, h1⟩ := h
  simp only [Timespec.instant] at hpos hshort ⊢
  have hmillion : (1000000 : Int32).toInt = 1000000 := rfl
  have hrest : (t.tv_nsec / 1000000).toInt = t.tv_nsec.toInt / 1000000 := by
    rw [Int32.toInt_div, hmillion, Int.tdiv_eq_ediv_of_nonneg h0]
    apply Int.bmod_eq_of_le <;> omega
  have hthousand : (toTime w 1000).toInt = 1000 := toInt_toTime hw 1000
  have hseconds : (t.tv_sec * toTime w 1000).toInt = t.tv_sec.toInt * 1000 := by
    rw [BitVec.toInt_mul, hthousand]
    exact bmod_of_holds hw (holds_of_fits hw (by omega))
  have hsum : (t.tv_sec * toTime w 1000 + toTime w (t.tv_nsec / 1000000)).toInt =
      t.tv_sec.toInt * 1000 + t.tv_nsec.toInt / 1000000 := by
    rw [BitVec.toInt_add, hseconds, toInt_toTime hw, hrest]
    exact bmod_of_holds hw (holds_of_fits hw (by omega))
  rw [timeToMs, hsum, Int32.toInt_ofInt_of_le (by omega) (by omega)]
  omega

/-- What a measurement finds is the latency. -/
theorem current_eq {tstart tend : Timespec w} (h : Reading tstart tend) :
    (timeToMs (timespecSubtract tend tstart).result).toInt = latency tstart tend := by
  have hexact := timespecSubtract_exact hw h.after h.before (fits_of_reading hw h)
  have honward := h.onward
  have hshort := h.short
  rw [timeToMs_eq hw hexact.normalised (by rw [hexact.result]; omega)
    (by rw [hexact.result]; exact hshort), hexact.result]
  rfl

/-! ### The loop -/

/-- The task's report is that of the latencies, in 32 bits. -/
theorem report_running {readings : Nat → Timespec w × Timespec w} {n : Nat}
    (h : ∀ i < n, Reading (readings i).1 (readings i).2) :
    (report readings n).maxTime.toInt = (running (latencies readings) n).best ∧
      (report readings n).printed.map Int32.toInt = (running (latencies readings) n).shown := by
  induction n with
  | zero => exact ⟨rfl, rfl⟩
  | succ n ih =>
    obtain ⟨hbest, hshown⟩ := ih fun i hi => h i (Nat.lt_succ_of_lt hi)
    have hcurrent := current_eq hw (h n (Nat.lt_succ_self n))
    have hworse : timeToMs (timespecSubtract (readings n).2 (readings n).1).result >
        (report readings n).maxTime ↔
        (running (latencies readings) n).best < latencies readings (n + 1) := by
      rw [gt_iff_lt, Int32.lt_iff_toInt_lt, hbest, hcurrent]
      rfl
    simp only [report, measure, running, Running.see]
    by_cases hlt : (running (latencies readings) n).best < latencies readings (n + 1)
    · rw [if_pos (hworse.mpr hlt), if_pos hlt]
      refine ⟨hcurrent, ?_⟩
      rw [List.map_append, hshown, List.map_singleton, hcurrent]
      rfl
    · rw [if_neg fun hgt => hlt (hworse.mp hgt), if_neg hlt]
      exact ⟨hbest, hshown⟩

theorem reported {readings : Nat → Timespec w × Timespec w} {n : Nat}
    (h : ∀ i < n, Reading (readings i).1 (readings i).2) :
    Reported readings n (report readings n) := by
  obtain ⟨hbest, hshown⟩ := report_running hw h
  constructor
  · intro i hi
    have hexact := timespecSubtract_exact hw (h i hi).after (h i hi).before
      (fits_of_reading hw (h i hi))
    refine ⟨hexact, Bool.eq_false_iff.mpr fun hnegative => ?_⟩
    exact absurd (hexact.negative.mp hnegative) (not_lt.mpr (h i hi).onward)
  · rw [hshown, running_shown]
  · obtain ⟨hbound, i, hi, hreached⟩ := running_best (latencies readings) n
    have hlast : (report readings n).printed.getLast?.map Int32.toInt =
        some (running (latencies readings) n).best := by
      rw [← List.getLast?_map, hshown, running_last]
    obtain ⟨worst, hworst, hvalue⟩ := Option.map_eq_some_iff.mp hlast
    refine ⟨worst, hworst, fun j hj => ?_, fun hpos => ?_⟩
    · rw [hvalue]
      exact hbound (j + 1) hj
    · rw [hvalue]
      cases i with
      | zero =>
        -- the 0 at the start is the worst, and so the first latency is 0
        have hfirst : latency (readings 0).1 (readings 0).2 ≤ _ := hbound 1 hpos
        have hpositive : 0 ≤ latency (readings 0).1 (readings 0).2 :=
          Int.ediv_nonneg (Int.sub_nonneg.mpr (h 0 hpos).onward) (by decide)
        have hzero : (0 : Int) = (running (latencies readings) n).best := hreached
        exact ⟨0, hpos, by omega⟩
      | succ i => exact ⟨i, hi, hreached⟩

/-- **The worst latency is reported**: for every number of measurements and all readings of
a monotonic clock, the numbers printed are the records of the latencies; and
`timespec_subtract` is exact between all normalised times that a `time_t` can subtract. -/
theorem worstLatency_reported :
    (∀ (num_of_mes : Int32) (readings : Nat → Timespec w × Timespec w),
      (∀ i < num_of_mes.toInt.toNat, Reading (readings i).1 (readings i).2) →
      Reported readings num_of_mes.toInt.toNat (tHPrio num_of_mes readings)) ∧
    ∀ x y : Timespec w, x.Normalised → y.Normalised → Fits x y → Exact x y :=
  ⟨fun _ _ h => reported hw h, fun _ _ hx hy hfits => timespecSubtract_exact hw hx hy hfits⟩

end

/-- Latencies of 5, 0 and 12 ms, the last of them across a second. -/
def threeReadings : Nat → Timespec 64 × Timespec 64
  | 0 => (⟨7, 100⟩, ⟨7, 5000200⟩)
  | 1 => (⟨8, 0⟩, ⟨8, 999999⟩)
  | _ => (⟨8, 990000000⟩, ⟨9, 2000001⟩)

theorem worstLatency_reported_three :
    (tHPrio 3 threeReadings).printed = [0, 5, 12] ∧
    Reported threeReadings (3 : Int32).toInt.toNat (tHPrio 3 threeReadings) ∧
    (timespecSubtract ⟨9, 2000001⟩ (⟨8, 990000000⟩ : Timespec 64)).result = ⟨0, 12000001⟩ ∧
    Exact (⟨9, 2000001⟩ : Timespec 64) ⟨8, 990000000⟩ :=
  have h := worstLatency_reported (w := 64) (by decide)
  ⟨by decide, h.1 3 threeReadings (by decide), by decide,
    h.2 _ _ (by decide) (by decide)
      ⟨holds_of_fits (by decide) (by decide), holds_of_fits (by decide) (by decide)⟩⟩

/-- A first latency of 0 ms is a record, and is not printed again after the 0 of the start;
and the carry turns the last second of a `time_t` to its first, of 32 bits and of 64. -/
theorem lastSecond_inexact :
    (∃ tstart tend : Timespec 64, Reading tstart tend ∧
      (tHPrio 1 fun _ => (tstart, tend)).printed = [0] ∧
      (tHPrio 1 fun _ => (tstart, tend)).printed.tail.map Int32.toInt ≠
        strictMaxima (fun _ => latency tstart tend) 1) ∧
    (∃ x y : Timespec 32, x.Normalised ∧ y.Normalised ∧ x.instant < y.instant ∧
      (timespecSubtract x y).negative = false ∧ ¬ Exact x y) ∧
    ∃ x y : Timespec 64, x.Normalised ∧ y.Normalised ∧ x.instant < y.instant ∧
      (timespecSubtract x y).negative = false ∧ ¬ Exact x y := by
  refine ⟨⟨⟨8, 0⟩, ⟨8, 999999⟩, by decide, by decide, by decide⟩,
    ⟨⟨0, 0⟩, ⟨2147483647, 1⟩, by decide, by decide, by decide, by decide, fun h => ?_⟩,
    ⟨0, 0⟩, ⟨9223372036854775807, 1⟩, by decide, by decide, by decide, by decide, fun h => ?_⟩
  · exact absurd (h.negative.mpr (by decide)) (by decide)
  · exact absurd (h.negative.mpr (by decide)) (by decide)

end RealTimeLabs.Priority
