import RealTimeLabs.Cache.Arrays

/-! The walk that is measured.

`measurement` counts its links down from `jumps`, and tests the counter after it has
decremented it. It follows one link less than it divides by (`measurement_of_pos`), and from zero
or less it counts down until the counter overflows (`measurement_of_nonpos`). There is no
number of jumps for which it does what `config.h` says (`measurement_undocumented`). -/
namespace RealTimeLabs.Cache
open LinkedArray

/-! ### The functions -/

/-- What C leaves undefined. -/
inductive Fault where
  | overflow
  | outOfRange
  | divideByZero
deriving DecidableEq

/-- `while (--counter) p = p->next;`, with the elements whose links it has followed. -/
def walk (next : Nat → Option Nat) (counter : Int32) (p : Nat) : Except Fault (Nat × List Nat) :=
  if _h : counter = Int32.minValue then .error .overflow
  else if counter - 1 = 0 then .ok (p, [])
  else
    match (load maxArrayLen next p).join with
    | none => .error .outOfRange
    | some q =>
      match walk next (counter - 1) q with
      | .error fault => .error fault
      | .ok (last, read) => .ok (last, p :: read)
termination_by (counter.toInt + 2147483648).toNat
decreasing_by
  have hpred := toInt_pred _h
  have hlo := (counter - 1).le_toInt
  omega

structure Measured where
  /-- What `measurement` returns. -/
  perJump : UInt32
  /-- Where the walk has ended. -/
  last : Nat
  read : List Nat

def measurement (next : Nat → Option Nat) (jumps : Int32) (start stop : UInt32) :
    Except Fault Measured :=
  match walk next jumps 0 with
  | .error fault => .error fault
  | .ok (last, read) =>
    if jumps.toUInt32 = 0 then .error .divideByZero
    else .ok ⟨(stop - start) / jumps.toUInt32, last, read⟩

def sequential : Int32 := 0
def random : Int32 := 1

/-- What a call of `measureCache` draws from `rand` and reads from the timer, at each size. -/
structure Environment where
  rand : Nat → Nat → Rand
  start : Nat → UInt32
  stop : Nat → UInt32

def faulting {α : Type} : Option α → Except Fault α
  | none => .error .outOfRange
  | some x => .ok x

/-- The array for the next measurement; nothing is done in a mode that is unknown. -/
def prepare (mode : Int32) (rand : Nat → Rand) (a : Arrays) (n : Int32) :
    Option (Except Fault Arrays) :=
  if mode = sequential then
    some ((faulting (seqArray a.next n)).map fun next => { a with next := next })
  else if mode = random then some (faulting (ranArray rand a n))
  else none

/-- `for (i = from; i <= MAX_ARRAY_LEN; i <<= 1)` -/
def sizes (i : Nat) : List Nat :=
  if _h : 0 < i ∧ i ≤ maxArrayLen then i :: sizes (i <<< 1) else []
termination_by maxArrayLen + 1 - i
decreasing_by omega

/-- The rows that are printed: the size in bytes and the result. -/
def measureSizes (mode jumps : Int32) (env : Environment) (a : Arrays) :
    List Nat → Except Fault (List (Nat × UInt32))
  | [] => .ok []
  | i :: rest =>
    match prepare mode (env.rand i) a (Int32.ofNat i) with
    | none => .ok []
    | some (.error fault) => .error fault
    | some (.ok a) =>
      match measurement a.next jumps (env.start i) (env.stop i) with
      | .error fault => .error fault
      | .ok m =>
        (measureSizes mode jumps env a rest).map fun rows => (i * sizeofElem, m.perJump) :: rows

def measureCache (mode jumps : Int32) (env : Environment) (a : Arrays) :
    Except Fault (List (Nat × UInt32)) := measureSizes mode jumps env a (sizes 256)

/-! ### What it should do -/

/-- An array that one of the two functions has prepared. -/
def Prepared (next : Nat → Option Nat) (n : Int32) : Prop :=
  (∃ before, seqArray before n = some next) ∨
    ∃ rand before after, ranArray rand before n = some after ∧ after.next = next

/-- What `config.h` says of a measurement: no fault, and as many links as `jumps`, which is
what the time is divided by. -/
def Documented (next : Nat → Option Nat) (n jumps : Int32) (start stop : UInt32) : Prop :=
  ∃ m, measurement next jumps start stop = .ok m ∧ (1 ≤ jumps.toInt →
    m.read.length = jumps.toInt.toNat ∧
    m.read.toFinset.card = min jumps.toInt.toNat n.toInt.toNat ∧
    follow next jumps.toInt.toNat 0 = some m.last ∧
    m.perJump = (stop - start) / UInt32.ofNat m.read.length)

/-! ### Prepared arrays -/

section
variable {next : Nat → Option Nat} {n : Int32}

/-- A size that the arrays do not have leads out of them. -/
theorem Prepared.size (h : Prepared next n) : Size n := by
  apply size_of_turns
  by_contra hge
  rcases h with ⟨before, hseq⟩ | ⟨rand, before, after, hran, -⟩
  · rw [seqArray] at hseq
    obtain ⟨links, -, hstore⟩ := Option.bind_eq_some_iff.mp hseq
    rw [store_of_ge (Nat.le_of_not_lt hge)] at hstore
    cases hstore
  · simp only [ranArray, linkEntries, Option.bind_eq_bind, Option.bind_eq_some_iff] at hran
    obtain ⟨_, -, order, -, _, -, _, ⟨i, hload, -⟩, -⟩ := hran
    rw [load, if_neg hge] at hload
    cases hload

theorem Prepared.cyclic (h : Prepared next n) : Cyclic next n := by
  have hsize := h.size
  rcases h with ⟨before, hseq⟩ | ⟨rand, before, after, hran, rfl⟩
  · obtain ⟨next', hnext', hcyclic, -⟩ := seqArray_cyclic hsize before
    rw [Option.some_inj.mp (hseq.symm.trans hnext')]
    exact hcyclic
  · obtain ⟨after', hafter', hcyclic⟩ := ranArray_cyclic hsize rand before
    rw [Option.some_inj.mp (hran.symm.trans hafter')]
    exact hcyclic

theorem Size.zero_mem (h : Size n) : 0 ∈ Set.Iio n.toInt.toNat := by
  have hpos := h.pos
  exact Set.mem_Iio.mpr (by omega)

/-! ### The walk -/

theorem minValue_toInt : Int32.minValue.toInt = -2147483648 := rfl

theorem ne_minValue {counter : Int32} (h : -2147483648 < counter.toInt) :
    counter ≠ Int32.minValue := fun he => by
  rw [he, minValue_toInt] at h
  omega

/-- A pointer on the cycle is followed. -/
theorem Cyclic.load (h : Cyclic next n) (hsize : Size n) {p : Nat}
    (hp : p ∈ Set.Iio n.toInt.toNat) :
    ∃ q ∈ Set.Iio n.toInt.toNat, next p = some q ∧
      (LinkedArray.load maxArrayLen next p).join = some q := by
  obtain ⟨q, hq, hnext⟩ := h.stays p hp
  refine ⟨q, hq, hnext, ?_⟩
  rw [load_of_lt (Nat.lt_of_lt_of_le hp (size_le hsize)), hnext]
  rfl

theorem walk_of_pos (h : Cyclic next n) (hsize : Size n) {k : Nat} {counter : Int32}
    (hcounter : counter.toInt = k + 1) {p : Nat} (hp : p ∈ Set.Iio n.toInt.toNat) :
    ∃ last, follow next k p = some last ∧
      walk next counter p = .ok (last, passed next k p) := by
  induction k generalizing counter p with
  | zero =>
    have hmin : counter ≠ Int32.minValue := ne_minValue (by omega)
    have hzero : counter - 1 = 0 := by
      apply Int32.toInt_inj.mp
      rw [toInt_pred hmin, hcounter]
      rfl
    refine ⟨p, rfl, ?_⟩
    rw [walk, dif_neg hmin, if_pos hzero]
    rfl
  | succ k ih =>
    have hmin : counter ≠ Int32.minValue := ne_minValue (by omega)
    have hpred := toInt_pred hmin
    have hne : counter - 1 ≠ 0 := fun he => by
      rw [he, Int32.toInt_zero] at hpred
      omega
    obtain ⟨q, hq, hnext, hload⟩ := h.load hsize hp
    obtain ⟨last, hlast, hwalk⟩ := ih (show (counter - 1).toInt = k + 1 by omega) hq
    refine ⟨last, (follow_succ hnext k).trans hlast, ?_⟩
    rw [walk, dif_neg hmin, if_neg hne, hload, passed_succ hnext]
    simp only [hwalk]

/-- From zero or below, the counter only gets further away from zero. -/
theorem walk_of_nonpos (h : Cyclic next n) (hsize : Size n) {counter : Int32}
    (hcounter : counter.toInt ≤ 0) {p : Nat} (hp : p ∈ Set.Iio n.toInt.toNat) :
    walk next counter p = .error .overflow := by
  -- by what is left above INT_MIN
  induction hk : (counter.toInt + 2147483648).toNat generalizing counter p with
  | zero =>
    have hlo := counter.le_toInt
    have hmin : counter = Int32.minValue := Int32.toInt_inj.mp (by rw [minValue_toInt]; omega)
    rw [walk, dif_pos hmin]
  | succ k ih =>
    have hmin : counter ≠ Int32.minValue := ne_minValue (by omega)
    have hpred := toInt_pred hmin
    have hne : counter - 1 ≠ 0 := fun he => by
      rw [he, Int32.toInt_zero] at hpred
      omega
    obtain ⟨q, hq, -, hload⟩ := h.load hsize hp
    rw [walk, dif_neg hmin, if_neg hne, hload]
    simp only [ih (show (counter - 1).toInt ≤ 0 by omega) hq (by omega)]

/-! ### The measurement -/

/-- From one on, the walk is one link shorter than the number that the time is divided by. -/
theorem measurement_of_pos (h : Prepared next n) {jumps : Int32} (hjumps : 1 ≤ jumps.toInt)
    (start stop : UInt32) :
    ∃ last, follow next (jumps.toInt.toNat - 1) 0 = some last ∧
      measurement next jumps start stop = .ok ⟨(stop - start) / jumps.toUInt32, last,
        passed next (jumps.toInt.toNat - 1) 0⟩ := by
  obtain ⟨last, hlast, hwalk⟩ := walk_of_pos h.cyclic h.size
    (show jumps.toInt = ((jumps.toInt.toNat - 1 : Nat) : Int) + 1 by omega) h.size.zero_mem
  have hne : ¬ jumps.toUInt32 = 0 := fun he => by
    have hzero : jumps = 0 := by
      rw [← Int32.toInt32_toUInt32 jumps, he]
      rfl
    rw [hzero] at hjumps
    exact absurd hjumps (by decide)
  refine ⟨last, hlast, ?_⟩
  simp only [measurement, hwalk, if_neg hne]

theorem measurement_of_nonpos (h : Prepared next n) {jumps : Int32} (hjumps : jumps.toInt ≤ 0)
    (start stop : UInt32) : measurement next jumps start stop = .error .overflow := by
  simp only [measurement, walk_of_nonpos h.cyclic h.size hjumps h.size.zero_mem]

/-- A measurement reads one element less than `jumps`, all different until the cycle is through. -/
theorem measurement_read (h : Prepared next n) {jumps : Int32} (hjumps : 1 ≤ jumps.toInt)
    {start stop : UInt32} {m : Measured} (hm : measurement next jumps start stop = .ok m) :
    m.read.length + 1 = jumps.toInt.toNat ∧
      m.read.toFinset.card = min m.read.length n.toInt.toNat := by
  obtain ⟨last, -, hmeasured⟩ := measurement_of_pos h hjumps start stop
  obtain rfl := Except.ok.inj (hm.symm.trans hmeasured)
  have hlength := h.cyclic.passed_length h.size.zero_mem (jumps.toInt.toNat - 1)
  have hcard := h.cyclic.card_passed h.size.zero_mem (jumps.toInt.toNat - 1)
  constructor
  · rw [hlength]
    omega
  · rw [hcard, hlength]

/-- **No measurement makes the documented number of jumps.** -/
theorem measurement_undocumented (h : Prepared next n) (jumps : Int32) (start stop : UInt32) :
    ¬ Documented next n jumps start stop := by
  intro ⟨m, hm, hlaw⟩
  rcases lt_or_ge 0 jumps.toInt with hpos | hneg
  · have hlength := (hlaw hpos).1
    have hread := (measurement_read h hpos hm).1
    omega
  · rw [measurement_of_nonpos h hneg] at hm
    cases hm

end

/-- Two elements, prepared by `seqArray`. -/
def twoElements : Nat → Option Nat :=
  Function.update (Function.update (fun _ => none) 0 (some 1)) 1 (some 0)

theorem prepared_twoElements : Prepared twoElements 2 := .inl ⟨fun _ => none, rfl⟩

theorem measurement_undocumented_two : ¬ Documented twoElements 2 3 0 100 :=
  measurement_undocumented prepared_twoElements 3 0 100

/-- Asked for one jump, the walk makes none. -/
theorem oneJump_missing :
    Prepared twoElements 2 ∧ measurement twoElements 1 0 100 = .ok ⟨100, 0, []⟩ ∧
      ¬ Documented twoElements 2 1 0 100 := by
  obtain ⟨last, hlast, hmeasured⟩ :=
    measurement_of_pos prepared_twoElements (show 1 ≤ (1 : Int32).toInt by decide) 0 100
  obtain rfl := Option.some_inj.mp hlast
  refine ⟨prepared_twoElements, hmeasured, fun ⟨m, hm, hlaw⟩ => ?_⟩
  obtain rfl := Except.ok.inj (hm.symm.trans hmeasured)
  exact absurd (hlaw (by decide)).1 (by decide)

/-! ### The measurements of all sizes -/

theorem mem_sizes {i k : Nat} (h : k ∈ sizes i) : 1 ≤ k ∧ k ≤ maxArrayLen := by
  fun_induction sizes i with
  | case1 i hi ih =>
    rcases List.mem_cons.mp h with rfl | hmem
    · exact hi
    · exact ih hmem
  | case2 i hi => cases h

theorem size_ofNat {i : Nat} (h : 1 ≤ i ∧ i ≤ maxArrayLen) : Size (Int32.ofNat i) := by
  have hmax : maxArrayLen = 1048576 := rfl
  have htoInt : (Int32.ofNat i).toInt = i := Int32.toInt_ofNat_of_lt (by omega)
  constructor <;> rw [htoInt] <;> omega

theorem prepare_prepared {mode : Int32} (hmode : mode = sequential ∨ mode = random)
    (rand : Nat → Rand) (a : Arrays) {n : Int32} (h : Size n) :
    ∃ a', prepare mode rand a n = some (.ok a') ∧ Prepared a'.next n := by
  rcases hmode with rfl | rfl
  · obtain ⟨next, hnext, -⟩ := seqArray_cyclic h a.next
    refine ⟨{ a with next := next }, ?_, .inl ⟨a.next, hnext⟩⟩
    rw [prepare, if_pos rfl, hnext]
    rfl
  · obtain ⟨a', ha', -⟩ := ranArray_cyclic h rand a
    refine ⟨a', ?_, .inr ⟨rand, a, a', ha', rfl⟩⟩
    rw [prepare, if_neg (by decide), if_pos rfl, ha']
    rfl

section
variable {mode jumps : Int32} (hmode : mode = sequential ∨ mode = random) (env : Environment)
  (a : Arrays)
include hmode

/-- A row for each size, with a time that `jumps` divides, for one link less. -/
theorem measureCache_rows (hjumps : 1 ≤ jumps.toInt) : measureCache mode jumps env a =
    .ok ((sizes 256).map fun i =>
      (i * sizeofElem, (env.stop i - env.start i) / jumps.toUInt32)) := by
  have hsizes (l : List Nat) (hl : ∀ i ∈ l, 1 ≤ i ∧ i ≤ maxArrayLen) (a : Arrays) :
      measureSizes mode jumps env a l = .ok (l.map fun i =>
        (i * sizeofElem, (env.stop i - env.start i) / jumps.toUInt32)) := by
    induction l generalizing a with
    | nil => rfl
    | cons i rest ih =>
      obtain ⟨hi, hrest⟩ := List.forall_mem_cons.mp hl
      obtain ⟨a', ha', hprepared⟩ := prepare_prepared hmode (env.rand i) a (size_ofNat hi)
      obtain ⟨last, -, hmeasured⟩ :=
        measurement_of_pos hprepared hjumps (env.start i) (env.stop i)
      simp only [measureSizes, ha', hmeasured, ih hrest a']
      rfl
  exact hsizes _ (fun i hi => mem_sizes hi) a

/-- Without a positive number of jumps the first measurement is not left. -/
theorem measureCache_overflow (hjumps : jumps.toInt ≤ 0) :
    measureCache mode jumps env a = .error .overflow := by
  have hfirst : sizes 256 = 256 :: sizes (256 <<< 1) := by
    rw [sizes, dif_pos (by decide)]
  obtain ⟨a', ha', hprepared⟩ :=
    prepare_prepared hmode (env.rand 256) a (size_ofNat (i := 256) (by decide))
  have hfault := measurement_of_nonpos hprepared hjumps (env.start 256) (env.stop 256)
  simp only [measureCache, hfirst, measureSizes, ha', hfault]

end

end RealTimeLabs.Cache
