import RealTimeLabs.Library.Bytes

/-! The shared registry of companies, byte by byte (`structs.h`).

`company_registry` is fifty entries of 28 bytes: the count, the name, the flag, and three
bytes of padding. A field is the bytes at its offset, so that a name longer than its
array runs over the flag and into the entries behind. The lemmas say which reads each
write leaves alone. -/
namespace RealTimeLabs.Registry
open Bytes

/-- Entries of `companies`. -/
def slots : Nat := 50

def sizeofCompany : Nat := 28
def nameOffset : Nat := 4
def isEmptyOffset : Nat := 24

/-- The first number that an `int` cannot count to. -/
def intLimit : Nat := 2147483648

/-- `&ptr->companies[i]`. -/
def company (i : Nat) : Nat := sizeofCompany * i

def nOfSoilDone (m : Memory) (i : Nat) : BitVec 32 := load32 m (company i)

def isEmpty (m : Memory) (i : Nat) : Bool := m (company i + isEmptyOffset) ≠ 0

def setNOfSoilDone (i : Nat) (n : BitVec 32) (m : Memory) : Memory := store32 m (company i) n

def setIsEmpty (i : Nat) (v : Byte) (m : Memory) : Memory :=
  writeBytes m (company i + isEmptyOffset) [v]

/-- `strcpy(ptr->companies[i].name, c_name)`. -/
def copyName (i : Nat) (c_name : CString) (m : Memory) : Memory :=
  strcpy m (company i + nameOffset) c_name

/-- `memset`, and the loop that marks every entry empty. -/
def initialised (m : Memory) : Memory :=
  (List.range slots).foldl (fun m i => setIsEmpty i 1 m)
    (memset m 0 0 (sizeofCompany * slots))

/-! ### Flags -/

theorem isEmpty_setIsEmpty_self (m : Memory) (i : Nat) (v : Byte) :
    isEmpty (setIsEmpty i v m) i = (v ≠ 0 : Bool) := by
  have h := writeBytes_at m (company i + isEmptyOffset) 0 [v] Nat.zero_lt_one
  change decide (writeBytes m _ [v] (company i + isEmptyOffset + 0) ≠ 0) = _
  rw [h]
  rfl

theorem isEmpty_setIsEmpty_of_ne (m : Memory) {i j : Nat} (v : Byte) (h : i ≠ j) :
    isEmpty (setIsEmpty i v m) j = isEmpty m j := by
  unfold isEmpty setIsEmpty
  rw [writeBytes_outside]
  simp only [company, sizeofCompany, isEmptyOffset, List.length_singleton]
  omega

theorem isEmpty_setNOfSoilDone (m : Memory) (i j : Nat) (n : BitVec 32) :
    isEmpty (setNOfSoilDone i n m) j = isEmpty m j := by
  unfold isEmpty setNOfSoilDone
  rw [store32_outside]
  simp only [company, sizeofCompany, isEmptyOffset]
  omega

/-- A name reaches the flag of an entry with one of its characters. -/
def ReachesFlag (i : Nat) (c_name : CString) (j : Nat) : Prop :=
  i ≤ j ∧ sizeofCompany * (j - i) + (isEmptyOffset - nameOffset) < c_name.strlen

/-- Where only the terminator of a name can reach, an entry in use stays in use. -/
theorem isEmpty_copyName {m : Memory} {i j : Nat} {c_name : CString}
    (h : ¬ ReachesFlag i c_name j) (hj : isEmpty m j = false) :
    isEmpty (copyName i c_name m) j = false := by
  simp only [ReachesFlag, sizeofCompany, isEmptyOffset, nameOffset] at h
  by_cases hend : company i + nameOffset + c_name.strlen = company j + isEmptyOffset
  · have hterm := writeBytes_at m (company i + nameOffset) c_name.strlen (c_name.chars ++ [0])
      (by simp [CString.strlen])
    unfold isEmpty copyName strcpy
    rw [← hend, hterm]
    simp [CString.strlen]
  · unfold isEmpty copyName at *
    rw [strcpy_outside]
    · exact hj
    · simp only [company, sizeofCompany, isEmptyOffset, nameOffset] at hend ⊢
      omega

/-! ### Counts -/

theorem nOfSoilDone_setNOfSoilDone_self (m : Memory) (i : Nat) (n : BitVec 32) :
    nOfSoilDone (setNOfSoilDone i n m) i = n := load32_store32 m (company i) n

theorem nOfSoilDone_setNOfSoilDone_of_ne (m : Memory) {i j : Nat} (n : BitVec 32) (h : i ≠ j) :
    nOfSoilDone (setNOfSoilDone i n m) j = nOfSoilDone m j := by
  apply load32_store32_ne
  simp only [company, sizeofCompany]
  omega

theorem nOfSoilDone_setIsEmpty (m : Memory) (i j : Nat) (v : Byte) :
    nOfSoilDone (setIsEmpty i v m) j = nOfSoilDone m j := by
  apply load32_outside
  simp only [company, sizeofCompany, isEmptyOffset, List.length_singleton]
  omega

/-- A name stays within its entry, or has no entry behind it. -/
def Fits (i : Nat) (c_name : CString) : Prop :=
  c_name.strlen < sizeofCompany - nameOffset ∨ i + 1 = slots

instance (i : Nat) (c_name : CString) : Decidable (Fits i c_name) :=
  inferInstanceAs (Decidable (_ ∨ _))

theorem nOfSoilDone_copyName {m : Memory} {i j : Nat} {c_name : CString} (h : Fits i c_name)
    (hj : j < slots) : nOfSoilDone (copyName i c_name m) j = nOfSoilDone m j := by
  simp only [Fits, sizeofCompany, nameOffset, slots] at h hj
  apply load32_strcpy_outside
  simp only [company, sizeofCompany, nameOffset]
  omega

theorem not_reachesFlag_of_fits {i j : Nat} {c_name : CString} (h : Fits i c_name)
    (hij : i ≠ j) (hj : j < slots) : ¬ ReachesFlag i c_name j := by
  intro ⟨hle, hlen⟩
  simp only [Fits, sizeofCompany, isEmptyOffset, nameOffset, slots] at h hlen hj
  omega

/-! ### The first company's part -/

/-- Marking the first `k` entries. -/
def marked (m : Memory) (k : Nat) : Memory := (List.range k).foldl (fun m i => setIsEmpty i 1 m) m

theorem marked_succ (m : Memory) (k : Nat) : marked m (k + 1) = setIsEmpty k 1 (marked m k) := by
  simp [marked, List.range_succ]

theorem nOfSoilDone_marked (m : Memory) (k j : Nat) :
    nOfSoilDone (marked m k) j = nOfSoilDone m j := by
  induction k with
  | zero => rfl
  | succ k ih => rw [marked_succ, nOfSoilDone_setIsEmpty, ih]

theorem nOfSoilDone_initialised {m : Memory} {j : Nat} (h : j < slots) :
    nOfSoilDone (initialised m) j = 0 := by
  have hmarked := nOfSoilDone_marked (memset m 0 0 (sizeofCompany * slots)) slots j
  refine hmarked.trans (load32_zero fun x hlo hhi => memset_at m 0 x _ 0 ⟨Nat.zero_le _, ?_⟩)
  simp only [company, sizeofCompany, slots] at hlo hhi h ⊢
  omega

/-! ### Entries as the first company leaves them -/

/-- Marked empty, with nothing counted. -/
structure Blank (m : Memory) (i : Nat) : Prop where
  flag : m (company i + isEmptyOffset) = 1
  count : nOfSoilDone m i = 0

theorem flag_setIsEmpty_of_ne (m : Memory) {i j : Nat} (v : Byte) (h : i ≠ j) :
    setIsEmpty i v m (company j + isEmptyOffset) = m (company j + isEmptyOffset) := by
  apply writeBytes_outside
  simp only [company, sizeofCompany, isEmptyOffset, List.length_singleton]
  omega

theorem flag_setIsEmpty_self (m : Memory) (i : Nat) (v : Byte) :
    setIsEmpty i v m (company i + isEmptyOffset) = v :=
  writeBytes_at m (company i + isEmptyOffset) 0 [v] Nat.zero_lt_one

theorem flag_setNOfSoilDone (m : Memory) (i j : Nat) (n : BitVec 32) :
    setNOfSoilDone i n m (company j + isEmptyOffset) = m (company j + isEmptyOffset) := by
  apply store32_outside
  simp only [company, sizeofCompany, isEmptyOffset]
  omega

theorem Blank.setIsEmpty {m : Memory} {i j : Nat} (h : Blank m j) (v : Byte) (hij : i ≠ j) :
    Blank (setIsEmpty i v m) j :=
  ⟨(flag_setIsEmpty_of_ne m v hij).trans h.flag, (nOfSoilDone_setIsEmpty m i j v).trans h.count⟩

theorem Blank.setNOfSoilDone {m : Memory} {i j : Nat} (h : Blank m j) (n : BitVec 32)
    (hij : i ≠ j) : Blank (setNOfSoilDone i n m) j :=
  ⟨(flag_setNOfSoilDone m i j n).trans h.flag,
    (nOfSoilDone_setNOfSoilDone_of_ne m n hij).trans h.count⟩

/-- A name written before an entry leaves it blank if only the terminator reaches it. -/
theorem Blank.copyName {m : Memory} {i j : Nat} {c_name : CString} (h : Blank m j)
    (hij : i ≠ j) (hlen : i < j → nameOffset + c_name.strlen ≤ sizeofCompany * (j - i)) :
    Blank (copyName i c_name m) j := by
  simp only [nameOffset, sizeofCompany] at hlen
  constructor
  · unfold Registry.copyName
    rw [strcpy_outside]
    · exact h.flag
    · simp only [company, sizeofCompany, isEmptyOffset, nameOffset]
      omega
  · refine load32_eq_zero_iff.mpr fun x hlo hhi => ?_
    apply strcpy_keeps_zero (load32_eq_zero_iff.mp h.count x hlo hhi)
    simp only [company, sizeofCompany, nameOffset] at hlo hhi ⊢
    omega

theorem flag_marked {m : Memory} {k j : Nat} (h : j < k) :
    marked m k (company j + isEmptyOffset) = 1 := by
  induction k with
  | zero => omega
  | succ k ih =>
    rw [marked_succ]
    by_cases hj : k = j
    · rw [hj, flag_setIsEmpty_self]
    · rw [flag_setIsEmpty_of_ne _ _ hj]
      exact ih (by omega)

/-- `memset` and the loop leave every entry blank. -/
theorem blank_initialised {m : Memory} {j : Nat} (h : j < slots) : Blank (initialised m) j :=
  ⟨flag_marked h, nOfSoilDone_initialised h⟩

end RealTimeLabs.Registry
