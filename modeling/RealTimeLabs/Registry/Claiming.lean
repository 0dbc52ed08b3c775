import RealTimeLabs.Registry.Accounts

/-! What a company leaves behind in the registry when it claims its slot.

`init_shm` copies the name with `strcpy`, whatever its length, and marks the slot in use
afterwards. The flag is the byte behind the name's array, so that the name is cut there
and ends inside its slot. The bytes of a longer name stay where they have been written,
though: behind the padding, over the next slots and over what lies behind the registry.
No other slot is touched exactly where they are what stands there already
(`claiming_onlyOwn_iff`), and a name of up to 23 characters always fits
(`standsThere_of_short`). -/
namespace RealTimeLabs.Registry
open Bytes

/-! ### The effect -/

/-- The registry with slot `i` claimed. -/
def claimed (i : Nat) (c_name : CString) (m : Memory) : Memory :=
  setIsEmpty i 0 (copyName i c_name m)

/-- The count, the name and the flag of a slot are its bytes up to the flag. -/
def SameFields (m m' : Memory) (j : Nat) : Prop :=
  ∀ o ≤ isEmptyOffset, m' (company j + o) = m (company j + o)

/-- What claiming slot `i` should do. -/
structure OnlyOwn (m m' : Memory) (i : Nat) : Prop where
  others : ∀ j < slots, j ≠ i → SameFields m m' j
  behind : ∀ x, sizeofCompany * slots ≤ x → m' x = m x
  flag : m' (company i + isEmptyOffset) = 0
  count : nOfSoilDone m' i = nOfSoilDone m i
  /-- `%s` ends before the slot does. -/
  printed : ∃ n, strlenWithin m' (company i + nameOffset) (sizeofCompany - nameOffset) = some n

/-- A byte of some slot's field, or behind the registry; the others are padding. -/
def Counts (x : Nat) : Prop := sizeofCompany * slots ≤ x ∨ x % sizeofCompany ≤ isEmptyOffset

/-- Character `k` of a name, or its terminator. -/
def nameByte (c_name : CString) (k : Nat) : Byte := (c_name.chars ++ [0]).getD k 0

/-- Whatever the name brings behind its slot, stands there already. -/
def StandsThere (i : Nat) (c_name : CString) (m : Memory) : Prop :=
  ∀ k, sizeofCompany - nameOffset ≤ k → k ≤ c_name.strlen →
    Counts (company i + nameOffset + k) →
    m (company i + nameOffset + k) = nameByte c_name k

/-- A process after its first section, with a name, and slot `i` the first that is free. -/
structure Claims (argv : Nat → Option CString) (s : State) (p i : Nat) (c_name : CString)
    (m : Memory) : Prop where
  lock : s.lock = none
  pc : s.pc p = .opened
  name : argv p = some c_name
  object : s.object = some m
  slot : i < slots
  free : isEmpty m i = true
  used : ∀ j < i, isEmpty m j = false

/-! ### The section -/

/-- `init_shm` claims the first slot that is free. -/
theorem claiming_run {argv : Nat → Option CString} {s : State} {p i : Nat} {c_name : CString}
    {m : Memory} (h : Claims argv s p i c_name m) :
    (run argv s (claiming p i)).object = some (claimed i c_name m) ∧
      (run argv s (claiming p i)).pc p = .running i ∧ (run argv s (claiming p i)).lock = none := by
  have htake : step argv (.take p false) s = (s.setPc p .claiming).goto p (.search 0) := by
    simp only [step, h.lock, entry, h.pc, h.name, Bool.false_eq_true, if_false]
  have hsearch : run argv ((s.setPc p .claiming).goto p (.search 0))
      (List.replicate i (.inner true)) = (s.setPc p .claiming).goto p (.search i) := by
    have hrun : run argv ((s.setPc p .claiming).goto p (.search 0))
        (List.replicate i (.inner true)) = _ :=
      search_run (goto_lock (s.setPc p .claiming) p (.search 0)) h.object
        (by have := h.slot; omega) fun j _ hj => h.used j (by omega)
    rw [Nat.zero_add] at hrun
    exact hrun
  have hsplit : run argv s (claiming p i) =
      run argv ((s.setPc p .claiming).goto p (.search i)) (List.replicate 4 (.inner true)) := by
    rw [← hsearch, ← htake]
    change run argv (step argv (.take p false) s) (List.replicate (i + 4) (.inner true)) = _
    rw [← List.replicate_append_replicate]
    exact Interleaving.run_append _ _ _ _
  rw [hsplit]
  simp [run, Interleaving.run, step, innerStep, h.slot, h.object, h.free, h.name, claimed,
    State.give, State.setPc, State.goto, State.write]

/-! ### Byte by byte -/

section
variable {m : Memory} {i : Nat} {c_name : CString}

theorem copyName_at {k : Nat} (hk : k ≤ c_name.strlen) :
    copyName i c_name m (company i + nameOffset + k) = nameByte c_name k :=
  writeBytes_at m _ k _ (by
    simp only [CString.strlen] at hk
    rw [List.length_append, List.length_singleton]
    omega)

/-- Behind its slot, the name's bytes are left as `strcpy` has put them. -/
theorem claimed_at {k : Nat} (hlo : sizeofCompany - nameOffset ≤ k) (hhi : k ≤ c_name.strlen) :
    claimed i c_name m (company i + nameOffset + k) = nameByte c_name k := by
  rw [claimed, setIsEmpty, writeBytes_outside]
  · exact copyName_at hhi
  · simp only [sizeofCompany, nameOffset, isEmptyOffset, List.length_singleton] at hlo ⊢
    omega

theorem claimed_outside {x : Nat} (hslot : x < company i ∨ company i + sizeofCompany ≤ x)
    (hname : x < company i + nameOffset ∨ company i + nameOffset + c_name.strlen < x) :
    claimed i c_name m x = m x := by
  rw [claimed, setIsEmpty, writeBytes_outside]
  · exact strcpy_outside m _ x c_name hname
  · simp only [sizeofCompany, isEmptyOffset, List.length_singleton] at hslot ⊢
    omega

theorem claimed_flag : claimed i c_name m (company i + isEmptyOffset) = 0 :=
  flag_setIsEmpty_self _ i 0

theorem claimed_count : nOfSoilDone (claimed i c_name m) i = nOfSoilDone m i := by
  rw [claimed, nOfSoilDone_setIsEmpty]
  exact load32_strcpy_outside m _ _ c_name (.inl (Nat.le_refl _))

/-- The flag is the terminator of a name that has none in its array. -/
theorem claimed_printed : ∃ n, strlenWithin (claimed i c_name m) (company i + nameOffset)
    (sizeofCompany - nameOffset) = some n := by
  apply Option.isSome_iff_exists.mp
  rw [strlenWithin, List.find?_isSome]
  refine ⟨isEmptyOffset - nameOffset, List.mem_range.mpr (by decide), decide_eq_true ?_⟩
  exact claimed_flag

/-- A byte that counts, in another slot or behind them all, stays what it is. -/
theorem claimed_of_standsThere (h : StandsThere i c_name m) {x : Nat} (hx : Counts x)
    (hslot : x < company i ∨ company i + sizeofCompany ≤ x) : claimed i c_name m x = m x := by
  by_cases hname : x < company i + nameOffset ∨ company i + nameOffset + c_name.strlen < x
  · exact claimed_outside hslot hname
  · obtain ⟨k, rfl⟩ : ∃ k, x = company i + nameOffset + k :=
      ⟨x - (company i + nameOffset), by omega⟩
    have hlo : sizeofCompany - nameOffset ≤ k := by
      simp only [sizeofCompany, nameOffset] at hslot ⊢
      omega
    rw [claimed_at hlo (by omega)]
    exact (h k hlo (by omega) hx).symm

/-- **Claiming a slot touches no other exactly where the name brings nothing new** behind
its own. -/
theorem onlyOwn_iff (hi : i < slots) :
    OnlyOwn m (claimed i c_name m) i ↔ StandsThere i c_name m := by
  constructor
  · intro h k hlo hhi hcounts
    rw [← claimed_at hlo hhi]
    symm
    rcases hcounts with hbehind | hfield
    · exact h.behind _ hbehind
    · obtain ⟨j, o, hx, ho⟩ : ∃ j o, company i + nameOffset + k = company j + o ∧
          o ≤ isEmptyOffset :=
        ⟨_, _, (Nat.div_add_mod _ sizeofCompany).symm, hfield⟩
      by_cases hj : j < slots
      · rw [hx]
        refine h.others j hj ?_ o ho
        simp only [company, sizeofCompany, nameOffset, isEmptyOffset] at hx ho hlo
        omega
      · refine h.behind _ ?_
        simp only [company, sizeofCompany] at hx ⊢
        omega
  · intro h
    refine ⟨fun j hj hne o ho => ?_, fun x hx => ?_, claimed_flag, claimed_count, claimed_printed⟩
    · refine claimed_of_standsThere h (.inr ?_) ?_
      · simp only [company, sizeofCompany, isEmptyOffset] at ho ⊢
        omega
      · simp only [company, sizeofCompany, isEmptyOffset] at ho ⊢
        omega
    · refine claimed_of_standsThere h (.inl hx) (.inr ?_)
      simp only [company, sizeofCompany, slots] at hi hx ⊢
      omega

theorem standsThere_of_short (h : c_name.strlen < sizeofCompany - nameOffset) :
    StandsThere i c_name m := fun k hlo hhi _ => by omega

end

/-! ### The call -/

/-- **Registering a company touches only its own slot exactly where its name brings nothing
new behind it**, in every registry with a free slot. -/
theorem claiming_onlyOwn_iff {argv : Nat → Option CString} {s : State} {p i : Nat}
    {c_name : CString} {m : Memory} (h : Claims argv s p i c_name m) :
    ∃ m', (run argv s (claiming p i)).object = some m' ∧
      (run argv s (claiming p i)).pc p = .running i ∧
      (OnlyOwn m m' i ↔ StandsThere i c_name m) := by
  obtain ⟨hobject, hpc, -⟩ := claiming_run h
  exact ⟨_, hobject, hpc, onlyOwn_iff h.slot⟩

/-- Twenty-four characters. -/
def longName : CString := ⟨List.replicate 24 0x61, by decide⟩

def names (p : Nat) : Option CString := some (if p = 2 then longName else noName)

/-- The first of two companies has left, the second one has counted a load, and a third one
is about to register. -/
def vacancy : State := run names initial
  (opening 0 ++ claiming 0 0 ++ opening 1 ++ claiming 1 1 ++ counting 1 ++ leaving 0 ++ opening 2)

theorem claims_vacancy : ∃ m, vacancy.object = some m ∧ Claims names vacancy 2 0 longName m ∧
    m (company 1) = 1 := by
  obtain ⟨m, hm, hvalues⟩ := Option.map_eq_some_iff.mp
    (show vacancy.object.map (fun m => (isEmpty m 0, m (company 1))) = some (true, 1) by
      decide +kernel)
  rw [Prod.mk.injEq] at hvalues
  exact ⟨m, hm, ⟨by decide +kernel, by decide +kernel, rfl, hm, by decide, hvalues.1,
    fun j hj => absurd hj (Nat.not_lt_zero j)⟩, hvalues.2⟩

theorem claiming_vacancy : ∃ m m', vacancy.object = some m ∧
    (run names vacancy (claiming 2 0)).object = some m' ∧
    (OnlyOwn m m' 0 ↔ StandsThere 0 longName m) := by
  obtain ⟨m, hm, hclaims, -⟩ := claims_vacancy
  obtain ⟨m', hm', -, hiff⟩ := claiming_onlyOwn_iff hclaims
  exact ⟨m, m', hm, hm', hiff⟩

/-- The terminator of the long name takes away the load that the neighbour has counted. -/
theorem longName_overruns : ∃ m m', vacancy.object = some m ∧
    (run names vacancy (claiming 2 0)).object = some m' ∧
    m (company 1) = 1 ∧ m' (company 1) = 0 ∧ ¬ OnlyOwn m m' 0 := by
  obtain ⟨m, hm, hclaims, hone⟩ := claims_vacancy
  have hzero : claimed 0 longName m (company 1) = 0 := claimed_at (k := 24) (by decide) (by decide)
  refine ⟨m, _, hm, (claiming_run hclaims).1, hone, hzero, fun h => ?_⟩
  have hsame := h.others 1 (by decide) (by decide) 0 (Nat.zero_le _)
  rw [Nat.add_zero, hone, hzero] at hsame
  exact absurd hsame (by decide)

end RealTimeLabs.Registry
