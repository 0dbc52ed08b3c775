import RealTimeLabs.Library.LinkedArray

/-! The arrays that the cache measurement walks through.

`seqArray` links the first `n` elements in their order, `ranArray` in the order that a
shuffle of `random_indexes` has left. A pointer is the index that it has in
`global_array`, if it leads there at all. Every access is checked, so that a run outside
the arrays has no result. The shuffle only exchanges entries (`shuffle_bijOn`), and the
links then go round through all of them (`arrays_one_cycle`). -/
namespace RealTimeLabs.Cache
open LinkedArray

/-! ### The arrays -/

/-- `sizeof(struct elem)`: a pointer, and a gap of no elements. -/
def sizeofElem : Nat := 4

def maxArrayLen : Nat := 4 * 1024 * 1024 / sizeofElem

def randMax : Nat := 32767

/-- A result of `rand`. -/
abbrev Rand := Fin (randMax + 1)

structure Arrays where
  /-- The links of `global_array`. -/
  next : Nat → Option Nat
  randomIndexes : Nat → Nat

/-- The number of turns of `for (i = 0; i < bound; i++)`, with an `unsigned` counter and an
`int` bound. -/
def turns (bound : Int32) : Nat := bound.toUInt32.toNat

/-! ### The functions -/

/-- The results of two calls are combined to 30 bits. The order of the calls is left open
by C, and of no account for a stream that is arbitrary. -/
def longrand (first second : Rand) (max : Int) : Nat :=
  (((first.val ^^^ (second.val <<< 15) : Nat) : Int).tmod max).toNat

def seqArray (next : Nat → Option Nat) (n : Int32) : Option (Nat → Option Nat) := do
  let next ← (List.range (turns (n - 1))).foldlM (fun next i =>
    store maxArrayLen next i (some (i + 1))) next
  -- close the cycle
  store maxArrayLen next (turns (n - 1)) (some 0)

/-- `random_indexes` in order. -/
def ordered (order : Nat → Nat) (n : Int32) : Option (Nat → Nat) :=
  (List.range (turns n)).foldlM (fun order i => store maxArrayLen order i i) order

/-- A turn of the shuffle, with the index that it has drawn. -/
def exchange (order : Nat → Nat) (i idx : Nat) : Option (Nat → Nat) := do
  let tmp ← load maxArrayLen order i
  let order ← store maxArrayLen order i (← load maxArrayLen order idx)
  store maxArrayLen order idx tmp

def shuffle (rand : Nat → Rand) (order : Nat → Nat) (n : Int32) : Option (Nat → Nat) :=
  (List.range (turns n)).foldlM (fun order i =>
    exchange order i (longrand (rand (2 * i)) (rand (2 * i + 1)) n.toInt)) order

/-- `array[random_indexes[i]].next = &array[random_indexes[k]]` -/
def linkEntries (order : Nat → Nat) (next : Nat → Option Nat) (i k : Nat) :
    Option (Nat → Option Nat) := do
  store maxArrayLen next (← load maxArrayLen order i) (some (← load maxArrayLen order k))

def ranArray (rand : Nat → Rand) (a : Arrays) (n : Int32) : Option Arrays := do
  let order ← shuffle rand (← ordered a.randomIndexes n) n
  let next ← (List.range (turns (n - 1))).foldlM (fun next i =>
    linkEntries order next i (i + 1)) a.next
  -- close the cycle
  let next ← linkEntries order next (turns (n - 1)) 0
  return ⟨next, order⟩

/-! ### Bounds -/

/-- The combined results fit an `int`. -/
theorem randomWord_lt (first second : Rand) : first.val ^^^ (second.val <<< 15) < 1073741824 := by
  have hfirst : first.val < 2 ^ 15 := first.isLt
  have hsecond : second.val < 2 ^ 15 := second.isLt
  apply Nat.xor_lt_two_pow (n := 30)
  · omega
  · rw [Nat.shiftLeft_eq]
    omega

/-- An index drawn is one of the `max` first. -/
theorem longrand_lt (first second : Rand) {max : Int} (h : 0 < max) :
    longrand first second max < max.toNat := by
  have hlt := Int.tmod_lt_of_pos ((first.val ^^^ (second.val <<< 15) : Nat) : Int) h
  unfold longrand
  omega

/-- A number of elements that the arrays have. -/
structure Size (n : Int32) : Prop where
  pos : 1 ≤ n.toInt
  le : n.toInt ≤ maxArrayLen

theorem turns_of_nonneg {bound : Int32} (h : 0 ≤ bound.toInt) :
    turns bound = bound.toInt.toNat := by
  rw [turns, Int32.toNat_toUInt32_of_le (Int32.le_iff_toInt_le.mpr h)]
  rfl

section
variable {n : Int32}

/-- A decrement is exact anywhere but at `INT_MIN`. -/
theorem toInt_pred (h : n ≠ Int32.minValue) : (n - 1).toInt = n.toInt - 1 := by
  have hone : (1 : Int32).toInt = 1 := rfl
  have hlo := n.le_toInt
  have hhi := n.toInt_lt
  have hne : n.toInt ≠ -2147483648 := fun he => h (Int32.toInt_inj.mp he)
  rw [Int32.toInt_sub, hone]
  apply Int.bmod_eq_of_le <;> omega

theorem turns_size (h : Size n) : turns n = n.toInt.toNat := by
  have hpos := h.pos
  exact turns_of_nonneg (by omega)

/-- The loops that link leave the last element out. -/
theorem turns_pred (h : Size n) : turns (n - 1) + 1 = n.toInt.toNat := by
  have hpos := h.pos
  have hpred : (n - 1).toInt = n.toInt - 1 := toInt_pred fun he => by
    rw [he] at hpos
    exact absurd hpos (by decide)
  rw [turns_of_nonneg (by omega), hpred]
  omega

theorem size_le (h : Size n) : n.toInt.toNat ≤ maxArrayLen := by
  have hle := h.le
  omega

/-- A loop that links, and stays inside the arrays, has been given such a number. -/
theorem size_of_turns (h : turns (n - 1) < maxArrayLen) : Size n := by
  have hmax : maxArrayLen = 1048576 := rfl
  have hpred : (n - 1).toInt = turns (n - 1) :=
    BitVec.toInt_eq_toNat_of_lt (x := (n - 1).toBitVec) (by
      change 2 * turns (n - 1) < 2 ^ 32
      omega)
  have hone : (1 : Int32).toInt = 1 := rfl
  have hlo := n.le_toInt
  have hhi := n.toInt_lt
  rw [Int32.toInt_sub, hone, Int.bmod_eq_self_sub_mul_bdiv] at hpred
  constructor <;> omega

/-! ### In order -/

theorem seqArray_linked (h : Size n) (next : Nat → Option Nat) :
    ∃ next', seqArray next n = some next' ∧ Linked next' n.toInt.toNat id := by
  have hpred := turns_pred h
  have hle := size_le h
  have hinj : Set.InjOn id (Set.Iio n.toInt.toNat) := Function.injective_id.injOn
  obtain ⟨links, hlinks, hI⟩ := foldlM_range (n := turns (n - 1)) (s := next)
    (f := fun next i => store maxArrayLen next i (some (i + 1)))
    (I := fun i next => LinkedUpTo next i id) (by intro j hj; omega) (by
      intro i next hi hI
      exact ⟨_, store_of_lt (by omega) _, hI.link (by omega) hinj⟩)
  refine ⟨_, ?_, hI.close hpred hinj⟩
  rw [seqArray, hlinks]
  exact store_of_lt (by omega) _

/-! ### At random -/

theorem ordered_eq (h : Size n) (order : Nat → Nat) :
    ∃ order', ordered order n = some order' ∧ ∀ i < n.toInt.toNat, order' i = i := by
  have hle := size_le h
  rw [ordered, turns_size h]
  refine foldlM_range (I := fun i (order : Nat → Nat) => ∀ j < i, order j = j)
    (by intro j hj; omega) ?_
  intro i order hi hI
  refine ⟨_, store_of_lt (by omega) _, fun j hj => ?_⟩
  rcases Nat.lt_succ_iff_lt_or_eq.mp hj with hlt | rfl
  · rw [Function.update_of_ne (Nat.ne_of_lt hlt)]
    exact hI j hlt
  · rw [Function.update_self]

theorem exchange_of_lt {order : Nat → Nat} {i idx : Nat} (hi : i < maxArrayLen)
    (hidx : idx < maxArrayLen) : exchange order i idx =
      some (Function.update (Function.update order i (order idx)) idx (order i)) := by
  simp only [exchange, load_of_lt hi, load_of_lt hidx, store_of_lt hi, store_of_lt hidx,
    Option.bind_eq_bind, Option.bind_some]

/-- **However the indexes are drawn, the shuffle leaves a permutation.** -/
theorem shuffle_bijOn (h : Size n) (rand : Nat → Rand) {order : Nat → Nat}
    (horder : ∀ i < n.toInt.toNat, order i = i) :
    ∃ order', shuffle rand order n = some order' ∧
      Set.BijOn order' (Set.Iio n.toInt.toNat) (Set.Iio n.toInt.toNat) := by
  have hpos := h.pos
  have hle := size_le h
  rw [shuffle, turns_size h]
  refine foldlM_range (I := fun _ order =>
    Set.BijOn order (Set.Iio n.toInt.toNat) (Set.Iio n.toInt.toNat)) ?_ ?_
  · exact (Set.bijOn_id _).congr fun i hi => (horder i hi).symm
  · intro i order hi hI
    have hidx := longrand_lt (rand (2 * i)) (rand (2 * i + 1))
      (show 0 < n.toInt by omega)
    exact ⟨_, exchange_of_lt (by omega) (by omega), bijOn_swap hI hi hidx⟩

theorem linkEntries_of_lt {order : Nat → Nat} {next : Nat → Option Nat} {i k : Nat}
    (hi : i < maxArrayLen) (hk : k < maxArrayLen) (horder : order i < maxArrayLen) :
    linkEntries order next i k = some (Function.update next (order i) (some (order k))) := by
  simp only [linkEntries, load_of_lt hi, load_of_lt hk, store_of_lt horder, Option.bind_eq_bind,
    Option.bind_some]

theorem ranArray_linked (h : Size n) (rand : Nat → Rand) (a : Arrays) :
    ∃ a', ranArray rand a n = some a' ∧ Linked a'.next n.toInt.toNat a'.randomIndexes ∧
      Set.BijOn a'.randomIndexes (Set.Iio n.toInt.toNat) (Set.Iio n.toInt.toNat) := by
  have hpred := turns_pred h
  have hle := size_le h
  obtain ⟨start, hstart, hordered⟩ := ordered_eq h a.randomIndexes
  obtain ⟨order, hshuffle, horder⟩ := shuffle_bijOn h rand hordered
  have hlt {i : Nat} (hi : i < n.toInt.toNat) : order i < maxArrayLen :=
    Nat.lt_of_lt_of_le (horder.mapsTo hi) hle
  obtain ⟨links, hlinks, hI⟩ := foldlM_range (n := turns (n - 1)) (s := a.next)
    (f := fun next i => linkEntries order next i (i + 1))
    (I := fun i next => LinkedUpTo next i order) (by intro j hj; omega) (by
      intro i next hi hI
      exact ⟨_, linkEntries_of_lt (by omega) (by omega) (hlt (by omega)),
        hI.link (by omega) horder.injOn⟩)
  have hclose : linkEntries order links (turns (n - 1)) 0 = _ :=
    linkEntries_of_lt (by omega) (by decide) (hlt (by omega))
  refine ⟨⟨Function.update links (order (turns (n - 1))) (some (order 0)), order⟩, ?_,
    hI.close hpred horder.injOn, horder⟩
  simp only [ranArray, hstart, hshuffle, hlinks, hclose, Option.bind_eq_bind, Option.bind_some,
    Option.pure_def]

/-! ### The cycle -/

/-- `array` links its first `n` elements to one cycle. -/
def Cyclic (next : Nat → Option Nat) (n : Int32) : Prop :=
  OneCycle next (Set.Iio n.toInt.toNat) n.toInt.toNat

theorem ranArray_cyclic (h : Size n) (rand : Nat → Rand) (a : Arrays) :
    ∃ a', ranArray rand a n = some a' ∧ Cyclic a'.next n := by
  obtain ⟨a', ha', hlinked, hbij⟩ := ranArray_linked h rand a
  exact ⟨a', ha', oneCycle_of_enumeration hbij hlinked⟩

theorem seqArray_cyclic (h : Size n) (next : Nat → Option Nat) :
    ∃ next', seqArray next n = some next' ∧ Cyclic next' n ∧
      ∀ i < n.toInt.toNat, next' i = some ((i + 1) % n.toInt.toNat) := by
  obtain ⟨next', hnext', hlinked⟩ := seqArray_linked h next
  exact ⟨next', hnext', oneCycle_of_enumeration (Set.bijOn_id _) hlinked, hlinked⟩

/-- **Both functions link one cycle through everything**, whatever the arrays held before
and whatever `rand` returns, and no index is drawn outside. -/
theorem arrays_one_cycle (h : Size n) (rand : Nat → Rand) (a : Arrays) :
    (∃ a', ranArray rand a n = some a' ∧ Cyclic a'.next n) ∧
    (∃ next', seqArray a.next n = some next' ∧ Cyclic next' n ∧
      ∀ i < n.toInt.toNat, next' i = some ((i + 1) % n.toInt.toNat)) ∧
    ∀ first second, longrand first second n.toInt < n.toInt.toNat := by
  have hpos := h.pos
  refine ⟨ranArray_cyclic h rand a, seqArray_cyclic h a.next, ?_⟩
  intro first second
  exact longrand_lt first second (by omega)

/-- Five elements, and a generator that gets ever larger. -/
theorem arrays_one_cycle_five :
    (∃ a', ranArray (fun k => .ofNat _ (k * k + 3)) ⟨fun _ => none, fun _ => 0⟩ 5 = some a' ∧
      Cyclic a'.next 5) ∧
    (∃ next', seqArray (fun _ => none) 5 = some next' ∧ Cyclic next' 5 ∧
      ∀ i < 5, next' i = some ((i + 1) % 5)) ∧
    ∀ first second, longrand first second 5 < 5 :=
  arrays_one_cycle ⟨by decide, by decide⟩ (fun k => .ofNat _ (k * k + 3))
    ⟨fun _ => none, fun _ => 0⟩

end

end RealTimeLabs.Cache
