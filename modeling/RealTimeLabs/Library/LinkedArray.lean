import Mathlib.Data.Finset.Card
import Mathlib.Data.Set.Function
import Mathlib.Logic.Equiv.Set
import Mathlib.Logic.Function.Basic
import Mathlib.Order.Interval.Set.Defs

/-! Links in an array.

An array is a function of its index, with a bound that `load` and `store` check. A
counting loop over it is a fold in which an access out of range stops everything, and
`foldlM_range` is the rule for its invariant. A link leads from an element to the next
one, or nowhere; following the links of `OneCycle` visits all of a set and comes back.
Where an enumeration of the set is linked entry by entry, and its last entry to its first,
there is one cycle through all of it (`oneCycle_of_enumeration`). -/
namespace LinkedArray

universe u v

variable {α : Type u}

/-! ### Checked accesses -/

section
variable (N : Nat) (a : Nat → α) (i : Nat)

def load : Option α := if i < N then some (a i) else none

def store (x : α) : Option (Nat → α) := if i < N then some (Function.update a i x) else none

end

variable {N : Nat} {a : Nat → α} {i : Nat}

theorem load_of_lt (h : i < N) : load N a i = some (a i) := if_pos h

theorem store_of_lt (h : i < N) (x : α) : store N a i x = some (Function.update a i x) := if_pos h

theorem store_of_ge (h : N ≤ i) (x : α) : store N a i x = none := if_neg (Nat.not_lt.mpr h)

/-! ### Counting loops -/

section
variable {S : Type v} {f : S → Nat → Option S} {s : S} {n : Nat}

theorem foldlM_range_succ : (List.range (n + 1)).foldlM f s =
    ((List.range n).foldlM f s).bind fun s' => f s' n := by
  rw [List.range_succ, List.foldlM_append]
  cases (List.range n).foldlM f s with
  | none => rfl
  | some s' =>
    change List.foldlM f s' [n] = f s' n
    simp

/-- An invariant that every turn keeps holds at the end of the loop, which is reached. -/
theorem foldlM_range {I : Nat → S → Prop} (h : I 0 s)
    (hstep : ∀ i s, i < n → I i s → ∃ s', f s i = some s' ∧ I (i + 1) s') :
    ∃ s', (List.range n).foldlM f s = some s' ∧ I n s' := by
  induction n with
  | zero => exact ⟨s, rfl, h⟩
  | succ n ih =>
    obtain ⟨s', hs', hI⟩ := ih fun i s hi => hstep i s (Nat.lt_succ_of_lt hi)
    obtain ⟨s'', hs'', hI'⟩ := hstep n s' (Nat.lt_succ_self n) hI
    refine ⟨s'', ?_, hI'⟩
    rw [foldlM_range_succ, hs']
    exact hs''

end

/-! ### Permutations -/

/-- An exchange of two entries keeps a permutation one. -/
theorem bijOn_swap {A : Set Nat} {order : Nat → Nat} (h : Set.BijOn order A A) {i j : Nat}
    (hi : i ∈ A) (hj : j ∈ A) :
    Set.BijOn (Function.update (Function.update order i (order j)) j (order i)) A A := by
  have hswap : Function.update (Function.update order i (order j)) j (order i) =
      order ∘ Equiv.swap i j := by
    funext k
    rw [Function.comp_apply, Equiv.swap_apply_def]
    by_cases hkj : k = j
    · rw [hkj, Function.update_self]
      split <;> rename_i hji
      · rw [hji]
      · rw [if_pos rfl]
    · rw [Function.update_of_ne hkj]
      by_cases hki : k = i
      · rw [hki, Function.update_self, if_pos rfl]
      · rw [Function.update_of_ne hki, if_neg hki, if_neg hkj]
  rw [hswap]
  exact h.comp (Equiv.swap_bijOn_self (iff_of_true hi hj))

/-! ### Following links -/

section
variable (next : α → Option α)

/-- Where `k` links lead. -/
def follow : Nat → α → Option α
  | 0, x => some x
  | k + 1, x => (follow k x).bind next

/-- The links of a set of `n` elements form one cycle. -/
structure OneCycle (A : Set α) (n : Nat) : Prop where
  /-- A link never leaves the set. -/
  stays : ∀ x ∈ A, ∃ y ∈ A, next x = some y
  /-- Every element is visited once. -/
  visits : ∀ x ∈ A, ∀ y ∈ A, ∃! k, k < n ∧ follow next k x = some y
  /-- Then the walk is back. -/
  returns : ∀ x ∈ A, follow next n x = some x

end

variable {next : α → Option α} {A : Set α} {n : Nat} {σ : Nat → α}

/-- The links go through an enumeration, and from its last entry to its first. -/
def Linked (next : α → Option α) (n : Nat) (σ : Nat → α) : Prop :=
  ∀ i, i < n → next (σ i) = some (σ ((i + 1) % n))

/-- So do those of the first `m` entries, so far. -/
def LinkedUpTo (next : α → Option α) (m : Nat) (σ : Nat → α) : Prop :=
  ∀ i, i < m → next (σ i) = some (σ (i + 1))

section
variable [DecidableEq α]

theorem LinkedUpTo.link {m : Nat} (h : LinkedUpTo next m σ) (hm : m < n)
    (hσ : Set.InjOn σ (Set.Iio n)) :
    LinkedUpTo (Function.update next (σ m) (some (σ (m + 1)))) (m + 1) σ := by
  intro i hi
  rcases Nat.lt_succ_iff_lt_or_eq.mp hi with hlt | rfl
  · have hne : σ i ≠ σ m := fun he => Nat.ne_of_lt hlt (hσ (Nat.lt_trans hlt hm) hm he)
    rw [Function.update_of_ne hne]
    exact h i hlt
  · rw [Function.update_self]

/-- The last link closes the cycle. -/
theorem LinkedUpTo.close {m : Nat} (h : LinkedUpTo next m σ) (hn : m + 1 = n)
    (hσ : Set.InjOn σ (Set.Iio n)) : Linked (Function.update next (σ m) (some (σ 0))) n σ := by
  subst hn
  intro i hi
  rcases Nat.lt_succ_iff_lt_or_eq.mp hi with hlt | rfl
  · have hne : σ i ≠ σ m := fun he => Nat.ne_of_lt hlt (hσ hi (Nat.lt_succ_self m) he)
    rw [Function.update_of_ne hne, h i hlt, Nat.mod_eq_of_lt (Nat.succ_lt_succ hlt)]
  · rw [Function.update_self, Nat.mod_self]

end

theorem follow_enumeration (h : Linked next n σ) {i : Nat} (hi : i < n) (k : Nat) :
    follow next k (σ i) = some (σ ((i + k) % n)) := by
  induction k with
  | zero => rw [follow, Nat.add_zero, Nat.mod_eq_of_lt hi]
  | succ k ih =>
    have hlt : (i + k) % n < n := Nat.mod_lt _ (Nat.zero_lt_of_lt hi)
    rw [follow, ih, Option.bind_some, h _ hlt, Nat.mod_add_mod, Nat.add_assoc]

/-- The distance along a cycle from one entry to another. -/
theorem add_mod_eq_iff {i j k : Nat} (hi : i < n) (hj : j < n) (hk : k < n) :
    (i + k) % n = j ↔ k = (j + n - i) % n := by
  rcases Nat.lt_or_ge (i + k) n with hlt | hge
  · rw [Nat.mod_eq_of_lt hlt]
    rcases Nat.lt_or_ge j i with hji | hij
    · rw [Nat.mod_eq_of_lt (show j + n - i < n by omega)]
      omega
    · rw [Nat.mod_eq_sub_mod (show n ≤ j + n - i by omega),
        Nat.mod_eq_of_lt (show j + n - i - n < n by omega)]
      omega
  · rw [Nat.mod_eq_sub_mod hge, Nat.mod_eq_of_lt (show i + k - n < n by omega)]
    rcases Nat.lt_or_ge j i with hji | hij
    · rw [Nat.mod_eq_of_lt (show j + n - i < n by omega)]
      omega
    · rw [Nat.mod_eq_sub_mod (show n ≤ j + n - i by omega),
        Nat.mod_eq_of_lt (show j + n - i - n < n by omega)]
      omega

/-- **An enumeration that is linked in its order is one cycle.** -/
theorem oneCycle_of_enumeration (hσ : Set.BijOn σ (Set.Iio n) A) (h : Linked next n σ) :
    OneCycle next A n := by
  constructor
  · intro x hx
    obtain ⟨i, hi, rfl⟩ := hσ.surjOn hx
    exact ⟨_, hσ.mapsTo (Nat.mod_lt _ (Nat.zero_lt_of_lt hi)), h i hi⟩
  · intro x hx y hy
    obtain ⟨i, hi, rfl⟩ := hσ.surjOn hx
    obtain ⟨j, hj, rfl⟩ := hσ.surjOn hy
    have hn : 0 < n := Nat.zero_lt_of_lt hi
    have hreach (k : Nat) : follow next k (σ i) = some (σ j) ↔ (i + k) % n = j := by
      rw [follow_enumeration h hi, Option.some_inj]
      exact hσ.injOn.eq_iff (Nat.mod_lt _ hn) hj
    have hlt : (j + n - i) % n < n := Nat.mod_lt _ hn
    refine ⟨(j + n - i) % n, ⟨hlt, ?_⟩, fun k hk => ?_⟩
    · exact (hreach _).mpr ((add_mod_eq_iff hi hj hlt).mpr rfl)
    · exact (add_mod_eq_iff hi hj hk.1).mp ((hreach k).mp hk.2)
  · intro x hx
    obtain ⟨i, hi, rfl⟩ := hσ.surjOn hx
    rw [follow_enumeration h hi, Nat.add_mod_right, Nat.mod_eq_of_lt hi]

/-! ### Walks -/

theorem follow_succ {x y : α} (h : next x = some y) (k : Nat) :
    follow next (k + 1) x = follow next k y := by
  induction k with
  | zero => exact h
  | succ k ih =>
    rw [follow, ih]
    rfl

/-- The elements whose links a walk of `k` links follows. -/
def passed (next : α → Option α) : Nat → α → List α
  | 0, _ => []
  | k + 1, x => x :: (next x).elim [] (passed next k)

theorem passed_succ {x y : α} (h : next x = some y) (k : Nat) :
    passed next (k + 1) x = x :: passed next k y := by
  rw [passed, h]
  rfl

namespace OneCycle

/-- No walk ever leaves the cycle. -/
theorem follow_mem (h : OneCycle next A n) {x : α} (hx : x ∈ A) (k : Nat) :
    ∃ y ∈ A, follow next k x = some y := by
  induction k with
  | zero => exact ⟨x, hx, rfl⟩
  | succ k ih =>
    obtain ⟨y, hy, hfollow⟩ := ih
    obtain ⟨z, hz, hnext⟩ := h.stays y hy
    exact ⟨z, hz, by rw [follow, hfollow]; exact hnext⟩

theorem passed_length (h : OneCycle next A n) {x : α} (hx : x ∈ A) (k : Nat) :
    (passed next k x).length = k := by
  induction k generalizing x with
  | zero => rfl
  | succ k ih =>
    obtain ⟨y, hy, hnext⟩ := h.stays x hx
    rw [passed_succ hnext, List.length_cons, ih hy]

theorem mem_passed_iff (h : OneCycle next A n) {x : α} (hx : x ∈ A) (k : Nat) (y : α) :
    y ∈ passed next k x ↔ ∃ i < k, follow next i x = some y := by
  induction k generalizing x with
  | zero => simp [passed]
  | succ k ih =>
    obtain ⟨z, hz, hnext⟩ := h.stays x hx
    rw [passed_succ hnext, List.mem_cons, ih hz]
    constructor
    · intro hmem
      rcases hmem with rfl | ⟨i, hi, hfollow⟩
      · exact ⟨0, Nat.zero_lt_succ k, rfl⟩
      · exact ⟨i + 1, Nat.succ_lt_succ hi, (follow_succ hnext i).trans hfollow⟩
    · intro ⟨i, hi, hfollow⟩
      cases i with
      | zero => exact .inl (Option.some_inj.mp hfollow).symm
      | succ i =>
        exact .inr ⟨i, Nat.lt_of_succ_lt_succ hi, (follow_succ hnext i).symm.trans hfollow⟩

/-- The first `n` elements passed are different ones. -/
theorem passed_nodup (h : OneCycle next A n) {x : α} (hx : x ∈ A) {k : Nat} (hk : k ≤ n) :
    (passed next k x).Nodup := by
  induction k generalizing x with
  | zero => exact List.nodup_nil
  | succ k ih =>
    obtain ⟨y, hy, hnext⟩ := h.stays x hx
    rw [passed_succ hnext, List.nodup_cons]
    refine ⟨fun hmem => ?_, ih hy (Nat.le_of_succ_le hk)⟩
    -- a link back to the start would be a second visit
    obtain ⟨i, hi, hfollow⟩ := (h.mem_passed_iff hy k x).mp hmem
    have hback : follow next (i + 1) x = some x := (follow_succ hnext i).trans hfollow
    have hzero := (h.visits x hx x hx).unique ⟨Nat.zero_lt_of_lt hk, rfl⟩ ⟨by omega, hback⟩
    exact absurd hzero (Nat.zero_ne_add_one i)

/-- A walk of `k` links passes `min k n` elements. -/
theorem card_passed [DecidableEq α] (h : OneCycle next A n) {x : α} (hx : x ∈ A) (k : Nat) :
    (passed next k x).toFinset.card = min k n := by
  rcases Nat.le_total k n with hk | hk
  · rw [List.toFinset_card_of_nodup (h.passed_nodup hx hk), h.passed_length hx,
      Nat.min_eq_left hk]
  · have hall : (passed next k x).toFinset = (passed next n x).toFinset := by
      apply Finset.ext
      intro y
      rw [List.mem_toFinset, List.mem_toFinset, h.mem_passed_iff hx, h.mem_passed_iff hx]
      constructor
      · intro ⟨i, _, hfollow⟩
        obtain ⟨z, hz, hto⟩ := h.follow_mem hx i
        obtain rfl : z = y := Option.some_inj.mp (hto.symm.trans hfollow)
        obtain ⟨j, hj, -⟩ := h.visits x hx z hz
        exact ⟨j, hj.1, hj.2⟩
      · intro ⟨i, hi, hfollow⟩
        exact ⟨i, Nat.lt_of_lt_of_le hi hk, hfollow⟩
    rw [hall, List.toFinset_card_of_nodup (h.passed_nodup hx le_rfl), h.passed_length hx,
      Nat.min_eq_right hk]

end OneCycle

end LinkedArray
