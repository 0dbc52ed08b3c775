import Mathlib.Data.Nat.ModEq
import Mathlib.Order.Basic
import Mathlib.Logic.Function.Basic

/-! A log kept in a ring, and a window over its last entries.

Entry `j` of an unbounded log goes to slot `(j + W) % N` of a ring of `N` slots, over
whatever was there. A reader who knows that `n` entries are complete looks for the last
`W` of them at the slots from `n % N` on. The ring may have moved ahead by the time it
looks: `contents_window` says by how much, at each element of the window. Where each
entry is at least the one before, so are those of every window (`Ordered`). -/
namespace RingLog

universe u

variable {α : Type u}

section
variable (N W : Nat)

/-- Where entry `j` goes. -/
def slot (j : Nat) : Nat := (j + W) % N

/-- The ring after the first `m` entries of the log. -/
def contents (start : α) (log : Nat → α) : Nat → Nat → α
  | 0, _ => start
  | m + 1, i => if i = slot N W m then log m else contents start log m i

/-- Element `k` of the window after `n` entries; before the log, the ring's first value. -/
def window (start : α) (log : Nat → α) (n k : Nat) : α :=
  if n + k < W then start else log (n + k - W)

end

/-- Two indices less than one turn apart have slots of their own. -/
theorem mod_ne_of_lt {N a b : Nat} (h : a < b) (hN : b < a + N) : b % N ≠ a % N := by
  intro he
  have hd : N ∣ b - a := (Nat.modEq_iff_dvd' h.le).mp he.symm
  have := Nat.le_of_dvd (by omega) hd
  omega

variable {N W : Nat} {start : α} {log : Nat → α}

theorem slot_lt (hN : 0 < N) (j : Nat) : slot N W j < N := Nat.mod_lt _ hN

/-- The next entry changes its own slot only. -/
theorem contents_succ_of_ne {m i : Nat} (h : i ≠ slot N W m) :
    contents N W start log (m + 1) i = contents N W start log m i := if_neg h

theorem contents_succ_self (m : Nat) :
    contents N W start log (m + 1) (slot N W m) = log m := if_pos rfl

/-- Writing an entry to its slot appends it. -/
theorem update_contents (m : Nat) :
    Function.update (contents N W start log m) (slot N W m) (log m) =
      contents N W start log (m + 1) := by
  funext i
  by_cases h : i = slot N W m
  · rw [h, Function.update_self, contents_succ_self]
  · rw [Function.update_of_ne h, contents_succ_of_ne h]

/-- A slot that no entry from `m` on has reached is as it was after `m`. -/
theorem contents_stable {m m' i : Nat} (h : m ≤ m')
    (hi : ∀ j, m ≤ j → j < m' → i ≠ slot N W j) :
    contents N W start log m' i = contents N W start log m i := by
  induction m', h using Nat.le_induction with
  | base => rfl
  | succ l hl ih =>
    rw [contents_succ_of_ne (hi l hl (Nat.lt_succ_self l))]
    exact ih fun j hj hlt => hi j hj (Nat.lt_succ_of_lt hlt)

/-- An entry stands in its slot for one turn of the ring. -/
theorem contents_entry {j m : Nat} (hj : j < m) (hm : m ≤ j + N) :
    contents N W start log m (slot N W j) = log j := by
  rw [contents_stable (m := j + 1) hj, contents_succ_self]
  intro l hl hlt
  exact (mod_ne_of_lt (by omega) (by omega)).symm

/-- Element `k` of the window over `n` entries stands in its slot until entry
`n + (N - W) + k` takes its place. -/
theorem contents_window {n k m : Nat} (hk : k < W) (hn : n ≤ m) (hm : m ≤ n + (N - W) + k)
    (hN : W ≤ N) : contents N W start log m ((n + k) % N) = window W start log n k := by
  by_cases hW : n + k < W
  · -- no entry of the log belongs here yet
    rw [window, if_pos hW, contents_stable (Nat.zero_le m)]
    · rfl
    · intro j _ hj
      exact (mod_ne_of_lt (by omega) (by omega)).symm
  · obtain ⟨j, hj⟩ : ∃ j, n + k = j + W := ⟨n + k - W, by omega⟩
    have hown : (n + k) % N = slot N W j := by rw [hj, slot]
    rw [window, if_neg hW, hown, contents_entry (by omega) (by omega), hj, Nat.add_sub_cancel]

/-! ### Windows in order -/

section
variable [Preorder α] {ring : Nat → α} {first : Nat}

/-- The `W` entries from a slot on do not decrease. -/
def Ordered (N W : Nat) (ring : Nat → α) (first : Nat) : Prop :=
  ∀ k, k + 1 < W → ring ((first + k) % N) ≤ ring ((first + k + 1) % N)

theorem Ordered.le (h : Ordered N W ring first) {i j : Nat} (hij : i ≤ j) (hj : j < W) :
    ring ((first + i) % N) ≤ ring ((first + j) % N) := by
  induction j, hij using Nat.le_induction with
  | base => exact le_rfl
  | succ j hij ih => exact (ih (Nat.lt_of_succ_lt hj)).trans (h j hj)

/-- The slot behind the window is free to be written. -/
theorem Ordered.update (h : Ordered N W ring first) (hN : W < N) (v : α) :
    Ordered N W (Function.update ring ((first + W) % N) v) first := by
  intro k hk
  rw [Function.update_of_ne (mod_ne_of_lt (by omega) (by omega)).symm,
    Function.update_of_ne (mod_ne_of_lt (by omega) (by omega)).symm]
  exact h k hk

/-- A window moves on over an entry that is not below its last. -/
theorem Ordered.advance (h : Ordered N (W + 1) ring first)
    (hlast : ring ((first + W) % N) ≤ ring ((first + (W + 1)) % N)) :
    Ordered N (W + 1) ring ((first + 1) % N) := by
  intro k hk
  rw [Nat.add_assoc, Nat.mod_add_mod, Nat.mod_add_mod]
  rcases Nat.lt_or_ge (k + 2) (W + 1) with hinside | hedge
  · have hnext := h (k + 1) hinside
    rw [show first + 1 + k = first + (k + 1) by omega,
      show first + 1 + (k + 1) = first + (k + 1) + 1 by omega]
    exact hnext
  · obtain rfl : W = k + 1 := by omega
    rw [show first + 1 + k = first + (k + 1) by omega,
      show first + 1 + (k + 1) = first + (k + 1 + 1) by omega]
    exact hlast

end

end RingLog
