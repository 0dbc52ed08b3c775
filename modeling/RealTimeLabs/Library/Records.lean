import Mathlib.Order.Lattice

/-! The records of a sequence.

A record is an entry that is larger than all before it; the first one always is. Whoever
goes through the sequence, remembers the largest entry so far and writes down the ones
that are larger (`Running`), has written down the records (`running_shown`), and the last
of them is the maximum (`running_last`). -/
namespace Records

universe u

variable {α : Type u} [LinearOrder α]

/-- The records among the first `n` entries, in their order. -/
def strictMaxima (f : Nat → α) (n : Nat) : List α :=
  ((List.range n).filter fun i => ∀ j < i, f j < f i).map f

structure Running (α : Type u) where
  best : α
  shown : List α

def Running.see (x : α) (r : Running α) : Running α :=
  if r.best < x then ⟨x, r.shown ++ [x]⟩ else r

/-- After the first entry and `n` more. -/
def running (f : Nat → α) : Nat → Running α
  | 0 => ⟨f 0, [f 0]⟩
  | n + 1 => (running f n).see (f (n + 1))

variable (f : Nat → α)

theorem strictMaxima_succ (n : Nat) : strictMaxima f (n + 1) =
    strictMaxima f n ++ if ∀ j < n, f j < f n then [f n] else [] := by
  unfold strictMaxima
  rw [List.range_succ, List.filter_append, List.map_append]
  congr 1
  by_cases h : ∀ j < n, f j < f n
  · rw [if_pos h, List.filter_cons_of_pos (by simpa using h)]
    rfl
  · rw [if_neg h, List.filter_cons_of_neg (by simpa using h)]
    rfl

/-- What is remembered is the maximum, and an entry beats it if it beats them all. -/
theorem running_best (n : Nat) :
    (∀ i ≤ n, f i ≤ (running f n).best) ∧ ∃ i ≤ n, f i = (running f n).best := by
  induction n with
  | zero => exact ⟨fun i hi => by rw [Nat.le_zero.mp hi]; exact le_rfl, 0, Nat.le_refl 0, rfl⟩
  | succ n ih =>
    obtain ⟨hbound, i, hi, hreached⟩ := ih
    simp only [running, Running.see]
    by_cases hlt : (running f n).best < f (n + 1)
    · rw [if_pos hlt]
      refine ⟨fun j hj => ?_, n + 1, Nat.le_refl _, rfl⟩
      rcases Nat.le_succ_iff.mp hj with hle | rfl
      · exact (hbound j hle).trans hlt.le
      · exact le_rfl
    · rw [if_neg hlt]
      refine ⟨fun j hj => ?_, i, Nat.le_succ_of_le hi, hreached⟩
      rcases Nat.le_succ_iff.mp hj with hle | rfl
      · exact hbound j hle
      · exact not_lt.mp hlt

theorem best_lt_iff (n : Nat) (x : α) : (running f n).best < x ↔ ∀ j < n + 1, f j < x := by
  obtain ⟨hbound, i, hi, hreached⟩ := running_best f n
  constructor
  · exact fun h j hj => (hbound j (Nat.lt_succ_iff.mp hj)).trans_lt h
  · exact fun h => hreached ▸ h i (Nat.lt_succ_of_le hi)

theorem running_shown (n : Nat) : (running f n).shown = strictMaxima f (n + 1) := by
  induction n with
  | zero => rfl
  | succ n ih =>
    rw [strictMaxima_succ, ← ih, running, Running.see]
    by_cases hlt : (running f n).best < f (n + 1)
    · rw [if_pos hlt, if_pos ((best_lt_iff f n _).mp hlt)]
    · rw [if_neg hlt, if_neg fun h => hlt ((best_lt_iff f n _).mpr h), List.append_nil]

theorem running_last (n : Nat) : (running f n).shown.getLast? = some (running f n).best := by
  induction n with
  | zero => rfl
  | succ n ih =>
    rw [running, Running.see]
    split
    · exact List.getLast?_concat
    · exact ih

end Records
