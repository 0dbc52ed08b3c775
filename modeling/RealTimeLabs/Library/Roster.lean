import Mathlib.Logic.Basic

/-! Rosters: tasks that come and go, under numbers that are never given twice.

Entry `i` of a roster is task `i`, or nothing once the task is gone. A task is hired at
the end, and `put` replaces it by its next state or by nothing. `count` counts the tasks
with a property; each rule says by how much one operation moves a count, which is what a
conservation law over all tasks needs from each of them alone. -/
namespace Roster

universe u

variable {α : Type u}

def count (p : α → Bool) (l : List (Option α)) : Nat := l.countP (·.any p)

/-- Every task on the roster has a property. -/
def All (P : α → Prop) (l : List (Option α)) : Prop :=
  ∀ (i : Nat) (a : α), l[i]? = some (some a) → P a

def hire (a : α) (l : List (Option α)) : List (Option α) := l ++ [some a]

def put (i : Nat) (b : Option α) (l : List (Option α)) : List (Option α) := l.set i b

@[simp] theorem count_nil (p : α → Bool) : count p [] = 0 := rfl

theorem count_cons (p : α → Bool) (o : Option α) (l : List (Option α)) :
    count p (o :: l) = count p l + (o.any p).toNat := by
  cases h : o.any p <;> simp [count, h]

theorem count_hire (p : α → Bool) (a : α) (l : List (Option α)) :
    count p (hire a l) = count p l + (p a).toNat := by
  rw [hire, count, List.countP_append]
  change count p l + count p [some a] = _
  rw [count_cons, count_nil, Nat.zero_add]
  rfl

/-- Replacing a task moves a count by what the task and its replacement differ. -/
theorem count_put (p : α → Bool) {l : List (Option α)} {i : Nat} {a : α}
    (h : l[i]? = some (some a)) (b : Option α) :
    count p (put i b l) + (p a).toNat = count p l + (b.any p).toNat := by
  induction l generalizing i with
  | nil => cases h
  | cons o rest ih =>
    cases i with
    | zero =>
      cases h
      simp only [put, List.set_cons_zero, count_cons, Option.any_some]
      omega
    | succ i =>
      have hrest := ih (i := i) h
      simp only [put, List.set_cons_succ, count_cons] at hrest ⊢
      omega

theorem all_nil (P : α → Prop) : All P [] := fun _ _ h => by cases h

theorem All.hire {P : α → Prop} {l : List (Option α)} (h : All P l) {a : α} (ha : P a) :
    All P (hire a l) := by
  intro i b hb
  rw [Roster.hire, List.getElem?_append] at hb
  split at hb
  · exact h i b hb
  · rw [List.getElem?_singleton] at hb
    split at hb
    · cases hb
      exact ha
    · cases hb

theorem All.put {P : α → Prop} {l : List (Option α)} (h : All P l) {i : Nat} {b : Option α}
    (hb : ∀ a, b = some a → P a) : All P (put i b l) := by
  intro j a ha
  rw [Roster.put, List.getElem?_set] at ha
  split at ha
  · split at ha
    · exact hb a (Option.some.inj ha)
    · cases ha
  · exact h j a ha

/-- An entry that an operation on entry `j` empties is entry `j`. -/
theorem gone_of_put {l : List (Option α)} {i j : Nat} {a : α} {b : Option α}
    (h : l[i]? = some (some a)) (hgone : (put j b l)[i]? = some none) : i = j ∧ b = none := by
  rw [put, List.getElem?_set] at hgone
  split at hgone
  · rename_i hij
    split at hgone
    · exact ⟨hij.symm, Option.some.inj hgone⟩
    · cases hgone
  · rw [h] at hgone
    cases hgone

theorem not_gone_of_hire {l : List (Option α)} {i : Nat} {a b : α}
    (h : l[i]? = some (some a)) : (hire b l)[i]? ≠ some none := by
  rw [hire, List.getElem?_append_left (List.getElem?_eq_some_iff.mp h).1, h]
  exact fun hn => by cases hn

/-- A property that implies another counts no more tasks. -/
theorem count_le_count {p q : α → Bool} {l : List (Option α)}
    (h : All (fun a => p a = true → q a = true) l) : count p l ≤ count q l := by
  refine List.countP_mono_left fun o ho hp => ?_
  obtain ⟨i, hi⟩ := List.getElem?_of_mem ho
  cases o with
  | none => cases hp
  | some a => exact h i a hi hp

end Roster
