import Mathlib.Data.List.Basic
import Mathlib.Order.Lattice

/-! A value that is sent again and again in datagrams.

The network may lose, duplicate and reorder datagrams, and does not make any up. So what
has been received last is something that has been sent (`Only.step`). If the network keeps
the order, what is received never goes back (`Ordered.step`), and if it loses nothing either, the
last value sent is the last in the queue of those still to be received (`newest_step`). -/
namespace Datagrams

universe u

variable {α : Type u}

/-- The datagrams on their way, in the order in which they were sent, and the value received
last. -/
structure Channel (α : Type u) where
  inFlight : List α
  shown : α

inductive Event (α : Type u) where
  | idle
  | send (x : α)
  | deliver (i : Nat)
  | lose (i : Nat)
  | duplicate (i : Nat)

def step : Event α → Channel α → Channel α
  | .idle, c => c
  | .send x, c => { c with inFlight := c.inFlight ++ [x] }
  | .deliver i, c =>
    match c.inFlight[i]? with
    | some x => ⟨c.inFlight.eraseIdx i, x⟩
    | none => c
  | .lose i, c => { c with inFlight := c.inFlight.eraseIdx i }
  | .duplicate i, c => { c with inFlight := c.inFlight ++ c.inFlight[i]?.toList }

/-- The first datagram is the next one, and there is one of each at most. -/
def Event.InOrder : Event α → Prop
  | .deliver i => i = 0
  | .duplicate _ => False
  | _ => True

/-- And none is lost. -/
def Event.Faithful : Event α → Prop
  | .deliver i => i = 0
  | .duplicate _ | .lose _ => False
  | _ => True

/-- Everything sent or received has a property. -/
structure Only (P : α → Prop) (c : Channel α) : Prop where
  inFlight : ∀ x ∈ c.inFlight, P x
  shown : P c.shown

/-- Nothing is made up on the way. -/
theorem inFlight_step {P : α → Prop} {c : Channel α} (h : ∀ x ∈ c.inFlight, P x) {e : Event α}
    (he : ∀ x, e = .send x → P x) : ∀ x ∈ (step e c).inFlight, P x := by
  intro y hy
  cases e with
  | idle => exact h y hy
  | send x =>
    rcases List.mem_append.mp hy with hold | hnew
    · exact h y hold
    · rw [List.mem_singleton.mp hnew]
      exact he x rfl
  | deliver i =>
    simp only [step] at hy
    split at hy
    · exact h y (List.mem_of_mem_eraseIdx hy)
    · exact h y hy
  | lose i => exact h y (List.mem_of_mem_eraseIdx hy)
  | duplicate i =>
    rcases List.mem_append.mp hy with hold | hcopy
    · exact h y hold
    · exact h y (List.mem_of_getElem? (Option.mem_toList.mp hcopy))

/-- Nor in what is received. -/
theorem Only.step {P : α → Prop} {c : Channel α} (h : Only P c) {e : Event α}
    (he : ∀ x, e = .send x → P x) : Only P (step e c) := by
  refine ⟨inFlight_step h.inFlight he, ?_⟩
  cases e with
  | deliver i =>
    simp only [Datagrams.step]
    split
    · rename_i x hx
      exact h.inFlight x (List.mem_of_getElem? hx)
    · exact h.shown
  | _ => exact h.shown

/-! ### Order -/

section
variable [Preorder α]

/-- From the value received last to the one sent last, none is smaller than those before. -/
def Ordered (c : Channel α) : Prop := (c.shown :: c.inFlight).Pairwise (· ≤ ·)

theorem Ordered.step {c : Channel α} (h : Ordered c) {e : Event α} (he : e.InOrder)
    (hsend : ∀ x, e = .send x → Only (· ≤ x) c) : Ordered (step e c) := by
  cases e with
  | idle => exact h
  | send x =>
    have hx := hsend x rfl
    change ((c.shown :: c.inFlight) ++ [x]).Pairwise (· ≤ ·)
    rw [List.pairwise_append]
    refine ⟨h, List.pairwise_singleton _ _, fun y hy z hz => ?_⟩
    rw [List.mem_singleton.mp hz]
    rcases List.mem_cons.mp hy with rfl | hy
    · exact hx.shown
    · exact hx.inFlight y hy
  | deliver i =>
    obtain rfl : i = 0 := he
    obtain ⟨inFlight, shown⟩ := c
    cases inFlight with
    | nil => exact h
    | cons x rest => exact (List.pairwise_cons.mp h).2
  | lose i => exact h.sublist (List.Sublist.cons_cons _ (List.eraseIdx_sublist _ _))
  | duplicate i => exact he.elim

/-- In order, what is received does not go back. -/
theorem Ordered.shown_le {c : Channel α} (h : Ordered c) (e : Event α) :
    c.shown ≤ (Datagrams.step e c).shown := by
  cases e with
  | deliver i =>
    simp only [Datagrams.step]
    split
    · rename_i x hx
      exact (List.pairwise_cons.mp h).1 x (List.mem_of_getElem? hx)
    · exact le_rfl
  | _ => exact le_rfl

end

/-! ### The newest -/

/-- The last of what has been received and what is on its way. -/
def Channel.newest (c : Channel α) : α := c.inFlight.getLastD c.shown

theorem newest_of_empty {c : Channel α} (h : c.inFlight = []) : c.newest = c.shown := by
  rw [Channel.newest, h]
  rfl

def Event.sent : Event α → Option α
  | .send x => some x
  | _ => none

/-- If nothing is lost, it is what has been sent last. -/
theorem newest_step {e : Event α} (he : e.Faithful) (c : Channel α) :
    (step e c).newest = e.sent.getD c.newest := by
  cases e with
  | idle => rfl
  | send x => exact List.getLastD_concat
  | deliver i =>
    obtain rfl : i = 0 := he
    obtain ⟨inFlight, shown⟩ := c
    cases inFlight with
    | nil => rfl
    | cons x rest => cases rest <;> rfl
  | lose i => exact he.elim
  | duplicate i => exact he.elim

end Datagrams
