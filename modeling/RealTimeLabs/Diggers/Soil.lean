import RealTimeLabs.Diggers.Crew

/-! Where a load of soil can disappear.

`digger_in_hole` is safe before it takes anything; `digger_up_the_hole` takes its load
from `semSoilHeap` first and calls `taskSafe` after. Between the two a `taskDelete` is
immediate and the load goes with the digger. Every other step, the timeout's way back to
the heap included, keeps the balance. -/
namespace RealTimeLabs.Diggers
open Interleaving Roster

/-- Every load dug is on the heap, finished, or in the hands of a digger that exists. -/
def Conserved (s : State) : Prop :=
  s.shared.dug = s.shared.semSoilHeap + s.shared.finished + count (·.load) s.diggers

instance : DecidablePred Conserved := fun s =>
  inferInstanceAs (Decidable (s.shared.dug =
    s.shared.semSoilHeap + s.shared.finished + count (·.load) s.diggers))

/-- A deletion finds no upper digger between `semTake(semSoilHeap)` and `taskSafe`. -/
def Spared : Action → State → Prop
  | .delete i, s => ∀ d, s.diggers[i]? = some (some d) → d.pc ≠ .upper .taskSafe
  | _, _ => True

structure Balanced (s : State) : Prop where
  equipped : All Equipped s.diggers
  conserved : Conserved s

theorem balanced_initial : Balanced initial := ⟨all_nil _, by decide⟩

/-- A deletion changes the balance by the load that the digger does not get to keep. -/
theorem count_delete {s : State} {i : Nat} {d : Digger} (hd : s.diggers[i]? = some (some d)) :
    count (·.load) (put i d.delete s.diggers) + (if d.delete = none then d.load.toNat else 0) =
      count (·.load) s.diggers := by
  have hput := count_put (·.load) hd d.delete
  by_cases hdel : d.delete = none
  · rw [if_pos hdel]
    simp only [hdel, Option.any_none, Bool.toNat_false] at hput ⊢
    omega
  · rw [if_neg hdel]
    have hkeep : d.delete.any (·.load) = d.load := by
      unfold Digger.delete at hdel ⊢
      split at hdel
      · rename_i hs
        rw [if_pos hs]
        rfl
      · exact absurd rfl hdel
    rw [hkeep] at hput
    omega

theorem balanced_step (src : Source) (a : Action) (s : State) (h : Balanced s)
    (hC : Spared a s) : Balanced (step src a s) := by
  refine ⟨equipped_step src a s h.equipped, ?_⟩
  have hcons := h.conserved
  unfold Conserved at hcons
  cases a with
  | createLower =>
    simp only [Conserved, step, count_hire]
    exact hcons
  | createUpper =>
    simp only [Conserved, step, count_hire]
    exact hcons
  | delete i =>
    simp only [step]
    split
    · rename_i d hd
      have hcount := count_delete hd
      have hkept : (if d.delete = none then d.load.toNat else 0) = 0 := by
        split
        · rename_i hdel
          rw [((h.equipped i d hd).delete_none hdel).2 (hC d hd)]
          rfl
        · rfl
      simp only [Conserved]
      omega
    · exact hcons
  | digger i expired =>
    simp only [step]
    split
    · rename_i d hd
      split
      · rename_i d' m hadv
        have hput := count_put (·.load) hd d'
        have hmove := (advance_spec (h.equipped i d hd) hadv).soil
        simp only [Conserved]
        omega
      · exact hcons
    · exact hcons
  | lockElsewhere => exact hcons

/-- Deleting a digger that has its load and is not yet safe loses the load. -/
theorem lost_of_not_spared (src : Source) (a : Action) (s : State) (h : Balanced s)
    (hC : ¬ Spared a s) : ¬ Conserved (step src a s) := by
  cases a with
  | delete i =>
    simp only [Spared, not_forall, Classical.not_not] at hC
    obtain ⟨d, hd, hpc⟩ := hC
    have hdel : d.delete = none := by
      unfold Digger.delete
      rw [hpc]
      rfl
    have hload : d.load = true := by
      rw [(h.equipped i d hd).load, hpc]
      rfl
    have hcount := count_delete hd
    have hcons := h.conserved
    rw [if_pos hdel, hload, Bool.toNat_true] at hcount
    intro hlost
    simp only [step, hd, Conserved] at hlost hcons
    omega
  | _ => exact absurd trivial hC

/-- **Soil is conserved throughout a run exactly when no deletion hits an upper digger
between taking a load and `taskSafe`.** -/
theorem soil_conserved_iff_spared (src : Source) (acts : List Action) :
    Throughout (step src) Conserved initial acts ↔ Along (step src) Spared initial acts :=
  throughout_iff_along (balanced_step src) (fun _ h => h.conserved) (lost_of_not_spared src)
    balanced_initial acts

/-- A lower digger digs one load, an upper digger takes it, and the keyboard's `O` deletes
the upper digger before its `taskSafe`. -/
def lostLoad : List Action :=
  [.createLower, .createUpper] ++ List.replicate 4 (.digger 0 false) ++
    [.digger 1 false, .delete 1]

theorem lostLoad_unconserved :
    ¬ Conserved (run .task2 initial lostLoad) ∧ ¬ Conserved (run .company initial lostLoad) := by
  decide

end RealTimeLabs.Diggers
