import RealTimeLabs.Diggers.Crew

/-! Shovels are conserved.

Every statement of a digger keeps the sum of the shovels in the box and in its own hands
(`Advanced.shovels`), and a digger that goes has none: before `taskSafe` and at
`taskUnsafe` its hands are empty. So the sum over the whole roster never moves. -/
namespace RealTimeLabs.Diggers
open Roster

structure Shovelled (s : State) : Prop where
  equipped : All Equipped s.diggers
  total : s.shared.semShovels + count (·.shovel) s.diggers = shovelsTotal

theorem shovelled_step (src : Source) (a : Action) (s : State) (h : Shovelled s) :
    Shovelled (step src a s) := by
  refine ⟨equipped_step src a s h.equipped, ?_⟩
  have htotal := h.total
  cases a with
  | createLower =>
    simp only [step, count_hire]
    exact htotal
  | createUpper =>
    simp only [step, count_hire]
    exact htotal
  | delete i =>
    simp only [step]
    split
    · rename_i d hd
      have hput := count_put (·.shovel) hd d.delete
      have hsame : (d.delete.any (·.shovel)) = d.shovel := by
        cases hdel : d.delete with
        | none => exact ((h.equipped i d hd).delete_none hdel).1.symm
        | some d' =>
          unfold Digger.delete at hdel
          split at hdel <;> cases hdel
          rfl
      rw [hsame] at hput
      simp only
      omega
    · exact htotal
  | digger i expired =>
    simp only [step]
    split
    · rename_i d hd
      split
      · rename_i d' m hadv
        have hput := count_put (·.shovel) hd d'
        have hmove := (advance_spec (h.equipped i d hd) hadv).shovels
        simp only
        omega
      · exact htotal
    · exact htotal
  | lockElsewhere => exact htotal

theorem shovelled_run (src : Source) (acts : List Action) : Shovelled (run src initial acts) :=
  Interleaving.run_invariant (shovelled_step src) ⟨all_nil _, rfl⟩ acts

/-- The digger is at its work. -/
def Pc.working (pc : Pc) : Bool := pc = .lower .work || pc = .upper .work

/-- The digger is about to give `semShovels`. -/
def Pc.returning (pc : Pc) : Bool := pc = .lower .giveShovels || pc = .upper .giveShovels

theorem needsShovel_of_working {pc : Pc} (h : pc.working = true) : pc.needsShovel = true := by
  cases pc with
  | lower pc => cases pc <;> first | rfl | cases h
  | upper pc => cases pc <;> first | rfl | cases h

theorem needsShovel_of_returning {pc : Pc} (h : pc.returning = true) : pc.needsShovel = true := by
  cases pc with
  | lower pc => cases pc <;> first | rfl | cases h
  | upper pc => cases pc <;> first | rfl | cases h

/-- A digger that a step removes has no shovel. -/
theorem Shovelled.gone {src : Source} {s : State} (h : Shovelled s) {a : Action} {i : Nat}
    {d : Digger} (hd : s.diggers[i]? = some (some d))
    (hgone : (step src a s).diggers[i]? = some none) : d.shovel = false := by
  have hstill : s.diggers[i]? ≠ some none := by
    rw [hd]
    exact fun hn => by cases hn
  cases a with
  | createLower => exact absurd hgone (not_gone_of_hire hd)
  | createUpper => exact absurd hgone (not_gone_of_hire hd)
  | delete j =>
    simp only [step] at hgone
    split at hgone
    · rename_i e he
      obtain ⟨rfl, hdel⟩ := gone_of_put hd hgone
      rw [hd] at he
      cases he
      exact ((h.equipped i d hd).delete_none hdel).1
    · exact absurd hgone hstill
  | digger j expired =>
    simp only [step] at hgone
    split at hgone
    · rename_i e he
      split at hgone
      · rename_i d' m hadv
        obtain ⟨rfl, rfl⟩ := gone_of_put hd hgone
        rw [hd] at he
        cases he
        exact (advance_spec (h.equipped i d hd) hadv).gone rfl
      · exact absurd hgone hstill
    · exact absurd hgone hstill
  | lockElsewhere => exact absurd hgone hstill

/-- What a state owes for its shovels. -/
structure ShovelsAccounted (src : Source) (s : State) : Prop where
  total : s.shared.semShovels + count (·.shovel) s.diggers = shovelsTotal
  /-- At most as many at work as there are shovels. -/
  working : count (·.pc.working) s.diggers ≤ shovelsTotal
  /-- A digger that is about to return a shovel has one. -/
  returned : ∀ (i : Nat) (d : Digger), s.diggers[i]? = some (some d) → d.pc.returning = true →
    d.shovel = true
  /-- A digger that any step removes has none. -/
  gone : ∀ (a : Action) (i : Nat) (d : Digger), s.diggers[i]? = some (some d) →
    (step src a s).diggers[i]? = some none → d.shovel = false

/-- **No shovel is lost or made up**: in every state of every run, whatever is created,
deleted and timed out, the shovels in the box and in the diggers' hands are `SHOVELS`. -/
theorem shovels_conserved (src : Source) (acts : List Action) :
    ShovelsAccounted src (run src initial acts) := by
  have h := shovelled_run src acts
  refine ⟨h.total, ?_, fun i d hd hr => ?_, fun a i d hd hgone => h.gone hd hgone⟩
  · have hle : count (·.pc.working) (run src initial acts).diggers ≤
        count (·.shovel) (run src initial acts).diggers :=
      count_le_count fun i d hd hw =>
        (h.equipped i d hd).shovel.trans (needsShovel_of_working hw)
    have := h.total
    omega
  · exact (h.equipped i d hd).shovel.trans (needsShovel_of_returning hr)

end RealTimeLabs.Diggers
