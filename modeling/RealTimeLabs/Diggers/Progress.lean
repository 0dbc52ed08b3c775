import RealTimeLabs.Diggers.Shovels

/-! What the diggers wait for.

A digger waits for soil, for a shovel, or for the lock of the registry. Whoever has a shovel or the
lock can go on, unless it waits for the lock itself. So the only crew in which nobody can go on is
one of upper diggers in front of an empty heap (`waiting_run`). A digger whose deletion waits goes
on to its `taskUnsafe`, which is a few statements away, and no further: only the shovels and the
lock can keep it, and with as many turns as there are statements left it is gone
(`deletion_run`). -/
namespace RealTimeLabs.Diggers
open Roster

/-! ### The lock -/

/-- Between `semTake(lock)` and `semGive(lock)`. -/
def Pc.locking : Pc → Bool
  | .upper .count | .upper .giveLock => true
  | _ => false

/-- Digger `i` is there, and under the lock. -/
def locks (l : List (Option Digger)) (i : Nat) : Bool := (l[i]?.getD none).any (·.pc.locking)

theorem locks_eq {l : List (Option Digger)} {i : Nat} {d : Digger} (h : l[i]? = some (some d)) :
    locks l i = d.pc.locking := by
  rw [locks, h]
  rfl

theorem locks_put {l : List (Option Digger)} {i : Nat} {d : Digger} (h : l[i]? = some (some d))
    (d' : Option Digger) (j : Nat) :
    locks (put i d' l) j = if j = i then d'.any (·.pc.locking) else locks l j := by
  rw [locks, put, List.getElem?_set]
  by_cases hij : i = j
  · rw [if_pos hij, if_pos hij.symm, if_pos (List.getElem?_eq_some_iff.mp h).1]
    rfl
  · rw [if_neg hij, if_neg (Ne.symm hij)]
    rfl

theorem locks_hire {l : List (Option Digger)} {d : Digger} (h : d.pc.locking = false) (j : Nat) :
    locks (hire d l) j = locks l j := by
  rw [locks, locks, hire]
  rcases Nat.lt_trichotomy j l.length with hlt | heq | hgt
  · rw [List.getElem?_append_left hlt]
  · rw [heq, List.getElem?_concat_length, List.getElem?_eq_none (Nat.le_refl _)]
    exact h
  · rw [List.getElem?_eq_none (Nat.le_of_lt hgt), List.getElem?_eq_none]
    rw [List.length_append, List.length_singleton]
    exact hgt

/-- What a statement does to the lock: nothing, or it takes it, or gives it. -/
theorem advance_lock {src : Source} {i : Nat} {expired : Bool} {d : Digger} {m : Shared}
    {d' : Option Digger} {m' : Shared} (h : advance src i expired d m = some (d', m')) :
    (m'.lock = m.lock ∧ d'.any (·.pc.locking) = d.pc.locking) ∨
    (m.lock = .free ∧ m'.lock = .digger i ∧ d'.any (·.pc.locking) = true) ∨
    (d.pc.locking = true ∧ m'.lock = .free ∧ d'.any (·.pc.locking) = false) := by
  have hleave (pc : Pc) (hpc : pc.locking = false) : (d.leave pc).any (·.pc.locking) = false := by
    unfold Digger.leave
    split
    · rfl
    · exact hpc
  unfold advance at h
  split at h <;> rename_i hpc <;> rw [hpc]
  case h_2 =>
    split at h <;> cases h
    exact .inl ⟨rfl, rfl⟩
  case h_6 =>
    cases h
    exact .inl ⟨rfl, hleave _ rfl⟩
  case h_8 =>
    split at h <;> cases h
    exact .inl ⟨rfl, rfl⟩
  case h_10 =>
    split at h
    · cases h
      exact .inl ⟨rfl, rfl⟩
    · split at h <;> cases h
      exact .inl ⟨rfl, rfl⟩
  case h_12 =>
    cases h
    exact .inl ⟨rfl, hleave _ rfl⟩
  case h_13 =>
    split at h <;> cases h <;> exact .inl ⟨rfl, rfl⟩
  case h_14 =>
    split at h
    · rename_i hfree
      cases h
      exact .inr (.inl ⟨hfree, rfl, rfl⟩)
    · cases h
  case h_16 =>
    cases h
    exact .inr (.inr ⟨rfl, rfl, rfl⟩)
  case h_18 =>
    cases h
    exact .inl ⟨rfl, hleave _ rfl⟩
  all_goals
    cases h
    exact .inl ⟨rfl, rfl⟩

/-- The lock is a digger's exactly while that digger is under it. -/
def Locked (s : State) : Prop := ∀ i, s.shared.lock = .digger i ↔ locks s.diggers i = true

theorem locked_digger {s : State} {i : Nat} {d : Digger} (h : Locked s)
    (hd : s.diggers[i]? = some (some d)) {src : Source} {expired : Bool} {d' : Option Digger}
    {m : Shared} (hadv : advance src i expired d s.shared = some (d', m)) :
    Locked ⟨put i d' s.diggers, m⟩ := by
  intro j
  have hj := h j
  have hi := h i
  rw [locks_eq hd] at hi
  change m.lock = _ ↔ locks (put i d' s.diggers) j = true
  rw [locks_put hd]
  rcases advance_lock hadv with ⟨hlock, hsame⟩ | ⟨hfree, hlock, hlocks⟩ | ⟨hlocking, hlock, hlocks⟩
  · rw [hlock, hsame]
    split
    · rename_i hji
      rw [hji]
      exact hi
    · exact hj
  · rw [hlock, hlocks]
    rw [hfree] at hj
    split
    · rename_i hji
      exact iff_of_true (by rw [hji]) rfl
    · rename_i hji
      exact iff_of_false (fun heq => hji (Lock.digger.inj heq).symm)
        fun hl => (by cases hj.mpr hl)
  · rw [hlock, hlocks]
    rw [hi.mpr hlocking] at hj
    split
    · exact iff_of_false (fun heq => by cases heq) Bool.false_ne_true
    · rename_i hji
      exact iff_of_false (fun heq => by cases heq) fun hl => hji (Lock.digger.inj (hj.mpr hl)).symm

theorem locked_step (src : Source) (a : Action) (s : State) (h : Locked s) :
    Locked (step src a s) := by
  cases a with
  | createLower =>
    intro j
    simp only [step, locks_hire (show lowerDigger.pc.locking = false from rfl)]
    exact h j
  | createUpper =>
    intro j
    simp only [step, locks_hire (show upperDigger.pc.locking = false from rfl)]
    exact h j
  | delete i =>
    simp only [step]
    split
    · rename_i d hd
      intro j
      have hsame : d.delete.any (·.pc.locking) = d.pc.locking := by
        unfold Digger.delete
        split
        · rfl
        · rename_i hsafe
          cases hpc : d.pc with
          | lower pc => rfl
          | upper pc =>
            rw [hpc] at hsafe
            cases pc <;> first | rfl | exact absurd rfl hsafe
      simp only [locks_put hd, hsame]
      split
      · rename_i hji
        rw [hji, ← locks_eq hd]
        exact h i
      · exact h j
    · exact h
  | digger i expired =>
    simp only [step]
    split
    · rename_i d hd
      split
      · rename_i d' m hadv
        exact locked_digger h hd hadv
      · exact h
    · exact h
  | lockElsewhere =>
    intro j
    have hj := h j
    simp only [step]
    cases hlock : s.shared.lock with
    | digger i =>
      rw [hlock] at hj
      exact hj
    | free =>
      rw [hlock] at hj
      exact iff_of_false (fun heq => by cases heq) fun hl => (by cases hj.mpr hl)
    | elsewhere =>
      rw [hlock] at hj
      exact iff_of_false (fun heq => by cases heq) fun hl => (by cases hj.mpr hl)

theorem locked_initial : Locked initial := fun _ =>
  iff_of_false (fun heq => (by cases heq)) Bool.false_ne_true

theorem locked_run (src : Source) (acts : List Action) : Locked (run src initial acts) :=
  Interleaving.run_invariant (locked_step src) locked_initial acts

/-! ### Waiting -/

/-- What a digger that cannot go on waits for. -/
theorem waits_for {src : Source} {i : Nat} {expired : Bool} {d : Digger} {m : Shared}
    (h : advance src i expired d m = none) :
    (d.pc = .lower .takeShovels ∧ m.semShovels = 0) ∨
    (d.pc = .upper .takeSoilHeap ∧ m.semSoilHeap = 0) ∨
    (d.pc = .upper .takeShovels ∧ m.semShovels = 0) ∨
    (d.pc = .upper .takeLock ∧ m.lock ≠ .free) := by
  unfold advance at h
  split at h <;> rename_i hpc
  case h_2 =>
    split at h
    · cases h
    · rename_i hnone
      exact .inl ⟨hpc, Nat.eq_zero_of_not_pos hnone⟩
  case h_8 =>
    split at h
    · cases h
    · rename_i hnone
      exact .inr (.inl ⟨hpc, Nat.eq_zero_of_not_pos hnone⟩)
  case h_10 =>
    split at h
    · cases h
    · split at h
      · cases h
      · rename_i hnone
        exact .inr (.inr (.inl ⟨hpc, Nat.eq_zero_of_not_pos hnone⟩))
  case h_13 => split at h <;> cases h
  case h_14 =>
    split at h
    · cases h
    · rename_i hlock
      exact .inr (.inr (.inr ⟨hpc, hlock⟩))
  all_goals cases h

/-- Nobody can go on but by a timeout. -/
def Waiting (src : Source) (s : State) : Prop :=
  ∀ (i : Nat) (d : Digger), s.diggers[i]? = some (some d) → advance src i false d s.shared = none

/-- The lock is free when everybody waits, unless somebody else has it. -/
theorem Waiting.free {src : Source} {s : State} (h : Waiting src s) (hlocked : Locked s)
    (hlock : s.shared.lock ≠ .elsewhere) : s.shared.lock = .free := by
  cases hholder : s.shared.lock with
  | free => rfl
  | elsewhere => exact absurd hholder hlock
  | digger i =>
    have hlocks := (hlocked i).mp hholder
    cases hd : s.diggers[i]? with
    | none =>
      rw [locks, hd] at hlocks
      cases hlocks
    | some entry =>
      cases entry with
      | none =>
        rw [locks, hd] at hlocks
        cases hlocks
      | some d =>
        rw [locks_eq hd] at hlocks
        rcases waits_for (h i d hd) with ⟨hpc, _⟩ | ⟨hpc, _⟩ | ⟨hpc, _⟩ | ⟨hpc, _⟩ <;>
          (rw [hpc] at hlocks; cases hlocks)

/-- **No deadlock**: in every state of every run in which no other task or process has the lock,
some digger can go on without waiting for a timeout, unless all the diggers there are wait in front
of an empty heap, with the shovels in the box. -/
theorem waiting_run (src : Source) (acts : List Action)
    (hlock : (run src initial acts).shared.lock ≠ .elsewhere)
    (hwaiting : Waiting src (run src initial acts)) :
    (∀ (i : Nat) (d : Digger), (run src initial acts).diggers[i]? = some (some d) →
      d.pc = .upper .takeSoilHeap ∧ (run src initial acts).shared.semSoilHeap = 0) ∧
      (run src initial acts).shared.semShovels = shovelsTotal := by
  have hshovelled := shovelled_run src acts
  have hfree := hwaiting.free (locked_run src acts) hlock
  generalize run src initial acts = s at hwaiting hshovelled hfree ⊢
  have hnone : count (·.shovel) s.diggers = 0 := by
    refine List.countP_eq_zero.mpr fun o ho => ?_
    obtain ⟨i, hi⟩ := List.getElem?_of_mem ho
    cases o with
    | none => exact Bool.false_ne_true
    | some d =>
      have hshovel := (hshovelled.equipped i d hi).shovel
      change ¬ d.shovel = true
      rw [hshovel]
      rcases waits_for (hwaiting i d hi) with ⟨hpc, _⟩ | ⟨hpc, _⟩ | ⟨hpc, _⟩ | ⟨_, hheld⟩
      · rw [hpc]
        exact Bool.false_ne_true
      · rw [hpc]
        exact Bool.false_ne_true
      · rw [hpc]
        exact Bool.false_ne_true
      · exact absurd hfree hheld
  have htotal := hshovelled.total
  rw [hnone, Nat.add_zero] at htotal
  refine ⟨fun i d hd => ?_, htotal⟩
  have hbox : s.shared.semShovels ≠ 0 := by
    rw [htotal]
    decide
  rcases waits_for (hwaiting i d hd) with ⟨_, hzero⟩ | hsoil | ⟨_, hzero⟩ | ⟨_, hheld⟩
  · exact absurd hzero hbox
  · exact hsoil
  · exact absurd hzero hbox
  · exact absurd hfree hheld

/-- Two upper diggers, and no lower one. -/
theorem waiting_run_idle :
    (∀ (i : Nat) (d : Digger),
      (run .company initial [.createUpper, .createUpper]).diggers[i]? = some (some d) →
      d.pc = .upper .takeSoilHeap ∧
        (run .company initial [.createUpper, .createUpper]).shared.semSoilHeap = 0) ∧
      (run .company initial [.createUpper, .createUpper]).shared.semShovels = shovelsTotal :=
  waiting_run .company [.createUpper, .createUpper] (by decide) fun i d hd => by
    have hupper : d = upperDigger := by
      match i with
      | 0 => exact (Option.some.inj (Option.some.inj hd)).symm
      | 1 => exact (Option.some.inj (Option.some.inj hd)).symm
      | i + 2 => cases hd
    rw [hupper]
    rfl

/-! ### Leaving -/

/-- The statements up to and with the digger's `taskUnsafe`; fewer if it gets no shovel in time. -/
def Pc.left : Source → Pc → Nat
  | _, .lower .takeShovels => 5
  | _, .lower .work => 4
  | _, .lower .giveSoilHeap => 3
  | _, .lower .giveShovels => 2
  | _, .lower .taskUnsafe => 1
  | .company, .upper .takeShovels => 7
  | .company, .upper .work => 6
  | .task2, .upper .takeShovels => 4
  | .task2, .upper .work => 3
  | _, .upper .takeLock => 5
  | _, .upper .count => 4
  | _, .upper .giveLock => 3
  | _, .upper .giveShovels => 2
  | _, .upper .taskUnsafe => 1
  | _, .upper .giveSoilHeap => 2
  | _, .upper .giveUp => 1
  | _, _ => 0

theorem left_pos (src : Source) {pc : Pc} (h : pc.safe = true) : 0 < pc.left src := by
  cases pc with
  | lower pc => cases pc <;> first | exact Nat.succ_pos _ | cases h
  | upper pc => cases pc <;> cases src <;> first | exact Nat.succ_pos _ | cases h

/-- Deleted, but not gone yet. -/
structure Digger.Leaving (src : Source) (n : Nat) (d : Digger) : Prop where
  deletion : d.deletion = true
  safe : d.pc.safe = true
  left : d.pc.left src ≤ n

theorem leaving_at {src : Source} {d : Digger} {n : Nat} {pc : Pc} (h : d.Leaving src n)
    (hsafe : pc.safe = true) (hleft : pc.left src < d.pc.left src) :
    (d.at pc).Leaving src (n - 1) :=
  ⟨h.deletion, hsafe, Nat.le_sub_one_of_lt (Nat.lt_of_lt_of_le hleft h.left)⟩

theorem leave_none {d : Digger} (h : d.deletion = true) (pc : Pc) : d.leave pc = none := if_pos h

/-- Each statement brings it nearer, and `taskUnsafe` takes it. -/
theorem advance_leaving {src : Source} {i : Nat} {expired : Bool} {d : Digger} {m : Shared}
    {d' : Option Digger} {m' : Shared} {n : Nat} (h : d.Leaving src n)
    (hadv : advance src i expired d m = some (d', m')) :
    0 < n ∧ ∀ a, d' = some a → a.Leaving src (n - 1) := by
  refine ⟨Nat.lt_of_lt_of_le (left_pos src h.safe) h.left, fun a ha => ?_⟩
  have hsafe := h.safe
  have hto (pc : Pc) (hpc : pc.safe = true) (hleft : pc.left src < d.pc.left src)
      (shovel load : Bool) :
      Digger.Leaving src (n - 1) { d with pc := pc, shovel := shovel, load := load } := by
    have hat := leaving_at h hpc hleft
    exact ⟨hat.deletion, hat.safe, hat.left⟩
  have hgone (pc : Pc) (hl : d.leave pc = some a) : False := by
    rw [leave_none h.deletion] at hl
    cases hl
  unfold advance at hadv
  split at hadv <;> rename_i hpc <;> rw [hpc] at hsafe hto
  case h_2 =>
    split at hadv <;> cases hadv
    cases ha
    exact hto _ rfl (by cases src <;> exact Nat.le_of_ble_eq_true rfl) _ _
  case h_6 =>
    cases hadv
    exact (hgone _ ha).elim
  case h_10 =>
    split at hadv
    · cases hadv
      cases ha
      exact hto _ rfl (by cases src <;> exact Nat.le_of_ble_eq_true rfl) _ _
    · split at hadv <;> cases hadv
      cases ha
      exact hto _ rfl (by cases src <;> exact Nat.le_of_ble_eq_true rfl) _ _
  case h_12 =>
    cases hadv
    exact (hgone _ ha).elim
  case h_13 =>
    split at hadv <;> (cases hadv; cases ha; exact hto _ rfl (Nat.le_of_ble_eq_true rfl) _ _)
  case h_14 =>
    split at hadv <;> cases hadv
    cases ha
    exact hto _ rfl (by cases src <;> exact Nat.le_of_ble_eq_true rfl) _ _
  case h_18 =>
    cases hadv
    exact (hgone _ ha).elim
  all_goals first
    | exact (Bool.false_ne_true hsafe).elim
    | cases hadv
      cases ha
      exact hto _ rfl (by cases src <;> exact Nat.le_of_ble_eq_true rfl) _ _

/-- No statement of a digger is its deletion. -/
theorem advance_deletion {src : Source} {i : Nat} {expired : Bool} {d a : Digger} {m m' : Shared}
    (hadv : advance src i expired d m = some (some a, m')) : a.deletion = d.deletion := by
  have hleave {pc : Pc} (h : d.leave pc = some a) : a.deletion = d.deletion := by
    unfold Digger.leave at h
    split at h <;> cases h
    rfl
  unfold advance at hadv
  split at hadv
  case h_6 => exact hleave (congrArg Prod.fst (Option.some.inj hadv))
  case h_12 => exact hleave (congrArg Prod.fst (Option.some.inj hadv))
  case h_18 => exact hleave (congrArg Prod.fst (Option.some.inj hadv))
  all_goals (repeat' split at hadv) <;> cases hadv <;> rfl

/-- The action is a statement of digger `i`, which can go on. -/
def goesOn (src : Source) (i : Nat) : Action → State → Bool
  | .digger j expired, s =>
    j = i ∧ ((s.diggers[i]?.getD none).bind fun d => advance src i expired d s.shared).isSome
  | _, _ => false

/-- The statements that digger `i` executes in a run. -/
def executed (src : Source) (i : Nat) (s : State) : List Action → Nat
  | [] => 0
  | a :: rest => (goesOn src i a s).toNat + executed src i (step src a s) rest

/-- Gone, or to go within so many statements. -/
def Goes (src : Source) (i n : Nat) (s : State) : Prop :=
  s.diggers[i]? = some none ∨ ∃ d, s.diggers[i]? = some (some d) ∧ d.Leaving src n

theorem goes_hire {src : Source} {i n : Nat} {s : State} (h : Goes src i n s) (d : Digger) :
    Goes src i n { s with diggers := hire d s.diggers } := by
  have hkept {o : Option Digger} (ho : s.diggers[i]? = some o) :
      (hire d s.diggers)[i]? = some o := by
    rw [hire, List.getElem?_append_left (List.getElem?_eq_some_iff.mp ho).1, ho]
  obtain hnone | ⟨a, ha, hleaving⟩ := h
  · exact .inl (hkept hnone)
  · exact .inr ⟨a, hkept ha, hleaving⟩

/-- Another digger's entry. -/
theorem goes_put {src : Source} {i j n : Nat} {s : State} (h : Goes src i n s) (hji : j ≠ i)
    (d : Option Digger) (m : Shared) : Goes src i n ⟨put j d s.diggers, m⟩ := by
  have hsame : (put j d s.diggers)[i]? = s.diggers[i]? := by
    rw [put, List.getElem?_set, if_neg hji]
  obtain hnone | ⟨a, ha, hleaving⟩ := h
  · exact .inl (hsame.trans hnone)
  · exact .inr ⟨a, hsame.trans ha, hleaving⟩

theorem goes_self {src : Source} {i n : Nat} {s : State} {d : Digger}
    (hd : s.diggers[i]? = some (some d))
    {d' : Option Digger} (h : ∀ a, d' = some a → a.Leaving src n) (m : Shared) :
    Goes src i n ⟨put i d' s.diggers, m⟩ := by
  have hself : (put i d' s.diggers)[i]? = some d' := by
    rw [put, List.getElem?_set_self (List.getElem?_eq_some_iff.mp hd).1]
  cases d' with
  | none => exact .inl hself
  | some a => exact .inr ⟨a, hself, h a rfl⟩

theorem goes_step (src : Source) (i n : Nat) (a : Action) (s : State) (h : Goes src i n s) :
    (goesOn src i a s).toNat ≤ n ∧ Goes src i (n - (goesOn src i a s).toNat) (step src a s) := by
  cases a with
  | createLower => exact ⟨Nat.zero_le _, goes_hire h lowerDigger⟩
  | createUpper => exact ⟨Nat.zero_le _, goes_hire h upperDigger⟩
  | lockElsewhere => exact ⟨Nat.zero_le _, h⟩
  | delete j =>
    refine ⟨Nat.zero_le _, ?_⟩
    simp only [step]
    split
    · rename_i d hd
      by_cases hji : j = i
      · subst hji
        rcases h with hgone | ⟨d', hd', hleaving⟩
        · rw [hgone] at hd
          cases hd
        · rw [hd'] at hd
          cases hd
          refine goes_self hd' (fun a ha => ?_) s.shared
          rw [Digger.delete, if_pos hleaving.safe] at ha
          cases ha
          exact ⟨rfl, hleaving.safe, hleaving.left⟩
      · exact goes_put h hji d.delete s.shared
    · exact h
  | digger j expired =>
    by_cases hji : j = i
    · subst hji
      rcases h with hgone | ⟨d, hd, hleaving⟩
      · have hno : goesOn src j (.digger j expired) s = false := by
          simp only [goesOn, hgone, Option.getD_some, Option.bind_none, Option.isSome_none,
            Bool.false_eq_true, and_false, decide_false]
        rw [hno]
        refine ⟨Nat.zero_le _, .inl ?_⟩
        simp only [step, hgone]
      · cases hadv : advance src j expired d s.shared with
        | none =>
          have hno : goesOn src j (.digger j expired) s = false := by
            simp only [goesOn, hd, Option.getD_some, Option.bind_some, hadv, Option.isSome_none,
              Bool.false_eq_true, and_false, decide_false]
          rw [hno]
          refine ⟨Nat.zero_le _, .inr ⟨d, ?_, hleaving⟩⟩
          simp only [step, hd, hadv]
        | some next =>
          have hyes : goesOn src j (.digger j expired) s = true := by
            simp only [goesOn, hd, Option.getD_some, Option.bind_some, hadv, Option.isSome_some,
              and_self, decide_true]
          obtain ⟨hpos, hnext⟩ := advance_leaving hleaving hadv
          rw [hyes]
          refine ⟨hpos, ?_⟩
          simp only [step, hd, hadv]
          exact goes_self hd hnext next.2
    · have hno : goesOn src i (.digger j expired) s = false := by
        simp only [goesOn, hji, false_and, decide_false]
      rw [hno]
      refine ⟨Nat.zero_le _, ?_⟩
      simp only [step]
      split
      · split
        · exact goes_put h hji _ _
        · exact h
      · exact h

theorem goes_run (src : Source) (i n : Nat) (s : State) (acts : List Action) (h : Goes src i n s) :
    executed src i s acts ≤ n ∧ Goes src i (n - executed src i s acts) (run src s acts) := by
  induction acts generalizing s n with
  | nil => exact ⟨Nat.zero_le _, h⟩
  | cons a rest ih =>
    obtain ⟨hle, hgoes⟩ := goes_step src i n a s h
    obtain ⟨hrest, hrun⟩ := ih _ _ hgoes
    have hsum : n - ((goesOn src i a s).toNat + executed src i (step src a s) rest) =
        n - (goesOn src i a s).toNat - executed src i (step src a s) rest := by omega
    rw [executed, hsum]
    exact ⟨by omega, hrun⟩

/-- A deletion waits only for a digger that is safe from it. -/
theorem pending_step (src : Source) (a : Action) (s : State)
    (h : All (fun d => d.deletion = true → d.pc.safe = true) s.diggers) :
    All (fun d => d.deletion = true → d.pc.safe = true) (step src a s).diggers := by
  cases a with
  | createLower => exact h.hire fun hn => by cases hn
  | createUpper => exact h.hire fun hn => by cases hn
  | delete i =>
    simp only [step]
    split
    · refine h.put fun a ha _ => ?_
      unfold Digger.delete at ha
      split at ha
      · rename_i hsafe
        cases ha
        exact hsafe
      · cases ha
    · exact h
  | digger i expired =>
    simp only [step]
    split
    · rename_i d hd
      split
      · rename_i d' m hadv
        refine h.put fun a ha hdeletion => ?_
        subst ha
        cases hold : d.deletion with
        | true =>
          have hleaving : d.Leaving src (d.pc.left src) := ⟨hold, h i d hd hold, Nat.le_refl _⟩
          exact ((advance_leaving hleaving hadv).2 a rfl).safe
        | false =>
          have hnone := (advance_deletion hadv).trans hold
          rw [hdeletion] at hnone
          cases hnone
      · exact h
    · exact h
  | lockElsewhere => exact h

/-- What can keep a digger between its `taskSafe` and its `taskUnsafe`. -/
def Kept (m : Shared) : Pc → Prop
  | .lower .takeShovels | .upper .takeShovels => m.semShovels = 0
  | .upper .takeLock => m.lock ≠ .free
  | _ => False

instance (m : Shared) : (pc : Pc) → Decidable (Kept m pc)
  | .lower .takeShovels | .upper .takeShovels => inferInstanceAs (Decidable (m.semShovels = 0))
  | .upper .takeLock => inferInstanceAs (Decidable (m.lock ≠ .free))
  | .lower .taskSafe | .lower .work | .lower .giveSoilHeap | .lower .giveShovels
  | .lower .taskUnsafe | .lower .rest | .upper .takeSoilHeap | .upper .taskSafe
  | .upper .giveSoilHeap | .upper .giveUp | .upper .work | .upper .count | .upper .giveLock
  | .upper .giveShovels | .upper .taskUnsafe | .upper .rest => .isFalse id

/-- It is digger `i`'s turn, if it is still there, and nothing keeps it. -/
def hasTurn (i : Nat) : Action → State → Bool
  | .digger j _, s => j = i ∧ ∀ d ∈ s.diggers[i]?.getD none, ¬ Kept s.shared d.pc
  | _, _ => false

/-- The turns of digger `i` in a run. -/
def turns (src : Source) (i : Nat) (s : State) : List Action → Nat
  | [] => 0
  | a :: rest => (hasTurn i a s).toNat + turns src i (step src a s) rest

/-- Nothing else keeps a digger whose deletion waits: with a turn it goes on. -/
theorem goesOn_of_hasTurn {src : Source} {i : Nat} {a : Action} {s : State} {d : Digger}
    (hd : s.diggers[i]? = some (some d)) (hsafe : d.pc.safe = true)
    (hturn : hasTurn i a s = true) : goesOn src i a s = true := by
  cases a with
  | digger j expired =>
    simp only [hasTurn, hd, Option.getD_some, Option.mem_def, Option.some.injEq, forall_eq',
      decide_eq_true_eq] at hturn
    obtain ⟨hj, hfree⟩ := hturn
    subst hj
    simp only [goesOn, hd, Option.getD_some, Option.bind_some, true_and, decide_eq_true_eq]
    cases hadv : advance src j expired d s.shared with
    | some next => rfl
    | none =>
      rcases waits_for hadv with ⟨hpc, hzero⟩ | ⟨hpc, _⟩ | ⟨hpc, hzero⟩ | ⟨hpc, hheld⟩
      · rw [hpc] at hfree
        exact absurd hzero hfree
      · rw [hpc] at hsafe
        cases hsafe
      · rw [hpc] at hfree
        exact absurd hzero hfree
      · rw [hpc] at hfree
        exact absurd hheld hfree
  | _ => cases hturn

theorem gone_of_goes {src : Source} {i : Nat} {s : State} (h : Goes src i 0 s) :
    s.diggers[i]? = some none := by
  rcases h with hgone | ⟨d, _, hleaving⟩
  · exact hgone
  · exact absurd hleaving.left (Nat.not_le_of_lt (left_pos src hleaving.safe))

theorem goes_turn (src : Source) (i n : Nat) (a : Action) (s : State) (h : Goes src i n s) :
    Goes src i (n - (hasTurn i a s).toNat) (step src a s) := by
  rcases h with hgone | ⟨d, hd, hold⟩
  · have hstays := (goes_step src i 0 a s (.inl hgone)).2
    rw [Nat.zero_sub] at hstays
    exact .inl (gone_of_goes hstays)
  · have hnext := (goes_step src i n a s (.inr ⟨d, hd, hold⟩)).2
    cases hturn : hasTurn i a s with
    | true =>
      rw [goesOn_of_hasTurn hd hold.safe hturn] at hnext
      exact hnext
    | false =>
      rcases hnext with hgone | ⟨d', hd', hleaving⟩
      · exact .inl hgone
      · exact .inr ⟨d', hd', hleaving.deletion, hleaving.safe,
          Nat.le_trans hleaving.left (Nat.sub_le _ _)⟩

theorem turns_run (src : Source) (i n : Nat) (s : State) (acts : List Action)
    (h : Goes src i n s) : Goes src i (n - turns src i s acts) (run src s acts) := by
  induction acts generalizing s n with
  | nil => exact h
  | cons a rest ih =>
    rw [turns, Nat.sub_add_eq]
    exact ih _ _ (goes_turn src i n a s h)

/-- **A deletion that waits is carried out**: a digger whose deletion waits is between its
`taskSafe` and its `taskUnsafe`, and executes no more statements than there are up to the latter.
Only the shovels and the lock can keep it: with as many turns at which they do not it is gone,
whatever the others do. -/
theorem deletion_run (src : Source) (before after : List Action) (i : Nat) (d : Digger)
    (hd : (run src initial before).diggers[i]? = some (some d)) (hdeletion : d.deletion = true) :
    d.pc.safe = true ∧
      executed src i (run src initial before) after ≤ d.pc.left src ∧
      (d.pc.left src ≤ turns src i (run src initial before) after →
        (run src (run src initial before) after).diggers[i]? = some none) := by
  have hpending : All (fun d => d.deletion = true → d.pc.safe = true)
      (run src initial before).diggers :=
    Interleaving.run_invariant (I := fun s : State => All _ s.diggers) (pending_step src)
      (all_nil _) before
  have hsafe := hpending i d hd hdeletion
  have hgoes : Goes src i (d.pc.left src) (run src initial before) :=
    .inr ⟨d, hd, hdeletion, hsafe, Nat.le_refl _⟩
  refine ⟨hsafe, (goes_run src i _ _ after hgoes).1, fun hturns => ?_⟩
  have hend := turns_run src i _ _ after hgoes
  rw [Nat.sub_eq_zero_of_le hturns] at hend
  exact gone_of_goes hend

/-- An upper digger of the company is deleted with its shovel in its hands; another process has the
lock for a while. -/
def deleted : List Action :=
  [.createLower, .createUpper] ++ List.replicate 6 (.digger 0 false) ++
    List.replicate 3 (.digger 1 false) ++ [.delete 1, .lockElsewhere]

/-- Its first two turns, then one that the lock keeps from it, and the rest. -/
def leaving : List Action :=
  List.replicate 3 (.digger 1 false) ++ [.lockElsewhere] ++ List.replicate 5 (.digger 1 false)

theorem deletion_run_deleted :
    (run .company (run .company initial deleted) leaving).diggers[1]? = some none :=
  (deletion_run .company deleted leaving 1 ⟨.upper .work, true, true, true⟩ (by decide) rfl).2.2
    (by decide)

end RealTimeLabs.Diggers
