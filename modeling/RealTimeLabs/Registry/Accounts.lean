import RealTimeLabs.Registry.Ownership

/-! Whose loads a slot counts.

A slot's count starts at zero because the company before has zeroed it, or the registry
was laid out so, and after that only its owner's diggers should add to it. `Tallied` ties
every owned slot to its owner's loads and every other slot to zero, at every statement
under the lock. The diggers of a company that has left break it: they go on adding to a
slot that is no longer theirs. -/
namespace RealTimeLabs.Registry
open Bytes Interleaving

/-- A process that has not registered yet. -/
def Pc.fresh : Pc → Bool
  | .running _ | .leaving _ | .returned _ | .gone => false
  | _ => true

/-- Counts and loads, at every statement. -/
structure Tallied (s : State) : Prop where
  owned : ∀ p i m, i < slots → (s.pc p).owns = some i → s.object = some m →
    nOfSoilDone m i = BitVec.ofNat 32 (s.loads p)
  vacant : ∀ i m, i < slots → (∀ p, (s.pc p).owns ≠ some i) → s.object = some m →
    nOfSoilDone m i = 0
  fresh : ∀ p, (s.pc p).fresh = true → s.loads p = 0
  small : ∀ p, s.loads p < intLimit

/-- A digger counts for a company that is still there, whose loads fit an `int`; and the
names written fit their entries. -/
def Accountable (argv : Nat → Option CString) (p : Nat) (inner : Inner) (s : State) : Prop :=
  match inner with
  | .strcpy i => ∀ c_name ∈ argv p, Fits i c_name
  | .count m_id => s.pc p = .running m_id ∧ s.loads p + 1 < intLimit
  | _ => True

instance (argv : Nat → Option CString) (p : Nat) (inner : Inner) (s : State) :
    Decidable (Accountable argv p inner s) := by
  unfold Accountable
  split <;> infer_instance

/-- Whenever the lock is free, a live company's slot counts the loads that the company's
own diggers have counted. -/
def Credited (s : State) : Prop :=
  s.lock = none → ∀ p i m, i < slots → (s.pc p).owns = some i → s.object = some m →
    (nOfSoilDone m i).toInt = s.loads p

theorem tallied_initial : Tallied initial :=
  ⟨fun _ _ _ _ h => (by cases h), fun _ _ _ _ h => (by cases h), fun _ _ => rfl,
    fun _ => (by decide : 0 < intLimit)⟩

theorem credited_of_tallied {s : State} (h : Tallied s) : Credited s := by
  intro _ p i m hi hp hm
  have hsmall : s.loads p < 2147483648 := h.small p
  rw [h.owned p i m hi hp hm, BitVec.toInt_ofNat', Int.bmod_eq_of_le]
  · omega
  · omega

/-- A step that leaves the counts of the slots, and who owns them, as they are. -/
theorem Tallied.carry {s s' : State} (h : Tallied s)
    (hobj : ∀ m', s'.object = some m' → ∃ m, s.object = some m ∧
      ∀ i, i < slots → nOfSoilDone m' i = nOfSoilDone m i)
    (howns : ∀ q, (s'.pc q).owns = (s.pc q).owns) (hloads : s'.loads = s.loads)
    (hfresh : ∀ q, (s'.pc q).fresh = true → (s.pc q).fresh = true) : Tallied s' := by
  refine ⟨fun p i m hi hp hm => ?_, fun i m hi hp hm => ?_, fun p hp => ?_, fun p => ?_⟩
  · obtain ⟨m₀, hm₀, hsame⟩ := hobj m hm
    rw [hsame i hi, hloads]
    exact h.owned p i m₀ hi ((howns p).symm.trans hp) hm₀
  · obtain ⟨m₀, hm₀, hsame⟩ := hobj m hm
    rw [hsame i hi]
    exact h.vacant i m₀ hi (fun p hq => hp p ((howns p).trans hq)) hm₀
  · rw [hloads]
    exact h.fresh p (hfresh p hp)
  · rw [hloads]
    exact h.small p

theorem fresh_update {pc : Nat → Pc} {p : Nat} {new : Pc}
    (h : new.fresh = true → (pc p).fresh = true) (q : Nat)
    (hq : (Function.update pc p new q).fresh = true) : (pc q).fresh = true := by
  by_cases hqp : q = p
  · rw [hqp, Function.update_self] at hq
    rw [hqp]
    exact h hq
  · rw [Function.update_of_ne hqp] at hq
    exact hq

/-- The registry as it was. -/
theorem same_counts {s s' : State} (h : s'.object = s.object) (m' : Memory)
    (hm : s'.object = some m') : ∃ m, s.object = some m ∧
      ∀ i, i < slots → nOfSoilDone m' i = nOfSoilDone m i :=
  ⟨m', h.symm.trans hm, fun _ _ => rfl⟩

/-- A write that leaves the counts alone. -/
theorem same_counts_write {s : State} {f : Memory → Memory}
    (hf : ∀ m i, i < slots → nOfSoilDone (f m) i = nOfSoilDone m i) (m' : Memory)
    (hm : (s.write f).object = some m') : ∃ m, s.object = some m ∧
      ∀ i, i < slots → nOfSoilDone m' i = nOfSoilDone m i := by
  obtain ⟨m, hm₀, rfl⟩ := Option.map_eq_some_iff.mp hm
  exact ⟨m, hm₀, hf m⟩

theorem entry_fresh {argv : Nat → Option CString} {p : Nat} {digger : Bool} {pc pc' : Pc}
    {inner : Inner} (h : entry argv p digger pc = some (pc', inner))
    (hf : pc'.fresh = true) : pc.fresh = true := by
  unfold entry at h
  split at h <;> first | rfl | (split at h <;> cases h <;> cases hf) | cases h

/-- A slot that nobody owned is at zero for the company that has claimed it. -/
theorem Tallied.claimed {s : State} (ht : Tallied s) (h : Owning s) {p i : Nat}
    (hlock : s.lock = some (p, .giveClaimed i)) :
    Tallied (s.setPc p (.running i)).give := by
  have hpc : s.pc p = .claiming := h.within p _ hlock
  have hheld := h.held p _ hlock
  refine ⟨fun q j m hj hq hm => ?_, fun j m hj hq hm => ?_, fun q hq => ?_, ht.small⟩
  · rw [give_pc, setPc_pc, owns_update] at hq
    split at hq
    · rename_i hqp
      cases hq
      change _ = BitVec.ofNat 32 (s.loads q)
      rw [hqp, ht.fresh p (by rw [hpc]; rfl)]
      exact ht.vacant i m hj (hheld hj).1 hm
    · exact ht.owned q j m hj hq hm
  · refine ht.vacant j m hj (fun q hown => hq q ?_) hm
    rw [give_pc, setPc_pc, owns_update, if_neg]
    · exact hown
    · intro rfl
      rw [hpc] at hown
      cases hown
  · exact ht.fresh q (fresh_update (fun hf : (Pc.running i).fresh = true => by cases hf) q hq)

/-- The slot that a company leaves is zeroed. -/
theorem Tallied.left {s : State} (ht : Tallied s) (h : Owning s) {p i : Nat}
    (hlock : s.lock = some (p, .zeroCount i)) :
    Tallied (((s.write (setNOfSoilDone i 0)).setPc p (.returned i)).goto p .giveLeft) := by
  have hpc : s.pc p = .leaving i := h.within p _ hlock
  have hown : (s.pc p).owns = some i := by rw [hpc]; rfl
  refine ⟨fun q j m hj hq hm => ?_, fun j m hj hq hm => ?_, fun q hq => ?_, ht.small⟩
  · rw [goto_pc, setPc_pc, owns_update] at hq
    obtain ⟨m, hm₀, rfl⟩ := Option.map_eq_some_iff.mp hm
    split at hq
    · cases hq
    · rename_i hqp
      have hij : i ≠ j := fun hij => hqp (h.unique q p j hj hq (hij ▸ hown))
      rw [nOfSoilDone_setNOfSoilDone_of_ne m 0 hij]
      exact ht.owned q j m hj hq hm₀
  · obtain ⟨m, hm₀, rfl⟩ := Option.map_eq_some_iff.mp hm
    by_cases hij : i = j
    · rw [hij, nOfSoilDone_setNOfSoilDone_self]
    · rw [nOfSoilDone_setNOfSoilDone_of_ne m 0 hij]
      refine ht.vacant j m hj (fun q hold => hq q ?_) hm₀
      rw [goto_pc, setPc_pc, owns_update, if_neg]
      · exact hold
      · intro rfl
        rw [hown] at hold
        exact hij (Option.some.inj hold)
  · exact ht.fresh q (fresh_update (fun hf : (Pc.returned i).fresh = true => by cases hf) q hq)

/-- A digger of the owner counts one load. -/
theorem Tallied.counted {s : State} (ht : Tallied s) (h : Owning s) {p i : Nat}
    (hrun : s.pc p = .running i) (hsmall : s.loads p + 1 < intLimit) :
    Tallied { (s.write fun m => setNOfSoilDone i (nOfSoilDone m i + 1) m).goto p .giveCounted with
      loads := Function.update s.loads p (s.loads p + 1) } := by
  have hown : (s.pc p).owns = some i := by rw [hrun]; rfl
  refine ⟨fun q j m hj hq hm => ?_, fun j m hj hq hm => ?_, fun q hq => ?_, fun q => ?_⟩
  · obtain ⟨m, hm₀, rfl⟩ := Option.map_eq_some_iff.mp hm
    have hold := ht.owned q j m hj hq hm₀
    by_cases hqp : q = p
    · subst hqp
      obtain rfl : i = j := Option.some.inj (hown.symm.trans hq)
      rw [nOfSoilDone_setNOfSoilDone_self, hold]
      change _ = BitVec.ofNat 32 (Function.update s.loads q (s.loads q + 1) q)
      rw [Function.update_self, BitVec.ofNat_add]
      rfl
    · have hij : i ≠ j := fun hij => hqp (h.unique q p j hj hq (hij ▸ hown))
      rw [nOfSoilDone_setNOfSoilDone_of_ne m _ hij, hold]
      change _ = BitVec.ofNat 32 (Function.update s.loads p (s.loads p + 1) q)
      rw [Function.update_of_ne hqp]
  · obtain ⟨m, hm₀, rfl⟩ := Option.map_eq_some_iff.mp hm
    have hij : i ≠ j := by
      intro rfl
      exact hq p hown
    rw [nOfSoilDone_setNOfSoilDone_of_ne m _ hij]
    exact ht.vacant j m hj hq hm₀
  · have hqp : q ≠ p := by
      intro rfl
      have hf : (s.pc q).fresh = true := hq
      rw [hrun] at hf
      cases hf
    change Function.update s.loads p (s.loads p + 1) q = 0
    rw [Function.update_of_ne hqp]
    exact ht.fresh q hq
  · change Function.update s.loads p (s.loads p + 1) q < intLimit
    by_cases hqp : q = p
    · rw [hqp, Function.update_self]
      exact hsmall
    · rw [Function.update_of_ne hqp]
      exact ht.small q

theorem tallied_inner {argv : Nat → Option CString} {s : State} (h : Owning s) (ht : Tallied s)
    {p : Nat} {inner : Inner} (hlock : s.lock = some (p, inner)) (ok : Bool)
    (hC : Accountable argv p inner s) : Tallied (innerStep argv ok p inner s) := by
  have hwithin := h.within p inner hlock
  have hheld := h.held p inner hlock
  cases inner with
  | shmOpen =>
    cases hsome : s.object with
    | none =>
      cases ok with
      | false =>
        simp only [innerStep, hsome]
        exact ht.carry (same_counts rfl) (fun _ => rfl) rfl (fun _ hq => hq)
      | true =>
        -- a new object is all zeros, and nobody owns anything yet
        have hnone (q : Nat) : (s.pc q).owns = none := ((h.unborn hsome).1 q).owns
        simp only [innerStep, hsome]
        refine ⟨fun q i m _ hq _ => ?_, fun i m _ _ hm => ?_, ht.fresh, ht.small⟩
        · exact absurd ((hnone q).symm.trans hq) (fun hn => by cases hn)
        · cases hm
          exact load32_zero fun _ _ _ => rfl
    | some m =>
      cases ok <;> simp only [innerStep, hsome] <;>
        exact ht.carry (same_counts rfl) (fun _ => rfl) rfl (fun _ hq => hq)
  | reopen => cases ok <;> exact ht.carry (same_counts rfl) (fun _ => rfl) rfl (fun _ hq => hq)
  | ftruncate is_init =>
    cases ok <;> exact ht.carry (same_counts rfl) (fun _ => rfl) rfl (fun _ hq => hq)
  | mmap is_init =>
    cases ok <;> exact ht.carry (same_counts rfl) (fun _ => rfl) rfl (fun _ hq => hq)
  | initialise =>
    refine ⟨fun q i m _ hq _ => ?_, fun i m hi _ hm => ?_, ht.fresh, ht.small⟩
    · exact absurd ((hheld q).symm.trans hq) (fun hn => by cases hn)
    · obtain ⟨m, _, rfl⟩ := Option.map_eq_some_iff.mp hm
      exact nOfSoilDone_initialised hi
  | giveOpened =>
    have hpc : s.pc p = .opening := hwithin
    refine ht.carry (same_counts rfl) (owns_update_same ?_) rfl (fresh_update fun _ => ?_)
    · rw [hpc]
      split <;> rfl
    · rw [hpc]
      rfl
  | giveFailed =>
    have hpc : s.pc p = .opening := hwithin
    refine ht.carry (same_counts rfl) (owns_update_same ?_) rfl (fresh_update fun hf => by cases hf)
    rw [hpc]
    rfl
  | search i =>
    simp only [innerStep]
    split
    · split
      · exact ht.carry (same_counts rfl) (fun _ => rfl) rfl (fun _ hq => hq)
      · exact ht
    · exact ht.carry (same_counts rfl) (fun _ => rfl) rfl (fun _ hq => hq)
  | strcpy i =>
    simp only [innerStep]
    split
    · rename_i c_name hname
      exact ht.carry (same_counts_write fun m j hj => nOfSoilDone_copyName (hC c_name hname) hj)
        (fun _ => rfl) rfl (fun _ hq => hq)
    · exact ht
  | occupy i =>
    exact ht.carry (same_counts_write fun m j _ => nOfSoilDone_setIsEmpty m i j 0)
      (fun _ => rfl) rfl (fun _ hq => hq)
  | giveClaimed i => exact ht.claimed h hlock
  | markEmpty i =>
    exact ht.carry (same_counts_write fun m j _ => nOfSoilDone_setIsEmpty m i j 1)
      (fun _ => rfl) rfl (fun _ hq => hq)
  | zeroCount i => exact ht.left h hlock
  | count i => exact ht.counted h hC.1 hC.2
  | _ => exact ht.carry (same_counts rfl) (fun _ => rfl) rfl (fun _ hq => hq)

/-- A name that fits its entry reaches no owned flag: the slot is nobody's yet. -/
theorem contained_of_accountable {argv : Nat → Option CString} {s : State} (h : Owning s)
    {a : Action} (hC : OnInner (Accountable argv) a s) : OnInner (Contained argv) a s := by
  refine hC.imp fun p inner hlock hacc => ?_
  cases inner with
  | strcpy i =>
    intro c_name hname q j hj hq
    refine not_reachesFlag_of_fits (hacc c_name hname) ?_ hj
    intro rfl
    exact (h.held p _ hlock).2 q hq
  | _ => trivial

theorem tallied_step (argv : Nat → Option CString) (a : Action) (s : State)
    (h : Owning s ∧ Tallied s) (hC : OnInner (Accountable argv) a s) :
    Owning (step argv a s) ∧ Tallied (step argv a s) := by
  refine ⟨owning_step argv a s h.1 (contained_of_accountable h.1 hC), ?_⟩
  have ht := h.2
  cases a with
  | take p digger =>
    simp only [step]
    cases hlock : s.lock with
    | some holder => exact ht
    | none =>
      simp only
      cases hentry : entry argv p digger (s.pc p) with
      | none => exact ht
      | some next =>
        exact ht.carry (same_counts rfl) (owns_update_same (entry_owns hentry).1) rfl
          (fresh_update (entry_fresh hentry))
  | inner ok =>
    simp only [step]
    cases hlock : s.lock with
    | none => exact ht
    | some holder => exact tallied_inner h.1 ht hlock ok (hC.holder hlock)
  | exit p =>
    simp only [step]
    split
    · rename_i i hpc
      split
      · exact ht
      · refine ht.carry (same_counts rfl) (owns_update_same ?_) rfl
          (fresh_update fun hf => by cases hf)
        rw [hpc]
        rfl
    · exact ht

/-- **Every live company's slot counts its own loads**, in every state with the lock free
of every run in which no digger counts for a company that has left, no name outgrows its
entry, and no count outgrows its `int`. -/
theorem credited_of_accountable (argv : Nat → Option CString) (acts : List Action)
    (h : Along (step argv) (OnInner (Accountable argv)) initial acts) :
    Throughout (step argv) Credited initial acts :=
  (throughout_of_along (tallied_step argv) ⟨owning_initial, tallied_initial⟩ h).imp
    fun _ hs => credited_of_tallied hs.2

/-- The other way round: a digger of a company that has left, counting into a slot that is
somebody's by now, breaks the law at once. -/
theorem uncredited_of_departed {argv : Nat → Option CString} {s : State} (ht : Tallied s)
    {p q i : Nat} (hlock : s.lock = some (p, .count i)) (hp : s.pc p = .returned i)
    (hi : i < slots) (hq : (s.pc q).owns = some i) (hobj : s.object.isSome) :
    ¬ Credited (run argv s [.inner true, .inner true]) := by
  obtain ⟨m, hm⟩ := Option.isSome_iff_exists.mp hobj
  have hqp : q ≠ p := by
    intro rfl
    rw [hp] at hq
    cases hq
  have hbefore := credited_of_tallied ⟨ht.owned, ht.vacant, ht.fresh, ht.small⟩
    (s := s.give) rfl q i m hi hq hm
  intro hcred
  simp only [run, Interleaving.run, step, hlock, innerStep, goto_lock] at hcred
  have hafter := hcred rfl q i (setNOfSoilDone i (nOfSoilDone m i + 1) m) hi hq (by
    rw [give_object, goto_object, write_object, hm]
    rfl)
  rw [nOfSoilDone_setNOfSoilDone_self] at hafter
  have hloads : Function.update s.loads p (s.loads p + 1) q = s.loads q :=
    Function.update_of_ne hqp _ _
  have hsame : (nOfSoilDone m i + 1).toInt = (nOfSoilDone m i).toInt := by
    rw [hbefore]
    exact hafter.trans (congrArg Int.ofNat hloads)
  have := BitVec.toInt_inj.mp hsame
  bv_omega

/-- Process `p` quits with `E`. -/
def leaving (p : Nat) : List Action := .take p false :: List.replicate 3 (.inner true)

/-- An upper digger of process `p` counts a load. -/
def counting (p : Nat) : List Action := .take p true :: List.replicate 2 (.inner true)

/-- A slot is handed over, and both companies count into it in their own time. -/
def handOver : List Action :=
  opening 0 ++ claiming 0 0 ++ counting 0 ++ leaving 0 ++ opening 1 ++ claiming 1 0 ++ counting 1

theorem credited_handOver : Throughout (step fun _ => some noName) Credited initial handOver :=
  credited_of_accountable (fun _ => some noName) handOver (by decide +kernel)

/-- A slot is handed over, and a digger of the company that has left counts once more. -/
def lateLoad : List Action :=
  opening 0 ++ claiming 0 0 ++ leaving 0 ++ opening 1 ++ claiming 1 0 ++ counting 0

theorem lateLoad_uncredited : ¬ Credited (run (fun _ => some noName) initial lateLoad) := by
  intro h
  obtain ⟨m, hm, hone⟩ := Option.map_eq_some_iff.mp
    (show (run (fun _ => some noName) initial lateLoad).object.map
      (fun m => (nOfSoilDone m 0).toInt) = some 1 by decide +kernel)
  have hzero := h (by decide +kernel) 1 0 m (by decide) (by decide +kernel) hm
  rw [hone] at hzero
  exact absurd hzero (by decide +kernel)

end RealTimeLabs.Registry
