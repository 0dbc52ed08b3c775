import Mathlib.Data.List.Basic
import RealTimeLabs.Registry.Claiming
import RealTimeLabs.Registry.Initialising

/-! What the monitor prints (`monitor.c`).

The monitor looks at one entry after the other, each under the lock. A name stands in its entry
from the `strcpy` of the company on, cut at the flag (`readName_eq`), and nobody else writes there
(`named_step`). So each line is that of a company which holds the slot at this moment, with the
loads that its diggers have counted, and a slot that nobody holds is passed over
(`monitor_round`). -/
namespace RealTimeLabs.Registry
open Bytes Interleaving

/-! ### Names -/

/-- The name stands in an entry, as far as there is room. -/
def Stands (m : Memory) (i : Nat) (c_name : CString) : Prop :=
  ∀ k, k < isEmptyOffset - nameOffset → k ≤ c_name.strlen →
    m (company i + nameOffset + k) = nameByte c_name k

theorem stands_copyName (m : Memory) (i : Nat) (c_name : CString) :
    Stands (copyName i c_name m) i c_name := fun _ _ hk => copyName_at hk

section
variable {m : Memory} {i j : Nat} {c_name : CString} (h : Stands m i c_name)
include h

theorem Stands.setIsEmpty (v : Byte) : Stands (setIsEmpty j v m) i c_name := fun k hk hlen => by
  rw [Registry.setIsEmpty, writeBytes_outside]
  · exact h k hk hlen
  · simp only [company, sizeofCompany, nameOffset, isEmptyOffset, List.length_singleton] at hk ⊢
    omega

theorem Stands.setNOfSoilDone (n : BitVec 32) : Stands (setNOfSoilDone j n m) i c_name :=
  fun k hk hlen => by
  rw [Registry.setNOfSoilDone, store32_outside]
  · exact h k hk hlen
  · simp only [company, sizeofCompany, nameOffset, isEmptyOffset] at hk ⊢
    omega

/-- Another name, which fits its own entry. -/
theorem Stands.copyName {other : CString} (hfits : Fits j other) (hi : i < slots) (hji : j ≠ i) :
    Stands (copyName j other m) i c_name := fun k hk hlen => by
  rw [Registry.copyName, strcpy_outside]
  · exact h k hk hlen
  · simp only [Fits, company, sizeofCompany, nameOffset, isEmptyOffset, slots] at hfits hi hk ⊢
    omega

end

/-- What `%s` prints of an entry, up to the terminator. -/
def readName (m : Memory) (i : Nat) : Option (List Byte) :=
  (strlenWithin m (company i + nameOffset) (sizeofCompany - nameOffset)).map
    (readBytes m (company i + nameOffset))

theorem nameByte_of_lt {c_name : CString} {k : Nat} (h : k < c_name.chars.length) :
    nameByte c_name k = c_name.chars[k] := by
  rw [nameByte, List.getD_eq_getElem?_getD, List.getElem?_append_left h,
    List.getElem?_eq_getElem h, Option.getD_some]

theorem nameByte_ne_zero {c_name : CString} {k : Nat} (h : k < c_name.chars.length) :
    nameByte c_name k ≠ 0 := by
  rw [nameByte_of_lt h]
  intro hzero
  exact c_name.noNul (hzero ▸ List.getElem_mem h)

/-- The name of a slot in use is the company's, cut at the flag. -/
theorem readName_eq {m : Memory} {i : Nat} {c_name : CString} (h : Stands m i c_name)
    (hused : isEmpty m i = false) : readName m i = some (c_name.chars.take 20) := by
  have hflag : m (company i + isEmptyOffset) = 0 := by
    rw [isEmpty] at hused
    exact Classical.not_not.mp (of_decide_eq_false hused)
  have hroom : isEmptyOffset - nameOffset = 20 := rfl
  have hend : m (company i + nameOffset + min 20 c_name.chars.length) = 0 := by
    rcases Nat.lt_or_ge c_name.chars.length 20 with hshort | hlong
    · have hterminator : nameByte c_name c_name.chars.length = 0 := by
        rw [nameByte, List.getD_eq_getElem?_getD, List.getElem?_concat_length, Option.getD_some]
      rw [Nat.min_eq_right (Nat.le_of_lt hshort), h c_name.chars.length (by omega) (Nat.le_refl _),
        hterminator]
    · rw [Nat.min_eq_left hlong]
      exact hflag
  have hbefore : ∀ k < min 20 c_name.chars.length,
      m (company i + nameOffset + k) = nameByte c_name k := fun k hk =>
    h k (by omega) (by simp only [CString.strlen]; omega)
  have hstrlen : strlenWithin m (company i + nameOffset) (sizeofCompany - nameOffset) =
      some (min 20 c_name.chars.length) := by
    refine strlenWithin_eq ?_ hend fun k hk => ?_
    · have hsize : sizeofCompany - nameOffset = 24 := rfl
      omega
    · rw [hbefore k hk]
      exact nameByte_ne_zero (by omega)
  rw [readName, hstrlen, Option.map_some]
  congr 1
  apply List.ext_getElem
  · rw [length_readBytes, List.length_take]
  · intro k hk hk'
    rw [length_readBytes] at hk
    rw [List.getElem_take, ← nameByte_of_lt (by omega), ← hbefore k hk]
    simp [readBytes]

/-! ### Names and owners -/

/-- A company from its second section on. -/
def Pc.registers : Pc → Bool
  | .claiming | .running _ | .leaving _ | .returned _ => true
  | _ => false

/-- The name of every company stands in its entry, from the `strcpy` on. -/
structure Named (argv : Nat → Option CString) (s : State) : Prop where
  company : ∀ p, (s.pc p).registers = true → (argv p).isSome
  owned : ∀ p i c_name m, i < slots → (s.pc p).owns = some i → argv p = some c_name →
    s.object = some m → Stands m i c_name
  claiming : ∀ p inner i c_name m, s.lock = some (p, inner) → inner.Claims i → i < slots →
    argv p = some c_name → s.object = some m → Stands m i c_name

theorem named_initial (argv : Nat → Option CString) : Named argv initial :=
  ⟨fun _ h => (by cases h), fun _ _ _ _ _ h => (by cases h), fun _ _ _ _ _ h => (by cases h)⟩

variable {argv : Nat → Option CString}

theorem registers_update {pc : Nat → Pc} {p : Nat} {new : Pc}
    (h : ∀ q, (pc q).registers = true → (argv q).isSome)
    (hnew : new.registers = true → (argv p).isSome) (q : Nat)
    (hq : (Function.update pc p new q).registers = true) : (argv q).isSome := by
  by_cases hqp : q = p
  · rw [hqp, Function.update_self] at hq
    rw [hqp]
    exact hnew hq
  · rw [Function.update_of_ne hqp] at hq
    exact h q hq

/-- A step with a write that leaves the names of owners alone, and no claim after it. -/
theorem Named.write {s s' : State} (h : Named argv s) (f : Memory → Memory)
    (hobj : s'.object = s.object.map f)
    (hregisters : ∀ q, (s'.pc q).registers = true → (argv q).isSome)
    (howns : ∀ q i, (s'.pc q).owns = some i → (s.pc q).owns = some i)
    (hf : ∀ q i c_name m, i < slots → (s.pc q).owns = some i → Stands m i c_name →
      Stands (f m) i c_name)
    (hclaims : ∀ p inner i, s'.lock = some (p, inner) → i < slots → ¬ inner.Claims i) :
    Named argv s' := by
  refine ⟨hregisters, fun q i c_name m hi hq hname hm => ?_, fun p inner i _ _ hl hc hi => ?_⟩
  · rw [hobj] at hm
    obtain ⟨m', hm', rfl⟩ := Option.map_eq_some_iff.mp hm
    exact hf q i c_name m' hi (howns q i hq) (h.owned q i c_name m' hi (howns q i hq) hname hm')
  · exact absurd hc (hclaims p inner i hl hi)

/-- A step that leaves the registry alone. -/
theorem Named.keep {s s' : State} (h : Named argv s) (hobj : s'.object = s.object)
    (hregisters : ∀ q, (s'.pc q).registers = true → (argv q).isSome)
    (howns : ∀ q i, (s'.pc q).owns = some i → (s.pc q).owns = some i)
    (hclaims : ∀ p inner i, s'.lock = some (p, inner) → i < slots → ¬ inner.Claims i) :
    Named argv s' :=
  h.write id (hobj.trans (congrFun Option.map_id s.object).symm) hregisters howns
    (fun _ _ _ _ _ _ hs => hs) hclaims

theorem Named.claimed {s : State} (h : Named argv s) {p i : Nat}
    (hlock : s.lock = some (p, .giveClaimed i)) (hpc : s.pc p = .claiming) :
    Named argv (s.setPc p (.running i)).give := by
  refine ⟨registers_update h.company fun _ => h.company p (by rw [hpc]; rfl),
    fun q j c_name m hj hq hname hm => ?_, fun _ _ _ _ _ hl => (by cases hl)⟩
  rw [give_pc, setPc_pc, owns_update] at hq
  split at hq
  · rename_i hqp
    cases hq
    rw [hqp] at hname
    exact h.claiming p _ i c_name m hlock rfl hj hname hm
  · exact h.owned q j c_name m hj hq hname hm

/-- The names of the others are not written over. -/
theorem Named.copied {s : State} (h : Named argv s) {p i : Nat} {c_name : CString}
    (hname : argv p = some c_name) (hfits : Fits i c_name)
    (hunowned : ∀ q, (s.pc q).owns ≠ some i) :
    Named argv ((s.write (copyName i c_name)).goto p (.occupy i)) := by
  refine ⟨h.company, fun q j other m hj hq hother hm => ?_,
    fun q e j other m hl hc _ hother hm => ?_⟩
  · obtain ⟨m', hm', rfl⟩ := Option.map_eq_some_iff.mp hm
    have hij : i ≠ j := fun heq => hunowned q (heq ▸ hq)
    exact (h.owned q j other m' hj hq hother hm').copyName hfits hj hij
  · cases hl
    obtain ⟨m', _, rfl⟩ := Option.map_eq_some_iff.mp hm
    obtain rfl : i = j := hc
    rw [hname] at hother
    rw [← Option.some.inj hother]
    exact stands_copyName m' i c_name

theorem Named.occupied {s : State} (h : Named argv s) {p i : Nat}
    (hlock : s.lock = some (p, .occupy i)) :
    Named argv ((s.write (setIsEmpty i 0)).goto p (.giveClaimed i)) := by
  refine ⟨h.company, fun q j other m hj hq hother hm => ?_,
    fun q e j other m hl hc hj hother hm => ?_⟩
  · obtain ⟨m', hm', rfl⟩ := Option.map_eq_some_iff.mp hm
    exact (h.owned q j other m' hj hq hother hm').setIsEmpty 0
  · cases hl
    obtain ⟨m', hm', rfl⟩ := Option.map_eq_some_iff.mp hm
    exact (h.claiming p _ j other m' hlock hc hj hother hm').setIsEmpty 0

theorem named_inner {s : State} (hs : Staged s) (ho : Owning s) (h : Named argv s) {p : Nat}
    {inner : Inner} (hlock : s.lock = some (p, inner)) (ok : Bool)
    (hC : Accountable argv p inner s) : Named argv (innerStep argv ok p inner s) := by
  have hwithin := hs.within p inner hlock
  have hheld := ho.held p inner hlock
  have hgoto (inner' : Inner) (hclaims : ∀ i, ¬ inner'.Claims i) : Named argv (s.goto p inner') :=
    h.keep rfl h.company (fun _ _ hq => hq) fun _ _ i hl _ => by cases hl; exact hclaims i
  cases inner with
  | shmOpen =>
    cases hsome : s.object with
    | none =>
      cases ok <;> simp only [innerStep, hsome]
      · exact hgoto _ fun _ => id
      · refine ⟨h.company, fun q i _ _ _ hq => ?_, fun _ _ _ _ _ hl hc => ?_⟩
        · have hnone := ((ho.unborn hsome).1 q).owns
          cases hnone.symm.trans hq
        · cases hl
          exact hc.elim
    | some m => cases ok <;> simp only [innerStep, hsome] <;> exact hgoto _ fun _ => id
  | reopen => cases ok <;> exact hgoto _ fun _ => id
  | ftruncate is_init => cases ok <;> exact hgoto _ fun _ => id
  | mmap is_init => cases ok <;> cases is_init <;> exact hgoto _ fun _ => id
  | initialise =>
    refine h.write initialised rfl h.company (fun _ _ hq => hq) (fun q i _ _ _ hq => ?_)
      fun _ _ _ hl _ => by cases hl; exact id
    rw [hheld q] at hq
    cases hq
  | giveOpened =>
    simp only [innerStep]
    refine h.keep rfl (registers_update h.company fun hr => ?_) (fun q i hq => ?_)
      fun _ _ _ hl => by cases hl
    · split at hr <;> cases hr
    · rw [give_pc, setPc_pc, owns_update] at hq
      split at hq
      · split at hq <;> cases hq
      · exact hq
  | giveFailed =>
    simp only [innerStep]
    refine h.keep rfl (registers_update h.company fun hr => by cases hr) (fun q i hq => ?_)
      fun _ _ _ hl => by cases hl
    rw [give_pc, setPc_pc, owns_update] at hq
    split at hq
    · cases hq
    · exact hq
  | search i =>
    simp only [innerStep]
    split
    · split
      · split <;> exact hgoto _ fun _ => id
      · exact h
    · rename_i hbeyond
      refine h.keep rfl h.company (fun _ _ hq => hq) fun _ _ j hl hj => ?_
      cases hl
      intro heq
      exact hbeyond (heq ▸ hj)
  | strcpy i =>
    simp only [innerStep]
    split
    · rename_i c_name hname
      exact h.copied hname (hC c_name hname) hheld.2
    · exact h
  | occupy i => exact h.occupied hlock
  | giveClaimed i => exact h.claimed hlock hwithin
  | markEmpty i =>
    exact h.write _ rfl h.company (fun _ _ hq => hq) (fun _ _ _ _ _ _ hs => hs.setIsEmpty 1)
      fun _ _ _ hl _ => by cases hl; exact id
  | zeroCount i =>
    have hpc : s.pc p = .leaving i := hwithin
    simp only [innerStep]
    refine h.write (setNOfSoilDone i 0) rfl
      (registers_update h.company fun _ => h.company p (by rw [hpc]; rfl)) (fun q j hq => ?_)
      (fun _ _ _ _ _ _ hs => hs.setNOfSoilDone 0) fun _ _ _ hl _ => by cases hl; exact id
    rw [goto_pc, setPc_pc, owns_update] at hq
    split at hq
    · cases hq
    · exact hq
  | count i =>
    exact h.write (fun m => setNOfSoilDone i (nOfSoilDone m i + 1) m) rfl h.company
      (fun _ _ hq => hq) (fun _ _ _ _ _ _ hs => hs.setNOfSoilDone _)
      fun _ _ _ hl _ => by cases hl; exact id
  | _ => exact h.keep rfl h.company (fun _ _ hq => hq) fun _ _ _ hl => by cases hl

theorem entry_registers {p : Nat} {digger : Bool} {pc pc' : Pc} {inner : Inner}
    (h : entry argv p digger pc = some (pc', inner))
    (hpc : pc.registers = true → (argv p).isSome) : pc'.registers = true → (argv p).isSome := by
  unfold entry at h
  split at h
  · split at h <;> cases h
    exact fun hr => by cases hr
  · split at h
    · cases h
    · split at h <;> cases h
      rename_i hname
      exact fun _ => by rw [hname]; rfl
  · split at h <;> cases h <;> exact fun _ => hpc rfl
  · split at h <;> cases h
    exact fun _ => hpc rfl
  · split at h <;> cases h
    exact fun hr => by cases hr
  · cases h

theorem entry_claims {p : Nat} {digger : Bool} {pc pc' : Pc} {inner : Inner}
    (h : entry argv p digger pc = some (pc', inner)) (i : Nat) : ¬ inner.Claims i := by
  unfold entry at h
  split at h
  · split at h <;> cases h
    exact id
  · split at h
    · cases h
    · split at h <;> cases h
      exact id
  · split at h <;> cases h <;> exact id
  · split at h <;> cases h
    exact id
  · split at h <;> cases h
    exact id
  · cases h

theorem named_step {a : Action} {s : State} (hs : Staged s) (ho : Owning s) (h : Named argv s)
    (hC : OnInner (Accountable argv) a s) : Named argv (step argv a s) := by
  cases a with
  | take p digger =>
    simp only [step]
    cases hlock : s.lock with
    | some holder => exact h
    | none =>
      simp only
      cases hentry : entry argv p digger (s.pc p) with
      | none => exact h
      | some next =>
        refine h.keep rfl (registers_update h.company (entry_registers hentry (h.company p)))
          (fun q i hq => (owns_update_same (entry_owns hentry).1 q).symm.trans hq)
          fun _ _ i hl _ => ?_
        cases hl
        exact entry_claims hentry i
  | inner ok =>
    simp only [step]
    cases hlock : s.lock with
    | none => exact h
    | some holder => exact named_inner hs ho h hlock ok (hC.holder hlock)
  | exit p =>
    simp only [step]
    split
    · rename_i i hpc
      split
      · exact h
      · have hsame (q : Nat) : (Function.update s.pc p .gone q).owns = (s.pc q).owns :=
          owns_update_same (by rw [hpc]; rfl) q
        exact ⟨registers_update h.company fun hr => (by cases hr),
          fun q j c_name m hj hq => h.owned q j c_name m hj ((hsame q).symm.trans hq), h.claiming⟩
    · exact h

/-! ### The registry, as a reader may take it -/

/-- What a reader under the lock relies on. -/
structure Told (argv : Nat → Option CString) (s : State) : Prop where
  owning : Owning s
  tallied : Tallied s
  staged : Staged s
  laid : Laid s
  named : Named argv s

theorem laid_initial : Laid initial :=
  ⟨fun h => absurd (.inl rfl) h, fun _ _ _ h => (by cases h)⟩

theorem told_initial (argv : Nat → Option CString) : Told argv initial :=
  ⟨owning_initial, tallied_initial, staged_initial, laid_initial, named_initial argv⟩

/-- A name that fits its entry stays within it, and a company still there has its slot. -/
theorem tidy_of_accountable {p : Nat} {inner : Inner} {s : State}
    (h : Accountable argv p inner s) : Tidy argv p inner s := by
  cases inner with
  | strcpy i =>
    intro c_name hname j hij hj _
    have hfits := h c_name hname
    simp only [Fits, sizeofCompany, nameOffset, slots] at hfits hj ⊢
    omega
  | count i => exact fun _ => ⟨p, by rw [h.1]; rfl⟩
  | _ => trivial

theorem told_step {a : Action} {s : State} (h : Told argv s) (hC : Completes a s)
    (hA : OnInner (Accountable argv) a s) : Told argv (step argv a s) where
  owning := (tallied_step argv a s ⟨h.owning, h.tallied⟩ hA).1
  tallied := (tallied_step argv a s ⟨h.owning, h.tallied⟩ hA).2
  staged := staged_step argv a s h.staged
  laid := laid_step h.staged h.laid hC (hA.imp fun _ _ _ => tidy_of_accountable)
  named := named_step h.staged h.owning h.named hA

theorem loads_step (argv : Nat → Option CString) (a : Action) (s : State) (p : Nat) :
    s.loads p ≤ (step argv a s).loads p := by
  cases a with
  | take q digger =>
    simp only [step]
    split
    · exact Nat.le_refl _
    · split <;> exact Nat.le_refl _
  | inner ok =>
    simp only [step]
    cases hlock : s.lock with
    | none => exact Nat.le_refl _
    | some holder =>
      obtain ⟨q, inner⟩ := holder
      cases inner with
      | count i =>
        change s.loads p ≤ Function.update s.loads q (s.loads q + 1) p
        by_cases hpq : p = q
        · rw [hpq, Function.update_self]
          exact Nat.le_succ _
        · exact Nat.le_of_eq (Function.update_of_ne hpq _ _).symm
      | shmOpen =>
        cases hsome : s.object <;> cases ok <;> simp only [innerStep, hsome] <;>
          exact Nat.le_refl _
      | search i =>
        simp only [innerStep]
        split
        · split <;> exact Nat.le_refl _
        · exact Nat.le_refl _
      | strcpy i =>
        simp only [innerStep]
        split <;> exact Nat.le_refl _
      | _ => cases ok <;> exact Nat.le_refl _
  | exit q =>
    simp only [step]
    split
    · split <;> exact Nat.le_refl _
    · exact Nat.le_refl _

/-! ### The monitor -/

/-- A line on the screen. -/
inductive Line where
  | company (name : Option (List Byte)) (n_of_soil_done : Int)
  | rule
deriving DecidableEq

/-- The system with one monitor in view: the entry that it comes to next, and its screen. -/
structure Watched where
  state : State
  i : Nat
  screen : List Line

inductive Event where
  | action (a : Action)
  /-- The monitor rules off the round, and sleeps. -/
  | rule
deriving DecidableEq

/-- What the monitor prints of an entry. -/
def look (m : Memory) (i : Nat) : List Line :=
  if isEmpty m i then [] else [.company (readName m i) (nOfSoilDone m i).toInt]

/-- What the statement under the lock prints, where it is monitor `q`'s. -/
def printed (q : Nat) (w : Watched) : Option (List Line) :=
  match w.state.lock, w.state.object with
  | some (p, .giveLooked), some m => if p = q then some (look m w.i) else none
  | _, _ => none

def watchedStep (argv : Nat → Option CString) (q : Nat) : Event → Watched → Watched
  | .action (.take p digger), w =>
    -- past the last entry the monitor leaves the loop
    if p = q ∧ w.state.pc q = .watching ∧ w.i = slots then w
    else { w with state := step argv (.take p digger) w.state }
  | .action (.inner ok), w =>
    match printed q w with
    | some ls => ⟨step argv (.inner ok) w.state, w.i + 1, w.screen ++ ls⟩
    | none => { w with state := step argv (.inner ok) w.state }
  | .action (.exit p), w => { w with state := step argv (.exit p) w.state }
  | .rule, w => if w.i = slots then { w with i := 0, screen := w.screen ++ [.rule] } else w

def unwatched : Watched := ⟨initial, 0, []⟩

/-- The registry's own conditions on a step. -/
def Allowed (argv : Nat → Option CString) : Event → Watched → Prop
  | .action a, w => Completes a w.state ∧ OnInner (Accountable argv) a w.state
  | .rule, _ => True

instance (argv : Nat → Option CString) : (e : Event) → (w : Watched) → Decidable (Allowed argv e w)
  | .action a, w =>
    inferInstanceAs (Decidable (Completes a w.state ∧ OnInner (Accountable argv) a w.state))
  | .rule, _ => .isTrue trivial

/-- The monitor looks at entries there are, in a registry that it may take as it is. -/
structure Watching (argv : Nat → Option CString) (q : Nat) (w : Watched) : Prop where
  told : Told argv w.state
  within : w.i ≤ slots
  looking : w.state.lock = some (q, .giveLooked) → w.i < slots

variable {q : Nat} {w : Watched}

theorem watching_unwatched (argv : Nat → Option CString) (q : Nat) : Watching argv q unwatched :=
  ⟨told_initial argv, Nat.zero_le _, fun h => (by cases h)⟩

/-- A look, with the memory that it reads. -/
theorem printed_eq_some {ls : List Line} (h : printed q w = some ls) :
    w.state.lock = some (q, .giveLooked) ∧ ∃ m, w.state.object = some m ∧ ls = look m w.i := by
  unfold printed at h
  split at h
  · rename_i hlock hobj
    split at h
    · rename_i hpq
      rw [hpq] at hlock
      exact ⟨hlock, _, hobj, (Option.some.inj h).symm⟩
    · cases h
  · cases h

/-- A look begins with `semTake`: no statement under the lock leads to one. -/
theorem inner_not_looking {s : State} {p : Nat} {inner : Inner}
    (hlock : s.lock = some (p, inner)) (ok : Bool) :
    (innerStep argv ok p inner s).lock ≠ some (q, .giveLooked) := by
  intro h
  cases inner with
  | shmOpen =>
    cases hsome : s.object <;> cases ok <;> simp only [innerStep, hsome] at h <;> cases h
  | mmap is_init => cases ok <;> cases is_init <;> cases h
  | search i =>
    simp only [innerStep] at h
    split at h
    · split at h
      · split at h <;> cases h
      · cases hlock.symm.trans h
    · cases h
  | strcpy i =>
    simp only [innerStep] at h
    split at h
    · cases h
    · cases hlock.symm.trans h
  | reopen => cases ok <;> cases h
  | ftruncate is_init => cases ok <;> cases h
  | _ => cases h

theorem entry_looking {p : Nat} {digger : Bool} {pc pc' : Pc}
    (h : entry argv p digger pc = some (pc', .giveLooked)) : pc = .watching := by
  unfold entry at h
  split at h
  · split at h <;> cases h
  · split at h
    · cases h
    · split at h <;> cases h
  · split at h <;> cases h
  · split at h <;> cases h
  · rfl
  · cases h

theorem watching_step {e : Event} (h : Watching argv q w) (hC : Allowed argv e w) :
    Watching argv q (watchedStep argv q e w) := by
  cases e with
  | action a =>
    have htold := told_step h.told hC.1 hC.2
    cases a with
    | take p digger =>
      simp only [watchedStep]
      split
      · exact h
      · rename_i hguard
        refine ⟨htold, h.within, fun hlook => ?_⟩
        cases hlock : w.state.lock with
        | some holder =>
          refine h.looking ?_
          simp only [step, hlock] at hlook
          rw [hlock]
          exact hlook
        | none =>
          simp only [step, hlock] at hlook
          split at hlook
          · rename_i hentry
            cases hlook
            exact Nat.lt_of_le_of_ne h.within fun hi => hguard ⟨rfl, entry_looking hentry, hi⟩
          · cases hlock.symm.trans hlook
    | inner ok =>
      have hnot : (step argv (.inner ok) w.state).lock ≠ some (q, .giveLooked) := by
        simp only [step]
        cases hlock : w.state.lock with
        | none => exact fun hlook => by cases hlock.symm.trans hlook
        | some holder => exact inner_not_looking hlock ok
      simp only [watchedStep]
      split
      · rename_i hprinted
        exact ⟨htold, h.looking (printed_eq_some hprinted).1, fun hlook => absurd hlook hnot⟩
      · exact ⟨htold, h.within, fun hlook => absurd hlook hnot⟩
    | exit p =>
      refine ⟨htold, h.within, fun hlook => h.looking ?_⟩
      simp only [watchedStep, step] at hlook
      split at hlook
      · split at hlook <;> exact hlook
      · exact hlook
  | rule =>
    simp only [watchedStep]
    split
    · exact ⟨h.told, Nat.zero_le _, fun _ => Nat.zero_lt_succ _⟩
    · exact h

/-! ### What a look tells -/

/-- What there is to print of a slot: the owner's name, as far as the entry holds it, and the
loads that the owner's diggers have counted. -/
structure Reports (argv : Nat → Option CString) (s : State) (i : Nat) (ls : List Line) : Prop where
  owned : ∀ p c_name, (s.pc p).owns = some i → argv p = some c_name →
    ls = [.company (some (c_name.chars.take 20)) (s.loads p)]
  vacant : (∀ p, (s.pc p).owns ≠ some i) → ls = []

theorem Blank.isEmpty {m : Memory} {i : Nat} (h : Blank m i) : isEmpty m i = true := by
  rw [Registry.isEmpty, h.flag]
  rfl

theorem reports_look {s : State} (h : Told argv s) (hlock : s.lock = some (q, .giveLooked))
    {m : Memory} (hm : s.object = some m) {i : Nat} (hi : i < slots) :
    Reports argv s i (look m i) := by
  refine ⟨fun p c_name hown hname => ?_, fun hvacant => ?_⟩
  · have hused : isEmpty m i = false :=
      (h.owning.flagged p i m hi hown hm).resolve_right fun hz => by cases hlock.symm.trans hz
    have hcount : (nOfSoilDone m i).toInt = s.loads p := by
      have hsmall : s.loads p < 2147483648 := h.tallied.small p
      rw [h.tallied.owned p i m hi hown hm, BitVec.toInt_ofNat', Int.bmod_eq_of_le]
      · omega
      · omega
    rw [look, hused, hcount, readName_eq (h.named.owned p i c_name m hi hown hname hm) hused]
    rfl
  · have hraw : ¬ Raw s := by
      rw [raw_iff hlock, hm]
      exact fun hr => hr.elim (fun hn => by cases hn) (fun hc => by cases hc)
    have hfree : Free s i := .of_unowned hlock id hvacant
    rw [look, (h.laid.blank hraw m i hi hm hfree).isEmpty]
    rfl

/-! ### A round -/

theorem loads_watchedStep (argv : Nat → Option CString) (q : Nat) (e : Event) (w : Watched)
    (p : Nat) : w.state.loads p ≤ (watchedStep argv q e w).state.loads p := by
  cases e with
  | action a =>
    have hstep := loads_step argv a w.state p
    cases a with
    | take => simp only [watchedStep]; split <;> first | exact Nat.le_refl _ | exact hstep
    | inner => simp only [watchedStep]; split <;> exact hstep
    | exit => exact hstep
  | rule => simp only [watchedStep]; split <;> exact Nat.le_refl _

theorem loads_run (argv : Nat → Option CString) (q p : Nat) (w : Watched) (es : List Event) :
    w.state.loads p ≤ (Interleaving.run (watchedStep argv q) w es).state.loads p :=
  run_invariant (I := fun w' => w.state.loads p ≤ w'.state.loads p)
    (fun e w' h => Nat.le_trans h (loads_watchedStep argv q e w' p)) (Nat.le_refl _) es

/-- The monitor's screen changes with its look at an entry, and else only by the rule. -/
theorem watchedStep_screen {e : Event} (hrule : e ≠ .rule) (h : Watching argv q w) :
    ((watchedStep argv q e w).i = w.i ∧ (watchedStep argv q e w).screen = w.screen) ∨
    ∃ ls, (watchedStep argv q e w).i = w.i + 1 ∧
      (watchedStep argv q e w).screen = w.screen ++ ls ∧ Reports argv w.state w.i ls := by
  cases e with
  | action a =>
    cases a with
    | take p digger => simp only [watchedStep]; split <;> exact .inl ⟨rfl, rfl⟩
    | inner ok =>
      simp only [watchedStep]
      split
      · rename_i ls hprinted
        obtain ⟨hlock, m, hm, hls⟩ := printed_eq_some hprinted
        refine .inr ⟨ls, rfl, rfl, ?_⟩
        rw [hls]
        exact reports_look h.told hlock hm (h.looking hlock)
      · exact .inl ⟨rfl, rfl⟩
    | exit p => exact .inl ⟨rfl, rfl⟩
  | rule => exact absurd rfl hrule

/-- The screen after `k` events of a round, entry by entry. -/
structure Round (argv : Nat → Option CString) (q : Nat) (w : Watched) (es : List Event) (k : Nat)
    (out : Nat → List Line) : Prop where
  screen : (Interleaving.run (watchedStep argv q) w (es.take k)).screen = w.screen ++
    (List.range (Interleaving.run (watchedStep argv q) w (es.take k)).i).flatMap out
  moments : ∀ i < (Interleaving.run (watchedStep argv q) w (es.take k)).i, ∃ j ≤ k,
    Reports argv (Interleaving.run (watchedStep argv q) w (es.take j)).state i (out i)

theorem flatMap_range_update {α : Type} (out : Nat → List α) (ls : List α) (n : Nat) :
    (List.range (n + 1)).flatMap (Function.update out n ls) =
      (List.range n).flatMap out ++ ls := by
  rw [List.range_succ, List.flatMap_append, List.flatMap_singleton, Function.update_self]
  congr 1
  refine List.flatMap_congr fun i hi => ?_
  rw [Function.update_of_ne (Nat.ne_of_lt (List.mem_range.mp hi))]

theorem Round.next {es : List Event} {k : Nat} {out : Nat → List Line}
    (h : Round argv q w es k out) (hk : k < es.length) (hrule : es[k] ≠ .rule)
    (hw : Watching argv q (Interleaving.run (watchedStep argv q) w (es.take k))) :
    ∃ out', Round argv q w es (k + 1) out' := by
  let now := Interleaving.run (watchedStep argv q) w (es.take k)
  have hnext : Interleaving.run (watchedStep argv q) w (es.take (k + 1)) =
      watchedStep argv q es[k] now := run_take_succ w hk
  obtain ⟨hi, hscreen⟩ | ⟨ls, hi, hscreen, hreports⟩ := watchedStep_screen hrule hw
  · refine ⟨out, ?_, fun i hlt => ?_⟩
    · rw [hnext, hscreen, hi]
      exact h.screen
    · rw [hnext, hi] at hlt
      obtain ⟨j, hj, hout⟩ := h.moments i hlt
      exact ⟨j, by omega, hout⟩
  · refine ⟨Function.update out now.i ls, ?_, fun i hlt => ?_⟩
    · rw [hnext, hscreen, hi, flatMap_range_update, h.screen, List.append_assoc]
    · rw [hnext, hi] at hlt
      rcases Nat.lt_succ_iff_lt_or_eq.mp hlt with hbefore | rfl
      · obtain ⟨j, hj, hout⟩ := h.moments i hbefore
        refine ⟨j, by omega, ?_⟩
        rw [Function.update_of_ne (Nat.ne_of_lt hbefore)]
        exact hout
      · refine ⟨k, Nat.le_succ k, ?_⟩
        rw [Function.update_self]
        exact hreports

theorem watching_run (h : Watching argv q w) {es : List Event}
    (hC : Along (watchedStep argv q) (Allowed argv) w es) :
    Watching argv q (Interleaving.run (watchedStep argv q) w es) :=
  (throughout_of_along (I := Watching argv q) (fun _ _ => watching_step) h hC).last

theorem round_run (h : Watching argv q w) (hstart : w.i = 0) {es : List Event}
    (hC : Along (watchedStep argv q) (Allowed argv) w es) (hround : ∀ e ∈ es, e ≠ .rule)
    (k : Nat) (hk : k ≤ es.length) : ∃ out, Round argv q w es k out := by
  induction k with
  | zero =>
    have hnone : (Interleaving.run (watchedStep argv q) w (es.take 0)).i = 0 := hstart
    refine ⟨fun _ => [], ?_, fun i hlt => ?_⟩
    · rw [hnone]
      exact (List.append_nil _).symm
    · rw [hnone] at hlt
      cases hlt
  | succ k ih =>
    obtain ⟨out, hout⟩ := ih (Nat.le_of_succ_le hk)
    exact hout.next hk (hround _ (List.getElem_mem hk)) (watching_run h (hC.take k))

/-- A round of the monitor, however far it has come: each entry it has looked at is on the screen
in its place, as its slot stood at some moment of the round. So a company that has its slot all
through the round is there, with no fewer loads than at the beginning and no more than at the
end. -/
theorem monitor_round (argv : Nat → Option CString) (q : Nat) (before es : List Event)
    (hC : Along (watchedStep argv q) (Allowed argv) unwatched (before ++ es))
    (hstart : (Interleaving.run (watchedStep argv q) unwatched before).i = 0)
    (hround : ∀ e ∈ es, e ≠ .rule) :
    let w := Interleaving.run (watchedStep argv q) unwatched before
    let w' := Interleaving.run (watchedStep argv q) w es
    ∃ out : Nat → List Line, w'.screen = w.screen ++ (List.range w'.i).flatMap out ∧
      (∀ i < w'.i, ∃ j ≤ es.length,
        Reports argv (Interleaving.run (watchedStep argv q) w (es.take j)).state i (out i)) ∧
      ∀ p i c_name, i < w'.i → argv p = some c_name →
        (∀ j ≤ es.length,
          ((Interleaving.run (watchedStep argv q) w (es.take j)).state.pc p).owns = some i) →
        ∃ n : Nat, out i = [.company (some (c_name.chars.take 20)) n] ∧
          w.state.loads p ≤ n ∧ n ≤ w'.state.loads p := by
  intro w w'
  have htake : (before ++ es).take before.length = before := List.take_left
  have hdrop : (before ++ es).drop before.length = es := List.drop_left
  have hbefore := hC.take before.length
  have hes := hC.drop before.length
  rw [htake] at hbefore hes
  rw [hdrop] at hes
  have hwatching := watching_run (watching_unwatched argv q) hbefore
  obtain ⟨out, hscreen, hmoments⟩ :=
    round_run hwatching hstart hes hround es.length (Nat.le_refl _)
  rw [List.take_length] at hscreen hmoments
  refine ⟨out, hscreen, hmoments, fun p i c_name hi hname hown => ?_⟩
  obtain ⟨j, hj, hreports⟩ := hmoments i hi
  have hall := run_append (watchedStep argv q) w (es.take j) (es.drop j)
  rw [List.take_append_drop] at hall
  refine ⟨_, hreports.owned p c_name (hown j hj) hname, loads_run argv q p w (es.take j), ?_⟩
  have hrest := loads_run argv q p (Interleaving.run (watchedStep argv q) w (es.take j)) (es.drop j)
  rw [← hall] at hrest
  exact hrest

/-- A name that its entry does not hold whole; process 1 is a monitor. -/
def cutName (p : Nat) : Option CString :=
  if p = 0 then some ⟨List.replicate 22 0x61, by decide⟩ else none

def registered : List Event := (opening 0 ++ claiming 0 0 ++ opening 1).map .action

def looked : List Action := [.take 1 false, .inner true]

/-- A load is counted, and the monitor looks at two entries. -/
def looking : List Event := (counting 0 ++ looked ++ looked).map .action

theorem monitor_round_cut :
    ∃ out : Nat → List Line,
      (Interleaving.run (watchedStep cutName 1)
        (Interleaving.run (watchedStep cutName 1) unwatched registered) looking).screen =
        [] ++ (List.range 2).flatMap out ∧
      ∃ n : Nat, out 0 = [.company (some (List.replicate 20 0x61)) n] ∧ n ≤ 1 := by
  obtain ⟨out, hscreen, _, hstays⟩ := monitor_round cutName 1 registered looking
    (by decide +kernel) (by decide +kernel) (by decide)
  obtain ⟨n, hout, _, hn⟩ := hstays 0 0 ⟨List.replicate 22 0x61, by decide⟩ (by decide +kernel)
    rfl (by decide +kernel)
  exact ⟨out, hscreen, n, hout, hn⟩

end RealTimeLabs.Registry
