import RealTimeLabs.Registry.Processes

/-! Who owns a slot.

A company owns the slot that its `init_shm` returned until its `E` has emptied it. Inside
the registry an owned slot is flagged as in use, which is what keeps the search of the
next company away from it, so `Owning` ties each flag to its owner at every statement
under the lock. Two things can part them: a search that finds no free slot and falls
through to an id behind the registry, and a name long enough to reach a flag. -/
namespace RealTimeLabs.Registry
open Bytes Interleaving

/-- The slot that a process owns. -/
def Pc.owns : Pc → Option Nat
  | .running i | .leaving i => some i
  | _ => none

/-- The section that a statement belongs to, as the holder's own state has it. -/
def Inner.Within : Inner → Pc → Prop
  | .shmOpen, pc | .reopen, pc | .ftruncate _, pc | .mmap _, pc | .initialise, pc
  | .giveOpened, pc | .giveFailed, pc => pc = .opening
  | .search _, pc | .strcpy _, pc | .occupy _, pc | .giveClaimed _, pc => pc = .claiming
  | .markEmpty i, pc | .zeroCount i, pc => pc = .leaving i
  | .count i, pc => pc.m_id = some i
  | _, _ => True

/-- What a statement under the lock relies on. -/
def Inner.Held (s : State) : Inner → Prop
  | .ftruncate false | .mmap false | .initialise => ∀ q, (s.pc q).owns = none
  | .strcpy i | .occupy i => i < slots ∧ ∀ q, (s.pc q).owns ≠ some i
  | .giveClaimed i => i < slots →
    (∀ q, (s.pc q).owns ≠ some i) ∧ ∀ m, s.object = some m → isEmpty m i = false
  | _ => True

/-- Where a process can stand while the object does not exist. -/
def Pc.Unborn : Pc → Prop
  | .start | .opening | .gone => True
  | _ => False

def Inner.Unborn : Inner → Prop
  | .shmOpen | .giveFailed => True
  | _ => False

/-- Slots and owners, at every statement. -/
structure Owning (s : State) : Prop where
  within : ∀ p inner, s.lock = some (p, inner) → inner.Within (s.pc p)
  held : ∀ p inner, s.lock = some (p, inner) → inner.Held s
  unique : ∀ p q i, i < slots → (s.pc p).owns = some i → (s.pc q).owns = some i → p = q
  flagged : ∀ p i m, i < slots → (s.pc p).owns = some i → s.object = some m →
    isEmpty m i = false ∨ s.lock = some (p, .zeroCount i)
  unborn : s.object = none → (∀ p, (s.pc p).Unborn) ∧
    ∀ p inner, s.lock = some (p, inner) → inner.Unborn

/-- A condition on the statements under the lock. -/
def OnInner (C : Nat → Inner → State → Prop) : Action → State → Prop
  | .inner _, s =>
    match s.lock with
    | some (p, inner) => C p inner s
    | none => True
  | _, _ => True

instance decidableOnInner {C : Nat → Inner → State → Prop}
    [∀ p inner s, Decidable (C p inner s)] : (a : Action) → (s : State) → Decidable (OnInner C a s)
  | .take _ _, _ | .exit _, _ => .isTrue trivial
  | .inner _, s =>
    match hlock : s.lock with
    | some (p, inner) => decidable_of_iff (C p inner s) (by simp only [OnInner, hlock])
    | none => .isTrue (by simp only [OnInner, hlock])

theorem OnInner.holder {C : Nat → Inner → State → Prop} {ok : Bool} {s : State} {p : Nat}
    {inner : Inner} (h : OnInner C (.inner ok) s) (hlock : s.lock = some (p, inner)) :
    C p inner s := by
  simp only [OnInner, hlock] at h
  exact h

theorem OnInner.of_forall {C : Nat → Inner → State → Prop} (h : ∀ p inner s, C p inner s)
    (a : Action) (s : State) : OnInner C a s := by
  cases a with
  | inner ok =>
    cases hlock : s.lock with
    | none => simp only [OnInner, hlock]
    | some holder =>
      simp only [OnInner, hlock]
      exact h holder.1 holder.2 s
  | _ => trivial

theorem OnInner.imp {C D : Nat → Inner → State → Prop} {a : Action} {s : State}
    (h : ∀ p inner, s.lock = some (p, inner) → C p inner s → D p inner s)
    (hC : OnInner C a s) : OnInner D a s := by
  cases a with
  | inner ok =>
    cases hlock : s.lock with
    | none => simp only [OnInner, hlock]
    | some holder =>
      have hD := h holder.1 holder.2 hlock (hC.holder hlock)
      simp only [OnInner, hlock]
      exact hD
  | _ => trivial

/-- No name written reaches the flag of a slot that is owned. -/
def Contained (argv : Nat → Option CString) (p : Nat) (inner : Inner) (s : State) : Prop :=
  match inner with
  | .strcpy i => ∀ c_name, argv p = some c_name → ∀ q j, j < slots →
    (s.pc q).owns = some j → ¬ ReachesFlag i c_name j
  | _ => True

theorem owning_initial : Owning initial :=
  ⟨fun _ _ h => (by cases h), fun _ _ h => (by cases h), fun _ _ _ _ h => (by cases h),
    fun _ _ _ _ h => (by cases h), fun _ => ⟨fun _ => trivial, fun _ _ h => by cases h⟩⟩

theorem Pc.Unborn.owns {pc : Pc} (h : pc.Unborn) : pc.owns = none := by
  cases pc <;> first | rfl | exact h.elim

/-- A step that changes neither the registry nor who owns what. -/
theorem Owning.carry {s s' : State} (h : Owning s) (hobj : s'.object = s.object)
    (howns : ∀ q, (s'.pc q).owns = (s.pc q).owns)
    (hz : ∀ p i, s.lock ≠ some (p, .zeroCount i))
    (hwithin : ∀ p inner, s'.lock = some (p, inner) → inner.Within (s'.pc p))
    (hheld : ∀ p inner, s'.lock = some (p, inner) → inner.Held s')
    (hborn : s.object = none → (∀ p, (s'.pc p).Unborn) ∧
      ∀ p inner, s'.lock = some (p, inner) → inner.Unborn) : Owning s' := by
  refine ⟨hwithin, hheld, fun p q i hi hp hq => ?_, fun p i m hi hp hm => ?_,
    fun hn => hborn (hobj.symm.trans hn)⟩
  · rw [howns] at hp hq
    exact h.unique p q i hi hp hq
  · rw [howns] at hp
    rw [hobj] at hm
    exact .inl ((h.flagged p i m hi hp hm).resolve_right (hz p i))

theorem owns_update (pc : Nat → Pc) (p : Nat) (new : Pc) (q : Nat) :
    (Function.update pc p new q).owns = if q = p then new.owns else (pc q).owns := by
  by_cases hq : q = p
  · rw [if_pos hq, hq, Function.update_self]
  · rw [if_neg hq, Function.update_of_ne hq]

/-- A process that owns the same before and after moves nobody's slot. -/
theorem owns_update_same {pc : Nat → Pc} {p : Nat} {new : Pc} (h : new.owns = (pc p).owns)
    (q : Nat) : (Function.update pc p new q).owns = (pc q).owns := by
  rw [owns_update]
  split
  · rename_i hq
    rw [h, hq]
  · rfl

theorem unborn_update {pc : Nat → Pc} {p : Nat} {new : Pc} (h : ∀ q, (pc q).Unborn)
    (hnew : new.Unborn) (q : Nat) : (Function.update pc p new q).Unborn := by
  by_cases hq : q = p
  · rw [hq, Function.update_self]
    exact hnew
  · rw [Function.update_of_ne hq]
    exact h q

/-! ### Taking the lock, and going -/

theorem entry_owns {argv : Nat → Option CString} {p : Nat} {digger : Bool} {pc pc' : Pc}
    {inner : Inner} (h : entry argv p digger pc = some (pc', inner)) :
    pc'.owns = pc.owns ∧ inner.Within pc' ∧ (∀ s, inner.Held s) ∧
      (pc.Unborn → pc'.Unborn ∧ inner.Unborn) := by
  unfold entry at h
  split at h
  · split at h <;> cases h
    exact ⟨rfl, rfl, fun _ => trivial, fun _ => ⟨trivial, trivial⟩⟩
  · split at h
    · cases h
    · split at h <;> cases h
      exact ⟨rfl, rfl, fun _ => trivial, False.elim⟩
  · split at h <;> cases h <;> exact ⟨rfl, rfl, fun _ => trivial, False.elim⟩
  · split at h <;> cases h
    exact ⟨rfl, rfl, fun _ => trivial, False.elim⟩
  · split at h <;> cases h
    exact ⟨rfl, trivial, fun _ => trivial, False.elim⟩
  · cases h

theorem owning_take (argv : Nat → Option CString) (s : State) (h : Owning s) (p : Nat)
    (digger : Bool) : Owning (step argv (.take p digger) s) := by
  simp only [step]
  cases hlock : s.lock with
  | some holder => exact h
  | none =>
    simp only
    cases hentry : entry argv p digger (s.pc p) with
    | none => exact h
    | some next =>
      obtain ⟨pc, inner⟩ := next
      obtain ⟨howns, hwithin, hheld, hborn⟩ := entry_owns hentry
      refine h.carry rfl (owns_update_same howns) (fun q i hz => ?_) (fun q e he => ?_)
        (fun q e he => ?_) fun hn => ?_
      · rw [hlock] at hz
        cases hz
      · cases he
        rw [goto_pc, setPc_pc, Function.update_self]
        exact hwithin
      · cases he
        exact hheld _
      · have hall := (h.unborn hn).1
        exact ⟨unborn_update hall (hborn (hall p)).1,
          fun _ _ he => by cases he; exact (hborn (hall p)).2⟩

theorem owning_exit (argv : Nat → Option CString) (s : State) (h : Owning s) (p : Nat) :
    Owning (step argv (.exit p) s) := by
  simp only [step]
  cases hpc : s.pc p with
  | returned i =>
    simp only
    split
    · exact h
    · rename_i hsafe
      have howns : Pc.gone.owns = (s.pc p).owns := by rw [hpc]; rfl
      have hsame := owns_update_same howns
      have hother (q : Nat) (inner : Inner) (hq : s.lock = some (q, inner)) : q ≠ p := by
        intro rfl
        rw [hq] at hsafe
        exact hsafe (by simp)
      refine ⟨fun q inner hq => ?_, fun q inner hq => ?_, fun q r j hj hq hr => ?_,
        fun q j m hj hq hm => ?_, fun hn => ⟨unborn_update (h.unborn hn).1 trivial,
          (h.unborn hn).2⟩⟩
      · rw [setPc_pc, Function.update_of_ne (hother q inner hq)]
        exact h.within q inner hq
      · have hheld := h.held q inner hq
        cases inner <;> simp only [Inner.Held, setPc_pc, setPc_object, hsame] <;> exact hheld
      · rw [setPc_pc, hsame] at hq hr
        exact h.unique q r j hj hq hr
      · rw [setPc_pc, hsame] at hq
        exact h.flagged q j m hj hq hm
  | _ => exact h

/-! ### Statements under the lock -/

/-- On to the next statement of the section. -/
theorem Owning.goto {s : State} (h : Owning s) {p : Nat} {inner : Inner}
    (hz : ∀ q i, s.lock ≠ some (q, .zeroCount i)) (hwithin : inner.Within (s.pc p))
    (hheld : inner.Held s) (hborn : s.object = none → inner.Unborn) : Owning (s.goto p inner) :=
  h.carry rfl (fun _ => rfl) hz (fun _ _ he => by cases he; exact hwithin)
    (fun _ _ he => by cases he; cases inner <;> exact hheld)
    fun hn => ⟨(h.unborn hn).1, fun _ _ he => by cases he; exact hborn hn⟩

/-- Only the holder can be emptying a slot. -/
theorem not_zeroing {s : State} {p : Nat} {inner : Inner} (hlock : s.lock = some (p, inner))
    (hne : ∀ i, inner ≠ .zeroCount i) (q i : Nat) : s.lock ≠ some (q, .zeroCount i) := by
  rw [hlock]
  intro he
  cases he
  exact hne i rfl

/-- On to the next statement, with the registry there. -/
theorem Owning.next {s : State} (h : Owning s) {p : Nat} {inner inner' : Inner}
    (hlock : s.lock = some (p, inner)) (hne : ∀ i, inner ≠ .zeroCount i) (hb : ¬ inner.Unborn)
    (hwithin : inner'.Within (s.pc p)) (hheld : inner'.Held s) : Owning (s.goto p inner') :=
  h.goto (not_zeroing hlock hne) hwithin hheld
    fun hn => absurd ((h.unborn hn).2 p inner hlock) hb

/-- On to giving up, wherever that is. -/
theorem Owning.fail {s : State} (h : Owning s) {p : Nat} {inner : Inner}
    (hlock : s.lock = some (p, inner)) (hne : ∀ i, inner ≠ .zeroCount i)
    (hwithin : s.pc p = .opening) : Owning (s.goto p .giveFailed) :=
  h.goto (not_zeroing hlock hne) hwithin trivial fun _ => trivial

/-- Out of the section, with the same slot or none as before. -/
theorem Owning.give {s : State} (h : Owning s) {p : Nat} {pc : Pc}
    (hz : ∀ q i, s.lock ≠ some (q, .zeroCount i)) (howns : pc.owns = (s.pc p).owns)
    (hborn : s.object = none → pc.Unborn) : Owning (s.setPc p pc).give :=
  h.carry rfl (owns_update_same howns) hz (fun _ _ he => by cases he) (fun _ _ he => by cases he)
    fun hn => ⟨unborn_update (h.unborn hn).1 (hborn hn), fun _ _ he => by cases he⟩

/-- A write to the registry that leaves the flags of owned slots alone. -/
theorem Owning.write {s : State} (h : Owning s) {p : Nat} {inner : Inner} {f : Memory → Memory}
    (hz : ∀ q i, s.lock ≠ some (q, .zeroCount i)) (hobj : s.object ≠ none)
    (hf : ∀ q i m, i < slots → (s.pc q).owns = some i → isEmpty m i = false →
      isEmpty (f m) i = false ∨ q = p ∧ inner = .zeroCount i)
    (hwithin : inner.Within (s.pc p)) (hheld : inner.Held (s.write f)) :
    Owning ((s.write f).goto p inner) := by
  refine ⟨fun _ _ he => by cases he; exact hwithin,
    fun _ _ he => by cases he; cases inner <;> exact hheld, h.unique, fun q i m hi hq hm => ?_,
    fun hn => absurd (Option.map_eq_none_iff.mp hn) hobj⟩
  obtain ⟨m', hm', rfl⟩ := Option.map_eq_some_iff.mp hm
  rcases hf q i m' hi hq ((h.flagged q i m' hi hq hm').resolve_right (hz q i)) with hk | ⟨rfl, rfl⟩
  · exact .inl hk
  · exact .inr rfl

/-- A slot that nobody owns becomes that of the company which has claimed it. -/
theorem Owning.claimed {s : State} (h : Owning s) {p i : Nat}
    (hlock : s.lock = some (p, .giveClaimed i)) (hobj : s.object ≠ none) :
    Owning (s.setPc p (.running i)).give := by
  have hheld := h.held p _ hlock
  refine ⟨fun _ _ he => (by cases he), fun _ _ he => (by cases he), fun q r j hj hq hr => ?_,
    fun q j m hj hq hm => .inl ?_, fun hn => absurd hn hobj⟩
  · rw [give_pc, setPc_pc, owns_update] at hq hr
    split at hq <;> split at hr
    · rename_i hqp hrp
      rw [hqp, hrp]
    · cases hq
      exact absurd hr ((hheld hj).1 r)
    · cases hr
      exact absurd hq ((hheld hj).1 q)
    · exact h.unique q r j hj hq hr
  · rw [give_pc, setPc_pc, owns_update] at hq
    split at hq
    · cases hq
      exact (hheld hj).2 m hm
    · refine (h.flagged q j m hj hq hm).resolve_right fun hz => ?_
      rw [hlock] at hz
      cases hz

/-- The end of an `E`: the slot, emptied already, is nobody's. -/
theorem Owning.left {s : State} (h : Owning s) {p i : Nat}
    (hlock : s.lock = some (p, .zeroCount i)) (hobj : s.object ≠ none) :
    Owning (((s.write (setNOfSoilDone i 0)).setPc p (.returned i)).goto p .giveLeft) := by
  refine ⟨fun _ _ he => by cases he; trivial, fun _ _ he => by cases he; trivial,
    fun q r j hj hq hr => ?_, fun q j m hj hq hm => .inl ?_,
    fun hn => absurd (Option.map_eq_none_iff.mp hn) hobj⟩
  · rw [goto_pc, setPc_pc, owns_update] at hq hr
    split at hq
    · cases hq
    · split at hr
      · cases hr
      · exact h.unique q r j hj hq hr
  · rw [goto_pc, setPc_pc, owns_update] at hq
    split at hq
    · cases hq
    · rename_i hqp
      obtain ⟨m', hm', rfl⟩ := Option.map_eq_some_iff.mp hm
      rw [isEmpty_setNOfSoilDone]
      refine (h.flagged q j m' hj hq hm').resolve_right fun hz => hqp ?_
      rw [hlock] at hz
      cases hz
      rfl

/-- The first process to open the object owns nothing, and neither does anybody else. -/
theorem Owning.created {s : State} (h : Owning s) {p : Nat} (hsome : s.object = none)
    (hwithin : s.pc p = .opening) :
    Owning { s.goto p (.ftruncate false) with object := some fun _ => 0 } := by
  have hnone (q : Nat) : (s.pc q).owns = none := ((h.unborn hsome).1 q).owns
  refine ⟨fun _ _ he => by cases he; exact hwithin, fun _ _ he => by cases he; exact hnone,
    h.unique, fun q i m hi hq _ => ?_, fun hn => by cases hn⟩
  exact absurd ((hnone q).symm.trans hq) (fun hn => by cases hn)

/-- A slot with its flag set is nobody's. -/
theorem Owning.searched {s : State} (h : Owning s) {p i : Nat}
    (hlock : s.lock = some (p, .search i)) (hwithin : s.pc p = .claiming)
    (argv : Nat → Option CString) (ok : Bool) : Owning (innerStep argv ok p (.search i) s) := by
  have hne (j : Nat) : Inner.search i ≠ .zeroCount j := Inner.noConfusion
  simp only [innerStep]
  split
  · rename_i hi
    split
    · rename_i m hm
      split
      · rename_i hempty
        refine h.next hlock hne id hwithin ⟨hi, fun q hq => ?_⟩
        have hused := (h.flagged q i m hi hq hm).resolve_right (not_zeroing hlock hne q i)
        rw [hempty] at hused
        cases hused
      · exact h.next hlock hne id hwithin trivial
    · exact h
  · rename_i hi
    exact h.next hlock hne id hwithin fun hlt => absurd hlt hi

/-- The flag of a slot that nobody owns is cleared. -/
theorem Owning.occupied {s : State} (h : Owning s) {p i : Nat}
    (hlock : s.lock = some (p, .occupy i)) (hobj : s.object ≠ none)
    (hwithin : s.pc p = .claiming) :
    Owning ((s.write (setIsEmpty i 0)).goto p (.giveClaimed i)) := by
  have hheld := h.held p _ hlock
  refine h.write (not_zeroing hlock fun _ => Inner.noConfusion) hobj
    (fun q j m _ hq hm => .inl ?_) hwithin (fun _ => ⟨hheld.2, fun m hm => ?_⟩)
  · rw [isEmpty_setIsEmpty_of_ne]
    · exact hm
    · intro rfl
      exact hheld.2 q hq
  · obtain ⟨m', _, rfl⟩ := Option.map_eq_some_iff.mp hm
    rw [isEmpty_setIsEmpty_self]
    rfl

/-- The flag of a slot is set by its owner, who then zeroes the count. -/
theorem Owning.emptied {s : State} (h : Owning s) {p i : Nat}
    (hlock : s.lock = some (p, .markEmpty i)) (hobj : s.object ≠ none)
    (hwithin : s.pc p = .leaving i) :
    Owning ((s.write (setIsEmpty i 1)).goto p (.zeroCount i)) := by
  refine h.write (not_zeroing hlock fun _ => Inner.noConfusion) hobj
    (fun q j m hj hq hm => ?_) hwithin trivial
  by_cases hij : i = j
  · subst hij
    refine .inr ⟨h.unique q p i hj hq ?_, rfl⟩
    rw [hwithin]
    rfl
  · left
    rw [isEmpty_setIsEmpty_of_ne _ _ hij]
    exact hm

theorem owning_inner {argv : Nat → Option CString} {s : State} (h : Owning s) {p : Nat}
    {inner : Inner} (hlock : s.lock = some (p, inner)) (ok : Bool)
    (hC : Contained argv p inner s) : Owning (innerStep argv ok p inner s) := by
  have hwithin := h.within p inner hlock
  have hheld := h.held p inner hlock
  have hz := not_zeroing hlock
  have hobj (hb : ¬ inner.Unborn) : s.object ≠ none := fun hn => hb ((h.unborn hn).2 p inner hlock)
  cases inner with
  | shmOpen =>
    have hne (i : Nat) : Inner.shmOpen ≠ .zeroCount i := Inner.noConfusion
    cases hsome : s.object with
    | none =>
      cases ok <;> simp only [innerStep, hsome]
      · exact h.fail hlock hne hwithin
      · exact h.created hsome hwithin
    | some m =>
      cases ok <;> simp only [innerStep, hsome]
      · exact h.fail hlock hne hwithin
      · exact h.goto (hz hne) hwithin trivial
          fun hn => absurd (hsome.symm.trans hn) (fun he => by cases he)
  | reopen =>
    have hne (i : Nat) : Inner.reopen ≠ .zeroCount i := Inner.noConfusion
    cases ok
    · exact h.fail hlock hne hwithin
    · exact h.next hlock hne id hwithin trivial
  | ftruncate is_init =>
    have hne (i : Nat) : Inner.ftruncate is_init ≠ .zeroCount i := Inner.noConfusion
    cases ok
    · exact h.fail hlock hne hwithin
    · refine h.next hlock hne id hwithin ?_
      cases is_init <;> exact hheld
  | mmap is_init =>
    have hne (i : Nat) : Inner.mmap is_init ≠ .zeroCount i := Inner.noConfusion
    cases ok
    · exact h.fail hlock hne hwithin
    · cases is_init
      · exact h.next hlock hne id hwithin hheld
      · exact h.next hlock hne id hwithin trivial
  | initialise =>
    refine h.write (hz (fun _ => Inner.noConfusion)) (hobj id) (fun q i m _ hq _ => ?_) hwithin
      trivial
    exact absurd ((hheld q).symm.trans hq) (fun hn => by cases hn)
  | giveOpened =>
    refine h.give (hz (fun _ => Inner.noConfusion)) ?_ fun hn => absurd hn (hobj id)
    rw [show s.pc p = .opening from hwithin]
    split <;> rfl
  | giveFailed =>
    refine h.give (hz (fun _ => Inner.noConfusion)) ?_ fun _ => trivial
    rw [show s.pc p = .opening from hwithin]
    rfl
  | search i => exact h.searched hlock hwithin argv ok
  | strcpy i =>
    simp only [innerStep]
    split
    · rename_i c_name hname
      refine h.write (hz (fun _ => Inner.noConfusion)) (hobj id)
        (fun q j m hj hq hm => .inl ?_) hwithin hheld
      exact isEmpty_copyName (hC c_name hname q j hj hq) hm
    · exact h
  | occupy i => exact h.occupied hlock (hobj id) hwithin
  | giveClaimed i => exact h.claimed hlock (hobj id)
  | markEmpty i => exact h.emptied hlock (hobj id) hwithin
  | zeroCount i => exact h.left hlock (hobj id)
  | count i =>
    have hw : Owning ((s.write fun m => setNOfSoilDone i (nOfSoilDone m i + 1) m).goto p
        .giveCounted) := by
      refine h.write (hz (fun _ => Inner.noConfusion)) (hobj id) (fun q j m _ _ hm => .inl ?_)
        trivial trivial
      rw [isEmpty_setNOfSoilDone]
      exact hm
    exact ⟨hw.within, fun _ _ he => by cases he; trivial, hw.unique, hw.flagged, hw.unborn⟩
  | _ =>
    exact h.carry rfl (fun _ => rfl) (hz (fun _ => Inner.noConfusion)) (fun _ _ he => by cases he)
      (fun _ _ he => by cases he) fun hn => ⟨(h.unborn hn).1, fun _ _ he => by cases he⟩

/-- Slots and owners stay together as long as no name reaches an owned flag. -/
theorem owning_step (argv : Nat → Option CString) (a : Action) (s : State) (h : Owning s)
    (hC : OnInner (Contained argv) a s) : Owning (step argv a s) := by
  cases a with
  | take p digger => exact owning_take argv s h p digger
  | inner ok =>
    simp only [step]
    cases hlock : s.lock with
    | none => exact h
    | some holder => exact owning_inner h hlock ok (hC.holder hlock)
  | exit p => exact owning_exit argv s h p

/-! ### Ids -/

/-- A company that starts its search finds a slot that is free. -/
def Vacant (inner : Inner) (s : State) : Prop :=
  match inner with
  | .search 0 => ∃ i < slots, s.object.map (isEmpty · i) = some true
  | _ => True

instance (inner : Inner) (s : State) : Decidable (Vacant inner s) := by
  unfold Vacant
  split <;> infer_instance

/-- The search is on its way to a free slot, and then has one. -/
def Inner.Finding (s : State) : Inner → Prop
  | .search (i + 1) => ∃ j m, i < j ∧ j < slots ∧ s.object = some m ∧ isEmpty m j = true
  | .strcpy i | .occupy i | .giveClaimed i => i < slots
  | _ => True

/-- Every id is that of a slot of the registry. -/
structure Ranged (s : State) : Prop where
  finding : ∀ p inner, s.lock = some (p, inner) → inner.Finding s
  ids : ∀ p i, (s.pc p).m_id = some i → i < slots

theorem Ranged.update {s : State} (h : Ranged s) {p : Nat} {pc : Pc}
    (hpc : ∀ i, pc.m_id = some i → i < slots) (q i : Nat)
    (hq : (Function.update s.pc p pc q).m_id = some i) : i < slots := by
  by_cases hqp : q = p
  · rw [hqp, Function.update_self] at hq
    exact hpc i hq
  · rw [Function.update_of_ne hqp] at hq
    exact h.ids q i hq

theorem entry_m_id {argv : Nat → Option CString} {p : Nat} {digger : Bool} {pc pc' : Pc}
    {inner : Inner} (h : entry argv p digger pc = some (pc', inner)) :
    (∀ i, pc'.m_id = some i → pc.m_id = some i) ∧ ∀ s, inner.Finding s := by
  unfold entry at h
  split at h
  · split at h <;> cases h
    exact ⟨fun _ hi => (by cases hi), fun _ => trivial⟩
  · split at h
    · cases h
    · split at h <;> cases h
      exact ⟨fun _ hi => (by cases hi), fun _ => trivial⟩
  · split at h <;> cases h <;> exact ⟨fun _ hi => hi, fun _ => trivial⟩
  · split at h <;> cases h
    exact ⟨fun _ hi => hi, fun _ => trivial⟩
  · split at h <;> cases h
    exact ⟨fun _ hi => hi, fun _ => trivial⟩
  · cases h

/-- On to a statement that looks for nothing, or has found its slot. -/
theorem Ranged.goto {s s' : State} (h : Ranged s) {p : Nat} {inner : Inner}
    (hpc : s'.pc = s.pc) (hlock : s'.lock = some (p, inner)) (hf : inner.Finding s') :
    Ranged s' := by
  refine ⟨fun q e he => ?_, fun q i hq => ?_⟩
  · rw [hlock] at he
    cases he
    exact hf
  · rw [hpc] at hq
    exact h.ids q i hq

theorem Ranged.give {s s' : State} (h : Ranged s) {p : Nat} {pc : Pc}
    (hpc : s'.pc = Function.update s.pc p pc) (hlock : s'.lock = none)
    (hi : ∀ i, pc.m_id = some i → i < slots) : Ranged s' := by
  refine ⟨fun q e he => ?_, fun q i hq => ?_⟩
  · rw [hlock] at he
    cases he
  · rw [hpc] at hq
    exact h.update hi q i hq

theorem ranged_inner {argv : Nat → Option CString} {s : State} (h : Owning s) (hr : Ranged s)
    {p : Nat} {inner : Inner} (hlock : s.lock = some (p, inner)) (ok : Bool)
    (hC : Vacant inner s) : Ranged (innerStep argv ok p inner s) := by
  have hwithin := h.within p inner hlock
  have hfind := hr.finding p inner hlock
  cases inner with
  | shmOpen =>
    cases hsome : s.object <;> cases ok <;> simp only [innerStep, hsome] <;>
      exact hr.goto rfl rfl trivial
  | reopen => cases ok <;> exact hr.goto rfl rfl trivial
  | ftruncate is_init => cases ok <;> exact hr.goto rfl rfl trivial
  | mmap is_init => cases ok <;> cases is_init <;> exact hr.goto rfl rfl trivial
  | initialise => exact hr.goto rfl rfl trivial
  | giveOpened =>
    refine hr.give rfl rfl fun i hi => ?_
    split at hi <;> cases hi
  | giveFailed => exact hr.give rfl rfl fun i hi => by cases hi
  | search i =>
    have hfree : ∃ j m, i ≤ j ∧ j < slots ∧ s.object = some m ∧ isEmpty m j = true := by
      cases i with
      | zero =>
        obtain ⟨j, hj, hempty⟩ := hC
        obtain ⟨m, hm, hempty⟩ := Option.map_eq_some_iff.mp hempty
        exact ⟨j, m, Nat.zero_le j, hj, hm, hempty⟩
      | succ i => exact hfind
    obtain ⟨j, m, hij, hj, hm, hempty⟩ := hfree
    have hi : i < slots := Nat.lt_of_le_of_lt hij hj
    simp only [innerStep, if_pos hi, hm]
    by_cases hfound : isEmpty m i = true
    · rw [if_pos hfound]
      exact hr.goto rfl rfl hi
    · rw [if_neg hfound]
      refine hr.goto rfl rfl ⟨j, m, Nat.lt_of_le_of_ne hij ?_, hj, hm, hempty⟩
      intro rfl
      exact hfound hempty
  | strcpy i =>
    simp only [innerStep]
    split
    · exact hr.goto rfl rfl hfind
    · exact hr
  | occupy i => exact hr.goto rfl rfl hfind
  | giveClaimed i =>
    refine hr.give rfl rfl fun j hj => ?_
    cases hj
    exact hfind
  | markEmpty i => exact hr.goto rfl rfl trivial
  | zeroCount i =>
    refine ⟨fun _ _ he => by cases he; trivial, hr.update fun j hj => ?_⟩
    cases hj
    refine hr.ids p i ?_
    rw [show s.pc p = .leaving i from hwithin]
    rfl
  | count i => exact hr.goto rfl rfl trivial
  | _ => exact ⟨fun _ _ he => (by cases he), hr.ids⟩

/-- What a company is promised with its id. -/
structure Exclusive (s : State) : Prop where
  /-- The id is that of a slot, for `main` and for the diggers. -/
  slot : ∀ p i, (s.pc p).m_id = some i → i < slots
  /-- No two live companies have it. -/
  sole : ∀ p q i, (s.pc p).owns = some i → (s.pc q).owns = some i → p = q

/-- Both conditions: a name that leaves the owned flags alone, and a free slot to find. -/
def Claimable (argv : Nat → Option CString) (a : Action) (s : State) : Prop :=
  OnInner (Contained argv) a s ∧ OnInner (fun _ inner s => Vacant inner s) a s

theorem ranged_step (argv : Nat → Option CString) (a : Action) (s : State)
    (h : Owning s ∧ Ranged s) (hC : Claimable argv a s) :
    Owning (step argv a s) ∧ Ranged (step argv a s) := by
  refine ⟨owning_step argv a s h.1 hC.1, ?_⟩
  have hr := h.2
  cases a with
  | take p digger =>
    simp only [step]
    cases hlock : s.lock with
    | some holder => exact hr
    | none =>
      simp only
      cases hentry : entry argv p digger (s.pc p) with
      | none => exact hr
      | some next =>
        obtain ⟨hid, hfind⟩ := entry_m_id hentry
        exact ⟨fun _ _ he => by cases he; exact hfind _,
          hr.update fun i hi => hr.ids p i (hid i hi)⟩
  | inner ok =>
    simp only [step]
    cases hlock : s.lock with
    | none => exact hr
    | some holder => exact ranged_inner h.1 hr hlock ok (hC.2.holder hlock)
  | exit p =>
    simp only [step]
    split
    · split
      · exact hr
      · refine ⟨fun q inner hlock => ?_, hr.update fun i hi => by cases hi⟩
        have hfind := hr.finding q inner hlock
        cases inner with
        | search i => cases i <;> exact hfind
        | _ => exact hfind
    · exact hr

theorem Pc.m_id_of_owns {pc : Pc} {i : Nat} (h : pc.owns = some i) : pc.m_id = some i := by
  cases pc <;> first | exact h | cases h

/-- **Every id is a slot of the registry and no two live companies share one**, in every
state of every run in which each company that searches has a slot to find and writes a
name that reaches no owned flag. -/
theorem exclusive_of_claimable (argv : Nat → Option CString) (acts : List Action)
    (h : Along (step argv) (Claimable argv) initial acts) :
    Throughout (step argv) Exclusive initial acts := by
  have hinit : Ranged initial := ⟨fun _ _ hl => (by cases hl), fun _ _ hi => by cases hi⟩
  refine (throughout_of_along (ranged_step argv) ⟨owning_initial, hinit⟩ h).imp fun s hs => ?_
  exact ⟨hs.2.ids, fun p q i hp hq =>
    hs.1.unique p q i (hs.2.ids p i (Pc.m_id_of_owns hp)) hp hq⟩

/-! ### A full registry -/

/-- The search passes over slots in use. -/
theorem search_run {argv : Nat → Option CString} {s : State} {p i k : Nat} {m : Memory}
    (hlock : s.lock = some (p, .search i)) (hm : s.object = some m) (hk : i + k ≤ slots)
    (hused : ∀ j, i ≤ j → j < i + k → isEmpty m j = false) :
    run argv s (List.replicate k (.inner true)) = s.goto p (.search (i + k)) := by
  induction k generalizing s i with
  | zero =>
    rw [Nat.add_zero, State.goto, ← hlock]
    rfl
  | succ k ih =>
    have hi : i < slots := by omega
    have hnext : step argv (.inner true) s = s.goto p (.search (i + 1)) := by
      simp only [step, hlock, innerStep, if_pos hi, hm, hused i (Nat.le_refl i) (by omega)]
      rfl
    change run argv (step argv (.inner true) s) (List.replicate k (.inner true)) = _
    rw [hnext, ih (goto_lock s p _) hm (by omega) fun j hj hlt => hused j (by omega) (by omega),
      Nat.add_assoc, Nat.add_comm 1 k]
    rfl

/-- A company that finds no slot comes away with the id behind the last one. -/
theorem search_falls_through {argv : Nat → Option CString} {s : State} {p : Nat} {m : Memory}
    (hlock : s.lock = some (p, .search 0)) (hm : s.object = some m)
    (hfull : ∀ j < slots, isEmpty m j = false) :
    (run argv s (List.replicate slots (.inner true) ++ [.inner true, .inner true])).pc p =
      .running slots := by
  have hrun : run argv s (List.replicate slots (.inner true)) = s.goto p (.search slots) :=
    search_run (k := slots) hlock hm (Nat.le_refl _) fun j _ hj => hfull j (by omega)
  unfold run at hrun ⊢
  rw [Interleaving.run_append, hrun]
  simp only [Interleaving.run, step, goto_lock, innerStep, Nat.lt_irrefl, if_false, give_pc,
    setPc_pc, Function.update_self]

/-! ### Two companies, and one too many -/

/-- Process `p` through the first section, with every system call successful. -/
def opening (p : Nat) : List Action := .take p false :: List.replicate 5 (.inner true)

/-- Process `p` through the second, where slot `i` is the first that is free. -/
def claiming (p i : Nat) : List Action := .take p false :: List.replicate (i + 4) (.inner true)

def crowd (n : Nat) : List Action := (List.range n).flatMap fun p => opening p ++ claiming p p

def noName : CString := ⟨[], List.not_mem_nil⟩

theorem contained_noName (p : Nat) (inner : Inner) (s : State) :
    Contained (fun _ => some noName) p inner s := by
  cases inner with
  | strcpy i =>
    intro c_name hname q j _ _ hreach
    cases hname
    exact Nat.not_lt_zero _ hreach.2
  | _ => trivial

theorem exclusive_two :
    Throughout (step fun _ => some noName) Exclusive initial (crowd 2) :=
  exclusive_of_claimable (fun _ => some noName) (crowd 2)
    (Along.and (Along.of_forall (OnInner.of_forall contained_noName) _ _) (by decide +kernel))

/-- With fifty companies registered, the next one's search falls through: it comes away
with id 50. -/
theorem crowded_beyond : ¬ Exclusive (run (fun _ => some noName) initial (crowd 51)) :=
  fun h => absurd (h.slot 50 50 (by decide +kernel)) (by decide)

end RealTimeLabs.Registry
