import RealTimeLabs.Registry.Accounts

/-! Who lays the registry out.

`init_shm` takes it that whoever creates the shared object also initialises it. Between
the two the creator can fail, and then nobody initialises: the next opener finds an object
of zeros and goes on. `Traced` counts the initialisations, and remembers whether an
`init_shm` has got through. As long as no creator fails, every slot that is neither owned
nor being claimed is `Blank`, from the initialisation on. -/
namespace RealTimeLabs.Registry
open Bytes Interleaving

/-- The statements from the creation of the object up to its initialisation. -/
def Inner.creates : Inner → Bool
  | .ftruncate false | .mmap false | .initialise => true
  | _ => false

/-- No object yet, or one that its creator has still to initialise. -/
def Raw (s : State) : Prop := s.object = none ∨ s.lock.any (·.2.creates) = true

/-! ### Sections -/

/-- Every process stands where the statement under the lock has it, and nobody is
registered before the registry is. -/
structure Staged (s : State) : Prop where
  within : ∀ p inner, s.lock = some (p, inner) → inner.Within (s.pc p)
  unborn : s.object = none → ∀ p inner, s.lock = some (p, inner) → inner.Unborn
  raw : Raw s → ∀ q, (s.pc q).Unborn

theorem staged_initial : Staged initial :=
  ⟨fun _ _ h => (by cases h), fun _ _ _ h => (by cases h), fun _ _ => trivial⟩

section
variable {s s' : State} {p : Nat} {inner : Inner}

theorem raw_iff (hlock : s.lock = some (p, inner)) :
    Raw s ↔ s.object = none ∨ inner.creates = true := by
  rw [Raw, hlock, Option.any_some]

theorem raw_iff_free (hlock : s.lock = none) : Raw s ↔ s.object = none := by
  rw [Raw, hlock, Option.any_none]
  exact or_iff_left Bool.false_ne_true

/-- Nothing is raw any more once the creator's statements are over, and nothing becomes so. -/
theorem raw_goto (hlock : s.lock = some (p, inner)) (hc : inner.creates = false) (inner' : Inner)
    (hr : Raw s) : Raw (s.goto p inner') :=
  .inl (((raw_iff hlock).mp hr).resolve_right (ne_true_of_eq_false hc))

/-- On to another statement. -/
theorem Staged.on (h : Staged s) (hobj : s'.object = none ↔ s.object = none)
    (hpc : s'.pc = s.pc) (hlock : s'.lock = some (p, inner)) (hwithin : inner.Within (s.pc p))
    (hborn : s.object = none → inner.Unborn) (hraw : inner.creates = true → Raw s) :
    Staged s' := by
  refine ⟨fun q e he => ?_, fun hn q e he => ?_, fun hr => ?_⟩
  · rw [hlock] at he
    cases he
    rw [hpc]
    exact hwithin
  · rw [hlock] at he
    cases he
    exact hborn (hobj.mp hn)
  · rw [hpc]
    exact h.raw (((raw_iff hlock).mp hr).elim (fun hn => .inl (hobj.mp hn)) hraw)

/-- Out of the section. -/
theorem Staged.out (hlock : s'.lock = none) (hborn : s'.object = none → ∀ q, (s'.pc q).Unborn) :
    Staged s' := by
  refine ⟨fun q e he => ?_, fun _ q e he => ?_, fun hr => hborn ((raw_iff_free hlock).mp hr)⟩
  · rw [hlock] at he
    cases he
  · rw [hlock] at he
    cases he

end

theorem write_object_none (s : State) (f : Memory → Memory) :
    (s.write f).object = none ↔ s.object = none := Option.map_eq_none_iff

theorem staged_inner {argv : Nat → Option CString} {s : State} (h : Staged s) {p : Nat}
    {inner : Inner} (hlock : s.lock = some (p, inner)) (ok : Bool) :
    Staged (innerStep argv ok p inner s) := by
  have hwithin := h.within p inner hlock
  have hobj (hb : ¬ inner.Unborn) (inner' : Inner) (hn : s.object = none) : inner'.Unborn :=
    absurd (h.unborn hn p inner hlock) hb
  have hcreates (hc : inner.creates = true) : Raw s := (raw_iff hlock).mpr (.inr hc)
  have hfail (hpc : s.pc p = .opening) : Staged (s.goto p .giveFailed) :=
    h.on Iff.rfl rfl rfl hpc (fun _ => trivial) Bool.false_ne_true.elim
  cases inner with
  | shmOpen =>
    cases hsome : s.object with
    | none =>
      cases ok <;> simp only [innerStep, hsome]
      · exact hfail hwithin
      · refine ⟨fun q e he => by cases he; exact hwithin, fun hn => (by cases hn), fun _ => ?_⟩
        exact h.raw (.inl hsome)
    | some m =>
      cases ok <;> simp only [innerStep, hsome]
      · exact hfail hwithin
      · exact h.on Iff.rfl rfl rfl hwithin (fun hn => absurd (hsome.symm.trans hn) (by simp))
          Bool.false_ne_true.elim
  | reopen =>
    cases ok
    · exact hfail hwithin
    · exact h.on Iff.rfl rfl rfl hwithin (hobj id _) Bool.false_ne_true.elim
  | ftruncate is_init =>
    cases ok
    · exact hfail hwithin
    · refine h.on Iff.rfl rfl rfl hwithin (hobj id _) fun hc => ?_
      cases is_init
      · exact hcreates rfl
      · cases hc
  | mmap is_init =>
    cases ok
    · exact hfail hwithin
    · cases is_init
      · exact h.on Iff.rfl rfl rfl hwithin (hobj id _) fun _ => hcreates rfl
      · exact h.on Iff.rfl rfl rfl hwithin (hobj id _) Bool.false_ne_true.elim
  | initialise =>
    exact h.on (write_object_none s _) rfl rfl hwithin (hobj id _) Bool.false_ne_true.elim
  | giveOpened =>
    exact .out rfl fun hn => (hobj id .giveOpened hn).elim
  | giveFailed => exact .out rfl fun hn => unborn_update (h.raw (.inl hn)) trivial
  | search i =>
    simp only [innerStep]
    split
    · split
      · refine h.on Iff.rfl rfl rfl ?_ (hobj id _) ?_
        · split <;> exact hwithin
        · split <;> exact Bool.false_ne_true.elim
      · exact h
    · exact h.on Iff.rfl rfl rfl hwithin (hobj id _) Bool.false_ne_true.elim
  | strcpy i =>
    simp only [innerStep]
    split
    · exact h.on (write_object_none s _) rfl rfl hwithin (hobj id _) Bool.false_ne_true.elim
    · exact h
  | occupy i =>
    exact h.on (write_object_none s _) rfl rfl hwithin (hobj id _) Bool.false_ne_true.elim
  | giveClaimed i => exact .out rfl fun hn => (hobj id .giveOpened hn).elim
  | markEmpty i =>
    exact h.on (write_object_none s _) rfl rfl hwithin (hobj id _) Bool.false_ne_true.elim
  | zeroCount i =>
    refine Staged.on (s := ((s.write (setNOfSoilDone i 0)).setPc p (.returned i)).give)
      ?_ Iff.rfl rfl rfl trivial (fun hn => ?_) Bool.false_ne_true.elim
    · exact .out rfl fun hn => (hobj id .giveOpened ((write_object_none s _).mp hn)).elim
    · exact hobj id _ ((write_object_none s _).mp hn)
  | count i =>
    exact h.on (write_object_none s _) rfl rfl trivial (hobj id _) Bool.false_ne_true.elim
  | _ => exact .out rfl fun hn => h.raw (.inl hn)

theorem entry_first {argv : Nat → Option CString} {p : Nat} {digger : Bool} {pc pc' : Pc}
    {inner : Inner} (h : entry argv p digger pc = some (pc', inner)) :
    inner.creates = false ∧ ∀ i, inner ≠ .zeroCount i := by
  unfold entry at h
  split at h
  · split at h <;> cases h
    exact ⟨rfl, fun _ => Inner.noConfusion⟩
  · split at h
    · cases h
    · split at h <;> cases h
      exact ⟨rfl, fun _ => Inner.noConfusion⟩
  · split at h <;> cases h <;> exact ⟨rfl, fun _ => Inner.noConfusion⟩
  · split at h <;> cases h
    exact ⟨rfl, fun _ => Inner.noConfusion⟩
  · split at h <;> cases h
    exact ⟨rfl, fun _ => Inner.noConfusion⟩
  · cases h

theorem staged_step (argv : Nat → Option CString) (a : Action) (s : State) (h : Staged s) :
    Staged (step argv a s) := by
  cases a with
  | take p digger =>
    simp only [step]
    cases hlock : s.lock with
    | some holder => exact h
    | none =>
      simp only
      cases hentry : entry argv p digger (s.pc p) with
      | none => exact h
      | some next =>
        obtain ⟨pc, inner⟩ := next
        obtain ⟨_, hwithin, _, hborn⟩ := entry_owns hentry
        refine ⟨fun q e he => ?_, fun hn q e he => ?_, fun hr => ?_⟩
        · cases he
          rw [goto_pc, setPc_pc, Function.update_self]
          exact hwithin
        · cases he
          exact (hborn (h.raw (.inl hn) p)).2
        · have hn := ((raw_iff (goto_lock _ p inner)).mp hr).resolve_right
            (ne_true_of_eq_false (entry_first hentry).1)
          have hall := h.raw (.inl hn)
          exact unborn_update hall (hborn (hall p)).1
  | inner ok =>
    simp only [step]
    cases hlock : s.lock with
    | none => exact h
    | some holder => exact staged_inner h hlock ok
  | exit p =>
    simp only [step]
    split
    · split
      · exact h
      · rename_i hsafe
        refine ⟨fun q inner hq => ?_, h.unborn, fun hr => unborn_update (h.raw hr) trivial⟩
        have hne : q ≠ p := by
          intro rfl
          exact hsafe (by rw [show s.lock = some (q, inner) from hq]; simp)
        rw [setPc_pc, Function.update_of_ne hne]
        exact h.within q inner hq
    · exact h

/-! ### Counting the initialisations -/

/-- The statement that an action executes. -/
def executed (s : State) : Action → Option Inner
  | .inner _ => s.lock.map (·.2)
  | _ => none

structure Traced where
  state : State
  /-- How often the registry has been initialised since the object was created. -/
  initialisations : Nat
  /-- Some `init_shm` has got through its first section. -/
  through : Bool

def tracedStep (argv : Nat → Option CString) (a : Action) (t : Traced) : Traced where
  state := step argv a t.state
  initialisations :=
    if executed t.state a = some .initialise then t.initialisations + 1 else t.initialisations
  through := t.through || executed t.state a = some .giveOpened

def untraced : Traced := ⟨initial, 0, false⟩

/-- What `init_shm` promises those whom it lets through. -/
def Initialised (t : Traced) : Prop :=
  t.state.lock = none → t.through = true → t.initialisations = 1 ∧
    ∃ m, t.state.object = some m ∧
      ∀ i < slots, (∀ q, (t.state.pc q).owns ≠ some i) → Blank m i

/-- An initialisation finds no company registered. -/
def Spares (_ : Nat) (inner : Inner) (s : State) : Prop :=
  inner = .initialise → ∀ q, (s.pc q).owns = none

/-- No name runs on into a slot that nobody owns, and no digger counts into one. -/
def Tidy (argv : Nat → Option CString) (p : Nat) (inner : Inner) (s : State) : Prop :=
  match inner with
  | .strcpy i => ∀ c_name, argv p = some c_name → ∀ j, i < j → j < slots →
    (∀ q, (s.pc q).owns ≠ some j) → nameOffset + c_name.strlen ≤ sizeofCompany * (j - i)
  | .count i => i < slots → ∃ q, (s.pc q).owns = some i
  | _ => True

/-- The system calls of a creator succeed. -/
def Completes : Action → State → Prop
  | .inner ok, s =>
    ∀ holder ∈ s.lock, holder.2 = .ftruncate false ∨ holder.2 = .mmap false → ok = true
  | _, _ => True

instance : (a : Action) → (s : State) → Decidable (Completes a s)
  | .take _ _, _ | .exit _, _ => .isTrue trivial
  | .inner ok, s => inferInstanceAs (Decidable (∀ holder ∈ s.lock,
      holder.2 = .ftruncate false ∨ holder.2 = .mmap false → ok = true))

/-- Whoever creates the object comes to initialise it, and what the initialisation has
left blank stays so until it is claimed. -/
def Steady (argv : Nat → Option CString) (a : Action) (t : Traced) : Prop :=
  Completes a t.state ∧ OnInner (Tidy argv) a t.state

/-! ### From raw to initialised -/

theorem raw_inner {argv : Nat → Option CString} {s : State} (h : Staged s) {p : Nat}
    {inner : Inner} (hlock : s.lock = some (p, inner)) {ok : Bool}
    (hok : inner = .ftruncate false ∨ inner = .mmap false → ok = true) :
    Raw (innerStep argv ok p inner s) ↔ Raw s ∧ inner ≠ .initialise := by
  have hobj (hb : ¬ inner.Unborn) : s.object ≠ none := fun hn => hb (h.unborn hn p inner hlock)
  cases inner with
  | shmOpen =>
    cases hsome : s.object <;> cases ok <;>
      simp [innerStep, Raw, hsome, hlock, Inner.creates]
  | ftruncate is_init =>
    cases is_init
    · rw [hok (.inl rfl)]
      simp [innerStep, Raw, hlock, Inner.creates]
    · cases ok <;> simp [innerStep, Raw, hlock, Inner.creates]
  | mmap is_init =>
    cases is_init
    · rw [hok (.inr rfl)]
      simp [innerStep, Raw, hlock, Inner.creates]
    · cases ok <;> simp [innerStep, Raw, hlock, Inner.creates]
  | initialise => simp [innerStep, Raw, hlock, Inner.creates, hobj id]
  | search i =>
    simp only [innerStep]
    split
    · split
      · split <;> simp [Raw, hlock, Inner.creates]
      · simp
    · simp [Raw, hlock, Inner.creates]
  | strcpy i =>
    simp only [innerStep]
    split <;> simp [Raw, hlock, Inner.creates]
  | reopen => cases ok <;> simp [innerStep, Raw, hlock, Inner.creates]
  | _ => simp [innerStep, Raw, hlock, Inner.creates, State.give]

theorem raw_step {argv : Nat → Option CString} {a : Action} {s : State} (h : Staged s)
    (hC : Completes a s) :
    Raw (step argv a s) ↔ Raw s ∧ executed s a ≠ some .initialise := by
  cases a with
  | take p digger =>
    rw [and_iff_left (by simp [executed])]
    simp only [step]
    cases hlock : s.lock with
    | some holder => rfl
    | none =>
      simp only
      cases hentry : entry argv p digger (s.pc p) with
      | none => rfl
      | some next =>
        rw [raw_iff_free hlock, raw_iff (goto_lock _ _ _), (entry_first hentry).1,
          or_iff_left Bool.false_ne_true]
        rfl
  | inner ok =>
    simp only [step, executed]
    cases hlock : s.lock with
    | none => exact (and_iff_left (by simp)).symm
    | some holder =>
      rw [Option.map_some, Ne, Option.some_inj]
      exact raw_inner h hlock (hC holder hlock)
  | exit p =>
    rw [and_iff_left (by simp [executed])]
    simp only [step]
    split
    · split <;> rfl
    · rfl

/-! ### Blank slots -/

/-- The slot that a statement belongs to a claim of. -/
def Inner.Claims (i : Nat) : Inner → Prop
  | .occupy j | .giveClaimed j => j = i
  | _ => False

/-- A slot that is neither owned nor being claimed. -/
structure Free (s : State) (i : Nat) : Prop where
  unowned : ∀ q, (s.pc q).owns ≠ some i
  unclaimed : ∀ p inner, s.lock = some (p, inner) → ¬ inner.Claims i

/-- The initialised registry, at every statement. -/
structure Laid (s : State) : Prop where
  blank : ¬ Raw s → ∀ m i, i < slots → s.object = some m → Free s i → Blank m i
  zeroing : ∀ p i m, s.lock = some (p, .zeroCount i) → s.object = some m →
    m (company i + isEmptyOffset) = 1

section
variable {s s' : State} {p : Nat} {inner : Inner}

theorem Free.of_unowned {i : Nat} (hlock : s.lock = some (p, inner)) (hc : ¬ inner.Claims i)
    (h : ∀ q, (s.pc q).owns ≠ some i) : Free s i := by
  refine ⟨h, fun q e he => ?_⟩
  rw [hlock] at he
  cases he
  exact hc

theorem Free.ne {i j : Nat} (h : Free s j) (howns : (s.pc p).owns = some i) : i ≠ j := by
  intro rfl
  exact h.unowned p howns

/-- A step that writes to the registry, or nothing where `f` is `id`. -/
theorem Laid.write (h : Laid s) (f : Memory → Memory) (hraw : Raw s → Raw s')
    (hobj : s'.object = s.object.map f)
    (hf : ∀ m i, i < slots → s.object = some m → Free s' i → (Free s i → Blank m i) →
      Blank (f m) i)
    (hz : ∀ p i, s'.lock ≠ some (p, .zeroCount i)) : Laid s' := by
  refine ⟨fun hr m i hi hm hfree => ?_, fun p i _ hlock _ => absurd hlock (hz p i)⟩
  rw [hobj] at hm
  obtain ⟨m', hm', rfl⟩ := Option.map_eq_some_iff.mp hm
  exact hf m' i hi hm' hfree (h.blank (fun hr' => hr (hraw hr')) m' i hi hm')

theorem Laid.keep (h : Laid s) (hraw : Raw s → Raw s') (hobj : s'.object = s.object)
    (hfree : ∀ i, Free s' i → Free s i) (hz : ∀ p i, s'.lock ≠ some (p, .zeroCount i)) :
    Laid s' :=
  h.write id hraw (hobj.trans (congrFun Option.map_id s.object).symm)
    (fun _ i _ _ hi hb => hb (hfree i hi)) hz

/-- A slot that a process has taken up is not free. -/
theorem Laid.claimed {i : Nat} (h : Laid s) (hlock : s.lock = some (p, .giveClaimed i))
    (hpc : s.pc p = .claiming) (hraw : Raw s → Raw (s.setPc p (.running i)).give) :
    Laid (s.setPc p (.running i)).give := by
  refine h.keep hraw rfl (fun j hfree => ?_) fun _ _ he => by cases he
  have hown : (((s.setPc p (.running i)).give).pc p).owns = some i := by
    rw [give_pc, setPc_pc, Function.update_self]
    rfl
  refine .of_unowned hlock (hfree.ne hown) fun q hq => hfree.unowned q ?_
  have hne : q ≠ p := by
    intro rfl
    rw [hpc] at hq
    cases hq
  exact (congrArg Pc.owns (Function.update_of_ne hne _ _)).trans hq

/-- The first half of a company's `E`; its slot is still the company's. -/
theorem Laid.emptied {i : Nat} (h : Laid s) (hlock : s.lock = some (p, .markEmpty i))
    (hown : (s.pc p).owns = some i)
    (hraw : Raw s → Raw ((s.write (setIsEmpty i 1)).goto p (.zeroCount i))) :
    Laid ((s.write (setIsEmpty i 1)).goto p (.zeroCount i)) := by
  refine ⟨fun hr m j hj hm hfree => ?_, fun q j m he hm => ?_⟩
  · obtain ⟨m', hm', rfl⟩ := Option.map_eq_some_iff.mp hm
    have hb := h.blank (fun hr' => hr (hraw hr')) m' j hj hm'
      (.of_unowned hlock id hfree.unowned)
    exact hb.setIsEmpty 1 (Free.ne ⟨hfree.unowned, hfree.unclaimed⟩ hown)
  · cases he
    obtain ⟨m', _, rfl⟩ := Option.map_eq_some_iff.mp hm
    exact flag_setIsEmpty_self m' i 1

/-- The second half: the slot is free, and blank. -/
theorem Laid.left {i : Nat} (h : Laid s) (hlock : s.lock = some (p, .zeroCount i))
    (hown : (s.pc p).owns = some i)
    (hraw : Raw s → Raw (((s.write (setNOfSoilDone i 0)).setPc p (.returned i)).goto p .giveLeft)) :
    Laid (((s.write (setNOfSoilDone i 0)).setPc p (.returned i)).goto p .giveLeft) := by
  refine h.write _ hraw rfl (fun m j hj hm hfree hb => ?_) fun _ _ he => by cases he
  by_cases hij : i = j
  · rw [← hij]
    exact ⟨(flag_setNOfSoilDone m i i 0).trans (h.zeroing p i m hlock hm),
      nOfSoilDone_setNOfSoilDone_self m i 0⟩
  · refine (hb (.of_unowned hlock id fun q hq => ?_)).setNOfSoilDone 0 hij
    have hne : q ≠ p := by
      intro rfl
      exact hij (Option.some_inj.mp (hown.symm.trans hq))
    exact hfree.unowned q ((congrArg Pc.owns (Function.update_of_ne hne _ _)).trans hq)

end

theorem laid_inner {argv : Nat → Option CString} {s : State} (h : Staged s) (hl : Laid s)
    {p : Nat} {inner : Inner} (hlock : s.lock = some (p, inner)) {ok : Bool}
    (hraw : inner ≠ .initialise → Raw s → Raw (innerStep argv ok p inner s))
    (hT : Tidy argv p inner s) : Laid (innerStep argv ok p inner s) := by
  have hwithin := h.within p inner hlock
  -- the statements that leave the registry and the owners alone
  have hkeep {s' : State} (hc : ∀ i, ¬ inner.Claims i) (hr : Raw s → Raw s')
      (hobj : s'.object = s.object) (howns : ∀ q, (s'.pc q).owns = (s.pc q).owns)
      (hz : ∀ q i, s'.lock ≠ some (q, .zeroCount i)) : Laid s' :=
    hl.keep hr hobj
      (fun i hi => .of_unowned hlock (hc i) fun q hq => hi.unowned q ((howns q).trans hq)) hz
  cases inner with
  | shmOpen =>
    have hgoto (inner' : Inner) (hz : ∀ i, inner' ≠ .zeroCount i) : Laid (s.goto p inner') :=
      hkeep (fun _ => id) (raw_goto hlock rfl inner') rfl (fun _ => rfl)
        fun _ i he => by cases he; exact hz i rfl
    cases hsome : s.object with
    | none =>
      cases ok <;> simp only [innerStep, hsome]
      · exact hgoto _ fun _ => Inner.noConfusion
      · exact ⟨fun hn => absurd (.inr rfl) hn, fun _ _ _ he => by cases he⟩
    | some m =>
      cases ok <;> simp only [innerStep, hsome] <;> exact hgoto _ fun _ => Inner.noConfusion
  | reopen =>
    cases ok <;> exact hkeep (fun _ => id) (hraw Inner.noConfusion) rfl (fun _ => rfl)
      fun _ _ he => by cases he
  | ftruncate is_init =>
    cases ok <;> exact hkeep (fun _ => id) (hraw Inner.noConfusion) rfl (fun _ => rfl)
      fun _ _ he => by cases he
  | mmap is_init =>
    cases ok <;> cases is_init <;> exact hkeep (fun _ => id) (hraw Inner.noConfusion) rfl
      (fun _ => rfl) fun _ _ he => by cases he
  | initialise =>
    refine ⟨fun _ m i hi hm _ => ?_, fun _ _ _ he => by cases he⟩
    obtain ⟨m', _, rfl⟩ := Option.map_eq_some_iff.mp hm
    exact blank_initialised hi
  | giveOpened =>
    refine hkeep (fun _ => id) (hraw Inner.noConfusion) rfl (owns_update_same ?_)
      fun _ _ he => by cases he
    rw [show s.pc p = .opening from hwithin]
    split <;> rfl
  | giveFailed =>
    refine hkeep (fun _ => id) (hraw Inner.noConfusion) rfl (owns_update_same ?_)
      fun _ _ he => by cases he
    rw [show s.pc p = .opening from hwithin]
    rfl
  | search i =>
    simp only [innerStep]
    split
    · split
      · refine hkeep (fun _ => id) (raw_goto hlock rfl _) rfl (fun _ => rfl) fun _ _ he => ?_
        split at he <;> cases he
      · exact hl
    · exact hkeep (fun _ => id) (raw_goto hlock rfl _) rfl (fun _ => rfl)
        fun _ _ he => by cases he
  | strcpy i =>
    have hr := hraw Inner.noConfusion
    simp only [innerStep] at hr ⊢
    split
    · rename_i c_name hname
      simp only [hname] at hr
      refine hl.write _ hr rfl (fun m j hj _ hfree hb => ?_) fun _ _ he => by cases he
      have hij : i ≠ j := fun he => hfree.unclaimed p (.occupy i) rfl he
      exact (hb (.of_unowned hlock id hfree.unowned)).copyName hij
        fun hlt => hT c_name hname j hlt hj hfree.unowned
    · exact hl
  | occupy i =>
    refine hl.write _ (hraw Inner.noConfusion) rfl (fun m j _ _ hfree hb => ?_)
      fun _ _ he => by cases he
    have hij : i ≠ j := fun he => hfree.unclaimed p (.giveClaimed i) rfl he
    exact (hb (.of_unowned hlock hij hfree.unowned)).setIsEmpty 0 hij
  | giveClaimed i => exact hl.claimed hlock hwithin (hraw Inner.noConfusion)
  | markEmpty i =>
    have hown : (s.pc p).owns = some i := congrArg Pc.owns (show s.pc p = .leaving i from hwithin)
    exact hl.emptied hlock hown (hraw Inner.noConfusion)
  | zeroCount i =>
    have hown : (s.pc p).owns = some i := congrArg Pc.owns (show s.pc p = .leaving i from hwithin)
    exact hl.left hlock hown (hraw Inner.noConfusion)
  | count i =>
    refine hl.write (fun m => setNOfSoilDone i (nOfSoilDone m i + 1) m) (hraw Inner.noConfusion) rfl
      (fun m j hj _ hfree hb => ?_) fun _ _ he => by cases he
    have hij : i ≠ j := by
      intro rfl
      obtain ⟨q, hq⟩ := hT hj
      exact hfree.unowned q hq
    exact (hb (.of_unowned hlock id hfree.unowned)).setNOfSoilDone _ hij
  | _ =>
    exact hkeep (fun _ => id) (hraw Inner.noConfusion) rfl (fun _ => rfl)
      fun _ _ he => by cases he

theorem laid_step {argv : Nat → Option CString} {a : Action} {s : State} (h : Staged s)
    (hl : Laid s) (hC : Completes a s) (hT : OnInner (Tidy argv) a s) : Laid (step argv a s) := by
  have hraw : Raw (step argv a s) ↔ _ := raw_step h hC
  cases a with
  | take p digger =>
    simp only [step] at hraw ⊢
    cases hlock : s.lock with
    | some holder => exact hl
    | none =>
      simp only [hlock] at hraw ⊢
      cases hentry : entry argv p digger (s.pc p) with
      | none => exact hl
      | some next =>
        obtain ⟨pc, inner⟩ := next
        rw [hentry] at hraw
        have hsame (q : Nat) : (Function.update s.pc p pc q).owns = (s.pc q).owns :=
          owns_update_same (entry_owns hentry).1 q
        refine hl.keep (fun hr => hraw.mpr ⟨hr, by simp [executed]⟩) rfl
          (fun i hi => ⟨fun q hq => hi.unowned q ((hsame q).trans hq), fun q e he => ?_⟩)
          fun q i he => ?_
        · rw [hlock] at he
          cases he
        · cases he
          exact (entry_first hentry).2 i rfl
  | inner ok =>
    simp only [step, executed] at hraw ⊢
    cases hlock : s.lock with
    | none => exact hl
    | some holder =>
      rw [hlock] at hraw
      exact laid_inner h hl hlock
        (fun hne hr => hraw.mpr ⟨hr, fun he => hne (Option.some_inj.mp he)⟩) (hT.holder hlock)
  | exit p =>
    simp only [step]
    split
    · rename_i i hpc
      split
      · exact hl
      · have hsame (q : Nat) : (Function.update s.pc p .gone q).owns = (s.pc q).owns :=
          owns_update_same (by rw [hpc]; rfl) q
        exact ⟨fun hr m j hj hm hfree => hl.blank hr m j hj hm
          ⟨fun q hq => hfree.unowned q ((hsame q).trans hq), hfree.unclaimed⟩, hl.zeroing⟩
    · exact hl

/-! ### Runs -/

/-- One initialisation, on the way from raw to not. -/
structure Prepared (t : Traced) : Prop where
  staged : Staged t.state
  laid : Laid t.state
  before : Raw t.state → t.initialisations = 0 ∧ t.through = false
  after : ¬ Raw t.state → t.initialisations = 1

theorem prepared_untraced : Prepared untraced :=
  ⟨staged_initial, ⟨fun hr => absurd (.inl rfl) hr, fun _ _ _ he => by cases he⟩,
    fun _ => ⟨rfl, rfl⟩, fun hr => absurd (.inl rfl) hr⟩

theorem raw_of_initialise {s : State} {a : Action} (h : executed s a = some .initialise) :
    Raw s := by
  cases a with
  | inner ok =>
    obtain ⟨⟨p, inner⟩, hlock, rfl⟩ := Option.map_eq_some_iff.mp h
    exact (raw_iff hlock).mpr (.inr rfl)
  | _ => cases h

theorem not_raw_of_giveOpened {s : State} (hs : Staged s) {a : Action}
    (h : executed s a = some .giveOpened) : ¬ Raw s := by
  cases a with
  | inner ok =>
    obtain ⟨⟨p, inner⟩, hlock, rfl⟩ := Option.map_eq_some_iff.mp h
    intro hr
    rcases (raw_iff hlock).mp hr with hn | hc
    · exact hs.unborn hn p .giveOpened hlock
    · cases hc
  | _ => cases h

theorem prepared_step (argv : Nat → Option CString) (a : Action) (t : Traced) (h : Prepared t)
    (hC : Steady argv a t) : Prepared (tracedStep argv a t) := by
  have hraw : Raw (step argv a t.state) ↔ _ := raw_step h.staged hC.1
  refine ⟨staged_step argv a t.state h.staged, laid_step h.staged h.laid hC.1 hC.2,
    fun hr => ?_, fun hr => ?_⟩
  · obtain ⟨hr, hne⟩ := hraw.mp hr
    obtain ⟨hzero, hthrough⟩ := h.before hr
    have hout : executed t.state a ≠ some .giveOpened :=
      fun he => not_raw_of_giveOpened h.staged he hr
    exact ⟨(if_neg hne).trans hzero, by simp [tracedStep, hthrough, hout]⟩
  · by_cases he : executed t.state a = some .initialise
    · have hzero := (h.before (raw_of_initialise he)).1
      exact (if_pos he).trans (congrArg (· + 1) hzero)
    · have hone := h.after fun hr' => hr (hraw.mpr ⟨hr', he⟩)
      exact (if_neg he).trans hone

theorem initialised_of_prepared {t : Traced} (h : Prepared t) : Initialised t := by
  intro hlock hthrough
  have hr : ¬ Raw t.state := fun hr => by
    have hno := (h.before hr).2
    rw [hthrough] at hno
    cases hno
  refine ⟨h.after hr, ?_⟩
  obtain ⟨m, hm⟩ := Option.ne_none_iff_exists'.mp fun hn => hr (.inl hn)
  refine ⟨m, hm, fun i hi hown => h.laid.blank hr m i hi hm ⟨hown, fun p inner he => ?_⟩⟩
  rw [hlock] at he
  cases he

theorem spares_of_staged {s : State} (h : Staged s) (a : Action) : OnInner Spares a s := by
  cases a with
  | inner ok =>
    cases hlock : s.lock with
    | none => simp only [OnInner, hlock]
    | some holder =>
      simp only [OnInner, hlock]
      intro hinit q
      exact (h.raw ((raw_iff hlock).mpr (.inr (by rw [hinit]; rfl))) q).owns
  | _ => trivial

/-- **The registry has been initialised exactly once whenever an `init_shm` has got
through, and no initialisation erases a company**, in every run in which no creator fails,
no name runs on into a slot that nobody owns, and no digger counts into one. -/
theorem initialised_of_steady (argv : Nat → Option CString) (acts : List Action)
    (h : Along (tracedStep argv) (Steady argv) untraced acts) :
    Throughout (tracedStep argv) Initialised untraced acts ∧
      Along (tracedStep argv) (fun a t => OnInner Spares a t.state) untraced acts :=
  ⟨(throughout_of_along (prepared_step argv) prepared_untraced h).imp
      fun _ => initialised_of_prepared,
    Along.of_invariant (prepared_step argv) (fun a _ ht => spares_of_staged ht.staged a)
      prepared_untraced h⟩

/-! ### Where the creator fails -/

/-- Once the object is there and not its creator's any more, nobody initialises it. -/
theorem never_initialised (argv : Nat → Option CString) {t : Traced} (hs : Staged t.state)
    (hr : ¬ Raw t.state) (acts : List Action) :
    (Interleaving.run (tracedStep argv) t acts).initialisations = t.initialisations := by
  induction acts generalizing t with
  | nil => rfl
  | cons a rest ih =>
    have hC : Completes a t.state := by
      cases a with
      | inner ok =>
        intro ⟨p, inner⟩ hlock hcreates
        refine absurd ((raw_iff hlock).mpr (.inr ?_)) hr
        rcases hcreates with he | he <;> rw [show inner = _ from he] <;> rfl
      | _ => trivial
    have hne : executed t.state a ≠ some .initialise := fun he => hr (raw_of_initialise he)
    refine (ih (staged_step argv a t.state hs) ?_).trans (if_neg hne)
    exact fun hr' => hr ((raw_step hs hC).mp hr').1

/-- A creator that fails spoils every state in which a later `init_shm` has got through. -/
theorem not_initialised_of_failure {argv : Nat → Option CString} {t t' : Traced}
    (h : Prepared t) {p : Nat} {inner : Inner} (hlock : t.state.lock = some (p, inner))
    (hcreates : inner = .ftruncate false ∨ inner = .mmap false) {acts : List Action}
    (hrun : Interleaving.run (tracedStep argv) t (.inner false :: acts) = t')
    (hend : t'.state.lock = none) (hthrough : t'.through = true) : ¬ Initialised t' := by
  have hcreating : inner.creates = true := by rcases hcreates with rfl | rfl <;> rfl
  have hzero := (h.before ((raw_iff hlock).mpr (.inr hcreating))).1
  have hobj : t.state.object ≠ none := fun hn => by
    have hunborn := h.staged.unborn hn p inner hlock
    rcases hcreates with rfl | rfl <;> exact hunborn
  have hfailed : (tracedStep argv (.inner false) t).state = t.state.goto p .giveFailed := by
    simp only [tracedStep, step, hlock]
    rcases hcreates with rfl | rfl <;> rfl
  have hkept : (tracedStep argv (.inner false) t).initialisations = t.initialisations := by
    refine if_neg fun he => ?_
    rw [executed, hlock, Option.map_some, Option.some_inj] at he
    rcases hcreates with rfl | rfl <;> cases he
  have hlost : ¬ Raw (tracedStep argv (.inner false) t).state := fun hr => by
    rw [hfailed] at hr
    rcases (raw_iff (goto_lock _ _ _)).mp hr with hn | hc
    · exact hobj hn
    · cases hc
  have hstaged := staged_step argv (.inner false) t.state h.staged
  have hnever := never_initialised argv hstaged hlost acts
  change (Interleaving.run (tracedStep argv) t (.inner false :: acts)).initialisations = _ at hnever
  rw [hrun, hkept, hzero] at hnever
  intro hinit
  have hone := (hinit hend hthrough).1
  rw [hnever] at hone
  cases hone

/-- Two companies, one of which counts a load and leaves, after an opener that could not map
the object it found. -/
def roundTrip : List Action :=
  opening 0 ++ claiming 0 0 ++ [.take 2 false, .inner true, .inner true, .inner true,
    .inner false, .inner true] ++ opening 1 ++ claiming 1 1 ++ counting 0 ++ leaving 0

/-- A digger that counts for a company still there. -/
def Present (p : Nat) (inner : Inner) (s : State) : Prop :=
  match inner with
  | .count m_id => s.pc p = .running m_id
  | _ => True

instance (p : Nat) : (inner : Inner) → (s : State) → Decidable (Present p inner s)
  | .count m_id, s => inferInstanceAs (Decidable (s.pc p = .running m_id))
  | .shmOpen, _ | .reopen, _ | .ftruncate _, _ | .mmap _, _ | .initialise, _ | .giveOpened, _
  | .giveFailed, _ | .search _, _ | .strcpy _, _ | .occupy _, _ | .giveClaimed _, _
  | .markEmpty _, _ | .zeroCount _, _ | .giveLeft, _ | .giveCounted, _ | .giveLooked, _ =>
    .isTrue trivial

theorem tidy_of_present {p : Nat} {inner : Inner} {s : State} (h : Present p inner s) :
    Tidy (fun _ => some noName) p inner s := by
  cases inner with
  | strcpy i =>
    intro c_name hname j hij _ _
    cases hname
    simp only [nameOffset, sizeofCompany, noName, CString.strlen, List.length_nil]
    omega
  | count i => exact fun _ => ⟨p, by rw [show s.pc p = .running i from h]; rfl⟩
  | _ => trivial

theorem initialised_roundTrip :
    Throughout (tracedStep fun _ => some noName) Initialised untraced roundTrip ∧
      Along (tracedStep fun _ => some noName) (fun a t => OnInner Spares a t.state) untraced
        roundTrip := by
  refine initialised_of_steady (fun _ => some noName) roundTrip ?_
  have hsteady : Along (tracedStep fun _ => some noName)
      (fun a t => Completes a t.state ∧ OnInner Present a t.state) untraced roundTrip := by
    decide +kernel
  exact hsteady.imp fun a t h => ⟨h.1, h.2.imp fun _ _ _ => tidy_of_present⟩

/-- The creator cannot map the object; the next process opens it and goes on. -/
def failedCreator : List Action :=
  [.take 0 false, .inner true, .inner true, .inner false, .inner true] ++ opening 1

/-- It is let through to a registry that nobody has initialised. -/
theorem failedCreator_uninitialised :
    ¬ Initialised (Interleaving.run (tracedStep fun _ => some noName) untraced failedCreator) := by
  intro h
  have hone := (h (by decide +kernel) (by decide +kernel)).1
  revert hone
  decide +kernel

end RealTimeLabs.Registry
