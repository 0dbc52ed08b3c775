import RealTimeLabs.Library.RingLog
import RealTimeLabs.History.Statistics

/-! The gap between the window and the ring shields the reader.

Each array is the ring of `RingLog` with its own number of entries: the samples completed,
and one more where the update under way has stored its field already (`Recording`). The
reader walks the window that it captured (`Copying`). What it copies at an element is
right as long as the updates begun since the capture are no more than the gap and the
elements already passed. -/
namespace RealTimeLabs.History
open RingLog

/-- Samples that have reached an array. -/
def State.written {F : Type} (s : State F) (f : Field) : Nat :=
  match s.writer with
  | .clock => s.completed
  | .write g _ => if f.index < g.index then s.completed + 1 else s.completed
  | .advance => s.completed + 1

/-- Iterations whose clock reading is done. -/
def State.clocked {F : Type} (s : State F) : Nat :=
  match s.writer with
  | .clock => s.completed
  | _ => s.completed + 1

/-- The element of a field is copied. -/
def ReaderPc.copied (f : Field) (k : Nat) : ReaderPc → Prop
  | .capture => False
  | .test _ _ idx => k < idx
  | .copy _ _ idx g => k < idx ∨ k = idx ∧ f.index < g.index
  | .advance _ _ idx => k ≤ idx
  | .done idx => k < idx

variable {F : Type}

theorem State.completed_le_written (s : State F) (f : Field) : s.completed ≤ s.written f := by
  unfold State.written
  split
  · exact Nat.le_refl _
  · split <;> omega
  · omega

theorem State.written_le_begun (s : State F) (f : Field) : s.written f ≤ s.begun := by
  unfold State.written State.begun
  cases s.writer with
  | clock => exact Nat.le_refl _
  | write g i =>
    change (if f.index < g.index then _ else _) ≤ (if g.index = 0 then _ else _)
    split <;> split <;> omega
  | advance => exact Nat.le_refl _

/-- The writer's invariant: index, clock and arrays after the samples recorded so far. -/
structure Recording (r : Readings) (s : State F) : Prop where
  start : s.history.arrayStartIndex.toNat = s.completed % historyCyclicArraySize
  clock : s.clock = clockAt r s.clocked
  slot : ∀ f i, s.writer = .write f i →
    i = RingLog.slot historyCyclicArraySize historySize s.completed
  arrays : ∀ f, s.history.arrays f =
    contents historyCyclicArraySize historySize f.zero (sample r f) (s.written f)

/-- The reader's locals: `captured` samples in, `idx` elements on. -/
structure Walking (n : Nat) (start : UInt32) (i idx : Nat) : Prop where
  start : start.toNat = n % historyCyclicArraySize
  index : i = (n + idx) % historyCyclicArraySize

/-- The reader is inside its arrays, and done after exactly `HISTORY_SIZE` elements. -/
def ReaderPc.inRange (n : Nat) : ReaderPc → Prop
  | .capture => True
  | .test start i idx => Walking n start i idx ∧ idx ≤ historySize
  | .copy start i idx _ => Walking n start i idx ∧ idx < historySize
  | .advance start i idx => Walking n start i idx ∧ idx < historySize
  | .done idx => idx = historySize

/-- The reader's invariant. -/
structure Copying (r : Readings) (c : Cast F) (s : State F) : Prop where
  recording : Recording r s
  captured : s.captured ≤ s.completed
  reader : s.reader.inRange s.captured
  copies : ∀ f k, s.reader.copied f k →
    s.begunAt f k ≤ s.captured + (historyCyclicArraySize - historySize) + k →
    s.copies f k = c.toFloat f (wanted r f s.captured k)

/-! ### The writer's steps -/

theorem recording_initial (r : Readings) (garbage : Field → Nat → F) :
    Recording r (initial r garbage) :=
  ⟨rfl, rfl, fun _ _ h => (by cases h), fun _ => rfl⟩

/-- The index arithmetic of both functions, in which nothing overflows. -/
theorem index_add {x : UInt32} {n : Nat} (h : x.toNat = n % historyCyclicArraySize) (k : Nat)
    (hk : k ≤ historySize) :
    ((x + UInt32.ofNat k) % UInt32.ofNat historyCyclicArraySize).toNat =
      (n + k) % historyCyclicArraySize := by
  have hN : (UInt32.ofNat historyCyclicArraySize).toNat = historyCyclicArraySize := rfl
  have hk' : k ≤ 800 := hk
  rw [UInt32.toNat_mod, hN, UInt32.toNat_add, UInt32.toNat_ofNat', h]
  simp only [historyCyclicArraySize]
  rw [Nat.mod_eq_of_lt (show k < 2 ^ 32 by omega),
    Nat.mod_eq_of_lt (show n % 1200 + k < 2 ^ 32 by omega)]
  omega

/-- A store of the present sample to one array appends it there. -/
theorem written_write (s : State F) (f g : Field) :
    (if f = g then s.completed + 1 else if f.index < g.index then s.completed + 1
      else s.completed) =
    match g.next with
    | some g' => if f.index < g'.index then s.completed + 1 else s.completed
    | none => s.completed + 1 := by
  cases f <;> cases g <;> rfl

theorem recording_writerStep (r : Readings) (s : State F) (h : Recording r s) :
    Recording r (writerStep r s) := by
  cases hpc : s.writer with
  | clock =>
    have hslot := index_add h.start historySize (Nat.le_refl _)
    simp only [writerStep, hpc]
    refine ⟨h.start, ?_, fun f i hw => ?_, fun f => ?_⟩
    · have hclock := h.clock
      simp only [State.clocked, hpc] at hclock
      simp only [State.clocked, clockAt, hclock]
    · cases hw
      exact hslot
    · have harr := h.arrays f
      simp only [State.written, hpc] at harr
      rw [harr]
      cases f <;> rfl
  | write g i =>
    have hi := h.slot g i hpc
    have hclock := h.clock
    simp only [State.clocked, hpc] at hclock
    have hstored (f : Field) : (s.history.write g i (recorded r s.completed s.clock g)).arrays f =
        contents historyCyclicArraySize historySize f.zero (sample r f)
          (if f = g then s.completed + 1 else s.written f) := by
      by_cases hf : f = g
      · subst hf
        have harr := h.arrays f
        simp only [State.written, hpc, Nat.lt_irrefl, if_false] at harr
        rw [if_pos rfl, ← update_contents, ← hi, ← harr, sample, ← hclock]
        simp only [MotorHistory.write, Function.update_self]
      · rw [if_neg hf, ← h.arrays f]
        exact Function.update_of_ne hf _ _
    simp only [State.written, hpc, written_write] at hstored
    simp only [writerStep, hpc]
    cases hnext : g.next with
    | some g' =>
      simp only [hnext] at hstored
      exact ⟨h.start, hclock, fun f j hw => by cases hw; exact hi, hstored⟩
    | none =>
      simp only [hnext] at hstored
      exact ⟨h.start, hclock, fun f j hw => (by cases hw), hstored⟩
  | advance =>
    have hnext := index_add h.start 1 (by decide)
    simp only [writerStep, hpc]
    refine ⟨hnext, ?_, fun f i hw => (by cases hw), fun f => ?_⟩
    · have hclock := h.clock
      simp only [State.clocked, hpc] at hclock
      exact hclock
    · have harr := h.arrays f
      simp only [State.written, hpc] at harr
      exact harr

theorem recording_readerStep (r : Readings) (c : Cast F) (s : State F) (h : Recording r s) :
    Recording r (readerStep c s) := by
  unfold readerStep
  split
  case h_2 => split <;> exact ⟨h.start, h.clock, h.slot, h.arrays⟩
  all_goals exact ⟨h.start, h.clock, h.slot, h.arrays⟩

/-! ### The reader's steps -/

theorem walking_next {n : Nat} {start : UInt32} {i idx : Nat} (h : Walking n start i idx) :
    Walking n start ((i + 1) % historyCyclicArraySize) (idx + 1) :=
  ⟨h.start, by rw [h.index, Nat.mod_add_mod, Nat.add_assoc]⟩

/-- The loop's test recognises the end of the window, and nothing before it. -/
theorem test_iff {n : Nat} {start : UInt32} {i idx : Nat} (h : Walking n start i idx)
    (hidx : idx ≤ historySize) :
    i ≠ ((start + UInt32.ofNat historySize) % UInt32.ofNat historyCyclicArraySize).toNat ↔
      idx < historySize := by
  rw [index_add h.start historySize (Nat.le_refl _), h.index]
  constructor
  · intro hne
    exact Nat.lt_of_le_of_ne hidx fun he => hne (by rw [he])
  · intro hlt
    exact (mod_ne_of_lt (show n + idx < n + historySize by omega)
      (by simp only [historySize, historyCyclicArraySize]; omega)).symm

/-- What the reader finds in an array, while the updates begun leave the element alone. -/
theorem Recording.finds {r : Readings} {s : State F} (h : Recording r s) {f : Field} {n k : Nat}
    (hk : k < historySize) (hn : n ≤ s.completed)
    (hb : s.begun ≤ n + (historyCyclicArraySize - historySize) + k) :
    s.history.arrays f ((n + k) % historyCyclicArraySize) = wanted r f n k := by
  rw [h.arrays f]
  exact contents_window hk (Nat.le_trans hn (s.completed_le_written f))
    (Nat.le_trans (s.written_le_begun f) hb) (by decide)

theorem copying_initial (r : Readings) (c : Cast F) (garbage : Field → Nat → F) :
    Copying r c (initial r garbage) :=
  ⟨recording_initial r garbage, Nat.le_refl _, trivial, fun _ _ h => by cases h⟩

theorem copying_writerStep (r : Readings) (c : Cast F) (s : State F) (h : Copying r c s) :
    Copying r c (writerStep r s) := by
  have hrec := recording_writerStep r s h.recording
  cases hpc : s.writer with
  | clock =>
    simp only [writerStep, hpc] at hrec ⊢
    exact ⟨hrec, h.captured, h.reader, h.copies⟩
  | write g i =>
    simp only [writerStep, hpc] at hrec ⊢
    exact ⟨hrec, h.captured, h.reader, h.copies⟩
  | advance =>
    simp only [writerStep, hpc] at hrec ⊢
    exact ⟨hrec, Nat.le_succ_of_le h.captured, h.reader, h.copies⟩

/-- After a field's copy, the copied elements are those before and this one. -/
theorem copied_next {f g : Field} {k : Nat} {start : UInt32} {i idx : Nat}
    (h : ReaderPc.copied f k (match g.next with
      | some g' => .copy start i idx g'
      | none => .advance start i idx)) :
    f = g ∧ k = idx ∨ ReaderPc.copied f k (.copy start i idx g) := by
  cases f <;> cases g <;> simp_all [ReaderPc.copied, Field.next, Field.index] <;> omega

theorem update_entry_of_ne {β : Type} (m : Field → Nat → β) {f g : Field} {k idx : Nat} (v : β)
    (h : ¬ (f = g ∧ k = idx)) :
    Function.update m g (Function.update (m g) idx v) f k = m f k := by
  by_cases hf : f = g
  · subst hf
    rw [Function.update_self, Function.update_of_ne fun hk => h ⟨rfl, hk⟩]
  · rw [Function.update_of_ne hf]

/-- What is known of a reader that has captured its index, and of each element it has copied. -/
structure Reading (n : Nat) (P : Field → Nat → Nat → F → Prop) (s : State F) : Prop where
  captured : s.reader ≠ .capture
  reader : s.reader.inRange n
  copies : ∀ f k, s.reader.copied f k → P f k (s.begunAt f k) (s.copies f k)

theorem reading_readerStep (c : Cast F) {n : Nat} {P : Field → Nat → Nat → F → Prop} {s : State F}
    (h : Reading n P s) (hcopy : ∀ start i idx g, s.reader = .copy start i idx g →
      P g idx s.begun (c.toFloat g (s.history.arrays g i))) : Reading n P (readerStep c s) := by
  obtain ⟨hcaptured, hr, hcopies⟩ := h
  cases hpc : s.reader with
  | capture => exact absurd hpc hcaptured
  | test start i idx =>
    rw [hpc] at hr hcopies
    simp only [readerStep, hpc]
    by_cases hlt : idx < historySize
    · rw [if_pos ((test_iff hr.1 hr.2).mpr hlt)]
      refine ⟨ReaderPc.noConfusion, ⟨hr.1, hlt⟩, fun f k hk => hcopies f k ?_⟩
      exact hk.resolve_right fun he => absurd he.2 (Nat.not_lt_zero _)
    · rw [if_neg fun hne => hlt ((test_iff hr.1 hr.2).mp hne)]
      exact ⟨ReaderPc.noConfusion, Nat.le_antisymm hr.2 (Nat.le_of_not_lt hlt), hcopies⟩
  | copy start i idx g =>
    have hnew := hcopy start i idx g hpc
    rw [hpc] at hr hcopies
    simp only [readerStep, hpc]
    refine ⟨?_, ?_, fun f k hk => ?_⟩
    · cases g.next <;> exact ReaderPc.noConfusion
    · cases hg : g.next with
      | some g' => exact hr
      | none => exact hr
    · by_cases hf : f = g ∧ k = idx
      · obtain ⟨rfl, rfl⟩ := hf
        simp only [Function.update_self]
        exact hnew
      · have hold := hcopies f k ((copied_next hk).resolve_left hf)
        rw [← update_entry_of_ne s.begunAt s.begun hf,
          ← update_entry_of_ne s.copies (c.toFloat g (s.history.arrays g i)) hf] at hold
        exact hold
  | advance start i idx =>
    rw [hpc] at hr hcopies
    simp only [readerStep, hpc]
    exact ⟨ReaderPc.noConfusion, ⟨walking_next hr.1, hr.2⟩,
      fun f k hk => hcopies f k (Nat.le_of_lt_succ hk)⟩
  | done idx =>
    simp only [readerStep, hpc]
    exact ⟨hcaptured, hr, hcopies⟩

/-- Only the capture changes what has been captured. -/
theorem captured_readerStep (c : Cast F) {s : State F} (h : s.reader ≠ .capture) :
    (readerStep c s).captured = s.captured := by
  unfold readerStep
  split
  case h_1 hpc => exact absurd hpc h
  case h_2 => split <;> rfl
  all_goals rfl

theorem completed_readerStep (c : Cast F) (s : State F) :
    (readerStep c s).completed = s.completed := by
  unfold readerStep
  split
  case h_2 => split <;> rfl
  all_goals rfl

theorem copying_readerStep (r : Readings) (c : Cast F) (s : State F) (h : Copying r c s) :
    Copying r c (readerStep c s) := by
  have hrec := recording_readerStep r c s h.recording
  by_cases hpc : s.reader = .capture
  · simp only [readerStep, hpc] at hrec ⊢
    refine ⟨hrec, Nat.le_refl _, ⟨⟨h.recording.start, ?_⟩, Nat.zero_le _⟩, fun f k hk => ?_⟩
    · exact h.recording.start
    · exact absurd hk (Nat.not_lt_zero k)
  · have hbefore : Reading s.captured (fun f k begun v =>
        begun ≤ s.captured + (historyCyclicArraySize - historySize) + k →
          v = c.toFloat f (wanted r f s.captured k)) s := ⟨hpc, h.reader, h.copies⟩
    have hreading := reading_readerStep c hbefore (by
      intro start i idx g hcopy hb
      have hr := h.reader
      rw [hcopy] at hr
      rw [hr.1.index, h.recording.finds hr.2 h.captured hb])
    have hcaptured := captured_readerStep c hpc
    refine ⟨hrec, ?_, ?_, ?_⟩
    · rw [hcaptured, completed_readerStep]
      exact h.captured
    · rw [hcaptured]
      exact hreading.reader
    · rw [hcaptured]
      exact hreading.copies

theorem copying_step (r : Readings) (c : Cast F) (a : Action) (s : State F)
    (h : Copying r c s) : Copying r c (step r c a s) := by
  cases a with
  | writer => exact copying_writerStep r c s h
  | reader => exact copying_readerStep r c s h

theorem copying_run (r : Readings) (c : Cast F) (garbage : Field → Nat → F)
    (acts : List Action) : Copying r c (run r c (initial r garbage) acts) :=
  Interleaving.run_invariant (copying_step r c) (copying_initial r c garbage) acts

/-! ### The number of steps -/

/-- Statements that the reader has executed: six for each element, and the capture and the
last test around them. -/
def ReaderPc.progress : ReaderPc → Nat
  | .capture => 0
  | .test _ _ idx => 6 * idx + 1
  | .copy _ _ idx f => 6 * idx + f.index + 2
  | .advance _ _ idx => 6 * idx + 6
  | .done idx => 6 * idx + 2

/-- The reader's statements, over the whole of `generate_html_file`'s copying. -/
def readerSteps : Nat := 6 * historySize + 2

theorem progress_le {n : Nat} {pc : ReaderPc} (h : pc.inRange n) : pc.progress ≤ readerSteps := by
  cases pc with
  | capture => exact Nat.zero_le _
  | test start i idx =>
    have := h.2
    simp only [ReaderPc.progress, readerSteps]
    omega
  | copy start i idx f =>
    have := h.2
    cases f <;> simp only [ReaderPc.progress, readerSteps, Field.index] <;> omega
  | advance start i idx =>
    have := h.2
    simp only [ReaderPc.progress, readerSteps]
    omega
  | done idx =>
    rw [show idx = historySize from h]
    exact Nat.le_refl _

theorem done_of_progress {n : Nat} {pc : ReaderPc} (h : pc.inRange n)
    (hp : pc.progress = readerSteps) : pc = .done historySize := by
  cases pc with
  | done idx => rw [show idx = historySize from h]
  | capture => cases hp
  | test start i idx =>
    have := h.2
    simp only [ReaderPc.progress, readerSteps] at hp
    omega
  | copy start i idx f =>
    have := h.2
    cases f <;> simp only [ReaderPc.progress, readerSteps, Field.index] at hp <;> omega
  | advance start i idx =>
    have := h.2
    simp only [ReaderPc.progress, readerSteps] at hp
    omega

/-- Every reader step before the end is progress, whatever the writer does. -/
theorem progress_readerStep (c : Cast F) {s : State F} {n n' : Nat} (hr : s.reader.inRange n)
    (hr' : (readerStep c s).reader.inRange n') :
    (readerStep c s).reader.progress = min (s.reader.progress + 1) readerSteps := by
  have hle := progress_le hr'
  cases hpc : s.reader with
  | done idx =>
    rw [hpc] at hr
    simp only [readerStep, hpc, ReaderPc.progress, readerSteps, show idx = historySize from hr]
    omega
  | test start i idx =>
    rw [hpc] at hr
    simp only [readerStep, hpc] at hle ⊢
    by_cases hlt : idx < historySize
    · rw [if_pos ((test_iff hr.1 hr.2).mpr hlt)] at hle ⊢
      exact (Nat.min_eq_left hle).symm
    · rw [if_neg fun hne => hlt ((test_iff hr.1 hr.2).mp hne)] at hle ⊢
      exact (Nat.min_eq_left hle).symm
  | copy start i idx g =>
    simp only [readerStep, hpc] at hle ⊢
    cases g <;> exact (Nat.min_eq_left hle).symm
  | capture =>
    simp only [readerStep, hpc] at hle ⊢
    exact (Nat.min_eq_left hle).symm
  | advance start i idx =>
    simp only [readerStep, hpc, ReaderPc.progress] at hle ⊢
    omega

theorem progress_run (r : Readings) (c : Cast F) (s : State F) (h : Copying r c s)
    (acts : List Action) :
    (run r c s acts).reader.progress =
      min (s.reader.progress + acts.count .reader) readerSteps := by
  induction acts generalizing s with
  | nil => exact (Nat.min_eq_left (progress_le h.reader)).symm
  | cons a rest ih =>
    have hrest := ih (step r c a s) (copying_step r c a s h)
    cases a with
    | writer =>
      have hsame : (writerStep r s).reader = s.reader := by
        unfold writerStep
        split <;> rfl
      rw [List.count_cons_of_ne (by decide), ← hsame]
      exact hrest
    | reader =>
      have hone := progress_readerStep c h.reader (copying_readerStep r c s h).reader
      rw [List.count_cons_self]
      rw [show (step r c .reader s).reader.progress = _ from hone] at hrest
      change (run r c (step r c .reader s) rest).reader.progress = _
      omega

/-! ### The page -/

/-- What one page holds of the history at a state of its copying. -/
structure Page (r : Readings) (c : Cast F) (s : State F) : Prop where
  /-- Every element copied in time is that of the sample it should be. -/
  right : ∀ f k, s.reader.copied f k →
    s.begunAt f k ≤ s.captured + (historyCyclicArraySize - historySize) + k →
    s.copies f k = c.toFloat f (wanted r f s.captured k)
  /-- No index leaves its array. -/
  reader : ∀ start i idx f, s.reader = .copy start i idx f →
    i < historyCyclicArraySize ∧ idx < historySize
  writer : ∀ f i, s.writer = .write f i → i < historyCyclicArraySize
  /-- The loop ends after `HISTORY_SIZE` elements. -/
  exact : ∀ idx, s.reader = .done idx → idx = historySize

/-- **The page shows the samples that it captured**, as far as the writer leaves it time:
after every interleaving of the two tasks, an element copied when at most
`HISTORY_CYCLIC_ARRAY_SIZE - HISTORY_SIZE + k` updates had begun since the capture is that
of sample `n - HISTORY_SIZE + k`, and the copying takes `HISTORY_SIZE` iterations in
`readerSteps` statements of the reader. -/
theorem page_shows_window (r : Readings) (c : Cast F) (garbage : Field → Nat → F)
    (acts : List Action) :
    Page r c (run r c (initial r garbage) acts) ∧
      (acts.count .reader < readerSteps →
        ∀ idx, (run r c (initial r garbage) acts).reader ≠ .done idx) ∧
      (readerSteps ≤ acts.count .reader →
        (run r c (initial r garbage) acts).reader = .done historySize) := by
  have h := copying_run r c garbage acts
  have hp := progress_run r c _ (copying_initial r c garbage) acts
  have hzero : (initial r garbage).reader.progress = 0 := rfl
  rw [hzero, Nat.zero_add] at hp
  refine ⟨⟨h.copies, fun start i idx f hpc => ?_, fun f i hpc => ?_, fun idx hpc => ?_⟩,
    fun hlt idx hpc => ?_, fun hle => ?_⟩
  · have hr := h.reader
    rw [hpc] at hr
    exact ⟨by rw [hr.1.index]; exact Nat.mod_lt _ (by decide), hr.2⟩
  · rw [h.recording.slot f i hpc]
    exact slot_lt (by decide) _
  · have hr := h.reader
    rw [hpc] at hr
    exact hr
  · have hr := h.reader
    rw [hpc] at hr hp
    rw [show idx = historySize from hr] at hp
    change readerSteps = _ at hp
    omega
  · exact done_of_progress h.reader (by rw [hp]; exact Nat.min_eq_right hle)

end RealTimeLabs.History
