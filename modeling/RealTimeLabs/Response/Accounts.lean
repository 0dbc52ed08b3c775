import RealTimeLabs.Response.Tasks

/-! The two histograms (`timer_isr`, `ServiceTask`).

Each map is written by one actor only, so every reading that is counted stays counted, and
the maps hold how many of the readings so far were of each microsecond. Each interrupt is
handled once, unless it was raised while the last one was still in the register; each one
handled gives the semaphore once, and the service task answers them in their order
(`accounts_run`). What is computed is the time since the timer's last zero, so it is the time
since the interrupt if the answer came within a period, and too short otherwise; it is counted if
it is less than `TIME_MAP_SIZE` microseconds, and nowhere if it is not (`latency_run`). -/
namespace RealTimeLabs.Response

variable {T : Timer}

/-- Whether what is read at a moment is counted at `j`. -/
def Timer.countedAt (T : Timer) (j : Nat) (tick : Nat) : Bool :=
  (microseconds (T.counterVal tick)).toNat = j

/-- The interrupt that no handler has counted yet. -/
def State.pending (s : State T) : Option Nat :=
  match s.isr with
  | .give | .clear => none
  | _ => s.interrupt

/-- The handler has counted an interrupt, and not given the semaphore yet. -/
def IsrPc.toGive : IsrPc T → Nat
  | .give => 1
  | _ => 0

/-- The service task has taken the semaphore, and not counted its reading yet. -/
def ServicePc.inHand : ServicePc T → Nat
  | .read | .count _ => 1
  | _ => 0

/-! ### What one step can do -/

theorem increment_eq {map : Fin timeMapSize → UInt32} {time : UInt32} (j : Fin timeMapSize) :
    increment map time j = map j + if time.toNat = j.val then 1 else 0 := by
  unfold increment
  split
  · rename_i h
    by_cases hj : time.toNat = j.val
    · have : j = ⟨time.toNat, h⟩ := Fin.ext hj.symm
      rw [this, Function.update_self, if_pos rfl]
    · rw [Function.update_of_ne (fun he => hj (congrArg Fin.val he).symm), if_neg hj,
        UInt32.add_zero]
  · rename_i h
    have hj : time.toNat ≠ j.val := fun he => h (by rw [he]; exact j.isLt)
    rw [if_neg hj, UInt32.add_zero]

/-- One statement of the monitor prints, and may set `m_end`. -/
theorem monitorStep_elim {P : State T → Prop} (measurements : Int32) (s : State T)
    (h : ∀ printed monitor mEnd,
      P { s with printed := printed, monitor := monitor, mEnd := mEnd }) :
    P (monitorStep measurements s) := by
  unfold monitorStep
  split <;> (try split) <;> exact h _ _ _

/-- `CreateTasks` starts and stops the others, and counts nothing. -/
theorem mainStep_elim {P : State T → Prop} (s : State T) (same : P s)
    (spawnService : s.main = .spawnService → P { s with service := .test, main := .spawnMonitor })
    (others : ∀ counting intEnabled monitor main, main ≠ .spawnService → P { s with
      counting := counting, intEnabled := intEnabled, monitor := monitor, main := main })
    (delete : s.main = .delete → P { s with service := .gone, main := .returned }) :
    P (mainStep s) := by
  unfold mainStep
  split
  · rename_i h
    exact spawnService h
  · exact others _ _ _ _ fun hm => by cases hm
  · split
    · exact others _ _ _ _ fun hm => by cases hm
    · exact same
  · exact others _ _ _ _ fun hm => by cases hm
  · exact others _ _ _ _ fun hm => by cases hm
  · rename_i h
    exact delete h
  · exact same

theorem tickStep_elim {P : State T → Prop} (s : State T) (same : P s)
    (raise : T.period ∣ s.ticks + 1 → s.interrupt = none →
      P { s with ticks := s.ticks + 1, interrupt := some (s.ticks + 1) })
    (miss : T.period ∣ s.ticks + 1 → ∀ raised, s.interrupt = some raised →
      P { s with ticks := s.ticks + 1, missed := s.missed + 1 })
    (plain : ¬ T.period ∣ s.ticks + 1 → P { s with ticks := s.ticks + 1 }) : P (tickStep s) := by
  unfold tickStep
  split
  · split
    · rename_i hwrap
      split
      · rename_i hclear
        exact raise hwrap hclear
      · rename_i raised hset
        exact miss hwrap raised hset
    · rename_i hwrap
      exact plain hwrap
  · exact same

theorem enterStep_elim {P : State T → Prop} (s : State T) (same : P s)
    (enter : ∀ raised, s.isr = .idle → s.interrupt = some raised →
      P { s with isr := .read raised }) : P (enterStep s) := by
  unfold enterStep
  split
  · rename_i raised hi hr
    split
    · exact enter raised hi hr
    · exact same
  · exact same

/-! ### When things happened -/

/-- The order in time of what has been raised and counted. -/
structure Timed (s : State T) : Prop where
  pending_le : ∀ r ∈ s.pending, r ≤ s.ticks
  pending_dvd : ∀ r ∈ s.pending, T.period ∣ r
  /-- What is pending was raised after everything that has been counted. -/
  pending_last : ∀ r ∈ s.pending, ∀ a ∈ s.handled, a.raised < r
  reading : ∀ r, s.isr = .read r → s.interrupt = some r
  counting : ∀ r reading, s.isr = .count r reading →
    s.interrupt = some r ∧ r ≤ reading.tick ∧ reading.tick ≤ s.ticks
  answering : s.isr = .give ∨ s.isr = .clear → s.interrupt.isSome
  handled : ∀ a ∈ s.handled, T.period ∣ a.raised ∧ a.raised ≤ a.read ∧ a.read ≤ s.ticks
  sorted : s.handled.Pairwise fun a b => a.raised < b.raised

theorem timed_initial (b : Bench T) : Timed (initial b) where
  pending_le := b.raised_le
  pending_dvd := b.raised_dvd
  pending_last _ _ _ h := absurd h List.not_mem_nil
  reading _ h := by cases h
  counting _ _ h := by cases h
  answering h := by rcases h with h | h <;> cases h
  handled _ h := absurd h List.not_mem_nil
  sorted := .nil

/-- Later, with everything as it was. -/
theorem Timed.later {s : State T} (h : Timed s) :
    Timed { s with ticks := s.ticks + 1 } where
  pending_le r hr := Nat.le_succ_of_le (h.pending_le r hr)
  pending_dvd := h.pending_dvd
  pending_last := h.pending_last
  reading := h.reading
  counting r reading hpc :=
    ⟨(h.counting r reading hpc).1, (h.counting r reading hpc).2.1,
      Nat.le_succ_of_le (h.counting r reading hpc).2.2⟩
  answering := h.answering
  handled a ha := ⟨(h.handled a ha).1, (h.handled a ha).2.1, Nat.le_succ_of_le (h.handled a ha).2.2⟩
  sorted := h.sorted

theorem pending_of_idle {s : State T} (h : s.isr = .idle) : s.pending = s.interrupt := by
  rw [State.pending, h]

/-- With the register clear the handler is not running. -/
theorem Timed.idle_of_clear {s : State T} (h : Timed s) (hclear : s.interrupt = none) :
    s.isr = .idle := by
  cases hpc : s.isr with
  | idle => rfl
  | read r =>
    have := h.reading r hpc
    rw [hclear] at this
    cases this
  | count r reading =>
    have := (h.counting r reading hpc).1
    rw [hclear] at this
    cases this
  | give =>
    have := h.answering (.inl hpc)
    rw [hclear] at this
    cases this
  | clear =>
    have := h.answering (.inr hpc)
    rw [hclear] at this
    cases this

theorem Timed.raise {s : State T} (h : Timed s) (hwrap : T.period ∣ s.ticks + 1)
    (hclear : s.interrupt = none) :
    Timed { s with ticks := s.ticks + 1, interrupt := some (s.ticks + 1) } := by
  have hidle := h.idle_of_clear hclear
  have hpending : State.pending { s with ticks := s.ticks + 1, interrupt := some (s.ticks + 1) } =
      some (s.ticks + 1) := pending_of_idle hidle
  refine ⟨fun r hr => ?_, fun r hr => ?_, fun r hr a ha => ?_, fun r hr => ?_, fun r _ hr => ?_,
    fun _ => rfl, h.later.handled, h.sorted⟩
  · rw [hpending, Option.mem_some_iff] at hr
    exact hr ▸ Nat.le_refl _
  · rw [hpending, Option.mem_some_iff] at hr
    exact hr ▸ hwrap
  · rw [hpending, Option.mem_some_iff] at hr
    obtain ⟨_, hle, hread⟩ := h.handled a ha
    omega
  · rw [show s.isr = .read r from hr] at hidle
    cases hidle
  · rw [show s.isr = .count r _ from hr] at hidle
    cases hidle

theorem Timed.enter {s : State T} (h : Timed s) {raised : Nat} (hidle : s.isr = .idle)
    (hset : s.interrupt = some raised) : Timed { s with isr := .read raised } where
  pending_le r hr := h.pending_le r (by rw [pending_of_idle hidle]; exact hr)
  pending_dvd r hr := h.pending_dvd r (by rw [pending_of_idle hidle]; exact hr)
  pending_last r hr := h.pending_last r (by rw [pending_of_idle hidle]; exact hr)
  reading r hr := by cases hr; exact hset
  counting _ _ hr := by cases hr
  answering hr := by rcases hr with hr | hr <;> cases hr
  handled := h.handled
  sorted := h.sorted

theorem Timed.read {s : State T} (h : Timed s) {raised : Nat} (hpc : s.isr = .read raised) :
    Timed { s with isr := .count raised (.at s.ticks) } := by
  have hset := h.reading raised hpc
  have hpending : s.pending = s.interrupt := by rw [State.pending, hpc]
  constructor
  case pending_le => exact hpending ▸ h.pending_le
  case pending_dvd => exact hpending ▸ h.pending_dvd
  case pending_last => exact hpending ▸ h.pending_last
  case reading => exact fun _ hr => by cases hr
  case counting =>
    intro r reading hr
    cases hr
    exact ⟨hset, h.pending_le raised (hpending.trans hset), Nat.le_refl _⟩
  case answering => exact fun hr => hr.elim (fun hr => by cases hr) fun hr => by cases hr
  case handled => exact h.handled
  case sorted => exact h.sorted

/-- The interrupt that is counted is the latest so far. -/
theorem Timed.count {s : State T} (h : Timed s) {raised : Nat} {r : Reading T}
    (hpc : s.isr = .count raised r) (map : Fin timeMapSize → UInt32) :
    Timed { s with
      mTimeIsrMap := map, handled := s.handled ++ [⟨raised, r.tick⟩], isr := .give } := by
  obtain ⟨hset, hle, htick⟩ := h.counting raised r hpc
  have hpending : s.pending = some raised := by rw [State.pending, hpc]; exact hset
  constructor
  case pending_le => exact fun r hr => by cases hr
  case pending_dvd => exact fun r hr => by cases hr
  case pending_last => exact fun r hr => by cases hr
  case reading => exact fun _ hr => by cases hr
  case counting => exact fun _ _ hr => by cases hr
  case answering =>
    intro _
    rw [hset]
    rfl
  case handled =>
    intro a ha
    rcases List.mem_append.mp ha with ha | ha
    · exact h.handled a ha
    · rw [List.mem_singleton.mp ha]
      exact ⟨h.pending_dvd raised hpending, hle, htick⟩
  case sorted =>
    refine List.pairwise_append.mpr ⟨h.sorted, List.pairwise_singleton .., fun a ha b hb => ?_⟩
    rw [List.mem_singleton.mp hb]
    exact h.pending_last raised hpending a ha

/-- The handler after it has counted. -/
theorem Timed.counted {s s' : State T} (h : Timed s) (hticks : s'.ticks = s.ticks)
    (hhandled : s'.handled = s.handled) (hpending : s'.pending = none)
    (hanswering : s'.isr = .give ∨ s'.isr = .clear → s'.interrupt.isSome)
    (hread : ∀ r, s'.isr ≠ .read r) (hcount : ∀ r reading, s'.isr ≠ .count r reading) :
    Timed s' where
  pending_le r hr := by rw [hpending] at hr; cases hr
  pending_dvd r hr := by rw [hpending] at hr; cases hr
  pending_last r hr := by rw [hpending] at hr; cases hr
  reading r hr := absurd hr (hread r)
  counting r reading hr := absurd hr (hcount r reading)
  answering := hanswering
  handled := by rw [hhandled, hticks]; exact h.handled
  sorted := by rw [hhandled]; exact h.sorted

theorem Timed.isr {s : State T} (h : Timed s) : Timed (isrStep s) := by
  unfold isrStep
  split
  · exact h
  · rename_i hpc
    exact h.read hpc
  · rename_i hpc
    exact h.count hpc _
  · rename_i hpc
    refine h.counted rfl rfl rfl (fun _ => h.answering (.inl hpc)) ?_ ?_
    · exact fun _ hr => by cases hr
    · exact fun _ _ hr => by cases hr
  · refine h.counted rfl rfl rfl ?_ ?_ ?_
    · exact fun hr => hr.elim (fun hr => by cases hr) fun hr => by cases hr
    · exact fun _ hr => by cases hr
    · exact fun _ _ hr => by cases hr

/-- Nothing of this is about the tasks. -/
theorem Timed.congr {s s' : State T} (h : Timed s) (hticks : s'.ticks = s.ticks)
    (hinterrupt : s'.interrupt = s.interrupt) (hisr : s'.isr = s.isr)
    (hhandled : s'.handled = s.handled) : Timed s' := by
  have hpending : s'.pending = s.pending := by rw [State.pending, State.pending, hisr, hinterrupt]
  refine ⟨?_, ?_, ?_, ?_, ?_, ?_, ?_, ?_⟩
  · rw [hpending, hticks]; exact h.pending_le
  · rw [hpending]; exact h.pending_dvd
  · rw [hpending, hhandled]; exact h.pending_last
  · rw [hisr, hinterrupt]; exact h.reading
  · rw [hisr, hinterrupt, hticks]; exact h.counting
  · rw [hisr, hinterrupt]; exact h.answering
  · rw [hhandled, hticks]; exact h.handled
  · rw [hhandled]; exact h.sorted

theorem timed_step (measurements : Int32) (a : Action) (s : State T) (h : Timed s) :
    Timed (step measurements a s) := by
  cases a with
  | tick =>
    exact tickStep_elim s h (fun hwrap hclear => h.raise hwrap hclear)
      (fun _ _ _ => h.later.congr rfl rfl rfl rfl) (fun _ => h.later)
  | enter => exact enterStep_elim s h fun _ hidle hset => h.enter hidle hset
  | isr => exact h.isr
  | service =>
    simp only [step, serviceStep]
    split <;> (try split) <;> exact h.congr rfl rfl rfl rfl
  | monitor => exact monitorStep_elim measurements s fun _ _ _ => h.congr rfl rfl rfl rfl
  | main =>
    exact mainStep_elim s h (fun _ => h.congr rfl rfl rfl rfl)
      (fun _ _ _ _ _ => h.congr rfl rfl rfl rfl) (fun _ => h.congr rfl rfl rfl rfl)

/-! ### What is counted -/

/-- What the maps, the semaphore and the ghosts of a run have to do with each other. -/
structure Counted (b : Bench T) (s : State T) : Prop where
  isrMap : ∀ j, s.mTimeIsrMap j = UInt32.ofNat (s.handled.countP fun a => T.countedAt j a.read)
  srvMap : ∀ j, s.mTimeSrvMap j = UInt32.ofNat (s.served.countP fun t => T.countedAt j t)
  /-- The timer's zeros: handled, waiting, or missed. -/
  raised : s.handled.length + s.pending.toList.length + s.missed + b.ticks / T.period =
    s.ticks / T.period + b.interrupt.toList.length
  /-- The semaphore: given once an interrupt, and taken once a reading. A deleted service task
  may have taken one more. -/
  given : ∃ hand ≤ 1, s.handled.length = s.isrSemaphore + s.served.length + hand + s.isr.toGive ∧
    (s.service ≠ .gone → hand = s.service.inHand)
  unspawned : s.main = .spawnService → s.service = .absent

theorem counted_initial (b : Bench T) : Counted b (initial b) where
  isrMap := zeroed_eq _
  srvMap := zeroed_eq _
  raised := by
    have hlen : (initial b).handled.length = 0 := rfl
    have hpending : (initial b).pending = b.interrupt := rfl
    have hmissed : (initial b).missed = 0 := rfl
    have hticks : (initial b).ticks = b.ticks := rfl
    rw [hlen, hpending, hmissed, hticks]
    omega
  given := ⟨0, Nat.zero_le _, rfl, fun _ => rfl⟩
  unspawned _ := rfl

theorem increment_ofNat {map : Fin timeMapSize → UInt32} {j : Fin timeMapSize} {n : Nat}
    (h : map j = UInt32.ofNat n) (r : Reading T) :
    increment map r.time j = UInt32.ofNat (n + if T.countedAt j r.tick then 1 else 0) := by
  rw [increment_eq, h, r.computed, UInt32.ofNat_add]
  congr 1
  simp only [Timer.countedAt, decide_eq_true_eq]
  split <;> rfl

theorem Counted.tick {b : Bench T} {s : State T} (h : Counted b s) (ht : Timed s) :
    Counted b (tickStep s) := by
  refine tickStep_elim s h (fun hwrap hclear => ⟨h.isrMap, h.srvMap, ?_, h.given, h.unspawned⟩)
    (fun hwrap raised hset => ⟨h.isrMap, h.srvMap, ?_, h.given, h.unspawned⟩)
    (fun hwrap => ⟨h.isrMap, h.srvMap, ?_, h.given, h.unspawned⟩)
  · have hidle := ht.idle_of_clear hclear
    have hnow : State.pending { s with ticks := s.ticks + 1, interrupt := some (s.ticks + 1) } =
        some (s.ticks + 1) := pending_of_idle hidle
    have hbefore : s.pending = none := (pending_of_idle hidle).trans hclear
    have hraised := h.raised
    rw [hbefore] at hraised
    rw [hnow, Nat.succ_div_of_dvd hwrap]
    simp only [Option.toList_none, Option.toList_some, List.length_nil, List.length_singleton] at *
    omega
  · have hraised := h.raised
    have hnow : State.pending { s with ticks := s.ticks + 1, missed := s.missed + 1 } =
        s.pending := rfl
    rw [hnow, Nat.succ_div_of_dvd hwrap]
    change s.handled.length + _ + (s.missed + 1) + _ = _
    omega
  · have hraised := h.raised
    have hnow : State.pending { s with ticks := s.ticks + 1 } = s.pending := rfl
    rw [hnow, Nat.succ_div_of_not_dvd hwrap]
    exact hraised

theorem Counted.enter {b : Bench T} {s : State T} (h : Counted b s) :
    Counted b (enterStep s) := by
  refine enterStep_elim s h fun raised hidle hset => ⟨h.isrMap, h.srvMap, ?_, ?_, h.unspawned⟩
  · have hraised := h.raised
    rw [pending_of_idle hidle] at hraised
    exact hraised
  · have hgiven := h.given
    rw [hidle] at hgiven
    exact hgiven

theorem Counted.isr {b : Bench T} {s : State T} (h : Counted b s) (ht : Timed s) :
    Counted b (isrStep s) := by
  have hraised := h.raised
  obtain ⟨hand, hle, hlen, hhand⟩ := h.given
  unfold isrStep
  split
  · exact h
  · rename_i hpc
    rw [State.pending, hpc] at hraised
    rw [hpc] at hlen
    exact ⟨h.isrMap, h.srvMap, hraised, ⟨hand, hle, hlen, hhand⟩, h.unspawned⟩
  · rename_i raised r hpc
    have hset := (ht.counting raised r hpc).1
    rw [State.pending, hpc, hset] at hraised
    rw [hpc] at hlen
    refine ⟨fun j => ?_, h.srvMap, ?_, ⟨hand, hle, ?_, hhand⟩, h.unspawned⟩
    · refine (increment_ofNat (h.isrMap j) r).trans ?_
      rw [List.countP_append, List.countP_singleton]
    · simp only [State.pending, List.length_append, Option.toList_none, Option.toList_some,
        List.length_nil, List.length_singleton] at hraised ⊢
      omega
    · simp only [IsrPc.toGive, List.length_append, List.length_singleton] at hlen ⊢
      omega
  · rename_i hpc
    rw [State.pending, hpc] at hraised
    rw [hpc] at hlen
    refine ⟨h.isrMap, h.srvMap, hraised, ⟨hand, hle, ?_, hhand⟩, h.unspawned⟩
    simp only [IsrPc.toGive] at hlen ⊢
    omega
  · rename_i hpc
    rw [State.pending, hpc] at hraised
    rw [hpc] at hlen
    exact ⟨h.isrMap, h.srvMap, hraised, ⟨hand, hle, hlen, hhand⟩, h.unspawned⟩

/-- The service task may only take what has been given. -/
theorem Counted.service {b : Bench T} {s : State T} (h : Counted b s) :
    Counted b (serviceStep s) := by
  obtain ⟨hand, hle, hlen, hhand⟩ := h.given
  have hmain : s.service ≠ .absent → s.main ≠ .spawnService :=
    fun hne hm => hne (h.unspawned hm)
  unfold serviceStep
  split
  · exact h
  · rename_i hpc
    have hand0 := hhand (by rw [hpc]; exact fun hn => by cases hn)
    rw [hpc] at hand0 hmain
    have hrunning := hmain (fun hn => by cases hn)
    split
    · exact ⟨h.isrMap, h.srvMap, h.raised, ⟨hand, hle, hlen, fun hn => absurd rfl hn⟩,
        fun hm => absurd hm hrunning⟩
    · exact ⟨h.isrMap, h.srvMap, h.raised, ⟨hand, hle, hlen, fun _ => hand0⟩,
        fun hm => absurd hm hrunning⟩
  · rename_i hpc
    have hand0 := hhand (by rw [hpc]; exact fun hn => by cases hn)
    rw [hpc] at hand0 hmain
    have hrunning := hmain (fun hn => by cases hn)
    split
    · rename_i hpos
      refine ⟨h.isrMap, h.srvMap, h.raised, ⟨1, Nat.le_refl 1, ?_, fun _ => rfl⟩,
        fun hm => absurd hm hrunning⟩
      change s.handled.length = s.isrSemaphore - 1 + s.served.length + 1 + s.isr.toGive
      simp only [ServicePc.inHand] at hand0
      omega
    · exact h
  · rename_i hpc
    have hand1 := hhand (by rw [hpc]; exact fun hn => by cases hn)
    rw [hpc] at hand1 hmain
    exact ⟨h.isrMap, h.srvMap, h.raised, ⟨hand, hle, hlen, fun _ => hand1⟩,
      fun hm => absurd hm (hmain fun hn => by cases hn)⟩
  · rename_i r hpc
    have hand1 := hhand (by rw [hpc]; exact fun hn => by cases hn)
    rw [hpc] at hand1 hmain
    refine ⟨h.isrMap, fun j => ?_, h.raised, ⟨0, Nat.zero_le _, ?_, fun _ => rfl⟩,
      fun hm => absurd hm (hmain fun hn => by cases hn)⟩
    · refine (increment_ofNat (h.srvMap j) r).trans ?_
      rw [List.countP_append, List.countP_singleton]
    · simp only [ServicePc.inHand] at hand1
      rw [List.length_append, List.length_singleton]
      change s.handled.length = s.isrSemaphore + (s.served.length + 1) + 0 + s.isr.toGive
      omega
  · exact h

theorem Counted.main {b : Bench T} {s : State T} (h : Counted b s) : Counted b (mainStep s) := by
  obtain ⟨hand, hle, hlen, hhand⟩ := h.given
  refine mainStep_elim s h (fun hm => ?_) (fun _ _ _ _ hm => ?_) (fun _ => ?_)
  · rw [h.unspawned hm] at hhand
    have hand0 := hhand fun hn => by cases hn
    exact ⟨h.isrMap, h.srvMap, h.raised, ⟨hand, hle, hlen, fun _ => hand0⟩, fun hm => by cases hm⟩
  · exact ⟨h.isrMap, h.srvMap, h.raised, h.given, fun hs => absurd hs hm⟩
  · exact ⟨h.isrMap, h.srvMap, h.raised, ⟨hand, hle, hlen, fun hn => absurd rfl hn⟩,
      fun hm => by cases hm⟩

theorem counted_step (measurements : Int32) {b : Bench T} (a : Action) {s : State T}
    (h : Counted b s) (ht : Timed s) : Counted b (step measurements a s) := by
  cases a with
  | tick => exact h.tick ht
  | enter => exact h.enter
  | isr => exact h.isr ht
  | service => exact h.service
  | monitor =>
    exact monitorStep_elim measurements s fun _ _ _ =>
      ⟨h.isrMap, h.srvMap, h.raised, h.given, h.unspawned⟩
  | main => exact h.main

/-! ### Whose readings the service task's are -/

/-- The `k`-th reading of the service task answers the `k`-th interrupt handled. -/
structure Served (s : State T) : Prop where
  served : ∀ (k : Nat) t, s.served[k]? = some t →
    ∃ a, s.handled[k]? = some a ∧ a.read ≤ t ∧ t ≤ s.ticks
  reading : ∀ r, s.service = .count r →
    ∃ a, s.handled[s.served.length]? = some a ∧ a.read ≤ r.tick ∧ r.tick ≤ s.ticks

theorem served_initial (b : Bench T) : Served (initial b) where
  served k _ h := by cases (List.getElem?_nil (i := k)).symm.trans h
  reading _ h := by cases h

theorem getElem?_append_of_some {α : Type} {l : List α} {k : Nat} {x : α} (h : l[k]? = some x)
    (more : List α) : (l ++ more)[k]? = some x := by
  rw [List.getElem?_append_left (List.getElem?_eq_some_iff.mp h).1]
  exact h

/-- Time passes, and more is handled. -/
theorem Served.grow {s s' : State T} (h : Served s) (hticks : s.ticks ≤ s'.ticks)
    (hhandled : ∃ more, s'.handled = s.handled ++ more) (hserved : s'.served = s.served)
    (hservice : ∀ r, s'.service = .count r → s.service = .count r) : Served s' := by
  obtain ⟨more, hmore⟩ := hhandled
  refine ⟨fun k t hk => ?_, fun r hr => ?_⟩
  · obtain ⟨a, ha, hle, ht⟩ := h.served k t (hserved ▸ hk)
    rw [hmore]
    exact ⟨a, getElem?_append_of_some ha more, hle, Nat.le_trans ht hticks⟩
  · obtain ⟨a, ha, hle, ht⟩ := h.reading r (hservice r hr)
    rw [hmore, hserved]
    exact ⟨a, getElem?_append_of_some ha more, hle, Nat.le_trans ht hticks⟩

/-- What stays the same outside the service task. -/
theorem Served.frame {s s' : State T} (h : Served s) (hticks : s.ticks ≤ s'.ticks)
    (hhandled : s'.handled = s.handled) (hserved : s'.served = s.served)
    (hservice : ∀ r, s'.service = .count r → s.service = .count r) : Served s' :=
  h.grow hticks ⟨[], by rw [hhandled, List.append_nil]⟩ hserved hservice

/-- A reading follows an interrupt handled: the semaphore has been given more often than
readings have been counted. -/
theorem Served.service {b : Bench T} {s : State T} (h : Served s) (hc : Counted b s)
    (ht : Timed s) : Served (serviceStep s) := by
  unfold serviceStep
  split
  · exact h
  · split <;> exact h.frame (Nat.le_refl _) rfl rfl fun _ hr => by cases hr
  · split
    · exact h.frame (Nat.le_refl _) rfl rfl fun _ hr => by cases hr
    · exact h
  · rename_i hpc
    obtain ⟨hand, _, hlen, hhand⟩ := hc.given
    have hand1 := hhand (by rw [hpc]; exact fun hn => by cases hn)
    rw [hpc] at hand1
    simp only [ServicePc.inHand] at hand1
    have hlt : s.served.length < s.handled.length := by omega
    refine ⟨h.served, fun r hr => ?_⟩
    cases hr
    have hmem := List.getElem_mem hlt
    exact ⟨_, List.getElem?_eq_getElem hlt, (ht.handled _ hmem).2.2, Nat.le_refl _⟩
  · rename_i r hpc
    refine ⟨fun k t hk => ?_, fun _ hr => by cases hr⟩
    rw [List.getElem?_append] at hk
    split at hk
    · exact h.served k t hk
    · rename_i hge
      obtain ⟨hk0, hr⟩ := List.getElem?_eq_some_iff.mp hk
      rw [List.length_singleton] at hk0
      have hlast : k = s.served.length := by omega
      obtain ⟨a, ha, hle, hticks⟩ := h.reading r hpc
      rw [List.getElem_singleton] at hr
      subst hlast hr
      exact ⟨a, ha, hle, hticks⟩
  · exact h

theorem served_step (measurements : Int32) {b : Bench T} (a : Action) {s : State T}
    (h : Served s) (hc : Counted b s) (ht : Timed s) : Served (step measurements a s) := by
  cases a with
  | tick =>
    exact tickStep_elim s h
      (fun _ _ => h.frame (Nat.le_succ _) rfl rfl fun _ hr => hr)
      (fun _ _ _ => h.frame (Nat.le_succ _) rfl rfl fun _ hr => hr)
      (fun _ => h.frame (Nat.le_succ _) rfl rfl fun _ hr => hr)
  | enter => exact enterStep_elim s h fun _ _ _ => h.frame (Nat.le_refl _) rfl rfl fun _ hr => hr
  | isr =>
    simp only [step, isrStep]
    split
    · exact h
    · exact h.frame (Nat.le_refl _) rfl rfl fun _ hr => hr
    · exact h.grow (Nat.le_refl _) ⟨_, rfl⟩ rfl fun _ hr => hr
    · exact h.frame (Nat.le_refl _) rfl rfl fun _ hr => hr
    · exact h.frame (Nat.le_refl _) rfl rfl fun _ hr => hr
  | service => exact h.service hc ht
  | monitor =>
    exact monitorStep_elim measurements s fun _ _ _ =>
      h.frame (Nat.le_refl _) rfl rfl fun _ hr => hr
  | main =>
    exact mainStep_elim s h
      (fun _ => h.frame (Nat.le_refl _) rfl rfl fun _ hr => by cases hr)
      (fun _ _ _ _ _ => h.frame (Nat.le_refl _) rfl rfl fun _ hr => hr)
      (fun _ => h.frame (Nat.le_refl _) rfl rfl fun _ hr => by cases hr)

/-! ### Runs -/

structure Kept (b : Bench T) (s : State T) : Prop where
  timed : Timed s
  counted : Counted b s
  served : Served s

theorem kept_step (measurements : Int32) (b : Bench T) (a : Action) (s : State T)
    (h : Kept b s) : Kept b (step measurements a s) :=
  ⟨timed_step measurements a s h.timed, counted_step measurements a h.counted h.timed,
    served_step measurements a h.served h.counted h.timed⟩

theorem kept_run (measurements : Int32) (b : Bench T) (acts : List Action) :
    Kept b (run measurements (initial b) acts) :=
  Interleaving.run_invariant (kept_step measurements b)
    ⟨timed_initial b, counted_initial b, served_initial b⟩ acts

/-- **Every interrupt is accounted for**: in every state of every run the maps are the counts of
the readings so far, each zero of the timer has been handled, or is pending, or was missed, none
was handled twice, and the semaphore stands between the two histograms. -/
theorem accounts_run (measurements : Int32) (b : Bench T) (acts : List Action) :
    Counted b (run measurements (initial b) acts) ∧
      (run measurements (initial b) acts).handled.Pairwise fun a a' => a.raised < a'.raised :=
  ⟨(kept_run measurements b acts).counted, (kept_run measurements b acts).timed.sorted⟩

/-! ### Latencies -/

/-- The time between two moments, in whole microseconds. -/
def latency (raised read : Nat) : Nat := (read - raised) * 36 / 1000

/-- What is computed from a reading: the time since the interrupt if that is less than a period,
and less than it otherwise. -/
structure Measured (T : Timer) (raised read : Nat) : Prop where
  after : raised ≤ read
  le : (microseconds (T.counterVal read)).toNat ≤ latency raised read
  exact_iff : (microseconds (T.counterVal read)).toNat = latency raised read ↔
    read - raised < T.period

theorem period_pos (T : Timer) : 0 < T.period := Nat.lt_of_lt_of_le (by decide) T.long

/-- The conversion does not overflow. -/
theorem microseconds_counterVal (T : Timer) (tick : Nat) :
    (microseconds (T.counterVal tick)).toNat = tick % T.period * 36 / 1000 := by
  have hlt := Nat.mod_lt tick (period_pos T)
  have hfits := T.fits
  have hval : (T.counterVal tick).toNat = tick % T.period := by
    rw [Timer.counterVal, UInt32.toNat_ofNat']
    exact Nat.mod_eq_of_lt (by omega)
  rw [microseconds, UInt32.toNat_div, UInt32.toNat_mul, hval]
  change tick % T.period * 36 % 2 ^ 32 / 1000 = _
  rw [Nat.mod_eq_of_lt (by omega)]

theorem measured_of_dvd {raised read : Nat} (hdvd : T.period ∣ raised) (hle : raised ≤ read) :
    Measured T raised read := by
  obtain ⟨n, hn⟩ := hdvd
  obtain ⟨late, hlate⟩ := Nat.exists_eq_add_of_le hle
  have hmod : read % T.period = late % T.period := by
    rw [hlate, hn, Nat.mul_add_mod]
  have hsub : read - raised = late := by omega
  have hsplit := Nat.div_add_mod late T.period
  have hlong := T.long
  refine ⟨hle, ?_, ?_⟩
  · rw [microseconds_counterVal, hmod, latency, hsub]
    exact Nat.div_le_div_right (Nat.mul_le_mul_right 36 (Nat.mod_le late T.period))
  · rw [microseconds_counterVal, hmod, latency, hsub]
    refine ⟨fun heq => ?_, fun hlt => by rw [Nat.mod_eq_of_lt hlt]⟩
    refine Classical.byContradiction fun hge => ?_
    -- a whole period is a microsecond at least
    have hpos : 0 < late / T.period := Nat.div_pos (Nat.le_of_not_lt hge) (period_pos T)
    have hperiod : T.period ≤ T.period * (late / T.period) := Nat.le_mul_of_pos_right _ hpos
    omega

/-- An answer within a period is counted at its latency. -/
theorem Measured.countedAt {raised read : Nat} (h : Measured T raised read)
    (hprompt : read - raised < T.period) (j : Fin timeMapSize) :
    T.countedAt j read = decide (latency raised read = j) := by
  rw [Timer.countedAt, h.exact_iff.mpr hprompt]

/-- An interrupt handled, with the reading of the service task that answers it. -/
def State.answers (s : State T) : List (Answer × Nat) := s.handled.zip s.served

theorem Kept.answers {b : Bench T} {s : State T} (h : Kept b s) :
    s.answers.map Prod.snd = s.served := by
  obtain ⟨hand, _, hlen, _⟩ := h.counted.given
  exact List.map_snd_zip (by omega)

/-- The service task's reading answers the interrupt of its number. -/
theorem Kept.measured {b : Bench T} {s : State T} (h : Kept b s) :
    ∀ x ∈ s.answers, x.1.read ≤ x.2 ∧ Measured T x.1.raised x.2 := by
  intro (a, t) hx
  obtain ⟨k, hk⟩ := List.getElem?_of_mem hx
  obtain ⟨ha, ht⟩ := List.getElem?_zip_eq_some.mp hk
  obtain ⟨a', ha', hle, _⟩ := h.served.served k t ht
  cases ha.symm.trans ha'
  obtain ⟨hdvd, hread, _⟩ := h.timed.handled a (List.mem_of_getElem? ha)
  exact ⟨hle, measured_of_dvd hdvd (Nat.le_trans hread hle)⟩

/-- **What the histograms show**: what the handler computes from a reading, and the service task
from the reading that answers the same interrupt, is the time since the interrupt exactly if this is
less than a period of the timer, and too low otherwise. The maps hold how many of these values have
been `j`, for each `j` below `TIME_MAP_SIZE`; so if every answer has come within a period they are
the histograms of the latencies, but for those that are longer. -/
theorem latency_run (measurements : Int32) (b : Bench T) (acts : List Action) :
    let s := run measurements (initial b) acts
    (∀ a ∈ s.handled, Measured T a.raised a.read) ∧
      s.answers.map Prod.snd = s.served ∧
      (∀ x ∈ s.answers, x.1.read ≤ x.2 ∧ Measured T x.1.raised x.2) ∧
      ∀ j : Fin timeMapSize,
        s.mTimeIsrMap j = UInt32.ofNat (s.handled.countP fun a => T.countedAt j a.read) ∧
        s.mTimeSrvMap j = UInt32.ofNat (s.served.countP fun t => T.countedAt j t) ∧
        ((∀ a ∈ s.handled, a.read - a.raised < T.period) →
          s.mTimeIsrMap j =
            UInt32.ofNat (s.handled.countP fun a => latency a.raised a.read = j)) ∧
        ((∀ x ∈ s.answers, x.2 - x.1.raised < T.period) →
          s.mTimeSrvMap j =
            UInt32.ofNat (s.answers.countP fun x => latency x.1.raised x.2 = j)) := by
  intro s
  have hkept : Kept b s := kept_run measurements b acts
  have hmeasured : ∀ a ∈ s.handled, Measured T a.raised a.read := fun a ha => by
    obtain ⟨hdvd, hle, _⟩ := hkept.timed.handled a ha
    exact measured_of_dvd hdvd hle
  refine ⟨hmeasured, hkept.answers, hkept.measured, fun j => ⟨hkept.counted.isrMap j,
    hkept.counted.srvMap j, fun hprompt => ?_, fun hprompt => ?_⟩⟩
  · rw [hkept.counted.isrMap j]
    refine congrArg UInt32.ofNat (List.countP_congr fun a ha => ?_)
    rw [(hmeasured a ha).countedAt (hprompt a ha)]
  · rw [hkept.counted.srvMap j, ← hkept.answers, List.countP_map]
    refine congrArg UInt32.ofNat (List.countP_congr fun x hx => ?_)
    rw [Function.comp_apply, (hkept.measured x hx).2.countedAt (hprompt x hx)]

end RealTimeLabs.Response
