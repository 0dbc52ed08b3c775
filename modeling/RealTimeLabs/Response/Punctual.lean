import RealTimeLabs.Response.Accounts

/-! A handler that keeps up with its timer.

If the handler has always cleared the register before the timer comes to zero again, no
interrupt is missed, and only then. Then its readings are those of one zero after the other,
and each is counted at the time that it came after its own. -/
namespace RealTimeLabs.Response

variable {T : Timer}

/-- The timer comes to zero only with its register clear. -/
def Punctual : Action → State T → Prop
  | .tick, s => s.counting = true → T.period ∣ s.ticks + 1 → s.interrupt = none
  | _, _ => True

theorem missed_step (measurements : Int32) (a : Action) (s : State T) :
    (Punctual a s → (step measurements a s).missed = s.missed) ∧
      (¬ Punctual a s → s.missed < (step measurements a s).missed) := by
  cases a with
  | tick =>
    simp only [step, tickStep, Punctual]
    split
    · rename_i hcounting
      split
      · rename_i hwrap
        split
        · rename_i hclear
          exact ⟨fun _ => rfl, fun h => absurd (fun _ _ => hclear) h⟩
        · rename_i raised hset
          refine ⟨fun h => ?_, fun _ => Nat.lt_succ_self _⟩
          have hnone := h hcounting hwrap
          rw [hset] at hnone
          cases hnone
      · rename_i hwrap
        exact ⟨fun _ => rfl, fun h => absurd (fun _ hdvd => absurd hdvd hwrap) h⟩
    · rename_i hcounting
      exact ⟨fun _ => rfl, fun h => absurd (fun hon => absurd hon hcounting) h⟩
  | enter =>
    exact ⟨fun _ => enterStep_elim (P := fun s' => s'.missed = s.missed) s rfl fun _ _ _ => rfl,
      fun h => absurd trivial h⟩
  | isr =>
    refine ⟨fun _ => ?_, fun h => absurd trivial h⟩
    simp only [step, isrStep]
    split <;> rfl
  | service =>
    refine ⟨fun _ => ?_, fun h => absurd trivial h⟩
    simp only [step, serviceStep]
    split <;> (try split) <;> rfl
  | monitor =>
    exact ⟨fun _ => monitorStep_elim (P := fun s' => s'.missed = s.missed) measurements s
      fun _ _ _ => rfl, fun h => absurd trivial h⟩
  | main =>
    exact ⟨fun _ => mainStep_elim (P := fun s' => s'.missed = s.missed) s rfl (fun _ => rfl)
      (fun _ _ _ _ _ => rfl) fun _ => rfl, fun h => absurd trivial h⟩

/-- The zero that the `k`-th interrupt handled comes from, with none missed. -/
def zeroOf (b : Bench T) (k : Nat) : Nat :=
  (b.ticks / T.period + 1 + k - b.interrupt.toList.length) * T.period

/-- While nothing is missed: what has been raised since the beginning is not a period old
when the counter is read, and was raised at the zero whose turn it was. -/
structure Prompt (b : Bench T) (s : State T) : Prop where
  later : b.ticks ≤ s.ticks
  zero : ∀ r ∈ s.interrupt, T.period ∣ r
  young : ∀ r ∈ s.interrupt, b.ticks < r → s.ticks < r + T.period
  turn : ∀ r ∈ s.pending, b.ticks < r → r = zeroOf b s.handled.length
  handled : ∀ (k : Nat) a, s.handled[k]? = some a → b.ticks < a.raised →
    a.raised = zeroOf b k ∧ a.read < a.raised + T.period

theorem prompt_initial (b : Bench T) : Prompt b (initial b) where
  later := Nat.le_refl _
  zero := b.raised_dvd
  young r hr hlt := absurd hlt (Nat.not_lt.mpr (b.raised_le r hr))
  turn r hr hlt := absurd hlt (Nat.not_lt.mpr (b.raised_le r hr))
  handled k _ h := by cases (List.getElem?_nil (i := k)).symm.trans h

theorem Prompt.congr {b : Bench T} {s s' : State T} (h : Prompt b s) (hticks : s'.ticks = s.ticks)
    (hinterrupt : s'.interrupt = s.interrupt) (hpending : s'.pending = s.pending)
    (hhandled : s'.handled = s.handled) : Prompt b s' where
  later := hticks ▸ h.later
  zero := hinterrupt ▸ h.zero
  young := by rw [hinterrupt, hticks]; exact h.young
  turn := by rw [hpending, hhandled]; exact h.turn
  handled := by rw [hhandled]; exact h.handled

/-- The next zero, with a clear register. -/
theorem Prompt.raise {b : Bench T} {s : State T} (h : Prompt b s) (hk : Kept b s)
    (hnone : s.missed = 0) (hwrap : T.period ∣ s.ticks + 1) (hclear : s.interrupt = none) :
    Prompt b { s with ticks := s.ticks + 1, interrupt := some (s.ticks + 1) } := by
  have hidle := hk.timed.idle_of_clear hclear
  have hbefore : s.pending = none := (pending_of_idle hidle).trans hclear
  have hnow : State.pending { s with ticks := s.ticks + 1, interrupt := some (s.ticks + 1) } =
      some (s.ticks + 1) := pending_of_idle hidle
  refine ⟨Nat.le_succ_of_le h.later, fun r hr => ?_, fun r hr _ => ?_, fun r hr _ => ?_, h.handled⟩
  · cases hr
    exact hwrap
  · cases hr
    exact Nat.lt_add_of_pos_right (period_pos T)
  · rw [hnow] at hr
    cases hr
    have hraised := hk.counted.raised
    rw [hbefore, hnone] at hraised
    simp only [Option.toList_none, List.length_nil] at hraised
    have hturn : (s.ticks + 1) / T.period =
        b.ticks / T.period + 1 + s.handled.length - b.interrupt.toList.length := by
      rw [Nat.succ_div_of_dvd hwrap]
      generalize s.ticks / T.period = zeros at hraised ⊢
      omega
    rw [zeroOf, ← hturn, Nat.div_mul_cancel hwrap]

/-- A count that does not come to zero. -/
theorem Prompt.count {b : Bench T} {s : State T} (h : Prompt b s)
    (hwrap : ¬ T.period ∣ s.ticks + 1) : Prompt b { s with ticks := s.ticks + 1 } := by
  refine ⟨Nat.le_succ_of_le h.later, h.zero, fun r hr hlt => ?_, h.turn, h.handled⟩
  have hyoung := h.young r hr hlt
  have hne : s.ticks + 1 ≠ r + T.period := fun heq =>
    hwrap (heq ▸ Nat.dvd_add (h.zero r hr) (Nat.dvd_refl _))
  change s.ticks + 1 < r + T.period
  omega

theorem Prompt.isr {b : Bench T} {s : State T} (h : Prompt b s) (hk : Kept b s) :
    Prompt b (isrStep s) := by
  unfold isrStep
  split
  · exact h
  · rename_i raised hpc
    have hpending : s.pending = s.interrupt := by rw [State.pending, hpc]
    exact h.congr rfl rfl hpending.symm rfl
  · rename_i raised r hpc
    obtain ⟨hset, _, htick⟩ := hk.timed.counting raised r hpc
    have hpending : s.pending = some raised := by rw [State.pending, hpc]; exact hset
    refine ⟨h.later, h.zero, h.young, fun r hr => (by cases hr), fun k a ha hlt => ?_⟩
    rw [List.getElem?_append] at ha
    split at ha
    · exact h.handled k a ha hlt
    · rename_i hge
      obtain ⟨hk0, hlast⟩ := List.getElem?_eq_some_iff.mp ha
      rw [List.length_singleton] at hk0
      rw [List.getElem_singleton] at hlast
      have hkth : k = s.handled.length := by omega
      subst hkth hlast
      exact ⟨h.turn raised hpending hlt,
        Nat.lt_of_le_of_lt htick (h.young raised hset hlt)⟩
  · exact ⟨h.later, h.zero, h.young, fun r hr => (by cases hr), h.handled⟩
  · exact ⟨h.later, fun r hr => (by cases hr), fun r hr => (by cases hr),
      fun r hr => (by cases hr), h.handled⟩

theorem prompt_step (measurements : Int32) {b : Bench T} (a : Action) {s : State T}
    (h : Prompt b s) (hk : Kept b s) (hnone : (step measurements a s).missed = 0) :
    Prompt b (step measurements a s) := by
  cases a with
  | tick =>
    have hbefore : s.missed = 0 := by
      by_cases hp : Punctual .tick s
      · rw [← (missed_step measurements .tick s).1 hp, hnone]
      · have := (missed_step measurements .tick s).2 hp
        omega
    revert hnone
    exact tickStep_elim (P := fun s' => s'.missed = 0 → Prompt b s') s (fun _ => h)
      (fun hwrap hclear _ => h.raise hk hbefore hwrap hclear)
      (fun _ _ _ hmissed => absurd hmissed (Nat.succ_ne_zero _)) (fun hwrap _ => h.count hwrap)
  | enter =>
    exact enterStep_elim s h fun raised hidle _ => h.congr rfl rfl (pending_of_idle hidle).symm rfl
  | isr => exact h.isr hk
  | service =>
    simp only [step, serviceStep]
    split <;> (try split) <;> exact h.congr rfl rfl rfl rfl
  | monitor => exact monitorStep_elim measurements s fun _ _ _ => h.congr rfl rfl rfl rfl
  | main =>
    exact mainStep_elim s h (fun _ => h.congr rfl rfl rfl rfl)
      (fun _ _ _ _ _ => h.congr rfl rfl rfl rfl) fun _ => h.congr rfl rfl rfl rfl

theorem prompt_run (measurements : Int32) (b : Bench T) (acts : List Action)
    (hC : Interleaving.Along (step measurements) Punctual (initial b) acts) :
    Prompt b (run measurements (initial b) acts) := by
  have hkeep : ∀ a s, (Kept b s ∧ s.missed = 0 ∧ Prompt b s) → Punctual a s →
      Kept b (step measurements a s) ∧ (step measurements a s).missed = 0 ∧
        Prompt b (step measurements a s) := by
    intro a s h hp
    have hmissed : (step measurements a s).missed = 0 := by
      rw [(missed_step measurements a s).1 hp, h.2.1]
    exact ⟨kept_step measurements b a s h.1, hmissed, prompt_step measurements a h.2.2 h.1 hmissed⟩
  have hstart : Kept b (initial b) ∧ (initial b).missed = 0 ∧ Prompt b (initial b) :=
    ⟨kept_run measurements b [], rfl, prompt_initial b⟩
  exact (Interleaving.throughout_of_along hkeep hstart hC).last.2.2

/-- **A handler that keeps up misses nothing**: no interrupt is missed exactly if the register is
always clear when the timer comes to zero; then the handler answers the zeros one by one, and what
it counts is the time since each. -/
theorem punctual_run (measurements : Int32) (b : Bench T) (acts : List Action) :
    ((run measurements (initial b) acts).missed = 0 ↔
      Interleaving.Along (step measurements) Punctual (initial b) acts) ∧
    ((run measurements (initial b) acts).missed = 0 →
      ∀ (k : Nat) a, (run measurements (initial b) acts).handled[k]? = some a →
        b.ticks < a.raised → a.raised = zeroOf b k ∧
          (microseconds (T.counterVal a.read)).toNat = latency a.raised a.read) := by
  have hiff : (run measurements (initial b) acts).missed = 0 ↔
      Interleaving.Along (step measurements) Punctual (initial b) acts :=
    Interleaving.along_iff_unchanged (f := State.missed)
      (fun a s => (missed_step measurements a s).1) (fun a s => (missed_step measurements a s).2)
      (initial b) acts
  refine ⟨hiff, fun hnone k a ha hlt => ?_⟩
  have hprompt := prompt_run measurements b acts (hiff.mp hnone)
  obtain ⟨hturn, hread⟩ := hprompt.handled k a ha hlt
  obtain ⟨hdvd, hle, _⟩ := (kept_run measurements b acts).timed.handled a (List.mem_of_getElem? ha)
  refine ⟨hturn, (measured_of_dvd hdvd hle).exact_iff.mpr ?_⟩
  omega

end RealTimeLabs.Response
