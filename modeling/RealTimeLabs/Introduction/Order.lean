import Mathlib.Algebra.BigOperators.Fin
import Mathlib.Algebra.Order.BigOperators.Group.Finset
import Mathlib.Data.List.Nodup
import RealTimeLabs.Introduction.Tasks

/-! In which order the jobs are done.

Nothing takes the one processor away from a task in the middle of its job, so what is printed is one
job after the other, in the order in which the tasks have become ready (`jobs_run`). How long a
task that is ready has to wait is then a matter of the jobs in front of it (`jobs_done`). -/
namespace RealTimeLabs.Introduction
open Interleaving

/-- What a task in the queue that has not been at its job yet. -/
def Fresh (done : List Task) (n : Task) (pc : Pc) : Prop :=
  pc = .arriving ∧ n ∉ done ∨ pc = .running ∧ n ∈ done

/-- What the task in front has printed of its job. -/
def State.front (done : List Task) (s : State) : List Line :=
  match s.ready with
  | [] => []
  | n :: _ => begun done n (s.pc n)

/-- The queue, after the jobs that are done. -/
structure Orderly (s : State) (done : List Task) : Prop where
  readied : s.readied = done ++ s.ready
  printed : s.printed = jobs done ++ s.front done
  nodup : s.ready.Nodup
  first : ∀ n rest, s.ready = n :: rest → s.pc n = .arriving → n ∉ done
  behind : ∀ n rest, s.ready = n :: rest → ∀ m ∈ rest, Fresh done m (s.pc m)
  waiting : ∀ n ticks, s.pc n = .waiting ticks → n ∈ done ∧ n ∉ s.ready
  absent : ∀ n, s.pc n = .absent → n ∉ s.readied
  unspawned : ∀ n : Task, s.spawned ≤ n.val → s.pc n = .absent

theorem orderly_initial : Orderly initial [] :=
  ⟨rfl, rfl, List.nodup_nil, fun _ _ h => (by cases h), fun _ _ h => (by cases h),
    fun _ _ h => (by cases h), fun _ _ h => (by cases h), fun _ _ => rfl⟩

section
variable {s s' : State} {done : List Task} {n : Task}

theorem Fresh.begun {pc : Pc} (h : Fresh done n pc) : begun done n pc = [] := by
  obtain ⟨rfl, _⟩ | ⟨rfl, hn⟩ := h
  · rfl
  · exact if_pos hn

/-- A task more at the end of the queue. -/
theorem Orderly.enter (h : Orderly s done) {pc : Pc} (hready : s'.ready = s.ready ++ [n])
    (hreadied : s'.readied = s.readied ++ [n]) (hpc : s'.pc = Function.update s.pc n pc)
    (hprinted : s'.printed = s.printed) (hn : n ∉ s.ready) (hfresh : Fresh done n pc)
    (hunspawned : ∀ m : Task, s'.spawned ≤ m.val → m ≠ n ∧ s.pc m = .absent) :
    Orderly s' done := by
  have hself : s'.pc n = pc := by rw [hpc, Function.update_self]
  have hother {m : Task} (hm : m ≠ n) : s'.pc m = s.pc m := by
    rw [hpc, Function.update_of_ne hm]
  have hne {m : Task} (hm : m ∈ s.ready) : m ≠ n := fun heq => hn (heq ▸ hm)
  refine ⟨?_, ?_, ?_, fun m rest hm harriving => ?_, fun m rest hm k hk => ?_,
    fun m ticks hm => ?_, fun m hm => ?_, fun m hm => ?_⟩
  · rw [hreadied, h.readied, hready, List.append_assoc]
  · rw [hprinted, h.printed]
    congr 1
    unfold State.front
    cases hempty : s.ready with
    | nil =>
      rw [hready, hempty]
      simp only [List.nil_append]
      rw [hself, hfresh.begun]
    | cons m rest =>
      rw [hready, hempty]
      simp only [List.cons_append]
      rw [hother (hne (hempty ▸ List.mem_cons_self))]
  · rw [hready, List.nodup_append]
    refine ⟨h.nodup, List.nodup_singleton n, fun m hm k hk => ?_⟩
    rw [List.mem_singleton.mp hk]
    exact hne hm
  · rw [hready] at hm
    cases hempty : s.ready with
    | nil =>
      rw [hempty] at hm
      cases hm
      rw [hself] at harriving
      exact hfresh.elim (fun hf => hf.2) fun hf => by cases harriving.symm.trans hf.1
    | cons m' rest' =>
      rw [hempty, List.cons_append] at hm
      cases hm
      rw [hother (hne (hempty ▸ List.mem_cons_self))] at harriving
      exact h.first m rest' hempty harriving
  · rw [hready] at hm
    cases hempty : s.ready with
    | nil =>
      rw [hempty] at hm
      cases hm
      cases hk
    | cons m' rest' =>
      rw [hempty, List.cons_append] at hm
      cases hm
      rcases List.mem_append.mp hk with hold | hnew
      · rw [hother (hne (hempty ▸ List.mem_cons_of_mem m hold))]
        exact h.behind m rest' hempty k hold
      · rw [List.mem_singleton.mp hnew, hself]
        exact hfresh
  · have hmn : m ≠ n := by
      intro heq
      rw [heq, hself] at hm
      obtain ⟨rfl, _⟩ | ⟨rfl, _⟩ := hfresh <;> cases hm
    rw [hother hmn] at hm
    obtain ⟨hdone, hnot⟩ := h.waiting m ticks hm
    refine ⟨hdone, fun hmem => ?_⟩
    rw [hready] at hmem
    rcases List.mem_append.mp hmem with hold | hnew
    · exact hnot hold
    · exact hmn (List.mem_singleton.mp hnew)
  · have hmn : m ≠ n := by
      intro heq
      rw [heq, hself] at hm
      obtain ⟨rfl, _⟩ | ⟨rfl, _⟩ := hfresh <;> cases hm
    rw [hother hmn] at hm
    rw [hreadied]
    intro hmem
    rcases List.mem_append.mp hmem with hold | hnew
    · exact h.absent m hm hold
    · exact hmn (List.mem_singleton.mp hnew)
  · obtain ⟨hmn, habsent⟩ := hunspawned m hm
    rw [hother hmn]
    exact habsent

/-- The task in front goes on with its job. -/
theorem Orderly.onward (h : Orderly s done) {rest : List Task} {pc : Pc} {ls : List Line}
    (hfront : s.ready = n :: rest) (hready : s'.ready = s.ready)
    (hreadied : s'.readied = s.readied) (hspawned : s'.spawned = s.spawned)
    (hpc : s'.pc = Function.update s.pc n pc) (hprinted : s'.printed = s.printed ++ ls)
    (hat : ∀ ticks, pc ≠ .absent ∧ pc ≠ .arriving ∧ pc ≠ .waiting ticks)
    (hold : s.pc n ≠ .absent) (hbegun : begun done n pc = begun done n (s.pc n) ++ ls) :
    Orderly s' done := by
  have hself : s'.pc n = pc := by rw [hpc, Function.update_self]
  have hother {m : Task} (hm : m ≠ n) : s'.pc m = s.pc m := by
    rw [hpc, Function.update_of_ne hm]
  have hnodup := h.nodup
  rw [hfront, List.nodup_cons] at hnodup
  refine ⟨?_, ?_, hready ▸ h.nodup, fun m rest' hm harriving => ?_, fun m rest' hm k hk => ?_,
    fun m ticks hm => ?_, fun m hm => ?_, fun m hm => ?_⟩
  · rw [hreadied, hready, h.readied]
  · have hfrontOld : s.front done = begun done n (s.pc n) := by
      unfold State.front
      rw [hfront]
    have hfrontNew : s'.front done = begun done n pc := by
      unfold State.front
      rw [hready, hfront]
      simp only
      rw [hself]
    rw [hprinted, h.printed, hfrontOld, hfrontNew, hbegun, List.append_assoc]
  · rw [hready, hfront] at hm
    cases hm
    rw [hself] at harriving
    exact absurd harriving (hat 0).2.1
  · rw [hready, hfront] at hm
    cases hm
    have hkn : k ≠ n := fun heq => hnodup.1 (heq ▸ hk)
    rw [hother hkn]
    exact h.behind n rest hfront k hk
  · have hmn : m ≠ n := by
      intro heq
      rw [heq, hself] at hm
      exact (hat ticks).2.2 hm
    rw [hother hmn] at hm
    rw [hready]
    exact h.waiting m ticks hm
  · have hmn : m ≠ n := by
      intro heq
      rw [heq, hself] at hm
      exact (hat 0).1 hm
    rw [hother hmn] at hm
    rw [hreadied]
    exact h.absent m hm
  · rw [hspawned] at hm
    have habsent := h.unspawned m hm
    have hmn : m ≠ n := fun heq => hold (heq ▸ habsent)
    rw [hother hmn]
    exact habsent

/-- The task in front has done its job, and delays itself. -/
theorem Orderly.delayed (h : Orderly s done) {rest : List Task} (hfront : s.ready = n :: rest)
    (hpc : s.pc n = .delay) :
    Orderly { s.setPc n (.waiting (taskStop n)) with ready := rest } (done ++ [n]) := by
  have hnodup := h.nodup
  rw [hfront, List.nodup_cons] at hnodup
  have hother {m : Task} (hm : m ≠ n) :
      Function.update s.pc n (.waiting (taskStop n)) m = s.pc m := Function.update_of_ne hm _ _
  have hfresh (m : Task) (hm : m ∈ rest) : m ≠ n ∧ Fresh (done ++ [n]) m (s.pc m) := by
    have hmn : m ≠ n := fun heq => hnodup.1 (heq ▸ hm)
    refine ⟨hmn, ?_⟩
    obtain ⟨harriving, hnot⟩ | ⟨hrunning, hdone⟩ := h.behind n rest hfront m hm
    · refine .inl ⟨harriving, fun hmem => ?_⟩
      rcases List.mem_append.mp hmem with hmem | hmem
      · exact hnot hmem
      · exact hmn (List.mem_singleton.mp hmem)
    · exact .inr ⟨hrunning, List.mem_append_left _ hdone⟩
  refine ⟨?_, ?_, hnodup.2, fun m rest' hm harriving => ?_, fun m rest' hm k hk => ?_,
    fun m ticks hm => ?_, fun m hm => ?_, fun m hm => ?_⟩
  · change s.readied = done ++ [n] ++ rest
    rw [h.readied, hfront, List.append_assoc]
    rfl
  · have hbegun : s.front done = job done n := by
      unfold State.front
      rw [hfront]
      simp only
      rw [hpc]
      rfl
    have hempty : State.front (done ++ [n])
        { s.setPc n (.waiting (taskStop n)) with ready := rest } = [] := by
      unfold State.front
      cases rest with
      | nil => rfl
      | cons m rest' =>
        obtain ⟨hmn, hm⟩ := hfresh m List.mem_cons_self
        change begun (done ++ [n]) m (Function.update s.pc n _ m) = []
        rw [hother hmn, hm.begun]
    rw [hempty, jobs_concat, List.append_nil, ← hbegun]
    exact h.printed
  · have hmem : m ∈ rest := by
      rw [show rest = m :: rest' from hm]
      exact List.mem_cons_self
    obtain ⟨hmn, hm⟩ := hfresh m hmem
    change Function.update s.pc n _ m = .arriving at harriving
    rw [hother hmn] at harriving
    exact hm.elim (fun hf => hf.2) fun hf => by cases harriving.symm.trans hf.1
  · have hmem : k ∈ rest := by
      rw [show rest = m :: rest' from hm]
      exact List.mem_cons_of_mem m hk
    obtain ⟨hkn, hk⟩ := hfresh k hmem
    change Fresh (done ++ [n]) k (Function.update s.pc n _ k)
    rw [hother hkn]
    exact hk
  · by_cases hmn : m = n
    · rw [hmn]
      exact ⟨List.mem_append_right _ List.mem_cons_self, hnodup.1⟩
    · change Function.update s.pc n _ m = .waiting ticks at hm
      rw [hother hmn] at hm
      obtain ⟨hdone, hnot⟩ := h.waiting m ticks hm
      exact ⟨List.mem_append_left _ hdone, fun hmem => hnot (hfront ▸ List.mem_cons_of_mem n hmem)⟩
  · have hmn : m ≠ n := by
      intro heq
      rw [heq] at hm
      cases (Function.update_self n _ s.pc).symm.trans hm
    change Function.update s.pc n _ m = .absent at hm
    rw [hother hmn] at hm
    exact h.absent m hm
  · have habsent := h.unspawned m hm
    have hmn : m ≠ n := fun heq => by cases (heq ▸ hpc).symm.trans habsent
    exact (hother hmn).trans habsent

theorem begun_ticked (pc : Pc) : begun done n (ticked pc) = begun done n pc := by
  cases pc <;> rfl

/-- The clock moves no task in the queue. -/
theorem Orderly.ticked (h : Orderly s done) : Orderly (step .tick s) done := by
  refine ⟨h.readied, ?_, h.nodup, fun m rest hm harriving => h.first m rest hm ?_,
    fun m rest hm k hk => ?_, fun m ticks hm => ?_, fun m hm => h.absent m ?_, fun m hm => ?_⟩
  · refine h.printed.trans (congrArg (jobs done ++ ·) ?_)
    unfold State.front
    simp only [step]
    cases s.ready with
    | nil => rfl
    | cons m rest => exact (begun_ticked _).symm
  · change Introduction.ticked (s.pc m) = .arriving at harriving
    cases hpc : s.pc m <;> rw [hpc] at harriving <;> cases harriving
  · change Fresh done k (Introduction.ticked (s.pc k))
    obtain ⟨hpc, hnot⟩ | ⟨hpc, hdone⟩ := h.behind m rest hm k hk
    · exact .inl ⟨by rw [hpc]; rfl, hnot⟩
    · exact .inr ⟨by rw [hpc]; rfl, hdone⟩
  · change Introduction.ticked (s.pc m) = .waiting ticks at hm
    cases hpc : s.pc m <;> rw [hpc] at hm <;> cases hm
    exact h.waiting m _ hpc
  · change Introduction.ticked (s.pc m) = .absent at hm
    cases hpc : s.pc m <;> rw [hpc] at hm <;> cases hm
  · change Introduction.ticked (s.pc m) = .absent
    rw [h.unspawned m hm]
    rfl

/-- A statement of the task in front. -/
theorem orderly_statement (h : Orderly s done) {rest : List Task} (hfront : s.ready = n :: rest) :
    ∃ done', Orderly (statement n rest s) done' := by
  have honward {s' : State} {pc : Pc} {ls : List Line} (hready : s'.ready = s.ready)
      (hreadied : s'.readied = s.readied) (hspawned : s'.spawned = s.spawned)
      (hpc : s'.pc = Function.update s.pc n pc) (hprinted : s'.printed = s.printed ++ ls)
      (hat : ∀ ticks, pc ≠ .absent ∧ pc ≠ .arriving ∧ pc ≠ .waiting ticks)
      (hold : s.pc n ≠ .absent) (hbegun : begun done n pc = begun done n (s.pc n) ++ ls) :
      ∃ done', Orderly s' done' :=
    ⟨done, h.onward hfront hready hreadied hspawned hpc hprinted hat hold hbegun⟩
  cases hpc : s.pc n with
  | absent =>
    simp only [statement, hpc]
    exact ⟨done, h⟩
  | arriving =>
    have hnot := h.first n rest hfront hpc
    simp only [statement, hpc]
    refine honward rfl rfl rfl rfl rfl (fun _ => ⟨Pc.noConfusion, Pc.noConfusion, Pc.noConfusion⟩)
      (by rw [hpc]; exact Pc.noConfusion) ?_
    rw [hpc]
    exact if_neg hnot
  | running =>
    simp only [statement, hpc]
    refine honward rfl rfl rfl rfl rfl (fun _ => ⟨Pc.noConfusion, Pc.noConfusion, Pc.noConfusion⟩)
      (by rw [hpc]; exact Pc.noConfusion) ?_
    rw [hpc]
    rfl
  | assign =>
    simp only [statement, hpc]
    refine honward rfl rfl rfl rfl (List.append_nil _).symm
      (fun _ => ⟨Pc.noConfusion, Pc.noConfusion, Pc.noConfusion⟩)
      (by rw [hpc]; exact Pc.noConfusion) ?_
    rw [hpc]
    exact (List.append_nil _).symm
  | busy x =>
    simp only [statement, hpc]
    refine honward rfl rfl rfl rfl (List.append_nil _).symm (fun _ => ?_)
      (by rw [hpc]; exact Pc.noConfusion) ?_
    · split <;> exact ⟨Pc.noConfusion, Pc.noConfusion, Pc.noConfusion⟩
    · rw [hpc]
      split <;> exact (List.append_nil _).symm
  | stopped =>
    simp only [statement, hpc]
    refine honward rfl rfl rfl rfl rfl (fun _ => ⟨Pc.noConfusion, Pc.noConfusion, Pc.noConfusion⟩)
      (by rw [hpc]; exact Pc.noConfusion) ?_
    rw [hpc, begun, begun, job, List.append_assoc]
    rfl
  | delay =>
    simp only [statement, hpc]
    exact ⟨done ++ [n], h.delayed hfront hpc⟩
  | waiting ticks =>
    simp only [statement, hpc]
    exact ⟨done, h⟩

theorem orderly_step (a : Action) (h : Orderly s done) : ∃ done', Orderly (step a s) done' := by
  cases a with
  | create =>
    simp only [step]
    split
    · rename_i hlt
      have habsent := h.unspawned ⟨s.spawned, hlt⟩ (Nat.le_refl _)
      have hnot := h.absent _ habsent
      rw [h.readied, List.mem_append, not_or] at hnot
      refine ⟨done, h.enter rfl rfl rfl rfl hnot.2 (.inl ⟨rfl, hnot.1⟩) fun m hm => ?_⟩
      change s.spawned + 1 ≤ m.val at hm
      refine ⟨fun heq => ?_, h.unspawned m (by omega)⟩
      rw [heq] at hm
      exact absurd hm (Nat.not_succ_le_self _)
    · exact ⟨done, h⟩
  | run =>
    cases hfront : s.ready with
    | nil =>
      simp only [step, hfront]
      exact ⟨done, h⟩
    | cons n rest =>
      simp only [step, hfront]
      exact orderly_statement h hfront
  | tick => exact ⟨done, h.ticked⟩
  | wake n =>
    simp only [step]
    split
    · rename_i hpc
      obtain ⟨hdone, hnot⟩ := h.waiting n 0 hpc
      refine ⟨done, h.enter rfl rfl rfl rfl hnot (.inr ⟨rfl, hdone⟩) fun m hm => ?_⟩
      have habsent := h.unspawned m hm
      exact ⟨fun heq => (by rw [heq, hpc] at habsent; cases habsent), habsent⟩
    · exact ⟨done, h⟩

end

/-- **One job after the other**: in every run the output is the jobs of those that have become
ready, in this order and each of them whole, but for the job of the task in front. -/
theorem jobs_run (acts : List Action) : ∃ done,
    (run initial acts).readied = done ++ (run initial acts).ready ∧
      (run initial acts).printed = jobs done ++ (run initial acts).front done := by
  obtain ⟨done, h⟩ := run_invariant (I := fun s => ∃ done, Orderly s done)
    (fun a _ h => h.elim fun _ hdone => orderly_step a hdone) ⟨[], orderly_initial⟩ acts
  exact ⟨done, h.readied, h.printed⟩

/-! ### Waiting -/

/-- The statements that are left of a job. -/
def left (n : Task) : Pc → Nat
  | .arriving => (1000000 * taskRun n).toNat + 6
  | .running => (1000000 * taskRun n).toNat + 5
  | .assign => (1000000 * taskRun n).toNat + 4
  | .busy x => x.toNat + 3
  | .stopped => 2
  | .delay => 1
  | .absent | .waiting _ => 0

/-- What is left of the jobs of the first `r` that have become ready. -/
def ahead (r : Nat) (s : State) : Nat :=
  ((s.ready.take (r - (s.readied.length - s.ready.length))).map fun n => left n (s.pc n)).sum

/-- No job is longer than at its beginning. -/
def Bounded (s : State) : Prop := ∀ n, left n (s.pc n) ≤ left n .arriving

section
variable {s : State} {done : List Task} {n : Task}

theorem left_ticked (n : Task) (pc : Pc) : left n (ticked pc) = left n pc := by
  cases pc <;> rfl

theorem length_done (h : Orderly s done) : s.readied.length - s.ready.length = done.length := by
  rw [h.readied, List.length_append]
  omega

/-- A statement takes one off what is left, in the middle of a job. -/
theorem statement_left (h : Orderly s done) {rest : List Task} (hfront : s.ready = n :: rest) :
    left n ((statement n rest s).pc n) + 1 = left n (s.pc n) ∧
      (∀ m, m ≠ n → (statement n rest s).pc m = s.pc m) ∧
      (statement n rest s).readied = s.readied ∧
      ((statement n rest s).ready = s.ready ∨
        s.pc n = .delay ∧ (statement n rest s).ready = rest) := by
  have hmem : n ∈ s.ready := hfront ▸ List.mem_cons_self
  have hself (pc : Pc) : Function.update s.pc n pc n = pc := Function.update_self _ _ _
  have hother (pc : Pc) (m : Task) (hm : m ≠ n) : Function.update s.pc n pc m = s.pc m :=
    Function.update_of_ne hm _ _
  cases hpc : s.pc n with
  | absent =>
    have hnot := h.absent n hpc
    rw [h.readied] at hnot
    exact absurd (List.mem_append_right done hmem) hnot
  | waiting ticks => exact absurd hmem (h.waiting n ticks hpc).2
  | delay =>
    simp only [statement, hpc, State.setPc, hself]
    exact ⟨rfl, hother _, trivial, .inr ⟨trivial, trivial⟩⟩
  | busy x =>
    simp only [statement, hpc, State.setPc, hself]
    refine ⟨?_, hother _, trivial, .inl trivial⟩
    split
    · simp only [left]
      omega
    · simp only [left]
      omega
  | _ =>
    simp only [statement, hpc, State.setPc, hself]
    exact ⟨rfl, hother _, trivial, .inl trivial⟩

/-- Tasks at the end of the queue are behind all that are ahead. -/
theorem ahead_enter {s' : State} {r : Nat} {pc : Pc} (h : Orderly s done)
    (hr : r ≤ s.readied.length) (hready : s'.ready = s.ready ++ [n])
    (hreadied : s'.readied = s.readied ++ [n]) (hpc : s'.pc = Function.update s.pc n pc)
    (hn : n ∉ s.ready) : ahead r s' = ahead r s := by
  have hlength : s.readied.length = done.length + s.ready.length := by
    rw [h.readied, List.length_append]
  unfold ahead
  rw [hready, hreadied, List.length_append, List.length_append, Nat.add_sub_add_right,
    length_done h, List.take_append_of_le_length (by omega)]
  congr 1
  refine List.map_congr_left fun m hm => ?_
  have hmn : m ≠ n := fun heq => hn (heq ▸ List.mem_of_mem_take hm)
  rw [hpc, Function.update_of_ne hmn]

theorem ahead_run (r : Nat) (h : Orderly s done) :
    ahead r (step .run s) ≤ ahead r s - 1 := by
  cases hfront : s.ready with
  | nil =>
    have hnothing : ahead r (step .run s) = 0 := by
      simp only [step, hfront, ahead]
      rw [List.take_nil]
      rfl
    rw [hnothing]
    exact Nat.zero_le _
  | cons n rest =>
    obtain ⟨hleft, hother, hreadied, hready⟩ := statement_left h hfront
    have hnodup := h.nodup
    rw [hfront, List.nodup_cons] at hnodup
    have hlength : s.readied.length = done.length + (rest.length + 1) := by
      rw [h.readied, List.length_append, hfront, List.length_cons]
    have hbehind (k : Nat) : (rest.take k).map (fun m => left m ((statement n rest s).pc m)) =
        (rest.take k).map fun m => left m (s.pc m) := by
      refine List.map_congr_left fun m hm => ?_
      rw [hother m fun heq => hnodup.1 (heq ▸ List.mem_of_mem_take hm)]
    simp only [step, hfront]
    unfold ahead
    rw [length_done h, hreadied, hfront]
    obtain hkept | ⟨hpc, hgone⟩ := hready
    · have hsame : s.readied.length - (n :: rest).length = done.length := by
        rw [hlength, List.length_cons]
        omega
      rw [hkept, hfront, hsame]
      cases r - done.length with
      | zero => exact Nat.zero_le _
      | succ k =>
        rw [List.take_succ_cons, List.map_cons, List.map_cons, List.sum_cons, List.sum_cons,
          hbehind k]
        omega
    · have hnext : s.readied.length - rest.length = done.length + 1 := by omega
      rw [hgone, hnext, ← Nat.sub_sub]
      cases r - done.length with
      | zero => exact Nat.zero_le _
      | succ k =>
        rw [Nat.add_sub_cancel, List.take_succ_cons, List.map_cons, List.sum_cons, hbehind k]
        omega

theorem ahead_tick (r : Nat) (s : State) : ahead r (step .tick s) = ahead r s := by
  unfold ahead
  congr 1
  exact List.map_congr_left fun m _ => left_ticked m (s.pc m)

/-- A step, with the first `r` in the list. -/
structure Waits (r : Nat) (s : State) : Prop where
  orderly : ∃ done, Orderly s done
  listed : r ≤ s.readied.length

theorem readied_step (a : Action) (s : State) : s.readied <+: (step a s).readied := by
  cases a with
  | create =>
    simp only [step]
    split
    · exact List.prefix_append _ _
    · exact List.prefix_refl _
  | run =>
    simp only [step]
    split
    · exact List.prefix_refl _
    · rename_i n rest _
      simp only [statement]
      split <;> exact List.prefix_refl _
  | tick => exact List.prefix_refl _
  | wake n =>
    simp only [step]
    split
    · exact List.prefix_append _ _
    · exact List.prefix_refl _

theorem readied_run (s : State) (acts : List Action) : s.readied <+: (run s acts).readied :=
  run_invariant (I := fun s' => s.readied <+: s'.readied)
    (fun a s' h => h.trans (readied_step a s')) (List.prefix_refl _) acts

theorem waits_step {r : Nat} (a : Action) (h : Waits r s) : Waits r (step a s) :=
  ⟨h.orderly.elim fun _ hdone => orderly_step a hdone,
    Nat.le_trans h.listed (readied_step a s).length_le⟩

theorem ahead_step {r : Nat} (a : Action) (h : Waits r s) : ahead r (step a s) ≤ ahead r s := by
  obtain ⟨done, hdone⟩ := h.orderly
  cases a with
  | create =>
    simp only [step]
    split
    · rename_i hlt
      have hnot := hdone.absent _ (hdone.unspawned ⟨s.spawned, hlt⟩ (Nat.le_refl _))
      rw [hdone.readied, List.mem_append, not_or] at hnot
      exact Nat.le_of_eq (ahead_enter hdone h.listed rfl rfl rfl hnot.2)
    · exact Nat.le_refl _
  | run => exact Nat.le_trans (ahead_run r hdone) (Nat.sub_le _ _)
  | tick => exact Nat.le_of_eq (ahead_tick r s)
  | wake n =>
    simp only [step]
    split
    · rename_i hpc
      exact Nat.le_of_eq (ahead_enter hdone h.listed rfl rfl rfl (hdone.waiting n 0 hpc).2)
    · exact Nat.le_refl _

/-- A task that is at its job has something left to do. -/
theorem left_pos (h : Orderly s done) (hn : n ∈ s.ready) : 0 < left n (s.pc n) := by
  cases hpc : s.pc n with
  | absent =>
    have hnot := h.absent n hpc
    rw [h.readied] at hnot
    exact absurd (List.mem_append_right done hn) hnot
  | waiting ticks => exact absurd hn (h.waiting n ticks hpc).2
  | _ => exact Nat.succ_pos _

/-- With nothing ahead, they are all done. -/
theorem length_le_done {r : Nat} (h : Orderly s done) (hzero : ahead r s = 0)
    (hr : r ≤ s.readied.length) : r ≤ done.length := by
  have hlength : s.readied.length = done.length + s.ready.length := by
    rw [h.readied, List.length_append]
  rw [ahead, length_done h] at hzero
  cases hfront : s.ready with
  | nil =>
    rw [hfront, List.length_nil] at hlength
    omega
  | cons n rest =>
    have hpos := left_pos h (hfront ▸ List.mem_cons_self (a := n) (l := rest))
    rw [hfront] at hzero
    cases hk : r - done.length with
    | zero => omega
    | succ k =>
      rw [hk, List.take_succ_cons, List.map_cons, List.sum_cons] at hzero
      omega

/-! ### The longest wait -/

theorem Bounded.update {s' : State} (h : Bounded s) {pc : Pc}
    (hpc : s'.pc = Function.update s.pc n pc) (hle : left n pc ≤ left n .arriving) :
    Bounded s' := fun m => by
  by_cases hmn : m = n
  · rw [hmn, hpc, Function.update_self]
    exact hle
  · rw [hpc, Function.update_of_ne hmn]
    exact h m

theorem bounded_step (a : Action) (ho : Orderly s done) (h : Bounded s) : Bounded (step a s) := by
  cases a with
  | create =>
    simp only [step]
    split
    · exact h.update rfl (Nat.le_refl _)
    · exact h
  | run =>
    cases hfront : s.ready with
    | nil =>
      simp only [step, hfront]
      exact h
    | cons n rest =>
      obtain ⟨hleft, hother, _⟩ := statement_left ho hfront
      simp only [step, hfront]
      intro m
      have hm := h m
      by_cases hmn : m = n
      · rw [hmn] at hm ⊢
        omega
      · rw [hother m hmn]
        exact hm
  | tick => exact fun m => (left_ticked m _).trans_le (h m)
  | wake n =>
    simp only [step]
    split
    · exact h.update rfl (Nat.le_succ _)
    · exact h

/-- The jobs of three different tasks. -/
theorem sum_le_of_nodup {l : List Task} (h : l.Nodup) :
    (l.map fun n => left n .arriving).sum ≤ 750000018 := by
  have hall : ∑ n, left n .arriving = 750000018 := by
    rw [Fin.sum_univ_three]
    rfl
  rw [← List.sum_toFinset _ h, ← hall]
  exact Finset.sum_le_univ_sum_of_nonneg fun _ => Nat.zero_le _

theorem ahead_le (r : Nat) (h : Orderly s done) (hb : Bounded s) : ahead r s ≤ 750000018 := by
  have htake : (s.ready.take (r - (s.readied.length - s.ready.length))).Nodup :=
    h.nodup.sublist (List.take_sublist _ _)
  refine Nat.le_trans (List.sum_le_sum fun n _ => ?_) (sum_le_of_nodup htake)
  exact hb n

end

theorem bounded_run (acts : List Action) :
    ∃ done, Orderly (run initial acts) done ∧ Bounded (run initial acts) := by
  refine run_invariant (I := fun s => ∃ done, Orderly s done ∧ Bounded s) (fun a s h => ?_)
    ⟨[], orderly_initial, fun _ => Nat.zero_le _⟩ acts
  obtain ⟨done, ho, hb⟩ := h
  obtain ⟨done', ho'⟩ := orderly_step a ho
  exact ⟨done', ho', bounded_step a ho hb⟩

/-- **Nobody waits for long**: whoever is ready has done its job after so many statements as the
three jobs have together, whatever else becomes ready in the meantime. -/
theorem jobs_done (before after : List Action) (h : 750000018 ≤ after.count .run) :
    ∃ more, (run (run initial before) after).readied =
        (run initial before).readied ++ more ++ (run (run initial before) after).ready ∧
      (run (run initial before) after).printed =
        jobs ((run initial before).readied ++ more) ++
          (run (run initial before) after).front ((run initial before).readied ++ more) := by
  obtain ⟨done, ho, hb⟩ := bounded_run before
  generalize run initial before = s at ho hb ⊢
  have hwaits : Waits s.readied.length s := ⟨⟨done, ho⟩, Nat.le_refl _⟩
  have hahead := run_countdown (I := Waits s.readied.length) (f := ahead s.readied.length)
    (p := fun a => a == .run) (fun a _ => waits_step a) (fun a _ => ahead_step a)
    (fun a s' hs' ha => hs'.orderly.elim fun _ ho' => beq_iff_eq.mp ha ▸ ahead_run _ ho')
    hwaits after
  obtain ⟨⟨done', hend⟩, hlisted⟩ :=
    run_invariant (I := Waits s.readied.length) (fun a _ => waits_step a) hwaits after
  have hzero : ahead s.readied.length (run s after) = 0 := by
    have hle := ahead_le s.readied.length ho hb
    change 750000018 ≤ after.countP fun a => a == .run at h
    change ahead s.readied.length (run s after) ≤ _ at hahead
    omega
  have hprefix : done' <+: (run s after).readied :=
    ⟨(run s after).ready, hend.readied.symm⟩
  obtain ⟨more, rfl⟩ := List.prefix_of_prefix_length_le (readied_run s after) hprefix
    (length_le_done hend hzero hlisted)
  exact ⟨more, hend.readied, hend.printed⟩

/-- All three are ready from the start. -/
theorem jobs_done_started :
    ∃ more, (run (run initial [.create, .create, .create])
          (List.replicate 750000018 .run)).readied =
        (run initial [.create, .create, .create]).readied ++ more ++
          (run (run initial [.create, .create, .create])
            (List.replicate 750000018 .run)).ready ∧
      (run (run initial [.create, .create, .create])
          (List.replicate 750000018 .run)).printed =
        jobs ((run initial [.create, .create, .create]).readied ++ more) ++
          (run (run initial [.create, .create, .create])
            (List.replicate 750000018 .run)).front
              ((run initial [.create, .create, .create]).readied ++ more) :=
  jobs_done [.create, .create, .create] (List.replicate 750000018 .run)
    (Nat.le_of_eq List.count_replicate_self.symm)

end RealTimeLabs.Introduction
