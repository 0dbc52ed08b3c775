import Mathlib.Logic.Basic

/-! Runs of a total step function, in every order of its actions.

A system is a function `step : A → S → S` in which an action that is not enabled
leaves the state as it is. Every list of actions is then a run, and "for every
interleaving" is "for every list". What holds at every state a run visits is
`Throughout`; what holds of every action and the state it is taken in is `Along`.
The rules turn facts about one step into facts about runs: unconditionally
(`run_invariant`), under a condition on the steps (`throughout_of_along`), and
exactly, when every step outside the condition breaks the property
(`throughout_iff_along`, and `throughout_iff_along_within` for the runs of a kind). -/
namespace Interleaving

universe u v

variable {A : Type u} {S : Type v} (step : A → S → S)

/-- The state after a list of actions. -/
def run (s : S) : List A → S
  | [] => s
  | a :: rest => run (step a s) rest

theorem run_append (s : S) (a b : List A) : run step s (a ++ b) = run step (run step s a) b := by
  induction a generalizing s with
  | nil => rfl
  | cons x rest ih => exact ih _

/-- `P` holds at the start and after every action. -/
def Throughout (P : S → Prop) (s : S) : List A → Prop
  | [] => P s
  | a :: rest => P s ∧ Throughout P (step a s) rest

/-- Every action is taken in a state in which `C` allows it. -/
def Along (C : A → S → Prop) (s : S) : List A → Prop
  | [] => True
  | a :: rest => C a s ∧ Along C (step a s) rest

variable {step}

theorem Along.of_forall {C : A → S → Prop} (h : ∀ a s, C a s) (s : S) (acts : List A) :
    Along step C s acts := by
  induction acts generalizing s with
  | nil => trivial
  | cons a rest ih => exact ⟨h a s, ih _⟩

theorem Along.imp {C D : A → S → Prop} (h : ∀ a s, C a s → D a s) {s : S} {acts : List A}
    (hC : Along step C s acts) : Along step D s acts := by
  induction acts generalizing s with
  | nil => trivial
  | cons a rest ih => exact ⟨h a s hC.1, ih hC.2⟩

theorem Along.and {C D : A → S → Prop} {s : S} {acts : List A} (hC : Along step C s acts)
    (hD : Along step D s acts) : Along step (fun a s => C a s ∧ D a s) s acts := by
  induction acts generalizing s with
  | nil => trivial
  | cons a rest ih => exact ⟨⟨hC.1, hD.1⟩, ih hC.2 hD.2⟩

theorem Along.and_iff {C D : A → S → Prop} {s : S} {acts : List A} :
    Along step C s acts ∧ Along step D s acts ↔ Along step (fun a s => C a s ∧ D a s) s acts := by
  refine ⟨fun h => h.1.and h.2, fun h => ?_⟩
  induction acts generalizing s with
  | nil => exact ⟨trivial, trivial⟩
  | cons a rest ih =>
    obtain ⟨hC, hD⟩ := ih h.2
    exact ⟨⟨h.1.1, hC⟩, ⟨h.1.2, hD⟩⟩

/-- A condition that can be checked at a state can be checked along a run. -/
instance decidableAlong {C : A → S → Prop} [∀ a s, Decidable (C a s)] :
    (s : S) → (acts : List A) → Decidable (Along step C s acts)
  | _, [] => .isTrue trivial
  | s, a :: rest =>
    haveI : Decidable (Along step C (step a s) rest) := decidableAlong (step a s) rest
    inferInstanceAs (Decidable (C a s ∧ Along step C (step a s) rest))

instance decidableThroughout {P : S → Prop} [DecidablePred P] :
    (s : S) → (acts : List A) → Decidable (Throughout step P s acts)
  | s, [] => inferInstanceAs (Decidable (P s))
  | s, a :: rest =>
    haveI : Decidable (Throughout step P (step a s) rest) := decidableThroughout (step a s) rest
    inferInstanceAs (Decidable (P s ∧ Throughout step P (step a s) rest))

theorem Throughout.head {P : S → Prop} {s : S} {acts : List A} (h : Throughout step P s acts) :
    P s := by
  cases acts with
  | nil => exact h
  | cons a rest => exact h.1

theorem Throughout.imp {P Q : S → Prop} (hPQ : ∀ s, P s → Q s) {s : S} {acts : List A}
    (h : Throughout step P s acts) : Throughout step Q s acts := by
  induction acts generalizing s with
  | nil => exact hPQ s h
  | cons a rest ih => exact ⟨hPQ s h.1, ih h.2⟩

/-- What holds throughout a run holds at its end. -/
theorem Throughout.last {P : S → Prop} {s : S} {acts : List A} (h : Throughout step P s acts) :
    P (run step s acts) := by
  induction acts generalizing s with
  | nil => exact h
  | cons a rest ih => exact ih h.2

/-- An invariant of the step is an invariant of every run. -/
theorem run_invariant {I : S → Prop} (hstep : ∀ a s, I s → I (step a s)) {s : S} (h : I s)
    (acts : List A) : I (run step s acts) := by
  induction acts generalizing s with
  | nil => exact h
  | cons a rest ih => exact ih (hstep a s h)

/-- An invariant kept by the steps that meet `C` holds throughout a run along `C`. -/
theorem throughout_of_along {I : S → Prop} {C : A → S → Prop}
    (hstep : ∀ a s, I s → C a s → I (step a s)) {s : S} (h : I s) {acts : List A}
    (hC : Along step C s acts) : Throughout step I s acts := by
  induction acts generalizing s with
  | nil => exact h
  | cons a rest ih => exact ⟨h, ih (hstep a s h hC.1) hC.2⟩

/-- A condition that an invariant grants holds along every run that keeps the invariant. -/
theorem Along.of_invariant {I : S → Prop} {C D : A → S → Prop}
    (hstep : ∀ a s, I s → C a s → I (step a s)) (hD : ∀ a s, I s → D a s) {s : S} (h : I s)
    {acts : List A} (hC : Along step C s acts) : Along step D s acts := by
  induction acts generalizing s with
  | nil => trivial
  | cons a rest ih => exact ⟨hD a s h, ih (hstep a s h hC.1) hC.2⟩

/-- What holds throughout a run holds after each of its actions. -/
theorem Throughout.along {Q : S → Prop} {s : S} {acts : List A} (h : Throughout step Q s acts) :
    Along step (fun a s => Q (step a s)) s acts := by
  induction acts generalizing s with
  | nil => trivial
  | cons a rest ih => exact ⟨h.2.head, ih h.2⟩

/-- `P` holds throughout a run if at its start and after each of its actions. -/
theorem throughout_iff_along_after {P : S → Prop} {s : S} {acts : List A} :
    Throughout step P s acts ↔ P s ∧ Along step (fun a s => P (step a s)) s acts := by
  constructor
  · exact fun h => ⟨h.head, h.along⟩
  · intro ⟨hs, ha⟩
    induction acts generalizing s with
    | nil => exact hs
    | cons a rest ih => exact ⟨hs, ih ha.1 ha.2⟩

/-- When an invariant is kept under `C`, and the steps that do `K` are those under `C`, a
run does `K` at every step exactly when it goes along `C`; all where the run goes along `D`. -/
theorem along_iff_along_within {I : S → Prop} {K C D : A → S → Prop}
    (hstep : ∀ a s, I s → D a s → C a s → I (step a s))
    (hK : ∀ a s, I s → D a s → (K a s ↔ C a s)) {s : S} (h : I s) {acts : List A}
    (hD : Along step D s acts) : Along step K s acts ↔ Along step C s acts := by
  induction acts generalizing s with
  | nil => exact Iff.rfl
  | cons a rest ih =>
    have hfirst := hK a s h hD.1
    constructor
    · intro ⟨hk, hrest⟩
      have hC := hfirst.mp hk
      exact ⟨hC, (ih (hstep a s h hD.1 hC) hD.2).mp hrest⟩
    · intro ⟨hC, hrest⟩
      exact ⟨hfirst.mpr hC, (ih (hstep a s h hD.1 hC) hD.2).mpr hrest⟩

/-- When an invariant kept under `C` gives `P`, and a step outside `C` breaks `P` at once,
a run keeps `P` exactly when it goes along `C`; both only where the run goes along `D`. -/
theorem throughout_iff_along_within {I P : S → Prop} {C D : A → S → Prop}
    (hstep : ∀ a s, I s → D a s → C a s → I (step a s)) (hP : ∀ s, I s → P s)
    (hbreak : ∀ a s, I s → D a s → ¬ C a s → ¬ P (step a s)) {s : S} (h : I s)
    {acts : List A} (hD : Along step D s acts) :
    Throughout step P s acts ↔ Along step C s acts := by
  rw [throughout_iff_along_after, and_iff_right (hP s h)]
  refine along_iff_along_within hstep (fun a s hI hd => ⟨fun hp => ?_, fun hC => ?_⟩) h hD
  · exact Classical.byContradiction fun hn => hbreak a s hI hd hn hp
  · exact hP _ (hstep a s hI hd hC)

/-- When an invariant kept under `C` gives `P`, and a step outside `C` breaks `P`
at once, a run keeps `P` exactly when it goes along `C`. -/
theorem throughout_iff_along {I P : S → Prop} {C : A → S → Prop}
    (hstep : ∀ a s, I s → C a s → I (step a s)) (hP : ∀ s, I s → P s)
    (hbreak : ∀ a s, I s → ¬ C a s → ¬ P (step a s)) {s : S} (h : I s) (acts : List A) :
    Throughout step P s acts ↔ Along step C s acts :=
  throughout_iff_along_within (D := fun _ _ => True) (fun a s hI _ => hstep a s hI) hP
    (fun a s hI _ => hbreak a s hI) h (Along.of_forall (fun _ _ => trivial) s acts)

/-! ### Moments of a run -/

/-- One action further. -/
theorem run_take_succ (s : S) {acts : List A} {k : Nat} (h : k < acts.length) :
    run step s (acts.take (k + 1)) = step acts[k] (run step s (acts.take k)) := by
  rw [List.take_succ_eq_append_getElem h, run_append]
  rfl

theorem Along.take {C : A → S → Prop} {s : S} {acts : List A} (h : Along step C s acts)
    (k : Nat) : Along step C s (acts.take k) := by
  induction acts generalizing s k with
  | nil => cases k <;> trivial
  | cons a rest ih =>
    cases k with
    | zero => trivial
    | succ k => exact ⟨h.1, ih h.2 k⟩

theorem Along.drop {C : A → S → Prop} {s : S} {acts : List A} (h : Along step C s acts)
    (k : Nat) : Along step C (run step s (acts.take k)) (acts.drop k) := by
  induction acts generalizing s k with
  | nil => cases k <;> trivial
  | cons a rest ih =>
    cases k with
    | zero => exact h
    | succ k => exact ih h.2 k

/-- The condition on the action at a moment. -/
theorem Along.getElem {C : A → S → Prop} {s : S} {acts : List A} (h : Along step C s acts)
    {k : Nat} (hk : k < acts.length) : C acts[k] (run step s (acts.take k)) := by
  induction acts generalizing s k with
  | nil => cases hk
  | cons a rest ih =>
    cases k with
    | zero => exact h.1
    | succ k => exact ih h.2 (Nat.lt_of_succ_lt_succ hk)

/-! ### Progress -/

/-- What each step outside a condition increases, and no other changes, is unchanged by the
runs along the condition. -/
theorem along_iff_unchanged {C : A → S → Prop} {f : S → Nat}
    (hsame : ∀ a s, C a s → f (step a s) = f s) (hmore : ∀ a s, ¬ C a s → f s < f (step a s))
    (s : S) (acts : List A) : f (run step s acts) = f s ↔ Along step C s acts := by
  have hstep : ∀ a s, f s ≤ f (step a s) := fun a s =>
    (Classical.em (C a s)).elim (fun h => Nat.le_of_eq (hsame a s h).symm)
      fun h => Nat.le_of_lt (hmore a s h)
  have hle : ∀ (acts : List A) s, f s ≤ f (run step s acts) := by
    intro acts
    induction acts with
    | nil => exact fun s => Nat.le_refl _
    | cons a rest ih => exact fun s => Nat.le_trans (hstep a s) (ih _)
  induction acts generalizing s with
  | nil => exact iff_of_true rfl trivial
  | cons a rest ih =>
    by_cases hC : C a s
    · have hrest := ih (step a s)
      rw [hsame a s hC] at hrest
      exact hrest.trans ⟨fun h => ⟨hC, h⟩, fun h => h.2⟩
    · refine iff_of_false (fun h => ?_) fun h => hC h.1
      exact absurd h (Nat.ne_of_gt (Nat.lt_of_lt_of_le (hmore a s hC) (hle rest _)))

/-- What no step increases, and each step of one kind decreases, is used up by so many of
these steps. -/
theorem run_countdown {I : S → Prop} {f : S → Nat} {p : A → Bool}
    (hI : ∀ a s, I s → I (step a s)) (hle : ∀ a s, I s → f (step a s) ≤ f s)
    (hlt : ∀ a s, I s → p a = true → f (step a s) ≤ f s - 1) {s : S} (h : I s) (acts : List A) :
    f (run step s acts) ≤ f s - acts.countP p := by
  induction acts generalizing s with
  | nil => exact Nat.le_refl _
  | cons a rest ih =>
    have hrest := ih (hI a s h)
    rw [run, List.countP_cons]
    split
    · rename_i hp
      have := hlt a s h hp
      omega
    · have := hle a s h
      omega

/-! ### Variables that are only watched -/

section
universe w
variable {T : Type w} {stepT : A → T → T} {π : T → S}

/-- A system with more variables, which do not influence the others, makes the same runs. -/
theorem run_watched (h : ∀ a t, π (stepT a t) = step a (π t)) (t : T) (acts : List A) :
    π (run stepT t acts) = run step (π t) acts := by
  induction acts generalizing t with
  | nil => rfl
  | cons a rest ih =>
    rw [run, run, ← h]
    exact ih _

theorem along_watched (h : ∀ a t, π (stepT a t) = step a (π t)) {C : A → S → Prop} {t : T}
    {acts : List A} (hC : Along step C (π t) acts) :
    Along stepT (fun a t => C a (π t)) t acts := by
  induction acts generalizing t with
  | nil => trivial
  | cons a rest ih =>
    refine ⟨hC.1, ih ?_⟩
    rw [h]
    exact hC.2

end

/-! ### Components -/

section
universe w x
variable {B : Type w} {T : Type x} {stepB : B → T → T}

/-- The actions of a component in a run of a system, where each action of the system is
some of the component's, or none. -/
def project (own : A → S → List B) (step : A → S → S) (s : S) : List A → List B
  | [] => []
  | a :: rest => own a s ++ project own step (step a s) rest

/-- If every action of the system does to a component what the component's own would, its
runs are runs of the component. -/
theorem run_project {π : S → T} {own : A → S → List B}
    (h : ∀ a s, π (step a s) = run stepB (π s) (own a s)) (s : S) (acts : List A) :
    π (run step s acts) = run stepB (π s) (project own step s acts) := by
  induction acts generalizing s with
  | nil => rfl
  | cons a rest ih =>
    rw [project, run_append, ← h]
    exact ih _

/-- A system whose actions keep, under a condition, a relation to what another one does with some
actions of its own keeps it in all runs along the condition. -/
theorem simulates {R : S → T → Prop} {C : A → S → Prop} {own : A → S → List B}
    (h : ∀ a s t, R s t → C a s → R (step a s) (run stepB t (own a s))) {s : S} {t : T}
    (hR : R s t) {acts : List A} (hC : Along step C s acts) :
    R (run step s acts) (run stepB t (project own step s acts)) := by
  induction acts generalizing s t with
  | nil => exact hR
  | cons a rest ih =>
    rw [project, run_append]
    exact ih (h a s t hR hC.1) hC.2

/-- What each action takes from a stock and adds to it adds up. -/
theorem countP_project {f : S → Nat} {own : A → S → List B} {taken added : B → Bool}
    (h : ∀ a s, (own a s).countP taken + f (step a s) = (own a s).countP added + f s) (s : S)
    (acts : List A) : (project own step s acts).countP taken + f (run step s acts) =
      (project own step s acts).countP added + f s := by
  induction acts generalizing s with
  | nil => rfl
  | cons a rest ih =>
    have hfirst := h a s
    have hrest := ih (step a s)
    rw [project, List.countP_append, List.countP_append, run]
    omega

theorem along_append {C : B → T → Prop} {t : T} {as bs : List B} (ha : Along stepB C t as)
    (hb : Along stepB C (run stepB t as) bs) : Along stepB C t (as ++ bs) := by
  induction as generalizing t with
  | nil => exact hb
  | cons a rest ih => exact ⟨ha.1, ih ha.2 hb⟩

/-- A condition on the component's actions is one on the system's. -/
theorem along_project {π : S → T} {own : A → S → List B}
    (h : ∀ a s, π (step a s) = run stepB (π s) (own a s)) {C : B → T → Prop} {s : S}
    {acts : List A} (hC : Along step (fun a s => Along stepB C (π s) (own a s)) s acts) :
    Along stepB C (π s) (project own step s acts) := by
  induction acts generalizing s with
  | nil => trivial
  | cons a rest ih =>
    refine along_append hC.1 ?_
    rw [← h]
    exact ih hC.2

end

end Interleaving
