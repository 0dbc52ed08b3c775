import RealTimeLabs.Library.Interleaving
import RealTimeLabs.Library.Roster

/-! The diggers of one heap (`task2.c`, and `company.c` with its registry).

Lower diggers dig loads of soil onto the heap, upper diggers carry them off, and all of
them share a few shovels. A digger's state is the statement it is about to execute. The
keyboard task creates diggers, and deletes them at any moment: at once, or, between
`taskSafe` and `taskUnsafe`, when the digger gets to its `taskUnsafe`. `step` is one
statement of one digger or one request of the keyboard task. What each digger has in its
hands, and the totals dug and finished, are kept beside the program's own variables to say
what the semaphores should count. -/
namespace RealTimeLabs.Diggers

/-- The two programs: the diggers of the company report what they have carried. -/
inductive Source where
  | task2
  | company
deriving DecidableEq

def shovelsTotal : Nat := 3

/-- The statements of `digger_in_hole`. -/
inductive LowerPc where
  | taskSafe
  | takeShovels
  | work
  | giveSoilHeap
  | giveShovels
  | taskUnsafe
  | rest
deriving DecidableEq

/-- The statements of `digger_up_the_hole`. -/
inductive UpperPc where
  | takeSoilHeap
  | taskSafe
  | takeShovels
  /-- After the timeout: the load goes back, and the loop continues. -/
  | giveSoilHeap
  | giveUp
  | work
  | takeLock
  | count
  | giveLock
  | giveShovels
  | taskUnsafe
  | rest
deriving DecidableEq

inductive Pc where
  | lower (pc : LowerPc)
  | upper (pc : UpperPc)
deriving DecidableEq

/-- Between `taskSafe` and `taskUnsafe`. -/
def Pc.safe : Pc → Bool
  | .lower .taskSafe | .lower .rest => false
  | .upper .takeSoilHeap | .upper .taskSafe | .upper .rest => false
  | _ => true

structure Digger where
  pc : Pc
  /-- A `taskDelete` waits for the digger's `taskUnsafe`. -/
  deletion : Bool
  /-- In its hands: a shovel, a load of soil. -/
  shovel : Bool
  load : Bool
deriving DecidableEq

def lowerDigger : Digger := ⟨.lower .taskSafe, false, false, false⟩
def upperDigger : Digger := ⟨.upper .takeSoilHeap, false, false, false⟩

/-- Who has taken `lock`: nobody, a digger of this crew, or another task or process. -/
inductive Lock where
  | free
  | digger (i : Nat)
  | elsewhere
deriving DecidableEq

structure Shared where
  semShovels : Nat
  semSoilHeap : Nat
  lock : Lock
  /-- Times a lower digger gave `semSoilHeap`. -/
  dug : Nat
  /-- Loads that upper diggers have finished: `n_of_soil_done`, where it is reported. -/
  finished : Nat
deriving DecidableEq

structure State where
  diggers : List (Option Digger)
  shared : Shared
deriving DecidableEq

def Digger.at (d : Digger) (pc : Pc) : Digger := { d with pc := pc }

/-- `taskUnsafe`, where a waiting deletion takes the digger. -/
def Digger.leave (d : Digger) (pc : Pc) : Option Digger :=
  if d.deletion then none else some (d.at pc)

/-- One statement of a digger: nothing while it blocks, otherwise what becomes of it and of
the shared variables. `expired` is a shovel timeout. -/
def advance (src : Source) (i : Nat) (expired : Bool) (d : Digger) (m : Shared) :
    Option (Option Digger × Shared) :=
  match d.pc with
  | .lower .taskSafe => some (some (d.at (.lower .takeShovels)), m)
  | .lower .takeShovels =>
    if 0 < m.semShovels then
      some (some { d.at (.lower .work) with shovel := true },
        { m with semShovels := m.semShovels - 1 })
    else none
  | .lower .work => some (some (d.at (.lower .giveSoilHeap)), m)
  | .lower .giveSoilHeap =>
    some (some (d.at (.lower .giveShovels)),
      { m with semSoilHeap := m.semSoilHeap + 1, dug := m.dug + 1 })
  | .lower .giveShovels =>
    some (some { d.at (.lower .taskUnsafe) with shovel := false },
      { m with semShovels := m.semShovels + 1 })
  | .lower .taskUnsafe => some (d.leave (.lower .rest), m)
  | .lower .rest => some (some (d.at (.lower .taskSafe)), m)
  | .upper .takeSoilHeap =>
    if 0 < m.semSoilHeap then
      some (some { d.at (.upper .taskSafe) with load := true },
        { m with semSoilHeap := m.semSoilHeap - 1 })
    else none
  | .upper .taskSafe => some (some (d.at (.upper .takeShovels)), m)
  | .upper .takeShovels =>
    if expired then some (some (d.at (.upper .giveSoilHeap)), m)
    else if 0 < m.semShovels then
      some (some { d.at (.upper .work) with shovel := true },
        { m with semShovels := m.semShovels - 1 })
    else none
  | .upper .giveSoilHeap =>
    some (some { d.at (.upper .giveUp) with load := false },
      { m with semSoilHeap := m.semSoilHeap + 1 })
  | .upper .giveUp => some (d.leave (.upper .takeSoilHeap), m)
  | .upper .work =>
    match src with
    | .task2 =>
      -- nothing is reported: the load is finished with the work
      some (some { d.at (.upper .giveShovels) with load := false },
        { m with finished := m.finished + 1 })
    | .company => some (some (d.at (.upper .takeLock)), m)
  | .upper .takeLock =>
    if m.lock = .free then some (some (d.at (.upper .count)), { m with lock := .digger i })
    else none
  | .upper .count =>
    some (some { d.at (.upper .giveLock) with load := false },
      { m with finished := m.finished + 1 })
  | .upper .giveLock => some (some (d.at (.upper .giveShovels)), { m with lock := .free })
  | .upper .giveShovels =>
    some (some { d.at (.upper .taskUnsafe) with shovel := false },
      { m with semShovels := m.semShovels + 1 })
  | .upper .taskUnsafe => some (d.leave (.upper .rest), m)
  | .upper .rest => some (some (d.at (.upper .takeSoilHeap)), m)

/-- `taskDelete`: what becomes of the digger. -/
def Digger.delete (d : Digger) : Option Digger :=
  if d.pc.safe then some { d with deletion := true } else none

inductive Action where
  | createLower
  | createUpper
  | delete (i : Nat)
  | digger (i : Nat) (expired : Bool)
  /-- Another task or process takes `lock`, or gives it back. -/
  | lockElsewhere
deriving DecidableEq

def lockElsewhere : Lock → Lock
  | .free => .elsewhere
  | .elsewhere => .free
  | .digger i => .digger i

def step (src : Source) : Action → State → State
  | .createLower, s => { s with diggers := Roster.hire lowerDigger s.diggers }
  | .createUpper, s => { s with diggers := Roster.hire upperDigger s.diggers }
  | .delete i, s =>
    match s.diggers[i]? with
    | some (some d) => { s with diggers := Roster.put i d.delete s.diggers }
    | _ => s
  | .digger i expired, s =>
    match s.diggers[i]? with
    | some (some d) =>
      match advance src i expired d s.shared with
      | some (d', m) => ⟨Roster.put i d' s.diggers, m⟩
      | none => s
    | _ => s
  | .lockElsewhere, s => { s with shared := { s.shared with lock := lockElsewhere s.shared.lock } }

/-- The semaphores as created, before the first digger. -/
def initial : State := ⟨[], ⟨shovelsTotal, 0, .free, 0, 0⟩⟩

def run (src : Source) (s : State) (acts : List Action) : State :=
  Interleaving.run (step src) s acts

/-! ### What one statement does -/

/-- The statements during which a digger should have a shovel in its hands. -/
def Pc.needsShovel : Pc → Bool
  | .lower .work | .lower .giveSoilHeap | .lower .giveShovels => true
  | .upper .work | .upper .takeLock | .upper .count | .upper .giveLock
  | .upper .giveShovels => true
  | _ => false

/-- The statements during which an upper digger should have a load in its hands. -/
def Pc.needsLoad : Pc → Bool
  | .upper .taskSafe | .upper .takeShovels | .upper .giveSoilHeap => true
  | .upper .work | .upper .takeLock | .upper .count => true
  | _ => false

/-- A digger has what its statement needs, and nothing else. -/
structure Equipped (d : Digger) : Prop where
  shovel : d.shovel = d.pc.needsShovel
  load : d.load = d.pc.needsLoad

/-- What a statement of a digger leaves: the digger equipped, the shovels in the box and in
its hands as many as before, and the soil too. -/
structure Advanced (d : Digger) (m : Shared) (d' : Option Digger) (m' : Shared) : Prop where
  equipped : ∀ a, d' = some a → Equipped a
  gone : d' = none → d.shovel = false
  shovels : m'.semShovels + (d'.any (·.shovel)).toNat = m.semShovels + d.shovel.toNat
  soil : m'.dug + m.semSoilHeap + m.finished + d.load.toNat =
    m.dug + m'.semSoilHeap + m'.finished + (d'.any (·.load)).toNat

/-- `taskUnsafe` finds the digger with empty hands, so that it may go. -/
theorem advanced_leave {d : Digger} {pc : Pc} (m : Shared) (hd : Equipped d)
    (hs : d.pc.needsShovel = false) (hl : d.pc.needsLoad = false)
    (hs' : pc.needsShovel = false) (hl' : pc.needsLoad = false) :
    Advanced d m (d.leave pc) m := by
  have hshovel := hd.shovel.trans hs
  have hload := hd.load.trans hl
  unfold Digger.leave
  split
  · exact ⟨fun _ h => (by cases h), fun _ => hshovel, by rw [hshovel]; rfl, by rw [hload]; rfl⟩
  · refine ⟨fun a ha => ?_, fun h => (by cases h), rfl, rfl⟩
    cases ha
    exact ⟨hshovel.trans hs'.symm, hload.trans hl'.symm⟩

/-- A statement after which the digger stands at `pc` with its hands as `pc` needs them. -/
theorem advanced_to {d a : Digger} {m m' : Shared} (ha : Equipped a)
    (hs : m'.semShovels + a.shovel.toNat = m.semShovels + d.shovel.toNat)
    (hl : m'.dug + m.semSoilHeap + m.finished + d.load.toNat =
      m.dug + m'.semSoilHeap + m'.finished + a.load.toNat) : Advanced d m (some a) m' :=
  ⟨fun _ h => by cases h; exact ha, fun h => (by cases h), hs, hl⟩

theorem advance_spec {src : Source} {i : Nat} {expired : Bool} {d : Digger} {m : Shared}
    {d' : Option Digger} {m' : Shared} (hd : Equipped d)
    (h : advance src i expired d m = some (d', m')) : Advanced d m d' m' := by
  obtain ⟨pc, deletion, shovel, load⟩ := d
  obtain ⟨hshovel, hload⟩ := hd
  simp only at hshovel hload
  subst hshovel hload
  cases pc with
  | lower pc =>
    cases pc with
    | takeShovels =>
      simp only [advance] at h
      split at h
      · cases h
        exact advanced_to ⟨rfl, rfl⟩ (Nat.sub_add_cancel ‹_›) rfl
      · cases h
    | giveSoilHeap =>
      cases h
      refine advanced_to ⟨rfl, rfl⟩ rfl ?_
      change m.dug + 1 + m.semSoilHeap + m.finished + 0 =
        m.dug + (m.semSoilHeap + 1) + m.finished + 0
      omega
    | taskUnsafe => cases h; exact advanced_leave m ⟨rfl, rfl⟩ rfl rfl rfl rfl
    | _ => cases h; exact advanced_to ⟨rfl, rfl⟩ rfl rfl
  | upper pc =>
    cases pc with
    | takeSoilHeap =>
      simp only [advance] at h
      split at h
      · cases h
        refine advanced_to ⟨rfl, rfl⟩ rfl ?_
        change m.dug + m.semSoilHeap + m.finished + 0 =
          m.dug + (m.semSoilHeap - 1) + m.finished + 1
        omega
      · cases h
    | takeShovels =>
      simp only [advance] at h
      split at h
      · cases h
        exact advanced_to ⟨rfl, rfl⟩ rfl rfl
      · split at h
        · cases h
          exact advanced_to ⟨rfl, rfl⟩ (Nat.sub_add_cancel ‹_›) rfl
        · cases h
    | giveSoilHeap =>
      cases h
      refine advanced_to ⟨rfl, rfl⟩ rfl ?_
      change m.dug + m.semSoilHeap + m.finished + 1 =
        m.dug + (m.semSoilHeap + 1) + m.finished + 0
      omega
    | work =>
      cases src with
      | task2 => cases h; exact advanced_to ⟨rfl, rfl⟩ rfl rfl
      | company => cases h; exact advanced_to ⟨rfl, rfl⟩ rfl rfl
    | takeLock =>
      simp only [advance] at h
      split at h
      · cases h
        exact advanced_to ⟨rfl, rfl⟩ rfl rfl
      · cases h
    | giveUp => cases h; exact advanced_leave m ⟨rfl, rfl⟩ rfl rfl rfl rfl
    | taskUnsafe => cases h; exact advanced_leave m ⟨rfl, rfl⟩ rfl rfl rfl rfl
    | _ => cases h; exact advanced_to ⟨rfl, rfl⟩ rfl rfl

theorem Equipped.delete {d : Digger} (h : Equipped d) :
    ∀ a, d.delete = some a → Equipped a := by
  intro a ha
  unfold Digger.delete at ha
  split at ha
  · cases ha
    exact ⟨h.shovel, h.load⟩
  · cases ha

/-- A digger whose deletion is immediate has no shovel, and no load either unless it has
taken one and not yet made itself safe. -/
theorem Equipped.delete_none {d : Digger} (h : Equipped d) (hd : d.delete = none) :
    d.shovel = false ∧ (d.pc ≠ .upper .taskSafe → d.load = false) := by
  have hsafe : d.pc.safe = false := by
    unfold Digger.delete at hd
    split at hd
    · cases hd
    · rename_i hs
      simpa using hs
  rw [h.shovel, h.load]
  cases hpc : d.pc with
  | lower pc => cases pc <;> rw [hpc] at hsafe <;> first | exact ⟨rfl, fun _ => rfl⟩ | cases hsafe
  | upper pc =>
    cases pc with
    | taskSafe => exact ⟨rfl, fun hne => absurd rfl hne⟩
    | _ => rw [hpc] at hsafe; first | exact ⟨rfl, fun _ => rfl⟩ | cases hsafe

/-- Every digger of a run is equipped for its statement. -/
theorem equipped_step (src : Source) (a : Action) (s : State)
    (h : Roster.All Equipped s.diggers) : Roster.All Equipped (step src a s).diggers := by
  cases a with
  | createLower => exact h.hire ⟨rfl, rfl⟩
  | createUpper => exact h.hire ⟨rfl, rfl⟩
  | delete i =>
    simp only [step]
    split
    · rename_i d hd
      exact h.put (h i d hd).delete
    · exact h
  | digger i expired =>
    simp only [step]
    split
    · rename_i d hd
      split
      · rename_i d' m hadv
        exact h.put (advance_spec (h i d hd) hadv).equipped
      · exact h
    · exact h
  | lockElsewhere => exact h

end RealTimeLabs.Diggers
