import Mathlib.Data.List.Nodup
import RealTimeLabs.Diggers.Crew

/-! The keyboard task and its books (`CreateTasks` of `task2.c`, `main` of `company.c`).

The command loop keeps, for each of the two crews, the ids of its diggers and their number.
`i` and `I` create a digger, `o` and `O` delete the last one, `E` ends the work. The cases
are copies of one another, and one copy was not adapted: the guard of `I` tests
`l_diggers_count`. The books are right, and every command does what it says, exactly as
long as an `I` finds the two crews both full or both not (`books_iff_guarded`). -/
namespace RealTimeLabs.Diggers
open Interleaving

inductive Kind where
  | lower
  | upper
deriving DecidableEq

def maxNumOfDiggers : Int := 50

/-- `l_diggers_count` and `l_diggers_ids`, or the same two of the upper crew. What would be
stored behind an array stays at its index. -/
structure Roll where
  count : Int
  ids : Int → Int

structure Board where
  roll : Kind → Roll
  /-- The diggers created and not yet deleted, in the order of their creation. -/
  alive : Kind → List Int
  /-- `main` of `company.c` has returned. -/
  returned : Bool

/-- A character from the keyboard, and the id that `taskSpawn` returns if it is called. -/
structure Key where
  char : Char
  taskId : Int

/-- The cases of the `switch`. -/
inductive Command where
  | create (k : Kind)
  | delete (k : Kind)
  | exit
  | other

def command : Char → Command
  | 'i' => .create .lower
  | 'I' => .create .upper
  | 'o' => .delete .lower
  | 'O' => .delete .upper
  | 'E' => .exit
  | _ => .other

/-- `ids[count] = create_..(count); ++count`. -/
def Board.create (k : Kind) (taskId : Int) (s : Board) : Board :=
  { s with
    roll := Function.update s.roll k
      ⟨(s.roll k).count + 1, Function.update (s.roll k).ids (s.roll k).count taskId⟩
    alive := Function.update s.alive k (s.alive k ++ [taskId]) }

def Board.taskDelete (taskId : Int) (s : Board) : Board :=
  { s with alive := fun k => (s.alive k).filter (· ≠ taskId) }

/-- `taskDelete(ids[count - 1]); count--`. -/
def Board.deleteLast (k : Kind) (s : Board) : Board :=
  { s.taskDelete ((s.roll k).ids ((s.roll k).count - 1)) with
    roll := Function.update s.roll k ⟨(s.roll k).count - 1, (s.roll k).ids⟩ }

/-- One of the two loops of `E`. -/
def Board.deleteCrew (k : Kind) (s : Board) : Board :=
  (List.range (s.roll k).count.toNat).foldl
    (fun b (i : Nat) => b.taskDelete ((s.roll k).ids i)) s

/-- `E` of `task2.c`. -/
def Board.deleteAll (s : Board) : Board :=
  let s := (s.deleteCrew .lower).deleteCrew .upper
  { s with roll := fun k => ⟨0, (s.roll k).ids⟩ }

def keyStep (src : Source) (key : Key) (s : Board) : Board :=
  if s.returned then s
  else
    match command key.char with
    | .create k =>
      -- `i` and `I` alike look at `l_diggers_count`
      if (s.roll .lower).count ≥ maxNumOfDiggers then s else s.create k key.taskId
    | .delete k => if (s.roll k).count = 0 then s else s.deleteLast k
    | .exit =>
      match src with
      | .task2 => s.deleteAll
      | .company => { s with returned := true }
    | .other => s

/-- Before the loop: one digger of each crew. -/
def opened (lower upper : Int) : Board :=
  (Board.create .lower lower ⟨fun _ => ⟨0, fun _ => 0⟩, fun _ => [], false⟩).create .upper upper

/-! ### The law -/

/-- The first entries of an array of ids. -/
def Roll.entries (r : Roll) : List Int := (List.range r.count.toNat).map fun (i : Nat) => r.ids i

/-- Both counts within the arrays, and the entries the diggers that there are, each once. -/
structure Booked (s : Board) : Prop where
  within : ∀ k, 0 ≤ (s.roll k).count ∧ (s.roll k).count ≤ maxNumOfDiggers
  entries : ∀ k, s.alive k = (s.roll k).entries
  distinct : ∀ k, (s.alive k).Nodup
  apart : ∀ id ∈ s.alive .lower, id ∉ s.alive .upper

/-- An `i` or `I` adds a digger to its crew unless that crew is full. -/
def Adds (src : Source) (key : Key) (s : Board) : Prop :=
  ∀ k, s.returned = false → command key.char = .create k →
    (keyStep src key s).alive k =
      if ((s.alive k).length : Int) < maxNumOfDiggers then s.alive k ++ [key.taskId]
      else s.alive k

/-- `taskSpawn` succeeds: its id is that of no digger alive. -/
def Spawns (key : Key) (s : Board) : Prop :=
  key.taskId ∉ s.alive .lower ∧ key.taskId ∉ s.alive .upper

instance (key : Key) (s : Board) : Decidable (Spawns key s) :=
  inferInstanceAs (Decidable (_ ∧ _))

/-- An `I` finds both crews full or neither. -/
def Guarded (key : Key) (s : Board) : Prop :=
  s.returned = false → command key.char = .create .upper →
    ((s.roll .lower).count < maxNumOfDiggers ↔ (s.roll .upper).count < maxNumOfDiggers)

/-! ### The books of one crew -/

theorem entries_length (r : Roll) : r.entries.length = r.count.toNat := by simp [Roll.entries]

/-- A store at the count, and one more counted. -/
theorem entries_push (r : Roll) (h : 0 ≤ r.count) (id : Int) :
    Roll.entries ⟨r.count + 1, Function.update r.ids r.count id⟩ = r.entries ++ [id] := by
  have hnat : (r.count + 1).toNat = r.count.toNat + 1 := by omega
  unfold Roll.entries
  simp only [hnat, List.range_succ, List.map_append, List.map_singleton]
  congr 1
  · apply List.map_congr_left
    intro i hi
    have hlt := List.mem_range.mp hi
    rw [Function.update_of_ne (by omega)]
  · rw [show ((r.count.toNat : Nat) : Int) = r.count by omega, Function.update_self]

/-- The entries before the last, and the last. -/
theorem entries_pop (r : Roll) (h : 0 < r.count) :
    r.entries = Roll.entries ⟨r.count - 1, r.ids⟩ ++ [r.ids (r.count - 1)] := by
  have hnat : r.count.toNat = (r.count - 1).toNat + 1 := by omega
  unfold Roll.entries
  rw [hnat, List.range_succ, List.map_append, List.map_singleton]
  rw [show (((r.count - 1).toNat : Nat) : Int) = r.count - 1 by omega]

theorem filter_ne_of_not_mem {l : List Int} {id : Int} (h : id ∉ l) :
    l.filter (· ≠ id) = l := by
  rw [List.filter_eq_self]
  intro x hx
  exact decide_eq_true fun he => h (he ▸ hx)

theorem Booked.not_both {s : Board} (h : Booked s) {k k' : Kind} (hne : k ≠ k') {id : Int}
    (hk : id ∈ s.alive k) : id ∉ s.alive k' := by
  intro hk'
  cases k <;> cases k'
  · exact hne rfl
  · exact h.apart id hk hk'
  · exact h.apart id hk' hk
  · exact hne rfl

/-! ### The commands -/

theorem Booked.create {s : Board} (h : Booked s) {k : Kind} {id : Int}
    (hspawn : id ∉ s.alive .lower ∧ id ∉ s.alive .upper)
    (hroom : (s.roll k).count < maxNumOfDiggers) :
    Booked (s.create k id) := by
  refine ⟨fun k' => ?_, fun k' => ?_, fun k' => ?_, fun x hl hu => ?_⟩
  · have hk' := h.within k'
    simp only [Board.create]
    by_cases hk : k' = k
    · subst hk
      rw [Function.update_self]
      simp only
      omega
    · rw [Function.update_of_ne hk]
      exact hk'
  · simp only [Board.create]
    by_cases hk : k' = k
    · subst hk
      rw [Function.update_self, Function.update_self, h.entries,
        entries_push _ (h.within k').1]
    · rw [Function.update_of_ne hk, Function.update_of_ne hk]
      exact h.entries k'
  · simp only [Board.create]
    by_cases hk : k' = k
    · subst hk
      rw [Function.update_self, List.nodup_append]
      refine ⟨h.distinct k', List.nodup_singleton _, fun a ha b hb he => ?_⟩
      obtain rfl : a = id := he.trans (List.mem_singleton.mp hb)
      cases k' with
      | lower => exact hspawn.1 ha
      | upper => exact hspawn.2 ha
    · rw [Function.update_of_ne hk]
      exact h.distinct k'
  · simp only [Board.create] at hl hu
    cases k with
    | lower =>
      rw [Function.update_self, List.mem_append, List.mem_singleton] at hl
      rw [Function.update_of_ne (by decide)] at hu
      rcases hl with hl | rfl
      · exact h.apart x hl hu
      · exact hspawn.2 hu
    | upper =>
      rw [Function.update_of_ne (by decide)] at hl
      rw [Function.update_self, List.mem_append, List.mem_singleton] at hu
      rcases hu with hu | rfl
      · exact h.apart x hl hu
      · exact hspawn.1 hl

/-- Deletions take nobody from a crew but those deleted. -/
theorem Booked.filter {s : Board} (h : Booked s) (p : Int → Bool) (roll : Kind → Roll)
    (hwithin : ∀ k, 0 ≤ (roll k).count ∧ (roll k).count ≤ maxNumOfDiggers)
    (hentries : ∀ k, (s.alive k).filter p = (roll k).entries) :
    Booked { s with roll := roll, alive := fun k => (s.alive k).filter p } :=
  ⟨hwithin, hentries, fun k => (h.distinct k).filter p,
    fun x hl hu => h.apart x (List.mem_filter.mp hl).1 (List.mem_filter.mp hu).1⟩

theorem Booked.deleteLast {s : Board} (h : Booked s) {k : Kind} (hne : (s.roll k).count ≠ 0) :
    Booked (s.deleteLast k) := by
  have hwithin := h.within k
  have hpos : 0 < (s.roll k).count := by omega
  have hpop := entries_pop (s.roll k) hpos
  have hlast := h.entries k
  rw [hpop] at hlast
  have hmem : (s.roll k).ids ((s.roll k).count - 1) ∈ s.alive k := by
    rw [hlast]
    exact List.mem_append_right _ (List.mem_singleton.mpr rfl)
  refine h.filter _ _ (fun k' => ?_) fun k' => ?_
  · by_cases hk : k' = k
    · subst hk
      rw [Function.update_self]
      simp only
      omega
    · rw [Function.update_of_ne hk]
      exact h.within k'
  · by_cases hk : k' = k
    · subst hk
      have hnodup := h.distinct k'
      rw [hlast, List.nodup_append] at hnodup
      rw [Function.update_self, hlast, List.filter_append,
        filter_ne_of_not_mem fun hin => hnodup.2.2 _ hin _ (List.mem_singleton.mpr rfl) rfl]
      simp
    · rw [Function.update_of_ne hk, filter_ne_of_not_mem (h.not_both (Ne.symm hk) hmem)]
      exact h.entries k'

/-- A run of `taskDelete`s. -/
theorem foldl_taskDelete (f : Nat → Int) (l : List Nat) (s : Board) :
    l.foldl (fun s i => s.taskDelete (f i)) s =
      { s with alive := fun k => (s.alive k).filter fun id => id ∉ l.map f } := by
  induction l generalizing s with
  | nil =>
    have hall (k : Kind) : ((s.alive k).filter fun id => id ∉ ([] : List Nat).map f) = s.alive k :=
      List.filter_eq_self.mpr fun _ _ => by simp
    simp only [List.foldl_nil, hall]
  | cons i rest ih =>
    rw [List.foldl_cons, ih]
    simp only [Board.taskDelete, List.filter_filter]
    congr 1
    funext k
    apply List.filter_congr
    intro id _
    simp only [List.map_cons, List.mem_cons, not_or]
    by_cases hi : id = f i <;> by_cases hr : id ∈ rest.map f <;> simp [hi, hr]

/-- Everybody is gone after the two loops. -/
theorem Booked.deleteAll {s : Board} (h : Booked s) : Booked s.deleteAll := by
  have hcrew (k : Kind) (b : Board) (hroll : b.roll k = s.roll k) :
      b.deleteCrew k =
        { b with alive := fun k' => (b.alive k').filter fun id => id ∉ (s.roll k).entries } := by
    rw [Board.deleteCrew, hroll]
    exact foldl_taskDelete (fun i => (s.roll k).ids i) _ b
  have hgone (k : Kind) : s.deleteAll.alive k = [] := by
    have hupper := hcrew .upper (s.deleteCrew .lower) (by rw [hcrew .lower s rfl])
    rw [Board.deleteAll, hupper, hcrew .lower s rfl]
    simp only [List.filter_filter]
    rw [List.filter_eq_nil_iff, h.entries]
    intro id hid
    cases k <;> simp [hid]
  have hcount (k : Kind) : (s.deleteAll.roll k).count = 0 := rfl
  refine ⟨fun k => ?_, fun k => ?_, fun k => ?_, fun id hid => ?_⟩
  · rw [hcount]
    decide
  · rw [hgone, Roll.entries, hcount]
    rfl
  · rw [hgone]
    exact List.nodup_nil
  · rw [hgone] at hid
    cases hid

/-- A guarded command keeps the books. -/
theorem booked_step (src : Source) (key : Key) (s : Board) (h : Booked s) (hspawn : Spawns key s)
    (hguard : Guarded key s) : Booked (keyStep src key s) := by
  unfold keyStep
  split
  · exact h
  rename_i hret
  split
  · rename_i k hcmd
    split
    · exact h
    · rename_i hroom
      refine h.create hspawn ?_
      cases k with
      | lower => omega
      | upper => exact (hguard (Bool.eq_false_iff.mpr hret) hcmd).mp (by omega)
  · split
    · exact h
    · exact h.deleteLast ‹_›
  · cases src with
    | task2 => exact h.deleteAll
    | company => exact ⟨h.within, h.entries, h.distinct, h.apart⟩
  · exact h

theorem Booked.length {s : Board} (h : Booked s) (k : Kind) :
    ((s.alive k).length : Int) = (s.roll k).count := by
  have hwithin := h.within k
  rw [h.entries, entries_length]
  omega

theorem create_alive (k : Kind) (id : Int) (s : Board) :
    (s.create k id).alive k = s.alive k ++ [id] := Function.update_self ..

/-- A command adds as it should exactly if it is guarded. -/
theorem adds_iff_guarded (src : Source) (key : Key) (s : Board) (h : Booked s) :
    Adds src key s ↔ Guarded key s := by
  constructor
  · intro hadds hret hcmd
    have hkey := hadds .upper hret hcmd
    rw [h.length] at hkey
    simp only [keyStep, hret, hcmd, Bool.false_eq_true, if_false] at hkey
    by_cases hl : (s.roll .lower).count < maxNumOfDiggers <;>
      by_cases hu : (s.roll .upper).count < maxNumOfDiggers
    · exact iff_of_true hl hu
    · rw [if_neg (by omega), if_neg hu, create_alive] at hkey
      exact absurd hkey (by simp)
    · rw [if_pos (by omega), if_pos hu] at hkey
      exact absurd hkey (by simp)
    · exact iff_of_false hl hu
  · intro hguard k hret hcmd
    have hsame : (s.roll .lower).count < maxNumOfDiggers ↔
        (s.roll k).count < maxNumOfDiggers := by
      cases k with
      | lower => exact Iff.rfl
      | upper => exact hguard hret hcmd
    rw [h.length]
    simp only [keyStep, hret, hcmd, Bool.false_eq_true, if_false]
    by_cases hl : (s.roll .lower).count < maxNumOfDiggers
    · rw [if_neg (by omega), if_pos (hsame.mp hl), create_alive]
    · rw [if_pos (by omega), if_neg fun hk => hl (hsame.mpr hk)]

/-! ### Sequences of commands -/

theorem booked_opened (lower upper : Int) (h : lower ≠ upper) : Booked (opened lower upper) := by
  have hroom : (0 : Int) < maxNumOfDiggers := by decide
  have hempty : Booked ⟨fun _ => ⟨0, fun _ => 0⟩, fun _ => [], false⟩ :=
    ⟨fun _ => ⟨Int.le_refl 0, Int.le_of_lt hroom⟩, fun _ => rfl, fun _ => List.nodup_nil,
      fun _ hid => by cases hid⟩
  have hlower : Booked (Board.create .lower lower ⟨fun _ => ⟨0, fun _ => 0⟩, fun _ => [], false⟩) :=
    hempty.create ⟨List.not_mem_nil, List.not_mem_nil⟩ hroom
  refine hlower.create ⟨fun hid => ?_, List.not_mem_nil⟩ hroom
  exact h (List.mem_singleton.mp hid).symm

/-- **The books are right after every sequence of commands, and every command adds as it
says, exactly when every `I` of it is guarded**: it finds the two crews both full or both
with room. -/
theorem books_iff_guarded (src : Source) (lower upper : Int) (hfirst : lower ≠ upper)
    (keys : List Key) (hspawn : Along (keyStep src) Spawns (opened lower upper) keys) :
    Throughout (keyStep src) Booked (opened lower upper) keys ∧
        Along (keyStep src) (Adds src) (opened lower upper) keys ↔
      Along (keyStep src) Guarded (opened lower upper) keys := by
  have hopened := booked_opened lower upper hfirst
  have hboth : Along (keyStep src) (fun key s => Booked (keyStep src key s) ∧ Adds src key s)
      (opened lower upper) keys ↔ Along (keyStep src) Guarded (opened lower upper) keys :=
    along_iff_along_within (booked_step src)
      (fun key s h hd => ⟨fun hk => (adds_iff_guarded src key s h).mp hk.2,
        fun hC => ⟨booked_step src key s h hd hC, (adds_iff_guarded src key s h).mpr hC⟩⟩)
      hopened hspawn
  rw [← hboth, throughout_iff_along_after, and_iff_right hopened]
  exact Along.and_iff

/-- A digger of each kind more, one less, and the end of the shift. -/
theorem books_of_shift :
    Throughout (keyStep .task2) Booked (opened 1 2) [⟨'i', 3⟩, ⟨'I', 4⟩, ⟨'o', 5⟩, ⟨'E', 5⟩] ∧
        Along (keyStep .task2) (Adds .task2) (opened 1 2)
          [⟨'i', 3⟩, ⟨'I', 4⟩, ⟨'o', 5⟩, ⟨'E', 5⟩] ↔
      Along (keyStep .task2) Guarded (opened 1 2) [⟨'i', 3⟩, ⟨'I', 4⟩, ⟨'o', 5⟩, ⟨'E', 5⟩] :=
  books_iff_guarded .task2 1 2 (by decide) _ (by decide)

/-- `I`, typed `n` times. -/
def typedI (n : Nat) : List Key := (List.range n).map fun (i : Nat) => ⟨'I', i + 3⟩

/-- Fifty times `I` and no `i`: the last upper digger's id goes behind the array. -/
theorem overfull_upper :
    Along (keyStep .company) Spawns (opened 1 2) (typedI 50) ∧
      ¬ (Throughout (keyStep .company) Booked (opened 1 2) (typedI 50) ∧
        Along (keyStep .company) (Adds .company) (opened 1 2) (typedI 50)) := by
  refine ⟨by decide +kernel, fun h => ?_⟩
  have hwithin := (h.1.last.within .upper).2
  revert hwithin
  decide +kernel

end RealTimeLabs.Diggers
