import Mathlib.Data.List.InsertIdx
import RealTimeLabs.Steering.Boards

/-! The receiver replays the transmitter.

Each datagram is known by the moment at which it has been sent, the number of actions before
it. Whatever the network does, the set-point of the receiver is a position that the transmitter
has had, at a moment of the same run that is not in the future. If the network keeps the order,
these moments never go back, whatever it loses: the receiver sees the transmitter's history with
gaps, and sees it forwards (`setPoint_replays`). -/
namespace RealTimeLabs.Steering
open Bytes Datagrams Interleaving

/-- The network keeps the order of the datagrams, and duplicates none. -/
def InOrder : Action → Boards → Prop
  | .deliver i, _ => i = 0
  | .duplicate _, _ => False
  | _, _ => True

/-- What an action at moment `n` is for the datagrams. -/
def event (n : Nat) : Action → Boards → Event Nat
  | .send, s => if s.transmitter.isr = .idle then .send n else .idle
  | .deliver i, s =>
    if s.receiver.isr = .idle ∧ s.receiver.udp = .receive then .deliver i else .idle
  | .lose i, _ => .lose i
  | .duplicate i, _ => .duplicate i
  | _, _ => .idle

/-- The boards, and the moments behind the datagrams and the set-point. -/
structure Dated where
  boards : Boards
  now : Nat
  channel : Channel Nat

def datedStep (a : Action) (t : Dated) : Dated where
  boards := step a t.boards
  now := t.now + 1
  channel := Datagrams.step (event t.now a t.boards) t.channel

def dated (s : Boards) : Dated := ⟨s, 0, ⟨[], 0⟩⟩

/-- At moment `d` the position has been `f d`. -/
structure Shows (f : Nat → Int32) (t : Dated) : Prop where
  inFlight : t.boards.inFlight = t.channel.inFlight.map fun d => datagram (f d)
  setPoint : t.boards.setPoint = f t.channel.shown

/-- The moments are in the past. -/
def Past (t : Dated) : Prop :=
  (∀ d ∈ t.channel.inFlight, d < t.now) ∧ t.channel.shown ≤ t.now

theorem past_step (a : Action) (t : Dated) (h : Past t) : Past (datedStep a t) := by
  have honly : Only (· ≤ t.now) t.channel := ⟨fun d hd => Nat.le_of_lt (h.1 d hd), h.2⟩
  have hnext := honly.step (e := event t.now a t.boards) fun x hx => by
    cases a with
    | send =>
      simp only [event] at hx
      split at hx <;> cases hx
      exact Nat.le_refl _
    | deliver i =>
      simp only [event] at hx
      split at hx <;> cases hx
    | _ => cases hx
  exact ⟨fun d hd => Nat.lt_succ_of_le (hnext.inFlight d hd),
    Nat.le_succ_of_le hnext.shown⟩

/-- What is sent is dated with the present, which is later than what is on its way. -/
theorem ordered_datedStep (a : Action) (t : Dated) (h : Past t ∧ Ordered t.channel)
    (hC : InOrder a t.boards) : Past (datedStep a t) ∧ Ordered (datedStep a t).channel := by
  refine ⟨past_step a t h.1, h.2.step ?_ fun x hx => ?_⟩
  · cases a with
    | send =>
      simp only [event]
      split <;> trivial
    | deliver i =>
      simp only [event]
      split
      · exact hC
      · trivial
    | duplicate i => exact hC.elim
    | _ => trivial
  · have hnow : x = t.now := by
      cases a with
      | send =>
        simp only [event] at hx
        split at hx <;> cases hx
        rfl
      | deliver i =>
        simp only [event] at hx
        split at hx <;> cases hx
      | _ => cases hx
    rw [hnow]
    exact ⟨fun d hd => Nat.le_of_lt (h.1.1 d hd), h.1.2⟩

/-- The datagrams on their way and the set-point are what the moments say. -/
theorem shows_step {f : Nat → Int32} (a : Action) (t : Dated) (h : Shows f t)
    (hnow : f t.now = t.boards.position) : Shows f (datedStep a t) := by
  obtain ⟨hflight, hset⟩ := h
  cases a with
  | transmitter a =>
    simp only [datedStep, step, event, Datagrams.step]
    split <;> exact ⟨hflight, hset⟩
  | receiver a =>
    simp only [datedStep, step, event, Datagrams.step]
    split
    · rename_i hown
      exact ⟨hflight, (setPoint_step_own hown _).trans hset⟩
    · exact ⟨hflight, hset⟩
  | send =>
    simp only [datedStep, step, sendStep, event]
    split
    · refine ⟨?_, hset⟩
      simp only [Datagrams.step, List.map_append, List.map_singleton, hnow, ← hflight]
      rfl
    · exact ⟨hflight, hset⟩
  | deliver i =>
    simp only [datedStep, step, deliverStep, event]
    split
    · rename_i hready
      have hget : t.boards.inFlight[i]? = t.channel.inFlight[i]?.map fun d => datagram (f d) := by
        rw [hflight, List.getElem?_map]
      cases hd : t.channel.inFlight[i]? with
      | none =>
        rw [hd] at hget
        simp only [hget, Datagrams.step, hd, Option.map_none]
        exact ⟨hflight, hset⟩
      | some d =>
        rw [hd] at hget
        simp only [hget, Datagrams.step, hd, Option.map_some]
        refine ⟨?_, ?_⟩
        · simp only [hflight, List.eraseIdx_map]
        · simp only [Boards.setPoint, Motor.step, if_pos hready.1, Motor.receiveStep, hready.2]
          exact received_datagram _ _
    · exact ⟨hflight, hset⟩
  | lose i =>
    refine ⟨?_, hset⟩
    simp only [datedStep, step, event, Datagrams.step, hflight, List.eraseIdx_map]
  | duplicate i =>
    refine ⟨?_, hset⟩
    simp only [datedStep, step, event, Datagrams.step, hflight, List.map_append,
      List.getElem?_map, Option.toList_map]

/-! ### Runs -/

theorem run_dated_boards (s : Boards) (acts : List Action) :
    (Interleaving.run datedStep (dated s) acts).boards = run s acts :=
  run_watched (π := Dated.boards) (fun _ _ => rfl) (dated s) acts

theorem run_dated_now (t : Dated) (acts : List Action) :
    (Interleaving.run datedStep t acts).now = t.now + acts.length := by
  induction acts generalizing t with
  | nil => rfl
  | cons a rest ih =>
    rw [Interleaving.run, ih, List.length_cons]
    change t.now + 1 + rest.length = _
    omega

theorem past_dated (s : Boards) : Past (dated s) := ⟨fun _ hd => (by cases hd), Nat.le_refl 0⟩

theorem shows_run (t r : Bench) (acts : List Action) (k : Nat) (hk : k ≤ acts.length) :
    Shows (fun d => (run (initial t r) (acts.take d)).position)
      (Interleaving.run datedStep (dated (initial t r)) (acts.take k)) := by
  induction k with
  | zero => exact ⟨rfl, rfl⟩
  | succ k ih =>
    have hlt : k < acts.length := hk
    rw [run_take_succ _ hlt]
    refine shows_step _ _ (ih (Nat.le_of_lt hlt)) ?_
    rw [run_dated_boards, run_dated_now, List.length_take_of_le (Nat.le_of_lt hlt)]
    change (run (initial t r) (acts.take (0 + k))).position = _
    rw [Nat.zero_add]

/-- **The receiver's set-point is a position that the transmitter has had before**, whatever the
network loses, duplicates and reorders; and one that is never older than the set-points before it,
if the network keeps the order. -/
theorem setPoint_replays (t r : Bench) (acts : List Action) :
    ∃ moment : Nat → Nat,
      (∀ k ≤ acts.length, moment k ≤ k ∧ (run (initial t r) (acts.take k)).setPoint =
        (run (initial t r) (acts.take (moment k))).position) ∧
      (Along step InOrder (initial t r) acts →
        ∀ k < acts.length, moment k ≤ moment (k + 1)) := by
  refine ⟨fun k => (Interleaving.run datedStep (dated (initial t r)) (acts.take k)).channel.shown,
    fun k hk => ?_, fun hC k hk => ?_⟩
  · have hpast : Past (Interleaving.run datedStep (dated (initial t r)) (acts.take k)) :=
      run_invariant past_step (past_dated _) _
    have hnow := run_dated_now (dated (initial t r)) (acts.take k)
    rw [List.length_take_of_le hk] at hnow
    have hshows := (shows_run t r acts k hk).setPoint
    rw [run_dated_boards] at hshows
    refine ⟨?_, hshows⟩
    have hle := hpast.2
    rw [hnow] at hle
    exact hle.trans (Nat.le_of_eq (Nat.zero_add k))
  · have hwatched : Along datedStep (fun a t => InOrder a t.boards) (dated (initial t r))
        (acts.take k) := along_watched (π := Dated.boards) (fun _ _ => rfl) (hC.take k)
    have hordered := (throughout_of_along ordered_datedStep
      ⟨past_dated _, List.pairwise_singleton _ _⟩ hwatched).last
    beta_reduce
    rw [run_take_succ _ hk]
    exact hordered.2.shown_le _

end RealTimeLabs.Steering
