import Mathlib.Algebra.BigOperators.Group.List.Basic
import Mathlib.Algebra.Ring.Int.Defs
import Mathlib.Data.Nat.Count
import RealTimeLabs.Library.LinkedArray

/-! The histogram of the latency measurement.

The sender counts its round trips by their microseconds, in an array that `memset` has
cleared, as far as they are below `MAX_DELAY`, and remembers the longest of these. Then it
prints the columns up to the longest. Every access of the array is checked here. In each
round the array, the longest and the number of rounds stay in step (`tallied_round`), so
that the columns printed are the whole histogram (`histogram_lossless`). -/
namespace RealTimeLabs.Latency
open LinkedArray

/-- `MAX_DELAY`. -/
def maxDelay : Nat := 10000

/-! ### The functions -/

/-- The sender between two turns of its loop. -/
structure Sender where
  i : Int32
  delays : Nat → UInt32
  maxDelay : UInt32
  /-- Messages sent, and their answers waited for. -/
  rounds : Nat
  /-- The loop has ended, and the socket is closed. -/
  closed : Bool

/-- The end of a round: its time is counted. -/
def tally (time_elapsed : UInt32) (s : Sender) : Option Sender :=
  if time_elapsed < UInt32.ofNat maxDelay then do
    let longest := if s.maxDelay < time_elapsed then time_elapsed else s.maxDelay
    let n ← load maxDelay s.delays time_elapsed.toNat
    let delays ← store maxDelay s.delays time_elapsed.toNat (n + 1)
    return { s with maxDelay := longest, delays := delays }
  else some s

/-- The condition of the loop, before its `i++`. -/
def Sender.goesOn (messages_count : Int32) (s : Sender) : Bool :=
  s.i ≠ messages_count ∨ messages_count = 0

/-- The condition, and a round if it holds. With the largest count the last `i++` wraps; `i`
is set anew before it is read again. -/
def Sender.turn (messages_count : Int32) (elapsed : Nat → UInt32) (s : Sender) : Option Sender :=
  if s.closed then some s
  else if s.goesOn messages_count then
    (tally (elapsed s.rounds) { s with i := s.i + 1 }).map fun s =>
      { s with rounds := s.rounds + 1 }
  else some { s with i := s.i + 1, closed := true }

/-- The sender before its loop. -/
def sending : Sender := ⟨0, fun _ => 0, 0, 0, false⟩

def send (messages_count : Int32) (elapsed : Nat → UInt32) : Nat → Option Sender
  | 0 => some sending
  | k + 1 => (send messages_count elapsed k).bind (Sender.turn messages_count elapsed)

/-- The values of `i` in `for (i = 1; i < max_delay + 1; i++)`. -/
def columns (max_delay : UInt32) : List Nat := List.range' 1 ((max_delay + 1).toNat - 1)

/-- The numbers of the first row. -/
def Sender.header (s : Sender) : List Int := 0 :: (columns s.maxDelay).map Int.ofNat

/-- An element of the array, as `%d` prints it. -/
def printedDelay (delays : Nat → UInt32) (i : Nat) : Option Int :=
  (load maxDelay delays i).map fun n => n.toInt32.toInt

/-- The numbers of the second row. -/
def Sender.counts (s : Sender) : Option (List Int) :=
  (0 :: columns s.maxDelay).mapM (printedDelay s.delays)

/-! ### Counting -/

/-- The rounds so far with a time that is `j`. -/
def roundsOf (elapsed : Nat → UInt32) (j rounds : Nat) : Nat :=
  Nat.count (fun r => (elapsed r).toNat = j) rounds

/-- The rounds so far with a time below `m`. -/
def roundsBelow (elapsed : Nat → UInt32) (m rounds : Nat) : Nat :=
  Nat.count (fun r => (elapsed r).toNat < m) rounds

variable {elapsed : Nat → UInt32}

theorem roundsOf_succ (j rounds : Nat) : roundsOf elapsed j (rounds + 1) =
    roundsOf elapsed j rounds + if (elapsed rounds).toNat = j then 1 else 0 :=
  Nat.count_succ _ rounds

theorem roundsBelow_succ (m rounds : Nat) :
    roundsBelow elapsed (m + 1) rounds =
      roundsBelow elapsed m rounds + roundsOf elapsed m rounds := by
  simp only [roundsBelow, roundsOf]
  induction rounds with
  | zero => rfl
  | succ rounds ih =>
    rw [Nat.count_succ, Nat.count_succ, Nat.count_succ, ih]
    split_ifs <;> omega

/-- Columns add up. -/
theorem sum_roundsOf (m rounds : Nat) :
    ((List.range m).map fun j : Nat => (roundsOf elapsed j rounds : Int)).sum =
      roundsBelow elapsed m rounds := by
  induction m with
  | zero => simp [roundsBelow]
  | succ m ih => rw [List.sum_range_succ, ih, roundsBelow_succ, Int.natCast_add]

/-! ### The loop -/

/-- What the array and the longest time have to do with the rounds so far. -/
structure Tallied (elapsed : Nat → UInt32) (s : Sender) : Prop where
  delays : ∀ j < maxDelay, s.delays j = UInt32.ofNat (roundsOf elapsed j s.rounds)
  below : s.maxDelay.toNat < maxDelay
  longest : ∀ r < s.rounds, (elapsed r).toNat < maxDelay → (elapsed r).toNat ≤ s.maxDelay.toNat
  reached : s.maxDelay.toNat = 0 ∨ ∃ r < s.rounds, (elapsed r).toNat = s.maxDelay.toNat

theorem tallied_sending : Tallied elapsed sending where
  delays j _ := by simp [sending, roundsOf]
  below := by decide
  longest r hr := absurd hr (Nat.not_lt_zero r)
  reached := .inl rfl

theorem lt_maxDelay_iff (time_elapsed : UInt32) :
    time_elapsed < UInt32.ofNat maxDelay ↔ time_elapsed.toNat < maxDelay := UInt32.lt_iff_toNat_lt

/-- What the end of a round changes: the bucket of its time, and the longest. -/
structure TallyOf (t : UInt32) (s s' : Sender) : Prop where
  i : s'.i = s.i
  rounds : s'.rounds = s.rounds
  closed : s'.closed = s.closed
  delays : ∀ j, s'.delays j = s.delays j + if t.toNat = j ∧ j < maxDelay then 1 else 0
  longest : s'.maxDelay.toNat =
    if t.toNat < maxDelay then max s.maxDelay.toNat t.toNat else s.maxDelay.toNat

/-- No round leaves the array. -/
theorem tally_spec (t : UInt32) (s : Sender) : ∃ s', tally t s = some s' ∧ TallyOf t s s' := by
  by_cases ht : t.toNat < maxDelay
  · refine ⟨{ s with
      maxDelay := if s.maxDelay < t then t else s.maxDelay
      delays := Function.update s.delays t.toNat (s.delays t.toNat + 1) },
      ?_, rfl, rfl, rfl, ?_, ?_⟩
    · simp only [tally, if_pos ((lt_maxDelay_iff t).mpr ht), load_of_lt ht, store_of_lt ht,
        Option.bind_eq_bind, Option.bind_some, Option.pure_def]
    · intro j
      change Function.update s.delays _ _ j = _
      by_cases hj : t.toNat = j
      · subst hj
        rw [Function.update_self, if_pos ⟨rfl, ht⟩]
      · rw [Function.update_of_ne (Ne.symm hj), if_neg fun h => hj h.1, UInt32.add_zero]
    · rw [if_pos ht]
      by_cases hlonger : s.maxDelay < t
      · rw [if_pos hlonger, Nat.max_eq_right (Nat.le_of_lt (UInt32.lt_iff_toNat_lt.mp hlonger))]
      · have hle := UInt32.le_iff_toNat_le.mp (UInt32.not_lt.mp hlonger)
        rw [if_neg hlonger, Nat.max_eq_left hle]
  · refine ⟨s, if_neg fun h => ht ((lt_maxDelay_iff t).mp h), rfl, rfl, rfl, fun j => ?_, ?_⟩
    · have hnone : ¬ (t.toNat = j ∧ j < maxDelay) := fun ⟨he, hj⟩ => ht (he ▸ hj)
      rw [if_neg hnone, UInt32.add_zero]
    · rw [if_neg ht]

/-- A round. -/
theorem tallied_round {s : Sender} (h : Tallied elapsed s) (i : Int32) :
    ∃ s', (tally (elapsed s.rounds) { s with i := i }).map
        (fun s => { s with rounds := s.rounds + 1 }) = some s' ∧
      Tallied elapsed s' ∧ s'.rounds = s.rounds + 1 ∧ s'.i = i ∧ s'.closed = s.closed := by
  obtain ⟨s', hs', htally⟩ := tally_spec (elapsed s.rounds) { s with i := i }
  have hrounds : s'.rounds = s.rounds := htally.rounds
  have hlongest : s'.maxDelay.toNat = if (elapsed s.rounds).toNat < maxDelay then
      max s.maxDelay.toNat (elapsed s.rounds).toNat else s.maxDelay.toNat := htally.longest
  have hbelow := h.below
  rw [hs']
  refine ⟨{ s' with rounds := s'.rounds + 1 }, rfl, ?_, congrArg (· + 1) hrounds, htally.i,
    htally.closed⟩
  constructor
  · intro j hj
    simp only [hrounds]
    rw [roundsOf_succ, htally.delays, h.delays j hj, UInt32.ofNat_add]
    by_cases hj' : (elapsed s.rounds).toNat = j
    · rw [if_pos ⟨hj', hj⟩, if_pos hj']
      rfl
    · rw [if_neg fun hand => hj' hand.1, if_neg hj']
      rfl
  · simp only
    split at hlongest <;> omega
  · simp only [hrounds]
    intro r hr hcounted
    rcases Nat.lt_succ_iff_lt_or_eq.mp hr with hlt | rfl
    · have hle := h.longest r hlt hcounted
      split at hlongest <;> omega
    · rw [if_pos hcounted] at hlongest
      omega
  · simp only [hrounds]
    have hkept (hsame : s'.maxDelay.toNat = s.maxDelay.toNat) : s'.maxDelay.toNat = 0 ∨
        ∃ r < s.rounds + 1, (elapsed r).toNat = s'.maxDelay.toNat := by
      rw [hsame]
      exact h.reached.imp_right fun ⟨r, hr, heq⟩ => ⟨r, Nat.lt_succ_of_lt hr, heq⟩
    split at hlongest
    · rcases Nat.le_total (elapsed s.rounds).toNat s.maxDelay.toNat with hle | hge
      · exact hkept (by omega)
      · exact .inr ⟨s.rounds, Nat.lt_succ_self _, by omega⟩
    · exact hkept hlongest

/-- Some time has been as long as the longest, if there has been one that is counted. -/
theorem Tallied.exists_longest {s : Sender} (h : Tallied elapsed s)
    (hsome : ∃ r < s.rounds, (elapsed r).toNat < maxDelay) :
    ∃ r < s.rounds, (elapsed r).toNat = s.maxDelay.toNat := by
  obtain ⟨r, hr, hbelow⟩ := hsome
  rcases h.reached with hzero | hreached
  · have hle := h.longest r hr hbelow
    exact ⟨r, hr, by omega⟩
  · exact hreached

section
variable (elapsed) (messages_count : Int32)

/-- As long as the count is not reached, a turn is a round. -/
theorem send_rounds (k : Nat) (hk : (k : Int) ≤ messages_count.toInt) :
    ∃ s, send messages_count elapsed k = some s ∧ Tallied elapsed s ∧ s.rounds = k ∧
      s.i.toInt = k ∧ s.closed = false := by
  induction k with
  | zero => exact ⟨sending, rfl, tallied_sending, rfl, rfl, rfl⟩
  | succ k ih =>
    obtain ⟨s, hs, htallied, hrounds, hi, hopen⟩ := ih (by omega)
    obtain ⟨s', hs', htallied', hrounds', hi', hopen'⟩ := tallied_round htallied (s.i + 1)
    have hgoes : s.goesOn messages_count = true := by
      simp only [Sender.goesOn, decide_eq_true_eq]
      left
      intro he
      rw [he] at hi
      omega
    refine ⟨s', ?_, htallied', by omega, ?_, hopen'.trans hopen⟩
    · rw [send, hs, Option.bind_some, Sender.turn, if_neg (Bool.eq_false_iff.mp hopen),
        if_pos hgoes]
      exact hs'
    · have hone : (1 : Int32).toInt = 1 := rfl
      have hlt := messages_count.toInt_lt
      rw [hi', Int32.toInt_add, hone, hi, Int.bmod_eq_of_le (by omega) (by omega)]
      rfl

/-- And then the loop is over. -/
theorem send_closed (h : 0 < messages_count.toInt) (more : Nat) :
    ∃ s, send messages_count elapsed (messages_count.toInt.toNat + 1 + more) = some s ∧
      Tallied elapsed s ∧ s.rounds = messages_count.toInt.toNat ∧ s.closed = true := by
  induction more with
  | zero =>
    obtain ⟨s, hs, htallied, hrounds, hi, hopen⟩ :=
      send_rounds elapsed messages_count messages_count.toInt.toNat (by omega)
    have hend : ¬ s.goesOn messages_count = true := by
      simp only [Sender.goesOn, decide_eq_true_eq]
      have hsame : s.i = messages_count := Int32.toInt_inj.mp (by omega)
      have hne : messages_count ≠ 0 := fun he => by
        rw [he] at h
        exact absurd h (by decide)
      intro hgoes
      rcases hgoes with hi' | hzero
      · exact hi' hsame
      · exact hne hzero
    refine ⟨{ s with i := s.i + 1, closed := true }, ?_,
      ⟨htallied.delays, htallied.below, htallied.longest, htallied.reached⟩, hrounds, rfl⟩
    rw [Nat.add_zero, send, hs, Option.bind_some, Sender.turn, if_neg (Bool.eq_false_iff.mp hopen),
      if_neg hend]
  | succ more ih =>
    obtain ⟨s, hs, htallied, hrounds, hclosed⟩ := ih
    refine ⟨s, ?_, htallied, hrounds, hclosed⟩
    rw [← Nat.add_assoc, send, hs, Option.bind_some, Sender.turn, if_pos hclosed]

end

/-! ### The rows -/

/-- The rows printed are the histogram of `rounds` rounds. -/
structure Lossless (elapsed : Nat → UInt32) (rounds : Nat) (s : Sender) (counts : List Int) :
    Prop where
  header_length : s.header.length = s.maxDelay.toNat + 1
  counts_length : counts.length = s.maxDelay.toNat + 1
  /-- Column `j` is headed `j`, and has the number of rounds with that time. -/
  column : ∀ j ≤ s.maxDelay.toNat,
    s.header[j]? = some (j : Int) ∧ counts[j]? = some (roundsOf elapsed j rounds : Int)
  beyond : ∀ j < maxDelay, s.maxDelay.toNat < j → s.delays j = 0
  last : (∃ r < rounds, (elapsed r).toNat < maxDelay) → ∃ n ≠ 0, counts.getLast? = some n
  sum : counts.sum = roundsBelow elapsed maxDelay rounds

theorem columns_eq {max_delay : UInt32} (h : max_delay.toNat < maxDelay) :
    0 :: columns max_delay = List.range (max_delay.toNat + 1) := by
  have hlimit : maxDelay = 10000 := rfl
  have hnext : (max_delay + 1).toNat = max_delay.toNat + 1 := by
    rw [UInt32.toNat_add]
    exact Nat.mod_eq_of_lt (show max_delay.toNat + 1 < 2 ^ 32 by omega)
  rw [columns, hnext, Nat.add_sub_cancel, List.range_eq_range', List.range'_succ]

/-- A number of rounds of the loop is printed as it is. -/
theorem printedDelay_eq {s : Sender} (h : Tallied elapsed s) (hrounds : s.rounds < 2147483648)
    {j : Nat} (hj : j < maxDelay) :
    printedDelay s.delays j = some (roundsOf elapsed j s.rounds : Int) := by
  have hle : roundsOf elapsed j s.rounds ≤ s.rounds := Nat.count_le _
  rw [printedDelay, load_of_lt hj, Option.map_some, h.delays j hj]
  congr 1
  exact Int32.toInt_ofNat_of_lt (by omega)

theorem mapM_eq_map {f : Nat → Option Int} {g : Nat → Int} {l : List Nat}
    (h : ∀ j ∈ l, f j = some (g j)) : l.mapM f = some (l.map g) := by
  induction l with
  | nil => rfl
  | cons j rest ih =>
    obtain ⟨hj, hrest⟩ := List.forall_mem_cons.mp h
    rw [List.mapM_cons, hj, ih hrest]
    rfl

theorem counts_eq {s : Sender} (h : Tallied elapsed s) (hrounds : s.rounds < 2147483648) :
    s.counts = some ((List.range (s.maxDelay.toNat + 1)).map fun j : Nat =>
      (roundsOf elapsed j s.rounds : Int)) := by
  have hprint : ∀ j ∈ List.range (s.maxDelay.toNat + 1),
      printedDelay s.delays j = some (roundsOf elapsed j s.rounds : Int) := by
    intro j hj
    have hle : j ≤ s.maxDelay.toNat := Nat.lt_succ_iff.mp (List.mem_range.mp hj)
    exact printedDelay_eq h hrounds (Nat.lt_of_le_of_lt hle h.below)
  rw [Sender.counts, columns_eq h.below]
  exact mapM_eq_map hprint

theorem header_eq {s : Sender} (h : Tallied elapsed s) :
    s.header = (List.range (s.maxDelay.toNat + 1)).map Int.ofNat := by
  rw [← columns_eq h.below]
  rfl

theorem lossless_of_tallied {s : Sender} (h : Tallied elapsed s) :
    Lossless elapsed s.rounds s ((List.range (s.maxDelay.toNat + 1)).map fun j : Nat =>
      (roundsOf elapsed j s.rounds : Int)) := by
  have hlimit : maxDelay = 10000 := rfl
  have hbelow := h.below
  constructor
  · rw [header_eq h, List.length_map, List.length_range]
  · rw [List.length_map, List.length_range]
  · intro j hj
    have hget : (List.range (s.maxDelay.toNat + 1))[j]? = some j :=
      List.getElem?_range (Nat.lt_succ_of_le hj)
    rw [header_eq h, List.getElem?_map, List.getElem?_map, hget]
    exact ⟨rfl, rfl⟩
  · intro j hj hbeyond
    have hnone : roundsOf elapsed j s.rounds = 0 := Nat.count_of_forall_not fun r hr heq => by
      have hle := h.longest r hr (by omega)
      omega
    rw [h.delays j hj, hnone]
    rfl
  · intro hsome
    obtain ⟨r, hr, heq⟩ := h.exists_longest hsome
    have hne : roundsOf elapsed s.maxDelay.toNat s.rounds ≠ 0 :=
      Nat.count_ne_iff_exists.mpr ⟨r, hr, heq⟩
    refine ⟨roundsOf elapsed s.maxDelay.toNat s.rounds, by omega, ?_⟩
    rw [List.range_succ, List.map_append, List.map_singleton, List.getLast?_concat]
  · have hcounted : roundsBelow elapsed maxDelay s.rounds =
        roundsBelow elapsed (s.maxDelay.toNat + 1) s.rounds := by
      apply Nat.le_antisymm
      · exact Nat.count_mono_left fun r hr hlt => Nat.lt_succ_of_le (h.longest r hr hlt)
      · exact Nat.count_mono_left fun r _ hlt => by omega
    rw [hcounted, sum_roundsOf]

/-- **The histogram loses nothing**: for a positive count the loop makes as many rounds, no
access leaves the array, and the rows printed are the histogram of all of them. -/
theorem histogram_lossless (messages_count : Int32) (h : 0 < messages_count.toInt)
    (elapsed : Nat → UInt32) :
    (∀ k ≤ messages_count.toInt.toNat, ∃ s, send messages_count elapsed k = some s ∧
      s.rounds = k ∧ s.closed = false) ∧
    ∀ more, ∃ s, send messages_count elapsed (messages_count.toInt.toNat + 1 + more) = some s ∧
      s.rounds = messages_count.toInt.toNat ∧ s.closed = true ∧
      ∃ counts, s.counts = some counts ∧
        Lossless elapsed messages_count.toInt.toNat s counts := by
  constructor
  · intro k hk
    obtain ⟨s, hs, -, hrounds, -, hopen⟩ :=
      send_rounds elapsed messages_count k (by omega)
    exact ⟨s, hs, hrounds, hopen⟩
  · intro more
    obtain ⟨s, hs, htallied, hrounds, hclosed⟩ := send_closed elapsed messages_count h more
    have hlt := messages_count.toInt_lt
    have hlossless := lossless_of_tallied htallied
    rw [hrounds] at hlossless
    have hcounts := counts_eq htallied (by omega)
    rw [hrounds] at hcounts
    exact ⟨s, hs, hrounds, hclosed, _, hcounts, hlossless⟩

/-- Three messages, one of them lost in the delay. -/
theorem histogram_lossless_three :
    (∀ k ≤ 3, ∃ s, send 3 (fun r => UInt32.ofNat (r * 7000)) k = some s ∧
      s.rounds = k ∧ s.closed = false) ∧
    ∀ more, ∃ s, send 3 (fun r => UInt32.ofNat (r * 7000)) (3 + 1 + more) = some s ∧
      s.rounds = 3 ∧ s.closed = true ∧
      ∃ counts, s.counts = some counts ∧
        Lossless (fun r => UInt32.ofNat (r * 7000)) 3 s counts :=
  histogram_lossless 3 (by decide) _

end RealTimeLabs.Latency
