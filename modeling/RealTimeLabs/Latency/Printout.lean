import RealTimeLabs.Latency.Exchange
import RealTimeLabs.Library.Table

/-! What the sender prints.

Whatever the network does, and even when calls fail, the sender takes the turns of `send` with the
times that it has measured (`refined_run`). So the two rows that it prints in the end, read back,
are the histogram of exactly these times (`exchange_printed`). -/
namespace RealTimeLabs.Latency

/-! ### The text -/

/-- The separator of a row. -/
def comma : Table.Separator Table.decimal := ⟨[',', ' '], by decide, by decide⟩

/-- The `printf` of a row, its first number apart from the others. -/
def printRow : List Int → List Char
  | [] => []
  | first :: rest =>
    Table.writeDecimal first ++ (rest.flatMap fun n => ", ".toList ++ Table.writeDecimal n) ++
      "\n".toList

/-- What the sender prints, when its loop is over. -/
def Sender.printed (s : Sender) : Option (List Char) :=
  s.counts.map fun counts =>
    "Measurement started\n".toList ++ printRow s.header ++ printRow counts ++
      "Measurement finished\n".toList

theorem printRow_eq {row : List Int} (h : row ≠ []) : printRow row = Table.line comma row := by
  cases row with
  | nil => exact absurd rfl h
  | cons first rest => rfl

theorem read_printed {header counts : List Int} (hheader : header ≠ []) (hcounts : counts ≠ []) :
    Table.read Table.decimal ("Measurement started\n".toList ++ printRow header ++
      printRow counts ++ "Measurement finished\n".toList) = [[], header, counts, []] := by
  have hstarted : "Measurement started\n".toList = "Measurement started".toList ++ ['\n'] := rfl
  have hfinished : "Measurement finished\n".toList = "Measurement finished".toList ++ ['\n'] := rfl
  have hrows : printRow header ++ printRow counts = Table.text comma [header, counts] := by
    rw [printRow_eq hheader, printRow_eq hcounts, Table.text, List.flatMap_cons,
      List.flatMap_singleton]
  rw [List.append_assoc _ (printRow header), hrows, hstarted, hfinished]
  exact Table.read_between comma [header, counts] (by decide +kernel) (by decide +kernel)

/-! ### The sender's turns -/

variable {u : Setup} {x : Exchange}

/-- The times of the rounds so far. -/
def Agrees (elapsed : Nat → UInt32) (measured : List UInt32) : Prop :=
  ∀ r (h : r < measured.length), elapsed r = measured[r]

theorem Agrees.of_concat {elapsed : Nat → UInt32} {measured : List UInt32} {t : UInt32}
    (h : Agrees elapsed (measured ++ [t])) :
    Agrees elapsed measured ∧ elapsed measured.length = t := by
  refine ⟨fun r hr => ?_, ?_⟩
  · have hlt : r < (measured ++ [t]).length := by
      rw [List.length_append]
      exact Nat.lt_add_right _ hr
    rw [h r hlt, List.getElem_append_left hr]
  · rw [h measured.length (by rw [List.length_append]; exact Nat.lt_succ_self _),
      List.getElem_concat_length]
    rfl

/-- The sender's state, from the one before its turn. -/
def Turned (count : Int32) (s sender : Sender) : SenderPc → Prop
  | .test => sender = s
  | .closed => s.goesOn count = false ∧ sender = { s with i := s.i + 1, closed := true }
  | _ => s.goesOn count = true ∧ sender = { s with i := s.i + 1 }

/-- The sender has taken the turns of `send` with the times that it has measured. -/
structure Refined (u : Setup) (x : Exchange) : Prop where
  rounds : x.sender.rounds = x.measured.length
  turned : ∀ elapsed, Agrees elapsed x.measured →
    ∃ s, send u.messages_count elapsed x.measured.length = some s ∧ s.closed = false ∧
      Turned u.messages_count s x.sender x.pc

theorem refined_opening (u : Setup) : Refined u opening where
  rounds := rfl
  turned _ _ := ⟨sending, rfl, rfl, rfl⟩

/-- A step that leaves the sender's variables alone, and its place in the round. -/
theorem Refined.congr {x' : Exchange} (h : Refined u x) (hsender : x'.sender = x.sender)
    (hmeasured : x'.measured = x.measured)
    (hpc : ∀ s, Turned u.messages_count s x.sender x.pc →
      Turned u.messages_count s x.sender x'.pc) : Refined u x' where
  rounds := by rw [hsender, hmeasured]; exact h.rounds
  turned elapsed helapsed := by
    rw [hmeasured] at helapsed ⊢
    obtain ⟨s, hs, hopen, hturned⟩ := h.turned elapsed helapsed
    rw [hsender]
    exact ⟨s, hs, hopen, hpc s hturned⟩

theorem refined_endRound {begun clock : UInt64} (h : Refined u x) (hpc : x.pc = .stop begun) :
    Refined u (u.endRound begun clock x) := by
  obtain ⟨s', hs', htally⟩ := tally_spec (timeElapsed u.sysTimestampFreq begun clock) x.sender
  have hrounds : (u.endRound begun clock x).sender.rounds = x.sender.rounds + 1 :=
    endRound_rounds u begun clock x
  refine ⟨?_, fun elapsed helapsed => ?_⟩
  · rw [hrounds, h.rounds]
    simp only [Setup.endRound, List.length_append, List.length_singleton]
  · have hmeasured : (u.endRound begun clock x).measured =
        x.measured ++ [timeElapsed u.sysTimestampFreq begun clock] := rfl
    rw [hmeasured] at helapsed ⊢
    obtain ⟨hearlier, hlast⟩ := helapsed.of_concat
    obtain ⟨s, hs, hopen, hturned⟩ := h.turned elapsed hearlier
    rw [hpc] at hturned
    obtain ⟨hgoes, hsender⟩ := hturned
    have hround : s.rounds = x.measured.length := by
      have hrounds := h.rounds
      rw [hsender] at hrounds
      exact hrounds
    rw [hsender] at hs' htally
    refine ⟨{ s' with rounds := s'.rounds + 1 }, ?_, htally.closed.trans hopen, ?_⟩
    · have htime : elapsed s.rounds = timeElapsed u.sysTimestampFreq begun clock := by
        rw [hround, hlast]
      rw [List.length_append, List.length_singleton, send, hs, Option.bind_some, Sender.turn,
        if_neg (Bool.eq_false_iff.mp hopen), if_pos hgoes, htime, hs']
      rfl
    · change (u.endRound begun clock x).sender = _
      simp only [Setup.endRound, hsender, hs', Option.getD_some]

theorem refined_sender (clock : UInt64) (h : Refined u x) : Refined u (u.senderStep clock x) := by
  unfold Setup.senderStep
  split <;> rename_i hpc
  case h_1 =>
    by_cases hgoes : x.sender.goesOn u.messages_count = true
    · rw [if_pos hgoes]
      refine ⟨h.rounds, fun elapsed helapsed => ?_⟩
      obtain ⟨s, hs, hopen, hturned⟩ := h.turned elapsed helapsed
      rw [hpc] at hturned
      have hsame : x.sender = s := hturned
      exact ⟨s, hs, hopen, hsame ▸ hgoes, by rw [hsame]⟩
    · rw [if_neg hgoes]
      refine ⟨h.rounds, fun elapsed helapsed => ?_⟩
      obtain ⟨s, hs, hopen, hturned⟩ := h.turned elapsed helapsed
      rw [hpc] at hturned
      have hsame : x.sender = s := hturned
      exact ⟨s, hs, hopen, hsame ▸ Bool.eq_false_iff.mpr hgoes, by rw [hsame]⟩
  case h_2 => exact h.congr rfl rfl fun s hs => by rw [hpc] at hs; exact hs
  case h_3 => exact h.congr rfl rfl fun s hs => by rw [hpc] at hs; exact hs
  case h_4 => exact refined_endRound h hpc
  all_goals exact h

theorem refined_step (e : Event) (x : Exchange) (h : Refined u x) : Refined u (step u e x) := by
  cases e with
  | sender clock => exact refined_sender clock h
  | receive j =>
    simp only [step, Setup.receive]
    split
    · rename_i hpc _
      exact h.congr rfl rfl fun s hs => by rw [hpc] at hs; exact hs
    · exact h
  | listen j =>
    rcases listen_cases u j x with ⟨_, _, _, hlisten⟩ | hlisten | ⟨_, _, hlisten⟩ <;>
      (simp only [step, hlisten]; exact h.congr rfl rfl fun s hs => hs)
  | senderFails =>
    simp only [step]
    split
    · rename_i hpc
      exact h.congr rfl rfl fun s hs => by rw [hpc] at hs; exact hs
    · exact h
  | _ => exact h.congr rfl rfl fun s hs => hs

theorem refined_run (u : Setup) (events : List Event) : Refined u (run u opening events) :=
  Interleaving.run_invariant refined_step (refined_opening u) events

/-! ### The histogram -/

theorem roundsOf_measured {elapsed : Nat → UInt32} {measured : List UInt32}
    (h : Agrees elapsed measured) (j : Nat) :
    roundsOf elapsed j measured.length = measured.countP fun t => t.toNat = j := by
  induction measured using List.reverseRecOn with
  | nil => rfl
  | append_singleton measured t ih =>
    obtain ⟨hearlier, hlast⟩ := h.of_concat
    rw [List.length_append, List.length_singleton, roundsOf_succ, ih hearlier, hlast,
      List.countP_append, List.countP_singleton]
    simp only [decide_eq_true_eq]

/-- The longest of the times that are counted. -/
structure Longest (measured : List UInt32) (longest : Nat) : Prop where
  below : longest < maxDelay
  all : ∀ t ∈ measured, t.toNat < maxDelay → t.toNat ≤ longest
  reached : longest = 0 ∨ ∃ t ∈ measured, t.toNat = longest

theorem longest_of_tallied {elapsed : Nat → UInt32} {measured : List UInt32} {s : Sender}
    (helapsed : Agrees elapsed measured) (h : Tallied elapsed s)
    (hrounds : s.rounds = measured.length) : Longest measured s.maxDelay.toNat where
  below := h.below
  all t ht hcounted := by
    obtain ⟨r, hr, rfl⟩ := List.getElem_of_mem ht
    rw [← helapsed r hr] at hcounted ⊢
    exact h.longest r (hrounds ▸ hr) hcounted
  reached := by
    refine h.reached.imp_right fun ⟨r, hr, heq⟩ => ?_
    rw [hrounds] at hr
    exact ⟨measured[r], List.getElem_mem hr, by rw [← helapsed r hr, heq]⟩

/-- The rounds of a sender that has left its loop. -/
theorem closed_rounds {count : Int32} (hcount : 0 < count.toInt) {elapsed : Nat → UInt32} {k : Nat}
    {s : Sender} (hs : send count elapsed k = some s) (hopen : s.closed = false)
    (hend : s.goesOn count = false) :
    Tallied elapsed s ∧ s.rounds = k ∧ k = count.toInt.toNat := by
  rcases Nat.lt_or_ge count.toInt.toNat k with hmore | hle
  · obtain ⟨more, rfl⟩ := Nat.exists_eq_add_of_lt hmore
    obtain ⟨s', hs', _, _, hclosed⟩ := send_closed elapsed count hcount more
    have hindex : count.toInt.toNat + more + 1 = count.toInt.toNat + 1 + more := by omega
    rw [hindex, hs'] at hs
    rw [Option.some.inj hs, hopen] at hclosed
    cases hclosed
  · obtain ⟨s', hs', htallied, hrounds, hi, _⟩ := send_rounds elapsed count k (by omega)
    rw [hs'] at hs
    obtain rfl := Option.some.inj hs
    refine ⟨htallied, hrounds, ?_⟩
    have hlast : s'.i = count := Classical.byContradiction fun hne => by
      rw [Sender.goesOn, decide_eq_false_iff_not, not_or] at hend
      exact hend.1 hne
    rw [hlast] at hi
    omega

/-- **The printed histogram**: in every run, with losses, duplicates, failed calls and all, a
sender that has come to its end has measured as many times as asked for; and its two rows, read
back from what it prints, are the microseconds up to the longest time below the limit, and how
often each has been measured. -/
theorem exchange_printed (u : Setup) (hcount : 0 < u.messages_count.toInt) (events : List Event)
    (hclosed : (run u opening events).pc = .closed) :
    (run u opening events).measured.length = u.messages_count.toInt.toNat ∧
      ∃ longest text, Longest (run u opening events).measured longest ∧
        (run u opening events).sender.printed = some text ∧
        Table.read Table.decimal text =
          [[], (List.range (longest + 1)).map Int.ofNat,
            (List.range (longest + 1)).map fun j : Nat =>
              (((run u opening events).measured.countP fun t => t.toNat = j : Nat) : Int), []] := by
  have hrefined := refined_run u events
  generalize run u opening events = x at hclosed hrefined ⊢
  have helapsed : Agrees (fun r => x.measured.getD r 0) x.measured := fun r hr => by
    change x.measured.getD r 0 = _
    rw [List.getD_eq_getElem?_getD, List.getElem?_eq_getElem hr, Option.getD_some]
  obtain ⟨s, hs, hopen, hturned⟩ := hrefined.turned _ helapsed
  rw [hclosed] at hturned
  obtain ⟨hend, hsender⟩ := hturned
  obtain ⟨htallied, hrounds, hlength⟩ := closed_rounds hcount hs hopen hend
  have htallied' : Tallied (fun r => x.measured.getD r 0) x.sender := by
    rw [hsender]
    exact ⟨htallied.delays, htallied.below, htallied.longest, htallied.reached⟩
  have hbound := u.messages_count.toInt_lt
  have hcounts := counts_eq htallied' (by rw [hrefined.rounds]; omega)
  simp only [hrefined.rounds, roundsOf_measured helapsed] at hcounts
  refine ⟨hlength, x.sender.maxDelay.toNat, _,
    longest_of_tallied helapsed htallied' hrefined.rounds, by rw [Sender.printed, hcounts]; rfl, ?_⟩
  rw [header_eq htallied']
  have hne (f : Nat → Int) : (List.range (x.sender.maxDelay.toNat + 1)).map f ≠ [] := by
    rw [List.range_succ, List.map_append, List.map_singleton]
    exact List.append_ne_nil_of_right_ne_nil _ (List.cons_ne_nil _ _)
  exact read_printed (hne _) (hne _)

/-- Two rounds, and the end of the loop. -/
def twice : List Event :=
  [.sender 0, .sender 5, .sender 0, .listen 0, .receive 0, .sender 9,
    .sender 0, .sender 20, .sender 0, .listen 0, .receive 0, .sender 22, .sender 0]

theorem exchange_printed_two :
    (run two opening twice).measured.length = (2 : Int32).toInt.toNat ∧
      ∃ longest text, Longest (run two opening twice).measured longest ∧
        (run two opening twice).sender.printed = some text ∧
        Table.read Table.decimal text =
          [[], (List.range (longest + 1)).map Int.ofNat,
            (List.range (longest + 1)).map fun j : Nat =>
              (((run two opening twice).measured.countP fun t => t.toNat = j : Nat) : Int), []] :=
  exchange_printed two (by decide) twice (by decide +kernel)

end RealTimeLabs.Latency
