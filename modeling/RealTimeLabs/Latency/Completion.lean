import RealTimeLabs.Latency.Exchange

/-! When the measurement comes to its end.

At every moment it is one party's turn: the sender's, the listener's, or that of the answer that
is to arrive. Whatever the others do meanwhile, its step brings the end nearer by one, so that a
network that delivers, and parties that are all given their turns, come to it. Only a listener
that counts fewer messages than the sender closes before it, and then the sender waits for good
(`exchange_completes`). -/
namespace RealTimeLabs.Latency

variable {u : Setup} {x : Exchange}

/-! ### The counters -/

/-- The sender's counter, by where it stands. -/
def Place (count i : Int32) (rounds : Nat) : SenderPc → Prop
  | .test => i.toInt = rounds ∧ rounds ≤ count.toInt.toNat
  | .closed => rounds = count.toInt.toNat
  | _ => i.toInt = rounds + 1 ∧ rounds < count.toInt.toNat

theorem Place.asked_le {count i : Int32} {rounds : Nat} {pc : SenderPc}
    (h : Place count i rounds pc) : rounds + pc.asked ≤ count.toInt.toNat := by
  cases pc with
  | test => exact h.2
  | closed => exact Nat.le_of_eq h
  | start => exact Nat.le_of_lt h.2
  | sendto => exact Nat.le_of_lt h.2
  | recvfrom => exact h.2
  | stop => exact h.2

/-- The counters of both, in a run in step. -/
structure Counted (u : Setup) (x : Exchange) : Prop where
  balanced : Balanced u x
  place : Place u.messages_count x.sender.i x.sender.rounds x.pc
  counter : x.listener.closed = false → x.listener.i.toInt = x.listener.sent.length
  stopped : x.listener.closed = true → u.listened_count ≠ 0 ∧
    (x.listener.sent.length : Int) = u.listened_count.toInt
  within : 0 < u.listened_count.toInt → (x.listener.sent.length : Int) ≤ u.listened_count.toInt

theorem counted_opening (u : Setup) : Counted u opening where
  balanced := balanced_opening u
  place := ⟨rfl, Nat.zero_le _⟩
  counter _ := rfl
  stopped h := by cases h
  within h := Int.le_of_lt h

/-- A step that leaves the listener alone. -/
theorem Counted.ofSender {x' : Exchange} (h : Counted u x) (hbalanced : Balanced u x')
    (hplace : Place u.messages_count x'.sender.i x'.sender.rounds x'.pc)
    (hlistener : x'.listener = x.listener) : Counted u x' where
  balanced := hbalanced
  place := hplace
  counter := by rw [hlistener]; exact h.counter
  stopped := by rw [hlistener]; exact h.stopped
  within := by rw [hlistener]; exact h.within

theorem place_test {count i : Int32} {rounds : Nat} (hcount : 0 < count.toInt)
    (h : Place count i rounds .test) :
    (i ≠ count → Place count (i + 1) rounds .start) ∧
      (i = count → Place count i rounds .closed) := by
  obtain ⟨hi, hle⟩ := h
  refine ⟨fun hne => ?_, fun heq => ?_⟩
  · have hlt : i.toInt < count.toInt := by
      have hnot : i.toInt ≠ count.toInt := fun heq => hne (Int32.toInt_inj.mp heq)
      omega
    exact ⟨by rw [Counter.toInt_succ_of_lt hlt, hi], by omega⟩
  · rw [heq] at hi
    change rounds = count.toInt.toNat
    omega

/-- The end of a round leaves the counter of the loop, and the listener. -/
theorem endRound_frame (u : Setup) (start clock : UInt64) (x : Exchange) :
    (u.endRound start clock x).pc = .test ∧ (u.endRound start clock x).listener = x.listener ∧
      (u.endRound start clock x).sender.i = x.sender.i := by
  obtain ⟨s', hs', htally⟩ := tally_spec (timeElapsed u.sysTimestampFreq start clock) x.sender
  simp only [Setup.endRound, hs', Option.getD_some, htally.i, and_self]

theorem goesOn_iff {s : Sender} {count : Int32} (hcount : 0 < count.toInt) :
    s.goesOn count = true ↔ s.i ≠ count := by
  rw [Sender.goesOn, decide_eq_true_eq, or_iff_left (Counter.ne_zero_of_pos hcount)]

theorem counted_sender (hcount : 0 < u.messages_count.toInt) (clock : UInt64) (h : Counted u x) :
    Counted u (u.senderStep clock x) := by
  have hbalanced := balanced_sender clock h.balanced
  have hplace := h.place
  unfold Setup.senderStep at hbalanced ⊢
  split at hbalanced <;> rename_i hpc <;> rw [hpc] at hplace
  case h_1 =>
    by_cases hgoes : x.sender.goesOn u.messages_count = true
    · rw [if_pos hgoes] at hbalanced ⊢
      exact h.ofSender hbalanced ((place_test hcount hplace).1 ((goesOn_iff hcount).mp hgoes)) rfl
    · rw [if_neg hgoes] at hbalanced ⊢
      have hend : x.sender.i = u.messages_count :=
        Classical.byContradiction fun hne => hgoes ((goesOn_iff hcount).mpr hne)
      exact h.ofSender hbalanced ((place_test hcount hplace).2 hend) rfl
  case h_2 => exact h.ofSender hbalanced hplace rfl
  case h_3 => exact h.ofSender hbalanced hplace rfl
  case h_4 begun =>
    obtain ⟨hpc, hlistener, hi⟩ := endRound_frame u begun clock x
    refine h.ofSender hbalanced ?_ hlistener
    rw [hpc, hi, endRound_rounds]
    exact ⟨hplace.1, hplace.2⟩
  all_goals exact h

theorem counted_receive (hfits : u.Fits) (j : Nat) (h : Counted u x) :
    Counted u (u.receive j x) := by
  have hbalanced := balanced_receive hfits j h.balanced
  have hplace := h.place
  unfold Setup.receive at hbalanced ⊢
  split at hbalanced
  · rename_i hpc _
    rw [hpc] at hplace
    exact h.ofSender hbalanced hplace rfl
  · exact h

theorem listener_goesOn_iff {s : Listener} {count : Int32} :
    s.goesOn count = true ↔ s.i ≠ count ∨ count = 0 := by
  rw [Listener.goesOn, decide_eq_true_eq]

theorem counted_listen (hfits : u.Fits) (j : Nat) (h : Counted u x) :
    Counted u (u.listen j x) := by
  have hbalanced := balanced_listen hfits j h.balanced
  have hasked := h.balanced.asked
  have hle := h.place.asked_le
  rcases listen_cases u j x with ⟨datagram, hj, hopen, hlisten⟩ | hlisten | ⟨hgoes, hopen, hlisten⟩
  · have hlt : j < x.requests.length := (List.getElem?_eq_some_iff.mp hj).1
    have hmessage := h.balanced.requests datagram (List.mem_of_getElem? hj)
    obtain ⟨hreply, hturn⟩ := turn_message hfits hopen
    rw [hlisten, hmessage, hreply, hturn] at hbalanced
    rw [hlisten, hmessage, hreply, hturn]
    have hi := h.counter hopen.2
    have hbound := u.messages_count.toInt_lt
    have hsucc : (x.listener.i + 1).toInt = x.listener.i.toInt + 1 :=
      Counter.toInt_succ_of_lt (n := u.messages_count) (by omega)
    refine ⟨hbalanced, h.place, fun _ => ?_, fun hc => ?_, fun hpos => ?_⟩
    · rw [hsucc, List.length_append, List.length_singleton, hi]
      rfl
    · exact absurd hc (Bool.eq_false_iff.mp hopen.2)
    · have hwithin := h.within hpos
      have hne : x.listener.i.toInt ≠ u.listened_count.toInt := fun heq => by
        rcases listener_goesOn_iff.mp hopen.1 with hn | hzero
        · exact hn (Int32.toInt_inj.mp heq)
        · exact Counter.ne_zero_of_pos hpos hzero
      rw [List.length_append, List.length_singleton]
      change ((x.listener.sent.length + 1 : Nat) : Int) ≤ _
      omega
  · rw [hlisten]
    exact h
  · have hi := h.counter hopen
    rw [listener_goesOn_iff, not_or, Classical.not_not] at hgoes
    rw [hlisten] at hbalanced ⊢
    refine ⟨hbalanced, h.place, fun hn => (by cases hn), fun _ => ⟨hgoes.2, ?_⟩, h.within⟩
    rw [← hgoes.1, hi]

theorem counted_step (hfits : u.Fits) (hcount : 0 < u.messages_count.toInt) {e : Event}
    (he : e.faithful = true) (h : Counted u x) : Counted u (step u e x) := by
  cases e with
  | sender clock => exact counted_sender hcount clock h
  | receive j => exact counted_receive hfits j h
  | listen j => exact counted_listen hfits j h
  | _ => cases he

theorem counted_run (hfits : u.Fits) (hcount : 0 < u.messages_count.toInt) {events : List Event}
    (hfaithful : ∀ e ∈ events, e.faithful = true) (h : Counted u x) :
    Counted u (run u x events) := by
  induction events generalizing x with
  | nil => exact h
  | cons e rest ih =>
    obtain ⟨he, hrest⟩ := List.forall_mem_cons.mp hfaithful
    exact ih hrest (counted_step hfits hcount he h)

/-! ### Whose turn it is -/

inductive Party where
  | sender
  | listener
  | answer
deriving DecidableEq

/-- The party that an event is a step of, with the only datagram. -/
def Event.party : Event → Option Party
  | .sender _ => some .sender
  | .listen j => if j = 0 then some .listener else none
  | .receive j => if j = 0 then some .answer else none
  | _ => none

def Exchange.next (x : Exchange) : Party :=
  match x.pc with
  | .recvfrom _ => if x.requests = [] then .answer else .listener
  | _ => .sender

/-- The statements and deliveries that are still to come, six in a round. -/
def todo (u : Setup) (x : Exchange) : Nat :=
  match x.pc with
  | .test => 6 * (u.messages_count.toInt.toNat - x.sender.rounds) + 1
  | .start => 6 * (u.messages_count.toInt.toNat - x.sender.rounds - 1) + 6
  | .sendto _ => 6 * (u.messages_count.toInt.toNat - x.sender.rounds - 1) + 5
  | .recvfrom _ =>
    6 * (u.messages_count.toInt.toNat - x.sender.rounds - 1) + 3 + x.requests.length
  | .stop _ => 6 * (u.messages_count.toInt.toNat - x.sender.rounds - 1) + 2
  | .closed => 0

/-- The listener answers as many messages as are sent. -/
def Setup.Enough (u : Setup) : Prop :=
  u.listened_count.toInt ≤ 0 ∨ u.messages_count.toInt ≤ u.listened_count.toInt

/-- A message that has been sent finds the listener in its loop. -/
theorem Counted.listens (h : Counted u x) (henough : u.Enough) (hsent : x.requests ≠ []) :
    x.listener.goesOn u.listened_count = true ∧ x.listener.closed = false := by
  have hasked := h.balanced.asked
  have hle := h.place.asked_le
  have hpos := List.length_pos_of_ne_nil hsent
  have hfewer : u.listened_count ≠ 0 →
      (x.listener.sent.length : Int) ≠ u.listened_count.toInt := fun hzero heq => by
    have hne : u.listened_count.toInt ≠ 0 := fun hn => hzero (Int32.toInt_inj.mp hn)
    rcases henough with hall | hmore <;> omega
  have hopen : x.listener.closed = false := Bool.eq_false_iff.mpr fun hclosed =>
    hfewer (h.stopped hclosed).1 (h.stopped hclosed).2
  refine ⟨listener_goesOn_iff.mpr ?_, hopen⟩
  by_cases hzero : u.listened_count = 0
  · exact .inr hzero
  · refine .inl fun heq => hfewer hzero ?_
    rw [← heq, h.counter hopen]

theorem waits_le (pc : SenderPc) : pc.waits ≤ 1 := by
  cases pc <;> exact Nat.le_of_ble_eq_true rfl

/-- A request on its way is the only datagram, and the listener's turn. -/
theorem Balanced.request_next (h : Balanced u x) {j : Nat} (hj : j < x.requests.length) :
    j = 0 ∧ x.next = .listener := by
  have hflight := h.inFlight
  have hle := waits_le x.pc
  rw [Exchange.inFlight] at hflight
  have hwaits : 0 < x.pc.waits := by omega
  obtain ⟨start, hpc⟩ := SenderPc.waits_pos hwaits
  have hsome : x.requests ≠ [] := List.ne_nil_of_length_pos (by omega)
  exact ⟨by omega, by simp only [Exchange.next, hpc, if_neg hsome]⟩

theorem Balanced.answer_next (h : Balanced u x) {j : Nat} (hj : j < x.answers.length) :
    j = 0 ∧ x.next = .answer := by
  have hflight := h.inFlight
  have hle := waits_le x.pc
  rw [Exchange.inFlight] at hflight
  have hwaits : 0 < x.pc.waits := by omega
  obtain ⟨start, hpc⟩ := SenderPc.waits_pos hwaits
  have hnone : x.requests = [] := List.eq_nil_of_length_eq_zero (by omega)
  exact ⟨by omega, by simp only [Exchange.next, hpc, if_pos hnone]⟩

/-- The other way round. -/
theorem next_eq (x : Exchange) : (x.next = .listener → 0 < x.requests.length) ∧
    (x.next = .answer → x.requests = [] ∧ x.pc.waits = 1) ∧
    (x.next = .sender → x.pc.waits = 0) := by
  unfold Exchange.next
  split
  · rename_i hpc
    rw [hpc]
    split
    · rename_i hnone
      exact ⟨fun hn => (by cases hn), fun _ => ⟨hnone, rfl⟩, fun hn => (by cases hn)⟩
    · rename_i hsome
      exact ⟨fun _ => List.length_pos_of_ne_nil hsome, fun hn => (by cases hn),
        fun hn => (by cases hn)⟩
  · rename_i hpc
    refine ⟨fun hn => (by cases hn), fun hn => (by cases hn), fun _ => ?_⟩
    cases hwaits : x.pc with
    | recvfrom start => exact absurd hwaits (hpc start)
    | _ => rfl

/-! ### One step -/

theorem todo_sender (hcount : 0 < u.messages_count.toInt) (h : Counted u x)
    (hturn : x.next = .sender) (clock : UInt64) :
    todo u (u.senderStep clock x) ≤ todo u x - 1 := by
  have hplace := h.place
  have hwaits := (next_eq x).2.2 hturn
  have hflight := h.balanced.inFlight
  rw [Exchange.inFlight, hwaits] at hflight
  cases hpc : x.pc with
  | test =>
    rw [hpc] at hplace
    by_cases hgoes : x.sender.goesOn u.messages_count = true
    · have hlt := ((place_test hcount hplace).1 ((goesOn_iff hcount).mp hgoes)).2
      simp only [Setup.senderStep, hpc, if_pos hgoes, todo]
      omega
    · simp only [Setup.senderStep, hpc, if_neg hgoes, todo, Nat.zero_le]
  | start =>
    simp only [Setup.senderStep, hpc, todo]
    omega
  | sendto =>
    simp only [Setup.senderStep, hpc, todo, List.length_append, List.length_singleton]
    omega
  | recvfrom =>
    rw [hpc] at hwaits
    cases hwaits
  | stop begun =>
    have hend := (endRound_frame u begun clock x).1
    have hrounds := endRound_rounds u begun clock x
    simp only [Setup.senderStep, hpc, todo, hend, hrounds]
    omega
  | closed => simp only [Setup.senderStep, hpc, todo, Nat.zero_le]

theorem todo_listener (henough : u.Enough) (h : Counted u x) (hturn : x.next = .listener) :
    todo u (u.listen 0 x) ≤ todo u x - 1 := by
  have hlt := (next_eq x).1 hturn
  have hlistens := h.listens henough (List.ne_nil_of_length_pos hlt)
  have hflight := h.balanced.inFlight
  rw [Exchange.inFlight] at hflight
  have hwaits : 0 < x.pc.waits := by omega
  obtain ⟨start, hpc⟩ := SenderPc.waits_pos hwaits
  have hlisten : (u.listen 0 x).pc = x.pc ∧ (u.listen 0 x).sender = x.sender ∧
      (u.listen 0 x).requests = x.requests.eraseIdx 0 := by
    rw [Setup.listen, if_pos hlistens, List.getElem?_eq_getElem hlt]
    exact ⟨rfl, rfl, rfl⟩
  simp only [todo, hlisten.1, hlisten.2.1, hlisten.2.2, hpc, List.length_eraseIdx_of_lt hlt]
  omega

theorem todo_answer (h : Counted u x) (hturn : x.next = .answer) :
    todo u (u.receive 0 x) ≤ todo u x - 1 := by
  obtain ⟨hnone, hwaits⟩ := (next_eq x).2.1 hturn
  have hflight := h.balanced.inFlight
  rw [Exchange.inFlight, hnone, hwaits, List.length_nil, Nat.zero_add] at hflight
  obtain ⟨start, hpc⟩ := SenderPc.waits_pos (Nat.lt_of_lt_of_eq Nat.zero_lt_one hwaits.symm)
  have hreceive : (u.receive 0 x).pc = .stop start ∧ (u.receive 0 x).sender = x.sender := by
    rw [Setup.receive, hpc, List.getElem?_eq_getElem (by omega)]
    exact ⟨rfl, rfl⟩
  simp only [todo, hreceive.1, hreceive.2, hpc]
  omega

/-- A step of the party whose turn it is. -/
theorem todo_advance (henough : u.Enough) (hcount : 0 < u.messages_count.toInt)
    (h : Counted u x) {e : Event} (hturn : e.party = some x.next) :
    todo u (step u e x) ≤ todo u x - 1 := by
  cases e with
  | sender clock => exact todo_sender hcount h (Option.some.inj hturn).symm clock
  | listen j =>
    by_cases hj : j = 0
    · subst hj
      exact todo_listener henough h (Option.some.inj hturn).symm
    · rw [Event.party, if_neg hj] at hturn
      cases hturn
  | receive j =>
    by_cases hj : j = 0
    · subst hj
      exact todo_answer h (Option.some.inj hturn).symm
    · rw [Event.party, if_neg hj] at hturn
      cases hturn
  | _ => cases hturn

/-- Any other step of a run in step changes at most that the listener closes. -/
theorem idle_step (h : Balanced u x) {e : Event} (he : e.faithful = true)
    (hturn : e.party ≠ some x.next) :
    todo u (step u e x) = todo u x ∧ (step u e x).next = x.next := by
  cases e with
  | sender clock =>
    have hwaits : ∃ start, x.pc = .recvfrom start := by
      cases hpc : x.pc with
      | recvfrom start => exact ⟨start, rfl⟩
      | _ => exact absurd (by simp only [Event.party, Exchange.next, hpc]) hturn
    obtain ⟨start, hpc⟩ := hwaits
    have hstep : step u (.sender clock) x = x := by simp only [step, Setup.senderStep, hpc]
    rw [hstep]
    exact ⟨rfl, rfl⟩
  | receive j =>
    have hnone : x.answers[j]? = none := by
      refine List.getElem?_eq_none (Nat.le_of_not_lt fun hj => hturn ?_)
      obtain ⟨hzero, hnext⟩ := h.answer_next hj
      rw [hzero, hnext]
      rfl
    have hstep : step u (.receive j) x = x := by
      simp only [step, Setup.receive, hnone]
      cases x.pc <;> rfl
    rw [hstep]
    exact ⟨rfl, rfl⟩
  | listen j =>
    have hnot : ¬ j < x.requests.length := fun hj => hturn (by
      obtain ⟨hzero, hnext⟩ := h.request_next hj
      rw [hzero, hnext]
      rfl)
    rcases listen_cases u j x with ⟨_, hj, _, _⟩ | hlisten | ⟨_, _, hlisten⟩
    · exact absurd (List.getElem?_eq_some_iff.mp hj).1 hnot
    · exact ⟨congrArg (todo u) hlisten, congrArg Exchange.next hlisten⟩
    · simp only [step, hlisten]
      exact ⟨rfl, rfl⟩
  | _ => cases he

/-! ### Runs -/

/-- Events among which each party has one, in whatever order, and the network is faithful. -/
structure Sweep where
  events : List Event
  faithful : ∀ e ∈ events, e.faithful = true
  complete : ∀ party : Party, ∃ e ∈ events, e.party = some party

/-- Every party once. -/
instance : Inhabited Sweep where
  default :=
    { events := [.receive 0, .listen 0, .sender 0]
      faithful := by decide
      complete := fun party => by cases party <;> decide }

theorem todo_events (henough : u.Enough) (hfits : u.Fits) (hcount : 0 < u.messages_count.toInt)
    {events : List Event} (hfaithful : ∀ e ∈ events, e.faithful = true) (h : Counted u x) :
    todo u (run u x events) ≤ todo u x := by
  induction events generalizing x with
  | nil => exact Nat.le_refl _
  | cons e rest ih =>
    obtain ⟨he, hrest⟩ := List.forall_mem_cons.mp hfaithful
    refine Nat.le_trans (ih hrest (counted_step hfits hcount he h)) ?_
    by_cases hturn : e.party = some x.next
    · exact Nat.le_trans (todo_advance henough hcount h hturn) (Nat.sub_le _ _)
    · exact Nat.le_of_eq (idle_step h.balanced he hturn).1

/-- The turn waits for its party. -/
theorem todo_turn (henough : u.Enough) (hfits : u.Fits) (hcount : 0 < u.messages_count.toInt)
    {events : List Event} (hfaithful : ∀ e ∈ events, e.faithful = true) (h : Counted u x)
    (hturn : ∃ e ∈ events, e.party = some x.next) :
    todo u (run u x events) ≤ todo u x - 1 := by
  induction events generalizing x with
  | nil =>
    obtain ⟨_, hmem, _⟩ := hturn
    cases hmem
  | cons e rest ih =>
    obtain ⟨he, hrest⟩ := List.forall_mem_cons.mp hfaithful
    have hcounted := counted_step hfits hcount he h
    by_cases hnow : e.party = some x.next
    · have hlater : todo u (run u (step u e x) rest) ≤ todo u (step u e x) :=
        todo_events henough hfits hcount hrest hcounted
      exact Nat.le_trans hlater (todo_advance henough hcount h hnow)
    · obtain ⟨htodo, hnext⟩ := idle_step h.balanced he hnow
      obtain ⟨later, hmem, hlater⟩ := hturn
      have hin : later ∈ rest := by
        rcases List.mem_cons.mp hmem with rfl | hin
        · exact absurd hlater hnow
        · exact hin
      rw [← htodo]
      refine ih hrest hcounted ⟨later, hin, ?_⟩
      rw [hnext]
      exact hlater

theorem run_sweeps (u : Setup) (x : Exchange) (sweeps : List Sweep) :
    run u x (sweeps.flatMap Sweep.events) =
      Interleaving.run (fun sweep x => run u x sweep.events) x sweeps := by
  induction sweeps generalizing x with
  | nil => rfl
  | cons sweep rest ih =>
    rw [List.flatMap_cons, run, Interleaving.run_append]
    exact ih _

theorem todo_zero (h : todo u x = 0) : x.pc = .closed := by
  unfold todo at h
  split at h <;> first
    | assumption
    | omega

/-- **Completion**: with a faithful network, and a listener that answers as many messages as are
sent, six turns of every party for each message and one more are enough for the sender to close,
after as many rounds as asked for. With a listener that answers fewer, the sender never closes,
and completes no more rounds than the listener answers. -/
theorem exchange_completes (u : Setup) (hfits : u.Fits) (hcount : 0 < u.messages_count.toInt) :
    (u.Enough → ∀ sweeps : List Sweep, 6 * u.messages_count.toInt.toNat + 1 ≤ sweeps.length →
      (run u opening (sweeps.flatMap Sweep.events)).pc = .closed ∧
        (run u opening (sweeps.flatMap Sweep.events)).sender.rounds =
          u.messages_count.toInt.toNat) ∧
    (¬ u.Enough → ∀ events : List Event, (∀ e ∈ events, e.faithful = true) →
      (run u opening events).pc ≠ .closed ∧
        ((run u opening events).sender.rounds : Int) ≤ u.listened_count.toInt) := by
  refine ⟨fun henough sweeps hlen => ?_, fun hfewer events hfaithful => ?_⟩
  · have hcountdown : todo u (Interleaving.run (fun (sweep : Sweep) x => run u x sweep.events)
        opening sweeps) ≤ todo u opening - sweeps.countP fun _ => true :=
      Interleaving.run_countdown (I := Counted u)
        (fun sweep x h => counted_run hfits hcount sweep.faithful h)
        (fun sweep x h => todo_events henough hfits hcount sweep.faithful h)
        (fun sweep x h _ => todo_turn henough hfits hcount sweep.faithful h
          (sweep.complete x.next))
        (counted_opening u) sweeps
    have hall : sweeps.countP (fun _ => true) = sweeps.length :=
      congrFun List.countP_true sweeps
    have hopening : todo u opening = 6 * u.messages_count.toInt.toNat + 1 := rfl
    rw [← run_sweeps, hall, hopening] at hcountdown
    have hclosed := todo_zero (Nat.le_zero.mp (Nat.le_trans hcountdown (by omega)))
    have hfaithful : ∀ e ∈ sweeps.flatMap Sweep.events, e.faithful = true := fun e he => by
      obtain ⟨sweep, _, hmem⟩ := List.mem_flatMap.mp he
      exact sweep.faithful e hmem
    have hcounted := counted_run hfits hcount hfaithful (counted_opening u)
    have hplace := hcounted.place
    rw [hclosed] at hplace
    exact ⟨hclosed, hplace⟩
  · have hcounted := counted_run hfits hcount hfaithful (counted_opening u)
    rw [Setup.Enough, not_or, Int.not_le, Int.not_le] at hfewer
    have hwithin := hcounted.within hfewer.1
    have hanswered := hcounted.balanced.answered
    have hheard := hcounted.balanced.heard
    have hplace := hcounted.place
    refine ⟨fun hclosed => ?_, by omega⟩
    rw [hclosed] at hplace
    have hrounds : (run u opening events).sender.rounds = u.messages_count.toInt.toNat := hplace
    omega

/-- The sender has two steps before the others, and one after them. -/
def hurried : Sweep where
  events := [.sender 3, .sender 5, .listen 0, .receive 0, .sender 9]
  faithful := by decide
  complete party := by cases party <;> decide

def sweeps : List Sweep := List.replicate 6 default ++ List.replicate 7 hurried

/-- Two messages, and a listener that answers both, or only one. -/
theorem exchange_completes_two :
    ((run two opening (sweeps.flatMap Sweep.events)).pc = .closed ∧
      (run two opening (sweeps.flatMap Sweep.events)).sender.rounds = 2) ∧
    (run { two with listened_count := 1 } opening (sweeps.flatMap Sweep.events)).pc ≠ .closed ∧
      ((run { two with listened_count := 1 } opening
        (sweeps.flatMap Sweep.events)).sender.rounds : Int) ≤ 1 :=
  ⟨(exchange_completes two ⟨by decide, by decide⟩ (by decide)).1 (.inl (by decide)) sweeps
      (by decide),
    (exchange_completes { two with listened_count := 1 } ⟨by decide, by decide⟩ (by decide)).2
      (by unfold Setup.Enough; decide) _ (by decide)⟩

end RealTimeLabs.Latency
