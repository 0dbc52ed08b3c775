import RealTimeLabs.Latency.Echo
import RealTimeLabs.Latency.RoundTrip
import RealTimeLabs.Library.Counter
import RealTimeLabs.Library.Interleaving

/-! The sender and the listener, and the network between them.

Both ends wait in `recvfrom` without a time limit, and a datagram has no number. As long as
the network delivers what it is given, only one of the two is not waiting: there is one
datagram on its way exactly while the sender waits, and what it receives is the message it has
just sent (`exchange_inStep`). If that datagram is lost, both wait, and nothing ends it
(`loss_stalls`). -/
namespace RealTimeLabs.Latency
open Bytes

/-! ### The system -/

/-- What the two programs are started with. -/
structure Setup where
  /-- `messages_count` of the sender. -/
  messages_count : Int32
  /-- `messages_count` of the listener. -/
  listened_count : Int32
  payload_size : Nat
  /-- The sender's `buf`, before it is filled. -/
  buf : Memory
  sysTimestampFreq : UInt32

/-- Where the sender stands. -/
inductive SenderPc where
  | test
  | start
  | sendto (start : UInt64)
  | recvfrom (start : UInt64)
  | stop (start : UInt64)
  | closed
deriving DecidableEq

structure Exchange where
  sender : Sender
  pc : SenderPc
  /-- What the sender has received in `recv_buf`, one entry a datagram. -/
  received : List (List Byte)
  /-- The times it has measured. -/
  measured : List UInt32
  listener : Listener
  /-- The datagrams on their way, to the listener and to the sender. -/
  requests : List (List Byte)
  answers : List (List Byte)

/-- The clock is what `sysTimestamp` returns, if this is the statement; the number is that of
the datagram that arrives. A receiver fails when its `recvfrom` returns -1. -/
inductive Event where
  | sender (clock : UInt64)
  | receive (j : Nat)
  | listen (j : Nat)
  | senderFails
  | listenerFails
  | loseRequest (j : Nat)
  | loseAnswer (j : Nat)
  | duplicateRequest (j : Nat)
  | duplicateAnswer (j : Nat)
deriving DecidableEq

/-- `time_elapsed`, counted; no time leaves the array (`tally_spec`). -/
def Setup.endRound (u : Setup) (start clock : UInt64) (x : Exchange) : Exchange :=
  let time_elapsed := timeElapsed u.sysTimestampFreq start clock
  let sender := (tally time_elapsed x.sender).getD x.sender
  { x with
    sender := { sender with rounds := sender.rounds + 1 }
    measured := x.measured ++ [time_elapsed]
    pc := .test }

/-- One statement of the sender, but for its `recvfrom`. -/
def Setup.senderStep (u : Setup) (clock : UInt64) (x : Exchange) : Exchange :=
  match x.pc with
  | .test =>
    if x.sender.goesOn u.messages_count then
      { x with sender := { x.sender with i := x.sender.i + 1 }, pc := .start }
    else { x with sender := { x.sender with i := x.sender.i + 1, closed := true }, pc := .closed }
  | .start => { x with pc := .sendto clock }
  | .sendto start =>
    { x with requests := x.requests ++ [message u.payload_size u.buf], pc := .recvfrom start }
  | .stop start => u.endRound start clock x
  | .recvfrom _ | .closed => x

/-- `recvfrom` of the sender, with room for the payload. -/
def Setup.receive (u : Setup) (j : Nat) (x : Exchange) : Exchange :=
  match x.pc, x.answers[j]? with
  | .recvfrom start, some datagram =>
    { x with
      answers := x.answers.eraseIdx j
      received := x.received ++ [datagram.take u.payload_size]
      pc := .stop start }
  | _, _ => x

/-- A turn of the listener, which waits in it for a datagram. -/
def Setup.listen (u : Setup) (j : Nat) (x : Exchange) : Exchange :=
  if x.listener.goesOn u.listened_count ∧ x.listener.closed = false then
    match x.requests[j]? with
    | some datagram =>
      { x with
        listener := turn u.listened_count (some datagram) x.listener
        requests := x.requests.eraseIdx j
        answers := x.answers ++ (reply (recvfrom datagram x.listener.buf)).toList }
    | none => x
  else { x with listener := turn u.listened_count none x.listener }

def step (u : Setup) : Event → Exchange → Exchange
  | .sender clock, x => u.senderStep clock x
  | .receive j, x => u.receive j x
  | .listen j, x => u.listen j x
  | .senderFails, x =>
    match x.pc with
    | .recvfrom start => { x with pc := .stop start }
    | _ => x
  | .listenerFails, x => { x with listener := turn u.listened_count none x.listener }
  | .loseRequest j, x => { x with requests := x.requests.eraseIdx j }
  | .loseAnswer j, x => { x with answers := x.answers.eraseIdx j }
  | .duplicateRequest j, x => { x with requests := x.requests ++ x.requests[j]?.toList }
  | .duplicateAnswer j, x => { x with answers := x.answers ++ x.answers[j]?.toList }

/-- Both in front of their loops. -/
def opening : Exchange := ⟨sending, .test, [], [], listening, [], []⟩

def run (u : Setup) (x : Exchange) (events : List Event) : Exchange :=
  Interleaving.run (step u) x events

/-- Every datagram is delivered once, in whatever order, and no call fails. -/
def Event.faithful : Event → Bool
  | .sender _ | .receive _ | .listen _ => true
  | _ => false

/-- `payload_size` has passed its check, and has room for the terminator. -/
def Setup.Fits (u : Setup) : Prop := 1 ≤ u.payload_size ∧ u.payload_size ≤ maxBuf

def Setup.message (u : Setup) : List Byte := Latency.message u.payload_size u.buf

/-! ### In step -/

/-- The messages sent in the round that is not over. -/
def SenderPc.asked : SenderPc → Nat
  | .recvfrom _ | .stop _ => 1
  | _ => 0

/-- The answers received in it. -/
def SenderPc.heard : SenderPc → Nat
  | .stop _ => 1
  | _ => 0

/-- The messages sent have been answered or are on their way, and the answers have been received
or are. -/
structure Balanced (u : Setup) (x : Exchange) : Prop where
  requests : ∀ datagram ∈ x.requests, datagram = u.message
  answers : ∀ datagram ∈ x.answers, datagram = u.message
  received : ∀ datagram ∈ x.received, datagram = u.message
  asked : x.listener.sent.length + x.requests.length = x.sender.rounds + x.pc.asked
  answered : x.received.length + x.answers.length = x.listener.sent.length
  heard : x.received.length = x.sender.rounds + x.pc.heard

theorem balanced_opening (u : Setup) : Balanced u opening where
  requests _ h := by cases h
  answers _ h := by cases h
  received _ h := by cases h
  asked := rfl
  answered := rfl
  heard := rfl

variable {u : Setup} {x : Exchange}

/-- A statement of the sender that has nothing to do with the network. -/
theorem Balanced.local (h : Balanced u x) {sender : Sender} {pc : SenderPc}
    (measured : List UInt32) (hasked : sender.rounds + pc.asked = x.sender.rounds + x.pc.asked)
    (hheard : sender.rounds + pc.heard = x.sender.rounds + x.pc.heard) :
    Balanced u { x with sender := sender, pc := pc, measured := measured } where
  requests := h.requests
  answers := h.answers
  received := h.received
  asked := h.asked.trans hasked.symm
  answered := h.answered
  heard := h.heard.trans hheard.symm

/-- The end of a round changes the number of rounds, and what is counted. -/
theorem endRound_rounds (u : Setup) (start clock : UInt64) (x : Exchange) :
    (u.endRound start clock x).sender.rounds = x.sender.rounds + 1 := by
  obtain ⟨s', hs', htally⟩ := tally_spec (timeElapsed u.sysTimestampFreq start clock) x.sender
  simp only [Setup.endRound, hs', Option.getD_some, htally.rounds]

theorem balanced_sender (clock : UInt64) (h : Balanced u x) :
    Balanced u (u.senderStep clock x) := by
  unfold Setup.senderStep
  split
  case h_1 hpc =>
    split <;> exact h.local x.measured (by rw [hpc]; rfl) (by rw [hpc]; rfl)
  case h_2 hpc => exact h.local x.measured (by rw [hpc]; rfl) (by rw [hpc]; rfl)
  case h_3 start hpc =>
    have hasked := h.asked
    have hheard := h.heard
    rw [hpc] at hasked hheard
    refine ⟨fun d hd => ?_, h.answers, h.received, ?_, h.answered, hheard⟩
    · rcases List.mem_append.mp hd with hd | hd
      · exact h.requests d hd
      · exact List.mem_singleton.mp hd
    · rw [List.length_append, List.length_singleton, ← Nat.add_assoc]
      exact congrArg (· + 1) hasked
  case h_4 start hpc =>
    have hrounds := endRound_rounds u start clock x
    refine h.local (x.measured ++ [timeElapsed u.sysTimestampFreq start clock]) ?_ ?_
    · rw [hpc]
      exact hrounds
    · rw [hpc]
      exact hrounds
  all_goals exact h

theorem balanced_receive (hfits : u.Fits) (j : Nat) (h : Balanced u x) :
    Balanced u (u.receive j x) := by
  unfold Setup.receive
  split
  · rename_i start datagram hpc hj
    have hlt : j < x.answers.length := (List.getElem?_eq_some_iff.mp hj).1
    have hmessage : datagram = u.message := h.answers datagram (List.mem_of_getElem? hj)
    have hwhole : datagram.take u.payload_size = u.message := by
      rw [hmessage]
      exact List.take_of_length_le (Nat.le_of_eq (message_spec _ u.buf hfits.1).1)
    have hasked := h.asked
    have hheard := h.heard
    have hanswered := h.answered
    rw [hpc] at hasked hheard
    refine ⟨h.requests, fun d hd => h.answers d (List.mem_of_mem_eraseIdx hd), fun d hd => ?_,
      hasked, ?_, ?_⟩
    · rcases List.mem_append.mp hd with hd | hd
      · exact h.received d hd
      · rw [List.mem_singleton.mp hd, hwhole]
    · rw [List.length_append, List.length_singleton, List.length_eraseIdx_of_lt hlt]
      change x.received.length + 1 + (x.answers.length - 1) = x.listener.sent.length
      omega
    · rw [List.length_append, List.length_singleton]
      exact congrArg (· + 1) hheard
  · exact h

/-- The listener's turn with a message of the sender. -/
theorem turn_message (hfits : u.Fits) {s : Listener} {count : Int32}
    (hopen : s.goesOn count = true ∧ s.closed = false) :
    reply (recvfrom u.message s.buf) = some u.message ∧
      turn count (some u.message) s =
        { s with
          i := s.i + 1
          buf := recvfrom u.message s.buf
          sent := s.sent ++ [some u.message] } := by
  obtain ⟨hlen, hend, hbefore⟩ := message_spec u.payload_size u.buf hfits.1
  have hpos := hfits.1
  have hmax := hfits.2
  have hreply : reply (recvfrom u.message s.buf) = some u.message :=
    reply_recvfrom s.buf (n := u.payload_size - 1) (hlen.trans (by omega)) (by omega) hend hbefore
  refine ⟨hreply, ?_⟩
  rw [turn, if_neg (Bool.eq_false_iff.mp hopen.2), if_pos hopen.1]
  simp only [hreply]

/-- What a turn of the listener does: it answers a datagram, or waits for one, or closes, or has
closed. -/
theorem listen_cases (u : Setup) (j : Nat) (x : Exchange) :
    (∃ datagram, x.requests[j]? = some datagram ∧
      (x.listener.goesOn u.listened_count = true ∧ x.listener.closed = false) ∧
      u.listen j x =
        { x with
          listener := turn u.listened_count (some datagram) x.listener
          requests := x.requests.eraseIdx j
          answers := x.answers ++ (reply (recvfrom datagram x.listener.buf)).toList }) ∨
    u.listen j x = x ∨
    (¬ x.listener.goesOn u.listened_count = true ∧ x.listener.closed = false ∧
      u.listen j x =
        { x with listener := { x.listener with i := x.listener.i + 1, closed := true } }) := by
  unfold Setup.listen
  by_cases hopen : x.listener.goesOn u.listened_count = true ∧ x.listener.closed = false
  · rw [if_pos hopen]
    cases hj : x.requests[j]? with
    | none => exact .inr (.inl rfl)
    | some datagram => exact .inl ⟨datagram, rfl, hopen, rfl⟩
  · rw [if_neg hopen]
    cases hclosed : x.listener.closed with
    | true =>
      have hturn : turn u.listened_count none x.listener = x.listener := if_pos hclosed
      rw [hturn]
      exact .inr (.inl rfl)
    | false =>
      have hgoes : ¬ x.listener.goesOn u.listened_count = true := fun hn => hopen ⟨hn, hclosed⟩
      have hturn : turn u.listened_count none x.listener =
          { x.listener with i := x.listener.i + 1, closed := true } := by
        rw [turn, if_neg (Bool.eq_false_iff.mp hclosed), if_neg hgoes]
      rw [hturn]
      exact .inr (.inr ⟨hgoes, rfl, rfl⟩)

theorem balanced_listen (hfits : u.Fits) (j : Nat) (h : Balanced u x) :
    Balanced u (u.listen j x) := by
  rcases listen_cases u j x with ⟨datagram, hj, hopen, hlisten⟩ | hlisten | ⟨_, _, hlisten⟩
  · have hlt : j < x.requests.length := (List.getElem?_eq_some_iff.mp hj).1
    have hmessage : datagram = u.message := h.requests datagram (List.mem_of_getElem? hj)
    obtain ⟨hreply, hturn⟩ := turn_message hfits hopen
    have hasked := h.asked
    have hanswered := h.answered
    rw [hlisten, hmessage, hreply, hturn]
    refine ⟨fun d hd => h.requests d (List.mem_of_mem_eraseIdx hd), fun d hd => ?_, h.received,
      ?_, ?_, h.heard⟩
    · rcases List.mem_append.mp hd with hd | hd
      · exact h.answers d hd
      · exact List.mem_singleton.mp hd
    · rw [List.length_append, List.length_singleton, List.length_eraseIdx_of_lt hlt]
      change x.listener.sent.length + 1 + (x.requests.length - 1) = x.sender.rounds + x.pc.asked
      omega
    · rw [Option.toList_some, List.length_append, List.length_singleton, List.length_append,
        List.length_singleton, ← hanswered, Nat.add_assoc]
  · rw [hlisten]
    exact h
  · rw [hlisten]
    exact ⟨h.requests, h.answers, h.received, h.asked, h.answered, h.heard⟩

theorem balanced_step (hfits : u.Fits) {e : Event} (he : e.faithful = true) (h : Balanced u x) :
    Balanced u (step u e x) := by
  cases e with
  | sender clock => exact balanced_sender clock h
  | receive j => exact balanced_receive hfits j h
  | listen j => exact balanced_listen hfits j h
  | _ => cases he

theorem balanced_run (hfits : u.Fits) {events : List Event}
    (hfaithful : ∀ e ∈ events, e.faithful = true) (h : Balanced u x) :
    Balanced u (run u x events) := by
  induction events generalizing x with
  | nil => exact h
  | cons e rest ih =>
    obtain ⟨he, hrest⟩ := List.forall_mem_cons.mp hfaithful
    exact ih hrest (balanced_step hfits he h)

/-- The datagrams on their way. -/
def Exchange.inFlight (x : Exchange) : Nat := x.requests.length + x.answers.length

/-- Where there is one on its way. -/
def SenderPc.waits : SenderPc → Nat
  | .recvfrom _ => 1
  | _ => 0

theorem Balanced.inFlight (h : Balanced u x) : x.inFlight = x.pc.waits := by
  have hasked := h.asked
  have hanswered := h.answered
  have hheard := h.heard
  have hpc : x.pc.asked = x.pc.waits + x.pc.heard := by cases x.pc <;> rfl
  rw [Exchange.inFlight]
  omega

/-- **In step**: in every order of the steps, as long as the network delivers each datagram once
and no call fails, there is one datagram on its way while the sender waits for it, and none
otherwise; and of all the answers received, one in each round, every one is the message sent, to
its last byte. -/
theorem exchange_inStep (u : Setup) (hfits : u.Fits) (events : List Event)
    (hfaithful : ∀ e ∈ events, e.faithful = true) :
    (run u opening events).inFlight = (run u opening events).pc.waits ∧
      (run u opening events).received = List.replicate
        ((run u opening events).sender.rounds + (run u opening events).pc.heard)
        (message u.payload_size u.buf) := by
  have hrun := balanced_run hfits hfaithful (balanced_opening u)
  exact ⟨hrun.inFlight, List.eq_replicate_iff.mpr ⟨hrun.heard, hrun.received⟩⟩

/-- A setup of two messages. -/
def two : Setup := ⟨2, 0, 4, fun _ => 0, 1000000⟩

/-- A round, and the message of the next. -/
def onward : List Event :=
  [.sender 0, .sender 5, .listen 0, .sender 0, .listen 0, .receive 0, .sender 9, .sender 9,
    .sender 10, .sender 0]

theorem exchange_inStep_two :
    (run two opening onward).inFlight = (run two opening onward).pc.waits ∧
      (run two opening onward).received = List.replicate
        ((run two opening onward).sender.rounds + (run two opening onward).pc.heard)
        (message 4 fun _ => 0) :=
  exchange_inStep two ⟨by decide, by decide⟩ onward (by decide)

/-! ### A datagram is lost -/

/-- The event takes a datagram off the network. -/
def Event.Loses : Event → Exchange → Prop
  | .loseRequest j, x => j < x.requests.length
  | .loseAnswer j, x => j < x.answers.length
  | _, _ => False

/-- The sender waits, and there is nothing to wait for. -/
structure Stalled (start : UInt64) (sender : Sender) (received : List (List Byte)) (x : Exchange) :
    Prop where
  pc : x.pc = .recvfrom start
  sender : x.sender = sender
  received : x.received = received
  requests : x.requests = []
  answers : x.answers = []

theorem stalled_step {start : UInt64} {sender : Sender} {received : List (List Byte)} {e : Event}
    (he : e ≠ .senderFails) (h : Stalled start sender received x) :
    Stalled start sender received (step u e x) := by
  cases e with
  | sender clock =>
    have hstep : step u (.sender clock) x = x := by simp only [step, Setup.senderStep, h.pc]
    rw [hstep]
    exact h
  | receive j =>
    have hstep : step u (.receive j) x = x := by
      simp only [step, Setup.receive, h.pc, h.answers, List.getElem?_nil]
    rw [hstep]
    exact h
  | listen j =>
    have hnone : x.requests[j]? = none := by rw [h.requests, List.getElem?_nil]
    simp only [step, Setup.listen, hnone]
    split
    · exact h
    · exact ⟨h.pc, h.sender, h.received, h.requests, h.answers⟩
  | senderFails => exact absurd rfl he
  | listenerFails => exact ⟨h.pc, h.sender, h.received, h.requests, h.answers⟩
  | loseRequest j =>
    exact ⟨h.pc, h.sender, h.received, by simp only [step, h.requests, List.eraseIdx_nil],
      h.answers⟩
  | loseAnswer j =>
    exact ⟨h.pc, h.sender, h.received, h.requests,
      by simp only [step, h.answers, List.eraseIdx_nil]⟩
  | duplicateRequest j =>
    refine ⟨h.pc, h.sender, h.received, ?_, h.answers⟩
    simp only [step, h.requests, List.getElem?_nil, Option.toList_none, List.append_nil]
  | duplicateAnswer j =>
    refine ⟨h.pc, h.sender, h.received, h.requests, ?_⟩
    simp only [step, h.answers, List.getElem?_nil, Option.toList_none, List.append_nil]

theorem stalled_run {start : UInt64} {sender : Sender} {received : List (List Byte)}
    {events : List Event} (hevents : ∀ e ∈ events, e ≠ .senderFails)
    (h : Stalled start sender received x) :
    Stalled start sender received (run u x events) := by
  induction events generalizing x with
  | nil => exact h
  | cons e rest ih =>
    obtain ⟨he, hrest⟩ := List.forall_mem_cons.mp hevents
    exact ih hrest (stalled_step he h)

theorem SenderPc.waits_pos {pc : SenderPc} (h : 0 < pc.waits) : ∃ start, pc = .recvfrom start := by
  cases pc with
  | recvfrom start => exact ⟨start, rfl⟩
  | _ => cases h

/-- What is lost was the only datagram. -/
theorem Balanced.stalled (h : Balanced u x) {e : Event} (he : e.Loses x) :
    ∃ start, Stalled start x.sender x.received (step u e x) := by
  have hflight := h.inFlight
  have hle : x.pc.waits ≤ 1 := by cases x.pc <;> exact Nat.le_of_ble_eq_true rfl
  rw [Exchange.inFlight] at hflight
  cases e with
  | loseRequest j =>
    have hj : j < x.requests.length := he
    have hwaits : 0 < x.pc.waits := by omega
    obtain ⟨start, hpc⟩ := SenderPc.waits_pos hwaits
    refine ⟨start, hpc, rfl, rfl, List.eq_nil_of_length_eq_zero ?_,
      List.eq_nil_of_length_eq_zero (show x.answers.length = 0 by omega)⟩
    change (x.requests.eraseIdx j).length = 0
    rw [List.length_eraseIdx_of_lt hj]
    omega
  | loseAnswer j =>
    have hj : j < x.answers.length := he
    have hwaits : 0 < x.pc.waits := by omega
    obtain ⟨start, hpc⟩ := SenderPc.waits_pos hwaits
    refine ⟨start, hpc, rfl, rfl,
      List.eq_nil_of_length_eq_zero (show x.requests.length = 0 by omega),
      List.eq_nil_of_length_eq_zero ?_⟩
    change (x.answers.eraseIdx j).length = 0
    rw [List.length_eraseIdx_of_lt hj]
    omega
  | _ => exact he.elim

/-- **A loss is the end of the measurement**: after the first datagram that the network loses, of
a message or of an answer, no round is completed any more, whatever happens then, unless the
sender's `recvfrom` fails. -/
theorem loss_stalls (u : Setup) (hfits : u.Fits) (before after : List Event) (loss : Event)
    (hbefore : ∀ e ∈ before, e.faithful = true) (hloss : loss.Loses (run u opening before))
    (hafter : ∀ e ∈ after, e ≠ .senderFails) :
    (run u opening (before ++ loss :: after)).sender = (run u opening before).sender ∧
      (run u opening (before ++ loss :: after)).received = (run u opening before).received ∧
      (run u opening (before ++ loss :: after)).pc.waits = 1 := by
  have hbalanced := balanced_run hfits hbefore (balanced_opening u)
  obtain ⟨start, hstalled⟩ := hbalanced.stalled hloss
  have hrun := stalled_run (u := u) hafter hstalled
  have hsplit : run u opening (before ++ loss :: after) =
      run u (step u loss (run u opening before)) after :=
    Interleaving.run_append _ _ before (loss :: after)
  rw [hsplit]
  exact ⟨hrun.sender, hrun.received, by rw [hrun.pc]; rfl⟩

theorem loss_stalls_two :
    (run two opening (onward ++ .loseRequest 0 :: [.listen 0, .receive 0, .sender 7])).sender =
        (run two opening onward).sender ∧
      (run two opening (onward ++ .loseRequest 0 :: [.listen 0, .receive 0, .sender 7])).received =
        (run two opening onward).received ∧
      (run two opening (onward ++ .loseRequest 0 :: [.listen 0, .receive 0, .sender 7])).pc.waits =
        1 :=
  loss_stalls two ⟨by decide, by decide⟩ onward [.listen 0, .receive 0, .sender 7] (.loseRequest 0)
    (by decide) (by change 0 < _; decide +kernel) (by decide)

end RealTimeLabs.Latency
