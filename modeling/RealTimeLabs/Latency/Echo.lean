import RealTimeLabs.Library.Bytes

/-! The round trip of the latency measurement (`latency_measurement.c`).

The sender fills `buf` with digits up to a terminator in the last byte of its payload and
sends the payload. The listener receives into its own `buf`, never clears it, and sends
back `strlen(buf) + 1` bytes of it, whatever number it has received. A datagram of the
sender's brings its terminator along as its last byte and its only zero, so nothing that
an earlier datagram has left behind it is sent back with it (`echo_returns`). -/
namespace RealTimeLabs.Latency
open Bytes

/-- `MAX_BUF`. -/
def maxBuf : Nat := 2048

/-! ### The sender -/

/-- `'0' + (i % 10)`. -/
def digit (i : Nat) : Byte := BitVec.ofNat 8 (48 + i % 10)

/-- One iteration of the loop that fills `buf`: a digit, and the terminator once more. -/
def fillOne (payload_size : Nat) (buf : Memory) (i : Nat) : Memory :=
  writeBytes (writeBytes buf i [digit i]) (payload_size - 1) [0]

def fill (payload_size : Nat) (buf : Memory) : Memory :=
  (List.range payload_size).foldl (fillOne payload_size) buf

/-- The `payload_size` bytes given to `sendto`, from a `buf` with anything in it. -/
def message (payload_size : Nat) (buf : Memory) : List Byte :=
  readBytes (fill payload_size buf) 0 payload_size

/-! ### The listener -/

/-- The listener between two turns of its loop. -/
structure Listener where
  i : Int32
  buf : Memory
  /-- The loop has ended, and the socket is closed. -/
  closed : Bool
  /-- What it has sent, one entry a datagram; nothing where `strlen` leaves `buf`. -/
  sent : List (Option (List Byte))

/-- `recvfrom` into `buf`: a datagram is cut to the size of the buffer. -/
def recvfrom (datagram : List Byte) (buf : Memory) : Memory :=
  writeBytes buf 0 (datagram.take maxBuf)

/-- `sendto(sockd, buf, strlen(buf) + 1, ..)`. -/
def reply (buf : Memory) : Option (List Byte) :=
  (strlenWithin buf 0 maxBuf).map fun n => readBytes buf 0 (n + 1)

/-- The condition of the loop, before its `i++`. -/
def Listener.goesOn (messages_count : Int32) (s : Listener) : Bool :=
  s.i ≠ messages_count ∨ messages_count = 0

/-- One turn of the loop; the arrival is what `recvfrom` returns, a datagram or an error. -/
def turn (messages_count : Int32) (arrival : Option (List Byte)) (s : Listener) : Listener :=
  if s.closed then s
  else if s.goesOn messages_count then
    match arrival with
    | none => { s with i := s.i + 1 }
    | some datagram =>
      let buf := recvfrom datagram s.buf
      { s with i := s.i + 1, buf := buf, sent := s.sent ++ [reply buf] }
  else { s with i := s.i + 1, closed := true }

/-- The listener before its loop, `buf` in static storage. -/
def listening : Listener := ⟨0, fun _ => 0, false, []⟩

def listen (messages_count : Int32) (s : Listener) : List (Option (List Byte)) → Listener
  | [] => s
  | arrival :: rest => listen messages_count (turn messages_count arrival s) rest

/-! ### What is sent -/

/-- The buffer after the first `j` iterations of the loop. -/
theorem fill_at (n : Nat) (buf : Memory) (j k : Nat) (hj : 0 < j) :
    (List.range j).foldl (fillOne n) buf k =
      if k = n - 1 then 0 else if k < j then digit k else buf k := by
  induction j with
  | zero => exact absurd hj (Nat.lt_irrefl 0)
  | succ j ih =>
    rw [List.range_succ, List.foldl_append, List.foldl_cons, List.foldl_nil, fillOne]
    by_cases hlast : k = n - 1
    · rw [if_pos hlast, hlast]
      exact writeBytes_at _ (n - 1) 0 [0] Nat.zero_lt_one
    · rw [if_neg hlast, writeBytes_outside _ _ _ _ (by simp only [List.length_singleton]; omega)]
      by_cases hk : k = j
      · rw [hk, if_pos (Nat.lt_succ_self j)]
        exact writeBytes_at _ j 0 [digit j] Nat.zero_lt_one
      · rw [writeBytes_outside _ _ _ _ (by simp only [List.length_singleton]; omega)]
        rcases Nat.eq_zero_or_pos j with h0 | hpos
        · subst h0
          rw [if_neg (by omega)]
          rfl
        · rw [ih hpos, if_neg hlast]
          have hlt : k < j ↔ k < j + 1 := by omega
          simp only [hlt]

theorem digit_ne_zero (i : Nat) : digit i ≠ 0 := by
  intro h
  have hval := congrArg BitVec.toNat h
  simp only [digit, BitVec.toNat_ofNat] at hval
  change (48 + i % 10) % 256 = 0 at hval
  omega

/-- A message is its own size, and has its only zero at its end. -/
theorem message_spec (n : Nat) (buf : Memory) (h : 0 < n) :
    (message n buf).length = n ∧ (message n buf).getD (n - 1) 0 = 0 ∧
      ∀ k < n - 1, (message n buf).getD k 0 ≠ 0 := by
  have hlen : (message n buf).length = n := length_readBytes _ _ _
  have hget (k : Nat) (hk : k < n) : (message n buf).getD k 0 = fill n buf k := by
    rw [List.getD_eq_getElem?_getD, List.getElem?_eq_getElem (by omega), Option.getD_some]
    simp [message, readBytes]
  refine ⟨hlen, ?_, fun k hk => ?_⟩
  · rw [hget _ (by omega), fill, fill_at n buf n _ h, if_pos rfl]
  · rw [hget k (by omega), fill, fill_at n buf n k h, if_neg (by omega), if_pos (by omega)]
    exact digit_ne_zero k

/-! ### What comes back -/

/-- A datagram that fits and has its only zero at its end is sent back as it is, whatever
the buffer held before. -/
theorem reply_recvfrom {datagram : List Byte} {n : Nat} (buf : Memory)
    (hlen : datagram.length = n + 1) (hfits : n < maxBuf) (hend : datagram.getD n 0 = 0)
    (hbefore : ∀ k < n, datagram.getD k 0 ≠ 0) :
    reply (recvfrom datagram buf) = some datagram := by
  have hwhole : datagram.take maxBuf = datagram := List.take_of_length_le (by omega)
  have hbyte (k : Nat) (hk : k < n + 1) :
      writeBytes buf 0 datagram (0 + k) = datagram.getD k 0 :=
    writeBytes_at buf 0 k datagram (by omega)
  have hstrlen : strlenWithin (writeBytes buf 0 datagram) 0 maxBuf = some n :=
    strlenWithin_eq hfits (by rw [hbyte n (by omega)]; exact hend)
      fun k hk => by rw [hbyte k (by omega)]; exact hbefore k hk
  have hback := readBytes_writeBytes buf 0 datagram
  rw [hlen] at hback
  rw [recvfrom, hwhole, reply, hstrlen, Option.map_some, hback]

/-- A listener that takes a turn is in its loop. -/
structure Takes (messages_count : Int32) (s : Listener) : Prop where
  opened : s.closed = false
  goesOn : s.goesOn messages_count = true

/-- **The sender's datagram comes back as it was sent**, at every payload size up to the
whole buffer and after every sequence of datagrams and errors that the listener has
handled before. -/
theorem echo_returns (messages_count : Int32) (earlier : List (Option (List Byte)))
    (payload_size : Nat) (buf : Memory) (h : 1 ≤ payload_size ∧ payload_size ≤ maxBuf)
    (htakes : Takes messages_count (listen messages_count listening earlier)) :
    (message payload_size buf).length = payload_size ∧
      (turn messages_count (some (message payload_size buf))
          (listen messages_count listening earlier)).sent =
        (listen messages_count listening earlier).sent ++
          [some (message payload_size buf)] := by
  obtain ⟨hlen, hend, hbefore⟩ := message_spec payload_size buf h.1
  refine ⟨hlen, ?_⟩
  have hreply := reply_recvfrom (listen messages_count listening earlier).buf
    (n := payload_size - 1) (by omega) (by omega) hend hbefore
  rw [turn, if_neg (by rw [htakes.opened]; decide), if_pos htakes.goesOn]
  simp only [hreply]

/-- A longer message and an error before it do no harm. -/
theorem echo_returns_short :
    (message 3 fun _ => 7).length = 3 ∧
      (turn 0 (some (message 3 fun _ => 7))
          (listen 0 listening [some [1, 2, 3, 4, 5], none])).sent =
        (listen 0 listening [some [1, 2, 3, 4, 5], none]).sent ++
          [some (message 3 fun _ => 7)] :=
  echo_returns 0 [some [1, 2, 3, 4, 5], none] 3 (fun _ => 7) (by decide) ⟨rfl, rfl⟩

end RealTimeLabs.Latency
