import RealTimeLabs.Http.Server

/-! What a segmented request is answered with.

TCP brings a stream of bytes, and each `recv` as much of it as has come.
`one_client_server` calls it once. It finds a request for the page if the stream has
brought the whole of `"GET / "` by then, and otherwise answers as if there was none to
come. So the answer is right for every splitting of the stream in which what has been
asked for is in the first segment (`sendsPage_iff`), and two clients who send the same are
answered the same where that is so for both of them (`segmentation_iff`). -/
namespace RealTimeLabs.Http
open Bytes

/-- The results of `recv` for a stream, up to the end of the connection. -/
structure Splitting (stream : List Byte) where
  segments : List (List Byte)
  whole : segments.flatten = stream
  nonempty : ∀ segment ∈ segments, segment ≠ []
  fits : ∀ segment ∈ segments, segment.length ≤ httpReceiverBufSize - 1

namespace Splitting
variable {stream : List Byte}

/-- The result of the first `recv`; of an empty stream it is the end. -/
def first (s : Splitting stream) : List Byte := s.segments.headD []

/-- The one answer there is: the page is written to the connection, and closed with it. -/
def sendsPage (s : Splitting stream) : Bool := received (some s.first) = .fclose

/-- The page is sent to whoever has asked for it, and nothing to others. -/
def Right (s : Splitting stream) : Prop := s.sendsPage = true ↔ getRoot <+: stream

/-- A request for the page comes in one piece, as far as it is looked at. -/
def InTime (s : Splitting stream) : Prop := getRoot <+: stream → 6 ≤ s.first.length

theorem first_prefix (s : Splitting stream) : s.first <+: stream := by
  obtain ⟨segments, whole, -, -⟩ := s
  subst whole
  cases segments with
  | nil => exact List.prefix_rfl
  | cons segment rest => exact List.prefix_append _ _

theorem first_length (s : Splitting stream) : s.first.length ≤ httpReceiverBufSize - 1 := by
  obtain ⟨segments, -, -, fits⟩ := s
  cases segments with
  | nil => exact Nat.zero_le _
  | cons segment rest => exact fits segment List.mem_cons_self

end Splitting

/-! ### One client -/

/-- The two tests of `one_client_server` are one for the prefix. -/
theorem isPageRequest_iff (buf : List Byte) : isPageRequest buf = true ↔ getRoot <+: buf := by
  have hlen : getRoot.length = 6 := rfl
  rw [isPageRequest, Bool.and_eq_true, decide_eq_true_eq, decide_eq_true_eq]
  constructor
  · intro ⟨_, htake⟩
    rw [← htake]
    exact List.take_prefix 6 buf
  · intro h
    have hle := h.length_le
    refine ⟨by omega, ?_⟩
    exact (List.prefix_iff_eq_take.mp h).symm

section
variable {stream : List Byte}

theorem sendsPage_iff_first (s : Splitting stream) :
    s.sendsPage = true ↔ getRoot <+: s.first := by
  have hwhole : s.first.take (httpReceiverBufSize - 1) = s.first :=
    List.take_of_length_le s.first_length
  rw [← isPageRequest_iff, Splitting.sendsPage, decide_eq_true_eq]
  cases hfirst : s.first with
  | nil => decide
  | cons b rest =>
    rw [hfirst] at hwhole
    simp only [received, hwhole]
    cases isPageRequest (b :: rest) <;> decide

/-- The page is sent if it has been asked for, and in time. -/
theorem sendsPage_iff (s : Splitting stream) :
    s.sendsPage = true ↔ getRoot <+: stream ∧ 6 ≤ s.first.length := by
  have hprefix := s.first_prefix
  rw [sendsPage_iff_first]
  constructor
  · exact fun hfirst => ⟨hfirst.trans hprefix, hfirst.length_le⟩
  · exact fun ⟨hget, hle⟩ => List.prefix_of_prefix_length_le hget hprefix hle

theorem right_iff (s : Splitting stream) : s.Right ↔ s.InTime := by
  rw [Splitting.Right, sendsPage_iff]
  constructor
  · exact fun h hget => (h.mpr hget).2
  · exact fun h => ⟨fun hsends => hsends.1, fun hget => ⟨hget, h hget⟩⟩

/-- In the server, the task of a connection goes on from its `recv` to write the page, or to
its last `close`. -/
theorem recv_first (s : Splitting stream) {c : Nat} {conn : Connection} {st : State}
    (hconn : st.connections[c]? = some conn) (hpc : conn.pc = .recv) :
    (step (.recv c (some s.first)) st).connections[c]? =
      some { conn with pc := if s.sendsPage then .fclose else .close false } := by
  have hlt : c < st.connections.length := (List.getElem?_eq_some_iff.mp hconn).1
  have hreceived : received (some s.first) = if s.sendsPage then .fclose else .close false := by
    rw [Splitting.sendsPage]
    cases hfirst : s.first with
    | nil => decide
    | cons b rest =>
      simp only [received]
      split <;> rfl
  simp only [step, recvStep, hconn, if_pos hpc, State.setPc, hreceived]
  exact List.getElem?_set_self hlt

/-! ### Two clients -/

/-- The same answer may be wrong twice. -/
theorem sendsPage_eq_iff (s s' : Splitting stream) : s.sendsPage = s'.sendsPage ↔
    (getRoot <+: stream → (6 ≤ s.first.length ↔ 6 ≤ s'.first.length)) := by
  rw [Bool.eq_iff_iff, sendsPage_iff, sendsPage_iff]
  constructor
  · exact fun h hget => ⟨fun hle => (h.mp ⟨hget, hle⟩).2, fun hle => (h.mpr ⟨hget, hle⟩).2⟩
  · exact fun h => ⟨fun hsends => ⟨hsends.1, (h hsends.1).mp hsends.2⟩,
      fun hsends => ⟨hsends.1, (h hsends.1).mpr hsends.2⟩⟩

/-- **The answer does not depend on the segmentation exactly where both splittings bring a
request for the page in one piece.** -/
theorem segmentation_iff (s s' : Splitting stream) :
    (s.Right ∧ s'.Right ∧ s.sendsPage = s'.sendsPage) ↔ s.InTime ∧ s'.InTime := by
  rw [← right_iff, ← right_iff]
  constructor
  · exact fun ⟨h, h', _⟩ => ⟨h, h'⟩
  · exact fun ⟨h, h'⟩ => ⟨h, h', Bool.eq_iff_iff.mpr (h.trans h'.symm)⟩

end

/-- `"GET / HTTP/1.0"` and an empty line. -/
def request : List Byte :=
  getRoot ++ [0x48, 0x54, 0x54, 0x50, 0x2f, 0x31, 0x2e, 0x30, 13, 10, 13, 10]

def atOnce : Splitting request := ⟨[request], rfl, by decide, by decide⟩

/-- Split behind `"GET"`. -/
def inTwo : Splitting request :=
  ⟨[request.take 3, request.drop 3], rfl, by decide, by decide⟩

/-- The request is answered at once, and not in two. -/
theorem inTwo_unanswered :
    getRoot <+: request ∧ atOnce.sendsPage = true ∧ inTwo.sendsPage = false ∧
      ¬ (atOnce.Right ∧ inTwo.Right ∧ atOnce.sendsPage = inTwo.sendsPage) := by
  have honce : atOnce.sendsPage = true := by decide
  have htwo : inTwo.sendsPage = false := by decide
  refine ⟨List.prefix_append _ _, honce, htwo, fun ⟨_, _, hsame⟩ => ?_⟩
  rw [honce, htwo] at hsame
  cases hsame

end RealTimeLabs.Http
