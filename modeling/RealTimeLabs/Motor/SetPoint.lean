import RealTimeLabs.Motor.Tasks

/-! What bad datagrams do to the set-point.

The receiving loop of `run_udp_srv` has `recvfrom` write straight into `desired_position`,
and never looks at `status`. A failure leaves the four bytes as they are, but a datagram
of one to three bytes replaces the first of them; and whatever has come, `semGive` asks
the motor task for a new duty. The loop therefore does what it should exactly as long as
every datagram is a whole one (`setPoint_law_iff`). For the set-point alone a little less
is enough (`setPoint_iff_harmless`). -/
namespace RealTimeLabs.Motor
open Bytes Interleaving

/-- The value at the start of a datagram that is long enough for one. -/
def wholeValue (outcome : Option (List Byte)) : Option Int32 :=
  match outcome with
  | none => none
  | some bytes =>
    if 4 ≤ bytes.length then some (.ofBitVec (load32 (writeBytes (fun _ => 0) 0 bytes) 0))
    else none

/-- What the receiving loop's `recvfrom` returns in this step, if it is called. -/
def receives : Action → State → Option (Option (List Byte))
  | .receive outcome, s => if s.isr = .idle ∧ s.udp = .receive then some outcome else none
  | _, _ => none

/-- The system, with what its datagrams have said. -/
structure Fed where
  state : State
  /-- The last whole value that has come, zero before the first. -/
  lastWhole : Int32
  /-- The last `recvfrom` has failed, or brought less than a value. -/
  short : Bool

def fedStep (a : Action) (t : Fed) : Fed :=
  match receives a t.state with
  | none => { t with state := step a t.state }
  | some outcome =>
    { state := step a t.state
      lastWhole := (wholeValue outcome).getD t.lastWhole
      short := (wholeValue outcome).isNone }

def unfed (setDesired : Bool) (shaft : Int) (cr status : BitVec 32) : Fed :=
  ⟨initial setDesired shaft cr status, 0, false⟩

/-- The set-point is the last whole value. -/
def Fed.Follows (t : Fed) : Prop := t.state.driver.shared.desiredPosition = t.lastWhole

instance (t : Fed) : Decidable t.Follows := inferInstanceAs (Decidable (_ = _))

/-- The statements of the receiving loop. -/
def Action.ofReceiver : Action → Bool
  | .receive _ | .give => true
  | _ => false

/-- After a failure or a short datagram the loop changes neither the set-point nor the
number of requests for a new duty. -/
def LeavesAlone (a : Action) (t : Fed) : Prop :=
  a.ofReceiver = true → (fedStep a t).short = true →
    (fedStep a t).state.driver.shared.desiredPosition = t.state.driver.shared.desiredPosition ∧
      (fedStep a t).state.semMotorPwmChange = t.state.semMotorPwmChange

/-- In every state the set-point is the last whole value that has come, and bad datagrams
leave it and the requests as they are. -/
def SetPointLaw (t : Fed) (acts : List Action) : Prop :=
  Throughout fedStep Fed.Follows t acts ∧ Along fedStep LeavesAlone t acts

/-- Every datagram received is a whole value, at least. -/
def BringsWhole (a : Action) (t : Fed) : Prop :=
  ∀ outcome ∈ receives a t.state, (wholeValue outcome).isSome = true

/-! ### The receiver's two statements -/

theorem received_whole {outcome : Option (List Byte)} {v : Int32}
    (h : wholeValue outcome = some v) (desired : Int32) : received outcome desired = v := by
  cases outcome with
  | none => cases h
  | some bytes =>
    simp only [wholeValue] at h
    split at h
    · rename_i hlen
      have hbyte (m : Memory) (k : Nat) (hk : k < 4) :
          writeBytes m 0 (bytes.take 4) k = writeBytes (fun _ => 0) 0 bytes k := by
        have htake := writeBytes_at m 0 k (bytes.take 4) (by rw [List.length_take]; omega)
        have hwhole := writeBytes_at (fun _ => 0) 0 k bytes (by omega)
        rw [Nat.zero_add] at htake hwhole
        rw [htake, hwhole, List.getD_eq_getElem?_getD, List.getElem?_take_of_lt hk,
          List.getD_eq_getElem?_getD]
      have hword (m : Memory) : load32 (writeBytes m 0 (bytes.take 4)) 0 =
          load32 (writeBytes (fun _ => 0) 0 bytes) 0 := by
        unfold load32
        rw [hbyte m _ (by decide), hbyte m _ (by decide), hbyte m _ (by decide),
          hbyte m _ (by decide)]
      rw [received, overlay, hword]
      exact Option.some_inj.mp h
    · cases h

theorem isrStep_udp (s : State) : (isrStep s).udp = s.udp := by
  unfold isrStep
  split <;> (try split) <;> rfl

theorem taskStep_udp (s : State) : (taskStep s).udp = s.udp := by
  unfold taskStep
  split <;> (try split) <;> rfl

theorem isrStep_desiredPosition (s : State) :
    (isrStep s).driver.shared.desiredPosition = s.driver.shared.desiredPosition := by
  unfold isrStep
  split <;> (try split) <;> rfl

theorem taskStep_desiredPosition (s : State) :
    (taskStep s).driver.shared.desiredPosition = s.driver.shared.desiredPosition := by
  unfold taskStep
  split <;> (try split) <;> rfl

/-- Nothing but `recvfrom` writes the set-point. -/
theorem step_desiredPosition (a : Action) (s : State) :
    (step a s).driver.shared.desiredPosition =
      match receives a s with
      | none => s.driver.shared.desiredPosition
      | some outcome => received outcome s.driver.shared.desiredPosition := by
  cases a with
  | shaft forward => rfl
  | enter =>
    simp only [step, receives]
    split <;> rfl
  | isr => exact isrStep_desiredPosition s
  | task =>
    simp only [step, receives]
    split
    · exact taskStep_desiredPosition s
    · rfl
  | receive outcome =>
    simp only [step, receives]
    by_cases hi : s.isr = .idle
    · cases hudp : s.udp <;> simp [hi, hudp, receiveStep]
    · simp [hi]
  | give =>
    simp only [step, receives]
    split
    · unfold giveStep
      split <;> rfl
    · rfl

/-- Between `recvfrom` and `semGive` the loop stands still, until it asks for a new duty. -/
theorem step_udp_of_give {a : Action} {s : State} (h : s.udp = .give) :
    (step a s).udp = .give ∨
      a = .give ∧ (step a s).semMotorPwmChange = s.semMotorPwmChange + 1 := by
  cases a with
  | shaft forward => exact .inl h
  | enter =>
    left
    simp only [step]
    split <;> exact h
  | isr => exact .inl ((isrStep_udp s).trans h)
  | task =>
    left
    simp only [step]
    split
    · exact (taskStep_udp s).trans h
    · exact h
  | receive outcome =>
    left
    simp only [step, receiveStep, h]
    split <;> exact h
  | give =>
    simp only [step, giveStep, h]
    split
    · exact .inr ⟨trivial, rfl⟩
    · exact .inl h

theorem receives_of_give (a : Action) {s : State} (h : s.udp = .give) : receives a s = none := by
  cases a with
  | receive outcome => simp [receives, h]
  | _ => rfl

theorem step_udp_of_receives {a : Action} {s : State} {outcome : Option (List Byte)}
    (h : receives a s = some outcome) : (step a s).udp = .give := by
  cases a with
  | receive outcome' =>
    simp only [receives] at h
    split at h
    · rename_i hready
      simp only [step, if_pos hready.1, receiveStep, hready.2]
    · cases h
  | _ => cases h

/-! ### The law -/

/-- A whole datagram keeps the set-point with the datagrams, and so does every other
statement. -/
theorem follows_step (a : Action) (t : Fed) (h : t.Follows ∧ t.short = false)
    (hC : BringsWhole a t) : (fedStep a t).Follows ∧ (fedStep a t).short = false := by
  have hdesired := step_desiredPosition a t.state
  cases hreceives : receives a t.state with
  | none =>
    simp only [hreceives] at hdesired
    simp only [fedStep, hreceives, Fed.Follows]
    exact ⟨hdesired.trans h.1, h.2⟩
  | some outcome =>
    obtain ⟨v, hv⟩ := Option.isSome_iff_exists.mp (hC outcome hreceives)
    simp only [hreceives] at hdesired
    simp only [fedStep, hreceives, Fed.Follows, hv]
    exact ⟨hdesired.trans (received_whole hv _), rfl⟩

/-- Once less than a value has come, the loop is bound to ask for a new duty. -/
theorem asks_after_short {t : Fed} (hudp : t.state.udp = .give) (hshort : t.short = true)
    {acts : List Action} (hend : (Interleaving.run fedStep t acts).state.udp = .receive) :
    ¬ Along fedStep LeavesAlone t acts := by
  induction acts generalizing t with
  | nil =>
    rw [show t.state.udp = .receive from hend] at hudp
    cases hudp
  | cons a rest ih =>
    intro ⟨halone, hrest⟩
    have hnext : fedStep a t = { t with state := step a t.state } := by
      simp only [fedStep, receives_of_give a hudp]
    rcases step_udp_of_give (a := a) hudp with hstays | ⟨rfl, hasks⟩
    · refine ih ?_ ?_ hend hrest
      · rw [hnext]
        exact hstays
      · rw [hnext]
        exact hshort
    · rw [LeavesAlone, hnext] at halone
      exact absurd (hasks.symm.trans (halone rfl hshort).2) (Nat.succ_ne_self _)

theorem bringsWhole_of_leavesAlone {t : Fed} {acts : List Action}
    (hend : (Interleaving.run fedStep t acts).state.udp = .receive)
    (h : Along fedStep LeavesAlone t acts) : Along fedStep BringsWhole t acts := by
  induction acts generalizing t with
  | nil => trivial
  | cons a rest ih =>
    refine ⟨fun outcome hreceives => ?_, ih hend h.2⟩
    by_contra hnone
    have hnext : (fedStep a t).state.udp = .give ∧ (fedStep a t).short = true := by
      simp only [fedStep, Option.mem_def.mp hreceives]
      exact ⟨step_udp_of_receives hreceives, by simpa using hnone⟩
    exact asks_after_short hnext.1 hnext.2 hend h.2

/-- **A bad datagram never changes the set-point or asks for a new duty as long as there is
none**, and with the turn that receives the first one the law is broken. -/
theorem setPoint_law_iff (setDesired : Bool) (shaft : Int) (cr status : BitVec 32)
    (acts : List Action) :
    (Along fedStep BringsWhole (unfed setDesired shaft cr status) acts →
      SetPointLaw (unfed setDesired shaft cr status) acts) ∧
    ((Interleaving.run fedStep (unfed setDesired shaft cr status) acts).state.udp = .receive →
      SetPointLaw (unfed setDesired shaft cr status) acts →
      Along fedStep BringsWhole (unfed setDesired shaft cr status) acts) := by
  constructor
  · intro hC
    have hstart : (unfed setDesired shaft cr status).Follows ∧
        (unfed setDesired shaft cr status).short = false := ⟨rfl, rfl⟩
    have hfollows := throughout_of_along follows_step hstart hC
    refine ⟨hfollows.imp fun _ h => h.1, hfollows.along.imp fun a t h _ hshort => ?_⟩
    rw [h.2] at hshort
    cases hshort
  · exact fun hend h => bringsWhole_of_leavesAlone hend h.2

/-- A single byte is a set-point for the motor. -/
theorem shortDatagram_obeyed :
    ¬ SetPointLaw (unfed true 0 0 0) [.receive (some [100]), .give] := by
  intro ⟨hfollows, _⟩
  have hlast := hfollows.last
  revert hlast
  decide

/-! ### The set-point alone -/

/-- What is not a whole value does not differ from the bytes that it replaces. -/
def Harmless (a : Action) (t : Fed) : Prop :=
  ∀ outcome ∈ receives a t.state, wholeValue outcome = none →
    received outcome t.state.driver.shared.desiredPosition =
      t.state.driver.shared.desiredPosition

/-- The set-point alone stands failures and empty datagrams, and short ones that bring the
bytes which are there. -/
theorem setPoint_iff_harmless (setDesired : Bool) (shaft : Int) (cr status : BitVec 32)
    (acts : List Action) :
    Throughout fedStep Fed.Follows (unfed setDesired shaft cr status) acts ↔
      Along fedStep Harmless (unfed setDesired shaft cr status) acts := by
  have hstep (a : Action) (t : Fed) (h : t.Follows) :
      (fedStep a t).Follows ↔ Harmless a t := by
    have hdesired := step_desiredPosition a t.state
    cases hreceives : receives a t.state with
    | none =>
      simp only [hreceives] at hdesired
      simp only [fedStep, hreceives, Fed.Follows, Harmless, Option.mem_def]
      exact iff_of_true (hdesired.trans h) fun _ hsome => by cases hsome
    | some outcome =>
      simp only [hreceives] at hdesired
      simp only [fedStep, hreceives, Fed.Follows, Harmless, Option.mem_def, Option.some_inj,
        forall_eq', hdesired]
      cases hvalue : wholeValue outcome with
      | none =>
        simp only [Option.getD_none, true_imp_iff]
        rw [← show t.state.driver.shared.desiredPosition = t.lastWhole from h]
      | some v =>
        exact iff_of_true (received_whole hvalue _) fun hnone => by cases hnone
  have hstart : (unfed setDesired shaft cr status).Follows := rfl
  exact throughout_iff_along (fun a t h => (hstep a t h).mpr) (fun _ h => h)
    (fun a t h hC hfollows => hC ((hstep a t h).mp hfollows)) hstart acts

end RealTimeLabs.Motor
