import RealTimeLabs.Http.Server

/-! Who closes a connection, and how often.

As long as the code that holds a connection has closed nothing, the number is the
connection's and `accept` cannot hand it out again (`Owned.held`). The page is written to a
stream over the descriptor, and closing the stream is already the connection's close; the
task's last `close` then finds whatever the number has become. -/
namespace RealTimeLabs.Http
open Interleaving

/-- Closes that were meant for a connection. -/
def State.closes (s : State) (c : Nat) : Nat := s.closed.countP (·.meant = .client c)

/-- Every close finds the connection that it is meant for; no connection is closed twice,
and one whose code has finished is closed. -/
structure Proper (s : State) : Prop where
  own : ∀ e ∈ s.closed, e.found = some e.meant
  once : ∀ (c : Nat) (conn : Connection), s.connections[c]? = some conn →
    s.closes c ≤ 1 ∧ (conn.pc = .done → s.closes c = 1)

/-- No task that has served the page goes on to its last `close`. -/
def Unrepeated : Action → State → Prop
  | .task c, s => ∀ conn, s.connections[c]? = some conn → conn.pc ≠ .close true
  | _, _ => True

/-- The code that holds the connection has not closed it yet. -/
def Pc.holds : Pc → Bool
  | .close true | .done => false
  | _ => true

/-- Connections and their numbers: a connection not yet closed has its number. -/
structure Owned (s : State) : Prop where
  own : ∀ e ∈ s.closed, e.found = some e.meant
  held : ∀ (c : Nat) (conn : Connection), s.connections[c]? = some conn →
    conn.pc.holds = true → s.fds conn.client_fd = some (.client c) ∧ s.closes c = 0
  released : ∀ (c : Nat) (conn : Connection), s.connections[c]? = some conn →
    conn.pc.holds = false → s.closes c = 1
  unborn : ∀ c, s.connections.length ≤ c → s.closes c = 0

/-- The connection in the hands of the accept loop. -/
def Acceptor.pending : Acceptor → Option Nat
  | .spawn c | .closeServer (some c) | .closeClient c => some c
  | _ => none

def Acceptor.listens : Acceptor → Bool
  | .accept | .spawn _ | .closeServer _ => true
  | _ => false

structure Sound (s : State) : Prop where
  owned : Owned s
  pending : ∀ c, s.acceptor.pending = some c →
    ∃ fd, s.connections[c]? = some ⟨fd, .accepted⟩
  listening : s.acceptor.listens = true → s.fds s.listening = some .server

theorem sound_initial (listening : Nat) : Sound (initial listening) := by
  refine ⟨⟨fun e h => (by cases h), fun c conn h => (by cases h), fun c conn h => (by cases h),
    fun _ _ => rfl⟩, fun c h => (by cases h), fun _ => ?_⟩
  exact Function.update_self listening _ (fun _ => none)

theorem proper_of_sound {s : State} (h : Sound s) : Proper s := by
  refine ⟨h.owned.own, fun c conn hc => ?_⟩
  cases hpc : conn.pc.holds with
  | true =>
    have hzero := (h.owned.held c conn hc hpc).2
    refine ⟨by omega, fun hd => ?_⟩
    rw [hd] at hpc
    cases hpc
  | false =>
    have hone := h.owned.released c conn hc hpc
    exact ⟨by omega, fun _ => hone⟩

/-! ### Closing and moving on -/

@[simp] theorem closes_close_self (s : State) (c fd : Nat) :
    (s.close (.client c) fd).closes c = s.closes c + 1 := by
  simp [State.closes, State.close]

theorem closes_close_of_ne (s : State) {o : Owner} {c : Nat} (fd : Nat) (h : o ≠ .client c) :
    (s.close o fd).closes c = s.closes c := by
  simp [State.closes, State.close, h]

@[simp] theorem closes_setPc (s : State) (c k : Nat) (conn : Connection) (pc : Pc) :
    (s.setPc c conn pc).closes k = s.closes k := rfl

/-- Entry `k` after connection `c` has moved on. -/
theorem getElem?_setPc {s : State} {c k : Nat} {conn e : Connection} {pc : Pc}
    (hc : s.connections[c]? = some conn) (h : (s.setPc c conn pc).connections[k]? = some e) :
    k = c ∧ e = { conn with pc := pc } ∨ k ≠ c ∧ s.connections[k]? = some e := by
  have hlt := (List.getElem?_eq_some_iff.mp hc).1
  simp only [State.setPc, List.getElem?_set] at h
  by_cases hk : c = k
  · rw [if_pos hk, if_pos hlt] at h
    exact .inl ⟨hk.symm, (Option.some.inj h).symm⟩
  · rw [if_neg hk] at h
    exact .inr ⟨fun he => hk he.symm, h⟩

/-- Moving on without a close. -/
theorem Owned.move {s : State} (h : Owned s) {c : Nat} {conn : Connection} {pc : Pc}
    (hc : s.connections[c]? = some conn) (hpc : pc.holds = conn.pc.holds) :
    Owned (s.setPc c conn pc) := by
  refine ⟨h.own, fun k e he hh => ?_, fun k e he hh => ?_, fun k hk => ?_⟩
  · rcases getElem?_setPc hc he with ⟨rfl, rfl⟩ | ⟨_, hold⟩
    · exact h.held k conn hc (hpc.symm.trans hh)
    · exact h.held k e hold hh
  · rcases getElem?_setPc hc he with ⟨rfl, rfl⟩ | ⟨_, hold⟩
    · exact h.released k conn hc (hpc.symm.trans hh)
    · exact h.released k e hold hh
  · exact h.unborn k (by simpa [State.setPc] using hk)

/-- A connection's own close of its own number. -/
theorem Owned.release {s : State} (h : Owned s) {c : Nat} {conn : Connection} {pc : Pc}
    (hc : s.connections[c]? = some conn) (hold : conn.pc.holds = true)
    (hpc : pc.holds = false) :
    Owned ((s.close (.client c) conn.client_fd).setPc c conn pc) := by
  obtain ⟨hfd, hzero⟩ := h.held c conn hc hold
  have hlt := (List.getElem?_eq_some_iff.mp hc).1
  refine ⟨fun e he => ?_, fun k e he hh => ?_, fun k e he hh => ?_, fun k hk => ?_⟩
  · rcases List.mem_cons.mp he with rfl | he
    · exact hfd
    · exact h.own e he
  · rcases getElem?_setPc (s := s.close (.client c) conn.client_fd) hc he with
      ⟨rfl, rfl⟩ | ⟨hne, hk⟩
    · rw [hpc] at hh
      cases hh
    · obtain ⟨hfdk, hzerok⟩ := h.held k e hk hh
      have hother : e.client_fd ≠ conn.client_fd := by
        intro heq
        rw [heq, hfd] at hfdk
        cases hfdk
        exact hne rfl
      refine ⟨?_, ?_⟩
      · exact (Function.update_of_ne hother _ _).trans hfdk
      · rw [closes_setPc, closes_close_of_ne s _ fun he => hne (Owner.client.inj he).symm]
        exact hzerok
  · rcases getElem?_setPc (s := s.close (.client c) conn.client_fd) hc he with
      ⟨rfl, rfl⟩ | ⟨hne, hk⟩
    · rw [closes_setPc, closes_close_self, hzero]
    · rw [closes_setPc, closes_close_of_ne s _ fun he => hne (Owner.client.inj he).symm]
      exact h.released k e hk hh
  · have hlen : s.connections.length ≤ k := by simpa [State.setPc, State.close] using hk
    have hne : Owner.client c ≠ .client k := fun he => by
      cases he
      omega
    rw [closes_setPc, closes_close_of_ne s _ hne]
    exact h.unborn k hlen

/-- The listening socket's close leaves the connections alone. -/
theorem Owned.closeServer {s : State} (h : Owned s) (hl : s.fds s.listening = some .server) :
    Owned (s.close .server s.listening) := by
  have hsame (k : Nat) : (s.close .server s.listening).closes k = s.closes k :=
    closes_close_of_ne s _ (fun he => by cases he)
  refine ⟨fun e he => ?_, fun k e he hh => ?_, fun k e he hh => ?_, fun k hk => ?_⟩
  · rcases List.mem_cons.mp he with rfl | he
    · exact hl
    · exact h.own e he
  · obtain ⟨hfdk, hzero⟩ := h.held k e he hh
    have hother : e.client_fd ≠ s.listening := by
      intro heq
      rw [heq, hl] at hfdk
      cases hfdk
    exact ⟨(Function.update_of_ne hother _ _).trans hfdk, (hsame k).trans hzero⟩
  · exact (hsame k).trans (h.released k e he hh)
  · exact (hsame k).trans (h.unborn k hk)

/-- A connection just accepted, over a number that nobody has. -/
theorem Owned.accept {s : State} (h : Owned s) {fd : Nat} (hfd : s.fds fd = none) :
    Owned { s with
      fds := Function.update s.fds fd (some (.client s.connections.length))
      connections := s.connections ++ [⟨fd, .accepted⟩]
      acceptor := .spawn s.connections.length } := by
  have hentry (k : Nat) (e : Connection)
      (he : (s.connections ++ [⟨fd, .accepted⟩])[k]? = some e) :
      s.connections[k]? = some e ∨ k = s.connections.length ∧ e = ⟨fd, .accepted⟩ := by
    rw [List.getElem?_append] at he
    split at he
    · exact .inl he
    · rw [List.getElem?_singleton] at he
      split at he
      · cases he
        exact .inr ⟨by omega, rfl⟩
      · cases he
  refine ⟨h.own, fun k e he hh => ?_, fun k e he hh => ?_, fun k hk => ?_⟩
  · rcases hentry k e he with hold | ⟨rfl, rfl⟩
    · obtain ⟨hfdk, hzero⟩ := h.held k e hold hh
      have hother : e.client_fd ≠ fd := by
        intro heq
        rw [heq, hfd] at hfdk
        cases hfdk
      exact ⟨(Function.update_of_ne hother _ _).trans hfdk, hzero⟩
    · exact ⟨Function.update_self _ _ _, h.unborn _ (Nat.le_refl _)⟩
  · rcases hentry k e he with hold | ⟨rfl, rfl⟩
    · exact h.released k e hold hh
    · cases hh
  · rw [List.length_append] at hk
    exact h.unborn k (Nat.le_of_succ_le hk)

/-- The accept loop's connection is still there when another one moves on. -/
theorem accepted_setPc {s : State} {c k : Nat} {conn : Connection} (pc : Pc)
    (hc : s.connections[c]? = some conn) (hne : conn.pc ≠ .accepted)
    (hk : ∃ fd, s.connections[k]? = some ⟨fd, .accepted⟩) :
    ∃ fd, (s.setPc c conn pc).connections[k]? = some ⟨fd, .accepted⟩ := by
  obtain ⟨fd, hfd⟩ := hk
  refine ⟨fd, ?_⟩
  have hck : c ≠ k := by
    intro rfl
    rw [hc] at hfd
    cases hfd
    exact hne rfl
  simp only [State.setPc, List.getElem?_set_ne hck]
  exact hfd

/-! ### Steps -/

/-- A task's statement that closes its connection. -/
theorem sound_release {s : State} (h : Sound s) {c : Nat} {conn : Connection} {pc : Pc}
    (hc : s.connections[c]? = some conn) (hold : conn.pc.holds = true)
    (hacc : conn.pc ≠ .accepted) (hpc : pc.holds = false) :
    Sound ((s.close (.client c) conn.client_fd).setPc c conn pc) := by
  refine ⟨h.owned.release hc hold hpc, fun k hk => ?_, fun hl => ?_⟩
  · exact accepted_setPc (s := s.close (.client c) conn.client_fd) pc hc hacc (h.pending k hk)
  · have hlisten := h.listening hl
    refine (Function.update_of_ne ?_ _ _).trans hlisten
    intro heq
    have hfd := (h.owned.held c conn hc hold).1
    rw [← heq] at hfd
    change s.fds s.listening = _ at hfd
    rw [hlisten] at hfd
    cases hfd

theorem sound_taskStep {s : State} (h : Sound s) (c : Nat)
    (hC : ∀ conn, s.connections[c]? = some conn → conn.pc ≠ .close true) :
    Sound (taskStep c s) := by
  cases hc : s.connections[c]? with
  | none =>
    simp only [taskStep, hc]
    exact h
  | some conn =>
    simp only [taskStep, hc]
    cases hpc : conn.pc with
    | closeError => exact sound_release h hc (by rw [hpc]; rfl) (by rw [hpc]; decide) rfl
    | fclose => exact sound_release h hc (by rw [hpc]; rfl) (by rw [hpc]; decide) rfl
    | close page =>
      cases page with
      | false => exact sound_release h hc (by rw [hpc]; rfl) (by rw [hpc]; decide) rfl
      | true => exact absurd hpc (hC conn hc)
    | _ => exact h

/-- Whatever arrives, the task still holds its connection. -/
theorem received_holds (outcome : Option (List Bytes.Byte)) : (received outcome).holds = true := by
  unfold received
  split
  · rfl
  · rfl
  · split <;> rfl

theorem sound_recvStep {s : State} (h : Sound s) (c : Nat) (outcome : Option (List Bytes.Byte)) :
    Sound (recvStep c outcome s) := by
  cases hc : s.connections[c]? with
  | none =>
    simp only [recvStep, hc]
    exact h
  | some conn =>
    simp only [recvStep, hc]
    split
    · rename_i hpc
      refine ⟨h.owned.move hc ?_, fun k hk => ?_, h.listening⟩
      · rw [received_holds, hpc]
        rfl
      · exact accepted_setPc _ hc (by rw [hpc]; decide) (h.pending k hk)
    · exact h

theorem sound_closingStep {s : State} (h : Sound s) : Sound (closingStep s) := by
  cases hacc : s.acceptor with
  | closeServer unspawned =>
    simp only [closingStep, hacc]
    have hclose := h.owned.closeServer (h.listening (by rw [hacc]; rfl))
    refine ⟨⟨hclose.own, hclose.held, hclose.released, hclose.unborn⟩, fun k hk => ?_,
      fun hl => ?_⟩
    · cases unspawned with
      | none => cases hk
      | some c => exact h.pending k (by rw [hacc]; exact hk)
    · cases unspawned <;> cases hl
  | closeClient c =>
    obtain ⟨fd, hfd⟩ := h.pending c (by rw [hacc]; rfl)
    simp only [closingStep, hacc, hfd]
    have hrel : Owned ((s.close (.client c) fd).setPc c ⟨fd, .accepted⟩ .done) :=
      h.owned.release hfd rfl rfl
    exact ⟨⟨hrel.own, hrel.held, hrel.released, hrel.unborn⟩, fun k hk => (by cases hk),
      fun hl => by cases hl⟩
  | _ =>
    simp only [closingStep, hacc]
    exact h

theorem sound_acceptStep {s : State} (h : Sound s) (outcome : Option Nat) :
    Sound (acceptStep outcome s) := by
  cases hacc : s.acceptor with
  | accept =>
    have hlisten := h.listening (by rw [hacc]; rfl)
    cases outcome with
    | none =>
      simp only [acceptStep, hacc]
      exact ⟨⟨h.owned.own, h.owned.held, h.owned.released, h.owned.unborn⟩,
        fun k hk => (by cases hk), fun _ => hlisten⟩
    | some fd =>
      simp only [acceptStep, hacc]
      split
      · rename_i hfd
        refine ⟨h.owned.accept hfd, fun k hk => ?_, fun _ => ?_⟩
        · cases hk
          exact ⟨fd, by simp⟩
        · refine (Function.update_of_ne ?_ _ _).trans hlisten
          intro heq
          rw [← heq] at hfd
          change s.fds s.listening = none at hfd
          rw [hlisten] at hfd
          cases hfd
      · exact h
  | _ =>
    simp only [acceptStep, hacc]
    exact h

theorem sound_spawnStep {s : State} (h : Sound s) (ok : Bool) : Sound (spawnStep ok s) := by
  cases hacc : s.acceptor with
  | spawn c =>
    have hlisten := h.listening (by rw [hacc]; rfl)
    obtain ⟨fd, hfd⟩ := h.pending c (by rw [hacc]; rfl)
    simp only [spawnStep, hacc, hfd]
    split
    · have hmove : Owned (s.setPc c ⟨fd, .accepted⟩ .recv) := h.owned.move hfd rfl
      exact ⟨⟨hmove.own, hmove.held, hmove.released, hmove.unborn⟩, fun k hk => (by cases hk),
        fun _ => hlisten⟩
    · refine ⟨⟨h.owned.own, h.owned.held, h.owned.released, h.owned.unborn⟩, fun k hk => ?_,
        fun _ => hlisten⟩
      cases hk
      exact ⟨fd, hfd⟩
  | _ =>
    simp only [spawnStep, hacc]
    exact h

theorem sound_step (a : Action) (s : State) (h : Sound s) (hC : Unrepeated a s) :
    Sound (step a s) := by
  cases a with
  | accept outcome => exact sound_acceptStep h outcome
  | spawn ok => exact sound_spawnStep h ok
  | closing => exact sound_closingStep h
  | recv c outcome => exact sound_recvStep h c outcome
  | task c => exact sound_taskStep h c hC

/-- The last `close` after a page is the connection's second. -/
theorem improper_of_repeated (a : Action) (s : State) (h : Sound s) (hC : ¬ Unrepeated a s) :
    ¬ Proper (step a s) := by
  cases a with
  | task c =>
    simp only [Unrepeated, not_forall, Classical.not_not] at hC
    obtain ⟨conn, hc, hpc⟩ := hC
    have hone := h.owned.released c conn hc (by rw [hpc]; rfl)
    intro hproper
    simp only [step, taskStep, hc, hpc] at hproper
    have hlt := (List.getElem?_eq_some_iff.mp hc).1
    have hle := (hproper.once c { conn with pc := .done } (by
      simp only [State.setPc]
      exact List.getElem?_set_self hlt)).1
    rw [closes_setPc, closes_close_self, hone] at hle
    omega
  | _ => exact absurd trivial hC

/-- **Every connection is closed once, by its own code and as its own, throughout a run
exactly when no task that has served the page gets to its last `close`.** -/
theorem proper_iff_unrepeated (listening : Nat) (acts : List Action) :
    Throughout step Proper (initial listening) acts ↔
      Along step Unrepeated (initial listening) acts :=
  throughout_iff_along sound_step (fun _ => proper_of_sound) improper_of_repeated
    (sound_initial listening) acts

/-- Client 0 gets the page over descriptor 4; its stream is closed, client 1 is accepted
with number 4, and the task of client 0 goes on to close that. -/
def strangersClose : List Action :=
  [.accept (some 4), .spawn true, .recv 0 (some getRoot), .task 0, .accept (some 4), .task 0]

theorem strangersClose_improper : ¬ Proper (run (initial 3) strangersClose) :=
  fun h => absurd (h.own ⟨.client 0, some (.client 1)⟩ (by decide)) (by decide)

end RealTimeLabs.Http
