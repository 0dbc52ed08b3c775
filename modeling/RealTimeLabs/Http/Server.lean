import Mathlib.Logic.Function.Basic
import RealTimeLabs.Library.Bytes
import RealTimeLabs.Library.Interleaving

/-! The web server and its descriptors (`server_http.c`).

`run_http_srv` accepts connections and spawns one `one_client_server` task for each. All
of them share one descriptor table: `accept` may hand out any number that is closed at the
time, and `close` frees whatever has the number. `step` is one statement of the accept
loop or of one task, with the outcome of the system call it makes; statements that touch
no descriptor (the page's contents, `perror`, the task's name) are left out. Every close is
logged, with the connection that it is meant for and the one that it found. -/
namespace RealTimeLabs.Http
open Bytes

def httpReceiverBufSize : Nat := 5000

/-- What an open number stands for: the listening socket, or a connection, by the order in
which they were accepted. -/
inductive Owner where
  | server
  | client (c : Nat)
deriving DecidableEq

/-- Where the code that holds a connection stands. -/
inductive Pc where
  /-- Accepted, in the hands of `run_http_srv`. -/
  | accepted
  | recv
  /-- `close` after a failed `recv`. -/
  | closeError
  /-- `fclose` of the stream that the page was written to. -/
  | fclose
  /-- The last `close` of the task, after a page or not. -/
  | close (page : Bool)
  | done
deriving DecidableEq

structure Connection where
  client_fd : Nat
  pc : Pc
deriving DecidableEq

/-- Where the accept loop stands. -/
inductive Acceptor where
  | accept
  | spawn (c : Nat)
  /-- `close(s)`, and then `close(new_fd)` if `taskSpawn` has failed. -/
  | closeServer (unspawned : Option Nat)
  | closeClient (c : Nat)
  | returned
deriving DecidableEq

/-- One `close`: for whom the code means it, and whose number it was. -/
structure Close where
  meant : Owner
  found : Option Owner
deriving DecidableEq

structure State where
  fds : Nat → Option Owner
  listening : Nat
  acceptor : Acceptor
  connections : List Connection
  closed : List Close

/-- `close(fd)`, of a number that may be anybody's or nobody's. -/
def State.close (meant : Owner) (fd : Nat) (s : State) : State :=
  { s with
    fds := Function.update s.fds fd none
    closed := ⟨meant, s.fds fd⟩ :: s.closed }

def State.setPc (c : Nat) (conn : Connection) (pc : Pc) (s : State) : State :=
  { s with connections := s.connections.set c { conn with pc := pc } }

/-- `"GET / "`. -/
def getRoot : List Byte := [0x47, 0x45, 0x54, 0x20, 0x2f, 0x20]

/-- The request that is answered with the page. -/
def isPageRequest (buf : List Byte) : Bool :=
  5 < buf.length && buf.take 6 = getRoot

/-- What follows `recv`: an error, nothing, or as much of a request as the buffer takes. -/
def received (outcome : Option (List Byte)) : Pc :=
  match outcome with
  | none => .closeError
  | some [] => .close false
  | some bytes =>
    if isPageRequest (bytes.take (httpReceiverBufSize - 1)) then .fclose else .close false

inductive Action where
  /-- `accept` fails, or returns a number that is closed. -/
  | accept (fd : Option Nat)
  | spawn (ok : Bool)
  | closing
  /-- The task of connection `c` receives. -/
  | recv (c : Nat) (outcome : Option (List Byte))
  /-- The task of connection `c` executes any other statement. -/
  | task (c : Nat)

/-- One statement of the accept loop, apart from its two system calls with an outcome. -/
def closingStep (s : State) : State :=
  match s.acceptor with
  | .closeServer unspawned =>
    { s.close .server s.listening with
      acceptor := match unspawned with
        | none => .returned
        | some c => .closeClient c }
  | .closeClient c =>
    match s.connections[c]? with
    | some conn =>
      { (s.close (.client c) conn.client_fd).setPc c conn .done with acceptor := .returned }
    | none => s
  | _ => s

/-- One statement of `one_client_server` after its `recv`. -/
def taskStep (c : Nat) (s : State) : State :=
  match s.connections[c]? with
  | some conn =>
    match conn.pc with
    | .closeError => (s.close (.client c) conn.client_fd).setPc c conn .done
    | .fclose => (s.close (.client c) conn.client_fd).setPc c conn (.close true)
    | .close _ => (s.close (.client c) conn.client_fd).setPc c conn .done
    | _ => s
  | none => s

def acceptStep (outcome : Option Nat) (s : State) : State :=
  match s.acceptor, outcome with
  | .accept, none => { s with acceptor := .closeServer none }
  | .accept, some fd =>
    if s.fds fd = none then
      { s with
        fds := Function.update s.fds fd (some (.client s.connections.length))
        connections := s.connections ++ [⟨fd, .accepted⟩]
        acceptor := .spawn s.connections.length }
    else s
  | _, _ => s

def spawnStep (ok : Bool) (s : State) : State :=
  match s.acceptor with
  | .spawn c =>
    match s.connections[c]? with
    | some conn =>
      if ok then { s.setPc c conn .recv with acceptor := .accept }
      else { s with acceptor := .closeServer (some c) }
    | none => s
  | _ => s

def recvStep (c : Nat) (outcome : Option (List Byte)) (s : State) : State :=
  match s.connections[c]? with
  | some conn => if conn.pc = .recv then s.setPc c conn (received outcome) else s
  | none => s

def step : Action → State → State
  | .accept outcome => acceptStep outcome
  | .spawn ok => spawnStep ok
  | .closing => closingStep
  | .recv c outcome => recvStep c outcome
  | .task c => taskStep c

/-- The server listens; no other number is open. -/
def initial (listening : Nat) : State where
  fds := Function.update (fun _ => none) listening (some .server)
  listening := listening
  acceptor := .accept
  connections := []
  closed := []

def run (s : State) (acts : List Action) : State := Interleaving.run step s acts

/-! ### In front of the loop -/

/-- Where `run_http_srv` stands. -/
inductive Setup where
  | socket
  | bind
  /-- Returned after a failed `bind`, which closes nothing. -/
  | unbound
  | listen
  /-- `close(s)` after a failed `listen`. -/
  | closeServer
  | returned
  /-- In its loop. -/
  | serving
deriving DecidableEq

structure Server where
  setup : Setup
  state : State

inductive ServerAction where
  /-- `socket` fails, or returns a number. -/
  | socket (s : Option Nat)
  | bind (ok : Bool)
  | listen (ok : Bool)
  | closing
  | serve (a : Action)

/-- No number is open. -/
def booted : Server := ⟨.socket, { initial 0 with fds := fun _ => none }⟩

end RealTimeLabs.Http
