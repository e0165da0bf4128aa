import Uringcore.EventLoop.System

/-!
# Outgoing connections

`create_connection` and `create_unix_connection` without a given socket, up to the call of
`connection_made`: what is true of a socket at the end of these functions is true of it when the
protocol learns of its connection. Name resolution, the descriptor that `socket.socket` gets and the
answer to each `connect` are the system's.

Only the first address is tried, a connect that is in progress is taken for one that has succeeded,
and a socket whose connect fails is left to its finaliser: `connects_iff` says when that is right.
The Unix function closes such a socket, `createUnixConnection_closed`.
-/

namespace Uringcore

/-- What becomes of the non-blocking connect to an address. -/
inductive ConnectOutcome where
  | connected
  /-- `connect` would block; `later` is the error that the connect ends with, if any. -/
  | inProgress (later : Option Int)
  | failed (errno : Int)
  deriving DecidableEq, Repr

def ConnectOutcome.succeeds : ConnectOutcome → Bool
  | connected => true
  | inProgress later => later.isNone
  | failed _ => false

inductive SockState where
  | unconnected
  | connecting
  | connected
  | closed
  deriving DecidableEq, Repr

/-- A socket that was made for the address at place `address` of the resolved list. -/
structure ClientSock where
  fd : Fd
  address : Nat
  state : SockState
  deriving DecidableEq, Repr

namespace ClientSock

/-- `socket.socket` and `setblocking(False)`. -/
def new (fd : Fd) (address : Nat) : ClientSock := ⟨fd, address, .unconnected⟩

def connect (o : ConnectOutcome) (sock : ClientSock) : ClientSock × Except PyErr Unit :=
  match o with
  | .connected => ({ sock with state := .connected }, .ok ())
  | .inProgress _ => ({ sock with state := .connecting }, .error (.osError (some einprogress)))
  | .failed errno => (sock, .error (.osError (some errno)))

def close (sock : ClientSock) : ClientSock := { sock with state := .closed }

end ClientSock

/-- The loop and the sockets a call has made. -/
structure Client (K T : Type) where
  loop : EventLoop K T
  socks : List ClientSock

namespace EventLoop
variable {K T : Type}

/-- `create_connection`: the transport of the connection, or the exception that is raised. -/
def createConnection (env : Env) (infos : List ConnectOutcome) (fd : Fd) (s : EventLoop K T) :
    Client K T × Except PyErr TransportId :=
  match infos with
  -- "getaddrinfo(...) failed"
  | [] => (⟨s, []⟩, .error (.osError none))
  | info :: _ =>
      let made (sock : ClientSock) : Client K T × Except PyErr TransportId :=
        (⟨s.call env (.createConnection sock.fd), [sock]⟩, .ok s.objs.length)
      match (ClientSock.new fd 0).connect info with
      | (sock, .ok ()) => made sock
      | (sock, .error e) =>
          -- `except BlockingIOError: pass`
          if e.isBlockingIOError then made sock else (⟨s, [sock]⟩, .error e)

/-- `create_unix_connection`. -/
def createUnixConnection (env : Env) (info : ConnectOutcome) (fd : Fd) (s : EventLoop K T) :
    Client K T × Except PyErr TransportId :=
  let made (sock : ClientSock) : Client K T × Except PyErr TransportId :=
    (⟨s.call env (.createUnixConnection sock.fd), [sock]⟩, .ok s.objs.length)
  match (ClientSock.new fd 0).connect info with
  | (sock, .ok ()) => made sock
  | (sock, .error e) => if e.isBlockingIOError then made sock else (⟨s, [sock.close]⟩, .error e)

/-- What `connection_made` is called with: the transport that was made last, for the descriptor. -/
theorem call_createConnection (env : Env) (fd : Fd) (s : EventLoop K T) :
    (s.call env (.createConnection fd)).log = s.log ++ [.created s.objs.length] ∧
      (s.call env (.createConnection fd)).objs[s.objs.length]? = some (.new fd true) := by
  constructor
  · rfl
  · simp [call, makeConnection, callProtocol, registerFd]

end EventLoop

section
variable {K T : Type}

/-- What a call that was made in `s` for the addresses `infos` is to come to. -/
structure Connects (infos : List ConnectOutcome) (s : EventLoop K T)
    (r : Client K T × Except PyErr TransportId) : Prop where
  /-- The transport is for the first address whose connect succeeds. -/
  returns : ∀ i, infos.findIdx? ConnectOutcome.succeeds = some i → ∃ tr sock, r.2 = .ok tr ∧
    sock ∈ r.1.socks ∧ (r.1.loop.objs[tr]?).map Transport.fd = some sock.fd ∧ sock.address = i ∧
    sock.state = .connected
  raises : (∃ errno, r.2 = .error (.osError errno)) ↔ ∀ o ∈ infos, o.succeeds = false
  /-- A protocol that was told of its connection has one. -/
  made : ∀ tr, r.1.loop.log = s.log ++ [.created tr] → ∃ sock ∈ r.1.socks,
    (r.1.loop.objs[tr]?).map Transport.fd = some sock.fd ∧ sock.state = .connected
  closes : ∀ sock ∈ r.1.socks, ∀ o, infos[sock.address]? = some o → o.succeeds = false →
    sock.state = .closed

variable {s : EventLoop K T} {env : Env} {infos : List ConnectOutcome} {fd : Fd}

/-! ## One lemma for each answer of the first connect -/

theorem connects_connected (env : Env) (infos : List ConnectOutcome) (fd : Fd) (s : EventLoop K T) :
    Connects (.connected :: infos) s (s.createConnection env (.connected :: infos) fd) := by
  obtain ⟨hlog, hobj⟩ := EventLoop.call_createConnection env fd s
  have hfd : ((s.call env (.createConnection fd)).objs[s.objs.length]?).map Transport.fd = some fd := by
    rw [hobj]
    rfl
  constructor
  case returns =>
    intro i hi
    obtain rfl : 0 = i := by simpa [ConnectOutcome.succeeds, List.findIdx?_cons] using hi
    exact ⟨s.objs.length, ⟨fd, 0, .connected⟩, rfl, List.mem_cons_self, hfd, rfl, rfl⟩
  case raises =>
    constructor
    · rintro ⟨errno, herr⟩
      cases herr
    · intro hfails
      cases hfails .connected List.mem_cons_self
  case made =>
    intro tr htr
    obtain rfl : s.objs.length = tr := by simpa using hlog.symm.trans htr
    exact ⟨⟨fd, 0, .connected⟩, List.mem_cons_self, hfd, rfl⟩
  case closes =>
    intro sock hsock o ho hfails
    obtain rfl : sock = ⟨fd, 0, .connected⟩ := List.mem_singleton.mp hsock
    cases ho
    cases hfails

/-- A connect that is not complete when the transport is made. -/
theorem not_connects_unconnected {r : Client K T × Except PyErr TransportId} {sock : ClientSock}
    (hr : r = (⟨s.call env (.createConnection fd), [sock]⟩, .ok s.objs.length))
    (hstate : sock.state ≠ .connected) : ¬ Connects infos s r := by
  intro h
  obtain ⟨hlog, -⟩ := EventLoop.call_createConnection env fd s
  obtain ⟨sock', hmem, -, hconnected⟩ := h.made s.objs.length (by rw [hr]; exact hlog)
  rw [hr] at hmem
  rw [List.mem_singleton.mp hmem] at hconnected
  exact hstate hconnected

theorem not_connects_inProgress (later : Option Int) :
    ¬ Connects (.inProgress later :: infos) s
      (s.createConnection env (.inProgress later :: infos) fd) :=
  not_connects_unconnected rfl (show SockState.connecting ≠ .connected by rintro ⟨⟩)

/-- The socket of a connect that has failed is not closed, whether or not another address is left. -/
theorem not_connects_failed (errno : Int) :
    ¬ Connects (.failed errno :: infos) s (s.createConnection env (.failed errno :: infos) fd) := by
  by_cases hblocks : (PyErr.osError (some errno)).isBlockingIOError = true
  · have hr : s.createConnection env (.failed errno :: infos) fd =
        (⟨s.call env (.createConnection fd), [.new fd 0]⟩, .ok s.objs.length) := if_pos hblocks
    exact not_connects_unconnected hr (show SockState.unconnected ≠ .connected by rintro ⟨⟩)
  · intro h
    have hr : s.createConnection env (.failed errno :: infos) fd =
        (⟨s, [.new fd 0]⟩, .error (.osError (some errno))) := if_neg hblocks
    rw [hr] at h
    cases h.closes (.new fd 0) List.mem_cons_self (.failed errno) rfl rfl

/-- **`create_connection` does what it is to do if and only if the connect to the first address
succeeds at once.** -/
theorem connects_iff (hne : infos ≠ []) :
    Connects infos s (s.createConnection env infos fd) ↔ infos.head? = some .connected := by
  cases infos with
  | nil => exact absurd rfl hne
  | cons info infos =>
    cases info with
    | connected => exact iff_of_true (connects_connected env infos fd s) rfl
    | inProgress later => exact iff_of_false (not_connects_inProgress later) (by rintro ⟨⟩)
    | failed errno => exact iff_of_false (not_connects_failed errno) (by rintro ⟨⟩)

theorem connects_first : ∃ core : UringCore FutId (Handle Unit) Nat,
    UringCore.new Setup.plain 16 2 = .ok core ∧
      Connects [.connected, .failed 111] (.init core)
        ((EventLoop.init core).createConnection ⟨0, .ok 0⟩ [.connected, .failed 111] 5) :=
  ⟨_, rfl, (connects_iff (by decide)).mpr rfl⟩

/-- The first address refuses and the second would accept: the call fails, with its socket open. -/
theorem not_connects : ∃ core : UringCore FutId (Handle Unit) Nat,
    UringCore.new Setup.plain 16 2 = .ok core ∧
      (EventLoop.init core).createConnection ⟨0, .ok 0⟩ [.failed 111, .connected] 5 =
        (⟨.init core, [⟨5, 0, .unconnected⟩]⟩, .error (.osError (some 111))) ∧
      ¬ Connects [.failed 111, .connected] (.init core)
        ((EventLoop.init core).createConnection ⟨0, .ok 0⟩ [.failed 111, .connected] 5) := by
  refine ⟨_, rfl, rfl, ?_⟩
  intro h
  obtain ⟨tr, sock, hr, -⟩ := h.returns 1 rfl
  cases hr

/-- What the sibling does with the socket of a connect that has failed. -/
theorem createUnixConnection_closed {info : ConnectOutcome} {e : PyErr} {c : Client K T}
    (h : s.createUnixConnection env info fd = (c, .error e)) :
    c.loop = s ∧ ∀ sock ∈ c.socks, sock.state = .closed := by
  unfold EventLoop.createUnixConnection at h
  dsimp only at h
  split at h
  · cases h
  · split at h
    · cases h
    · cases h
      refine ⟨rfl, fun sock hsock => ?_⟩
      rw [List.mem_singleton.mp hsock]
      rfl

end

end Uringcore
