import Uringcore.Core.Execution

/-!
# Transports

The Python side of the sockets: the loop's tables (`_transports`, `_io_futures`, `_servers`), the
`asyncio.Future`s and the `UringSocketTransport`s as objects, and the methods of a transport.

A method that calls the protocol stops there: what is left of it stays on the `stack` as a `Frame`,
the protocol's code runs (it may call any method again) and returns into the frame. So each function
here is one stretch of code between two calls of the protocol. `log` is a history of what happened to
the transports, `issued` and `drained` are histories of what was submitted and what has come back; no
function reads them.

A `try` around such a stretch is modelled by what its `except` does. What reading `closing` and
`call_soon` raise is left out: the loop is open while it runs. An error of `sock.close` is swallowed by
`_force_close` and reaches the program from its own `close`, after the flags are set; where
`_eof_received` calls `close`, it is the return of the call that says whether it raises.
-/

namespace Uringcore

/-- An `asyncio.Future`, by its place in `EventLoop.futs`. -/
abbrev FutId := Nat

/-- A transport object, by its place in `EventLoop.objs`. -/
abbrev TransportId := Nat

/-- The exceptions a transport hands on to `connection_lost`. -/
inductive Exc where
  | osError (errno : Int)
  /-- Raised by a method of the core. -/
  | core (e : PyErr)
  /-- A `bytes` or a tuple where a number was expected. -/
  | typeError
  /-- The result of a future that has none. -/
  | invalidState
  /-- Raised by the protocol or by an exception handler. -/
  | program
  /-- Raised by the socket that `close` closes. -/
  | socket
  deriving DecidableEq, Repr

/-- A handle of the ready queue. `user` is any callback of the program or of `asyncio`. -/
inductive Handle (K : Type) where
  | onRecvComplete (tr : TransportId) (fut : FutId)
  | onWriteComplete (tr : TransportId) (fut : FutId)
  | callConnectionLost (tr : TransportId) (exc : Option Exc)
  | user (k : K)
  deriving DecidableEq, Repr

def Handle.isUser {K : Type} : Handle K → Bool
  | user _ => true
  | onRecvComplete .. | onWriteComplete .. | callConnectionLost .. => false

/-- What a Python future is resolved with. -/
inductive Value where
  | data (d : PyData)
  /-- `(b"", None)`. -/
  | emptyMsg
  deriving DecidableEq, Repr

/-- `bool(data)`. -/
def Value.truthy : Value → Bool
  | data (.bytes b) => !b.isEmpty
  | data (.msg _ _) => true
  | data (.int n) => n ≠ 0
  | emptyMsg => true

inductive FutState where
  | pending
  | result (v : Value)
  | exception (errno : Int)
  | cancelled
  deriving DecidableEq, Repr

def Outcome.futState : Outcome → FutState
  | .exception errno => .exception errno
  | .result d => .result (.data d)

/-- An `asyncio.Future` with the handles its done callbacks will be pushed as. -/
structure AsyncFuture (K : Type) where
  state : FutState
  callbacks : List (Handle K)
  deriving DecidableEq, Repr

structure Transport where
  fd : Fd
  /-- `_sock` is a socket object. -/
  hasSock : Bool
  closing : Bool
  closed : Bool
  writeBufferSize : Nat
  paused : Bool
  recvPending : Bool
  highWater : Nat
  lowWater : Nat
  deriving DecidableEq, Repr

namespace Transport

def new (fd : Fd) (hasSock : Bool) : Transport where
  fd := fd
  hasSock := hasSock
  closing := false
  closed := false
  writeBufferSize := 0
  paused := false
  recvPending := false
  highWater := 64 * 1024
  lowWater := 16 * 1024

def setClosing (t : Transport) : Transport := { t with closing := true }

def setClosed (t : Transport) : Transport := { t with closed := true, closing := true }

def setPaused (paused : Bool) (t : Transport) : Transport := { t with paused }

def setRecvPending (recvPending : Bool) (t : Transport) : Transport := { t with recvPending }

def setWriteBufferSize (writeBufferSize : Nat) (t : Transport) : Transport :=
  { t with writeBufferSize }

/-- `set_write_buffer_limits`. -/
def setLimits (high low : Option Nat) (t : Transport) : Transport :=
  { t with highWater := high.getD t.highWater, lowWater := low.getD t.lowWater }

end Transport

/-- The operation names `_io_futures` is keyed by. -/
inductive IoKind where
  | recv | recvmsg | send | sendmsg | accept
  deriving DecidableEq, Repr

/-- Who has called `connection_made`: `create_connection`, `create_unix_connection`, or the handler
of an accept. -/
inductive Creator where
  | connection
  | unixConnection
  /-- `multi` for a completion of the multishot accept, after which nothing is armed again. -/
  | accepted (listener : Fd) (multi : Bool)
  deriving DecidableEq, Repr

/-- What is left of the code that is waiting for a call to return. -/
inductive Frame where
  /-- A callback of the program. -/
  | user
  | dataReceived (tr : TransportId)
  /-- `handler`: called by `_handle_recv_completion`, not by `_on_recv_complete`. -/
  | eofReceived (tr : TransportId) (handler : Bool)
  | pauseWriting (tr : TransportId)
  /-- `handler`: called by `_handle_send_completion`, not by `_on_write_complete`. -/
  | resumeWriting (tr : TransportId) (handler : Bool)
  | connectionLost (tr : TransportId)
  | protocolFactory (listener client : Fd) (multi : Bool)
  | connectionMade (tr : TransportId) (creator : Creator)
  /-- No call: the handler of an accept goes on to arm the next one. -/
  | rearmAccept (listener : Fd)
  deriving DecidableEq, Repr

/-- What happened to a transport. -/
inductive TransportEvent where
  | created (tr : TransportId)
  | closeCalled (tr : TransportId)
  | abortCalled (tr : TransportId)
  /-- `_error_received` or `_error_received_exc` was called. -/
  | errored (tr : TransportId)
  /-- `eof_received` returned something falsy or raised. -/
  | eofNotKept (tr : TransportId)
  /-- `call_soon(self._call_connection_lost, exc)`. -/
  | lostScheduled (tr : TransportId)
  | connectionLost (tr : TransportId) (exc : Option Exc)
  | dataReceived (tr : TransportId) (data : Value)
  | eofReceived (tr : TransportId)
  | pauseWriting (tr : TransportId)
  | resumeWriting (tr : TransportId)
  deriving DecidableEq, Repr

/-- `UringEventLoop`. -/
structure EventLoop (K T : Type) where
  core : UringCore FutId (Handle K) T
  /-- `_transports`. -/
  transports : FdMap TransportId
  /-- `_io_futures`. -/
  ioFutures : AList fun _ : Fd × IoKind => FutId
  /-- The descriptors in `_servers`. -/
  servers : List Fd
  futs : List (AsyncFuture K)
  objs : List Transport
  /-- What is left of the batch `run_tick` executes. -/
  batch : List (Handle K)
  /-- What is left of the list `_process_completions` goes through. -/
  results : List ResultTuple
  /-- The innermost call first. -/
  stack : List Frame
  log : List TransportEvent
  /-- By submission number: the request it was made by. -/
  issued : List (Fd × Request FutId)
  /-- The completions ticks have processed. -/
  drained : List Cqe

/-- What the system answers to one call of the core. -/
structure Env where
  now : Nat
  enter : Except String Nat

namespace EventLoop
variable {K T : Type}

def init (core : UringCore FutId (Handle K) T) : EventLoop K T where
  core := core
  transports := ∅
  ioFutures := ∅
  servers := []
  futs := []
  objs := []
  batch := []
  results := []
  stack := []
  log := []
  issued := []
  drained := []

/-! ## Basic operations -/

def note (e : TransportEvent) (s : EventLoop K T) : EventLoop K T := { s with log := s.log ++ [e] }

/-- Call the protocol: `e` is recorded, `frame` waits for the return. -/
def callProtocol (e : TransportEvent) (frame : Frame) (s : EventLoop K T) : EventLoop K T :=
  { s with log := s.log ++ [e], stack := frame :: s.stack }

def modify (tr : TransportId) (f : Transport → Transport) (s : EventLoop K T) : EventLoop K T :=
  { s with objs := s.objs.modify tr f }

/-- `call_soon`. -/
def callSoon (handle : Handle K) (s : EventLoop K T) : EventLoop K T :=
  { s with core := s.core.pushTask handle }

/-- `create_future`, with the callbacks that are added at once. -/
def createFuture (callbacks : FutId → List (Handle K)) (s : EventLoop K T) : EventLoop K T :=
  { s with futs := s.futs ++ [⟨.pending, callbacks s.futs.length⟩] }

/-- `set_result`, `set_exception` and `cancel` of a future: a future that is done stays as it is
(the first two raise `InvalidStateError`), otherwise its callbacks are to be pushed. -/
def settle (futs : List (AsyncFuture K)) (fut : FutId) (state : FutState) :
    List (AsyncFuture K) × List (Handle K) :=
  match futs[fut]? with
  | some ⟨.pending, callbacks⟩ => (futs.set fut ⟨state, []⟩, callbacks)
  | _ => (futs, [])

/-- What a completion's outcome does to its future. -/
def settleOutcome (futs : List (AsyncFuture K)) (fut : FutId) (o : Outcome) :
    List (AsyncFuture K) × List (Handle K) :=
  settle futs fut o.futState

def setFuture (fut : FutId) (state : FutState) (s : EventLoop K T) : EventLoop K T :=
  let r := settle s.futs fut state
  r.2.foldl (fun s h => s.callSoon h) { s with futs := r.1 }

def ioLookup (fd : Fd) (kind : IoKind) (s : EventLoop K T) : Option FutId :=
  s.ioFutures.lookup (fd, kind)

def storeIo (fd : Fd) (kind : IoKind) (fut : FutId) (s : EventLoop K T) : EventLoop K T :=
  { s with ioFutures := s.ioFutures.insert (fd, kind) fut }

/-- `_io_futures.pop`. -/
def popIo (fd : Fd) (kind : IoKind) (s : EventLoop K T) : EventLoop K T :=
  { s with ioFutures := s.ioFutures.erase (fd, kind) }

/-- A `submit_*` call. -/
def request (env : Env) (fd : Fd) (req : Request FutId) (s : EventLoop K T) :
    EventLoop K T × Except PyErr Unit :=
  let r := s.core.request env.now env.enter fd req
  -- the tail tells whether an entry was pushed, whatever the answer was
  let issued := if r.1.ring.tail = s.core.ring.tail then [] else [(fd, req)]
  ({ s with core := r.1, issued := s.issued ++ issued }, r.2)

/-! ## The transport -/

/-- `_force_close`; `cause` is what the history gets to know. -/
def forceClose (cause : TransportEvent) (exc : Option Exc) (tr : TransportId) (s : EventLoop K T) :
    EventLoop K T :=
  match s.objs[tr]? with
  | none => s
  | some t =>
      let s := s.note cause
      if t.closed then s
      else
        ((s.modify tr .setClosed).note
          (.lostScheduled tr)).callSoon (.callConnectionLost tr exc)

/-- `_error_received` and `_error_received_exc`. -/
def errorReceived (tr : TransportId) (exc : Exc) (s : EventLoop K T) : EventLoop K T :=
  s.forceClose (.errored tr) (some exc) tr

def abort (tr : TransportId) (s : EventLoop K T) : EventLoop K T :=
  s.forceClose (.abortCalled tr) none tr

/-- `close`, called by the program or because of `cause`: the socket object closes the descriptor,
without one the ring does. -/
def close (cause : TransportEvent) (env : Env) (tr : TransportId) (s : EventLoop K T) : EventLoop K T :=
  match s.objs[tr]? with
  | none => s
  | some t =>
      let s := s.note cause
      if t.closing then s
      else
        let s := s.modify tr .setClosing
        if t.hasSock then s else (s.request env t.fd .close).1

/-- `_rearm_recv`. -/
def rearmRecv (env : Env) (tr : TransportId) (s : EventLoop K T) : EventLoop K T :=
  match s.objs[tr]? with
  | none => s
  | some t =>
      if t.closing || t.paused || t.recvPending then s
      else
        let fut := s.futs.length
        let s := ((s.modify tr (.setRecvPending true)).createFuture
          fun fut => [.onRecvComplete tr fut]).storeIo t.fd .recv fut
        match s.request env t.fd (.recv fut) with
        | (s, .ok ()) => s
        | (s, .error e) =>
            (s.modify tr (.setRecvPending false)).errorReceived tr (.core e)

/-- `_eof_received`, up to the call of the protocol. -/
def eofReceived (tr : TransportId) (handler : Bool) (s : EventLoop K T) : EventLoop K T :=
  s.callProtocol (.eofReceived tr) (.eofReceived tr handler)

/-- `_on_recv_complete`. A cancelled future raises through it. -/
def onRecvComplete (tr : TransportId) (fut : FutId) (s : EventLoop K T) : EventLoop K T :=
  match s.objs[tr]? with
  | none => s
  | some t =>
      let s := s.modify tr (.setRecvPending false)
      if t.closing then s
      else match (s.futs[fut]?).map AsyncFuture.state with
        | some (.exception errno) => s.errorReceived tr (.osError errno)
        | some (.result v) =>
            if v.truthy then s.callProtocol (.dataReceived tr v) (.dataReceived tr)
            else s.eofReceived tr false
        | some .cancelled => s
        | some .pending | none => s.errorReceived tr .invalidState

/-- What `_on_recv_complete` does when `data_received` has returned. -/
def afterData (env : Env) (tr : TransportId) (s : EventLoop K T) : EventLoop K T :=
  match s.objs[tr]? with
  | none => s
  | some t => if t.paused || t.closing then s else s.rearmRecv env tr

/-- `_send_completed`, up to the call of the protocol. -/
def sendCompleted (tr : TransportId) (result : Int) (handler : Bool) (s : EventLoop K T) :
    EventLoop K T :=
  match s.objs[tr]? with
  | none => s
  | some t =>
      if result < 0 then s
      else
        -- `max(0, ...)`: the subtraction stops at zero
        let size := t.writeBufferSize - result.toNat
        let s := s.modify tr (.setWriteBufferSize size)
        if size ≤ t.lowWater then s.callProtocol (.resumeWriting tr) (.resumeWriting tr handler)
        else s

/-- `_on_write_complete`. -/
def onWriteComplete (tr : TransportId) (fut : FutId) (s : EventLoop K T) : EventLoop K T :=
  match s.objs[tr]? with
  | none => s
  | some t =>
      if t.closing then s
      else match (s.futs[fut]?).map AsyncFuture.state with
        | some (.exception errno) => s.errorReceived tr (.osError errno)
        | some (.result (.data (.int n))) => s.sendCompleted tr n false
        -- bytes and `None` have no order with `0`
        | some (.result _) => s.errorReceived tr .typeError
        | some .cancelled => s
        | some .pending | none => s.errorReceived tr .invalidState

/-- `write`. A `PanicException` of the core is no `Exception`: it reaches the caller. -/
def write (env : Env) (tr : TransportId) (data : Bytes) (s : EventLoop K T) : EventLoop K T :=
  match s.objs[tr]? with
  | none => s
  | some t =>
      if t.closing || data.isEmpty then s
      else
        let fut := s.futs.length
        match (s.createFuture fun fut => [.onWriteComplete tr fut]).request env t.fd
            (.send data fut) with
        | (s, .error (.panic _)) => s
        | (s, .error e) => s.errorReceived tr (.core e)
        | (s, .ok ()) =>
            let size := t.writeBufferSize + data.length
            let s := s.modify tr (.setWriteBufferSize size)
            if t.highWater ≤ size then s.callProtocol (.pauseWriting tr) (.pauseWriting tr) else s

def pauseReading (tr : TransportId) (s : EventLoop K T) : EventLoop K T :=
  match s.objs[tr]? with
  | none => s
  | some t =>
      if t.closing || t.paused then s
      else
        let s := s.modify tr (.setPaused true)
        { s with core := (s.core.pauseReading t.fd).1 }

/-- `resume_reading`. The core's refusal reaches the caller before the receive is armed. -/
def resumeReading (env : Env) (tr : TransportId) (s : EventLoop K T) : EventLoop K T :=
  match s.objs[tr]? with
  | none => s
  | some t =>
      if t.closing then s
      else if t.paused then
        let s := s.modify tr (.setPaused false)
        match s.core.resumeReading t.fd with
        | (core, .ok ()) => rearmRecv env tr { s with core }
        -- the transport is not paused any more, and nothing is armed
        | (core, .error _) => { s with core }
      else s.rearmRecv env tr

def setWriteBufferLimits (tr : TransportId) (high low : Option Nat) (s : EventLoop K T) :
    EventLoop K T :=
  s.modify tr (.setLimits high low)

/-- `_call_connection_lost`. -/
def callConnectionLost (tr : TransportId) (exc : Option Exc) (s : EventLoop K T) : EventLoop K T :=
  s.callProtocol (.connectionLost tr exc) (.connectionLost tr)

/-! ## What the basic operations do -/

theorem setFuture_eq (fut : FutId) (state : FutState) (s : EventLoop K T) :
    s.setFuture fut state = { s with
      futs := (settle s.futs fut state).1
      core := { s.core with
        scheduler := s.core.scheduler ++ (settle s.futs fut state).2 } } := by
  have hpush (handles : List (Handle K)) (s : EventLoop K T) :
      handles.foldl (fun s h => s.callSoon h) s =
        { s with core := { s.core with scheduler := s.core.scheduler ++ handles } } := by
    induction handles generalizing s with
    | nil => simp
    | cons h handles ih =>
      rw [List.foldl_cons, ih]
      simp [callSoon, UringCore.pushTask, Scheduler.push]
  exact hpush _ _

/-- What `_force_close` does to an open transport. -/
theorem forceClose_open {cause : TransportEvent} {exc : Option Exc} {tr : TransportId} {s : EventLoop K T}
    {t : Transport} (ht : s.objs[tr]? = some t) (hopen : t.closed = false) :
    s.forceClose cause exc tr = { s with
      log := s.log ++ [cause, .lostScheduled tr]
      objs := s.objs.modify tr .setClosed
      core := { s.core with
        scheduler := s.core.scheduler ++ [.callConnectionLost tr exc] } } := by
  simp [forceClose, ht, hopen, note, modify, callSoon, UringCore.pushTask, Scheduler.push]

theorem forceClose_closed {cause : TransportEvent} {exc : Option Exc} {tr : TransportId} {s : EventLoop K T}
    {t : Transport} (ht : s.objs[tr]? = some t) (hclosed : t.closed = true) :
    s.forceClose cause exc tr = s.note cause := by
  simp [forceClose, ht, hclosed]

theorem forceClose_none {cause : TransportEvent} {exc : Option Exc} {tr : TransportId} {s : EventLoop K T}
    (ht : s.objs[tr]? = none) : s.forceClose cause exc tr = s := by
  simp [forceClose, ht]

/-- From `s` to `t` only transports, the history, the stack and the ready queue have changed. -/
def SameTables (s t : EventLoop K T) : Prop :=
  ∃ objs log stack scheduler, t = { s with objs, log, stack, core := { s.core with scheduler } }

namespace SameTables

variable {s t u : EventLoop K T}

theorem refl (s : EventLoop K T) : SameTables s s := ⟨_, _, _, _, rfl⟩

theorem trans (h : SameTables s t) (h' : SameTables t u) : SameTables s u := by
  obtain ⟨objs, log, stack, scheduler, rfl⟩ := h
  obtain ⟨objs', log', stack', scheduler', rfl⟩ := h'
  exact ⟨_, _, _, _, rfl⟩

theorem modify (tr : TransportId) (f : Transport → Transport) (s : EventLoop K T) :
    SameTables s (s.modify tr f) := ⟨_, _, _, _, rfl⟩

theorem callProtocol (e : TransportEvent) (frame : Frame) (s : EventLoop K T) :
    SameTables s (s.callProtocol e frame) := ⟨_, _, _, _, rfl⟩

theorem forceClose (cause : TransportEvent) (exc : Option Exc) (tr : TransportId) (s : EventLoop K T) :
    SameTables s (s.forceClose cause exc tr) := by
  unfold EventLoop.forceClose
  split
  · exact .refl s
  · split <;> exact ⟨_, _, _, _, rfl⟩

theorem errorReceived (tr : TransportId) (exc : Exc) (s : EventLoop K T) :
    SameTables s (s.errorReceived tr exc) := .forceClose ..

theorem sendCompleted (tr : TransportId) (result : Int) (handler : Bool) (s : EventLoop K T) :
    SameTables s (s.sendCompleted tr result handler) := by
  unfold EventLoop.sendCompleted
  split
  · exact .refl s
  · split
    · exact .refl s
    · dsimp only
      split <;> exact ⟨_, _, _, _, rfl⟩

theorem onRecvComplete (tr : TransportId) (fut : FutId) (s : EventLoop K T) :
    SameTables s (s.onRecvComplete tr fut) := by
  unfold EventLoop.onRecvComplete
  split
  · exact .refl s
  · have hpending := SameTables.modify tr (.setRecvPending false) s
    dsimp only
    split
    · exact hpending
    · split
      · exact hpending.trans (.errorReceived ..)
      · split <;> exact hpending.trans (.callProtocol ..)
      · exact hpending
      · exact hpending.trans (.errorReceived ..)
      · exact hpending.trans (.errorReceived ..)

theorem onWriteComplete (tr : TransportId) (fut : FutId) (s : EventLoop K T) :
    SameTables s (s.onWriteComplete tr fut) := by
  unfold EventLoop.onWriteComplete
  split
  · exact .refl s
  · split
    · exact .refl s
    · split
      · exact .errorReceived ..
      · exact .sendCompleted ..
      · exact .errorReceived ..
      · exact .refl s
      · exact .errorReceived ..
      · exact .errorReceived ..

end SameTables

end EventLoop

end Uringcore
