import Uringcore.EventLoop.Transport
import Uringcore.Lib.Machine

/-!
# The event loop

One machine for the loop, the transports, the program that uses them and the kernel. A tick is many
steps: `startTick` is `run_tick` up to the first handle, then the batch is executed handle by handle,
then `_process_completions` hands the completions one by one to their handlers. Wherever Python code
that is not the loop's own runs (a callback, a method of a protocol, the program before the loop is
started) it may make any `Call`, and its return is a step too; the kernel moves at any moment.

Timers are left out: a timer's handle is one of the program's, and the program may push a handle at
any time.
-/

namespace Uringcore

/-- What `except Exception` lets pass. -/
inductive Escape where
  /-- The `PanicException` of a panic in the core, such as that of `submit_send` for more than a
  buffer. -/
  | panic
  | systemExit
  /-- `CancelledError`, `KeyboardInterrupt`, any other `BaseException`. -/
  | other
  deriving DecidableEq, Repr

/-- How a call of the protocol ends. -/
inductive Return where
  | value (truthy : Bool)
  /-- The protocol raises an `Exception`; where `call_exception_handler` is told, that may raise one
  too. -/
  | raised (handlerRaises : Bool)
  /-- An `eof_received` that does not keep the transport open; `close` raises then, and `exc` is what
  leaves `_eof_received`: that, or what the exception handler raises that is told. -/
  | closeRaised (exc : Exc)
  /-- The same, but the exception handler raises what is no `Exception`. -/
  | closeEscaped (e : Escape)
  /-- The protocol raises what is no `Exception`, or `call_exception_handler` does. -/
  | escaped (e : Escape)
  deriving DecidableEq, Repr

def Return.escape? : Return → Option Escape
  | escaped e | closeEscaped e => some e
  | value _ | raised _ | closeRaised _ => none

/-- The code a call returns to. -/
inductive Caller where
  /-- The program, which may do what it likes with an exception. -/
  | program
  /-- A handle that `run_tick` executes. -/
  | handle
  /-- A handler that `_process_completions` calls. -/
  | handler
  deriving DecidableEq, Repr

def Frame.caller : Frame → Caller
  | pauseWriting _ | connectionMade _ .connection | connectionMade _ .unixConnection => .program
  | user | dataReceived _ | connectionLost _ => .handle
  | eofReceived _ handler | resumeWriting _ handler => if handler then .handler else .handle
  | protocolFactory .. | connectionMade _ (.accepted ..) | rearmAccept _ => .handler

/-- `run_tick` unwinds: a `PanicException` that a handle raises is a panic again, it is not printed. -/
def Frame.unwinds (frame : Frame) (r : Return) : Bool :=
  frame.caller = .handle && r.escape? = some .panic

/-- The process ends: `run_tick` prints what a handle raises, and printing `SystemExit` exits. -/
def Frame.exits (frame : Frame) (r : Return) : Bool :=
  frame.caller = .handle && r.escape? = some .systemExit

/-- What the program may do. `k` is the callback that wakes the task which awaits the future. -/
inductive Call (K : Type) where
  | write (tr : TransportId) (data : Bytes)
  | close (tr : TransportId)
  | abort (tr : TransportId)
  | pauseReading (tr : TransportId)
  | resumeReading (tr : TransportId)
  | setWriteBufferLimits (tr : TransportId) (high low : Option Nat)
  /-- `create_connection` with a connected socket, from the creation of the transport on. -/
  | createConnection (fd : Fd)
  | createUnixConnection (fd : Fd)
  /-- `UringSocketTransport(loop, fd, protocol)`: without a socket object, and in no table. -/
  | newTransport (fd : Fd)
  /-- One socket of `create_server`, or the socket of `create_unix_server`. -/
  | createServer (unix startServing : Bool) (fd : Fd)
  | closeServer (fd : Fd)
  | sockRecv (fd : Fd) (k : K)
  | sockSendall (fd : Fd) (data : Bytes) (k : K)
  | sockAccept (fd : Fd) (k : K)
  | sockRecvfrom (fd : Fd) (k : K)
  /-- `sock_sendto` when the direct attempt would block. -/
  | sockSendto (fd : Fd) (data : Bytes) (addr : AddrArg) (k : K)
  /-- `sock_sendto` when awaiting the future has raised. -/
  | sendtoFailed (fd : Fd)
  /-- `submit_recv_multishot` with a future of the program. -/
  | recvMultishot (fd : Fd) (k : K)
  /-- The program closes a socket of its own. -/
  | closeSock (fd : Fd)
  | cancel (fut : FutId)

namespace EventLoop
variable {K T : Type}

/-! ## The handlers of completions -/

/-- `data`, if it is truthy. -/
def truthyData (data : Option PyData) : Option PyData := data.filter fun d => (Value.data d).truthy

def resolveIo (fd : Fd) (kind : IoKind) (state : FutState) (s : EventLoop K T) : EventLoop K T :=
  match s.ioLookup fd kind with
  | some fut => (s.popIo fd kind).setFuture fut state
  | none => s.popIo fd kind

/-- `_handle_recv_completion`. Data without a future is dropped. -/
def handleRecvCompletion (fd : Fd) (result : Int) (data : Option PyData) (s : EventLoop K T) :
    EventLoop K T :=
  let fut := s.ioLookup fd .recv
  let transport := s.transports.lookup fd
  let s := s.popIo fd .recv
  match if 0 < result then truthyData data else none with
  | some d => match fut with
    | some fut => s.setFuture fut (.result (.data d))
    | none => s
  | none => match fut with
    | some fut => s.setFuture fut
        (if result = 0 then .result (.data (.bytes [])) else .exception (-result))
    | none => match transport with
      | some tr =>
          if result = 0 then s.eofReceived tr true else s.errorReceived tr (.osError result)
      | none => s

def handleRecvmsgCompletion (fd : Fd) (result : Int) (data : Option PyData) (s : EventLoop K T) :
    EventLoop K T :=
  s.resolveIo fd .recvmsg <|
    if 0 ≤ result then match truthyData data with
      | some d => .result (.data d)
      | none => .result .emptyMsg
    else .exception (-result)

/-- What a completion without data resolves its future with. -/
def plainState (result : Int) : FutState :=
  if 0 ≤ result then .result (.data (.int result)) else .exception (-result)

def handleSendmsgCompletion (fd : Fd) (result : Int) (s : EventLoop K T) : EventLoop K T :=
  s.resolveIo fd .sendmsg (plainState result)

def handleSendCompletion (fd : Fd) (result : Int) (s : EventLoop K T) : EventLoop K T :=
  let s := s.resolveIo fd .send (plainState result)
  match s.transports.lookup fd with
  | some tr => s.sendCompleted tr result true
  | none => s

/-- The accepted descriptor of a completion. -/
def clientFd (result : Int) : Fd := Int32.ofInt result

/-- Call the factory of the server that listens on `fd`. -/
def callFactory (fd client : Fd) (multi : Bool) (s : EventLoop K T) : EventLoop K T :=
  { s with stack := .protocolFactory fd client multi :: s.stack }

def handleAcceptCompletion (fd : Fd) (result : Int) (s : EventLoop K T) : EventLoop K T :=
  let s := s.resolveIo fd .accept (plainState result)
  if 0 ≤ result && s.servers.contains fd then s.callFactory fd (clientFd result) false else s

def handleAcceptMultiCompletion (fd : Fd) (result : Int) (s : EventLoop K T) : EventLoop K T :=
  if 0 ≤ result && s.servers.contains fd then s.callFactory fd (clientFd result) true else s

def handleCloseCompletion (fd : Fd) (s : EventLoop K T) : EventLoop K T :=
  { s with transports := s.transports.erase fd, core := s.core.unregisterFd fd }

/-- `_completion_handlers`; a completion of any other kind has no handler. -/
def handle (r : ResultTuple) (s : EventLoop K T) : EventLoop K T :=
  match r.opType with
  | "recv" => s.handleRecvCompletion r.fd r.result r.data
  | "recv_multi" => s.handleRecvCompletion r.fd r.result r.data
  | "send" => s.handleSendCompletion r.fd r.result
  | "accept" => s.handleAcceptCompletion r.fd r.result
  | "accept_multi" => s.handleAcceptMultiCompletion r.fd r.result
  | "recvmsg" => s.handleRecvmsgCompletion r.fd r.result r.data
  | "sendmsg" => s.handleSendmsgCompletion r.fd r.result
  | "close" => s.handleCloseCompletion r.fd
  | _ => s

/-! ## The creation of transports -/

def registerFd (fd : Fd) (socketType : String) (s : EventLoop K T) : EventLoop K T :=
  { s with core := s.core.registerFd fd socketType }

/-- `self._transports[fd] = UringSocketTransport(self, fd, protocol, sock=sock)`, then
`connection_made`. -/
def makeConnection (fd : Fd) (creator : Creator) (s : EventLoop K T) : EventLoop K T :=
  let tr := s.objs.length
  { s with
    objs := s.objs ++ [Transport.new fd true]
    transports := s.transports.insert fd tr }
    |>.callProtocol (.created tr) (.connectionMade tr creator)

/-- The handler of an accept arms the next one, whatever became of the connection. -/
def afterAccept (listener : Fd) (multi : Bool) (s : EventLoop K T) : EventLoop K T :=
  if multi then s else { s with stack := .rearmAccept listener :: s.stack }

/-- What follows `connection_made`, when it has returned or raised an `Exception`. -/
def afterMade (env : Env) (tr : TransportId) (creator : Creator) (r : Return) (s : EventLoop K T) :
    EventLoop K T :=
  match creator, r with
  | .connection, .value _ => s.rearmRecv env tr
  | .unixConnection, .value _ => s.resumeReading env tr
  | .connection, _ | .unixConnection, _ => s
  | .accepted listener multi, .value _ => match s.objs[tr]? with
    | some t => ((s.registerFd t.fd "tcp").rearmRecv env tr).afterAccept listener multi
    | none => s
  -- `os.close(client_fd)`
  | .accepted listener multi, _ => s.afterAccept listener multi

/-- An `Exception` leaves `_eof_received`. `_on_recv_complete` catches it, the handler does not. -/
def leaveEof (exc : Exc) (tr : TransportId) (handler : Bool) (s : EventLoop K T) : EventLoop K T :=
  if handler then { s with results := [] } else s.errorReceived tr exc

/-- What is no `Exception` leaves the method that has called. A handle's is printed, but an unwinding
`run_tick` loses what is left of its batch and the list of completions it was to return; a handler's
leaves `_process_completions`. -/
def escape (frame : Frame) (e : Escape) (s : EventLoop K T) : EventLoop K T :=
  match frame.caller, e with
  | .handle, .panic => { s with batch := [], results := [] }
  | .program, _ | .handle, _ => s
  | .handler, _ => { s with results := [] }

/-- A call has returned into its frame. -/
def resume (env : Env) (frame : Frame) (r : Return) (s : EventLoop K T) : EventLoop K T :=
  match frame, r with
  | .eofReceived tr handler, .closeEscaped e =>
      (s.close (.eofNotKept tr) env tr).escape (.eofReceived tr handler) e
  | frame, .escaped e | frame, .closeEscaped e => s.escape frame e
  | .user, _ | .resumeWriting .., _ | .connectionLost _, _ | .rearmAccept _, _ => s
  | .dataReceived tr, .raised true => s.errorReceived tr .program
  | .dataReceived tr, _ => s.afterData env tr
  | .eofReceived _ _, .value true => s
  -- the exception handler has raised before `close` is reached
  | .eofReceived tr handler, .raised true => s.leaveEof .program tr handler
  | .eofReceived tr handler, .closeRaised exc =>
      (s.close (.eofNotKept tr) env tr).leaveEof exc tr handler
  | .eofReceived tr _, .value false | .eofReceived tr _, .raised false =>
      s.close (.eofNotKept tr) env tr
  | .pauseWriting _, .value _ => s
  | .pauseWriting tr, _ => s.errorReceived tr .program
  | .protocolFactory listener client multi, .value _ =>
      s.makeConnection client (.accepted listener multi)
  | .protocolFactory listener _ multi, _ => s.afterAccept listener multi
  | .connectionMade tr creator, r => s.afterMade env tr creator r

/-- `close` raises: the core refuses to close the descriptor. -/
def refusesClose (env : Env) (tr : TransportId) (s : EventLoop K T) : Bool :=
  match s.objs[tr]? with
  | some t => !t.closing && !t.hasSock && !(s.request env t.fd .close).2.isOk
  | none => false

/-- `close` may raise: the core does, or there is a socket object to close. -/
def mayRefuseClose (env : Env) (tr : TransportId) (s : EventLoop K T) : Bool :=
  match s.objs[tr]? with
  | some t => !t.closing && t.hasSock || s.refusesClose env tr
  | none => false

/-- The call can return so, and the process goes on. When the exception handler has returned, what a
refused `close` raises is caught no more. -/
def mayReturn (env : Env) (frame : Frame) (r : Return) (s : EventLoop K T) : Bool :=
  match frame, r with
  | .eofReceived tr _, .closeRaised _ => s.mayRefuseClose env tr
  | .eofReceived tr handler, .closeEscaped e =>
      s.mayRefuseClose env tr && !(Frame.eofReceived tr handler).exits (.closeEscaped e)
  | _, .closeRaised _ | _, .closeEscaped _ => false
  | .eofReceived tr _, .raised false => !s.refusesClose env tr
  | frame, r => !frame.exits r

/-- The end of `_handle_accept_completion`. When the core refuses, the exception leaves
`_process_completions`. -/
def rearmAccept (env : Env) (listener : Fd) (s : EventLoop K T) : EventLoop K T :=
  let fut := s.futs.length
  match ((s.createFuture fun _ => []).storeIo listener .accept fut).request env listener
      (.accept fut) with
  | (s, .ok ()) => s
  | (s, .error _) => { s with results := [] }

/-! ## Calls of the program -/

/-- The `sock_*` methods up to the `await`. -/
def sockOp (env : Env) (socketType : Option String) (kind : IoKind) (k : K)
    (req : FutId → Request FutId) (fd : Fd) (s : EventLoop K T) :
    EventLoop K T × Except PyErr Unit :=
  let fut := s.futs.length
  let s := match socketType with
    | some socketType => s.registerFd fd socketType
    | none => s
  ((s.createFuture fun _ => [.user k]).storeIo fd kind fut).request env fd (req fut)

def sockRecv (env : Env) (k : K) (fd : Fd) (s : EventLoop K T) :=
  s.sockOp env (some "tcp") .recv k .recv fd

def sockSendall (env : Env) (data : Bytes) (k : K) (fd : Fd) (s : EventLoop K T) : EventLoop K T :=
  if data.isEmpty then s else (s.sockOp env (some "tcp") .send k (.send data) fd).1

def sockAccept (env : Env) (k : K) (fd : Fd) (s : EventLoop K T) :=
  s.sockOp env (some "tcp_listener") .accept k .accept fd

def sockRecvfrom (env : Env) (k : K) (fd : Fd) (s : EventLoop K T) :=
  s.sockOp env (some "udp") .recvmsg k .recvfrom fd

/-- `sock_sendto`: an error of the core takes the future out of `_io_futures` again. -/
def sockSendto (env : Env) (data : Bytes) (addr : AddrArg) (k : K) (fd : Fd) (s : EventLoop K T) :
    EventLoop K T :=
  match s.sockOp env none .sendmsg k (.sendto data addr) fd with
  | (s, .ok ()) => s
  | (s, .error _) => s.popIo fd .sendmsg

/-- A listening socket of `create_server`. The future of a Unix server is stored nowhere. -/
def createServer (env : Env) (unix startServing : Bool) (fd : Fd) (s : EventLoop K T) :
    EventLoop K T :=
  let fut := s.futs.length
  let s := s.registerFd fd (if unix then "unix_listener" else "tcp_listener")
  let s := { s with servers := s.servers.insert fd }
  if startServing then
    let s := s.createFuture fun _ => []
    ((if unix then s else s.storeIo fd .accept fut).request env fd (.accept fut)).1
  else s

/-- `UringServer.close`, for one socket. -/
def closeServer (fd : Fd) (s : EventLoop K T) : EventLoop K T :=
  { s with servers := s.servers.erase fd, core := s.core.unregisterFd fd }

/-- The program can only cancel a future that it awaits. -/
def cancel (fut : FutId) (s : EventLoop K T) : EventLoop K T :=
  match s.futs[fut]? with
  | some f => if f.callbacks.any Handle.isUser then s.setFuture fut .cancelled else s
  | none => s

def call (env : Env) (s : EventLoop K T) : Call K → EventLoop K T
  | .write tr data => s.write env tr data
  | .close tr => s.close (.closeCalled tr) env tr
  | .abort tr => s.abort tr
  | .pauseReading tr => s.pauseReading tr
  | .resumeReading tr => s.resumeReading env tr
  | .setWriteBufferLimits tr high low => s.setWriteBufferLimits tr high low
  | .createConnection fd => (s.registerFd fd "tcp").makeConnection fd .connection
  | .createUnixConnection fd => (s.registerFd fd "unix").makeConnection fd .unixConnection
  | .newTransport fd => { s with objs := s.objs ++ [Transport.new fd false] }
  | .createServer unix startServing fd => s.createServer env unix startServing fd
  | .closeServer fd => s.closeServer fd
  | .sockRecv fd k => (s.sockRecv env k fd).1
  | .sockSendall fd data k => s.sockSendall env data k fd
  | .sockAccept fd k => (s.sockAccept env k fd).1
  | .sockRecvfrom fd k => (s.sockRecvfrom env k fd).1
  | .sockSendto fd data addr k => s.sockSendto env data addr k fd
  | .sendtoFailed fd => s.popIo fd .sendmsg
  | .recvMultishot fd k =>
      ((s.createFuture fun _ => [.user k]).request env fd (.recvMultishot s.futs.length)).1
  | .closeSock _ => s
  | .cancel fut => s.cancel fut

/-! ## The machine -/

inductive Act (K T : Type) where
  /-- The kernel's polling thread takes `n` entries. -/
  | consume (n : Nat)
  | complete (i : Nat) (payload : Payload) (select more : Bool)
  /-- Any thread pushes a handle, an expired timer among them. -/
  | callSoon (k : K)
  /-- `run_tick` up to the execution of the batch. -/
  | startTick (clock : T) (enter : Except String Nat)
  | runHandle
  | handleCompletion
  | ret (r : Return) (env : Env)
  | rearmAccept (env : Env)
  | call (c : Call K) (env : Env)

/-- Nothing of the loop is under way. -/
def idle (s : EventLoop K T) : Bool := s.stack.isEmpty && s.batch.isEmpty && s.results.isEmpty

/-- Code that is not the loop's own is running. -/
def programRuns (s : EventLoop K T) : Bool :=
  match s.stack with
  | .rearmAccept _ :: _ => false
  | _ :: _ => true
  | [] => s.idle

/-- The next handle of the batch. -/
def execute (h : Handle K) (s : EventLoop K T) : EventLoop K T :=
  match h with
  | .onRecvComplete tr fut => s.onRecvComplete tr fut
  | .onWriteComplete tr fut => s.onWriteComplete tr fut
  | .callConnectionLost tr exc => s.callConnectionLost tr exc
  | .user _ => { s with stack := .user :: s.stack }

/-- A handle of the batch writes to no table. -/
theorem SameTables.execute (h : Handle K) (s : EventLoop K T) : SameTables s (execute h s) := by
  cases h with
  | onRecvComplete tr fut => exact .onRecvComplete tr fut s
  | onWriteComplete tr fut => exact .onWriteComplete tr fut s
  | callConnectionLost tr exc => exact .callProtocol _ _ s
  | user k => exact ⟨_, _, _, _, rfl⟩

section
variable [LE T] [DecidableLE T]

/-- `run_tick` up to the execution of the batch. When the ring is not flushed the exception leaves
`_run_once`. -/
def startTick (clock : T) (enter : Except String Nat) (s : EventLoop K T) : EventLoop K T :=
  match s.core.runTick settleOutcome clock enter s.futs with
  | (core, futs, .error _) => { s with core, futs }
  | (core, futs, .ok out) => { s with
      core, futs
      batch := out.batch
      results := out.results
      drained := s.drained ++ s.core.ring.cq }

def step (s : EventLoop K T) : Act K T → Option (EventLoop K T)
  | .consume n => some { s with core := { s.core with ring := s.core.ring.take n } }
  | .complete i payload select more =>
      (s.core.complete i payload select more).map fun core => { s with core }
  | .callSoon k => some (s.callSoon (.user k))
  | .startTick clock enter => if s.idle then some (s.startTick clock enter) else none
  | .runHandle => match s.stack, s.batch with
      | [], h :: rest => some (execute h { s with batch := rest })
      | _, _ => none
  | .handleCompletion => match s.stack, s.batch, s.results with
      | [], [], r :: rest => some (handle r { s with results := rest })
      | _, _, _ => none
  | .ret r env => match s.stack with
      | .rearmAccept _ :: _ | [] => none
      | frame :: rest =>
          if s.mayReturn env frame r then some (resume env frame r { s with stack := rest }) else none
  | .rearmAccept env => match s.stack with
      | .rearmAccept listener :: rest => some (rearmAccept env listener { s with stack := rest })
      | _ => none
  | .call c env => if s.programRuns then some (s.call env c) else none

def machine : Machine (EventLoop K T) (Act K T) := ⟨step⟩

/-! ## What a step has found -/

variable {s t : EventLoop K T}

theorem step_startTick {clock : T} {enter : Except String Nat} :
    s.step (.startTick clock enter) = some t ↔ s.idle = true ∧ s.startTick clock enter = t := by
  simp [step]

theorem step_call {c : Call K} {env : Env} :
    s.step (.call c env) = some t ↔ s.programRuns = true ∧ s.call env c = t := by
  simp [step]

theorem step_runHandle : s.step .runHandle = some t ↔
    ∃ h rest, s.stack = [] ∧ s.batch = h :: rest ∧ execute h { s with batch := rest } = t := by
  constructor
  · intro hstep
    simp only [step] at hstep
    split at hstep
    · rename_i h rest hstack hbatch
      exact ⟨h, rest, hstack, hbatch, Option.some_inj.mp hstep⟩
    · cases hstep
  · rintro ⟨h, rest, hstack, hbatch, rfl⟩
    simp [step, hstack, hbatch]

theorem step_handle : s.step .handleCompletion = some t ↔ ∃ r rest, s.stack = [] ∧ s.batch = [] ∧
    s.results = r :: rest ∧ handle r { s with results := rest } = t := by
  constructor
  · intro hstep
    simp only [step] at hstep
    split at hstep
    · rename_i r rest hstack hbatch hresults
      exact ⟨r, rest, hstack, hbatch, hresults, Option.some_inj.mp hstep⟩
    · cases hstep
  · rintro ⟨r, rest, hstack, hbatch, hresults, rfl⟩
    simp [step, hstack, hbatch, hresults]

end

end EventLoop

end Uringcore
