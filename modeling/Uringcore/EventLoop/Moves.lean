import Mathlib.Logic.Relation
import Uringcore.Core.Routing
import Uringcore.EventLoop.System
import Uringcore.Lib.History

/-!
# What a step of the loop can do

A step of the event loop runs a stretch of Python code, and such a stretch is a sequence of a few
kinds of *moves*: a future is created, a table gets an entry, a request is made of the core, a
transport is marked closed, the protocol is called. `Move` lists them, each with what the code has
checked when it makes it, and `step_moves` says that every step is made of moves. Results about runs
of the loop reason over the moves and do not open the methods again.

The moves are indexed by the step they belong to: its first state `s₀` and its label `a`.
-/

namespace Uringcore

namespace TransportEvent

/-- `abort` was called, or an error was reported to the transport. -/
def isForced (tr : TransportId) : TransportEvent → Bool
  | errored tr' | abortCalled tr' => tr' = tr
  | _ => false

/-- `close` was called, by the program or because the protocol does not stay open after EOF. -/
def isClose (tr : TransportId) : TransportEvent → Bool
  | closeCalled tr' | eofNotKept tr' => tr' = tr
  | _ => false

theorem isForced_iff {tr : TransportId} {e : TransportEvent} :
    e.isForced tr = true ↔ e = .errored tr ∨ e = .abortCalled tr := by
  cases e <;> simp [isForced]

theorem isClose_iff {tr : TransportId} {e : TransportEvent} :
    e.isClose tr = true ↔ e = .closeCalled tr ∨ e = .eofNotKept tr := by
  cases e <;> simp [isClose]

/-- The transport has ended. -/
def isEnd (tr : TransportId) (e : TransportEvent) : Bool := e.isForced tr || e.isClose tr

/-- `connection_lost` has been called. -/
def isLost (tr : TransportId) : TransportEvent → Bool
  | connectionLost tr' _ => tr' = tr
  | _ => false

/-- `data_received` or `eof_received` has been called. -/
def isReading (tr : TransportId) : TransportEvent → Bool
  | dataReceived tr' _ | eofReceived tr' => tr' = tr
  | _ => false

end TransportEvent

namespace EventLoop
variable {K T : Type}

/-- The transport whose `eof_received` the handler of the next completion calls itself: the
completion is an EOF for which no future is stored. -/
def eofFallback (s : EventLoop K T) : Act K T → Option TransportId
  | .handleCompletion => match s.results with
      | r :: _ =>
          if (r.opType = "recv" ∨ r.opType = "recv_multi") ∧ r.result = 0 ∧
              s.ioLookup r.fd .recv = none then s.transports.lookup r.fd
          else none
      | [] => none
  | _ => none

/-- The step hands the completion `r` to its handler. -/
def Handles (s : EventLoop K T) (a : Act K T) (r : ResultTuple) : Prop :=
  a = .handleCompletion ∧ ∃ rest, s.results = r :: rest

/-- The step runs the handle `h`. -/
def Runs (s : EventLoop K T) (a : Act K T) (h : Handle K) : Prop :=
  a = .runHandle ∧ ∃ rest, s.batch = h :: rest

/-- The step unwinds `run_tick`. -/
def Unwinds (s : EventLoop K T) : Act K T → Prop
  | .ret r _ => ∃ frame ∈ s.stack.head?, frame.unwinds r = true
  | _ => False

instance (s : EventLoop K T) : ∀ a, Decidable (s.Unwinds a)
  | .ret .. => inferInstanceAs (Decidable (∃ frame ∈ s.stack.head?, _))
  | .consume _ | .complete .. | .callSoon _ | .startTick .. | .runHandle | .handleCompletion
  | .rearmAccept _ | .call .. => .isFalse id

/-- `f` writes neither what the transport is nor how far its reading and its end are. -/
structure KeepsEnd (f : Transport → Transport) : Prop where
  fd : ∀ t, (f t).fd = t.fd
  hasSock : ∀ t, (f t).hasSock = t.hasSock
  closing : ∀ t, (f t).closing = t.closing
  closed : ∀ t, (f t).closed = t.closed
  recvPending : ∀ t, (f t).recvPending = t.recvPending

namespace KeepsEnd

theorem paused (b : Bool) : KeepsEnd (.setPaused b) :=
  ⟨fun _ => rfl, fun _ => rfl, fun _ => rfl, fun _ => rfl, fun _ => rfl⟩

theorem writeBufferSize (n : Nat) : KeepsEnd (.setWriteBufferSize n) :=
  ⟨fun _ => rfl, fun _ => rfl, fun _ => rfl, fun _ => rfl, fun _ => rfl⟩

theorem limits (high low : Option Nat) : KeepsEnd (.setLimits high low) :=
  ⟨fun _ => rfl, fun _ => rfl, fun _ => rfl, fun _ => rfl, fun _ => rfl⟩

end KeepsEnd

end EventLoop

/-- The place in `_io_futures` of the future of a request. -/
def Request.ioKind {F : Type} : Request F → Option IoKind
  | recv _ => some .recv
  | recvfrom _ => some .recvmsg
  | send .. => some .send
  | sendto .. => some .sendmsg
  | accept _ => some .accept
  | recvMultishot _ | acceptMultishot | close => none

/-- What the handler of a completion does to the future that is stored for it. -/
def ResultTuple.settles (r : ResultTuple) : Option (IoKind × FutState) :=
  match r.opType with
  | "recv" | "recv_multi" => some (.recv,
      match if 0 < r.result then EventLoop.truthyData r.data else none with
      | some d => .result (.data d)
      | none => if r.result = 0 then .result (.data (.bytes [])) else .exception (-r.result))
  | "send" => some (.send, EventLoop.plainState r.result)
  | "accept" => some (.accept, EventLoop.plainState r.result)
  | "recvmsg" => some (.recvmsg,
      if 0 ≤ r.result then match EventLoop.truthyData r.data with
        | some d => .result (.data d)
        | none => .result .emptyMsg
      else .exception (-r.result))
  | "sendmsg" => some (.sendmsg, EventLoop.plainState r.result)
  | _ => none

namespace EventLoop
variable {K T : Type}

/-- `create_future`, its place in `_io_futures` if it gets one, and the `submit_*` call. -/
def submitNew (env : Env) (fd : Fd) (kind? : Option IoKind) (callbacks : FutId → List (Handle K))
    (req : FutId → Request FutId) (s : EventLoop K T) : EventLoop K T × Except PyErr Unit :=
  let fut := s.futs.length
  let s := s.createFuture callbacks
  let s := match kind? with
    | some kind => s.storeIo fd kind fut
    | none => s
  s.request env fd (req fut)

/-- `run_tick` processes one completion: its future's callbacks go to the ready queue. -/
def drainOne (c : Cqe) (cs : List Cqe) (s : EventLoop K T) : EventLoop K T :=
  let r := s.core.process c.entry
  let t := { s with
    core := s.core.processNext c cs
    results := s.results ++ [r.2.1.tuple]
    drained := s.drained ++ [c] }
  match r.2.2 with
  | some fut => t.setFuture fut r.2.1.outcome.futState
  | none => t

/-- The future is not done. -/
def Waits (s : EventLoop K T) (fut : FutId) : Prop :=
  (s.futs[fut]?).map AsyncFuture.state = some .pending

instance (s : EventLoop K T) (fut : FutId) : Decidable (s.Waits fut) :=
  inferInstanceAs (Decidable (_ = _))

/-- A tick that began in `s₀` has come to `s` and processed `pre`. -/
structure Midway (s₀ : EventLoop K T) (pre : List Cqe) (s : EventLoop K T) : Prop where
  cq : s₀.core.ring.cq = pre ++ s.core.ring.cq
  inFlight : s.core.ring.inFlight = s₀.core.ring.inFlight
  futures : ∀ fd, s.core.futures.lookup fd =
    if fd ∈ pre.map (·.sqe.fd) then none else s₀.core.futures.lookup fd
  tracked : ∀ fd, (∀ c ∈ pre, c.sqe.op.isRecv → c.sqe.fd ≠ fd) →
    s.core.inflightRecvBuffers.lookup fd = s₀.core.inflightRecvBuffers.lookup fd
  bufferPool : s.core.bufferPool.memory = s₀.core.bufferPool.memory ∧
    s.core.bufferPool.bufferSize = s₀.core.bufferPool.bufferSize
  /-- A future that no completion has found is as it was. -/
  futs : ∀ fut, (∀ c ∈ pre, s₀.core.futures.lookup c.sqe.fd ≠ some fut) →
    s.futs[fut]? = s₀.futs[fut]?
  waits : ∀ fut, s.Waits fut → s₀.Waits fut
  issued : s.issued = s₀.issued
  ioFutures : s.ioFutures = s₀.ioFutures
  objs : s.objs = s₀.objs
  transports : s.transports = s₀.transports
  batch : s.batch = s₀.batch

/-- The calls that send on a stream. -/
def Act.sends : Act K T → Bool
  | .call (.write ..) _ | .call (.sockSendall ..) _ => true
  | _ => false

/-- The step is a tick that gets to the completions. -/
def Ticks (s : EventLoop K T) (a : Act K T) : Prop :=
  ∃ clock enter, a = .startTick clock enter ∧ s.core.Flushes enter ∧ s.idle = true

/-- The steps that change how much is buffered: a write, the callback of a send, and the handler of a
send's completion. -/
inductive Accounts (s : EventLoop K T) : Act K T → Prop where
  | written (tr : TransportId) (data : Bytes) (env : Env) : Accounts s (.call (.write tr data) env)
  | sent {tr : TransportId} {fut : FutId} {rest : List (Handle K)}
      (hbatch : s.batch = .onWriteComplete tr fut :: rest) : Accounts s .runHandle
  | handled {r : ResultTuple} {rest : List ResultTuple} (hresults : s.results = r :: rest)
      (hop : r.opType = "send") : Accounts s .handleCompletion

/-- The steps that resume the reading of a transport: the program does, or `create_unix_connection`. -/
inductive Resumes (s : EventLoop K T) (tr : TransportId) : Act K T → Prop where
  | called (env : Env) : Resumes s tr (.call (.resumeReading tr) env)
  | made {rest : List Frame} (truthy : Bool) (env : Env)
      (hstack : s.stack = .connectionMade tr .unixConnection :: rest) :
      Resumes s tr (.ret (.value truthy) env)

/-- The steps that make a transport for a descriptor and enter it in `_transports`. -/
inductive Makes (s : EventLoop K T) (fd : Fd) : Act K T → Prop where
  | connection (env : Env) : Makes s fd (.call (.createConnection fd) env)
  | unixConnection (env : Env) : Makes s fd (.call (.createUnixConnection fd) env)
  | accepted {listener : Fd} {multi : Bool} {rest : List Frame} (truthy : Bool) (env : Env)
      (hstack : s.stack = .protocolFactory listener fd multi :: rest) :
      Makes s fd (.ret (.value truthy) env)

section
variable [LE T] [DecidableLE T]

inductive Move (s₀ : EventLoop K T) (a : Act K T) (s : EventLoop K T) : EventLoop K T → Prop where
  /-- Something waiting is taken from, or a frame goes or comes. -/
  | control {batch : List (Handle K)} {results : List ResultTuple} (stack : List Frame)
      (hbatch : batch <:+ s.batch) (hresults : results <:+ s.results)
      (hruns : batch = s.batch ∨ a = .runHandle) :
      Move s₀ a s { s with batch, results, stack }
  /-- `run_tick` unwinds: the rest of its batch is lost, and the completions it would have returned. -/
  | unwound (hunwinds : s₀.Unwinds a) : Move s₀ a s { s with batch := [], results := [] }
  | lost {tr : TransportId} {exc : Option Exc} {rest : List (Handle K)}
      (hbatch : s.batch = .callConnectionLost tr exc :: rest) (ha : a = .runHandle) :
      Move s₀ a s (callConnectionLost tr exc { s with batch := rest })
  | forced {tr : TransportId} {cause : TransportEvent} (exc : Option Exc)
      (hcause : cause.isForced tr) : Move s₀ a s (s.forceClose cause exc tr)
  | closed {tr : TransportId} {t : Transport} {cause : TransportEvent} (hcause : cause.isClose tr)
      (ht : s.objs[tr]? = some t) :
      Move s₀ a s ((s.note cause).modify tr .setClosing)
  | flagged (tr : TransportId) {f : Transport → Transport} (hf : KeepsEnd f)
      (hpaused : s₀.Resumes tr a ∨ ∀ t, t.paused = true → (f t).paused = true)
      (hsize : s₀.Accounts a ∨ ∀ t, (f t).writeBufferSize = t.writeBufferSize) :
      Move s₀ a s (s.modify tr f)
  /-- `_on_recv_complete` is called. -/
  | received {tr : TransportId} {fut : FutId} {rest : List (Handle K)}
      (hruns : s₀.Runs a (.onRecvComplete tr fut))
      (hbatch : s.batch = .onRecvComplete tr fut :: rest) :
      Move s₀ a s (modify tr (.setRecvPending false) { s with batch := rest })
  | data {tr : TransportId} {t : Transport} {fut : FutId} {v : Value}
      (hruns : s₀.Runs a (.onRecvComplete tr fut)) (ht : s.objs[tr]? = some t)
      (hopen : t.closing = false) :
      Move s₀ a s (s.callProtocol (.dataReceived tr v) (.dataReceived tr))
  | eof {tr : TransportId} (handler : Bool)
      (h : (∃ t, s.objs[tr]? = some t ∧ t.closing = false) ∨
        s₀.eofFallback a = some tr ∧ s.log = s₀.log) :
      Move s₀ a s (s.eofReceived tr handler)
  | flow {tr : TransportId} {e : TransportEvent} (frame : Frame)
      (he : e = .pauseWriting tr ∨ e = .resumeWriting tr) (haccounts : s₀.Accounts a) :
      Move s₀ a s (s.callProtocol e frame)
  | made (fd : Fd) (creator : Creator) (hmakes : s₀.Makes fd a) :
      Move s₀ a s (s.makeConnection fd creator)
  | constructed (fd : Fd) : Move s₀ a s { s with objs := s.objs ++ [Transport.new fd false] }
  /-- A transport submits its next receive. -/
  | armed (env : Env) {tr : TransportId} {t : Transport} (ht : s.objs[tr]? = some t)
      (hidle : (t.closing || t.paused || t.recvPending) = false) :
      Move s₀ a s ((s.modify tr (.setRecvPending true)).submitNew env t.fd (some .recv)
        (fun fut => [.onRecvComplete tr fut]) .recv).1
  /-- The submission of the receive has raised. -/
  | disarmed (tr : TransportId) (exc : Exc) :
      Move s₀ a s ((s.modify tr (.setRecvPending false)).errorReceived tr exc)
  | wrote (env : Env) {tr : TransportId} {t : Transport} {data : Bytes} (ha : a.sends = true)
      (ht : s.objs[tr]? = some t) (hopen : t.closing = false) (hdata : data ≠ []) :
      Move s₀ a s (s.submitNew env t.fd none (fun fut => [.onWriteComplete tr fut]) (.send data)).1
  | submitted (env : Env) (fd : Fd) (kind? : Option IoKind) (callbacks : FutId → List (Handle K))
      (req : FutId → Request FutId) (hreq : ∀ fut, (req fut).future? = some fut)
      (hkind : ∀ fut, ∀ kind ∈ kind?, (req fut).ioKind = some kind)
      (hcallbacks : ∀ fut, ∀ h ∈ callbacks fut, h.isUser = true)
      (hsend : ∀ fut, (req fut).opType = .send → a.sends = true) :
      Move s₀ a s (s.submitNew env fd kind? callbacks req).1
  | closeSubmitted (env : Env) {t : Transport} (ht : t ∈ s.objs) (hsock : t.hasSock = false) :
      Move s₀ a s (s.request env t.fd .close).1
  | cancelled (fut : FutId)
      (huser : ∃ f, s.futs[fut]? = some f ∧ f.callbacks.any Handle.isUser = true)
      (ha : ∃ env, a = .call (.cancel fut) env) : Move s₀ a s (s.setFuture fut .cancelled)
  /-- A handler resolves the future stored for its completion. -/
  | ioSettled {r : ResultTuple} {kind : IoKind} {fut : FutId} {state : FutState}
      (hr : s₀.Handles a r) (hs : ∃ results, s = { s₀ with results })
      (hsettles : r.settles = some (kind, state)) (hfut : s.ioLookup r.fd kind = some fut) :
      Move s₀ a s ((s.popIo r.fd kind).setFuture fut state)
  | ioPopped (fd : Fd) : Move s₀ a s (s.popIo fd .sendmsg)
  | closeHandled {r : ResultTuple} (hr : s₀.Handles a r) (hop : r.opType = "close") :
      Move s₀ a s (s.handleCloseCompletion r.fd)
  | servers (servers : List Fd) : Move s₀ a s { s with servers }
  | registered (fd : Fd) (socketType : String) : Move s₀ a s (s.registerFd fd socketType)
  | unregistered (fd : Fd) : Move s₀ a s { s with core := s.core.unregisterFd fd }
  | paused (fd : Fd) : Move s₀ a s { s with core := (s.core.pauseReading fd).1 }
  | resumed (fd : Fd) : Move s₀ a s { s with core := (s.core.resumeReading fd).1 }
  | pushed (k : K) : Move s₀ a s (s.callSoon (.user k))
  | consumed (n : Nat) : Move s₀ a s { s with core := { s.core with ring := s.core.ring.take n } }
  | completed {i : Nat} {payload : Payload} {select more : Bool}
      {core : UringCore FutId (Handle K) T} (ha : a = .complete i payload select more)
      (h : s.core.complete i payload select more = some core) : Move s₀ a s { s with core }
  /-- A tick flushes the ring, after it has expired the timers. -/
  | flushed (clock : T) (enter : Except String Nat) :
      Move s₀ a s { s with core := ((s.core.expireTimers clock).submit enter).1 }
  | drained {pre : List Cqe} {c : Cqe} {cs : List Cqe} (hticks : s₀.Ticks a)
      (hmidway : s₀.Midway pre s) (hcq : s.core.ring.cq = c :: cs) : Move s₀ a s (s.drainOne c cs)
  /-- A tick takes the ready queue as its batch. -/
  | batched (hticks : s₀.Ticks a) (hbatch : s.batch = []) :
      Move s₀ a s { s with batch := s.core.scheduler, core := { s.core with scheduler := [] } }

def Moves (s₀ : EventLoop K T) (a : Act K T) : EventLoop K T → EventLoop K T → Prop :=
  Relation.ReflTransGen (Move s₀ a)

namespace Moves

variable {s₀ s t u : EventLoop K T} {a : Act K T}

theorem refl (s : EventLoop K T) : Moves s₀ a s s := Relation.ReflTransGen.refl

theorem single (h : Move s₀ a s t) : Moves s₀ a s t := Relation.ReflTransGen.single h

theorem trans (h : Moves s₀ a s t) (h' : Moves s₀ a t u) : Moves s₀ a s u :=
  Relation.ReflTransGen.trans h h'

theorem tail (h : Moves s₀ a s t) (h' : Move s₀ a t u) : Moves s₀ a s u :=
  Relation.ReflTransGen.tail h h'

theorem head (h : Move s₀ a s t) (h' : Moves s₀ a t u) : Moves s₀ a s u :=
  Relation.ReflTransGen.head h h'

/-- What every move of a step preserves, the step preserves. -/
theorem rule {I : EventLoop K T → Prop} (hmove : ∀ s t, I s → Move s₀ a s t → I t)
    (h : Moves s₀ a s t) (hI : I s) : I t := by
  induction h with
  | refl => exact hI
  | tail _ hlast ih => exact hmove _ _ ih hlast

end Moves

/-! ## The methods of a transport -/

section
variable (s₀ : EventLoop K T) (a : Act K T) (s : EventLoop K T) (env : Env) (tr : TransportId)

theorem control_stack (stack : List Frame) : Move s₀ a s { s with stack } :=
  .control stack (List.suffix_refl _) (List.suffix_refl _) (.inl rfl)

theorem moves_errorReceived (exc : Exc) : Moves s₀ a s (s.errorReceived tr exc) :=
  .single (.forced _ (by simp [TransportEvent.isForced]))

theorem moves_close {cause : TransportEvent} (hcause : cause.isClose tr) :
    Moves s₀ a s (s.close cause env tr) := by
  unfold close
  cases ht : s.objs[tr]? with
  | none => exact .refl s
  | some t =>
    simp only
    split
    · rename_i hclosing
      -- the flag is set already
      have hkept : (s.note cause).modify tr .setClosing = s.note cause := by
        have hobjs : s.objs.modify tr .setClosing = s.objs := by
          apply List.ext_getElem?
          intro i
          rw [List.getElem?_modify]
          by_cases hi : tr = i
          · subst hi
            rw [ht]
            simp [Transport.setClosing, ← hclosing]
          · simp [hi]
        simp [modify, note, hobjs]
      rw [← hkept]
      exact .single (.closed hcause ht)
    · refine .head (.closed hcause ht) ?_
      split
      · exact .refl _
      · rename_i hsock
        apply Moves.single
        refine .closeSubmitted env (t := t.setClosing) ?_ (by simpa [Transport.setClosing] using hsock)
        apply List.mem_of_getElem? (i := tr)
        show (s.objs.modify tr _)[tr]? = _
        rw [List.getElem?_modify, ht]
        simp

theorem moves_rearmRecv : Moves s₀ a s (s.rearmRecv env tr) := by
  unfold rearmRecv
  cases ht : s.objs[tr]? with
  | none => exact .refl s
  | some t =>
    simp only
    split
    · exact .refl s
    · rename_i hidle
      have harmed : Moves s₀ a s ((s.modify tr (.setRecvPending true)).submitNew env t.fd (some .recv)
          (fun fut => [.onRecvComplete tr fut]) .recv).1 :=
        .single (.armed env ht (by simpa using hidle))
      have hlength : (s.modify tr (.setRecvPending true)).futs.length = s.futs.length := rfl
      rw [submitNew, hlength] at harmed
      split
      · rename_i s' hok
        rwa [hok] at harmed
      · rename_i s' e herror
        rw [herror] at harmed
        exact harmed.tail (.disarmed tr _)

theorem moves_onRecvComplete {fut : FutId} {rest : List (Handle K)}
    (hruns : s₀.Runs a (.onRecvComplete tr fut)) (hbatch : s.batch = .onRecvComplete tr fut :: rest) :
    Moves s₀ a s (onRecvComplete tr fut { s with batch := rest }) := by
  unfold onRecvComplete
  cases ht : s.objs[tr]? with
  | none =>
    exact .single (.control s.stack (by rw [hbatch]; exact List.suffix_cons _ _)
      (List.suffix_refl _) (.inr hruns.1))
  | some t =>
    simp only
    refine .head (.received hruns hbatch) ?_
    have ht' : (modify tr (.setRecvPending false) { s with batch := rest }).objs[tr]? =
        some (t.setRecvPending false) := by
      show (s.objs.modify tr _)[tr]? = _
      rw [List.getElem?_modify, ht]
      simp
    split
    · exact .refl _
    · rename_i hopen
      have hopen : t.closing = false := by simpa using hopen
      split
      · exact moves_errorReceived s₀ a _ tr _
      · split
        · exact .single (.data hruns ht' hopen)
        · exact .single (.eof false (.inl ⟨_, ht', hopen⟩))
      · exact .refl _
      · exact moves_errorReceived s₀ a _ tr _
      · exact moves_errorReceived s₀ a _ tr _

theorem moves_afterData : Moves s₀ a s (s.afterData env tr) := by
  unfold afterData
  split
  · exact .refl s
  · split
    · exact .refl s
    · exact moves_rearmRecv s₀ a s env tr

theorem moves_sendCompleted (result : Int) (handler : Bool) (haccounts : s₀.Accounts a) :
    Moves s₀ a s (s.sendCompleted tr result handler) := by
  unfold sendCompleted
  split
  · exact .refl s
  · rename_i t ht
    split
    · exact .refl s
    · simp only
      refine .head (.flagged tr (.writeBufferSize (t.writeBufferSize - result.toNat))
        (.inr fun _ => id) (.inl haccounts)) ?_
      split
      · exact .single (.flow _ (.inr rfl) haccounts)
      · exact .refl _

theorem moves_onWriteComplete (fut : FutId) (haccounts : s₀.Accounts a) :
    Moves s₀ a s (s.onWriteComplete tr fut) := by
  unfold onWriteComplete
  split
  · exact .refl s
  · split
    · exact .refl s
    · split
      · exact moves_errorReceived s₀ a s tr _
      · exact moves_sendCompleted s₀ a s tr _ _ haccounts
      · exact moves_errorReceived s₀ a s tr _
      · exact .refl s
      · exact moves_errorReceived s₀ a s tr _
      · exact moves_errorReceived s₀ a s tr _

theorem moves_write (data : Bytes) (ha : a = .call (.write tr data) env) :
    Moves s₀ a s (s.write env tr data) := by
  unfold write
  split
  · exact .refl s
  · rename_i t ht
    split
    · exact .refl s
    · rename_i hopen
      simp only [Bool.or_eq_true, not_or, List.isEmpty_iff, Bool.not_eq_true] at hopen
      have hwrote : Moves s₀ a s (s.submitNew env t.fd none (fun fut => [.onWriteComplete tr fut])
          (.send data)).1 := .single (.wrote env (by rw [ha]; rfl) ht hopen.1 hopen.2)
      simp only
      split
      · rename_i s' msg hpanic
        rwa [submitNew, hpanic] at hwrote
      · rename_i s' e _ herror
        rw [submitNew, herror] at hwrote
        exact hwrote.trans (moves_errorReceived s₀ a _ tr _)
      · rename_i s' hok
        rw [submitNew, hok] at hwrote
        have haccounts : s₀.Accounts a := by
          rw [ha]
          exact .written tr data env
        refine (hwrote.tail (.flagged tr (.writeBufferSize (t.writeBufferSize + data.length))
          (.inr fun _ => id) (.inl haccounts))).trans ?_
        split
        · exact .single (.flow _ (.inl rfl) haccounts)
        · exact .refl _

theorem moves_pauseReading : Moves s₀ a s (s.pauseReading tr) := by
  unfold pauseReading
  split
  · exact .refl s
  · split
    · exact .refl s
    · exact .head (.flagged tr (.paused true) (.inr fun _ _ => rfl) (.inr fun _ => rfl))
        (.single (.paused _))

theorem moves_resumeReading (hresumes : s₀.Resumes tr a) : Moves s₀ a s (s.resumeReading env tr) := by
  unfold resumeReading
  split
  · exact .refl s
  · rename_i t ht
    split
    · exact .refl s
    · split
      · have hresumed : Moves s₀ a s { s.modify tr (.setPaused false) with
            core := (s.core.resumeReading t.fd).1 } :=
          .head (.flagged tr (.paused false) (.inl hresumes) (.inr fun _ => rfl))
            (.single (.resumed _))
        simp only
        split
        · rename_i core hok
          have hcore : (s.core.resumeReading t.fd).1 = core := congrArg Prod.fst hok
          rw [hcore] at hresumed
          exact hresumed.trans (moves_rearmRecv s₀ a _ env tr)
        · rename_i core e herror
          have hcore : (s.core.resumeReading t.fd).1 = core := congrArg Prod.fst herror
          rwa [hcore] at hresumed
      · exact moves_rearmRecv s₀ a s env tr

end

/-! ## The handlers -/

section
variable (s₀ : EventLoop K T) (a : Act K T) (s : EventLoop K T) (env : Env)

omit [LE T] [DecidableLE T] in
/-- Popping an entry that is not there changes nothing. -/
theorem popIo_of_none {fd : Fd} {kind : IoKind} (h : s.ioLookup fd kind = none) :
    s.popIo fd kind = s := by
  unfold popIo
  rw [AList.erase_of_lookup_eq_none h]

theorem moves_resolveIo {r : ResultTuple} (kind : IoKind) (state : FutState) (hr : s₀.Handles a r)
    (hs : ∃ results, s = { s₀ with results })
    (hsettles : r.settles = some (kind, state)) : Moves s₀ a s (s.resolveIo r.fd kind state) := by
  unfold resolveIo
  split
  · rename_i fut hfut
    exact .single (.ioSettled hr hs hsettles hfut)
  · rename_i hfut
    rw [popIo_of_none s hfut]
    exact .refl s

/-- The receive handler, called for the completion `r`. -/
theorem moves_handleRecvCompletion {r : ResultTuple} {rest : List ResultTuple}
    (hr : s₀.results = r :: rest) (hs : s = { s₀ with results := rest }) (ha : a = .handleCompletion)
    (hop : r.opType = "recv" ∨ r.opType = "recv_multi") :
    Moves s₀ a s (s.handleRecvCompletion r.fd r.result r.data) := by
  have hhandles : s₀.Handles a r := ⟨ha, rest, hr⟩
  have hsettles : r.settles = some (.recv,
      match if 0 < r.result then truthyData r.data else none with
      | some d => .result (.data d)
      | none => if r.result = 0 then .result (.data (.bytes [])) else .exception (-r.result)) := by
    unfold ResultTuple.settles
    rcases hop with hop | hop <;> rw [hop] <;> rfl
  have hlookup : s.ioLookup r.fd .recv = s₀.ioLookup r.fd .recv := by rw [hs]; rfl
  have htransports : s.transports = s₀.transports := by rw [hs]
  subst ha
  unfold handleRecvCompletion
  dsimp only
  cases hfut : s.ioLookup r.fd .recv with
  | some fut =>
    have hsettled := Moves.single (.ioSettled (s := s) hhandles ⟨rest, hs⟩ hsettles hfut)
    split
    · rename_i d hd
      rwa [hd] at hsettled
    · rename_i hd
      rwa [hd] at hsettled
  | none =>
    rw [popIo_of_none s hfut]
    split
    · exact .refl s
    · dsimp only
      split
      · rename_i tr htr
        split
        · rename_i hzero
          refine .single (.eof true (.inr ⟨?_, by rw [hs]⟩))
          simp [eofFallback, hr, hop, hzero, ← hlookup, hfut, ← htransports, htr]
        · exact moves_errorReceived s₀ _ s tr _
      · exact .refl s

theorem moves_callFactory (fd client : Fd) (multi : Bool) :
    Moves s₀ a s (s.callFactory fd client multi) :=
  .single (control_stack s₀ a s _)

theorem moves_handle {r : ResultTuple} {rest : List ResultTuple} (hr : s₀.results = r :: rest)
    (ha : a = .handleCompletion) :
    Moves s₀ a { s₀ with results := rest } (handle r { s₀ with results := rest }) := by
  have hhandles : s₀.Handles a r := ⟨ha, rest, hr⟩
  unfold handle
  split
  · rename_i hop
    exact moves_handleRecvCompletion s₀ a _ hr rfl ha (.inl hop)
  · rename_i hop
    exact moves_handleRecvCompletion s₀ a _ hr rfl ha (.inr hop)
  · rename_i hop
    refine (moves_resolveIo s₀ a _ .send (plainState r.result) hhandles ⟨rest, rfl⟩
      (by rw [ResultTuple.settles, hop]; rfl)).trans ?_
    unfold handleSendCompletion
    simp only
    split
    · exact moves_sendCompleted s₀ a _ _ _ _ (by rw [ha]; exact .handled hr hop)
    · exact .refl _
  · rename_i hop
    refine (moves_resolveIo s₀ a _ .accept (plainState r.result) hhandles ⟨rest, rfl⟩
      (by rw [ResultTuple.settles, hop]; rfl)).trans ?_
    unfold handleAcceptCompletion
    simp only
    split
    · exact moves_callFactory s₀ a _ _ _ _
    · exact .refl _
  · unfold handleAcceptMultiCompletion
    split
    · exact moves_callFactory s₀ a _ _ _ _
    · exact .refl _
  · rename_i hop
    exact moves_resolveIo s₀ a _ _ _ hhandles ⟨rest, rfl⟩ (by rw [ResultTuple.settles, hop]; rfl)
  · rename_i hop
    exact moves_resolveIo s₀ a _ _ _ hhandles ⟨rest, rfl⟩ (by rw [ResultTuple.settles, hop]; rfl)
  · rename_i hop
    exact .single (.closeHandled hhandles hop)
  · exact .refl _

/-! ## Returns and calls -/

theorem moves_afterAccept (listener : Fd) (multi : Bool) :
    Moves s₀ a s (s.afterAccept listener multi) := by
  unfold afterAccept
  split
  · exact .refl s
  · exact .single (control_stack s₀ a s _)

theorem moves_afterMade (tr : TransportId) (creator : Creator) (r : Return) {rest : List Frame}
    (hstack : s₀.stack = .connectionMade tr creator :: rest) (ha : a = .ret r env) :
    Moves s₀ a s (s.afterMade env tr creator r) := by
  unfold afterMade
  split
  · exact moves_rearmRecv s₀ a s env tr
  · exact moves_resumeReading s₀ a s env tr (by rw [ha]; exact .made _ env hstack)
  · exact .refl s
  · exact .refl s
  · split
    · rename_i t ht
      exact (Moves.single (.registered t.fd "tcp")).trans <|
        (moves_rearmRecv s₀ a _ env tr).trans (moves_afterAccept s₀ a _ _ _)
    · exact .refl s
  · exact moves_afterAccept s₀ a s _ _

/-- The completions are lost, the batch is not. -/
theorem control_results : Move s₀ a s { s with results := [] } :=
  .control s.stack (List.suffix_refl _) List.nil_suffix (.inl rfl)

theorem moves_leaveEof (exc : Exc) (tr : TransportId) (handler : Bool) :
    Moves s₀ a s (s.leaveEof exc tr handler) := by
  unfold leaveEof
  split
  · exact .single (control_results s₀ a s)
  · exact moves_errorReceived s₀ a s _ _

theorem moves_escape (frame : Frame) (e : Escape)
    (hunwinds : frame.caller = .handle → e = .panic → s₀.Unwinds a) :
    Moves s₀ a s (s.escape frame e) := by
  unfold escape
  split
  · rename_i hcaller
    exact .single (.unwound (hunwinds hcaller rfl))
  · exact .refl s
  · exact .refl s
  · exact .single (control_results s₀ a s)

theorem moves_resume (frame : Frame) (r : Return) {rest : List Frame}
    (hstack : s₀.stack = frame :: rest) (ha : a = .ret r env) : Moves s₀ a s (resume env frame r s) := by
  have hunwinds {e : Escape} (hr : r.escape? = some e) (hcaller : frame.caller = .handle)
      (he : e = .panic) : s₀.Unwinds a := by
    subst ha
    refine ⟨frame, by rw [hstack]; rfl, ?_⟩
    simp [Frame.unwinds, hcaller, hr, he]
  have hclose (tr : TransportId) : Moves s₀ a s (s.close (.eofNotKept tr) env tr) :=
    moves_close s₀ a s env _ (by simp [TransportEvent.isClose])
  unfold resume
  split
  · exact (hclose _).trans (moves_escape s₀ a _ _ _ (hunwinds rfl))
  · exact moves_escape s₀ a s _ _ (hunwinds rfl)
  · exact moves_escape s₀ a s _ _ (hunwinds rfl)
  · exact .refl s
  · exact .refl s
  · exact .refl s
  · exact .refl s
  · exact moves_errorReceived s₀ a s _ _
  · exact moves_afterData s₀ a s env _
  · exact .refl s
  · exact moves_leaveEof s₀ a s _ _ _
  · exact (hclose _).trans (moves_leaveEof s₀ a _ _ _ _)
  · exact hclose _
  · exact hclose _
  · exact .refl s
  · exact moves_errorReceived s₀ a s _ _
  · exact .single (.made _ _ (by rw [ha]; exact .accepted _ env hstack))
  · exact moves_afterAccept s₀ a s _ _
  · exact moves_afterMade s₀ a s env _ _ _ hstack ha

theorem moves_rearmAccept (listener : Fd) : Moves s₀ a s (rearmAccept env listener s) := by
  unfold rearmAccept
  have hrequest : Moves s₀ a s (s.submitNew env listener (some .accept) (fun _ => []) .accept).1 :=
    .single (.submitted env listener _ _ _ (fun _ => rfl) (by simp [Request.ioKind]) (by simp)
      (by simp [Request.opType]))
  simp only
  split
  · rename_i s' hok
    rwa [submitNew, hok] at hrequest
  · rename_i s' e herror
    rw [submitNew, herror] at hrequest
    exact hrequest.tail (control_results s₀ a s')

theorem moves_sockOp (socketType : Option String) (kind : IoKind) (k : K)
    (req : FutId → Request FutId) (hreq : ∀ fut, (req fut).future? = some fut)
    (hkind : ∀ fut, (req fut).ioKind = some kind)
    (hsend : ∀ fut, (req fut).opType = .send → a.sends = true) (fd : Fd) :
    Moves s₀ a s (s.sockOp env socketType kind k req fd).1 := by
  have hsubmitted (s : EventLoop K T) :
      Move s₀ a s (s.submitNew env fd (some kind) (fun _ => [.user k]) req).1 := by
    refine .submitted env fd _ _ _ hreq ?_ (by simp [Handle.isUser]) hsend
    intro fut kind' hkind'
    rw [hkind, Option.mem_some_iff.mp hkind']
  unfold sockOp
  cases socketType with
  | none => exact .single (hsubmitted s)
  | some socketType => exact .head (.registered _ _) (.single (hsubmitted _))

theorem moves_createServer (unix startServing : Bool) (fd : Fd) :
    Moves s₀ a s (s.createServer env unix startServing fd) := by
  have hlisten : Moves s₀ a s { s.registerFd fd (if unix then "unix_listener" else "tcp_listener") with
      servers := s.servers.insert fd } :=
    .head (.registered fd _) (.single (.servers _))
  cases startServing with
  | false => exact hlisten
  | true =>
    refine hlisten.trans ?_
    cases unix with
    | true =>
      exact .single (.submitted env fd none (fun _ => []) .accept
        (fun _ => rfl) (by simp) (by simp) (by simp [Request.opType]))
    | false =>
      exact .single (.submitted env fd (some .accept) (fun _ => []) .accept (fun _ => rfl)
        (by simp [Request.ioKind]) (by simp) (by simp [Request.opType]))

theorem moves_call (c : Call K) (ha : a = .call c env) : Moves s₀ a s (s.call env c) := by
  unfold call
  split
  · exact moves_write s₀ a s env _ _ ha
  · exact moves_close s₀ a s env _ (by simp [TransportEvent.isClose])
  · exact .single (.forced _ (by simp [TransportEvent.isForced]))
  · exact moves_pauseReading s₀ a s _
  · exact moves_resumeReading s₀ a s env _ (by rw [ha]; exact .called env)
  · exact .single (.flagged _ (.limits _ _) (.inr fun _ => id) (.inr fun _ => rfl))
  · exact .head (.registered _ _) (.single (.made _ _ (by rw [ha]; exact .connection env)))
  · exact .head (.registered _ _) (.single (.made _ _ (by rw [ha]; exact .unixConnection env)))
  · exact .single (.constructed _)
  · exact moves_createServer s₀ a s env _ _ _
  · exact .head (.unregistered _) (.single (.servers _))
  · exact moves_sockOp s₀ a s env _ _ _ _ (fun _ => rfl) (fun _ => rfl) (by simp [Request.opType]) _
  · unfold sockSendall
    split
    · exact .refl s
    · exact moves_sockOp s₀ a s env _ _ _ _ (fun _ => rfl) (fun _ => rfl)
        (fun _ _ => by rw [ha]; rfl) _
  · exact moves_sockOp s₀ a s env _ _ _ _ (fun _ => rfl) (fun _ => rfl) (by simp [Request.opType]) _
  · exact moves_sockOp s₀ a s env _ _ _ _ (fun _ => rfl) (fun _ => rfl) (by simp [Request.opType]) _
  · rename_i fd data addr k
    have hop := moves_sockOp s₀ a s env none .sendmsg k (.sendto data addr) (fun _ => rfl)
      (fun _ => rfl) (by simp [Request.opType]) fd
    unfold sockSendto
    split
    · rename_i s' hok
      rwa [hok] at hop
    · rename_i s' e herror
      rw [herror] at hop
      exact hop.tail (.ioPopped _)
  · exact .single (.ioPopped _)
  · rename_i fd k
    exact .single (.submitted env fd none (fun _ => [.user k]) .recvMultishot (fun _ => rfl)
      (by simp) (by simp [Handle.isUser]) (by simp [Request.opType]))
  · exact .refl s
  · unfold cancel
    split
    · rename_i f hf
      split
      · rename_i huser
        exact .single (.cancelled _ ⟨f, hf, huser⟩ ⟨env, ha⟩)
      · exact .refl s
    · exact .refl s

theorem moves_execute {h : Handle K} {rest : List (Handle K)} (hs : s₀ = s) (ha : a = .runHandle)
    (hbatch : s.batch = h :: rest) : Moves s₀ a s (execute h { s with batch := rest }) := by
  have hrest : Moves s₀ a s { s with batch := rest } :=
    .single (.control s.stack (by rw [hbatch]; exact List.suffix_cons _ _) (List.suffix_refl _) (.inr ha))
  unfold execute
  split
  · exact moves_onRecvComplete s₀ a s _ ⟨ha, rest, by rw [hs, hbatch]⟩ hbatch
  · exact hrest.trans (moves_onWriteComplete s₀ a _ _ _ (by rw [hs, ha]; exact .sent hbatch))
  · exact .single (.lost hbatch ha)
  · exact hrest.tail (control_stack s₀ a _ _)

end

/-! ## A tick -/

/-- `run_tick` processes the completions of its batch. -/
def drainAll : List Cqe → EventLoop K T → EventLoop K T
  | [], s => s
  | c :: cs, s => drainAll cs (s.drainOne c cs)

section
omit [LE T] [DecidableLE T]

theorem drainOne_eq (c : Cqe) (cs : List Cqe) (s : EventLoop K T) :
    let settled := UringCore.settleAll settleOutcome [(s.core.process c.entry).2] s.futs
      s.core.scheduler
    s.drainOne c cs = { s with
      core := { s.core.processNext c cs with scheduler := settled.2 }
      futs := settled.1
      results := s.results ++ [(s.core.process c.entry).2.1.tuple]
      drained := s.drained ++ [c] } := by
  have hscheduler : (s.core.processNext c cs).scheduler = s.core.scheduler := by
    rw [UringCore.processNext_eq]
  unfold drainOne
  rcases heq : (s.core.process c.entry).2 with ⟨item, fut | fut⟩
  · simp only [UringCore.settleAll, heq, ← hscheduler]
  · simp only [UringCore.settleAll, heq, setFuture_eq, settleOutcome, hscheduler,
      Scheduler.foldl_push]

theorem settle_getElem? (futs : List (AsyncFuture K)) (fut : FutId) (state : FutState) (f : FutId) :
    (settle futs fut state).1[f]? = if fut = f then
      (futs[f]?).map fun x => if x.state = .pending then ⟨state, []⟩ else x
    else futs[f]? := by
  unfold settle
  split
  · rename_i callbacks hfut
    rw [List.getElem?_set]
    split
    · rename_i heq
      subst heq
      rcases List.getElem?_eq_some_iff.mp hfut with ⟨hlt, -⟩
      rw [if_pos hlt, hfut]
      simp
    · rfl
  · rename_i hdone
    split
    · rename_i heq
      subst heq
      rcases hfut : futs[fut]? with _ | ⟨state', callbacks⟩
      · rfl
      · cases state' with
        | pending => exact absurd hfut (hdone callbacks)
        | _ => simp
    · rfl

/-- A completion settles the future stored for its descriptor and no other. -/
theorem drainOne_futs (c : Cqe) (cs : List Cqe) (s : EventLoop K T) (f : FutId) :
    (s.drainOne c cs).futs[f]? = if s.core.futures.lookup c.sqe.fd = some f then
      (s.futs[f]?).map fun x => if x.state = .pending then
        ⟨(s.core.process c.entry).2.1.outcome.futState, []⟩ else x
    else s.futs[f]? := by
  have hfut : (s.core.process c.entry).2.2 = s.core.futures.lookup c.sqe.fd := by
    rw [UringCore.process, Cqe.entry_fd]
  rw [← hfut, drainOne_eq]
  show (UringCore.settleAll settleOutcome [(s.core.process c.entry).2] s.futs
    s.core.scheduler).1[f]? = _
  rcases (s.core.process c.entry).2 with ⟨item, fut | fut⟩
  · simp [UringCore.settleAll]
  · simp only [UringCore.settleAll, Option.some_inj]
    exact settle_getElem? s.futs fut _ f

/-- Processing the completions one at a time is what `run_tick` does in its phases. -/
theorem drainAll_eq (cqes : List Cqe) (s : EventLoop K T) (hcq : s.core.ring.cq = cqes) :
    let r := UringCore.processAll (cqes.map Cqe.entry)
      { s.core with ring := { s.core.ring with cq := [] } }
    let settled := UringCore.settleAll settleOutcome r.2 s.futs s.core.scheduler
    drainAll cqes s = { s with
      core := { r.1 with scheduler := settled.2 }
      futs := settled.1
      results := s.results ++ r.2.map (·.1.tuple)
      drained := s.drained ++ cqes } := by
  induction cqes generalizing s with
  | nil =>
    have hring : ({ s.core.ring with cq := [] } : Ring) = s.core.ring := by rw [← hcq]
    simp only [drainAll, List.map_nil, UringCore.processAll, UringCore.settleAll, hring,
      List.append_nil]
  | cons c cs ih =>
    generalize hx : (s.core.process c.entry) = x
    have hring := UringCore.process_ring c.entry s.core { s.core.ring with cq := cs }
    have hring' := UringCore.process_ring c.entry s.core { s.core.ring with cq := [] }
    have hone := drainOne_eq c cs s
    rw [hx] at hring hring'
    simp only [UringCore.processNext, hring, hx] at hone
    generalize hq : UringCore.settleAll settleOutcome [x.2] s.futs s.core.scheduler = q at hone
    have hall := UringCore.processAll_scheduler (cs.map Cqe.entry)
      { x.1 with ring := { s.core.ring with cq := [] } } q.2
    have hcons (xs : List (CompletionItem × Option FutId)) :
        UringCore.settleAll settleOutcome (x.2 :: xs) s.futs s.core.scheduler =
          UringCore.settleAll settleOutcome xs q.1 q.2 := by
      rw [← hq]
      rcases x.2 with ⟨item, fut | fut⟩ <;> rfl
    have hrest := ih (s.drainOne c cs) (by rw [hone])
    simp only [hone] at hrest
    rw [drainAll, hone]
    refine hrest.trans ?_
    simp only [List.map_cons, UringCore.processAll, hring', hcons, List.append_assoc,
      List.singleton_append]
    rw [hall]

end

/-- The tick has flushed the ring. -/
theorem Midway.start {s : EventLoop K T} (clock : T) (enter : Except String Nat) :
    s.Midway [] { s with core := ((s.core.expireTimers clock).submit enter).1 } :=
  ⟨(Ring.cq_submit enter s.core.ring).symm, Ring.inFlight_submit enter s.core.ring, fun _ => rfl,
    fun _ _ => rfl, ⟨rfl, rfl⟩, fun _ _ => rfl, fun _ h => h, rfl, rfl, rfl, rfl, rfl⟩

omit [LE T] [DecidableLE T] in
/-- The tick comes to the next completion. -/
theorem Midway.next {s₀ s : EventLoop K T} {pre cs : List Cqe} {c : Cqe} (hmidway : s₀.Midway pre s)
    (hcq : s.core.ring.cq = c :: cs) : s₀.Midway (pre ++ [c]) (s.drainOne c cs) := by
  have hone := drainOne_eq c cs s
  simp only [UringCore.processNext_eq] at hone
  exact {
    cq := by
      rw [hmidway.cq, hcq, hone]
      simp
    inFlight := by
      rw [← hmidway.inFlight, hone]
      rfl
    futures := by
      intro fd
      rw [hone]
      show (s.core.futures.erase c.sqe.fd).lookup fd = _
      by_cases hfd : fd = c.sqe.fd
      · subst hfd
        simp
      · rw [AList.lookup_erase_ne hfd, hmidway.futures]
        simp [hfd]
    tracked := by
      intro fd hnone
      have hpre := hmidway.tracked fd fun c' hc' => hnone c' (List.mem_append_left _ hc')
      rw [← hpre, hone]
      show (if c.sqe.op.isRecv then s.core.inflightRecvBuffers.erase c.sqe.fd
        else s.core.inflightRecvBuffers).lookup fd = _
      split
      · rename_i hrecv
        have hfd : fd ≠ c.sqe.fd := (hnone c (by simp) hrecv).symm
        rw [AList.lookup_erase_ne hfd]
      · rfl
    bufferPool := by
      rw [← hmidway.bufferPool.1, ← hmidway.bufferPool.2, hone]
      exact ⟨rfl, rfl⟩
    futs := by
      intro fut hnone
      have hfound : s.core.futures.lookup c.sqe.fd ≠ some fut := by
        rw [hmidway.futures]
        split
        · simp
        · exact hnone c (by simp)
      rw [drainOne_futs, if_neg hfound]
      exact hmidway.futs fut fun c' hc' => hnone c' (List.mem_append_left _ hc')
    waits := by
      intro fut hwaits
      apply hmidway.waits
      rw [Waits, drainOne_futs] at hwaits
      rw [Waits]
      split at hwaits
      · cases hfut : s.futs[fut]? with
        | none => simp [hfut] at hwaits
        | some f =>
          rw [hfut] at hwaits
          by_cases hpending : f.state = .pending
          · simp [hpending]
          · simp [hpending] at hwaits
      · exact hwaits
    issued := by rw [← hmidway.issued, hone]
    ioFutures := by rw [← hmidway.ioFutures, hone]
    objs := by rw [← hmidway.objs, hone]
    transports := by rw [← hmidway.transports, hone]
    batch := by rw [← hmidway.batch, hone] }

/-- A tick processes one completion after another. -/
theorem moves_drainAll {s₀ : EventLoop K T} {a : Act K T} (hticks : s₀.Ticks a)
    (pre cqes : List Cqe) {s : EventLoop K T} (hmidway : s₀.Midway pre s) (hcq : s.core.ring.cq = cqes) :
    Moves s₀ a s (drainAll cqes s) := by
  induction cqes generalizing s pre with
  | nil => exact .refl s
  | cons c cs ih =>
    have hrest : (s.drainOne c cs).core.ring.cq = cs := by
      rw [drainOne_eq, UringCore.processNext_eq]
    exact .head (.drained hticks hmidway hcq) (ih (pre ++ [c]) (hmidway.next hcq) hrest)

/-- A tick whose flush fails raises. -/
theorem startTick_error {s : EventLoop K T} {clock : T} {enter : Except String Nat} {e : Error}
    (h : (s.core.ring.submit enter).2 = .error e) :
    s.startTick clock enter = { s with core := ((s.core.expireTimers clock).submit enter).1 } := by
  have hring : (s.core.expireTimers clock).ring = s.core.ring := rfl
  have hsubmit : s.core.ring.submit enter = ((s.core.ring.submit enter).1, .error e) := by rw [← h]
  simp only [startTick, UringCore.runTick, UringCore.submit, hring]
  rw [hsubmit]

theorem startTick_ok {s : EventLoop K T} {clock : T} {enter : Except String Nat} {n : Nat}
    (h : (s.core.ring.submit enter).2 = .ok n) (hresults : s.results = []) :
    let t := drainAll s.core.ring.cq { s with core := ((s.core.expireTimers clock).submit enter).1 }
    s.startTick clock enter =
      { t with batch := t.core.scheduler, core := { t.core with scheduler := [] } } := by
  have hring : (s.core.expireTimers clock).ring = s.core.ring := rfl
  have hsubmit : s.core.ring.submit enter = ((s.core.ring.submit enter).1, .ok n) := by rw [← h]
  have hcq : (s.core.ring.submit enter).1.cq = s.core.ring.cq := Ring.cq_submit enter s.core.ring
  have hdrain := drainAll_eq s.core.ring.cq
    { s with core := ((s.core.expireTimers clock).submit enter).1 } hcq
  simp only at hdrain ⊢
  rw [hdrain]
  simp only [startTick, UringCore.runTick, UringCore.submit, hring]
  rw [hsubmit]
  simp only [UringCore.processCompletions_eq, Ring.drainCompletions, hcq, hresults,
    List.nil_append, Scheduler.drain]
  rw [(UringCore.processAll_queues _ _).1]

theorem moves_startTick {s : EventLoop K T} (clock : T) (enter : Except String Nat)
    (hidle : s.idle = true) :
    Moves s (.startTick clock enter) s (s.startTick clock enter) := by
  have hticks (n : Nat) (hsubmit : (s.core.ring.submit enter).2 = .ok n) :
      s.Ticks (.startTick clock enter) :=
    ⟨clock, enter, rfl, by rw [UringCore.Flushes, hsubmit]; rfl, hidle⟩
  simp only [idle, Bool.and_eq_true, List.isEmpty_iff] at hidle
  have hflushed : Moves s (.startTick clock enter) s
      { s with core := ((s.core.expireTimers clock).submit enter).1 } :=
    .single (.flushed clock enter)
  cases hsubmit : (s.core.ring.submit enter).2 with
  | error e =>
    rw [startTick_error hsubmit]
    exact hflushed
  | ok n =>
    rw [startTick_ok hsubmit hidle.2]
    have hcq : (s.core.ring.submit enter).1.cq = s.core.ring.cq := Ring.cq_submit enter s.core.ring
    have hdrained := moves_drainAll (hticks n hsubmit) [] s.core.ring.cq (.start clock enter) hcq
    have hbatch : (drainAll s.core.ring.cq
        { s with core := ((s.core.expireTimers clock).submit enter).1 }).batch = [] := by
      rw [drainAll_eq s.core.ring.cq _ hcq]
      exact hidle.1.2
    exact (hflushed.trans hdrained).tail (.batched (hticks n hsubmit) hbatch)

/-- **Every step is made of moves.** -/
theorem step_moves {s t : EventLoop K T} {a : Act K T} (h : s.step a = some t) : Moves s a s t := by
  unfold step at h
  split at h
  · cases h
    exact .single (.consumed _)
  · rcases Option.map_eq_some_iff.mp h with ⟨core, hcore, rfl⟩
    exact .single (.completed rfl hcore)
  · cases h
    exact .single (.pushed _)
  · split at h
    · rename_i hidle
      cases h
      exact moves_startTick _ _ hidle
    · cases h
  · split at h
    · rename_i hbatch
      cases h
      exact moves_execute s _ s rfl rfl hbatch
    · cases h
  · split at h
    · rename_i r rest _ _ hresults
      cases h
      have hrest : Moves s Act.handleCompletion s { s with results := rest } :=
        .single (.control s.stack (List.suffix_refl _)
          (by rw [hresults]; exact List.suffix_cons _ _) (.inl rfl))
      exact hrest.trans (moves_handle s _ hresults rfl)
    · cases h
  · split at h
    · cases h
    · cases h
    · rename_i hstack
      cases (Option.ite_none_right_eq_some.mp h).2
      exact .head (control_stack s _ s _) (moves_resume s _ _ _ _ _ hstack rfl)
  · split at h
    · cases h
      exact .head (control_stack s _ s _) (moves_rearmAccept s _ _ _ _)
    · cases h
  · split at h
    · cases h
      exact moves_call s _ s _ _ rfl
    · cases h

/-! ## The core under the loop -/

/-- What holds of the core in every state: no timer is ever pushed. -/
structure CoreSound (s : EventLoop K T) : Prop where
  sound : s.core.Sound
  timers : s.core.timers = #[]

omit [LE T] [DecidableLE T] in
theorem coreSound_init {setup : Setup} {bufferSize bufferCount : Nat}
    {core : UringCore FutId (Handle K) T}
    (hnew : UringCore.new setup bufferSize bufferCount = .ok core) : (init core).CoreSound := by
  refine ⟨UringCore.sound_new hnew, ?_⟩
  rcases UringCore.new_spec hnew with ⟨entries, pool, -, rfl⟩
  rfl

omit [LE T] [DecidableLE T] in
/-- The core's part of a submission does nothing to the ready queue. -/
theorem scheduler_request {s : EventLoop K T} (hs : s.CoreSound) (env : Env) (fd : Fd) (req : Request FutId) :
    (s.core.request env.now env.enter fd req).1.scheduler = s.core.scheduler := by
  have hspec : s.core.Submission env.enter fd req _ := UringCore.request_spec hs.sound env.now req
  exact hspec.queues.1

omit [LE T] [DecidableLE T] in
theorem CoreSound.request {s : EventLoop K T} (hs : s.CoreSound) (env : Env) (fd : Fd) (req : Request FutId) :
    (s.request env fd req).1.CoreSound := by
  have hspec : s.core.Submission env.enter fd req _ := UringCore.request_spec hs.sound env.now req
  exact ⟨hs.sound.of_submission hspec, hspec.queues.2.trans hs.timers⟩

omit [LE T] [DecidableLE T] in
theorem submitNew_eq (env : Env) (fd : Fd) (kind? : Option IoKind)
    (callbacks : FutId → List (Handle K)) (req : FutId → Request FutId) (s : EventLoop K T) :
    (s.submitNew env fd kind? callbacks req).1 = { s with
      futs := s.futs ++ [⟨.pending, callbacks s.futs.length⟩]
      ioFutures := match kind? with
        | some kind => s.ioFutures.insert (fd, kind) s.futs.length
        | none => s.ioFutures
      core := (s.core.request env.now env.enter fd (req s.futs.length)).1
      issued := s.issued ++
        if (s.core.request env.now env.enter fd (req s.futs.length)).1.ring.tail = s.core.ring.tail
        then [] else [(fd, req s.futs.length)] } := by
  cases kind? <;> rfl

omit [LE T] [DecidableLE T] in
/-- The future that is stored is the new one. -/
theorem ioLookup_submitNew {s : EventLoop K T} {env : Env} {fd fd' : Fd} {kind? : Option IoKind}
    {kind : IoKind} {callbacks : FutId → List (Handle K)} {req : FutId → Request FutId} {fut : FutId}
    (h : (s.submitNew env fd kind? callbacks req).1.ioLookup fd' kind = some fut) :
    s.ioLookup fd' kind = some fut ∨ kind? = some kind ∧ fd' = fd ∧ fut = s.futs.length := by
  rw [submitNew_eq] at h
  cases kind? with
  | none => exact .inl h
  | some kind' =>
    obtain ⟨hkey, rfl⟩ | ⟨-, hold⟩ := AList.lookup_insert_eq_some.mp h
    · cases hkey
      exact .inr ⟨rfl, rfl, rfl⟩
    · exact .inl hold

/-- What a move does to the core: at most the ready queue and the timers change; or the core makes
a step of its own machine; or it processes a completion. -/
inductive CoreMove (s t : EventLoop K T) : Prop where
  | same (hledger : UringCore.SameLedger s.core t.core)
      (htimers : s.core.timers = #[] → t.core.timers = #[])
  | step (act : UringCore.Act FutId (Handle K) T) (hact : act.isTick = false)
      (hrequest : ∀ now enter fd req, act ≠ .request now enter fd req)
      (hstep : UringCore.machine.step s.core act = some t.core)
  | request (now : Nat) (enter : Except String Nat) (fd : Fd) (req : Request FutId)
      (hclose : req.opType = .close → ∃ t ∈ s.objs, t.fd = fd ∧ t.hasSock = false)
      (hcore : t.core = (s.core.request now enter fd req).1)
  | drained {c : Cqe} {cs : List Cqe} {scheduler : Scheduler (Handle K)}
      (hcq : s.core.ring.cq = c :: cs)
      (hcore : t.core = { s.core.processNext c cs with scheduler })

theorem Move.core_cases {s₀ s t : EventLoop K T} {a : Act K T} (h : Move s₀ a s t) :
    CoreMove s t := by
  have hkept (hcore : t.core = s.core) : CoreMove s t :=
    .same (by rw [hcore]; exact .refl _) (by rw [hcore]; exact id)
  have hpush (scheduler : Scheduler (Handle K)) (hcore : t.core = { s.core with scheduler }) :
      CoreMove s t := by
    refine .same ?_ (by rw [hcore]; exact id)
    rw [hcore]
    exact { UringCore.SameLedger.refl s.core with }
  have hforced {u : EventLoop K T} (cause : TransportEvent) (exc : Option Exc) (tr : TransportId)
      (hu : u.core = s.core) (hcore : t.core = (u.forceClose cause exc tr).core) : CoreMove s t := by
    obtain ⟨_, _, _, scheduler, h⟩ := SameTables.forceClose cause exc tr u
    rw [h, hu] at hcore
    exact hpush scheduler hcore
  cases h with
  | forced exc hcause => exact hforced _ _ _ rfl rfl
  | disarmed tr exc => exact hforced (u := s.modify tr (.setRecvPending false)) _ _ _ rfl rfl
  | armed env ht hidle =>
    rename_i tr t
    exact .request env.now env.enter t.fd (.recv s.futs.length) (by simp [Request.opType])
      (by rw [submitNew_eq]; rfl)
  | wrote env ha ht hopen hdata =>
    rename_i tr t data
    exact .request env.now env.enter t.fd (.send data s.futs.length) (by simp [Request.opType])
      (by rw [submitNew_eq])
  | submitted env fd kind? callbacks req hreq hkind hcallbacks hsend =>
    refine .request env.now env.enter fd (req s.futs.length) (fun hclose => ?_) (by rw [submitNew_eq])
    have hfuture := hreq s.futs.length
    cases hreq' : req s.futs.length <;> simp_all [Request.opType, Request.future?]
  | closeSubmitted env ht hsock =>
    rename_i t
    exact .request env.now env.enter t.fd .close (fun _ => ⟨t, ht, rfl, hsock⟩) rfl
  | cancelled fut huser => exact hpush _ (by rw [setFuture_eq])
  | ioSettled hr hs₀ hsettles hfut => exact hpush _ (by rw [setFuture_eq]; rfl)
  | pushed k => exact hpush _ rfl
  | closeHandled hr hop =>
    rename_i r
    exact .step (.unregisterFd r.fd) rfl (by simp) rfl
  | registered fd socketType => exact .step (.registerFd fd socketType) rfl (by simp) rfl
  | unregistered fd => exact .step (.unregisterFd fd) rfl (by simp) rfl
  | paused fd => exact .step (.pauseReading fd) rfl (by simp) rfl
  | resumed fd => exact .step (.resumeReading fd) rfl (by simp) rfl
  | consumed n => exact .step (.consume n) rfl (by simp) rfl
  | completed ha h => exact .step (.complete _ _ _ _) rfl (by simp) h
  | flushed clock enter =>
    refine .same ?_ fun htimers => ?_
    · exact { UringCore.SameLedger.of_submit enter (s.core.expireTimers clock) with }
    · show (s.core.timers.popExpired clock).1 = #[]
      rw [htimers]
      rfl
  | drained hticks hmidway hcq =>
    exact .drained hcq (by rw [drainOne_eq])
  | batched hticks hbatch => exact hpush [] rfl
  | _ => exact hkept rfl

theorem CoreSound.move {s₀ s t : EventLoop K T} {a : Act K T} (hs : s.CoreSound)
    (h : Move s₀ a s t) : t.CoreSound := by
  cases h.core_cases with
  | same hledger htimers => exact ⟨hs.sound.of_same hledger, htimers hs.timers⟩
  | step act hact hrequest hstep =>
    exact ⟨hs.sound.step hstep, (UringCore.queues_step hs.sound hact hstep).2.trans hs.timers⟩
  | request now enter fd req hclose hcore =>
    have hsub : s.core.Submission enter fd req _ := UringCore.request_spec hs.sound now req
    rw [← hcore] at hsub
    exact ⟨hs.sound.of_submission hsub, hsub.queues.2.trans hs.timers⟩
  | drained hcq hcore =>
    rename_i c cs scheduler
    refine ⟨?_, ?_⟩
    · rw [hcore]
      exact UringCore.Sound.of_same { UringCore.SameLedger.refl (s.core.processNext c cs) with }
        (hs.sound.of_processNext hcq)
    · rw [hcore, UringCore.processNext_eq]
      exact hs.timers

/-- What a move adds to the live operations is the submission of that number. A ring close is
submitted for a transport without a socket object. -/
theorem Move.live {s₀ s t : EventLoop K T} {a : Act K T} (hs : s.CoreSound) (h : Move s₀ a s t)
    {e : Sqe} (he : e ∈ t.core.live) :
    e ∈ s.core.live ∨ e.seq = s.core.ring.tail ∧
      (e.op.opType = .close → ∃ t ∈ s.objs, t.fd = e.fd ∧ t.hasSock = false) := by
  cases h.core_cases with
  | same hledger htimers => exact .inl (hledger.live ▸ he)
  | step act hact hrequest hstep => exact .inl (UringCore.live_step hs.sound hrequest hstep he)
  | request now enter fd req hclose hcore =>
    have hissued : s.core.IssuesOne fd req.opType (s.core.request now enter fd req).1 :=
      UringCore.request_issuesOne now req
    rw [← hcore] at hissued
    rcases hissued.live he with he | ⟨hfd, hop, hseq⟩
    · exact .inl he
    · refine .inr ⟨hseq, fun hcloseOp => ?_⟩
      rw [hfd]
      exact hclose (hop.symm.trans hcloseOp)
  | drained hcq hcore =>
    refine .inl (UringCore.live_processNext hcq ?_)
    rw [hcore] at he
    exact he

/-! ## The handles waiting -/

/-- The handles that will be executed. -/
def queued (s : EventLoop K T) : List (Handle K) := s.core.scheduler ++ s.batch

omit [LE T] [DecidableLE T] in
/-- Settling a future pushes its callbacks and leaves those of the others. -/
theorem settle_callbacks {futs : List (AsyncFuture K)} {fut : FutId} {state : FutState}
    {h : Handle K} (hmem : h ∈ (settle futs fut state).2 ∨
      ∃ f ∈ (settle futs fut state).1, h ∈ f.callbacks) : ∃ f ∈ futs, h ∈ f.callbacks := by
  unfold settle at hmem
  split at hmem
  · rename_i callbacks hfut
    have hin := List.mem_of_getElem? hfut
    rcases hmem with hmem | ⟨f, hf, hmem⟩
    · exact ⟨_, hin, hmem⟩
    · rcases List.mem_or_eq_of_mem_set hf with hf | rfl
      · exact ⟨f, hf, hmem⟩
      · cases hmem
  · rcases hmem with hmem | ⟨f, hf, hmem⟩
    · cases hmem
    · exact ⟨f, hf, hmem⟩

omit [LE T] [DecidableLE T] in
/-- What processing a completion pushes, and what it leaves, are callbacks of futures. -/
theorem drainOne_callbacks {c : Cqe} {cs : List Cqe} {s : EventLoop K T} {h : Handle K} :
    (h ∈ (s.drainOne c cs).core.scheduler →
      h ∈ s.core.scheduler ∨ ∃ f ∈ s.futs, h ∈ f.callbacks) ∧
    ((∃ f ∈ (s.drainOne c cs).futs, h ∈ f.callbacks) → ∃ f ∈ s.futs, h ∈ f.callbacks) := by
  have hscheduler : (s.core.processNext c cs).scheduler = s.core.scheduler := by
    rw [UringCore.processNext_eq]
  unfold drainOne
  dsimp only
  split
  · rw [setFuture_eq]
    refine ⟨fun hmem => ?_, fun hmem => settle_callbacks (.inr hmem)⟩
    rcases List.mem_append.mp hmem with hmem | hmem
    · exact .inl (hscheduler ▸ hmem)
    · exact .inr (settle_callbacks (.inl hmem))
  · exact ⟨fun hmem => .inl (hscheduler ▸ hmem), id⟩

/-- Where the handles come from: the program, the callbacks of futures, and transports that close
by force. -/
theorem Move.queued {s₀ s t : EventLoop K T} {a : Act K T} (hs : s.CoreSound) (h : Move s₀ a s t)
    {x : Handle K} (hx : x ∈ t.queued) :
    x ∈ s.queued ∨ x.isUser = true ∨ (∃ f ∈ s.futs, x ∈ f.callbacks) ∨
      ∃ tr exc t', x = .callConnectionLost tr exc ∧ t.objs[tr]? = some t' ∧ t'.closed = true := by
  -- most moves leave the ready queue and the batch as they are
  have hsame {u : EventLoop K T} (hx : x ∈ u.queued) (hscheduler : u.core.scheduler = s.core.scheduler)
      (hbatch : u.batch <:+ s.batch) : x ∈ s.queued := by
    rcases List.mem_append.mp hx with hx | hx
    · exact List.mem_append_left _ (hscheduler ▸ hx)
    · exact List.mem_append_right _ (hbatch.subset hx)
  have hstep {u : EventLoop K T} (hx : x ∈ u.queued) (act : UringCore.Act FutId (Handle K) T)
      (hact : act.isTick = false) (hcore : UringCore.machine.step s.core act = some u.core)
      (hbatch : u.batch = s.batch) : x ∈ s.queued :=
    hsame hx (UringCore.queues_step hs.sound hact hcore).1 (by simp [hbatch])
  have hrequest (env : Env) {fd : Fd} {req : Request FutId} {u : EventLoop K T} (hx : x ∈ u.queued)
      (hcore : u.core = (s.core.request env.now env.enter fd req).1) (hbatch : u.batch = s.batch) :
      x ∈ s.queued :=
    hstep hx (.request env.now env.enter fd req) rfl (by rw [hcore]; rfl) hbatch
  have hsettle {fut : FutId} {state : FutState} {u : EventLoop K T} (hfuts : u.futs = s.futs)
      (hscheduler : u.core.scheduler = s.core.scheduler) (hbatch : u.batch = s.batch)
      (hx : x ∈ (u.setFuture fut state).queued) : x ∈ s.queued ∨ ∃ f ∈ s.futs, x ∈ f.callbacks := by
    rw [setFuture_eq, hfuts, hscheduler] at hx
    simp only [EventLoop.queued, List.mem_append, hbatch] at hx
    rcases hx with (hx | hx) | hx
    · exact .inl (List.mem_append_left _ hx)
    · exact .inr (settle_callbacks (.inl hx))
    · exact .inl (List.mem_append_right _ hx)
  have hforced {cause : TransportEvent} {exc : Option Exc} {tr : TransportId} {u : EventLoop K T}
      (hscheduler : u.core.scheduler = s.core.scheduler) (hbatch : u.batch = s.batch)
      (hx : x ∈ (u.forceClose cause exc tr).queued) : x ∈ s.queued ∨ ∃ t',
        x = .callConnectionLost tr exc ∧ (u.forceClose cause exc tr).objs[tr]? = some t' ∧
          t'.closed = true := by
    cases ht : u.objs[tr]? with
    | none =>
      rw [forceClose_none ht] at hx
      exact .inl (hsame hx hscheduler (by simp [hbatch]))
    | some t =>
      cases hclosed : t.closed with
      | true =>
        rw [forceClose_closed ht hclosed] at hx
        exact .inl (hsame (u := u) hx hscheduler (by simp [hbatch]))
      | false =>
        rw [forceClose_open ht hclosed] at hx ⊢
        simp only [EventLoop.queued, List.mem_append, List.mem_singleton, hscheduler, hbatch] at hx
        rcases hx with (hx | rfl) | hx
        · exact .inl (List.mem_append_left _ hx)
        · exact .inr ⟨t.setClosed, rfl, by simp [ht], rfl⟩
        · exact .inl (List.mem_append_right _ hx)
  cases h with
  | control stack hbatch hresults hruns => exact .inl (hsame hx rfl hbatch)
  | unwound hunwinds => exact .inl (hsame hx rfl List.nil_suffix)
  | lost hbatch ha => exact .inl (hsame hx rfl (by rw [hbatch]; exact List.suffix_cons _ _))
  | received hruns hbatch => exact .inl (hsame hx rfl (by rw [hbatch]; exact List.suffix_cons _ _))
  | forced exc hcause =>
    rcases hforced rfl rfl hx with hx | ⟨t', heq, ht', hclosed⟩
    · exact .inl hx
    · exact .inr (.inr (.inr ⟨_, exc, t', heq, ht', hclosed⟩))
  | disarmed tr exc =>
    rcases hforced (u := s.modify tr (.setRecvPending false)) rfl rfl hx with hx | ⟨t', heq, ht', hclosed⟩
    · exact .inl hx
    · exact .inr (.inr (.inr ⟨_, _, t', heq, ht', hclosed⟩))
  | armed env ht hidle => exact .inl (hrequest env hx (by rw [submitNew_eq]; rfl) rfl)
  | wrote env ha ht hopen hdata => exact .inl (hrequest env hx (by rw [submitNew_eq]) rfl)
  | submitted env fd kind? callbacks req hreq hkind hcallbacks hsend =>
    exact .inl (hrequest env hx (by rw [submitNew_eq]) (by rw [submitNew_eq]))
  | closeSubmitted env ht hsock => exact .inl (hrequest env hx rfl rfl)
  | cancelled fut huser =>
    rcases hsettle rfl rfl rfl hx with hx | hx
    · exact .inl hx
    · exact .inr (.inr (.inl hx))
  | ioSettled hr hs₀ hsettles hfut =>
    rename_i r kind fut state
    rcases hsettle (u := s.popIo r.fd kind) rfl rfl rfl hx with hx | hx
    · exact .inl hx
    · exact .inr (.inr (.inl hx))
  | pushed k =>
    have hx : x ∈ (s.core.scheduler ++ [.user k]) ++ s.batch := hx
    simp only [List.mem_append, List.mem_singleton] at hx
    rcases hx with (hx | rfl) | hx
    · exact .inl (List.mem_append_left _ hx)
    · exact .inr (.inl rfl)
    · exact .inl (List.mem_append_right _ hx)
  | closeHandled hr hop => exact .inl (hstep hx (.unregisterFd _) rfl rfl rfl)
  | registered fd socketType => exact .inl (hstep hx (.registerFd fd socketType) rfl rfl rfl)
  | unregistered fd => exact .inl (hstep hx (.unregisterFd fd) rfl rfl rfl)
  | paused fd => exact .inl (hstep hx (.pauseReading fd) rfl rfl rfl)
  | resumed fd => exact .inl (hstep hx (.resumeReading fd) rfl rfl rfl)
  | consumed n => exact .inl (hstep hx (.consume n) rfl rfl rfl)
  | completed ha h => exact .inl (hstep hx (.complete _ _ _ _) rfl h rfl)
  | flushed clock enter =>
    refine .inl (hsame hx ?_ (List.suffix_refl _))
    show (s.core.timers.popExpired clock).2.foldl _ s.core.scheduler = _
    rw [hs.timers]
    rfl
  | drained hticks hmidway hcq =>
    rename_i pre c cs
    have hbatch : (s.drainOne c cs).batch = s.batch := by rw [drainOne_eq]
    rcases List.mem_append.mp hx with hx | hx
    · rcases drainOne_callbacks.1 hx with hx | hx
      · exact .inl (List.mem_append_left _ hx)
      · exact .inr (.inr (.inl hx))
    · exact .inl (List.mem_append_right _ (hbatch ▸ hx))
  | batched hticks hbatch => exact .inl (List.mem_append_left _ (by simpa [EventLoop.queued] using hx))
  | _ => exact .inl hx

end

end EventLoop

end Uringcore
