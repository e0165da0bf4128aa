import Uringcore.Core.Acceptance
import Uringcore.EventLoop.Issued
import Uringcore.EventLoop.Leftovers

/-!
# Accepted connections

What becomes of the completion of an accept is decided between its handler, the protocol factory of
the server and `connection_made`. Here every step of the loop is described as far as this goes: the
accepts that were submitted, the completions that wait for their handlers, and the frames of the
connection that is being made (`SameAccepts` is for the steps that change none of it).
-/

namespace Uringcore

/-- The frames of the handler of an accept. -/
def Frame.ofAccept : Frame → Bool
  | protocolFactory .. | connectionMade _ (.accepted ..) | rearmAccept _ => true
  | _ => false

/-- An exception leaves `_process_completions`, or `run_tick` unwinds before it returns a list: the
exception handler or `close` raises out of `_eof_received`, or it is no `Exception`. -/
def Frame.aborts (frame : Frame) (r : Return) : Bool :=
  match frame, r with
  | .eofReceived _ true, .raised true | .eofReceived _ true, .closeRaised _ => true
  | frame, r => r.escape?.isSome && frame.caller = .handler || frame.unwinds r

/-- What is raised is an `Exception`, if anything is. -/
theorem Return.caught_cases {r : Return} (h : r.escape? = none) :
    (∃ truthy, r = .value truthy) ∨ (∃ handlerRaises, r = .raised handlerRaises) ∨
      ∃ exc, r = .closeRaised exc := by
  cases r with
  | value truthy => exact .inl ⟨truthy, rfl⟩
  | raised handlerRaises => exact .inr (.inl ⟨handlerRaises, rfl⟩)
  | closeRaised exc => exact .inr (.inr ⟨exc, rfl⟩)
  | closeEscaped e => cases h
  | escaped e => cases h

/-- The calls that may arm an accept. -/
def Call.arms {K : Type} : Call K → Bool
  | sockAccept .. | createServer .. => true
  | _ => false

/-- An accept, of one connection or of many. -/
def OpType.accepts (op : OpType) : Bool := op = .accept || op = .acceptMulti

/-- An accept on `fd`. -/
def Sqe.acceptsOn (fd : Fd) (e : Sqe) : Bool := e.fd = fd && e.op.opType.accepts

/-- The last completion of an accept on `fd`. -/
def Cqe.endsAccept (fd : Fd) (c : Cqe) : Bool := !c.more && c.sqe.acceptsOn fd

namespace UringCore
variable {F H T : Type}

def HasRoom (core : UringCore F H T) : Prop := core.ring.sq.length < core.ring.entries

instance (core : UringCore F H T) : Decidable core.HasRoom := inferInstanceAs (Decidable (_ < _))

/-- An accept is queued if there is room for it, and the call returns if the queue is flushed too. -/
theorem request_accept (core : UringCore F H T) (now : Nat) (enter : Except String Nat) (fd : Fd)
    (req : Request F) (hreq : req.opType.accepts = true) :
    (core.request now enter fd req).1.ring.tail =
        (if core.HasRoom then core.ring.tail + 1 else core.ring.tail) ∧
      ((core.request now enter fd req).2 = .ok () ↔ core.HasRoom ∧ enter.isOk) := by
  have hpush (op : SqeOp) (generation : UInt16) (target : Target) (hroom : core.HasRoom) :
      core.ring.push fd op generation target = .ok { core.ring with
        sq := core.ring.sq ++ [⟨fd, op, generation, target, core.ring.tail⟩]
        tail := core.ring.tail + 1 } := by
    unfold Ring.push
    rw [if_neg (Nat.not_le.mpr hroom)]
  have hfull (op : SqeOp) (generation : UInt16) (target : Target) (hroom : ¬ core.HasRoom) :
      core.ring.push fd op generation target = .error (.ringOp "SQ is full") := by
    unfold Ring.push
    rw [if_pos (Nat.not_lt.mp hroom)]
  have hsubmit {core' : UringCore F H T} (hsq : core'.ring.sq ≠ []) :
      (core'.submit enter).1.ring.tail = core'.ring.tail ∧
        ((core'.submit enter).2 = .ok () ↔ enter.isOk) := by
    have hlength : core'.ring.sq.length ≠ 0 := by simpa using hsq
    unfold submit Ring.submit
    cases enter with
    | error msg => simp [hlength, Except.isOk, Except.toBool]
    | ok n => simp [hlength, Except.isOk, Except.toBool, Ring.take]
  cases req with
  | accept future =>
    by_cases hroom : core.HasRoom
    · simp only [request, submitAccept, Ring.prepAccept, hpush _ _ _ hroom, hroom, if_true, true_and]
      exact hsubmit (by simp)
    · simp [request, submitAccept, Ring.prepAccept, hfull _ _ _ hroom, hroom]
  | acceptMultishot =>
    by_cases hroom : core.HasRoom
    · simp only [request, submitAcceptMultishot, Ring.prepAcceptMultishot, hpush _ _ _ hroom, hroom,
        if_true, true_and]
      exact hsubmit (by simp)
    · simp [request, submitAcceptMultishot, Ring.prepAcceptMultishot, hfull _ _ _ hroom, hroom]
  | _ => cases hreq

theorem IssuesOne.cq {s t : UringCore F H T} {fd : Fd} {op : OpType} (h : s.IssuesOne fd op t) :
    t.ring.cq = s.ring.cq := by
  rcases h with hring | ⟨e, -, hcq, -⟩
  · rw [hring]
  · exact hcq

end UringCore

namespace EventLoop
variable {K T : Type}

def acceptFrames (s : EventLoop K T) : List Frame := s.stack.filter Frame.ofAccept

/-- The accepts that were submitted, by descriptor. -/
def acceptsIssued (s : EventLoop K T) : List Fd :=
  (s.issued.filter fun x => x.2.opType.accepts).map Prod.fst

/-- Nothing happens to an accept. -/
structure SameAccepts (s t : EventLoop K T) : Prop where
  frames : t.acceptFrames = s.acceptFrames
  issued : t.acceptsIssued = s.acceptsIssued
  results : t.results = s.results
  drained : t.drained = s.drained

/-! ## The methods that do nothing to an accept -/

namespace SameAccepts

variable {s t u : EventLoop K T}

theorem refl (s : EventLoop K T) : SameAccepts s s := ⟨rfl, rfl, rfl, rfl⟩

theorem trans (h : SameAccepts s t) (h' : SameAccepts t u) : SameAccepts s u where
  frames := h'.frames.trans h.frames
  issued := h'.issued.trans h.issued
  results := h'.results.trans h.results
  drained := h'.drained.trans h.drained

theorem of_eq (hstack : t.stack = s.stack) (hissued : t.issued = s.issued)
    (hresults : t.results = s.results) (hdrained : t.drained = s.drained) : SameAccepts s t where
  frames := by rw [acceptFrames, hstack, acceptFrames]
  issued := by rw [acceptsIssued, hissued, acceptsIssued]
  results := hresults
  drained := hdrained

/-- What changes before is something else. -/
theorem after (h : SameAccepts t u) (hstack : t.stack = s.stack) (hissued : t.issued = s.issued)
    (hresults : t.results = s.results) (hdrained : t.drained = s.drained) : SameAccepts s u :=
  (of_eq hstack hissued hresults hdrained).trans h

/-- The same frames on top. -/
theorem push (frames : List Frame) (h : SameAccepts s t) :
    SameAccepts { s with stack := frames ++ s.stack } { t with stack := frames ++ t.stack } where
  frames := by
    have hframes := h.frames
    simp only [acceptFrames, List.filter_append] at hframes ⊢
    rw [hframes]
  issued := h.issued
  results := h.results
  drained := h.drained

/-- The completions that wait are lost in both. -/
theorem lose (h : SameAccepts s t) : SameAccepts { s with results := [] } { t with results := [] } where
  frames := h.frames
  issued := h.issued
  results := rfl
  drained := h.drained

theorem callProtocol (e : TransportEvent) {frame : Frame} (s : EventLoop K T)
    (hframe : frame.ofAccept = false) : SameAccepts s (s.callProtocol e frame) where
  frames := by simp [acceptFrames, EventLoop.callProtocol, hframe]
  issued := rfl
  results := rfl
  drained := rfl

theorem setFuture (fut : FutId) (state : FutState) (s : EventLoop K T) :
    SameAccepts s (s.setFuture fut state) := by
  rw [setFuture_eq]
  exact .of_eq rfl rfl rfl rfl

theorem forceClose (cause : TransportEvent) (exc : Option Exc) (tr : TransportId) (s : EventLoop K T) :
    SameAccepts s (s.forceClose cause exc tr) := by
  unfold EventLoop.forceClose
  split
  · exact .refl s
  · split <;> exact .of_eq rfl rfl rfl rfl

theorem errorReceived (tr : TransportId) (exc : Exc) (s : EventLoop K T) :
    SameAccepts s (s.errorReceived tr exc) := forceClose _ _ _ s

/-- A request for anything else. -/
theorem request (env : Env) (fd : Fd) {req : Request FutId} (s : EventLoop K T)
    (hreq : req.opType.accepts = false) : SameAccepts s (s.request env fd req).1 where
  frames := rfl
  issued := by
    unfold EventLoop.request acceptsIssued
    dsimp only
    split <;> simp [hreq]
  results := rfl
  drained := rfl

theorem close (cause : TransportEvent) (env : Env) (tr : TransportId) (s : EventLoop K T) :
    SameAccepts s (s.close cause env tr) := by
  unfold EventLoop.close
  split
  · exact .refl s
  · dsimp only
    split
    · exact .of_eq rfl rfl rfl rfl
    · split
      · exact .of_eq rfl rfl rfl rfl
      · exact .after (.request env _ _ rfl) rfl rfl rfl rfl

theorem rearmRecv (env : Env) (tr : TransportId) (s : EventLoop K T) :
    SameAccepts s (s.rearmRecv env tr) := by
  unfold EventLoop.rearmRecv
  split
  · exact .refl s
  · rename_i t ht
    dsimp only
    split
    · exact .refl s
    · have hrequest : SameAccepts s (EventLoop.request env t.fd (.recv s.futs.length)
          (((s.modify tr (.setRecvPending true)).createFuture fun fut => [.onRecvComplete tr fut]).storeIo
            t.fd .recv s.futs.length)).1 := .after (.request env _ _ rfl) rfl rfl rfl rfl
      split
      · rename_i u hok
        rwa [hok] at hrequest
      · rename_i u e herror
        rw [herror] at hrequest
        exact hrequest.trans (after (errorReceived tr _ _) rfl rfl rfl rfl)

theorem onRecvComplete (tr : TransportId) (fut : FutId) (s : EventLoop K T) :
    SameAccepts s (s.onRecvComplete tr fut) := by
  unfold EventLoop.onRecvComplete
  split
  · exact .refl s
  · have hmodify : SameAccepts s (s.modify tr (.setRecvPending false)) := .of_eq rfl rfl rfl rfl
    dsimp only
    split
    · exact hmodify
    · split
      · exact hmodify.trans (errorReceived tr _ _)
      · split <;> exact hmodify.trans (callProtocol _ _ rfl)
      · exact hmodify
      · exact hmodify.trans (errorReceived tr _ _)
      · exact hmodify.trans (errorReceived tr _ _)

theorem afterData (env : Env) (tr : TransportId) (s : EventLoop K T) :
    SameAccepts s (s.afterData env tr) := by
  unfold EventLoop.afterData
  split
  · exact .refl s
  · split
    · exact .refl s
    · exact .rearmRecv env tr s

theorem sendCompleted (tr : TransportId) (result : Int) (handler : Bool) (s : EventLoop K T) :
    SameAccepts s (s.sendCompleted tr result handler) := by
  unfold EventLoop.sendCompleted
  split
  · exact .refl s
  · split
    · exact .refl s
    · dsimp only
      split
      · exact .after (.callProtocol _ _ rfl) rfl rfl rfl rfl
      · exact .of_eq rfl rfl rfl rfl

theorem onWriteComplete (tr : TransportId) (fut : FutId) (s : EventLoop K T) :
    SameAccepts s (s.onWriteComplete tr fut) := by
  unfold EventLoop.onWriteComplete
  split
  · exact .refl s
  · split
    · exact .refl s
    · split
      · exact .errorReceived tr _ s
      · exact .sendCompleted tr _ _ s
      · exact .errorReceived tr _ s
      · exact .refl s
      · exact .errorReceived tr _ s
      · exact .errorReceived tr _ s

theorem write (env : Env) (tr : TransportId) (data : Bytes) (s : EventLoop K T) :
    SameAccepts s (s.write env tr data) := by
  unfold EventLoop.write
  split
  · exact .refl s
  · rename_i t ht
    split
    · exact .refl s
    · have hrequest : SameAccepts s (EventLoop.request env t.fd (.send data s.futs.length)
          (s.createFuture fun fut => [.onWriteComplete tr fut])).1 :=
        .after (.request env _ _ rfl) rfl rfl rfl rfl
      dsimp only
      split
      · rename_i u msg hpanic
        rwa [hpanic] at hrequest
      · rename_i u e _ herror
        rw [herror] at hrequest
        exact hrequest.trans (errorReceived tr _ _)
      · rename_i u hok
        rw [hok] at hrequest
        refine hrequest.trans ?_
        split
        · exact .after (.callProtocol _ _ rfl) rfl rfl rfl rfl
        · exact .of_eq rfl rfl rfl rfl

theorem pauseReading (tr : TransportId) (s : EventLoop K T) : SameAccepts s (s.pauseReading tr) := by
  unfold EventLoop.pauseReading
  split
  · exact .refl s
  · split
    · exact .refl s
    · exact .of_eq rfl rfl rfl rfl

theorem resumeReading (env : Env) (tr : TransportId) (s : EventLoop K T) :
    SameAccepts s (s.resumeReading env tr) := by
  unfold EventLoop.resumeReading
  split
  · exact .refl s
  · split
    · exact .refl s
    · split
      · dsimp only
        split
        · exact .after (.rearmRecv env tr _) rfl rfl rfl rfl
        · exact .of_eq rfl rfl rfl rfl
      · exact .rearmRecv env tr s

theorem resolveIo (fd : Fd) (kind : IoKind) (state : FutState) (s : EventLoop K T) :
    SameAccepts s (s.resolveIo fd kind state) := by
  unfold EventLoop.resolveIo
  split
  · exact .after (.setFuture _ _ _) rfl rfl rfl rfl
  · exact .of_eq rfl rfl rfl rfl

theorem handleRecvCompletion (fd : Fd) (result : Int) (data : Option PyData) (s : EventLoop K T) :
    SameAccepts s (s.handleRecvCompletion fd result data) := by
  have hpop : SameAccepts s (s.popIo fd .recv) := .of_eq rfl rfl rfl rfl
  unfold EventLoop.handleRecvCompletion
  dsimp only
  split
  · split
    · exact hpop.trans (.setFuture _ _ _)
    · exact hpop
  · split
    · exact hpop.trans (.setFuture _ _ _)
    · split
      · split
        · exact hpop.trans (callProtocol _ _ rfl)
        · exact hpop.trans (errorReceived _ _ _)
      · exact hpop

theorem handleSendCompletion (fd : Fd) (result : Int) (s : EventLoop K T) :
    SameAccepts s (s.handleSendCompletion fd result) := by
  have hresolve := resolveIo fd .send (plainState result) s
  unfold EventLoop.handleSendCompletion
  dsimp only
  split
  · exact hresolve.trans (.sendCompleted _ _ _ _)
  · exact hresolve

theorem sockOp (env : Env) (socketType : Option String) (kind : IoKind) (k : K)
    (req : FutId → Request FutId) (fd : Fd) (s : EventLoop K T)
    (hreq : ∀ fut, (req fut).opType.accepts = false) :
    SameAccepts s (s.sockOp env socketType kind k req fd).1 := by
  unfold EventLoop.sockOp
  cases socketType with
  | none => exact .after (.request env _ _ (hreq _)) rfl rfl rfl rfl
  | some socketType => exact .after (.request env _ _ (hreq _)) rfl rfl rfl rfl

theorem cancel (fut : FutId) (s : EventLoop K T) : SameAccepts s (s.cancel fut) := by
  unfold EventLoop.cancel
  split
  · split
    · exact .setFuture _ _ s
    · exact .refl s
  · exact .refl s

end SameAccepts

/-! ## What the handlers of accepts do -/

/-- The factory that the handler of `r` calls. -/
def factoryFrame? (s : EventLoop K T) (r : ResultTuple) : Option Frame :=
  if 0 ≤ r.result && s.servers.contains r.fd then
    if r.opType = "accept" then some (.protocolFactory r.fd (clientFd r.result) false)
    else if r.opType = "accept_multi" then some (.protocolFactory r.fd (clientFd r.result) true)
    else none
  else none

/-- The handler's part in the making of a connection is to be followed by `frames`. -/
def framesAfter (s : EventLoop K T) (frame : Frame) (r : Return) : List Frame :=
  let rearm (listener : Fd) (multi : Bool) : List Frame := if multi then [] else [.rearmAccept listener]
  if r.escape?.isSome then [] else match frame, r with
  | .protocolFactory listener _ multi, .value _ =>
      [.connectionMade s.objs.length (.accepted listener multi)]
  | .protocolFactory listener _ multi, _ => rearm listener multi
  | .connectionMade _ (.accepted listener multi), _ => rearm listener multi
  | _, _ => []

/-- Only a factory that returns is followed by `connection_made`. -/
theorem mem_framesAfter {s : EventLoop K T} {frame : Frame} {r : Return} {tr : TransportId}
    {listener : Fd} {multi : Bool}
    (h : .connectionMade tr (.accepted listener multi) ∈ s.framesAfter frame r) :
    ∃ client truthy, frame = .protocolFactory listener client multi ∧ r = .value truthy ∧
      tr = s.objs.length := by
  unfold framesAfter at h
  dsimp only at h
  split at h
  · cases h
  · split at h
    · cases List.mem_singleton.mp h
      exact ⟨_, _, rfl, rfl, rfl⟩
    · split at h <;> simp at h
    · split at h <;> simp at h
    · cases h

section
variable {s t : EventLoop K T}

theorem handle_accepts (r : ResultTuple) (s : EventLoop K T) :
    SameAccepts { s with stack := (s.factoryFrame? r).toList ++ s.stack } (handle r s) := by
  have hnone (h : s.factoryFrame? r = none) (h' : SameAccepts s (handle r s)) :
      SameAccepts { s with stack := (s.factoryFrame? r).toList ++ s.stack } (handle r s) := by
    rw [h]
    exact h'
  -- only completions of accepts call a factory
  have hother (hop : r.opType ≠ "accept") (hmulti : r.opType ≠ "accept_multi") :
      s.factoryFrame? r = none := by
    simp [factoryFrame?, hop, hmulti]
  unfold handle at *
  split at *
  · rename_i hop
    exact hnone (hother (by simp [hop]) (by simp [hop])) (.handleRecvCompletion _ _ _ s)
  · rename_i hop
    exact hnone (hother (by simp [hop]) (by simp [hop])) (.handleRecvCompletion _ _ _ s)
  · rename_i hop
    exact hnone (hother (by simp [hop]) (by simp [hop])) (.handleSendCompletion _ _ s)
  · rename_i hop
    have hresolve := SameAccepts.resolveIo r.fd .accept (plainState r.result) s
    have hservers : (s.resolveIo r.fd .accept (plainState r.result)).servers = s.servers := by
      unfold resolveIo
      split
      · rw [setFuture_eq]
        rfl
      · rfl
    unfold handleAcceptCompletion factoryFrame?
    simp only [hservers, hop, if_true]
    split
    · exact hresolve.push [_]
    · exact hresolve
  · rename_i hop
    unfold handleAcceptMultiCompletion factoryFrame?
    simp only [hop]
    split <;> exact .refl _
  · rename_i hop
    exact hnone (hother (by simp [hop]) (by simp [hop])) (.resolveIo _ _ _ s)
  · rename_i hop
    exact hnone (hother (by simp [hop]) (by simp [hop])) (.resolveIo _ _ _ s)
  · rename_i hop
    exact hnone (hother (by simp [hop]) (by simp [hop])) (.of_eq rfl rfl rfl rfl)
  · rename_i hop hmulti _ _ _
    exact hnone (hother (by simpa using hop) (by simpa using hmulti)) (.refl s)

/-- What is no `Exception` leaves a method. -/
theorem escape_accepts (frame : Frame) {r : Return} {e : Escape} (hr : r.escape? = some e)
    (s : EventLoop K T) :
    SameAccepts { s with results := if frame.aborts r then [] else s.results } (s.escape frame e) := by
  have haborts : frame.aborts r = (frame.caller = .handler || frame.caller = .handle && e = .panic) := by
    cases r <;> cases hr <;> cases frame <;> simp [Frame.aborts, Frame.unwinds, Return.escape?]
  simp only [haborts]
  cases hcaller : frame.caller with
  | program =>
    simp only [escape, hcaller]
    exact .refl s
  | handler =>
    simp only [escape, hcaller]
    exact .refl _
  | handle =>
    cases e with
    | panic =>
      simp only [escape, hcaller]
      exact .of_eq rfl rfl rfl rfl
    | _ =>
      simp only [escape, hcaller]
      exact .refl s

/-- A call that ends with what is no `Exception`. -/
theorem resume_escape_accepts (env : Env) (frame : Frame) {r : Return} {e : Escape}
    (hr : r.escape? = some e) (s : EventLoop K T) :
    SameAccepts { s with results := if frame.aborts r then [] else s.results } (resume env frame r s) := by
  have hescape := escape_accepts frame hr s
  cases r with
  | escaped e' =>
    cases hr
    cases frame <;> exact hescape
  | closeEscaped e' =>
    obtain rfl : e' = e := Option.some_inj.mp hr
    cases frame with
    | eofReceived tr handler =>
      have hclose : SameAccepts s (s.close (.eofNotKept tr) env tr) := .close _ env tr s
      have hclosed := escape_accepts (.eofReceived tr handler) hr (s.close (.eofNotKept tr) env tr)
      refine ⟨hclosed.frames.trans hclose.frames, hclosed.issued.trans hclose.issued, ?_,
        hclosed.drained.trans hclose.drained⟩
      refine hclosed.results.trans ?_
      simp only [hclose.results]
    | _ => exact hescape
  | _ => cases hr

/-- A return into a frame. The transport of the frame exists. -/
theorem resume_accepts (env : Env) (frame : Frame) (r : Return) (s : EventLoop K T)
    (hmade : ∀ tr listener multi, frame = .connectionMade tr (.accepted listener multi) →
      tr < s.objs.length) :
    SameAccepts { s with
        stack := s.framesAfter frame r ++ s.stack
        results := if frame.aborts r then [] else s.results } (resume env frame r s) := by
  have hafter (listener : Fd) (multi : Bool) (u : EventLoop K T) (hu : SameAccepts s u) :
      SameAccepts { s with stack := (if multi then [] else [.rearmAccept listener]) ++ s.stack }
        (u.afterAccept listener multi) := by
    unfold afterAccept
    cases multi with
    | true => exact hu
    | false => exact hu.push [_]
  cases hescape : r.escape? with
  | some e =>
    have hnone : s.framesAfter frame r = [] := by simp [framesAfter, hescape]
    rw [hnone]
    exact resume_escape_accepts env frame hescape s
  | none =>
    rcases Return.caught_cases hescape with ⟨truthy, rfl⟩ | ⟨handlerRaises, rfl⟩ | ⟨exc, rfl⟩
    all_goals clear hescape
    · cases frame with
      | user => exact .refl s
      | resumeWriting tr handler => cases handler <;> exact .refl s
      | connectionLost tr => exact .refl s
      | rearmAccept listener => exact .refl s
      | dataReceived tr => exact .afterData env tr s
      | eofReceived tr handler =>
        cases truthy with
        | true => cases handler <;> exact .refl s
        | false => cases handler <;> exact .close _ env tr s
      | pauseWriting tr => exact .refl s
      | protocolFactory listener client multi => exact .of_eq rfl rfl rfl rfl
      | connectionMade tr creator =>
        cases creator with
        | connection => exact .rearmRecv env tr s
        | unixConnection => exact .resumeReading env tr s
        | accepted listener multi =>
          have hlt := hmade tr listener multi rfl
          simp only [resume, afterMade, List.getElem?_eq_getElem hlt]
          exact hafter listener multi _ (.after (.rearmRecv env tr _) rfl rfl rfl rfl)
    · cases frame with
      | user => exact .refl s
      | resumeWriting tr handler => cases handler <;> exact .refl s
      | connectionLost tr => exact .refl s
      | rearmAccept listener => exact .refl s
      | dataReceived tr =>
        cases handlerRaises with
        | true => exact .errorReceived tr _ s
        | false => exact .afterData env tr s
      | eofReceived tr handler =>
        cases handlerRaises with
        | true =>
          cases handler with
          | true => exact .refl _
          | false => exact .errorReceived tr _ s
        | false => cases handler <;> exact .close _ env tr s
      | pauseWriting tr => exact .errorReceived tr _ s
      | protocolFactory listener client multi => exact hafter listener multi s (.refl s)
      | connectionMade tr creator =>
        cases creator with
        | connection => exact .refl s
        | unixConnection => exact .refl s
        | accepted listener multi => exact hafter listener multi s (.refl s)
    · cases frame with
      | user => exact .refl s
      | resumeWriting tr handler => cases handler <;> exact .refl s
      | connectionLost tr => exact .refl s
      | rearmAccept listener => exact .refl s
      | dataReceived tr => exact .afterData env tr s
      | eofReceived tr handler =>
        have hclose : SameAccepts s (s.close (.eofNotKept tr) env tr) := .close _ env tr s
        cases handler with
        | true => exact hclose.lose
        | false => exact hclose.trans (.errorReceived tr exc _)
      | pauseWriting tr => exact .errorReceived tr _ s
      | protocolFactory listener client multi => exact hafter listener multi s (.refl s)
      | connectionMade tr creator =>
        cases creator with
        | connection => exact .refl s
        | unixConnection => exact .refl s
        | accepted listener multi => exact hafter listener multi s (.refl s)

/-- An accept is submitted if the queue has room. -/
theorem acceptsIssued_request (env : Env) (fd : Fd) (req : Request FutId) (s : EventLoop K T)
    (hreq : req.opType.accepts = true) : (s.request env fd req).1.acceptsIssued =
      s.acceptsIssued ++ if s.core.HasRoom then [fd] else [] := by
  have htail := (UringCore.request_accept s.core env.now env.enter fd req hreq).1
  unfold EventLoop.request acceptsIssued
  simp only [htail]
  by_cases hroom : s.core.HasRoom <;> simp [hroom, hreq]

/-- The listener is armed again. What is left of the results is lost when the core refuses. -/
theorem rearmAccept_accepts (env : Env) (listener : Fd) (s : EventLoop K T) :
    (rearmAccept env listener s).acceptFrames = s.acceptFrames ∧
      (rearmAccept env listener s).acceptsIssued =
        s.acceptsIssued ++ (if s.core.HasRoom then [listener] else []) ∧
      (rearmAccept env listener s).results =
        (if s.core.HasRoom ∧ env.enter.isOk then s.results else []) ∧
      (rearmAccept env listener s).drained = s.drained := by
  have hissued := acceptsIssued_request env listener (.accept s.futs.length)
    ((s.createFuture fun _ => []).storeIo listener .accept s.futs.length) rfl
  have hok := (UringCore.request_accept s.core env.now env.enter listener
    (.accept s.futs.length) rfl).2
  have hkept : ∀ answer, EventLoop.request env listener (.accept s.futs.length)
      ((s.createFuture fun _ => []).storeIo listener .accept s.futs.length) = answer →
      answer.2 = (s.core.request env.now env.enter listener (.accept s.futs.length)).2 ∧
        answer.1.stack = s.stack ∧ answer.1.results = s.results ∧ answer.1.drained = s.drained := by
    rintro answer rfl
    exact ⟨rfl, rfl, rfl, rfl⟩
  unfold rearmAccept
  dsimp only
  generalize EventLoop.request env listener (.accept s.futs.length)
    ((s.createFuture fun _ => []).storeIo listener .accept s.futs.length) = answer at hissued hkept
  obtain ⟨hanswer, hstack, hresults, hdrained⟩ := hkept answer rfl
  rw [← hanswer] at hok
  rcases answer with ⟨u, (e | ok)⟩
  · have hrefused : ¬ (s.core.HasRoom ∧ env.enter.isOk) := by
      rw [← hok]
      simp
    exact ⟨congrArg (List.filter _) hstack, hissued, (if_neg hrefused).symm, hdrained⟩
  · have haccepted : s.core.HasRoom ∧ env.enter.isOk := hok.mp rfl
    exact ⟨congrArg (List.filter _) hstack, hissued, hresults.trans (if_pos haccepted).symm, hdrained⟩

/-! ## Steps -/

theorem call_accepts (env : Env) {c : Call K} (s : EventLoop K T) (hc : c.arms = false) :
    SameAccepts s (s.call env c) := by
  cases c with
  | write tr data => exact .write env tr data s
  | close tr => exact .close _ env tr s
  | abort tr => exact .forceClose _ _ tr s
  | pauseReading tr => exact .pauseReading tr s
  | resumeReading tr => exact .resumeReading env tr s
  | setWriteBufferLimits tr high low => exact .of_eq rfl rfl rfl rfl
  | createConnection fd => exact .after (.callProtocol _ _ rfl) rfl rfl rfl rfl
  | createUnixConnection fd => exact .after (.callProtocol _ _ rfl) rfl rfl rfl rfl
  | newTransport fd => exact .of_eq rfl rfl rfl rfl
  | closeServer fd => exact .of_eq rfl rfl rfl rfl
  | sockRecv fd k => exact .sockOp env _ _ k .recv fd s fun _ => rfl
  | sockSendall fd data k =>
    show SameAccepts s (s.sockSendall env data k fd)
    unfold sockSendall
    split
    · exact .refl s
    · exact .sockOp env _ _ k (.send data) fd s fun _ => rfl
  | sockRecvfrom fd k => exact .sockOp env _ _ k .recvfrom fd s fun _ => rfl
  | sockSendto fd data addr k =>
    have hop := SameAccepts.sockOp env none .sendmsg k (.sendto data addr) fd s fun _ => rfl
    show SameAccepts s (s.sockSendto env data addr k fd)
    unfold sockSendto
    split
    · rename_i u hok
      rwa [hok] at hop
    · rename_i u e herror
      rw [herror] at hop
      exact hop.trans (.of_eq rfl rfl rfl rfl)
  | sendtoFailed fd => exact .of_eq rfl rfl rfl rfl
  | recvMultishot fd k => exact .after (.request env _ _ rfl) rfl rfl rfl rfl
  | closeSock fd => exact .refl s
  | cancel fut => exact .cancel fut s
  | sockAccept fd k => cases hc
  | createServer unix startServing fd => cases hc

theorem sockAccept_accepts (env : Env) (k : K) (fd : Fd) (s : EventLoop K T) :
    (s.sockAccept env k fd).1.acceptFrames = s.acceptFrames ∧
      (s.sockAccept env k fd).1.acceptsIssued =
        s.acceptsIssued ++ (if s.core.HasRoom then [fd] else []) ∧
      (s.sockAccept env k fd).1.results = s.results ∧ (s.sockAccept env k fd).1.drained = s.drained :=
  ⟨rfl, acceptsIssued_request env fd (.accept s.futs.length) _ rfl, rfl, rfl⟩

theorem execute_accepts (h : Handle K) (s : EventLoop K T) : SameAccepts s (execute h s) := by
  cases h with
  | onRecvComplete tr fut => exact .onRecvComplete tr fut s
  | onWriteComplete tr fut => exact .onWriteComplete tr fut s
  | callConnectionLost tr exc => exact .callProtocol _ s rfl
  | user k => exact ⟨rfl, rfl, rfl, rfl⟩

section
variable [LE T] [DecidableLE T] {a : Act K T}

omit [LE T] [DecidableLE T] in
/-- What the handlers get from a tick. -/
theorem processAll_seen (cqes : List Cqe) (core : UringCore FutId (Handle K) T) :
    ((UringCore.processAll (cqes.map Cqe.entry) core).2.map (·.1.tuple)).map
      (fun r => (r.fd, r.opType, r.result)) = cqes.map Cqe.seen := by
  have hitems := congrArg (List.map fun x : Fd × OpType × Int => (x.1, x.2.1.asStr, x.2.2))
    (UringCore.processAll_items cqes core)
  rw [List.map_map, List.map_map] at hitems
  rw [List.map_map]
  exact hitems

/-- A tick that gets to the completions leaves all of them to their handlers. -/
theorem startTick_accepts (clock : T) (enter : Except String Nat) (hidle : s.idle = true) :
    (s.startTick clock enter).acceptFrames = s.acceptFrames ∧
      (s.startTick clock enter).acceptsIssued = s.acceptsIssued ∧
      (if s.core.Flushes enter then (s.startTick clock enter).drained = s.drained ++ s.core.ring.cq ∧
          (s.startTick clock enter).results.map (fun r => (r.fd, r.opType, r.result)) =
            s.core.ring.cq.map Cqe.seen
        else (s.startTick clock enter).drained = s.drained ∧
          (s.startTick clock enter).results = s.results) := by
  simp only [idle, Bool.and_eq_true, List.isEmpty_iff] at hidle
  cases hsubmit : (s.core.ring.submit enter).2 with
  | error e =>
    have hflushes : ¬ s.core.Flushes enter := by simp [UringCore.Flushes, hsubmit, Except.isOk, Except.toBool]
    rw [if_neg hflushes, startTick_error hsubmit]
    exact ⟨rfl, rfl, rfl, rfl⟩
  | ok n =>
    have hflushes : s.core.Flushes enter := by simp [UringCore.Flushes, hsubmit, Except.isOk, Except.toBool]
    have hcq : (s.core.ring.submit enter).1.cq = s.core.ring.cq := Ring.cq_submit enter s.core.ring
    rw [if_pos hflushes, startTick_ok hsubmit hidle.2]
    dsimp only
    rw [drainAll_eq s.core.ring.cq _ hcq]
    refine ⟨rfl, rfl, rfl, ?_⟩
    show (s.results ++ _).map _ = _
    rw [hidle.2, List.nil_append]
    exact processAll_seen _ _

/-- The frames of connections that are being made have their transports. -/
def FramesMade (s : EventLoop K T) : Prop :=
  ∀ tr listener multi, .connectionMade tr (.accepted listener multi) ∈ s.stack → tr < s.objs.length

/-- The steps that do nothing to an accept. -/
def Act.quietForAccepts : Act K T → Bool
  | .consume _ | .complete .. | .callSoon _ | .runHandle => true
  | .call c _ => !c.arms
  | .startTick .. | .handleCompletion | .ret .. | .rearmAccept _ => false

theorem step_quiet (h : s.step a = some t) (ha : a.quietForAccepts = true) : SameAccepts s t := by
  cases a with
  | consume n =>
    cases h
    exact .of_eq rfl rfl rfl rfl
  | complete i payload select more =>
    obtain ⟨core, hcore, rfl⟩ := Option.map_eq_some_iff.mp h
    exact .of_eq rfl rfl rfl rfl
  | callSoon k =>
    cases h
    exact .of_eq rfl rfl rfl rfl
  | runHandle =>
    obtain ⟨_, rest, -, -, rfl⟩ := step_runHandle.mp h
    exact .after (execute_accepts _ _) rfl rfl rfl rfl
  | call c env =>
    obtain ⟨-, rfl⟩ := step_call.mp h
    exact call_accepts env s (by simpa [Act.quietForAccepts] using ha)
  | _ => cases ha

theorem step_handleCompletion (h : s.step .handleCompletion = some t) : ∃ r rest,
    s.results = r :: rest ∧ s.stack = [] ∧
      SameAccepts { s with results := rest, stack := (s.factoryFrame? r).toList } t := by
  obtain ⟨r, rest, hstack, -, hresults, rfl⟩ := step_handle.mp h
  have hframes : (s.factoryFrame? r).toList = (s.factoryFrame? r).toList ++ s.stack := by
    rw [hstack, List.append_nil]
  refine ⟨r, rest, hresults, hstack, ?_⟩
  rw [hframes]
  exact handle_accepts r { s with results := rest }

theorem step_ret {r : Return} {env : Env} (h : s.step (.ret r env) = some t) (hmade : s.FramesMade) :
    ∃ frame rest, s.stack = frame :: rest ∧ t = resume env frame r { s with stack := rest } ∧
      SameAccepts { s with
        stack := s.framesAfter frame r ++ rest
        results := if frame.aborts r then [] else s.results } t := by
  simp only [step] at h
  split at h
  · cases h
  · cases h
  · rename_i frame rest _ hstack
    cases (Option.ite_none_right_eq_some.mp h).2
    refine ⟨frame, rest, hstack, rfl, resume_accepts env frame r { s with stack := rest } ?_⟩
    intro tr listener multi hframe
    apply hmade tr listener multi
    rw [hstack, hframe]
    exact List.mem_cons_self

theorem step_rearmAccept {env : Env} (h : s.step (.rearmAccept env) = some t) :
    ∃ listener rest, s.stack = .rearmAccept listener :: rest ∧
      t.acceptFrames = rest.filter Frame.ofAccept ∧
      t.acceptsIssued = s.acceptsIssued ++ (if s.core.HasRoom then [listener] else []) ∧
      t.results = (if s.core.HasRoom ∧ env.enter.isOk then s.results else []) ∧
      t.drained = s.drained := by
  simp only [step] at h
  split at h
  · rename_i listener rest hstack
    cases h
    exact ⟨listener, rest, hstack, rearmAccept_accepts env listener { s with stack := rest }⟩
  · cases h

/-! ## No accept is lost -/

/-- Every accept that was submitted is in flight or has its last completion. -/
def AcceptsKept (s : EventLoop K T) : Prop := ∀ fd, s.acceptsIssued.count fd =
  s.core.ring.inFlight.countP (Sqe.acceptsOn fd) +
    (s.core.ring.cq ++ s.drained).countP (Cqe.endsAccept fd)

omit [LE T] [DecidableLE T] in
theorem AcceptsKept.request (h : s.AcceptsKept) (hs : s.CoreSound) (env : Env) (fd : Fd)
    (req : Request FutId) : (s.request env fd req).1.AcceptsKept := by
  intro fd'
  have hspec : s.core.Submission env.enter fd req _ := UringCore.request_spec hs.sound env.now req
  have hone : s.core.IssuesOne fd req.opType (s.core.request env.now env.enter fd req).1 :=
    UringCore.request_issuesOne env.now req
  have heq : (s.request env fd req).1 = { s with
      core := (s.core.request env.now env.enter fd req).1
      issued := s.issued ++
        if (s.core.request env.now env.enter fd req).1.ring.tail = s.core.ring.tail then []
        else [(fd, req)] } := rfl
  have hkept := h fd'
  rw [heq]
  rcases hspec.ring_cases with hring | ⟨op, e, hissued⟩
  · rw [hring, if_pos rfl, List.append_nil]
    exact hkept
  · have htail : (s.core.request env.now env.enter fd req).1.ring.tail ≠ s.core.ring.tail := by
      rw [hissued.tail]
      exact Nat.succ_ne_self _
    have hop : e.op.opType = req.opType := by
      rcases hone with hring | ⟨e', hinFlight, -, -, hop, -⟩
      · exact absurd (congrArg Ring.tail hring) htail
      · have hsingle : [e] = [e'] := List.append_cancel_left (hissued.inFlight.symm.trans hinFlight)
        rw [List.singleton_inj.mp hsingle, hop]
    have hcount : (({ s with issued := s.issued ++ [(fd, req)] } : EventLoop K T).acceptsIssued).count fd' =
        s.acceptsIssued.count fd' + if e.acceptsOn fd' then 1 else 0 := by
      simp only [acceptsIssued, List.filter_append, List.map_append, List.count_append, Sqe.acceptsOn,
        hissued.fd_eq, hop]
      by_cases haccepts : req.opType.accepts <;> by_cases hfd : fd = fd' <;> simp [haccepts, hfd]
    rw [if_neg htail]
    show (({ s with issued := s.issued ++ [(fd, req)] } : EventLoop K T).acceptsIssued).count fd' =
      List.countP _ (s.core.request env.now env.enter fd req).1.ring.inFlight +
        List.countP _ ((s.core.request env.now env.enter fd req).1.ring.cq ++ s.drained)
    rw [hcount, hissued.inFlight, hissued.cq, List.countP_append, List.countP_singleton, hkept]
    omega

theorem AcceptsKept.move {s₀ : EventLoop K T} (h : s.AcceptsKept) (hs : s.CoreSound)
    (hmove : Move s₀ a s t) : t.AcceptsKept := by
  cases hmove.issue hs with
  | calm hcalm =>
    intro fd
    rw [acceptsIssued, hcalm.issued, hcalm.core.inFlight, hcalm.core.cq, hcalm.drained]
    exact h fd
  | completed ha hcomplete ht =>
    obtain ⟨c, -, -, -, -, hc⟩ := UringCore.complete_spec hcomplete
    intro fd
    have hkept := h fd
    have hflight := hc.inFlight
    rw [ht]
    show s.acceptsIssued.count fd = List.countP _ _ + List.countP _ (_ ++ s.drained)
    rw [hc.cq]
    simp only [List.countP_append, List.countP_singleton] at hkept ⊢
    -- an accept that has more to come is still in flight
    split at hflight
    · rename_i hmore
      have hends : c.endsAccept fd = false := by simp [Cqe.endsAccept, hmore]
      rw [hflight, hends]
      simpa using hkept
    · rename_i hmore
      have hends : c.endsAccept fd = c.sqe.acceptsOn fd := by simp [Cqe.endsAccept, hmore]
      have hperm := hflight.2.countP_eq (Sqe.acceptsOn fd)
      rw [List.countP_cons] at hperm
      rw [hends]
      omega
  | new env fd kind? callbacks req objs hfuture hkind hsend ht =>
    rw [ht]
    have hstored : AcceptsKept (s.submitNew env fd kind? callbacks req).1 := by
      unfold submitNew
      cases kind? with
      | none => exact request (s := s.createFuture callbacks) h ⟨hs.sound, hs.timers⟩ env fd _
      | some kind =>
        exact request (s := (s.createFuture callbacks).storeIo fd kind s.futs.length) h
          ⟨hs.sound, hs.timers⟩ env fd _
    intro fd'
    rw [submitNew_eq]
    have hkept := hstored fd'
    rw [submitNew_eq] at hkept
    exact hkept
  | close env fd ht =>
    rw [ht]
    exact h.request hs env fd .close
  | drained hticks hmidway hcq ht =>
    rename_i pre c cs
    intro fd
    have hkept := h fd
    rw [hcq] at hkept
    rw [ht, drainOne_eq]
    show s.acceptsIssued.count fd = (s.core.processNext c cs).ring.inFlight.countP _ +
      ((s.core.processNext c cs).ring.cq ++ (s.drained ++ [c])).countP _
    rw [UringCore.processNext_eq]
    simp only [List.countP_append, List.countP_cons, List.countP_nil, List.cons_append] at hkept ⊢
    rw [hkept]
    show _ = List.countP _ s.core.ring.inFlight + _
    omega

/-- A single accept completes once. -/
def AcceptsOnce (s : EventLoop K T) : Prop :=
  ∀ c ∈ s.core.ring.cq ++ s.drained, c.sqe.op.opType = .accept → c.more = false

theorem AcceptsOnce.move {s₀ : EventLoop K T} (h : s.AcceptsOnce) (hs : s.CoreSound)
    (hmove : Move s₀ a s t) : t.AcceptsOnce := by
  cases hmove.issue hs with
  | calm hcalm =>
    unfold AcceptsOnce
    rw [hcalm.core.cq, hcalm.drained]
    exact h
  | completed ha hcomplete ht =>
    obtain ⟨c, -, -, -, -, hc⟩ := UringCore.complete_spec hcomplete
    intro c' hc' hop
    rw [ht] at hc'
    have hc' : c' ∈ (s.core.ring.cq ++ [c]) ++ s.drained := hc.cq ▸ hc'
    rcases List.mem_append.mp hc' with hc' | hc'
    · rcases List.mem_append.mp hc' with hc' | hc'
      · exact h c' (List.mem_append_left _ hc') hop
      · obtain rfl := List.mem_singleton.mp hc'
        have hadmits := hc.admits
        -- the kernel answers an operation with its own kind of payload
        cases hkind : c'.sqe.op <;> cases hpayload : c'.payload <;>
          simp_all [SqeOp.admits, SqeOp.opType]
    · exact h c' (List.mem_append_right _ hc') hop
  | new env fd kind? callbacks req objs hfuture hkind hsend ht =>
    have hone : s.core.IssuesOne fd (req s.futs.length).opType
        (s.core.request env.now env.enter fd (req s.futs.length)).1 :=
      UringCore.request_issuesOne env.now (req s.futs.length)
    unfold AcceptsOnce
    rw [ht, submitNew_eq]
    show ∀ c ∈ (s.core.request env.now env.enter fd (req s.futs.length)).1.ring.cq ++ s.drained, _
    rw [hone.cq]
    exact h
  | close env fd ht =>
    have hone : s.core.IssuesOne fd .close (s.core.request env.now env.enter fd .close).1 :=
      UringCore.request_issuesOne env.now .close
    unfold AcceptsOnce
    rw [ht]
    show ∀ c ∈ (s.core.request env.now env.enter fd .close).1.ring.cq ++ s.drained, _
    rw [hone.cq]
    exact h
  | drained hticks hmidway hcq ht =>
    rename_i pre c cs
    intro c' hc' hop
    apply h c' _ hop
    rw [ht, drainOne_eq] at hc'
    have hc' : c' ∈ cs ++ (s.drained ++ [c]) := by
      rwa [UringCore.processNext_eq] at hc'
    rw [hcq]
    simp only [List.mem_append, List.mem_cons, List.not_mem_nil, or_false] at hc' ⊢
    rcases hc' with hc' | hc' | rfl
    · exact .inl (.inr hc')
    · exact .inr hc'
    · exact .inl (.inl rfl)

/-- What every step keeps of the accepts. -/
structure AcceptsSound (s : EventLoop K T) : Prop where
  core : s.CoreSound
  tied : s.ResultsTied
  kept : s.AcceptsKept
  once : s.AcceptsOnce
  made : s.FramesMade

omit [LE T] [DecidableLE T] in
theorem acceptsSound_init {setup : Setup} {bufferSize bufferCount : Nat}
    {core : UringCore FutId (Handle K) T}
    (hnew : UringCore.new setup bufferSize bufferCount = .ok core) : (init core).AcceptsSound := by
  have hcore := coreSound_init hnew
  rcases UringCore.new_spec hnew with ⟨entries, pool, -, rfl⟩
  refine ⟨hcore, resultsTied_init _, fun fd => rfl, ?_, ?_⟩
  · intro c hc
    cases hc
  · intro tr listener multi hframe
    cases hframe

/-- Transports are never given up. -/
theorem Moves.objs_length {s₀ : EventLoop K T} (h : Moves s₀ a s t) : s.objs.length ≤ t.objs.length := by
  refine h.rule (I := fun u => s.objs.length ≤ u.objs.length) (fun u v hu hmove => hu.trans ?_) (Nat.le_refl _)
  obtain ⟨new, hnew, -⟩ := hmove.sockets
  have hlength := congrArg List.length hnew
  simp only [EventLoop.sockets, List.length_append, List.length_map] at hlength
  omega

omit [LE T] [DecidableLE T] in
theorem FramesMade.mono (h : s.FramesMade) (hframes : ∀ frame ∈ t.acceptFrames, frame ∈ s.acceptFrames)
    (hobjs : s.objs.length ≤ t.objs.length) : t.FramesMade := by
  intro tr listener multi hframe
  have hmem := hframes _ (List.mem_filter.mpr ⟨hframe, rfl⟩)
  exact Nat.lt_of_lt_of_le (h tr listener multi (List.mem_filter.mp hmem).1) hobjs

/-- What is made of moves keeps everything but the frames. -/
theorem AcceptsSound.moves {s₀ : EventLoop K T} (h : s.AcceptsSound) (hmoves : Moves s₀ a s t)
    (hmade : t.FramesMade) : t.AcceptsSound := by
  have hkept := hmoves.rule (I := fun u => u.CoreSound ∧ u.ResultsTied ∧ u.AcceptsKept ∧ u.AcceptsOnce)
    (fun u v ⟨hs, htied, hkept, honce⟩ hmove =>
      ⟨hs.move hmove, htied.move hs hmove, hkept.move hs hmove, honce.move hs hmove⟩)
    ⟨h.core, h.tied, h.kept, h.once⟩
  exact ⟨hkept.1, hkept.2.1, hkept.2.2.1, hkept.2.2.2, hmade⟩

/-- The `connection_made` of an accepted connection is called where the factory has returned, in no
other step. -/
theorem connectionMade_mem {tr : TransportId} {listener : Fd} {multi : Bool} (h : s.FramesMade)
    (hstep : s.step a = some t)
    (hframe : .connectionMade tr (.accepted listener multi) ∈ t.stack) :
    a ≠ .handleCompletion ∧ (.connectionMade tr (.accepted listener multi) ∈ s.stack ∨
      ∃ client rest, s.stack = .protocolFactory listener client multi :: rest ∧ tr = s.objs.length ∧
        t = makeConnection client (.accepted listener multi) { s with stack := rest }) := by
  have hmem : Frame.connectionMade tr (.accepted listener multi) ∈ t.acceptFrames :=
    List.mem_filter.mpr ⟨hframe, rfl⟩
  have hkept (ha : a ≠ .handleCompletion) (hframes : t.acceptFrames = s.acceptFrames) :
      a ≠ .handleCompletion ∧ (.connectionMade tr (.accepted listener multi) ∈ s.stack ∨
        ∃ client rest, s.stack = .protocolFactory listener client multi :: rest ∧
          tr = s.objs.length ∧
          t = makeConnection client (.accepted listener multi) { s with stack := rest }) :=
    ⟨ha, .inl (List.mem_filter.mp (hframes ▸ hmem)).1⟩
  by_cases hquiet : a.quietForAccepts
  · exact hkept (by rintro rfl; cases hquiet) (step_quiet hstep hquiet).frames
  cases a with
  | startTick clock enter =>
    obtain ⟨hidle, rfl⟩ := step_startTick.mp hstep
    exact hkept (by rintro ⟨⟩) (startTick_accepts clock enter hidle).1
  | handleCompletion =>
    obtain ⟨r, rest, -, -, hsame⟩ := step_handleCompletion hstep
    rw [hsame.frames] at hmem
    simp only [acceptFrames, List.mem_filter, Option.mem_toList, factoryFrame?] at hmem
    split at hmem
    · split at hmem
      · simp at hmem
      · split at hmem <;> simp at hmem
    · simp at hmem
  | ret r env =>
    obtain ⟨frame, rest, hstack, ht, hsame⟩ := step_ret hstep h
    refine ⟨by rintro ⟨⟩, ?_⟩
    rw [hsame.frames] at hmem
    rcases List.mem_append.mp (List.mem_filter.mp hmem).1 with hmem | hmem
    · obtain ⟨client, truthy, rfl, rfl, rfl⟩ := mem_framesAfter hmem
      exact .inr ⟨client, rest, hstack, rfl, ht⟩
    · -- the frames below were there before
      rw [hstack]
      exact .inl (List.mem_cons_of_mem _ hmem)
  | rearmAccept env =>
    obtain ⟨listener', rest, hstack, hframes, -⟩ := step_rearmAccept hstep
    refine ⟨by rintro ⟨⟩, .inl ?_⟩
    rw [hframes] at hmem
    rw [hstack]
    exact List.mem_cons_of_mem _ (List.mem_filter.mp hmem).1
  | call c env =>
    obtain ⟨-, rfl⟩ := step_call.mp hstep
    refine hkept (by rintro ⟨⟩) ?_
    cases c with
    | sockAccept fd k => exact (sockAccept_accepts env k fd s).1
    | createServer unix startServing fd => cases unix <;> cases startServing <;> rfl
    | _ => exact absurd rfl hquiet
  | _ => exact absurd rfl hquiet

theorem FramesMade.step (h : s.FramesMade) (hstep : s.step a = some t) : t.FramesMade := by
  intro tr listener multi hframe
  rcases (connectionMade_mem h hstep hframe).2 with hold | ⟨client, rest, -, rfl, rfl⟩
  · exact Nat.lt_of_lt_of_le (h tr listener multi hold) (step_moves hstep).objs_length
  · show s.objs.length < (s.objs ++ [_]).length
    rw [List.length_append]
    exact Nat.lt_succ_self _

theorem AcceptsSound.step (h : s.AcceptsSound) (hstep : s.step a = some t) : t.AcceptsSound :=
  h.moves (step_moves hstep) (h.made.step hstep)

end

end

end EventLoop

end Uringcore
