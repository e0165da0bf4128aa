import Uringcore.EventLoop.Awaited
import Uringcore.EventLoop.Counted

/-!
# The descriptor of a completion

Every table of the loop and of the core has the descriptor as its only key, and the generation in
`user_data` is the same for all registrations of one descriptor. So when a number is used again for
another connection, a completion of the first one finds what the second one has stored.

`Registrations` counts, beside the loop, how often a descriptor was registered again, and keeps the
registration that each operation was submitted and each entry was stored under. `Isolated` is the
promise: a completion takes nothing that belongs to a later registration. `KeepsApart` says which steps
keep it: nothing is stored where an operation of an earlier registration is still going to look.
-/

namespace Uringcore

/-- An entry of a table that a completion takes something out of. -/
inductive Slot where
  /-- `futures` of the core. -/
  | future (fd : Fd)
  /-- `inflight_recv_buffers`. -/
  | recvBuffer (fd : Fd)
  | recvmsgState (fd : Fd)
  | sendmsgState (fd : Fd)
  /-- `_io_futures`. -/
  | ioFuture (fd : Fd) (kind : IoKind)
  /-- `_transports`. -/
  | transport (fd : Fd)
  /-- `fd_states`. -/
  | fdState (fd : Fd)
  deriving DecidableEq, Repr

def Slot.fd : Slot → Fd
  | future fd | recvBuffer fd | recvmsgState fd | sendmsgState fd | ioFuture fd _ | transport fd
  | fdState fd => fd

/-- The entries that `run_tick` takes when it processes a completion. -/
def OpType.tickSlots (op : OpType) (fd : Fd) : List Slot :=
  .future fd :: match op with
    | .recv => [.recvBuffer fd]
    | .recvMsg => [.recvBuffer fd, .recvmsgState fd]
    | .sendMsg => [.sendmsgState fd]
    | _ => []

/-- The entries that the handler of a completion takes. -/
def OpType.handlerSlots (op : OpType) (fd : Fd) : List Slot :=
  match op with
  | .recv | .recvMulti => [.ioFuture fd .recv]
  | .send => [.ioFuture fd .send]
  | .accept => [.ioFuture fd .accept]
  | .recvMsg => [.ioFuture fd .recvmsg]
  | .sendMsg => [.ioFuture fd .sendmsg]
  | .close => [.transport fd, .fdState fd, .recvBuffer fd]
  | _ => []

namespace OpType

theorem fd_of_tickSlots {op : OpType} {fd : Fd} {slot : Slot} (h : slot ∈ op.tickSlots fd) :
    slot.fd = fd := by
  cases op <;> simp [tickSlots] at h <;> rcases h with rfl | rfl | rfl <;> rfl

theorem recvBuffer_mem_tickSlots {op : SqeOp} (h : op.isRecv = true) (fd : Fd) :
    .recvBuffer fd ∈ op.opType.tickSlots fd := by
  cases op with
  | recv buf len => exact List.mem_cons_of_mem _ List.mem_cons_self
  | recvMsg msg buf len => exact List.mem_cons_of_mem _ List.mem_cons_self
  | _ => cases h

theorem fd_of_handlerSlots {op : OpType} {fd : Fd} {slot : Slot} (h : slot ∈ op.handlerSlots fd) :
    slot.fd = fd := by
  cases op <;> simp [handlerSlots] at h <;> rcases h with rfl | rfl | rfl <;> rfl

end OpType

namespace EventLoop
variable {K T : Type}

/-! ## Registrations -/

/-- What is in the slot: the future, the buffer, the address of the message state, the transport; for
a state of the descriptor only that it is there. -/
def entry (s : EventLoop K T) : Slot → Option Nat
  | .future fd => s.core.futures.lookup fd
  | .recvBuffer fd => (s.core.inflightRecvBuffers.lookup fd).map UInt16.toNat
  | .recvmsgState fd => (s.core.recvmsgStates.lookup fd).map RecvMsgState.ptr
  | .sendmsgState fd => (s.core.sendmsgStates.lookup fd).map SendMsgState.ptr
  | .ioFuture fd kind => s.ioLookup fd kind
  | .transport fd => s.transports.lookup fd
  | .fdState fd => (s.core.fdStates.states.lookup fd).map fun _ => 0

/-- The descriptor that the step calls `register_fd` for. -/
def registers? (s : EventLoop K T) : Act K T → Option Fd
  | .call (.createConnection fd) _ | .call (.createUnixConnection fd) _
  | .call (.createServer _ _ fd) _ | .call (.sockRecv fd _) _ | .call (.sockAccept fd _) _
  | .call (.sockRecvfrom fd _) _ => some fd
  | .call (.sockSendall fd data _) _ => if data.isEmpty then none else some fd
  | .ret (.value _) _ => match s.stack with
    | .connectionMade tr (.accepted _ _) :: _ => (s.objs[tr]?).map Transport.fd
    | _ => none
  | _ => none

/-- The descriptor that the step begins to use for a connection: an accepted one has its transport
before it is registered. -/
def connects? (s : EventLoop K T) : Act K T → Option Fd
  | .ret (.value truthy) env => match s.stack with
    | .protocolFactory _ client _ :: _ => some client
    | _ => s.registers? (.ret (.value truthy) env)
  | a => s.registers? a

/-- The descriptor of the socket that `close` closes. -/
def closesSock? (s : EventLoop K T) (tr : TransportId) : Option Fd :=
  (s.objs[tr]?).bind fun t => if t.closing || !t.hasSock then none else some t.fd

/-- The descriptor that the step closes or unregisters, or that the kernel gives out for a new
connection. -/
def ends? (s : EventLoop K T) : Act K T → Option Fd
  | .complete i payload _ _ => match s.core.ring.kernel[i]? with
    | some e => match e.op, payload with
      | .close, .count _ => some e.fd
      | .accept, .count client | .acceptMulti, .count client => some (clientFd client)
      | _, _ => none
    | none => none
  | .handleCompletion => match s.results with
    | r :: _ => if r.opType = "close" then some r.fd else none
    | [] => none
  | .ret r _ => match s.stack, r with
    | .eofReceived tr _ :: _, .value false | .eofReceived tr _ :: _, .raised false
    | .eofReceived tr _ :: _, .closeRaised _ | .eofReceived tr _ :: _, .closeEscaped _ => s.closesSock? tr
    -- `os.close(client_fd)`; past `except Exception`, the socket object closes it when it is finalised
    | .protocolFactory _ client _ :: _, .raised _ | .protocolFactory _ client _ :: _, .escaped _ =>
        some client
    | .connectionMade tr (.accepted _ _) :: _, .raised _ => (s.objs[tr]?).map Transport.fd
    | _, _ => none
  | .call (.close tr) _ => s.closesSock? tr
  | .call (.closeServer fd) _ | .call (.closeSock fd) _ => some fd
  | _ => none

/-- The step puts something new into the slot; a state of the descriptor is new whenever `register_fd`
is called. -/
def Stores (s : EventLoop K T) (a : Act K T) (t : EventLoop K T) (slot : Slot) : Prop :=
  (t.entry slot).isSome ∧ t.entry slot ≠ s.entry slot ∨ (s.registers? a).map Slot.fdState = some slot

instance (s : EventLoop K T) (a : Act K T) (t : EventLoop K T) (slot : Slot) :
    Decidable (Stores s a t slot) := inferInstanceAs (Decidable (_ ∧ _ ∨ _))

structure Registrations where
  /-- How often the descriptor was registered after it had been closed or unregistered. -/
  count : Fd → Nat
  /-- It was closed or unregistered since. -/
  ended : Fd → Bool
  /-- The registration that an operation was submitted under, by submission number. -/
  under : Nat → Nat
  /-- The registration that what is in the slot was stored under. -/
  owner : Slot → Nat

namespace Registrations

def init : Registrations := ⟨fun _ => 0, fun _ => false, fun _ => 0, fun _ => 0⟩

/-- The registration of `fd` from the step on. -/
def next (r : Registrations) (s : EventLoop K T) (a : Act K T) (fd : Fd) : Nat :=
  if s.connects? a = some fd ∧ r.ended fd then r.count fd + 1 else r.count fd

def upd (s : EventLoop K T) (a : Act K T) (t : EventLoop K T) (r : Registrations) : Registrations where
  count := r.next s a
  ended fd :=
    if s.ends? a = some fd then true else if s.connects? a = some fd then false else r.ended fd
  under n :=
    if s.issued.length ≤ n then (t.issued[n]?).elim 0 fun x => r.next s a x.1 else r.under n
  owner slot := if Stores s a t slot then r.next s a slot.fd else r.owner slot

end Registrations

/-! ## The promise -/

/-- From `s` to `t` the completion takes nothing that was stored under a later registration than its
operation was submitted under. -/
def TakesOwn (r : Registrations) (c : Cqe) (s t : EventLoop K T) : Prop :=
  ∀ slot, (s.entry slot).isSome → t.entry slot = none → r.owner slot ≤ r.under c.sqe.seq

/-- So does every completion that `run_tick` processes. -/
def TicksOwn (r : Registrations) : List Cqe → EventLoop K T → Prop
  | [], _ => True
  | c :: cs, s => TakesOwn r c s (s.drainOne c cs) ∧ TicksOwn r cs (s.drainOne c cs)

section
variable [LE T] [DecidableLE T]

/-- The next tick and the next handler take nothing that belongs to a later registration. -/
structure Isolated (x : EventLoop K T × Registrations) : Prop where
  tick : ∀ (clock : T) enter, x.1.idle = true → x.1.core.Flushes enter → TicksOwn x.2 x.1.core.ring.cq
    { x.1 with core := ((x.1.core.expireTimers clock).submit enter).1 }
  handler : ∀ c t, x.1.handled? = some c → x.1.step .handleCompletion = some t → TakesOwn x.2 c x.1 t

/-- What the unfinished operations are going to look for, with their submission numbers. -/
def sought (s : EventLoop K T) : List (Nat × Slot) :=
  (s.core.live.flatMap fun e =>
    (e.op.opType.tickSlots e.fd ++ e.op.opType.handlerSlots e.fd).map (e.seq, ·)) ++
  s.waiting.flatMap fun c => (c.sqe.op.opType.handlerSlots c.sqe.fd).map (c.sqe.seq, ·)

/-- Where the step stores something, no unfinished operation of an earlier registration is going to
look. -/
def KeepsApart (x : EventLoop K T × Registrations) (a : Act K T) : Prop :=
  ∀ t ∈ x.1.step a, ∀ p ∈ x.1.sought, Stores x.1 a t p.2 → x.2.next x.1 a p.2.fd ≤ x.2.under p.1

instance (x : EventLoop K T × Registrations) (a : Act K T) : Decidable (KeepsApart x a) :=
  have (t : EventLoop K T) : Decidable (∀ p ∈ x.1.sought,
      Stores x.1 a t p.2 → x.2.next x.1 a p.2.fd ≤ x.2.under p.1) := List.decidableBAll _ _
  Option.decidableForallMem _

/-! ## What a step leaves to be sought -/

section
variable {s t : EventLoop K T} {a : Act K T}

/-- An operation that is under way was so before, or was submitted by the step. -/
theorem live_step (hs : s.CoreSound) (hi : s.IssuedSound) (hstep : s.step a = some t) {e : Sqe}
    (he : e ∈ t.core.live) : e ∈ s.core.live ∨ s.issued.length ≤ e.seq := by
  have hend := (step_moves hstep).rule (I := fun u => u.CoreSound ∧ u.IssuedSound ∧
    s.issued.length ≤ u.issued.length ∧ ∀ e ∈ u.core.live, e ∈ s.core.live ∨ s.issued.length ≤ e.seq) ?_
    ⟨hs, hi, Nat.le_refl _, fun _ => .inl⟩
  · exact hend.2.2.2 e he
  · rintro u v ⟨hs, hi, hle, hlive⟩ hmove
    refine ⟨hs.move hmove, hi.move hs hmove, hle.trans (hmove.issued_prefix hs).length_le, fun e he => ?_⟩
    rcases hmove.live hs he with he | ⟨hseq, -⟩
    · exact hlive e he
    · right
      rw [hseq, ← hi.length]
      exact hle

/-- What waits for its handler did so before, or the tick has come to it. -/
theorem waiting_step (hs : s.AcceptsSound) (hstep : s.step a = some t) {c : Cqe}
    (hc : c ∈ t.waiting) : c ∈ s.waiting ∨ c ∈ s.core.ring.cq := by
  cases turn_of_step hs hstep with
  | ticked hticks hwaiting hdrained => exact .inr (hwaiting ▸ hc)
  | handled hr hhandled hmem hseen hwaiting hdrained =>
    rw [hwaiting]
    exact .inl (List.mem_cons_of_mem _ hc)
  | kept hticks hhandles hwaiting hdrained => exact .inl (hwaiting ▸ hc)
  | dropped hticks hhandles hdrops hresults hdrained =>
    rw [waiting_nil hresults] at hc
    cases hc

omit [LE T] [DecidableLE T] in
/-- What is sought is sought by an operation that was submitted. -/
theorem sought_lt (hi : s.IssuedSound) {n : Nat} {slot : Slot} (h : (n, slot) ∈ s.sought) :
    n < s.issued.length := by
  have hnames {e : Sqe} (he : s.Names e) : e.seq < s.issued.length := by
    obtain ⟨req, hreq, -⟩ := he
    exact (List.getElem?_eq_some_iff.mp hreq).1
  rcases List.mem_append.mp h with h | h
  · obtain ⟨e, he, hmem⟩ := List.mem_flatMap.mp h
    obtain ⟨slot', -, heq⟩ := List.mem_map.mp hmem
    cases heq
    exact hnames (hi.live e he)
  · obtain ⟨c, hc, hmem⟩ := List.mem_flatMap.mp h
    obtain ⟨slot', -, heq⟩ := List.mem_map.mp hmem
    cases heq
    exact hnames (hi.drained c (List.mem_of_mem_drop hc))

theorem sought_step (hs : s.AcceptsSound) (hcore : s.CoreSound) (hi : s.IssuedSound)
    (hstep : s.step a = some t) {n : Nat} {slot : Slot} (h : (n, slot) ∈ t.sought) :
    (n, slot) ∈ s.sought ∨ ∃ e ∈ t.core.live, s.issued.length ≤ n ∧ e.seq = n ∧ slot.fd = e.fd := by
  rcases List.mem_append.mp h with h | h
  · obtain ⟨e, he, hmem⟩ := List.mem_flatMap.mp h
    rcases live_step hcore hi hstep he with hold | hnew
    · exact .inl (List.mem_append_left _ (List.mem_flatMap.mpr ⟨e, hold, hmem⟩))
    · obtain ⟨slot', hslot, heq⟩ := List.mem_map.mp hmem
      cases heq
      refine .inr ⟨e, he, hnew, rfl, ?_⟩
      rcases List.mem_append.mp hslot with hslot | hslot
      · exact OpType.fd_of_tickSlots hslot
      · exact OpType.fd_of_handlerSlots hslot
  · obtain ⟨c, hc, hmem⟩ := List.mem_flatMap.mp h
    left
    rcases waiting_step hs hstep hc with hc | hc
    · exact List.mem_append_right _ (List.mem_flatMap.mpr ⟨c, hc, hmem⟩)
    · apply List.mem_append_left
      apply List.mem_flatMap.mpr
      refine ⟨c.sqe, UringCore.mem_live.mpr (.inr ⟨c, hc, rfl⟩), ?_⟩
      rw [List.map_append]
      exact List.mem_append_right _ hmem

/-- Every entry that an unfinished operation is going to look for was stored under its registration, or
under an earlier one. -/
structure StaysApart (s : EventLoop K T) (r : Registrations) : Prop where
  accepts : s.AcceptsSound
  core : s.CoreSound
  issued : s.IssuedSound
  owned : ∀ slot, r.owner slot ≤ r.count slot.fd
  apart : ∀ n slot, (n, slot) ∈ s.sought → (s.entry slot).isSome → r.owner slot ≤ r.under n

omit [LE T] [DecidableLE T] in
theorem Registrations.le_next (r : Registrations) (s : EventLoop K T) (a : Act K T) (fd : Fd) :
    r.count fd ≤ r.next s a fd := by
  unfold next
  split
  · exact Nat.le_succ _
  · exact Nat.le_refl _

theorem StaysApart.step {r : Registrations} (h : s.StaysApart r) (hkeeps : KeepsApart (s, r) a)
    (hstep : s.step a = some t) : t.StaysApart (Registrations.upd s a t r) := by
  have haccepts := h.accepts.step hstep
  have hissued := h.issued.step h.core hstep
  have howned (slot : Slot) : (Registrations.upd s a t r).owner slot ≤ r.next s a slot.fd := by
    show (if Stores s a t slot then r.next s a slot.fd else r.owner slot) ≤ _
    split
    · exact Nat.le_refl _
    · exact (h.owned slot).trans (r.le_next s a slot.fd)
  refine ⟨haccepts, haccepts.core, hissued, howned, fun n slot hmem hsome => ?_⟩
  rcases sought_step h.accepts h.core h.issued hstep hmem with hold | ⟨e, he, hle, rfl, hfd⟩
  · have hunder : (Registrations.upd s a t r).under n = r.under n :=
      if_neg (Nat.not_le.mpr (sought_lt h.issued hold))
    rw [hunder]
    show (if Stores s a t slot then r.next s a slot.fd else r.owner slot) ≤ _
    split
    · rename_i hstores
      exact hkeeps t hstep (n, slot) hold hstores
    · rename_i hkept
      apply h.apart n slot hold
      -- what is there was there before
      by_contra hnone
      apply hkept
      refine .inl ⟨hsome, fun heq => hnone ?_⟩
      rwa [← heq]
  · -- a new operation is of the present registration
    obtain ⟨req, hreq, -⟩ := hissued.live e he
    have hunder : (Registrations.upd s a t r).under e.seq = r.next s a e.fd := by
      show (if s.issued.length ≤ e.seq then _ else _) = _
      rw [if_pos hle, hreq]
      rfl
    rw [hunder, ← hfd]
    exact howned slot

/-! ## What a completion takes -/

omit [LE T] [DecidableLE T] in
/-- An erased key is the only one whose value goes. -/
theorem lookup_erase_cases {α β : Type} [DecidableEq α] (m : AList fun _ : α => β) (k k' : α) :
    (m.erase k).lookup k' = m.lookup k' ∨ (m.erase k).lookup k' = none ∧ k' = k := by
  by_cases hk : k' = k
  · right
    rw [hk, AList.lookup_erase]
    exact ⟨rfl, rfl⟩
  · exact .inl (AList.lookup_erase_ne hk)

omit [LE T] [DecidableLE T] in
/-- `run_tick` takes what the kind of the completion says. -/
theorem drainOne_entry (c : Cqe) (cs : List Cqe) (s : EventLoop K T) (slot : Slot) :
    (s.drainOne c cs).entry slot = s.entry slot ∨
      (s.drainOne c cs).entry slot = none ∧ slot ∈ c.sqe.op.opType.tickSlots c.sqe.fd := by
  have hone := drainOne_eq c cs s
  simp only [UringCore.processNext_eq] at hone
  rw [hone]
  cases slot with
  | future fd =>
    rcases lookup_erase_cases s.core.futures c.sqe.fd fd with heq | ⟨hnone, rfl⟩
    · exact .inl heq
    · exact .inr ⟨hnone, List.mem_cons_self⟩
  | recvBuffer fd =>
    unfold entry
    dsimp only
    split
    · rename_i hrecv
      rcases lookup_erase_cases s.core.inflightRecvBuffers c.sqe.fd fd with heq | ⟨hnone, rfl⟩
      · exact .inl (by rw [heq])
      · refine .inr ⟨by rw [hnone]; rfl, ?_⟩
        exact OpType.recvBuffer_mem_tickSlots hrecv _
    · exact .inl rfl
  | recvmsgState fd =>
    unfold entry
    dsimp only
    split
    · rename_i hmsg
      rcases lookup_erase_cases s.core.recvmsgStates c.sqe.fd fd with heq | ⟨hnone, rfl⟩
      · exact .inl (by rw [heq])
      · refine .inr ⟨by rw [hnone]; rfl, ?_⟩
        rw [hmsg.1]
        simp [OpType.tickSlots]
    · exact .inl rfl
  | sendmsgState fd =>
    unfold entry
    dsimp only
    split
    · rename_i hmsg
      rcases lookup_erase_cases s.core.sendmsgStates c.sqe.fd fd with heq | ⟨hnone, rfl⟩
      · exact .inl (by rw [heq])
      · refine .inr ⟨by rw [hnone]; rfl, ?_⟩
        rw [hmsg]
        simp [OpType.tickSlots]
    · exact .inl rfl
  | ioFuture fd kind => exact .inl rfl
  | transport fd => exact .inl rfl
  | fdState fd => exact .inl rfl

/-- From `s` to `t` the completion of `op` on `fd` takes what its handler may. -/
def Hands (op : OpType) (fd : Fd) (s t : EventLoop K T) : Prop :=
  ∀ slot, t.entry slot = s.entry slot ∨ t.entry slot = none ∧ slot ∈ op.handlerSlots fd

omit [LE T] [DecidableLE T] in
theorem entry_setFuture (fut : FutId) (state : FutState) (s : EventLoop K T) :
    (s.setFuture fut state).entry = s.entry := by
  rw [setFuture_eq]
  funext slot
  cases slot <;> rfl

omit [LE T] [DecidableLE T] in
/-- No slot is in the transports, the history, the stack or the ready queue. -/
theorem entry_frame (objs : List Transport) (log : List TransportEvent) (stack : List Frame)
    (scheduler : Scheduler (Handle K)) (s : EventLoop K T) :
    entry { s with objs, log, stack, core := { s.core with scheduler } } = s.entry := by
  funext slot
  cases slot <;> rfl

omit [LE T] [DecidableLE T] in
theorem entry_forceClose (cause : TransportEvent) (exc : Option Exc) (tr : TransportId)
    (s : EventLoop K T) : (s.forceClose cause exc tr).entry = s.entry := by
  obtain ⟨_, _, _, _, h⟩ := SameTables.forceClose cause exc tr s
  rw [h]
  exact entry_frame _ _ _ _ s

omit [LE T] [DecidableLE T] in
theorem entry_sendCompleted (tr : TransportId) (n : Int) (handler : Bool) (s : EventLoop K T) :
    (s.sendCompleted tr n handler).entry = s.entry := by
  obtain ⟨_, _, _, _, h⟩ := SameTables.sendCompleted tr n handler s
  rw [h]
  exact entry_frame _ _ _ _ s

omit [LE T] [DecidableLE T] in
theorem entry_callProtocol (e : TransportEvent) (frame : Frame) (s : EventLoop K T) :
    (s.callProtocol e frame).entry = s.entry := entry_frame _ _ _ _ s

omit [LE T] [DecidableLE T] in
theorem hands_popIo {op : OpType} {fd : Fd} {kind : IoKind} (h : op.handlerSlots fd = [.ioFuture fd kind])
    (s : EventLoop K T) : Hands op fd s (s.popIo fd kind) := by
  intro slot
  rw [h]
  cases slot with
  | ioFuture fd' kind' =>
    rcases lookup_erase_cases s.ioFutures (fd, kind) (fd', kind') with heq | ⟨hnone, heq⟩
    · exact .inl heq
    · cases heq
      exact .inr ⟨hnone, List.mem_cons_self⟩
  | _ => exact .inl rfl

omit [LE T] [DecidableLE T] in
theorem hands_resolveIo {op : OpType} {fd : Fd} {kind : IoKind}
    (h : op.handlerSlots fd = [.ioFuture fd kind]) (state : FutState) (s : EventLoop K T) :
    Hands op fd s (s.resolveIo fd kind state) := by
  unfold resolveIo
  split
  · intro slot
    rw [entry_setFuture]
    exact hands_popIo h s slot
  · exact hands_popIo h s

omit [LE T] [DecidableLE T] in
theorem hands_recv {op : OpType} {fd : Fd} (h : op.handlerSlots fd = [.ioFuture fd .recv]) (result : Int)
    (data : Option PyData) (s : EventLoop K T) :
    Hands op fd s (s.handleRecvCompletion fd result data) := by
  intro slot
  have hpop := hands_popIo h s slot
  unfold handleRecvCompletion eofReceived errorReceived
  dsimp only
  split
  · split
    · rwa [entry_setFuture]
    · exact hpop
  · split
    · rwa [entry_setFuture]
    · split
      · split
        · rwa [entry_callProtocol]
        · rwa [entry_forceClose]
      · exact hpop

omit [LE T] [DecidableLE T] in
theorem hands_send (fd : Fd) (result : Int) (s : EventLoop K T) :
    Hands .send fd s (s.handleSendCompletion fd result) := by
  intro slot
  have hresolve : Hands .send fd s (s.resolveIo fd .send (plainState result)) := hands_resolveIo rfl _ s
  unfold handleSendCompletion
  dsimp only
  split
  · rw [entry_sendCompleted]
    exact hresolve slot
  · exact hresolve slot

omit [LE T] [DecidableLE T] in
theorem entry_callFactory (fd client : Fd) (multi : Bool) (s : EventLoop K T) :
    (s.callFactory fd client multi).entry = s.entry := by
  funext slot
  cases slot <;> rfl

omit [LE T] [DecidableLE T] in
theorem hands_accept (fd : Fd) (result : Int) (s : EventLoop K T) :
    Hands .accept fd s (s.handleAcceptCompletion fd result) := by
  intro slot
  have hresolve : Hands .accept fd s (s.resolveIo fd .accept (plainState result)) :=
    hands_resolveIo rfl _ s
  unfold handleAcceptCompletion
  dsimp only
  split
  · rw [entry_callFactory]
    exact hresolve slot
  · exact hresolve slot

omit [LE T] [DecidableLE T] in
theorem entry_acceptMulti (fd : Fd) (result : Int) (s : EventLoop K T) (slot : Slot) :
    (s.handleAcceptMultiCompletion fd result).entry slot = s.entry slot := by
  unfold handleAcceptMultiCompletion
  split
  · rw [entry_callFactory]
  · rfl

omit [LE T] [DecidableLE T] in
theorem hands_close (hs : s.CoreSound) (fd : Fd) : Hands .close fd s (s.handleCloseCompletion fd) := by
  intro slot
  unfold handleCloseCompletion
  rw [UringCore.unregisterFd_eq hs.sound]
  cases slot with
  | transport fd' =>
    rcases lookup_erase_cases s.transports fd fd' with heq | ⟨hnone, rfl⟩
    · exact .inl heq
    · exact .inr ⟨hnone, by simp [OpType.handlerSlots]⟩
  | recvBuffer fd' =>
    unfold entry
    dsimp only
    rcases lookup_erase_cases s.core.inflightRecvBuffers fd fd' with heq | ⟨hnone, rfl⟩
    · exact .inl (by rw [heq])
    · exact .inr ⟨by rw [hnone]; rfl, by simp [OpType.handlerSlots]⟩
  | fdState fd' =>
    unfold entry
    dsimp only
    rcases lookup_erase_cases s.core.fdStates.states fd fd' with heq | ⟨hnone, rfl⟩
    · exact .inl (by rw [heq])
    · exact .inr ⟨by rw [hnone]; rfl, by simp [OpType.handlerSlots]⟩
  | _ => exact .inl rfl

omit [LE T] [DecidableLE T] in
/-- A handler takes what the kind of its completion says. -/
theorem hands_handle (hs : s.CoreSound) {r : ResultTuple} {op : OpType} (hop : r.opType = op.asStr) :
    Hands op r.fd s (handle r s) := by
  intro slot
  unfold handle
  rw [hop]
  cases op with
  | recv => exact hands_recv rfl _ _ s slot
  | recvMulti => exact hands_recv rfl _ _ s slot
  | send => exact hands_send _ _ s slot
  | accept => exact hands_accept _ _ s slot
  | acceptMulti => exact .inl (entry_acceptMulti _ _ s slot)
  | recvMsg => exact hands_resolveIo rfl _ s slot
  | sendMsg => exact hands_resolveIo rfl _ s slot
  | close => exact hands_close hs r.fd slot
  | _ => exact .inl rfl

omit [LE T] [DecidableLE T] in
/-- As long as the entries are those of the tick's beginning, or gone, a completion finds only what
stays apart from its operation. -/
theorem StaysApart.ticksOwn {r : Registrations} (h : s.StaysApart r) {cqes : List Cqe}
    (hcqes : ∀ c ∈ cqes, c ∈ s.core.ring.cq) {u : EventLoop K T}
    (hentry : ∀ slot, u.entry slot = s.entry slot ∨ u.entry slot = none) : TicksOwn r cqes u := by
  induction cqes generalizing u with
  | nil => trivial
  | cons c cs ih =>
    refine ⟨fun slot hsome hnone => ?_, ?_⟩
    · -- the entry was there when the tick began
      have hthere : (s.entry slot).isSome := by
        rcases hentry slot with heq | hgone
        · rwa [← heq]
        · rw [hgone] at hsome
          cases hsome
      apply h.apart _ slot _ hthere
      rcases drainOne_entry c cs u slot with heq | ⟨-, hmem⟩
      · rw [← heq, hnone] at hsome
        cases hsome
      · apply List.mem_append_left
        apply List.mem_flatMap.mpr
        refine ⟨c.sqe, UringCore.mem_live.mpr (.inr ⟨c, hcqes c List.mem_cons_self, rfl⟩), ?_⟩
        exact List.mem_map.mpr ⟨slot, List.mem_append_left _ hmem, rfl⟩
    · apply ih fun c' hc' => hcqes c' (List.mem_cons_of_mem _ hc')
      intro slot
      rcases drainOne_entry c cs u slot with heq | ⟨hnone, -⟩
      · rw [heq]
        exact hentry slot
      · exact .inr hnone

theorem StaysApart.isolated {r : Registrations} (h : s.StaysApart r) : Isolated (s, r) where
  tick clock enter hidle hflushes := by
    apply h.ticksOwn fun c hc => hc
    intro slot
    left
    cases slot <;> rfl
  handler c t hc hstep slot hsome hnone := by
    obtain ⟨q, rest, hstack, hbatch, hq, rfl⟩ := step_handle.mp hstep
    obtain ⟨c', hc', -, hseen, hwaiting⟩ := waiting_handled h.accepts.tied hq
    cases hc.symm.trans hc'
    have hrest : ({ s with results := rest } : EventLoop K T).CoreSound := ⟨h.core.sound, h.core.timers⟩
    have hfd : c.sqe.fd = q.fd := congrArg (·.1) hseen
    have hop : c.sqe.op.opType.asStr = q.opType := congrArg (·.2.1) hseen
    have hsame : ({ s with results := rest } : EventLoop K T).entry slot = s.entry slot := by
      cases slot <;> rfl
    apply h.apart _ slot _ hsome
    rcases hands_handle hrest hop.symm slot with heq | ⟨-, hmem⟩
    · rw [← hsame, ← heq, hnone] at hsome
      cases hsome
    · apply List.mem_append_right
      apply List.mem_flatMap.mpr
      refine ⟨c, hwaiting ▸ List.mem_cons_self, ?_⟩
      exact List.mem_map.mpr ⟨slot, hfd ▸ hmem, rfl⟩

omit [LE T] [DecidableLE T] in
theorem StaysApart.init {setup : Setup} {bufferSize bufferCount : Nat} {core : UringCore FutId (Handle K) T}
    (hnew : UringCore.new setup bufferSize bufferCount = .ok core) :
    (EventLoop.init core).StaysApart Registrations.init where
  accepts := acceptsSound_init hnew
  core := (endsKept_init hnew).core
  issued := IssuedSound.init hnew
  owned _ := Nat.le_refl 0
  apart _ _ _ _ := Nat.zero_le _

end

/-! ## Runs -/

def reuseMachine : Machine (EventLoop K T × Registrations) (Act K T) := machine.ghost Registrations.upd

/-- In a run that stores nothing where an operation of an earlier registration is still going to look,
no completion takes anything of a later registration. -/
theorem stale_isolated {setup : Setup} {bufferSize bufferCount : Nat}
    {core : UringCore FutId (Handle K) T} (hnew : UringCore.new setup bufferSize bufferCount = .ok core)
    {acts : List (Act K T)} {x : EventLoop K T × Registrations}
    (hkeeps : reuseMachine.Meets KeepsApart (init core, Registrations.init) acts)
    (hrun : reuseMachine.run (init core, Registrations.init) acts = some x) : Isolated x := by
  have hend := Machine.run_invariant (M := reuseMachine)
    (I := fun x : EventLoop K T × Registrations => x.1.StaysApart x.2) ?_ (.init hnew) hkeeps hrun
  · exact hend.isolated
  · rintro ⟨s, r⟩ a ⟨t, r'⟩ h hk hstep
    obtain ⟨hnext, rfl⟩ := Machine.ghost_step_mk.mp hstep
    exact h.step hk hnext

end

/-- A connection is closed by its peer; the next one gets its descriptor and receives. -/
def reopenedRun : List (Act Unit Nat) :=
  [.call (.createConnection 5) ⟨0, .ok 1⟩, .ret (.value true) ⟨0, .ok 1⟩,
    .complete 0 (.data []) false false, .startTick 0 (.ok 0), .runHandle,
    .ret (.value false) ⟨0, .ok 1⟩, .handleCompletion, .call (.createConnection 5) ⟨0, .ok 1⟩,
    .ret (.value true) ⟨0, .ok 1⟩, .complete 0 (.data [1]) false false]

/-- A connection is closed while it receives, and the next one gets its descriptor. -/
def reusedRun : List (Act Unit Nat) :=
  [.call (.createConnection 5) ⟨0, .ok 1⟩, .ret (.value true) ⟨0, .ok 1⟩,
    .call (.close 0) ⟨0, .ok 1⟩, .call (.createConnection 5) ⟨0, .ok 1⟩,
    .ret (.value true) ⟨0, .ok 1⟩, .complete 0 (.data [1]) false false]

theorem stale_isolated_reopened : ∃ core x, UringCore.new (Setup.plain) 16 4 = .ok core ∧
    reuseMachine.run (init core, Registrations.init) reopenedRun = some x ∧ Isolated x ∧
    x.2.count 5 = 1 ∧ (x.1.startTick 0 (.ok 0)).futState 1 = some (.result (.data (.bytes [1]))) :=
  ⟨_, _, rfl, rfl, stale_isolated (show UringCore.new Setup.plain 16 4 = .ok _ from rfl) (by decide)
    (show reuseMachine.run _ reopenedRun = some _ from rfl), rfl, rfl⟩

/-- The receive of the first connection completes, and the next tick resolves the second one's: with a
byte of its buffer, which nobody has written. -/
theorem not_stale_isolated : ∃ core x, UringCore.new (Setup.plain) 16 4 = .ok core ∧
    reuseMachine.run (init core, Registrations.init) reusedRun = some x ∧
    (x.1.startTick 0 (.ok 0)).futState 1 = some (.result (.data (.bytes [0]))) ∧ ¬ Isolated x := by
  refine ⟨_, _, rfl, rfl, rfl, fun h => ?_⟩
  obtain ⟨htakes, -⟩ := h.tick 0 (.ok 0) rfl rfl
  have hle : 1 ≤ 0 := htakes (.future 5) rfl rfl
  exact absurd hle (by decide)

end EventLoop

end Uringcore
