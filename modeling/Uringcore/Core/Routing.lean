import Uringcore.Core.System

/-!
# Which future gets which completion

A completion carries its descriptor and nothing that tells two operations on one descriptor apart,
and the futures are kept by descriptor. So a tick gives a completion the future *stored for its
descriptor*, and to a receive the bytes of the buffer *tracked for its descriptor*.

What should happen is kept beside the core as a history variable: `owed` says, by submission
number, which future was passed to the submission and has not been resolved yet. `Routed` is the
invariant under which both agree. It is lost as soon as a request stores or drops a future on a
descriptor that has a live operation of another future; `KeepsRoutes` describes the steps that do
not do this, and do not overwrite the bytes of a completion that no tick has seen.
-/

namespace Uringcore

/-- What a future is owed for an operation that ended so. -/
def Payload.outcome : Payload → Outcome
  | .data bytes => .result (.bytes bytes)
  | .msg bytes addr namelen => match bytes, decodeAddr addr namelen with
      | [], _ => .result (.bytes [])
      | _ :: _, none => .result (.bytes bytes)
      | _ :: _, some a => .result (.msg bytes a)
  | .count n => .result (.int n)
  | .error errno => .exception errno

/-- Where the kernel has put the bytes of this completion. -/
def Cqe.dest? (c : Cqe) : Option UInt16 := c.sqe.op.recvBuf?.or c.buf

/-- How much an operation may receive into its own buffer. -/
def SqeOp.recvLen : SqeOp → Nat
  | .recv _ len | .recvMsg _ _ len => len
  | .send .. | .accept | .acceptMulti | .close | .recvMulti _ | .sendMsg .. => 0

/-- No operation delivers more than its own buffer or a provided one holds. -/
theorem SqeOp.admits_length {op : SqeOp} {bufLen size : Nat} {payload : Payload}
    {select more : Bool} (h : op.admits bufLen payload select more) (hop : op.recvLen ≤ size)
    (hbuf : bufLen ≤ size) : payload.bytes.length ≤ size := by
  cases op <;> cases payload <;>
    simp_all [SqeOp.admits, SqeOp.recvLen, Payload.bytes] <;> omega

/-- `submit_sendto` stores its future only when the flush has succeeded. -/
def Request.isSendto {F : Type} : Request F → Bool
  | .sendto .. => true
  | .recv _ | .recvfrom _ | .recvMultishot _ | .send .. | .accept _ | .acceptMultishot | .close =>
      false

/-- A request that has reached the futures map leaves its future there; the others take it back
when the queue is full. -/
def Request.keepsFuture {F : Type} (ring : Ring) : Request F → Bool
  | .recvMultishot _ => true
  | .recv _ | .recvfrom _ | .sendto .. | .send .. | .accept _ => ring.sq.length < ring.entries
  | .acceptMultishot | .close => false

/-- By submission number: the future passed to the submission, until it is resolved. -/
abbrev Owed (F : Type) := Nat → Option F

namespace UringCore
variable {F H T : Type}

/-- Every operation that has a completion to come, from the kernel or in the queue. -/
def live (core : UringCore F H T) : List Sqe := core.ring.inFlight ++ core.ring.cq.map Cqe.sqe

/-- The buffers that hold bytes of a completion no tick has seen. -/
def undelivered (core : UringCore F H T) : List UInt16 :=
  (core.ring.cq.filter fun c => !c.payload.bytes.isEmpty).filterMap Cqe.dest?

/-- The request gets as far as the futures map. -/
def Reaches (core : UringCore F H T) (fd : Fd) : Request F → Prop
  | .recv _ | .recvfrom _ => core.fdStates.shouldSubmitRecv fd ∧ core.bufferPool.freeList ≠ []
  | .sendto _ addr _ => (buildSockaddr addr).isOk ∧ core.ring.sq.length < core.ring.entries
  | .recvMultishot _ => core.pbufRing.isSome
  | .send data _ => core.bufferPool.freeList ≠ [] ∧ data.length ≤ core.bufferPool.bufferSize
  | .accept _ => True
  | .acceptMultishot | .close => core.ring.sq.length < core.ring.entries

instance (core : UringCore F H T) (fd : Fd) : ∀ req : Request F, Decidable (core.Reaches fd req)
  | .recv _ | .recvfrom _ => inferInstanceAs (Decidable
      (core.fdStates.shouldSubmitRecv fd = true ∧ core.bufferPool.freeList ≠ []))
  | .sendto _ addr _ => inferInstanceAs (Decidable
      ((buildSockaddr addr).isOk = true ∧ core.ring.sq.length < core.ring.entries))
  | .recvMultishot _ => inferInstanceAs (Decidable (core.pbufRing.isSome = true))
  | .send data _ => inferInstanceAs (Decidable
      (core.bufferPool.freeList ≠ [] ∧ data.length ≤ core.bufferPool.bufferSize))
  | .accept _ => isTrue trivial
  | .acceptMultishot | .close => inferInstanceAs (Decidable
      (core.ring.sq.length < core.ring.entries))

/-- The buffer a send copies its data into, if it gets one. -/
def staged (core : UringCore F H T) : Request F → Option UInt16
  | .send data _ => if data = [] then none else core.bufferPool.freeList.head?
  | .recv _ | .recvfrom _ | .sendto .. | .recvMultishot _ | .accept _ | .acceptMultishot | .close =>
      none

end UringCore

namespace Owed
variable {F H T : Type}

/-- The completions are resolved in order. -/
def settle (cqes : List Cqe) (owed : Owed F) : Owed F :=
  cqes.foldl (fun owed c => Function.update owed c.sqe.seq none) owed

/-- A submission that is queued owes its future, a tick settles what it has drained. -/
def upd (s : UringCore F H T) (a : UringCore.Act F H T) (t : UringCore F H T) (owed : Owed F) :
    Owed F :=
  match a with
  | .request _ _ _ req =>
      if t.ring.tail = s.ring.tail then owed else Function.update owed s.ring.tail req.future?
  | .runTick _ enter _ => if s.Flushes enter then owed.settle s.ring.cq else owed
  | _ => owed

/-- What a tick that drains these completions has to resolve. -/
def expected : List Cqe → Owed F → List (Outcome × Option F)
  | [], _ => []
  | c :: cs, owed =>
      (c.payload.outcome, owed c.sqe.seq) :: expected cs (Function.update owed c.sqe.seq none)

end Owed

namespace UringCore
variable {F H T : Type}

/-- A step that keeps futures and operations together. A request that reaches the futures map finds
no live operation on its descriptor whose future waits; if it stores a future for good, it finds no
live operation there at all. -/
def KeepsRoutes (x : UringCore F H T × Owed F) : Act F H T → Prop
  | .request _ enter fd req => x.1.Reaches fd req →
      (∀ e ∈ x.1.live, e.fd = fd → x.2 e.seq = none ∧ req.keepsFuture x.1.ring = false) ∧
      (req.future?.isNone → x.1.futures.lookup fd = none) ∧
      (req.isSendto → enter.isOk) ∧
      ∀ b ∈ x.1.staged req, b ∉ x.1.undelivered
  | .unregisterFd fd => ∀ e ∈ x.1.live, e.fd = fd → e.op.isRecv = false
  | .complete i payload select _ => payload.bytes ≠ [] → ∀ e ∈ x.1.ring.kernel[i]?,
      ∀ b ∈ e.op.recvBuf?.or (x.1.selected select), b ∉ x.1.undelivered
  | _ => True

instance (x : UringCore F H T × Owed F) : ∀ a : Act F H T, Decidable (KeepsRoutes x a)
  | .request _ enter fd req =>
    have : Decidable (∀ b ∈ x.1.staged req, b ∉ x.1.undelivered) := Option.decidableForallMem _
    inferInstanceAs (Decidable (x.1.Reaches fd req →
      (∀ e ∈ x.1.live, e.fd = fd → x.2 e.seq = none ∧ req.keepsFuture x.1.ring = false) ∧
      (req.future?.isNone → x.1.futures.lookup fd = none) ∧
      (req.isSendto → enter.isOk) ∧
      ∀ b ∈ x.1.staged req, b ∉ x.1.undelivered))
  | .unregisterFd fd =>
      inferInstanceAs (Decidable (∀ e ∈ x.1.live, e.fd = fd → e.op.isRecv = false))
  | .complete i payload select _ =>
    have : ∀ e : Sqe, Decidable (∀ b ∈ e.op.recvBuf?.or (x.1.selected select),
      b ∉ x.1.undelivered) := fun _ => Option.decidableForallMem _
    inferInstanceAs (Decidable (payload.bytes ≠ [] →
      ∀ e ∈ x.1.ring.kernel[i]?, ∀ b ∈ e.op.recvBuf?.or (x.1.selected select),
        b ∉ x.1.undelivered))
  | .registerFd .. | .pauseReading _ | .resumeReading _ | .registerFile .. | .unregisterFile ..
  | .submit _ | .runTick .. | .consume _ => isTrue trivial

/-- The bytes and the address of a posted completion are where a tick will look for them. -/
structure Posted (core : UringCore F H T) (c : Cqe) : Prop where
  admits : c.sqe.op.admits core.bufLen c.payload c.buf.isSome c.more
  length : c.payload.bytes.length ≤ core.bufferPool.bufferSize
  bytes : ∀ b, c.dest? = some b → c.payload.bytes <+: core.bufferPool.memory b
  addr : ∀ d addr namelen, c.payload = .msg d addr namelen →
    ∃ st, core.recvmsgStates.lookup c.sqe.fd = some st ∧ st.addr = addr ∧ st.namelen = namelen

/-- The maps kept by descriptor hold, for every live operation, what belongs to *it*. -/
structure Routed (core : UringCore F H T) (owed : Owed F) : Prop where
  below : ∀ e ∈ core.live, e.seq < core.ring.tail
  seq_inj : ∀ e ∈ core.live, ∀ e' ∈ core.live, e.seq = e'.seq → e = e'
  future : ∀ e ∈ core.live, core.futures.lookup e.fd = owed e.seq
  /-- An operation whose future waits is alone on its descriptor. -/
  alone : ∀ e ∈ core.live, ∀ e' ∈ core.live, e.fd = e'.fd → owed e.seq ≠ none → e = e'
  recv : ∀ e ∈ core.live, ∀ b, e.op.recvBuf? = some b →
    core.inflightRecvBuffers.lookup e.fd = some b ∧ owed e.seq ≠ none
  msg : ∀ e ∈ core.live, ∀ ptr b len, e.op = .recvMsg ptr b len →
    ∃ st, core.recvmsgStates.lookup e.fd = some st ∧ st.ptr = ptr
  len : ∀ e ∈ core.live, e.op.recvLen ≤ core.bufferPool.bufferSize
  posted : ∀ c ∈ core.ring.cq, core.Posted c

theorem mem_live {core : UringCore F H T} {e : Sqe} :
    e ∈ core.live ↔ e ∈ core.ring.inFlight ∨ ∃ c ∈ core.ring.cq, c.sqe = e := by
  rw [live, List.mem_append, List.mem_map]

theorem mem_undelivered {core : UringCore F H T} {c : Cqe} {b : UInt16} (hc : c ∈ core.ring.cq)
    (hne : c.payload.bytes ≠ []) (hb : c.dest? = some b) : b ∈ core.undelivered := by
  refine List.mem_filterMap.mpr ⟨c, List.mem_filter.mpr ⟨hc, ?_⟩, hb⟩
  simpa using hne

/-- The operation a ring was given is live, with those that were before. -/
theorem mem_live_issued {s t : UringCore F H T} {fd : Fd} {op : SqeOp} {e : Sqe}
    (h : s.ring.Issued fd op t.ring e) {e' : Sqe} : e' ∈ t.live ↔ e' = e ∨ e' ∈ s.live := by
  simp only [mem_live, h.inFlight, h.cq, List.mem_append, List.mem_singleton]
  tauto

theorem SameLedger.live {s t : UringCore F H T} (h : SameLedger s t) : t.live = s.live := by
  rw [UringCore.live, UringCore.live, h.inFlight, h.cq]

/-- A completion by the kernel brings in no operation. -/
theorem Completed.live {s t : UringCore F H T} {c : Cqe} (h : s.Completed c t) {e : Sqe}
    (he : e ∈ t.live) : e ∈ s.live := by
  have hin : t.ring.inFlight ⊆ s.ring.inFlight := by
    have hin := h.inFlight
    split at hin
    · rw [hin]
      exact List.Subset.refl _
    · exact hin.1.subset
  rcases mem_live.mp he with he | ⟨c', hc', rfl⟩
  · exact mem_live.mpr (.inl (hin he))
  · rw [h.cq] at hc'
    rcases List.mem_append.mp hc' with hc' | hc'
    · exact mem_live.mpr (.inr ⟨c', hc', rfl⟩)
    · rw [List.mem_singleton.mp hc']
      exact mem_live.mpr (.inl h.mem)

/-- What is live after the processing of a completion was live before. -/
theorem live_processNext {s : UringCore F H T} {c : Cqe} {cs : List Cqe}
    (hcq : s.ring.cq = c :: cs) {e : Sqe} (he : e ∈ (s.processNext c cs).live) : e ∈ s.live := by
  rw [mem_live, processNext_inFlight, processNext_eq] at he
  rw [mem_live, hcq]
  obtain he | ⟨c', hc', heq⟩ := he
  · exact .inl he
  · exact .inr ⟨c', List.mem_cons_of_mem _ hc', heq⟩

/-- The issued operation is the only new one. -/
theorem IssuesOne.live {s t : UringCore F H T} {fd : Fd} {opType : OpType}
    (h : s.IssuesOne fd opType t) {e : Sqe} (he : e ∈ t.live) :
    e ∈ s.live ∨ e.fd = fd ∧ e.op.opType = opType ∧ e.seq = s.ring.tail := by
  rcases h with hring | ⟨e', hin, hcq, hfd, hop, hseq⟩
  · rw [UringCore.live, hring] at he
    exact .inl he
  · rw [mem_live, hin, hcq, List.mem_append, List.mem_singleton] at he
    rcases he with (he | rfl) | he
    · exact .inl (mem_live.mpr (.inl he))
    · exact .inr ⟨hfd, hop, hseq⟩
    · exact .inl (mem_live.mpr (.inr he))

/-- Only a request brings in an operation. -/
theorem live_step [LE T] [DecidableLE T] {s t : UringCore F H T} {a : Act F H T} (hs : s.Sound)
    (hrequest : ∀ now enter fd req, a ≠ .request now enter fd req)
    (h : machine.step s a = some t) {e : Sqe} (he : e ∈ t.live) : e ∈ s.live := by
  have hsame (hledger : SameLedger s t) : e ∈ s.live := hledger.live ▸ he
  cases a with
  | registerFd fd socketType =>
    cases h
    exact he
  | unregisterFd fd =>
    cases h
    rw [unregisterFd_eq hs] at he
    exact he
  | pauseReading fd =>
    cases h
    exact hsame (SameLedger.of_withFdStates s fd true)
  | resumeReading fd =>
    cases h
    exact hsame (SameLedger.of_withFdStates s fd false)
  | registerFile init update fd =>
    cases h
    exact hsame (registerFile_ledger init update fd s)
  | unregisterFile update fd =>
    cases h
    exact hsame (unregisterFile_ledger update fd s)
  | request now enter fd req => exact absurd rfl (hrequest now enter fd req)
  | submit enter =>
    cases h
    exact hsame (SameLedger.of_submit enter s)
  | runTick clock enter pushed =>
    cases h
    refine tick_rule (I := fun u => ∀ e ∈ u.live, e ∈ s.live) ?_ ?_ scripted clock enter pushed
      (fun e he => he) e he
    · intro u v hledger hu
      rw [hledger.live]
      exact hu
    · intro u c cs hcq hu e he
      exact hu e (live_processNext hcq he)
  | consume n =>
    cases h
    exact hsame (SameLedger.of_ring s (Ring.inFlight_take n s.ring) rfl rfl)
  | complete i payload select more =>
    rcases complete_spec h with ⟨c, -, -, -, -, hc⟩
    exact hc.live he

/-- A posted completion stays readable while its own bytes and address stay. -/
theorem Posted.mono {s t : UringCore F H T} {c : Cqe} (h : s.Posted c)
    (hsize : t.bufferPool.bufferSize = s.bufferPool.bufferSize)
    (hmem : c.payload.bytes ≠ [] → ∀ b, c.dest? = some b →
      c.payload.bytes <+: s.bufferPool.memory b → c.payload.bytes <+: t.bufferPool.memory b)
    (hmsg : ∀ d addr namelen, c.payload = .msg d addr namelen →
      t.recvmsgStates.lookup c.sqe.fd = s.recvmsgStates.lookup c.sqe.fd) : t.Posted c where
  admits := by
    rw [bufLen, hsize]
    exact h.admits
  length := by
    rw [hsize]
    exact h.length
  bytes b hb := by
    by_cases hne : c.payload.bytes = []
    · rw [hne]
      exact List.nil_prefix
    · exact hmem hne b hb (h.bytes b hb)
  addr d addr namelen hc := by
    rw [hmsg d addr namelen hc]
    exact h.addr d addr namelen hc

/-- Only a `recvmsg` completes with a message. -/
theorem Posted.isMsg {s : UringCore F H T} {c : Cqe} (h : s.Posted c) {d : Bytes} {addr : Sockaddr}
    {namelen : Nat} (hc : c.payload = .msg d addr namelen) :
    ∃ ptr b len, c.sqe.op = .recvMsg ptr b len := by
  have hadmits := h.admits
  rw [hc] at hadmits
  cases hop : c.sqe.op with
  | recvMsg ptr b len => exact ⟨ptr, b, len, rfl⟩
  | _ => simp [hop, SqeOp.admits] at hadmits

namespace Routed

/-- Nothing joined the live operations, and what the maps hold for them is as it was. -/
theorem mono {s t : UringCore F H T} {owed : Owed F} (h : s.Routed owed)
    (hlive : ∀ e ∈ t.live, e ∈ s.live) (htail : t.ring.tail = s.ring.tail)
    (hfuture : ∀ e ∈ t.live, t.futures.lookup e.fd = owed e.seq)
    (hrecv : ∀ e ∈ t.live, e.op.isRecv →
      t.inflightRecvBuffers.lookup e.fd = s.inflightRecvBuffers.lookup e.fd)
    (hmsg : ∀ fd st, s.recvmsgStates.lookup fd = some st →
      ∃ st', t.recvmsgStates.lookup fd = some st' ∧ st'.ptr = st.ptr)
    (hsize : t.bufferPool.bufferSize = s.bufferPool.bufferSize)
    (hposted : ∀ c ∈ t.ring.cq, t.Posted c) : t.Routed owed where
  below e he := by
    rw [htail]
    exact h.below e (hlive e he)
  seq_inj e he e' he' := h.seq_inj e (hlive e he) e' (hlive e' he')
  future := hfuture
  alone e he e' he' := h.alone e (hlive e he) e' (hlive e' he')
  recv e he b hb := by
    rw [hrecv e he (by rw [SqeOp.isRecv, hb]; rfl)]
    exact h.recv e (hlive e he) b hb
  msg e he ptr b len hop := by
    obtain ⟨st, hst, rfl⟩ := h.msg e (hlive e he) ptr b len hop
    exact hmsg e.fd st hst
  len e he := by
    rw [hsize]
    exact h.len e (hlive e he)
  posted := hposted

/-- The ring, the memory and the message states are as they were. -/
theorem of_futures {s t : UringCore F H T} {owed : Owed F} (h : s.Routed owed)
    (hlive : t.live = s.live) (hcq : t.ring.cq = s.ring.cq) (htail : t.ring.tail = s.ring.tail)
    (hfuture : ∀ e ∈ s.live, t.futures.lookup e.fd = owed e.seq)
    (hrecv : ∀ e ∈ s.live, e.op.isRecv →
      t.inflightRecvBuffers.lookup e.fd = s.inflightRecvBuffers.lookup e.fd)
    (hmsg : t.recvmsgStates = s.recvmsgStates)
    (hsize : t.bufferPool.bufferSize = s.bufferPool.bufferSize)
    (hmem : ∀ b ∈ s.undelivered, t.bufferPool.memory b = s.bufferPool.memory b) :
    t.Routed owed := by
  refine h.mono (by simp [hlive]) htail (by rw [hlive]; exact hfuture)
    (by rw [hlive]; exact hrecv) (fun fd st hst => ⟨st, by rw [hmsg]; exact hst, rfl⟩) hsize ?_
  intro c hc
  rw [hcq] at hc
  refine (h.posted c hc).mono hsize ?_ fun _ _ _ _ => by rw [hmsg]
  intro hne b hb hbytes
  rwa [hmem b (mem_undelivered hc hne hb)]

theorem of_same {s t : UringCore F H T} {owed : Owed F} (hst : SameLedger s t)
    (h : s.Routed owed) : t.Routed owed := by
  refine h.of_futures ?_ hst.cq hst.tail ?_ ?_ hst.recvmsgStates (by rw [hst.bufferPool]) ?_
  · rw [live, live, hst.inFlight, hst.cq]
  · rw [hst.futures]
    exact h.future
  · intro e _ _
    rw [hst.inflightRecvBuffers]
  · intro b _
    rw [hst.bufferPool]

theorem of_unregisterFd {s : UringCore F H T} {owed : Owed F} (hs : s.Sound) {fd : Fd}
    (hnone : ∀ e ∈ s.live, e.fd = fd → e.op.isRecv = false) (h : s.Routed owed) :
    (s.unregisterFd fd).Routed owed := by
  rw [unregisterFd_eq hs]
  refine h.of_futures rfl rfl rfl h.future ?_ rfl rfl fun _ _ => rfl
  intro e he hrecv
  have hfd : e.fd ≠ fd := by
    intro hfd
    rw [hnone e he hfd] at hrecv
    cases hrecv
  exact AList.lookup_erase_ne hfd

/-- A request that stores its future and is refused: live operations on the descriptor have no
future to lose. -/
theorem of_refused {s t : UringCore F H T} {owed : Owed F} (h : s.Routed owed) {fd : Fd} {future : F}
    (hfd : ∀ e ∈ s.live, e.fd = fd → owed e.seq = none)
    (hfutures : t.futures = (s.futures.insert fd future).erase fd) (hring : t.ring = s.ring)
    (hrecv : t.inflightRecvBuffers = s.inflightRecvBuffers)
    (hmsg : t.recvmsgStates = s.recvmsgStates)
    (hsize : t.bufferPool.bufferSize = s.bufferPool.bufferSize)
    (hmem : ∀ b ∈ s.undelivered, t.bufferPool.memory b = s.bufferPool.memory b) :
    t.Routed owed := by
  refine h.of_futures (by rw [live, live, hring]) (by rw [hring]) (by rw [hring]) ?_
    (fun _ _ _ => by rw [hrecv]) hmsg hsize hmem
  intro e he
  rw [hfutures]
  by_cases heq : e.fd = fd
  · rw [hfd e he heq, heq, AList.lookup_erase]
  · rw [AList.lookup_erase_ne heq, AList.lookup_insert_ne heq]
    exact h.future e he

/-- A request is issued: live operations on the descriptor have no future, and if there are any, it
brings none. -/
theorem of_issued {s t : UringCore F H T} {owed : Owed F} (h : s.Routed owed) {fd : Fd} {op : SqeOp}
    {e : Sqe} {future? : Option F} (hissued : s.ring.Issued fd op t.ring e)
    (hfd : ∀ e' ∈ s.live, e'.fd = fd → owed e'.seq = none ∧ future? = none)
    (hfuture : t.futures.lookup fd = future?)
    (hother : ∀ fd' ≠ fd, t.futures.lookup fd' = s.futures.lookup fd' ∧
      t.inflightRecvBuffers.lookup fd' = s.inflightRecvBuffers.lookup fd' ∧
      t.recvmsgStates.lookup fd' = s.recvmsgStates.lookup fd')
    (hrecv : ∀ b, op.recvBuf? = some b →
      t.inflightRecvBuffers.lookup fd = some b ∧ future? ≠ none)
    (hmsg : ∀ ptr b len, op = .recvMsg ptr b len →
      ∃ st, t.recvmsgStates.lookup fd = some st ∧ st.ptr = ptr)
    (hlen : op.recvLen ≤ s.bufferPool.bufferSize)
    (hsize : t.bufferPool.bufferSize = s.bufferPool.bufferSize)
    (hmem : ∀ b ∈ s.undelivered, t.bufferPool.memory b = s.bufferPool.memory b) :
    t.Routed (Function.update owed s.ring.tail future?) := by
  -- the new operation has a number of its own, and receives on the descriptor have futures
  have howed : ∀ e' ∈ s.live,
      Function.update owed s.ring.tail future? e'.seq = owed e'.seq := by
    intro e' he'
    exact Function.update_of_ne (Nat.ne_of_lt (h.below e' he')) _ _
  have hself : Function.update owed s.ring.tail future? e.seq = future? := by
    rw [hissued.seq_eq, Function.update_self]
  have hnorecv : ∀ e' ∈ s.live, e'.op.isRecv → e'.fd ≠ fd := by
    intro e' he' hisRecv heq
    obtain ⟨b, hb⟩ := Option.isSome_iff_exists.mp hisRecv
    exact (h.recv e' he' b hb).2 (hfd e' he' heq).1
  constructor
  case below =>
    intro e' he'
    rw [hissued.tail]
    obtain rfl | he' := (mem_live_issued hissued).mp he'
    · rw [hissued.seq_eq]
      exact Nat.lt_succ_self _
    · exact Nat.lt_succ_of_lt (h.below e' he')
  case seq_inj =>
    intro e₁ he₁ e₂ he₂ hseq
    obtain rfl | he₁ := (mem_live_issued hissued).mp he₁ <;>
      obtain rfl | he₂ := (mem_live_issued hissued).mp he₂
    · rfl
    · have := h.below e₂ he₂
      rw [← hseq, hissued.seq_eq] at this
      exact absurd this (Nat.lt_irrefl _)
    · have := h.below e₁ he₁
      rw [hseq, hissued.seq_eq] at this
      exact absurd this (Nat.lt_irrefl _)
    · exact h.seq_inj e₁ he₁ e₂ he₂ hseq
  case future =>
    intro e' he'
    obtain rfl | he' := (mem_live_issued hissued).mp he'
    · rw [hself, hissued.fd_eq, hfuture]
    · rw [howed e' he']
      by_cases heq : e'.fd = fd
      · rw [(hfd e' he' heq).1, heq, hfuture, (hfd e' he' heq).2]
      · rw [(hother e'.fd heq).1]
        exact h.future e' he'
  case alone =>
    intro e₁ he₁ e₂ he₂ heq hne
    obtain rfl | he₁ := (mem_live_issued hissued).mp he₁ <;>
      obtain rfl | he₂ := (mem_live_issued hissued).mp he₂
    · rfl
    · rw [hself] at hne
      exact absurd (hfd e₂ he₂ (heq.symm.trans hissued.fd_eq)).2 hne
    · rw [howed e₁ he₁] at hne
      exact absurd (hfd e₁ he₁ (heq.trans hissued.fd_eq)).1 hne
    · rw [howed e₁ he₁] at hne
      exact h.alone e₁ he₁ e₂ he₂ heq hne
  case recv =>
    intro e' he' b hb
    obtain rfl | he' := (mem_live_issued hissued).mp he'
    · rw [hself, hissued.fd_eq]
      rw [hissued.op_eq] at hb
      exact hrecv b hb
    · rw [howed e' he', (hother e'.fd (hnorecv e' he' (by rw [SqeOp.isRecv, hb]; rfl))).2.1]
      exact h.recv e' he' b hb
  case msg =>
    intro e' he' ptr b len hop
    obtain rfl | he' := (mem_live_issued hissued).mp he'
    · rw [hissued.fd_eq]
      rw [hissued.op_eq] at hop
      exact hmsg ptr b len hop
    · rw [(hother e'.fd (hnorecv e' he' (by rw [hop]; rfl))).2.2]
      exact h.msg e' he' ptr b len hop
  case len =>
    intro e' he'
    rw [hsize]
    obtain rfl | he' := (mem_live_issued hissued).mp he'
    · rw [hissued.op_eq]
      exact hlen
    · exact h.len e' he'
  case posted =>
    intro c hc
    rw [hissued.cq] at hc
    have hlive : c.sqe ∈ s.live := mem_live.mpr (.inr ⟨c, hc, rfl⟩)
    refine (h.posted c hc).mono hsize ?_ ?_
    · intro hne b hb hbytes
      rwa [hmem b (mem_undelivered hc hne hb)]
    · intro d addr namelen hpayload
      obtain ⟨ptr, b, len, hop⟩ := (h.posted c hc).isMsg hpayload
      exact (hother c.sqe.fd (hnorecv c.sqe hlive (by rw [hop]; rfl))).2.2

/-- The bytes a send copies do not touch what a tick has still to deliver. -/
theorem write_undelivered {s : UringCore F H T} {data : Bytes} {future : F} {bufIdx : UInt16}
    {rest : List UInt16} (hfree : s.bufferPool.freeList = bufIdx :: rest)
    (hstaged : ∀ b ∈ s.staged (.send data future), b ∉ s.undelivered) :
    ∀ b ∈ s.undelivered, (s.bufferPool.write bufIdx data).memory b = s.bufferPool.memory b := by
  intro b hb
  by_cases hdata : data = []
  · by_cases heq : b = bufIdx
    · simp [BufferPool.write, hdata, heq]
    · exact BufferPool.write_memory_ne heq data s.bufferPool
  · have hne : b ≠ bufIdx := by
      rintro rfl
      refine hstaged b ?_ hb
      simp [staged, hdata, hfree]
    exact BufferPool.write_memory_ne hne data s.bufferPool

/-- A receive that has a buffer and credit stores its future. -/
theorem reaches_recv {s : UringCore F H T} {fd : Fd} {req : Request F} {future : F} {st : FDState}
    {bufIdx : UInt16} {rest : List UInt16} (hreq : req = .recv future ∨ req = .recvfrom future)
    (hfree : s.bufferPool.freeList = bufIdx :: rest) (hst : s.fdStates.states.lookup fd = some st)
    (hcredit : st.shouldSubmitRecv) : s.Reaches fd req := by
  have hcredit : s.fdStates.shouldSubmitRecv fd := by
    rw [FDStateManager.shouldSubmitRecv, hst]
    exact hcredit
  have hbuffer : s.bufferPool.freeList ≠ [] := by
    rw [hfree]
    exact List.cons_ne_nil _ _
  obtain rfl | rfl := hreq <;> exact ⟨hcredit, hbuffer⟩

theorem of_request {s t : UringCore F H T} {owed : Owed F} {now : Nat}
    {enter : Except String Nat} {fd : Fd} {req : Request F}
    (hkeeps : KeepsRoutes (s, owed) (.request now enter fd req))
    (hsub : s.Submission enter fd req t) (h : s.Routed owed) :
    t.Routed (owed.upd s (.request now enter fd req) t) := by
  have hissue {op : SqeOp} {e : Sqe} (hissued : s.ring.Issued fd op t.ring e) :
      owed.upd s (.request now enter fd req) t =
        Function.update owed s.ring.tail req.future? :=
    if_neg (by rw [hissued.tail]; exact Nat.succ_ne_self _)
  have hkept (htail : t.ring.tail = s.ring.tail) :
      owed.upd s (.request now enter fd req) t = owed := if_pos htail
  -- what is issued has found room, and so keeps its future
  have hroom {op : SqeOp} {e : Sqe} (hissued : s.ring.Issued fd op t.ring e)
      (hkeeps : req.keepsFuture s.ring = decide (s.ring.sq.length < s.ring.entries)) :
      req.keepsFuture s.ring ≠ false := by
    rw [hkeeps, decide_eq_true hissued.room]
    rintro ⟨⟩
  cases hsub with
  | kept _ nextBox _ _ =>
    rw [hkept rfl]
    exact h.of_futures rfl rfl rfl h.future (fun _ _ _ => rfl) rfl rfl fun _ _ => rfl
  | recvRefused nextBox hreq hfree hst hcredit hfull =>
    have hreaches := reaches_recv hreq hfree hst hcredit
    rw [hkept rfl]
    exact h.of_refused (fun e he heq => ((hkeeps hreaches).1 e he heq).1) rfl rfl rfl rfl rfl
      fun _ _ => rfl
  | recvIssued nextBox hreq hfree hst hcredit hissued hop =>
    rename_i future bufIdx rest st ring e op recvmsgStates
    have hreaches := reaches_recv hreq hfree hst hcredit
    have hfuture : req.future? = some future := by obtain rfl | rfl := hreq <;> rfl
    have hstays : req.keepsFuture s.ring = decide (s.ring.sq.length < s.ring.entries) := by
      obtain rfl | rfl := hreq <;> rfl
    have hlen : s.bufLen ≤ s.bufferPool.bufferSize := Nat.mod_le _ _
    rw [hissue hissued, hfuture]
    refine h.of_issued hissued ?_ (AList.lookup_insert ..) ?_ ?_ ?_ ?_ rfl fun _ _ => rfl
    · intro e' he' heq
      exact absurd ((hkeeps hreaches).1 e' he' heq).2 (hroom hissued hstays)
    · intro fd' hne
      refine ⟨AList.lookup_insert_ne hne, AList.lookup_insert_ne hne, ?_⟩
      obtain ⟨-, rfl⟩ | ⟨state, -, rfl⟩ := hop
      · rfl
      · exact AList.lookup_insert_ne hne
    · intro b hb
      have hb : bufIdx = b := by
        obtain ⟨rfl, -⟩ | ⟨state, rfl, -⟩ := hop <;> exact Option.some.inj hb
      subst hb
      exact ⟨AList.lookup_insert .., Option.some_ne_none _⟩
    · intro ptr b len hmsg
      obtain ⟨rfl, -⟩ | ⟨state, rfl, rfl⟩ := hop
      · cases hmsg
      · cases hmsg
        exact ⟨state, AList.lookup_insert .., rfl⟩
    · obtain ⟨rfl, -⟩ | ⟨state, rfl, -⟩ := hop <;> exact hlen
  | sendPanicked hfree hlen =>
    rw [hkept rfl]
    exact h.of_futures rfl rfl rfl h.future (fun _ _ _ => rfl) rfl rfl fun _ _ => rfl
  | sendRefused hfree hlen hfull =>
    have hkeeps := hkeeps ⟨by rw [hfree]; exact List.cons_ne_nil _ _, hlen⟩
    rw [hkept rfl]
    exact h.of_refused (fun e he heq => (hkeeps.1 e he heq).1) rfl rfl rfl rfl rfl
      (write_undelivered hfree hkeeps.2.2.2)
  | sendIssued hfree hlen hissued =>
    have hkeeps := hkeeps ⟨by rw [hfree]; exact List.cons_ne_nil _ _, hlen⟩
    rw [hissue hissued]
    refine h.of_issued hissued ?_ (AList.lookup_insert ..) ?_ (by simp [SqeOp.recvBuf?]) (by simp)
      (Nat.zero_le _) rfl (write_undelivered hfree hkeeps.2.2.2)
    · intro e' he' heq
      exact absurd (hkeeps.1 e' he' heq).2 (hroom hissued rfl)
    · exact fun fd' hne => ⟨AList.lookup_insert_ne hne, rfl, rfl⟩
  | sendtoIssued state nextBox haddr hissued hfutures =>
    have hkeeps := hkeeps ⟨haddr, hissued.room⟩
    obtain rfl | ⟨-, msg, rfl⟩ := hfutures
    · rw [hissue hissued]
      refine h.of_issued hissued ?_ (AList.lookup_insert ..) ?_ (by simp [SqeOp.recvBuf?]) (by simp)
        (Nat.zero_le _) rfl fun _ _ => rfl
      · intro e' he' heq
        exact absurd (hkeeps.1 e' he' heq).2 (hroom hissued rfl)
      · exact fun fd' hne => ⟨AList.lookup_insert_ne hne, rfl, rfl⟩
    · cases hkeeps.2.2.1 rfl
  | acceptRefused hfull =>
    rw [hkept rfl]
    exact h.of_refused (fun e he heq => ((hkeeps trivial).1 e he heq).1) rfl rfl rfl rfl rfl
      fun _ _ => rfl
  | multishotRefused hring hfull =>
    rw [hkept rfl]
    refine h.of_futures rfl rfl rfl ?_ (fun _ _ _ => rfl) rfl rfl fun _ _ => rfl
    intro e he
    have hne : e.fd ≠ fd := by
      intro heq
      have := ((hkeeps hring).1 e he heq).2
      cases this
    exact (AList.lookup_insert_ne hne).trans (h.future e he)
  | plainIssued hreq hop hring hissued =>
    rename_i ring e op
    rw [hissue hissued]
    have hother : ∀ fd' ≠ fd, (storeFuture fd req.future? s.futures).lookup fd' =
        s.futures.lookup fd' := by
      intro fd' hne
      cases req.future? with
      | none => rfl
      | some future => exact AList.lookup_insert_ne hne
    have hbuf : op.recvBuf? = none ∧ op.recvLen = 0 ∧ ∀ ptr b len, op ≠ .recvMsg ptr b len := by
      have := hop.1
      cases op <;> simp_all [SqeOp.buf?, SqeOp.recvBuf?, SqeOp.recvLen]
    refine h.of_issued hissued ?_ ?_ (fun fd' hne => ⟨hother fd' hne, rfl, rfl⟩)
      (by simp [hbuf.1]) (fun ptr b len heq => absurd heq (hbuf.2.2 ptr b len))
      (by rw [hbuf.2.1]; exact Nat.zero_le _) rfl fun _ _ => rfl
    · intro e' he' heq
      cases req with
      | recvMultishot future =>
        have := ((hkeeps (hring future rfl)).1 e' he' heq).2
        cases this
      | accept future =>
        exact absurd ((hkeeps trivial).1 e' he' heq).2 (hroom hissued rfl)
      | acceptMultishot => exact ⟨((hkeeps hissued.room).1 e' he' heq).1, rfl⟩
      | close => exact ⟨((hkeeps hissued.room).1 e' he' heq).1, rfl⟩
      | _ => cases hreq
    · cases req with
      | recvMultishot future => exact AList.lookup_insert ..
      | accept future => exact AList.lookup_insert ..
      | acceptMultishot => exact (hkeeps hissued.room).2.1 rfl
      | close => exact (hkeeps hissued.room).2.1 rfl
      | _ => cases hreq

/-- A receive is live no longer when its completion has been processed. -/
theorem recv_gone {s : UringCore F H T} {c : Cqe} {cs : List Cqe} (hs : s.Sound)
    (hcq : s.ring.cq = c :: cs) (hrecv : c.sqe.op.isRecv) : c.sqe ∉ (s.processNext c cs).live := by
  have hsingle : ∀ c' ∈ s.ring.cq, c'.sqe = c.sqe → c'.more = false :=
    fun c' hc' heq => hs.ring.single c' hc' (by rw [heq]; exact hrecv)
  have hout := processNext_outstanding hcq
  rw [hsingle c (by rw [hcq]; exact List.mem_cons_self ..) rfl] at hout
  have hnot : c.sqe ∉ (s.processNext c cs).ring.outstanding := by
    intro hmem
    have hnodup := (hout.map Sqe.seq).nodup_iff.mp hs.ring.nodup
    exact (List.nodup_cons.mp hnodup).1 (List.mem_map_of_mem hmem)
  intro hlive
  apply hnot
  obtain hin | ⟨c', hc', heq⟩ := mem_live.mp hlive
  · exact List.mem_append_left _ hin
  · rw [processNext_eq] at hc'
    have hmore := hsingle c' (by rw [hcq]; exact List.mem_cons_of_mem _ hc') heq
    refine List.mem_append_right _ (List.mem_map.mpr ⟨c', List.mem_filter.mpr ⟨?_, ?_⟩, heq⟩)
    · rw [processNext_eq]
      exact hc'
    · rw [hmore]
      rfl

theorem of_processNext {s : UringCore F H T} {owed : Owed F} {c : Cqe} {cs : List Cqe}
    (hs : s.Sound) (hcq : s.ring.cq = c :: cs) (h : s.Routed owed) :
    (s.processNext c cs).Routed (Function.update owed c.sqe.seq none) := by
  have hc : c.sqe ∈ s.live := mem_live.mpr (.inr ⟨c, by rw [hcq]; exact List.mem_cons_self .., rfl⟩)
  have heq := processNext_eq c cs s
  -- a receive that stays live is on another descriptor
  have hrecv : ∀ e ∈ (s.processNext c cs).live, e.op.isRecv → e.fd ≠ c.sqe.fd := by
    intro e he hisRecv hfd
    have he' := live_processNext hcq he
    obtain ⟨b, hb⟩ := Option.isSome_iff_exists.mp hisRecv
    have hsame := h.alone e he' c.sqe hc hfd (h.recv e he' b hb).2
    exact recv_gone hs hcq (by rw [← hsame]; exact hisRecv) (hsame ▸ he)
  have hseq : ∀ e ∈ (s.processNext c cs).live, e.fd ≠ c.sqe.fd →
      Function.update owed c.sqe.seq none e.seq = owed e.seq := by
    intro e he hfd
    refine Function.update_of_ne (fun hseq => hfd ?_) _ _
    rw [h.seq_inj e (live_processNext hcq he) c.sqe hc hseq]
  have hlookup : ∀ fd ≠ c.sqe.fd,
      (s.processNext c cs).inflightRecvBuffers.lookup fd = s.inflightRecvBuffers.lookup fd ∧
      (s.processNext c cs).recvmsgStates.lookup fd = s.recvmsgStates.lookup fd := by
    intro fd hne
    rw [heq]
    constructor
    · simp only
      split
      · exact AList.lookup_erase_ne hne
      · rfl
    · simp only
      split
      · exact AList.lookup_erase_ne hne
      · rfl
  constructor
  case below =>
    intro e he
    rw [heq]
    exact h.below e (live_processNext hcq he)
  case seq_inj =>
    intro e he e' he'
    exact h.seq_inj e (live_processNext hcq he) e' (live_processNext hcq he')
  case future =>
    intro e he
    have he' := live_processNext hcq he
    have hfutures : (s.processNext c cs).futures = s.futures.erase c.sqe.fd := by rw [heq]
    rw [hfutures]
    by_cases hfd : e.fd = c.sqe.fd
    · rw [hfd, AList.lookup_erase]
      by_cases hnum : e.seq = c.sqe.seq
      · rw [hnum, Function.update_self]
      · rw [Function.update_of_ne hnum]
        by_contra hne
        exact hnum (by rw [h.alone e he' c.sqe hc hfd (Ne.symm hne)])
    · rw [AList.lookup_erase_ne hfd, hseq e he hfd]
      exact h.future e he'
  case alone =>
    intro e he e' he' hfd hne
    refine h.alone e (live_processNext hcq he) e' (live_processNext hcq he') hfd ?_
    by_cases hnum : e.seq = c.sqe.seq
    · rw [hnum, Function.update_self] at hne
      exact absurd rfl hne
    · rwa [Function.update_of_ne hnum] at hne
  case recv =>
    intro e he b hb
    have hfd := hrecv e he (by rw [SqeOp.isRecv, hb]; rfl)
    rw [hseq e he hfd, (hlookup e.fd hfd).1]
    exact h.recv e (live_processNext hcq he) b hb
  case msg =>
    intro e he ptr b len hop
    rw [(hlookup e.fd (hrecv e he (by rw [hop]; rfl))).2]
    exact h.msg e (live_processNext hcq he) ptr b len hop
  case len =>
    intro e he
    rw [heq]
    exact h.len e (live_processNext hcq he)
  case posted =>
    intro c' hc'
    have hmem : c' ∈ s.ring.cq := by
      rw [heq] at hc'
      rw [hcq]
      exact List.mem_cons_of_mem _ hc'
    have hposted := h.posted c' hmem
    refine hposted.mono (by rw [heq]) (fun _ b _ hbytes => by rw [heq]; exact hbytes) ?_
    intro d addr namelen hpayload
    obtain ⟨ptr, b, len, hop⟩ := hposted.isMsg hpayload
    exact (hlookup c'.sqe.fd
      (hrecv c'.sqe (mem_live.mpr (.inr ⟨c', hc', rfl⟩)) (by rw [hop]; rfl))).2

/-- A receive with a posted completion is not in flight any more. -/
theorem recv_posted {s : UringCore F H T} (hs : s.Sound) {c : Cqe} (hc : c ∈ s.ring.cq)
    (hrecv : c.sqe.op.isRecv) : c.sqe ∉ s.ring.inFlight := by
  have hmem : c.sqe ∈ s.ring.finished :=
    List.mem_map.mpr ⟨c, List.mem_filter.mpr ⟨hc, by rw [hs.ring.single c hc hrecv]; rfl⟩, rfl⟩
  have hnodup := hs.ring.nodup
  rw [Ring.outstanding, List.map_append] at hnodup
  intro hin
  exact (List.nodup_append.mp hnodup).2.2 _ (List.mem_map_of_mem hin) _
    (List.mem_map_of_mem hmem) rfl

theorem of_completed {s t : UringCore F H T} {owed : Owed F} {c : Cqe} (hs : s.Sound)
    (hc : s.Completed c t) (h : s.Routed owed)
    (hfree : c.payload.bytes ≠ [] → ∀ b, c.dest? = some b → b ∉ s.undelivered) :
    t.Routed owed := by
  have hlive : ∀ e ∈ t.live, e ∈ s.live := fun e he => hc.live he
  have hsize : t.bufferPool.bufferSize = s.bufferPool.bufferSize := by
    rw [hc.bufferPool]
    cases c.sqe.op.recvBuf?.or c.buf <;> rfl
  have hmemory : ∀ b, t.bufferPool.memory b =
      if c.dest? = some b then
        c.payload.bytes ++ (s.bufferPool.memory b).drop c.payload.bytes.length
      else s.bufferPool.memory b := by
    intro b
    rw [hc.bufferPool, Cqe.dest?]
    cases c.sqe.op.recvBuf?.or c.buf with
    | none => rfl
    | some b' =>
      by_cases heq : b = b'
      · subst heq
        simp [storeData, BufferPool.write]
      · rw [if_neg (fun h => heq (Option.some.inj h).symm)]
        exact BufferPool.write_memory_ne heq _ _
  have hc' : c.sqe ∈ s.live := mem_live.mpr (.inl hc.mem)
  refine h.mono hlive hc.tail ?_ ?_ ?_ hsize ?_
  · intro e he
    rw [hc.futures]
    exact h.future e (hlive e he)
  · intro e _ _
    rw [hc.inflightRecvBuffers]
  · intro fd st hst
    rw [hc.recvmsgStates]
    unfold storeAddr
    split
    · rename_i ptr b len d addr namelen state hop hpayload hstate
      split
      · by_cases heq : fd = c.sqe.fd
        · subst heq
          rw [hstate] at hst
          cases hst
          exact ⟨_, AList.lookup_insert .., rfl⟩
        · exact ⟨st, by rw [AList.lookup_insert_ne heq]; exact hst, rfl⟩
      · exact ⟨st, hst, rfl⟩
    · exact ⟨st, hst, rfl⟩
  · intro c' hmem
    rw [hc.cq] at hmem
    obtain hmem | hmem := List.mem_append.mp hmem
    · -- a completion that was posted before keeps its bytes and its address
      refine (h.posted c' hmem).mono hsize ?_ ?_
      · intro hne b hb hbytes
        rw [hmemory]
        split
        · rename_i hdest
          by_cases hempty : c.payload.bytes = []
          · rw [hempty]
            exact hbytes
          · exact absurd (mem_undelivered hmem hne hb) (hfree hempty b hdest)
        · exact hbytes
      · intro d addr namelen hpayload
        obtain ⟨ptr, b, len, hop⟩ := (h.posted c' hmem).isMsg hpayload
        have hrecv : c'.sqe.op.isRecv := by rw [hop]; rfl
        have hmem' : c'.sqe ∈ s.live := mem_live.mpr (.inr ⟨c', hmem, rfl⟩)
        have hfd : c'.sqe.fd ≠ c.sqe.fd := by
          intro hfd
          have hsame := h.alone c'.sqe hmem' c.sqe hc' hfd
            (h.recv c'.sqe hmem' b (by rw [hop]; rfl)).2
          exact recv_posted hs hmem hrecv (hsame ▸ hc.mem)
        rw [hc.recvmsgStates]
        unfold storeAddr
        split
        · split
          · exact AList.lookup_insert_ne hfd
          · rfl
        · rfl
    · -- the new one has just been written
      rw [List.mem_singleton.mp hmem]
      refine ⟨?_, ?_, ?_, ?_⟩
      · rw [bufLen, hsize]
        exact hc.admits
      · rw [hsize]
        exact SqeOp.admits_length hc.admits (h.len c.sqe hc') (Nat.mod_le _ _)
      · intro b hb
        rw [hmemory, if_pos hb]
        exact List.prefix_append _ _
      · intro d addr namelen hpayload
        have hadmits := hc.admits
        rw [hpayload] at hadmits
        cases hop : c.sqe.op with
        | recvMsg ptr b len =>
          obtain ⟨st, hst, hptr⟩ := h.msg c.sqe hc' ptr b len hop
          refine ⟨{ st with addr, namelen }, ?_, rfl, rfl⟩
          rw [hc.recvmsgStates]
          simp only [storeAddr, hop, hpayload, hst, hptr, if_true]
          exact AList.lookup_insert ..
        | _ => simp [hop, SqeOp.admits] at hadmits

end Routed

/-! ## What a tick resolves -/

/-- The bytes a tick reads for a posted completion are the ones it came with. -/
theorem Posted.slice {s : UringCore F H T} {c : Cqe} (h : s.Posted c) {b : UInt16}
    (hb : c.dest? = some b) :
    s.bufferPool.getBufferSlice b c.payload.bytes.length = c.payload.bytes := by
  rw [BufferPool.getBufferSlice, Nat.min_eq_left h.length]
  exact (List.prefix_iff_eq_take.mp (h.bytes b hb)).symm

/-- An errno goes to the future whatever was extracted, and so does a count. -/
theorem extract_outcome_scalar {s : UringCore F H T} {c : Cqe} (h : s.Posted c)
    (hp : c.payload.bytes = [] ∧ (c.payload.isError ∨ ∃ n, c.payload = .count n)) :
    (s.extract c.entry).2.outcome = c.payload.outcome := by
  obtain ⟨data, hitem⟩ := extract_item c.entry s
  have hadmits := h.admits
  rw [hitem, Cqe.entry_result, Cqe.entry_opType, CompletionItem.outcome]
  cases hpayload : c.payload with
  | error errno =>
    have hpos : 0 < errno := by
      rw [hpayload] at hadmits
      cases hop : c.sqe.op <;> simp_all [SqeOp.admits]
    have hneg : Payload.result (.error errno) < 0 := by
      show -(errno : Int) < 0
      omega
    rw [if_pos hneg]
    simp [Payload.result, Payload.outcome]
  | count n =>
    have hnot : CompletionItem.isRecv ⟨c.entry.fd, n, c.sqe.op.opType, data⟩ = false := by
      rw [hpayload] at hadmits
      cases hop : c.sqe.op <;> simp_all [SqeOp.admits, CompletionItem.isRecv, SqeOp.opType]
    have hnneg : ¬ Payload.result (.count n) < 0 := by
      show ¬ (n : Int) < 0
      omega
    rw [if_neg hnneg]
    simp only [Payload.result, hnot]
    rfl
  | data d => simp [hpayload, Payload.isError] at hp
  | msg d addr namelen => simp [hpayload, Payload.isError] at hp

/-- Phase 3 of a receive that has extracted these bytes. -/
theorem outcome_recv {item : CompletionItem} {d : Bytes} (hrecv : item.isRecv)
    (hresult : item.result = d.length)
    (hdata : d ≠ [] → item.dataBytes = some (.bytes d)) (hnone : d = [] → item.dataBytes = none) :
    item.outcome = .result (.bytes d) := by
  have hnneg : ¬ item.result < 0 := by omega
  rw [CompletionItem.outcome, if_neg hnneg, if_pos hrecv]
  by_cases hd : d = []
  · rw [hnone hd, hd]
    rfl
  · rw [hdata hd]
    rfl

/-- Received bytes go to the future when the buffer is found under the descriptor. -/
theorem Routed.extract_outcome {s : UringCore F H T} {owed : Owed F} (h : s.Routed owed) {c : Cqe}
    (hc : c ∈ s.ring.cq) : (s.extract c.entry).2.outcome = c.payload.outcome := by
  have hlive : c.sqe ∈ s.live := mem_live.mpr (.inr ⟨c, hc, rfl⟩)
  have hposted := h.posted c hc
  have hadmits := hposted.admits
  have hopType : c.entry.opType = c.sqe.op.opType := Cqe.entry_opType c
  have hresult : c.entry.result = c.payload.result := rfl
  cases hpayload : c.payload with
  | error errno =>
    rw [← hpayload]
    exact extract_outcome_scalar hposted (by simp [hpayload, Payload.bytes, Payload.isError])
  | count n =>
    rw [← hpayload]
    exact extract_outcome_scalar hposted (by simp [hpayload, Payload.bytes])
  | data d =>
    have hslice {b : UInt16} (hb : c.dest? = some b) :
        s.bufferPool.getBufferSlice b d.length = d := by
      have := hposted.slice hb
      rwa [hpayload] at this
    have hresult : c.entry.result = d.length := by rw [hresult, hpayload]; rfl
    have hpos : d ≠ [] → 0 < (d.length : Int) := by
      intro hd
      have := List.length_pos_iff.mpr hd
      omega
    rw [hpayload] at hadmits
    cases hop : c.sqe.op with
    | recv b len =>
      have hbuf := (h.recv c.sqe hlive b (by rw [hop]; rfl)).1
      rw [← Cqe.entry_fd] at hbuf
      rw [hop] at hopType
      rw [extract_recv hopType hbuf, hresult, Int.toNat_natCast,
        hslice (by rw [Cqe.dest?, hop]; rfl)]
      exact outcome_recv rfl rfl (fun hd => if_pos (hpos hd)) (fun hd => by rw [hd]; rfl)
    | recvMulti bgid =>
      rw [hop] at hopType hadmits
      rw [extract_recvMulti s hopType, hresult, Int.toNat_natCast, Cqe.entry_bufferIndex]
      cases hbuf : c.buf with
      | none =>
        have hd : d = [] := by simpa [SqeOp.admits, hbuf] using (Bool.and_eq_true_iff.mp hadmits).2
        exact outcome_recv rfl rfl (fun hne => absurd hd hne) (fun _ => rfl)
      | some b =>
        simp only [Option.bind_some]
        rw [hslice (by rw [Cqe.dest?, hop, hbuf]; rfl)]
        exact outcome_recv rfl rfl (fun hd => if_pos (hpos hd)) (fun hd => by rw [hd]; rfl)
    | _ => simp [hop, SqeOp.admits] at hadmits
  | msg d addr namelen =>
    obtain ⟨ptr, b, len, hop⟩ := hposted.isMsg hpayload
    obtain ⟨st, hst, rfl, rfl⟩ := hposted.addr d addr namelen hpayload
    have hbuf := (h.recv c.sqe hlive b (by rw [hop]; rfl)).1
    have hslice : s.bufferPool.getBufferSlice b d.length = d := by
      have := hposted.slice (show c.dest? = some b by rw [Cqe.dest?, hop]; rfl)
      rwa [hpayload] at this
    have hresult : c.entry.result = d.length := by rw [hresult, hpayload]; rfl
    rw [hop] at hopType
    rw [← Cqe.entry_fd] at hbuf hst
    rw [extract_recvMsg hopType hbuf hst, hresult, Int.toNat_natCast, hslice]
    cases d with
    | nil => rfl
    | cons x d =>
      have hpos : 0 < (((x :: d).length : Nat) : Int) := by
        rw [List.length_cons]
        omega
      have hnneg : ¬ (((x :: d).length : Nat) : Int) < 0 := by omega
      have hrecv (data : Option PyData) :
          CompletionItem.isRecv ⟨c.entry.fd, ((x :: d).length : Nat), .recvMsg, data⟩ := rfl
      rw [CompletionItem.outcome, if_neg hnneg, if_pos (hrecv _), if_pos hpos]
      cases hdecode : decodeAddr st.addr st.namelen <;>
        simp only [Payload.outcome, hdecode, Option.getD_some]

/-- A completion's own outcome, with its own future. -/
theorem Routed.process_outcome {s : UringCore F H T} {owed : Owed F} (h : s.Routed owed) {c : Cqe}
    (hc : c ∈ s.ring.cq) :
    ((s.process c.entry).2.1.outcome, (s.process c.entry).2.2) =
      (c.payload.outcome, owed c.sqe.seq) := by
  have hlive : c.sqe ∈ s.live := mem_live.mpr (.inr ⟨c, hc, rfl⟩)
  have hfuture : (s.process c.entry).2.2 = owed c.sqe.seq := by
    show s.futures.lookup c.entry.fd = _
    rw [Cqe.entry_fd]
    exact h.future c.sqe hlive
  rw [hfuture, ← h.extract_outcome hc]
  rfl

/-- Processing one completion after the other resolves each one's own future. -/
theorem Routed.processAll_expected {s : UringCore F H T} {owed : Owed F} (hs : s.Sound)
    (h : s.Routed owed) :
    ((processAll (s.ring.cq.map Cqe.entry) { s with ring := { s.ring with cq := [] } }).2.map
      fun r => (r.1.outcome, r.2)) = Owed.expected s.ring.cq owed := by
  generalize hcq : s.ring.cq = cqes
  induction cqes generalizing s owed with
  | nil => rfl
  | cons c cs ih =>
    have hring := process_ring c.entry s { s.ring with cq := cs }
    have hring' := process_ring c.entry s { s.ring with cq := [] }
    have hcq' : (s.processNext c cs).ring.cq = cs := by rw [processNext, hring]
    have hnext := ih (hs.of_processNext hcq) (h.of_processNext hs hcq) hcq'
    have hfirst := h.process_outcome (c := c) (by rw [hcq]; exact List.mem_cons_self ..)
    rw [processNext, hring] at hnext
    rw [List.map_cons, processAll, hring', List.map_cons, hfirst, Owed.expected]
    exact congrArg _ hnext

section
variable [LE T] [DecidableLE T]

/-- **What a tick resolves.** -/
theorem Routed.runTick_expected {Ω : Type} {settle : Ω → F → Outcome → Ω × List H} {clock : T}
    {enter : Except String Nat} {ω : Ω} {s : UringCore F H T} {owed : Owed F} (hs : s.Sound)
    (h : s.Routed owed) {out : TickOutput F H}
    (hout : (s.runTick settle clock enter ω).2.2 = .ok out) :
    (out.resolved.map fun r => (r.1.outcome, r.2)) = Owed.expected s.ring.cq owed := by
  have hsame : SameLedger s ((s.expireTimers clock).submit enter).1 := by
    have h := SameLedger.of_submit enter (s.expireTimers clock)
    exact { h with }
  rw [runTick_resolved hout, ← hsame.cq]
  exact (h.of_same hsame).processAll_expected (hs.of_same hsame)

theorem Routed.of_runTick {s : UringCore F H T} {owed : Owed F} (hs : s.Sound) (clock : T)
    (enter : Except String Nat) (pushed : List (List H)) (h : s.Routed owed) :
    (s.runTick scripted clock enter pushed).1.Routed
      (owed.upd s (.runTick clock enter pushed) (s.runTick scripted clock enter pushed).1) := by
  cases hsubmit : (s.ring.submit enter).2 with
  | error e =>
    have hupd (u : UringCore F H T) : owed.upd s (.runTick clock enter pushed) u = owed :=
      if_neg (by simp [Flushes, hsubmit, Except.isOk, Except.toBool])
    rw [hupd]
    exact h.of_same (runTick_error scripted clock pushed hsubmit)
  | ok n =>
    have hupd (u : UringCore F H T) :
        owed.upd s (.runTick clock enter pushed) u = owed.settle s.ring.cq :=
      if_pos (by simp [Flushes, hsubmit, Except.isOk, Except.toBool])
    rw [hupd]
    -- what has been processed so far is settled, and at the end that is the whole queue
    have htick := tick_rule (I := fun u : UringCore F H T => u.Sound ∧ ∃ done,
        s.ring.cq = done ++ u.ring.cq ∧ u.Routed (owed.settle done)) ?_ ?_ scripted clock enter
      pushed ⟨hs, [], rfl, h⟩
    · obtain ⟨-, done, hcq, hrouted⟩ := htick
      rw [(runTick_ring scripted clock pushed hsubmit).1, List.append_nil] at hcq
      rwa [hcq]
    · rintro u v huv ⟨hu, done, hcq, hrouted⟩
      exact ⟨hu.of_same huv, done, by rw [huv.cq]; exact hcq, hrouted.of_same huv⟩
    · rintro u c cs hu_cq ⟨hu, done, hcq, hrouted⟩
      refine ⟨hu.of_processNext hu_cq, done ++ [c], ?_, ?_⟩
      · rw [hcq, hu_cq, processNext_eq, List.append_assoc]
        rfl
      · rw [Owed.settle, List.foldl_append]
        exact hrouted.of_processNext hu hu_cq

theorem Routed.step {s t : UringCore F H T} {owed : Owed F} {a : Act F H T} (hs : s.Sound)
    (h : s.Routed owed) (hkeeps : KeepsRoutes (s, owed) a) (hstep : machine.step s a = some t) :
    t.Routed (owed.upd s a t) := by
  cases a with
  | registerFd fd socketType =>
    cases hstep
    exact h.of_futures rfl rfl rfl h.future (fun _ _ _ => rfl) rfl rfl fun _ _ => rfl
  | unregisterFd fd =>
    cases hstep
    exact h.of_unregisterFd hs hkeeps
  | pauseReading fd =>
    cases hstep
    exact h.of_same (SameLedger.of_withFdStates s fd true)
  | resumeReading fd =>
    cases hstep
    exact h.of_same (SameLedger.of_withFdStates s fd false)
  | registerFile init update fd =>
    cases hstep
    exact h.of_same (registerFile_ledger init update fd s)
  | unregisterFile update fd =>
    cases hstep
    exact h.of_same (unregisterFile_ledger update fd s)
  | request now enter fd req =>
    cases hstep
    exact h.of_request hkeeps (request_spec hs now req)
  | submit enter =>
    cases hstep
    exact h.of_same (SameLedger.of_submit enter s)
  | runTick clock enter pushed =>
    cases hstep
    exact h.of_runTick hs clock enter pushed
  | consume n =>
    cases hstep
    exact h.of_same (SameLedger.of_ring s (Ring.inFlight_take n s.ring) rfl rfl)
  | complete i payload select more =>
    obtain ⟨c, hi, rfl, rfl, rfl, hc⟩ := complete_spec hstep
    refine h.of_completed hs hc fun hne b hb => hkeeps hne c.sqe hi b ?_
    have hselected : s.selected c.buf.isSome = c.buf := by
      cases hbuf : c.buf with
      | none => rfl
      | some b' => exact hc.buf b' hbuf
    rw [hselected]
    exact hb

/-- The machine with the futures still owed as a history variable. -/
def routingMachine : Machine (UringCore F H T × Owed F) (Act F H T) :=
  machine.ghost fun s a t owed => owed.upd s a t

/-- **Every completion resolves its own operation's future, with its own outcome**, in every run
whose steps keep futures and operations together: the future of every live operation is the one
passed to its submission, and whatever a tick resolves next is what is owed. -/
theorem routed_of_keepsRoutes {setup : Setup} {bufferSize bufferCount : Nat}
    {core t : UringCore F H T} {owed : Owed F} {acts : List (Act F H T)}
    (hnew : new setup bufferSize bufferCount = .ok core)
    (hrun : routingMachine.run (core, fun _ => none) acts = some (t, owed))
    (hkeeps : routingMachine.Meets KeepsRoutes (core, fun _ => none) acts) :
    (∀ e ∈ t.live, t.futures.lookup e.fd = owed e.seq) ∧
    ∀ (Ω : Type) (settle : Ω → F → Outcome → Ω × List H) (clock : T) (enter : Except String Nat)
      (ω : Ω) (out : TickOutput F H), (t.runTick settle clock enter ω).2.2 = .ok out →
        (out.resolved.map fun r => (r.1.outcome, r.2)) = Owed.expected t.ring.cq owed := by
  have hstart : core.Routed fun _ => none := by
    obtain ⟨entries, pool, hpool, rfl⟩ := new_spec hnew
    constructor <;> simp [live, Ring.new, Ring.inFlight]
  obtain ⟨hs, h⟩ : t.Sound ∧ t.Routed owed := by
    refine Machine.run_invariant (I := fun x : UringCore F H T × Owed F =>
      x.1.Sound ∧ x.1.Routed x.2) ?_ ⟨sound_new hnew, hstart⟩ hkeeps hrun
    rintro ⟨s, o⟩ a ⟨u, o'⟩ ⟨hs, ho⟩ hC hstep
    obtain ⟨hcore, rfl⟩ := Machine.ghost_step_mk.mp hstep
    exact ⟨hs.step hcore, ho.step hs hC hcore⟩
  exact ⟨h.future, fun _ _ _ _ _ _ hout => h.runTick_expected hs hout⟩

end

/-- A receive on descriptor 5 and a send on descriptor 6, completed in the other order. -/
def twoFdsRun : List (Act Nat Unit Nat) :=
  [.registerFd 5 "tcp", .request 0 (.ok 1) 5 (.recv 7), .request 0 (.ok 1) 6 (.send [1] 8),
    .complete 1 (.count 1) false false, .complete 0 (.data [9]) false false]

theorem routed_twoFds :
    ∃ (core t : UringCore Nat Unit Nat) (owed : Owed Nat) (out : TickOutput Nat Unit),
      new Setup.plain 16 2 = .ok core ∧
      routingMachine.run (core, fun _ => none) twoFdsRun = some (t, owed) ∧
      (t.runTick scripted 0 (.ok 0) []).2.2 = .ok out ∧
      (out.resolved.map fun r => (r.1.outcome, r.2)) = Owed.expected t.ring.cq owed ∧
      Owed.expected t.ring.cq owed =
        [(.result (.int 1), some 8), (.result (.bytes [9]), some 7)] :=
  ⟨_, _, _, _, rfl, rfl, rfl, (routed_of_keepsRoutes (show new Setup.plain 16 2 = .ok _ from rfl)
    (show routingMachine.run (_, fun _ => none) twoFdsRun = some (_, _) from rfl)
    (by decide)).2 _ scripted 0 (.ok 0) [] _ rfl, rfl⟩

/-- A send on a descriptor with a receive in flight: the future of the receive is replaced, and the
future of the send gets the received bytes. -/
theorem send_replaces_recv :
    ∃ (core t : UringCore Nat Unit Nat) (owed : Owed Nat) (out : TickOutput Nat Unit),
      new Setup.plain 16 2 = .ok core ∧
      routingMachine.run (core, fun _ => none) [.registerFd 5 "tcp",
        .request 0 (.ok 1) 5 (.recv 7), .request 0 (.ok 1) 5 (.send [1] 8),
        .complete 0 (.data [9]) false false] = some (t, owed) ∧
      (t.runTick scripted 0 (.ok 0) []).2.2 = .ok out ∧
      Owed.expected t.ring.cq owed = [(.result (.bytes [9]), some 7)] ∧
      (out.resolved.map fun r => (r.1.outcome, r.2)) = [(.result (.bytes [9]), some 8)] :=
  ⟨_, _, _, _, rfl, rfl, rfl, rfl, rfl⟩

end UringCore

end Uringcore
