import Uringcore.Core.Submission
import Uringcore.Core.Tick
import Uringcore.Lib.Machine

/-!
# The core and the kernel

One machine for the core together with the kernel behind its ring. A label is either a call of one
of the core's methods or something the kernel does by itself: taking entries from the submission
queue (its polling thread may, at any moment) and completing an operation it has taken. Callbacks
that a tick executes call the core after the tick has finished with it, so they are further labels.

The rest of the module cuts the steps down to what invariants have to look at. `SameLedger` covers
the steps that move nothing between the places the invariants speak of; `tick_rule` reduces a tick
to one completion at a time.
-/

namespace Uringcore

/-- May `op` complete so? `select` says that a provided buffer was taken, `more` that the operation
goes on. -/
def SqeOp.admits (op : SqeOp) (bufLen : Nat) (payload : Payload) (select more : Bool) : Bool :=
  match op, payload with
  | .recvMulti _, .error errno => 0 < errno && !more
  | .recvMulti _, .data d => d.length ≤ bufLen && (select || d.isEmpty)
  | .acceptMulti, .count clientFd => clientFd < 2 ^ 31 && !select
  | _, .error errno => 0 < errno && !select && !more
  | .recv _ len, .data d => d.length ≤ len && !select && !more
  | .recvMsg _ _ len, .msg d _ _ => d.length ≤ len && !select && !more
  | .send _ len, .count n => n ≤ len && !select && !more
  | .sendMsg _ len, .count n => n ≤ len && !select && !more
  | .accept, .count clientFd => clientFd < 2 ^ 31 && !select && !more
  | .close, .count n => n = 0 && !select && !more
  | _, _ => false

namespace UringCore
variable {F H T : Type}

/-- The provided buffer the kernel would select next. -/
def nextProvided (core : UringCore F H T) : Option UInt16 :=
  core.pbufRing.bind fun r => (r.published core.pbufHead).head?

/-- The kernel fills in the header of a `recvmsg`, if the box is still there. -/
def storeAddr (sqe : Sqe) (payload : Payload) (states : FdMap RecvMsgState) :
    FdMap RecvMsgState :=
  match sqe.op, payload, states.lookup sqe.fd with
  | .recvMsg msg _ _, .msg _ addr namelen, some state =>
      if state.ptr = msg then states.insert sqe.fd { state with addr, namelen } else states
  | _, _, _ => states

def selected (select : Bool) (core : UringCore F H T) : Option UInt16 :=
  if select then core.nextProvided else none

/-- The kernel stores the bytes it has received. -/
def storeData (dest : Option UInt16) (payload : Payload) (pool : BufferPool) : BufferPool :=
  match dest with
  | some bufIdx => pool.write bufIdx payload.bytes
  | none => pool

/-- The kernel completes the operation at position `i` of those it has taken. -/
def complete (i : Nat) (payload : Payload) (select more : Bool) (core : UringCore F H T) :
    Option (UringCore F H T) :=
  match core.ring.kernel[i]? with
  | none => none
  | some e =>
      if e.op.admits core.bufLen payload select more ∧ (select → core.nextProvided.isSome) then
        some { core with
          ring := { core.ring with
            kernel := if more then core.ring.kernel else core.ring.kernel.eraseIdx i
            cq := core.ring.cq ++ [⟨e, payload, core.selected select, more⟩] }
          bufferPool := storeData (e.op.recvBuf?.or (core.selected select)) payload core.bufferPool
          pbufHead := if select then core.pbufHead + 1 else core.pbufHead
          recvmsgStates := storeAddr e payload core.recvmsgStates }
      else none

inductive Act (F H T : Type) where
  | registerFd (fd : Fd) (socketType : String)
  | unregisterFd (fd : Fd)
  | pauseReading (fd : Fd)
  | resumeReading (fd : Fd)
  | registerFile (init update : Option String) (fd : Fd)
  | unregisterFile (update : Option String) (fd : Fd)
  | request (now : Nat) (enter : Except String Nat) (fd : Fd) (req : Request F)
  | submit (enter : Except String Nat)
  /-- A tick; `pushed` are the handles that setting the results pushes, one list for each future. -/
  | runTick (clock : T) (enter : Except String Nat) (pushed : List (List H))
  /-- The kernel's polling thread takes `n` entries. -/
  | consume (n : Nat)
  | complete (i : Nat) (payload : Payload) (select more : Bool)

/-- The futures of a machine run push what the label says. -/
def scripted (pushed : List (List H)) (_ : F) (_ : Outcome) : List (List H) × List H :=
  (pushed.tail, pushed.headD [])

section
variable [LE T] [DecidableLE T]

def step (core : UringCore F H T) : Act F H T → Option (UringCore F H T)
  | .registerFd fd socketType => some (core.registerFd fd socketType)
  | .unregisterFd fd => some (core.unregisterFd fd)
  | .pauseReading fd => some (core.pauseReading fd).1
  | .resumeReading fd => some (core.resumeReading fd).1
  | .registerFile init update fd => some { core with ring := (core.ring.registerFile init update fd).1 }
  | .unregisterFile update fd => some { core with ring := (core.ring.unregisterFile update fd).1 }
  | .request now enter fd req => some (core.request now enter fd req).1
  | .submit enter => some (core.submit enter).1
  | .runTick clock enter pushed => some (core.runTick scripted clock enter pushed).1
  | .consume n => some { core with ring := core.ring.take n }
  | .complete i payload select more => core.complete i payload select more

def machine : Machine (UringCore F H T) (Act F H T) := ⟨step⟩

end

/-! ## Steps that move nothing -/

/-- Two cores that agree on everything the invariants speak of. -/
structure SameLedger (s t : UringCore F H T) : Prop where
  inFlight : t.ring.inFlight = s.ring.inFlight
  cq : t.ring.cq = s.ring.cq
  tail : t.ring.tail = s.ring.tail
  bufferPool : t.bufferPool = s.bufferPool
  inflightRecvBuffers : t.inflightRecvBuffers = s.inflightRecvBuffers
  futures : t.futures = s.futures
  pbufRing : t.pbufRing = s.pbufRing
  pbufHead : t.pbufHead = s.pbufHead
  recvmsgStates : t.recvmsgStates = s.recvmsgStates
  sendmsgStates : t.sendmsgStates = s.sendmsgStates
  fdStates : t.fdStates = s.fdStates ∨ ∃ fd st b, s.fdStates.states.lookup fd = some st ∧
    t.fdStates = { s.fdStates with
      states := s.fdStates.states.insert fd { st with isPaused := b } }


namespace SameLedger

theorem refl (s : UringCore F H T) : SameLedger s s where
  inFlight := rfl
  cq := rfl
  tail := rfl
  bufferPool := rfl
  inflightRecvBuffers := rfl
  futures := rfl
  pbufRing := rfl
  pbufHead := rfl
  recvmsgStates := rfl
  sendmsgStates := rfl
  fdStates := .inl rfl

/-- Only the ring changed, and it holds the same operations and completions. -/
theorem of_ring (s : UringCore F H T) {ring : Ring} (hinFlight : ring.inFlight = s.ring.inFlight)
    (hcq : ring.cq = s.ring.cq) (htail : ring.tail = s.ring.tail) :
    SameLedger s { s with ring } :=
  { refl s with inFlight := hinFlight, cq := hcq, tail := htail }

theorem outstanding {s t : UringCore F H T} (h : SameLedger s t) :
    t.ring.outstanding = s.ring.outstanding := by
  rw [Ring.outstanding, Ring.outstanding, Ring.finished, Ring.finished, h.inFlight, h.cq]

theorem of_submit (enter : Except String Nat) (s : UringCore F H T) :
    SameLedger s (s.submit enter).1 :=
  of_ring s (by simp) (by simp) (by simp)

/-- Pausing and resuming write one flag. -/
theorem of_withFdStates (s : UringCore F H T) (fd : Fd) (b : Bool) :
    SameLedger s
      (s.withFdStates (s.fdStates.withStateMut fd fun st => { st with isPaused := b })).1 := by
  unfold withFdStates
  split
  · rename_i fdStates h
    obtain ⟨st, hst, rfl⟩ := FDStateManager.withStateMut_ok h
    exact { refl s with fdStates := .inr ⟨fd, st, b, hst, rfl⟩ }
  · exact refl s

end SameLedger

/-- Registering files changes nothing but the table of files. -/
theorem registerFile_ledger (init update : Option String) (fd : Fd) (s : UringCore F H T) :
    SameLedger s { s with ring := (s.ring.registerFile init update fd).1 } := by
  have h : ∃ table, (s.ring.registerFile init update fd).1 =
      { s.ring with registeredFds := table } := by
    unfold Ring.registerFile
    simp only
    split
    · exact ⟨_, rfl⟩
    · split
      · exact ⟨_, rfl⟩
      · split <;> exact ⟨_, rfl⟩
  obtain ⟨table, h⟩ := h
  rw [h]
  exact SameLedger.of_ring s rfl rfl rfl

theorem unregisterFile_ledger (update : Option String) (fd : Fd) (s : UringCore F H T) :
    SameLedger s { s with ring := (s.ring.unregisterFile update fd).1 } := by
  have h : ∃ table, (s.ring.unregisterFile update fd).1 =
      { s.ring with registeredFds := table } := by
    unfold Ring.unregisterFile
    split
    · exact ⟨_, rfl⟩
    · split <;> exact ⟨_, rfl⟩
  obtain ⟨table, h⟩ := h
  rw [h]
  exact SameLedger.of_ring s rfl rfl rfl

/-! ## A completion by the kernel -/

@[simp] theorem storeData_freeList (dest : Option UInt16) (payload : Payload) (pool : BufferPool) :
    (storeData dest payload pool).freeList = pool.freeList := by
  cases dest <;> rfl

@[simp] theorem storeData_quarantine (dest : Option UInt16) (payload : Payload)
    (pool : BufferPool) : (storeData dest payload pool).quarantine = pool.quarantine := by
  cases dest <;> rfl

/-- All that a completion by the kernel does: `c` is posted. -/
structure Completed (s : UringCore F H T) (c : Cqe) (t : UringCore F H T) : Prop where
  admits : c.sqe.op.admits s.bufLen c.payload c.buf.isSome c.more
  buf : ∀ b, c.buf = some b → s.nextProvided = some b
  /-- The operation goes on, or leaves those in flight. -/
  inFlight : if c.more then t.ring.inFlight = s.ring.inFlight
    else t.ring.inFlight.Sublist s.ring.inFlight ∧ s.ring.inFlight.Perm (c.sqe :: t.ring.inFlight)
  mem : c.sqe ∈ s.ring.inFlight
  cq : t.ring.cq = s.ring.cq ++ [c]
  tail : t.ring.tail = s.ring.tail
  bufferPool : t.bufferPool = storeData (c.sqe.op.recvBuf?.or c.buf) c.payload s.bufferPool
  pbufHead : t.pbufHead = if c.buf.isSome then s.pbufHead + 1 else s.pbufHead
  recvmsgStates : t.recvmsgStates = storeAddr c.sqe c.payload s.recvmsgStates
  inflightRecvBuffers : t.inflightRecvBuffers = s.inflightRecvBuffers
  futures : t.futures = s.futures
  fdStates : t.fdStates = s.fdStates
  pbufRing : t.pbufRing = s.pbufRing
  sendmsgStates : t.sendmsgStates = s.sendmsgStates

theorem complete_spec {s t : UringCore F H T} {i : Nat} {payload : Payload} {select more : Bool}
    (h : s.complete i payload select more = some t) : ∃ c : Cqe, s.ring.kernel[i]? = some c.sqe ∧
      c.payload = payload ∧ c.more = more ∧ c.buf.isSome = select ∧ s.Completed c t := by
  unfold complete at h
  split at h
  · cases h
  · rename_i e he
    split at h
    · rename_i hadmits
      obtain ⟨hlt, hget⟩ := List.getElem?_eq_some_iff.mp he
      cases h
      have hsel : (s.selected select).isSome = select := by
        cases select with
        | false => rfl
        | true => exact hadmits.2 rfl
      refine ⟨⟨e, payload, s.selected select, more⟩, he, rfl, rfl, hsel, ?_⟩
      exact {
        admits := by
          simp only [hsel]
          exact hadmits.1
        buf := by
          intro b hb
          cases select with
          | false => cases hb
          | true => exact hb
        -- the last completion takes the operation out of the kernel, any other leaves it there
        inFlight := by
          cases more with
          | true => rfl
          | false =>
            simp only [Bool.false_eq_true, if_false, Ring.inFlight]
            refine ⟨(List.eraseIdx_sublist _ _).append_right _, ?_⟩
            have hperm := (List.getElem_cons_eraseIdx_perm hlt).symm
            rw [hget] at hperm
            exact hperm.append_right _
        mem := List.mem_append_left _ (List.mem_of_getElem? he)
        cq := rfl
        tail := rfl
        bufferPool := rfl
        pbufHead := by
          simp only [hsel]
        recvmsgStates := rfl
        inflightRecvBuffers := rfl
        futures := rfl
        fdStates := rfl
        pbufRing := rfl
        sendmsgStates := rfl }
    · cases h

/-- An operation leaves the outstanding ones when its last completion is drained, not when it is
posted. -/
theorem Completed.outstanding {s t : UringCore F H T} {c : Cqe} (h : s.Completed c t) :
    t.ring.outstanding.Perm s.ring.outstanding := by
  have hin := h.inFlight
  simp only [Ring.outstanding, Ring.finished, h.cq, List.filter_append, List.map_append]
  cases hmore : c.more with
  | true =>
    rw [hmore, if_pos rfl] at hin
    simp [hin, hmore]
  | false =>
    rw [hmore] at hin
    have hperm := hin.2.append_right ((s.ring.cq.filter (!·.more)).map Cqe.sqe)
    refine List.Perm.trans ?_ hperm.symm
    simp only [hmore, Bool.not_false, List.filter_cons_of_pos, List.filter_nil, List.map_cons,
      List.map_nil, ← List.append_assoc]
    exact List.perm_append_singleton _ _

/-! ## A tick, one completion at a time -/

/-- The ring has lost its oldest completion, and the code has processed it. -/
def processNext (c : Cqe) (cs : List Cqe) (core : UringCore F H T) : UringCore F H T :=
  (process c.entry { core with ring := { core.ring with cq := cs } }).1

/-- The buffer that processing a completion of `sqe` gives back: the one tracked for its descriptor
if it is a receive. -/
def returned (sqe : Sqe) (s : UringCore F H T) : List UInt16 :=
  if sqe.op.isRecv then (s.inflightRecvBuffers.lookup sqe.fd).toList else []

theorem processNext_eq (c : Cqe) (cs : List Cqe) (s : UringCore F H T) :
    s.processNext c cs = { s with
      ring := { s.ring with cq := cs }
      bufferPool := { s.bufferPool with
        freeList := s.bufferPool.freeList ++ s.returned c.sqe }
      inflightRecvBuffers := if c.sqe.op.isRecv then s.inflightRecvBuffers.erase c.sqe.fd
        else s.inflightRecvBuffers
      futures := s.futures.erase c.sqe.fd
      recvmsgStates :=
        if c.sqe.op.opType = .recvMsg ∧ (s.inflightRecvBuffers.lookup c.sqe.fd).isSome then
          s.recvmsgStates.erase c.sqe.fd
        else s.recvmsgStates
      sendmsgStates := if c.sqe.op.opType = .sendMsg then s.sendmsgStates.erase c.sqe.fd
        else s.sendmsgStates } := by
  have htracked : c.entry.opType.isTracked = c.sqe.op.isRecv := by
    rw [Cqe.entry_opType]
    cases c.sqe.op <;> rfl
  rw [processNext, process_ring, process, extract_eq, htracked, Cqe.entry_opType, Cqe.entry_fd]
  rfl

@[simp] theorem processNext_inFlight (c : Cqe) (cs : List Cqe) (s : UringCore F H T) :
    (s.processNext c cs).ring.inFlight = s.ring.inFlight := by
  rw [processNext_eq]
  rfl

/-- Processing the last completion of an operation takes it out of the outstanding ones. -/
theorem processNext_outstanding {c : Cqe} {cs : List Cqe} {s : UringCore F H T}
    (hcq : s.ring.cq = c :: cs) :
    if c.more then (s.processNext c cs).ring.outstanding = s.ring.outstanding
    else s.ring.outstanding.Perm (c.sqe :: (s.processNext c cs).ring.outstanding) := by
  rw [processNext_eq]
  cases hmore : c.more with
  | true => simp [Ring.outstanding, Ring.finished, Ring.inFlight, hcq, hmore]
  | false =>
    simp only [Ring.outstanding, Ring.finished, Ring.inFlight, hcq, List.filter_cons, hmore]
    exact List.perm_middle

/-- What every completion's processing preserves, processing all of them preserves. -/
theorem processAll_rule {I : UringCore F H T → Prop}
    (hprocess : ∀ s c cs, s.ring.cq = c :: cs → I s → I (s.processNext c cs))
    {s : UringCore F H T} (hI : I s) :
    I (processAll (s.ring.cq.map Cqe.entry) { s with ring := { s.ring with cq := [] } }).1 := by
  generalize hcq : s.ring.cq = cqes
  induction cqes generalizing s with
  | nil =>
    show I { s with ring := { s.ring with cq := [] } }
    rw [← hcq]
    exact hI
  | cons c cs ih =>
    have hI' := hprocess s c cs hcq hI
    have hring := process_ring c.entry s { s.ring with cq := cs }
    have hring' := process_ring c.entry s { s.ring with cq := [] }
    have hcq' : (s.processNext c cs).ring.cq = cs := by rw [processNext, hring]
    have hnext := ih hI' hcq'
    rw [processNext, hring] at hnext
    rw [List.map_cons, processAll, hring']
    exact hnext

/-- The completions of a batch are processed in their order. -/
theorem processAll_items (cqes : List Cqe) (core : UringCore F H T) :
    ((processAll (cqes.map Cqe.entry) core).2.map fun r => (r.1.fd, r.1.opType, r.1.result)) =
      cqes.map fun c => (c.sqe.fd, c.sqe.op.opType, c.payload.result) := by
  induction cqes generalizing core with
  | nil => rfl
  | cons c cs ih =>
    obtain ⟨data, hitem⟩ := extract_item c.entry core
    rw [List.map_cons, processAll, List.map_cons, ih, process, hitem, Cqe.entry_fd,
      Cqe.entry_opType, Cqe.entry_result, List.map_cons]

/-- The first completion of a batch on a descriptor has its future. -/
theorem processAll_futures {cqes : List Cqe} (core : UringCore F H T) {i : Nat} {c : Cqe}
    (h : cqes[i]? = some c) :
    ((processAll (cqes.map Cqe.entry) core).2[i]?).map Prod.snd =
      some (if c.sqe.fd ∈ (cqes.take i).map (·.sqe.fd) then none else core.futures.lookup c.sqe.fd) := by
  induction cqes generalizing core i with
  | nil => cases h
  | cons c₀ cs ih =>
    rw [List.map_cons, processAll]
    cases i with
    | zero =>
      obtain rfl := Option.some_inj.mp h
      rw [List.take_zero, List.map_nil, if_neg List.not_mem_nil]
      show some (core.futures.lookup c₀.entry.fd) = _
      rw [Cqe.entry_fd]
    | succ i =>
      have hfutures : (core.process c₀.entry).1.futures = core.futures.erase c₀.sqe.fd := by
        rw [process, Cqe.entry_fd]
      rw [List.getElem?_cons_succ, ih _ h, hfutures, List.take_succ_cons, List.map_cons]
      by_cases hfd : c.sqe.fd = c₀.sqe.fd
      · have hgone : (core.futures.erase c₀.sqe.fd).lookup c.sqe.fd = none := by
          rw [hfd, AList.lookup_erase]
        rw [hgone, ite_self, if_pos (hfd ▸ List.mem_cons_self)]
      · simp [hfd, AList.lookup_erase_ne hfd]

/-- The flush of a tick succeeds. -/
def Flushes (core : UringCore F H T) (enter : Except String Nat) : Prop :=
  (core.ring.submit enter).2.isOk

instance (core : UringCore F H T) (enter : Except String Nat) : Decidable (core.Flushes enter) :=
  inferInstanceAs (Decidable ((core.ring.submit enter).2.isOk = true))

section
variable [LE T] [DecidableLE T]

/-- The two ways a tick can go: the flush fails, or everything drained is processed. -/
theorem runTick_core {Ω : Type} (settle : Ω → F → Outcome → Ω × List H) (clock : T)
    (enter : Except String Nat) (ω : Ω) (s : UringCore F H T) :
    let flushed := ((s.expireTimers clock).submit enter).1
    ((∃ e, (s.ring.submit enter).2 = .error e) ∧
      (s.runTick settle clock enter ω).1 = flushed) ∨
    (∃ n, (s.ring.submit enter).2 = .ok n) ∧
      (s.runTick settle clock enter ω).1 =
        { (processAll (flushed.ring.cq.map Cqe.entry)
            { flushed with ring := { flushed.ring with cq := [] } }).1 with scheduler := [] } := by
  intro flushed
  have hring : (s.expireTimers clock).ring = s.ring := rfl
  have hflushed : flushed = { s.expireTimers clock with ring := (s.ring.submit enter).1 } := rfl
  unfold runTick
  simp only [hring]
  split
  · rename_i ring e hsubmit
    refine .inl ⟨⟨e, by rw [hsubmit]⟩, ?_⟩
    rw [hflushed, hsubmit]
  · rename_i ring n hsubmit
    refine .inr ⟨⟨n, by rw [hsubmit]⟩, ?_⟩
    rw [processCompletions_eq, hflushed, hsubmit]
    rfl

/-- What a tick reports is the processing of everything that was in the queue. -/
theorem runTick_resolved {Ω : Type} {settle : Ω → F → Outcome → Ω × List H} {clock : T}
    {enter : Except String Nat} {ω : Ω} {s : UringCore F H T} {out : TickOutput F H}
    (h : (s.runTick settle clock enter ω).2.2 = .ok out) :
    let flushed := ((s.expireTimers clock).submit enter).1
    out.resolved = (processAll (flushed.ring.cq.map Cqe.entry)
      { flushed with ring := { flushed.ring with cq := [] } }).2 := by
  intro flushed
  have hring : (s.expireTimers clock).ring = s.ring := rfl
  have hflushed : flushed = { s.expireTimers clock with ring := (s.ring.submit enter).1 } := rfl
  unfold runTick at h
  simp only [hring] at h
  split at h
  · cases h
  · rename_i ring n hsubmit
    cases h
    simp only
    rw [processCompletions_eq, hflushed, hsubmit]
    rfl

/-- After a tick whose flush succeeded nothing is left to drain. -/
theorem runTick_ring {Ω : Type} (settle : Ω → F → Outcome → Ω × List H) (clock : T)
    {enter : Except String Nat} (ω : Ω) {s : UringCore F H T} {n : Nat}
    (h : (s.ring.submit enter).2 = .ok n) :
    (s.runTick settle clock enter ω).1.ring = { (s.ring.submit enter).1 with cq := [] } ∧
      (s.runTick settle clock enter ω).1.fdStates = s.fdStates := by
  obtain ⟨⟨e, he⟩, -⟩ | ⟨-, ht⟩ := runTick_core settle clock enter ω s
  · rw [h] at he
    cases he
  · rw [ht]
    exact processAll_frame _ _

/-- A tick whose flush failed has processed nothing. -/
theorem runTick_error {Ω : Type} (settle : Ω → F → Outcome → Ω × List H) (clock : T)
    {enter : Except String Nat} (ω : Ω) {s : UringCore F H T} {e : Error}
    (h : (s.ring.submit enter).2 = .error e) :
    SameLedger s (s.runTick settle clock enter ω).1 := by
  obtain ⟨-, ht⟩ | ⟨⟨n, hn⟩, -⟩ := runTick_core settle clock enter ω s
  · rw [ht]
    exact { SameLedger.of_submit enter (s.expireTimers clock) with }
  · rw [h] at hn
    cases hn

/-- **The tick rule.** A property of the ledger that survives the processing of each completion
survives a tick. -/
theorem tick_rule {I : UringCore F H T → Prop} (hsame : ∀ s t, SameLedger s t → I s → I t)
    (hprocess : ∀ s c cs, s.ring.cq = c :: cs → I s → I (s.processNext c cs))
    {Ω : Type} (settle : Ω → F → Outcome → Ω × List H) (clock : T) (enter : Except String Nat)
    (ω : Ω) {s : UringCore F H T} (hI : I s) : I (s.runTick settle clock enter ω).1 := by
  have hflushed : I ((s.expireTimers clock).submit enter).1 := by
    refine hsame s _ ?_ hI
    have h := SameLedger.of_submit enter (s.expireTimers clock)
    exact { h with }
  obtain ⟨-, h⟩ | ⟨-, h⟩ := runTick_core settle clock enter ω s
  · rw [h]
    exact hflushed
  · rw [h]
    refine hsame _ _ ?_ (processAll_rule hprocess hflushed)
    exact { SameLedger.refl _ with }

end

/-! ## Soundness -/

/-- The core that a construction which succeeds gives. -/
theorem new_spec {setup : Setup} {bufferSize bufferCount : Nat} {core : UringCore F H T}
    (h : new setup bufferSize bufferCount = .ok core) :
    ∃ entries pool, BufferPool.new setup.mmap bufferSize bufferCount = .ok pool ∧ core = {
      ring := .new entries
      bufferPool := pool
      fdStates := .new
      inflightRecvBuffers := ∅
      timers := #[]
      scheduler := []
      futures := ∅
      pbufRing := setupPbufRing setup pool
      pbufHead := 0
      recvmsgStates := ∅
      sendmsgStates := ∅
      nextBox := 0 } := by
  unfold new at h
  split at h
  · cases h
  · rename_i entries _
    split at h
    · cases h
    · rename_i pool hpool
      split at h
      · cases h
      · cases h
        exact ⟨entries, pool, hpool, rfl⟩

theorem sound_new {setup : Setup} {bufferSize bufferCount : Nat} {core : UringCore F H T}
    (h : new setup bufferSize bufferCount = .ok core) : core.Sound := by
  obtain ⟨entries, pool, hpool, rfl⟩ := new_spec h
  exact {
    ring := ⟨by simp [Ring.outstanding, Ring.inFlight, Ring.finished, Ring.new],
      by simp [Ring.outstanding, Ring.inFlight, Ring.finished, Ring.new], by simp [Ring.new]⟩
    quarantine := by
      obtain ⟨base, rfl⟩ := BufferPool.new_ok hpool
      rfl
    generation := by simp [FDStateManager.new]
    bufferQueue := by simp [FDStateManager.new]
    budget := by simp [FDStateManager.new] }

namespace Sound

/-- Soundness is about the ring, the quarantine and the states only. -/
theorem of_states {s t : UringCore F H T} (hs : s.Sound) (hring : t.ring.Numbered)
    (hquarantine : t.bufferPool.quarantine = s.bufferPool.quarantine)
    (hgeneration : t.fdStates.generationId = s.fdStates.generationId)
    (hstates : ∀ fd st, t.fdStates.states.lookup fd = some st →
      s.fdStates.states.lookup fd = some st ∨ st.generationId = s.fdStates.generationId ∧
        st.bufferQueue = [] ∧ st.creditBudget = defaultCreditBudget ∧
        st.inflightCount ≤ defaultCreditBudget) : t.Sound where
  ring := hring
  quarantine := hquarantine.trans hs.quarantine
  generation fd st h := by
    rw [hgeneration]
    obtain h | h := hstates fd st h
    · exact hs.generation fd st h
    · exact h.1
  bufferQueue fd st h := by
    obtain h | h := hstates fd st h
    · exact hs.bufferQueue fd st h
    · exact h.2.1
  budget fd st h := by
    obtain h | h := hstates fd st h
    · exact hs.budget fd st h
    · exact h.2.2

/-- Writing one good state keeps a core sound. -/
theorem of_insert {s t : UringCore F H T} (hs : s.Sound) (hring : t.ring.Numbered)
    (hquarantine : t.bufferPool.quarantine = s.bufferPool.quarantine) {fd : Fd} {st : FDState}
    (hfd : t.fdStates = { s.fdStates with states := s.fdStates.states.insert fd st })
    (hst : st.generationId = s.fdStates.generationId ∧ st.bufferQueue = [] ∧
      st.creditBudget = defaultCreditBudget ∧ st.inflightCount ≤ defaultCreditBudget) :
    t.Sound := by
  refine hs.of_states hring hquarantine (by rw [hfd]) ?_
  intro fd' st' h
  rw [hfd] at h
  obtain ⟨-, rfl⟩ | ⟨-, hold⟩ := AList.lookup_insert_eq_some.mp h
  · exact .inr hst
  · exact .inl hold

theorem of_same {s t : UringCore F H T} (h : SameLedger s t) (hs : s.Sound) : t.Sound := by
  have hring : t.ring.Numbered :=
    hs.ring.congr (by rw [h.outstanding]) h.tail (by rw [h.cq]; exact hs.ring.single)
  obtain hst | ⟨fd, st, b, hst, hfd⟩ := h.fdStates
  · exact hs.of_states hring (by rw [h.bufferPool]) (by rw [hst])
      fun fd st h => .inl (by rw [hst] at h; exact h)
  · refine hs.of_insert hring (by rw [h.bufferPool]) hfd ?_
    exact ⟨hs.generation fd st hst, hs.bufferQueue fd st hst, hs.budget fd st hst⟩

/-- With credit left, one more receive stays within the budget. -/
theorem onSubmit {s : UringCore F H T} (hs : s.Sound) {fd : Fd} {st : FDState}
    (hst : s.fdStates.states.lookup fd = some st) (hcredit : st.shouldSubmitRecv) :
    st.onSubmit.generationId = s.fdStates.generationId ∧ st.onSubmit.bufferQueue = [] ∧
      st.onSubmit.creditBudget = defaultCreditBudget ∧
      st.onSubmit.inflightCount = st.inflightCount + 1 ∧
      st.onSubmit.inflightCount ≤ defaultCreditBudget := by
  have hqueue := hs.bufferQueue fd st hst
  obtain ⟨hbudget, hcount⟩ := hs.budget fd st hst
  simp only [FDState.shouldSubmitRecv, FDState.hasCredit, FDState.used, hqueue, hbudget,
    Bool.and_eq_true, decide_eq_true_eq, List.length_nil] at hcredit
  have h64 : defaultCreditBudget = 64 := rfl
  have hcredit := hcredit.2
  refine ⟨hs.generation fd st hst, hqueue, hbudget, ?_, ?_⟩ <;>
    simp only [FDState.onSubmit] <;> omega

theorem of_submission {s t : UringCore F H T} {enter : Except String Nat} {fd : Fd}
    {req : Request F} (h : s.Submission enter fd req t) (hs : s.Sound) : t.Sound := by
  cases h with
  | recvRefused _ _ _ hst hcredit _ =>
    have hnew := hs.onSubmit hst hcredit
    exact hs.of_insert hs.ring rfl rfl ⟨hnew.1, hnew.2.1, hnew.2.2.1, hnew.2.2.2.2⟩
  | recvIssued _ _ _ hst hcredit hissued _ =>
    have hnew := hs.onSubmit hst hcredit
    exact hs.of_insert (hissued.numbered hs.ring) rfl rfl
      ⟨hnew.1, hnew.2.1, hnew.2.2.1, hnew.2.2.2.2⟩
  | sendIssued _ _ hissued | sendtoIssued _ _ _ hissued _ | plainIssued _ _ _ hissued =>
    exact hs.of_states (hissued.numbered hs.ring) rfl rfl fun _ _ h => .inl h
  | _ => exact hs.of_states hs.ring rfl rfl fun _ _ h => .inl h

theorem of_completed {s t : UringCore F H T} {c : Cqe} (h : s.Completed c t) (hs : s.Sound) :
    t.Sound := by
  refine hs.of_states (hs.ring.congr h.outstanding h.tail ?_)
    (by rw [h.bufferPool, storeData_quarantine]) (by rw [h.fdStates])
    fun _ _ hst => .inl (by rw [h.fdStates] at hst; exact hst)
  intro c' hc' hrecv
  rw [h.cq] at hc'
  obtain hc' | hc' := List.mem_append.mp hc'
  · exact hs.ring.single c' hc' hrecv
  · rw [List.mem_singleton.mp hc'] at hrecv ⊢
    have hadmits := h.admits
    cases hop : c.sqe.op <;> cases hp : c.payload <;>
      simp_all [SqeOp.isRecv, SqeOp.recvBuf?, SqeOp.admits]

end Sound

/-- In a sound core unregistering returns the tracked buffer and nothing else. -/
theorem unregisterFd_eq {s : UringCore F H T} (hs : s.Sound) (fd : Fd) :
    s.unregisterFd fd = { s with
      bufferPool := { s.bufferPool with
        freeList := s.bufferPool.freeList ++ (s.inflightRecvBuffers.lookup fd).toList }
      inflightRecvBuffers := s.inflightRecvBuffers.erase fd
      fdStates := { s.fdStates with states := s.fdStates.states.erase fd } } := by
  have hqueue : ((s.fdStates.states.lookup fd).map (·.bufferQueue)).getD [] = [] := by
    cases hst : s.fdStates.states.lookup fd with
    | none => rfl
    | some st => exact hs.bufferQueue fd st hst
  unfold unregisterFd FDStateManager.unregister
  cases hbuf : s.inflightRecvBuffers.lookup fd with
  | none => simp [hqueue, AList.erase_of_lookup_eq_none hbuf]
  | some bufIdx => simp [hqueue, releaseBuffer]

theorem Sound.of_unregisterFd {s : UringCore F H T} (hs : s.Sound) (fd : Fd) :
    (s.unregisterFd fd).Sound := by
  rw [unregisterFd_eq hs]
  refine hs.of_states hs.ring rfl rfl ?_
  intro fd' st h
  exact .inl (AList.lookup_erase_eq_some.mp h).2

theorem Sound.of_processNext {s : UringCore F H T} {c : Cqe} {cs : List Cqe}
    (hcq : s.ring.cq = c :: cs) (hs : s.Sound) : (s.processNext c cs).Sound := by
  have hout := processNext_outstanding hcq
  have heq := processNext_eq c cs s
  have hring : (s.processNext c cs).ring.Numbered := by
    have htail : (s.processNext c cs).ring.tail = s.ring.tail := by rw [heq]
    have hsingle : ∀ c' ∈ (s.processNext c cs).ring.cq, c'.sqe.op.isRecv → c'.more = false := by
      rw [heq]
      exact fun c' hc' => hs.ring.single c' (by rw [hcq]; exact List.mem_cons_of_mem _ hc')
    split at hout
    · exact hs.ring.congr (by rw [hout]) htail hsingle
    · refine ⟨?_, ?_, hsingle⟩
      · intro e he
        rw [htail]
        exact hs.ring.below e (hout.mem_iff.mpr (List.mem_cons_of_mem _ he))
      · exact (List.nodup_cons.mp ((hout.map Sqe.seq).nodup_iff.mp hs.ring.nodup)).2
  refine hs.of_states hring ?_ ?_ fun _ _ h => .inl ?_
  · rw [heq]
  · rw [heq]
  · rw [heq] at h
    exact h

section
variable [LE T] [DecidableLE T]

theorem Sound.step {s t : UringCore F H T} {a : Act F H T} (hs : s.Sound)
    (h : machine.step s a = some t) : t.Sound := by
  cases a with
  | registerFd fd socketType =>
    cases h
    exact hs.of_insert hs.ring rfl rfl ⟨rfl, rfl, rfl, Nat.zero_le _⟩
  | unregisterFd fd =>
    cases h
    exact hs.of_unregisterFd fd
  | pauseReading fd =>
    cases h
    exact hs.of_same (SameLedger.of_withFdStates s fd true)
  | resumeReading fd =>
    cases h
    exact hs.of_same (SameLedger.of_withFdStates s fd false)
  | registerFile init update fd =>
    cases h
    exact hs.of_same (registerFile_ledger init update fd s)
  | unregisterFile update fd =>
    cases h
    exact hs.of_same (unregisterFile_ledger update fd s)
  | request now enter fd req =>
    cases h
    exact hs.of_submission (request_spec hs now req)
  | submit enter =>
    cases h
    exact hs.of_same (SameLedger.of_submit enter s)
  | runTick clock enter pushed =>
    cases h
    exact tick_rule (fun _ _ h => of_same h) (fun _ _ _ hcq h => h.of_processNext hcq) _ _ _ _ hs
  | consume n =>
    cases h
    exact hs.of_same (SameLedger.of_ring s (Ring.inFlight_take n s.ring) rfl rfl)
  | complete i payload select more =>
    obtain ⟨c, -, -, -, -, hc⟩ := complete_spec h
    exact hs.of_completed hc

/-- **The step rule.** An invariant of the machine is one that only looks at the ledger and is
preserved by registering, unregistering, requests, ticks and completions; `C` restricts the steps. -/
theorem step_rule {I : UringCore F H T → Prop} {C : UringCore F H T → Act F H T → Prop}
    (hsame : ∀ s t, SameLedger s t → I s → I t)
    (hregister : ∀ s fd socketType, C s (.registerFd fd socketType) → s.Sound → I s →
      I (s.registerFd fd socketType))
    (hunregister : ∀ s fd, C s (.unregisterFd fd) → s.Sound → I s → I (s.unregisterFd fd))
    (hrequest : ∀ s t now enter fd req, C s (.request now enter fd req) → s.Sound →
      s.Submission enter fd req t → I s → I t)
    (htick : ∀ s clock enter pushed, C s (.runTick clock enter pushed) → s.Sound → I s →
      I (s.runTick scripted clock enter pushed).1)
    (hcomplete : ∀ s t c i, C s (.complete i c.payload c.buf.isSome c.more) → s.Sound →
      s.Completed c t → I s → I t)
    (s : UringCore F H T) (a : Act F H T) (t : UringCore F H T) (hI : s.Sound ∧ I s) (hC : C s a)
    (h : machine.step s a = some t) : t.Sound ∧ I t := by
  obtain ⟨hs, hI⟩ := hI
  refine ⟨hs.step h, ?_⟩
  cases a with
  | registerFd fd socketType =>
    cases h
    exact hregister s fd socketType hC hs hI
  | unregisterFd fd =>
    cases h
    exact hunregister s fd hC hs hI
  | pauseReading fd =>
    cases h
    exact hsame s _ (SameLedger.of_withFdStates s fd true) hI
  | resumeReading fd =>
    cases h
    exact hsame s _ (SameLedger.of_withFdStates s fd false) hI
  | registerFile init update fd =>
    cases h
    exact hsame s _ (registerFile_ledger init update fd s) hI
  | unregisterFile update fd =>
    cases h
    exact hsame s _ (unregisterFile_ledger update fd s) hI
  | request now enter fd req =>
    cases h
    exact hrequest s _ now enter fd req hC hs (request_spec hs now req) hI
  | submit enter =>
    cases h
    exact hsame s _ (SameLedger.of_submit enter s) hI
  | runTick clock enter pushed =>
    cases h
    exact htick s clock enter pushed hC hs hI
  | consume n =>
    cases h
    exact hsame s _ (SameLedger.of_ring s (Ring.inFlight_take n s.ring) rfl rfl) hI
  | complete i payload select more =>
    obtain ⟨c, -, rfl, rfl, hsel, hc⟩ := complete_spec h
    subst hsel
    exact hcomplete s t c i hC hs hc hI

end

end UringCore

/-! ## Two concrete machines -/

/-- A kernel without provided buffer rings. -/
def Setup.plain : Setup where
  ring := .ok 8
  mmap := fun _ => some 4096
  registerBuffers := .ok ()
  allocPbufRing := true
  registerPbufRing := false

/-- A kernel that accepts the provided buffer ring. -/
def Setup.provided : Setup := { Setup.plain with registerPbufRing := true }

end Uringcore
