import Uringcore.Core
import Uringcore.Lib.AssocList

/-!
# One tick

`runTick` follows `run_tick` up to the point where it starts executing handles: expired timers go to
the ready queue, the ring is flushed and drained, and the drained completions are processed in three
phases. Phase 1 (`extract`) looks at each completion on its own and manages buffers and message
states; phase 2 (`removeFutures`) takes the futures of all their descriptors out of the futures map
at once; phase 3 (`pair`) gives each completion the future removed for its descriptor, if an earlier
one of the batch has not had it.

The three phases are then shown to be what handling the completions one at a time would do:
`process` extracts one completion and takes its descriptor's future, and `processCompletions_eq`
says that the batch is the fold of it. Everything said about a tick later is proved of `process`.
-/

namespace Uringcore

/-- The Python value that goes with a completion. -/
inductive PyData where
  | bytes (b : Bytes)
  /-- `(bytes, address)`. -/
  | msg (b : Bytes) (addr : PyAddr)
  | int (n : Int)
  deriving DecidableEq, Repr

structure CompletionItem where
  fd : Fd
  result : Int
  opType : OpType
  dataBytes : Option PyData
  deriving DecidableEq, Repr

/-- The operations whose buffer `run_tick` looks up in `inflight_recv_buffers`. -/
def OpType.isTracked : OpType → Bool
  | .recv | .recvMsg => true
  | _ => false

/-- What a future is resolved with. -/
inductive Outcome where
  /-- `OSError(errno)`. -/
  | exception (errno : Int)
  | result (data : PyData)
  deriving DecidableEq, Repr

namespace CompletionItem

def isRecv (item : CompletionItem) : Bool :=
  item.opType = .recv || item.opType = .recvMulti || item.opType = .recvMsg

/-- Phase 3: what the future of this completion gets. -/
def outcome (item : CompletionItem) : Outcome :=
  if item.result < 0 then .exception (-item.result)
  else if item.isRecv then .result (item.dataBytes.getD (.bytes []))
  else .result (.int item.result)

end CompletionItem

/-- The tuple `run_tick` returns for a completion. -/
structure ResultTuple where
  fd : Fd
  opType : String
  result : Int
  data : Option PyData
  deriving DecidableEq, Repr

def CompletionItem.tuple (item : CompletionItem) : ResultTuple :=
  ⟨item.fd, item.opType.asStr, item.result, item.dataBytes⟩

namespace UringCore
variable {F H T : Type}

/-! ## The phases -/

/-- The address of a `RecvMsg` completion; its state goes away whatever the result is. -/
def takeRecvMsgState (c : CompletionEntry) (core : UringCore F H T) :
    UringCore F H T × Option PyAddr :=
  match core.recvmsgStates.lookup c.fd with
  | none => (core, none)
  | some state =>
      ({ core with recvmsgStates := core.recvmsgStates.erase c.fd },
        if 0 < c.result then decodeAddr state.addr state.namelen else none)

/-- The `Recv`/`RecvMsg` branch: the tracked buffer is sliced and released. -/
def extractRecv (c : CompletionEntry) (core : UringCore F H T) :
    UringCore F H T × Option PyData :=
  match core.inflightRecvBuffers.lookup c.fd with
  | none => (core, none)
  | some bufIdx =>
      let core := { core with inflightRecvBuffers := core.inflightRecvBuffers.erase c.fd }
      let r := if c.opType = .recvMsg then core.takeRecvMsgState c else (core, none)
      let slice := r.1.bufferPool.getBufferSlice bufIdx c.result.toNat
      (r.1.releaseBuffer bufIdx,
        if 0 < c.result then
          some (match r.2 with
            | some addr => .msg slice addr
            | none => .bytes slice)
        else none)

/-- Phase 1 for one completion. -/
def extract (c : CompletionEntry) (core : UringCore F H T) : UringCore F H T × CompletionItem :=
  let item : CompletionItem := ⟨c.fd, c.result, c.opType, none⟩
  match c.opType with
  | .recvMulti => match c.bufferIndex with
    | none => (core, item)
    | some bufIdx =>
        if 0 < c.result then
          (core, { item with
            dataBytes := some (.bytes (core.bufferPool.getBufferSlice bufIdx c.result.toNat)) })
        else (core, item)
  | .sendMsg =>
      ({ core with sendmsgStates := core.sendmsgStates.erase c.fd },
        { item with dataBytes := some (.int c.result) })
  | .recv | .recvMsg =>
      let r := core.extractRecv c
      (r.1, { item with dataBytes := r.2 })
  | _ => (core, item)

def extractAll : List CompletionEntry → UringCore F H T → UringCore F H T × List CompletionItem
  | [], core => (core, [])
  | c :: cs, core =>
      let r := core.extract c
      let rs := extractAll cs r.1
      (rs.1, r.2 :: rs.2)

/-- Phase 2: the futures left, and the ones removed. -/
def removeFutures : List Fd → FdMap F → FdMap F → FdMap F × FdMap F
  | [], futures, resolved => (futures, resolved)
  | fd :: fds, futures, resolved => match futures.lookup fd with
    | none => removeFutures fds futures resolved
    | some fut => removeFutures fds (futures.erase fd) (resolved.insert fd fut)

/-- Phase 3: each completion with the future it resolves. -/
def pair : List CompletionItem → FdMap F → List (CompletionItem × Option F)
  | [], _ => []
  | item :: items, resolved =>
      (item, resolved.lookup item.fd) :: pair items (resolved.erase item.fd)

def processCompletions (cqes : List CompletionEntry) (core : UringCore F H T) :
    UringCore F H T × List (CompletionItem × Option F) :=
  let r := core.extractAll cqes
  let futures := removeFutures (cqes.map (·.fd)) r.1.futures ∅
  ({ r.1 with futures := futures.1 }, pair r.2 futures.2)

/-- Setting the results: `settle` is what `set_result` or `set_exception` does in the world `ω` the
futures live in, with the handles it pushes to the ready queue. -/
def settleAll {Ω : Type} (settle : Ω → F → Outcome → Ω × List H) :
    List (CompletionItem × Option F) → Ω → Scheduler H → Ω × Scheduler H
  | [], ω, queue => (ω, queue)
  | (_, none) :: items, ω, queue => settleAll settle items ω queue
  | (item, some fut) :: items, ω, queue =>
      let r := settle ω fut item.outcome
      settleAll settle items r.1 (r.2.foldl (fun q h => q.push h) queue)

/-- What `run_tick` has done when it starts executing handles. -/
structure TickOutput (F H : Type) where
  /-- Each completion with the future that was resolved for it. -/
  resolved : List (CompletionItem × Option F)
  /-- The handles about to be executed. -/
  batch : List H
  results : List ResultTuple

/-- Expired timers go to the ready queue. -/
def expireTimers [LE T] [DecidableLE T] (clock : T) (core : UringCore F H T) : UringCore F H T :=
  let expired := core.timers.popExpired clock
  { core with
    timers := expired.1
    scheduler := expired.2.foldl (fun q h => q.push h) core.scheduler }

/-- `run_tick` at the time `clock`, up to the execution of the batch. -/
def runTick [LE T] [DecidableLE T] {Ω : Type} (settle : Ω → F → Outcome → Ω × List H) (clock : T)
    (enter : Except String Nat) (ω : Ω) (core : UringCore F H T) :
    UringCore F H T × Ω × Except PyErr (TickOutput F H) :=
  let core := core.expireTimers clock
  match core.ring.submit enter with
  | (ring, .error e) => ({ core with ring }, ω, .error (.runtimeError e.display))
  | (ring, .ok _) =>
      let drained := ring.drainCompletions
      let r := processCompletions drained.2 { core with ring := drained.1 }
      let settled := settleAll settle r.2 ω r.1.scheduler
      let ready := settled.2.drain
      ({ r.1 with scheduler := ready.1 }, settled.1,
        .ok ⟨r.2, ready.2, r.2.map (·.1.tuple)⟩)

/-! ## One completion at a time -/

/-- Extract one completion and take the future of its descriptor. -/
def process (c : CompletionEntry) (core : UringCore F H T) :
    UringCore F H T × (CompletionItem × Option F) :=
  let r := core.extract c
  ({ r.1 with futures := core.futures.erase c.fd }, r.2, core.futures.lookup c.fd)

def processAll : List CompletionEntry → UringCore F H T →
    UringCore F H T × List (CompletionItem × Option F)
  | [], core => (core, [])
  | c :: cs, core =>
      let r := core.process c
      let rs := processAll cs r.1
      (rs.1, r.2 :: rs.2)

@[simp] theorem takeRecvMsgState_frame (c : CompletionEntry) (core : UringCore F H T) (ring : Ring)
    (futures : FdMap F) : takeRecvMsgState c { core with ring, futures } =
      ({ (core.takeRecvMsgState c).1 with ring, futures }, (core.takeRecvMsgState c).2) := by
  unfold takeRecvMsgState
  cases core.recvmsgStates.lookup c.fd <;> rfl

@[simp] theorem extractRecv_frame (c : CompletionEntry) (core : UringCore F H T) (ring : Ring)
    (futures : FdMap F) : extractRecv c { core with ring, futures } =
      ({ (core.extractRecv c).1 with ring, futures }, (core.extractRecv c).2) := by
  unfold extractRecv
  cases core.inflightRecvBuffers.lookup c.fd with
  | none => rfl
  | some bufIdx =>
    by_cases hmsg : c.opType = .recvMsg
    · simp only [hmsg, if_true, takeRecvMsgState]
      cases core.recvmsgStates.lookup c.fd <;> rfl
    · simp only [hmsg, if_false]
      rfl

/-- Extraction neither reads nor changes the ring and the futures. -/
theorem extract_frame (c : CompletionEntry) (core : UringCore F H T) (ring : Ring)
    (futures : FdMap F) : extract c { core with ring, futures } =
      ({ (core.extract c).1 with ring, futures }, (core.extract c).2) := by
  unfold extract
  cases c.opType <;> simp only [extractRecv_frame]
  cases c.bufferIndex with
  | none => rfl
  | some bufIdx => by_cases hres : 0 < c.result <;> simp [hres]

/-- What extraction does: a receive returns the buffer *tracked for its descriptor*, and a message
operation drops the state kept for its descriptor. -/
theorem extract_eq (c : CompletionEntry) (core : UringCore F H T) :
    (core.extract c).1 = { core with
      bufferPool := { core.bufferPool with freeList := core.bufferPool.freeList ++
        if c.opType.isTracked then (core.inflightRecvBuffers.lookup c.fd).toList else [] }
      inflightRecvBuffers := if c.opType.isTracked then core.inflightRecvBuffers.erase c.fd
        else core.inflightRecvBuffers
      recvmsgStates :=
        if c.opType = .recvMsg ∧ (core.inflightRecvBuffers.lookup c.fd).isSome then
          core.recvmsgStates.erase c.fd
        else core.recvmsgStates
      sendmsgStates := if c.opType = .sendMsg then core.sendmsgStates.erase c.fd
        else core.sendmsgStates } := by
  unfold extract
  cases hop : c.opType with
  | recv =>
    cases hbuf : core.inflightRecvBuffers.lookup c.fd with
    | none =>
      simp [extractRecv, hbuf, OpType.isTracked, AList.erase_of_lookup_eq_none hbuf]
    | some bufIdx => simp [extractRecv, hop, hbuf, OpType.isTracked, releaseBuffer]
  | recvMsg =>
    cases hbuf : core.inflightRecvBuffers.lookup c.fd with
    | none =>
      simp [extractRecv, hbuf, OpType.isTracked, AList.erase_of_lookup_eq_none hbuf]
    | some bufIdx =>
      cases hmsg : core.recvmsgStates.lookup c.fd with
      | none =>
        simp [extractRecv, takeRecvMsgState, hop, hbuf, hmsg, OpType.isTracked, releaseBuffer,
          AList.erase_of_lookup_eq_none hmsg]
      | some state =>
        simp [extractRecv, takeRecvMsgState, hop, hbuf, hmsg, OpType.isTracked, releaseBuffer]
  | recvMulti =>
    cases c.bufferIndex with
    | none => simp [OpType.isTracked]
    | some bufIdx => by_cases hres : 0 < c.result <;> simp [hres, OpType.isTracked]
  | sendMsg => simp [OpType.isTracked]
  | _ => simp [OpType.isTracked]

/-- What a receive extracts: the bytes of the buffer tracked for its descriptor. -/
theorem extract_recv {c : CompletionEntry} {core : UringCore F H T} {bufIdx : UInt16}
    (hop : c.opType = .recv) (hbuf : core.inflightRecvBuffers.lookup c.fd = some bufIdx) :
    (core.extract c).2 = ⟨c.fd, c.result, .recv,
      if 0 < c.result then
        some (.bytes (core.bufferPool.getBufferSlice bufIdx c.result.toNat))
      else none⟩ := by
  simp [extract, hop, extractRecv, hbuf]

/-- What a `recvmsg` extracts: the address comes from the state kept for its descriptor. -/
theorem extract_recvMsg {c : CompletionEntry} {core : UringCore F H T} {bufIdx : UInt16}
    {st : RecvMsgState} (hop : c.opType = .recvMsg)
    (hbuf : core.inflightRecvBuffers.lookup c.fd = some bufIdx)
    (hst : core.recvmsgStates.lookup c.fd = some st) :
    (core.extract c).2 = ⟨c.fd, c.result, .recvMsg,
      if 0 < c.result then
        some (match decodeAddr st.addr st.namelen with
          | some addr => .msg (core.bufferPool.getBufferSlice bufIdx c.result.toNat) addr
          | none => .bytes (core.bufferPool.getBufferSlice bufIdx c.result.toNat))
      else none⟩ := by
  by_cases hres : 0 < c.result
  · simp [extract, hop, extractRecv, hbuf, takeRecvMsgState, hst, hres]
  · simp [extract, hop, extractRecv, hbuf, hres]

/-- What a multishot receive extracts: the bytes of the buffer the kernel selected. -/
theorem extract_recvMulti {c : CompletionEntry} (core : UringCore F H T)
    (hop : c.opType = .recvMulti) :
    (core.extract c).2 = ⟨c.fd, c.result, .recvMulti, c.bufferIndex.bind fun bufIdx =>
      if 0 < c.result then
        some (.bytes (core.bufferPool.getBufferSlice bufIdx c.result.toNat))
      else none⟩ := by
  cases hindex : c.bufferIndex with
  | none => simp [extract, hop, hindex]
  | some bufIdx => by_cases hres : 0 < c.result <;> simp [extract, hop, hindex, hres]

theorem extract_futures (c : CompletionEntry) (core : UringCore F H T) (m : FdMap F) :
    extract c { core with futures := m } =
      ({ (core.extract c).1 with futures := m }, (core.extract c).2) := by
  have hring : (core.extract c).1.ring = core.ring :=
    congrArg (fun r => r.1.ring) (extract_frame c core core.ring core.futures)
  rw [← hring]
  exact extract_frame c core (core.extract c).1.ring m

/-- Processing a completion does not touch the ring. -/
theorem process_ring (c : CompletionEntry) (core : UringCore F H T) (ring : Ring) :
    process c { core with ring } =
      ({ (core.process c).1 with ring }, (core.process c).2) := by
  have h := extract_frame c core ring core.futures
  simp only [process, h]

/-- Processing a completion does not touch the ready queue. -/
theorem process_scheduler (c : CompletionEntry) (core : UringCore F H T) (scheduler : Scheduler H) :
    process c { core with scheduler } =
      ({ (core.process c).1 with scheduler }, (core.process c).2) := by
  have hrecv : extractRecv c { core with scheduler } =
      ({ (core.extractRecv c).1 with scheduler }, (core.extractRecv c).2) := by
    unfold extractRecv
    cases core.inflightRecvBuffers.lookup c.fd with
    | none => rfl
    | some bufIdx =>
      by_cases hop : c.opType = .recvMsg
      · simp only [hop, if_true, takeRecvMsgState]
        cases core.recvmsgStates.lookup c.fd <;> rfl
      · simp only [hop, if_false]
        rfl
  have hextract : extract c { core with scheduler } =
      ({ (core.extract c).1 with scheduler }, (core.extract c).2) := by
    unfold extract
    cases c.opType <;> simp only [hrecv]
    cases c.bufferIndex with
    | none => rfl
    | some bufIdx => by_cases hres : 0 < c.result <;> simp [hres]
  simp only [process, hextract]

theorem processAll_scheduler (cqes : List CompletionEntry) (core : UringCore F H T)
    (scheduler : Scheduler H) : processAll cqes { core with scheduler } =
      ({ (core.processAll cqes).1 with scheduler }, (core.processAll cqes).2) := by
  induction cqes generalizing core with
  | nil => rfl
  | cons c cs ih => simp only [processAll, process_scheduler, ih]

/-- Processing leaves the ring and the states of descriptors alone. -/
theorem processAll_frame (cqes : List CompletionEntry) (core : UringCore F H T) :
    (core.processAll cqes).1.ring = core.ring ∧ (core.processAll cqes).1.fdStates = core.fdStates := by
  induction cqes generalizing core with
  | nil => exact ⟨rfl, rfl⟩
  | cons c cs ih =>
    obtain ⟨hring, hstates⟩ := ih (core.process c).1
    refine ⟨hring.trans ?_, hstates.trans ?_⟩ <;> rw [process, extract_eq]

/-- What extraction copies from the completion. -/
theorem extract_item (c : CompletionEntry) (core : UringCore F H T) :
    ∃ data, (core.extract c).2 = ⟨c.fd, c.result, c.opType, data⟩ := by
  unfold extract
  cases c.opType with
  | recvMulti =>
    cases c.bufferIndex with
    | none => exact ⟨_, rfl⟩
    | some bufIdx => by_cases hres : 0 < c.result <;> simp [hres]
  | _ => exact ⟨_, rfl⟩

@[simp] theorem extract_item_fd (c : CompletionEntry) (core : UringCore F H T) :
    (core.extract c).2.fd = c.fd := by
  obtain ⟨data, h⟩ := extract_item c core
  rw [h]

theorem extractAll_futures (cqes : List CompletionEntry) (core : UringCore F H T) (m : FdMap F) :
    extractAll cqes { core with futures := m } =
      ({ (core.extractAll cqes).1 with futures := m }, (core.extractAll cqes).2) := by
  induction cqes generalizing core with
  | nil => rfl
  | cons c cs ih => simp only [extractAll, extract_futures, ih]

theorem extractAll_map_fd (cqes : List CompletionEntry) (core : UringCore F H T) :
    (core.extractAll cqes).2.map (·.fd) = cqes.map (·.fd) := by
  induction cqes generalizing core with
  | nil => rfl
  | cons c cs ih => simp only [extractAll, List.map_cons, extract_item_fd, ih]

/-- The futures left do not depend on those removed before. -/
theorem removeFutures_fst (fds : List Fd) (futures resolved : FdMap F) :
    (removeFutures fds futures resolved).1 = fds.foldl (fun m fd => m.erase fd) futures := by
  induction fds generalizing futures resolved with
  | nil => rfl
  | cons fd fds ih =>
    rw [removeFutures, List.foldl_cons]
    cases hfut : futures.lookup fd with
    | none => rw [ih, AList.erase_of_lookup_eq_none hfut]
    | some fut => exact ih _ _

theorem removeFutures_snd_lookup (fds : List Fd) (futures resolved : FdMap F) (fd : Fd) :
    (removeFutures fds futures resolved).2.lookup fd =
      if fd ∈ fds then (futures.lookup fd).or (resolved.lookup fd) else resolved.lookup fd := by
  induction fds generalizing futures resolved with
  | nil => simp [removeFutures]
  | cons a fds ih =>
    rw [removeFutures]
    cases hfut : futures.lookup a with
    | none =>
      rw [ih]
      by_cases hfd : fd = a
      · subst hfd
        simp [hfut]
      · simp [hfd]
    | some fut =>
      rw [ih]
      by_cases hfd : fd = a
      · subst hfd
        simp [hfut]
      · simp [hfd, AList.lookup_erase_ne hfd, AList.lookup_insert_ne hfd]

/-- Pairing looks at the completions' own descriptors only. -/
theorem pair_congr {items : List CompletionItem} {m m' : FdMap F}
    (h : ∀ fd ∈ items.map (·.fd), m.lookup fd = m'.lookup fd) : pair items m = pair items m' := by
  induction items generalizing m m' with
  | nil => rfl
  | cons item items ih =>
    rw [pair, pair, h item.fd (by simp)]
    congr 1
    apply ih
    intro fd hfd
    by_cases heq : fd = item.fd
    · subst heq
      rw [AList.lookup_erase, AList.lookup_erase]
    · rw [AList.lookup_erase_ne heq, AList.lookup_erase_ne heq]
      exact h fd (List.mem_cons_of_mem _ hfd)

/-- Removing the futures of the whole batch first gives every completion the future it would find
if the batch were handled one completion at a time. -/
theorem pair_removeFutures (items : List CompletionItem) (futures : FdMap F) :
    pair items (removeFutures (items.map (·.fd)) futures ∅).2 = pair items futures := by
  apply pair_congr
  intro fd hfd
  rw [removeFutures_snd_lookup, if_pos hfd, AList.lookup_empty, Option.or_none]

theorem processAll_eq (cqes : List CompletionEntry) (core : UringCore F H T) :
    core.processAll cqes =
      ({ (core.extractAll cqes).1 with
          futures := cqes.foldl (fun m c => m.erase c.fd) core.futures },
        pair (core.extractAll cqes).2 core.futures) := by
  induction cqes generalizing core with
  | nil => rfl
  | cons c cs ih =>
    simp only [processAll, process, ih, extractAll_futures, extractAll, List.foldl_cons, pair]
    rw [extract_item_fd]

theorem extractAll_futures_eq (cqes : List CompletionEntry) (core : UringCore F H T) :
    (core.extractAll cqes).1.futures = core.futures := by
  have h := extractAll_futures cqes core core.futures
  exact congrArg (fun r => r.1.futures) h

/-- **The batch is its completions one at a time.** -/
theorem processCompletions_eq (cqes : List CompletionEntry) (core : UringCore F H T) :
    core.processCompletions cqes = core.processAll cqes := by
  rw [processAll_eq, processCompletions]
  simp only [extractAll_futures_eq, removeFutures_fst, List.foldl_map]
  rw [← extractAll_map_fd cqes core, pair_removeFutures]

end UringCore

end Uringcore
