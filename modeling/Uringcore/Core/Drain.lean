import Uringcore.Core.Conservation

/-!
# The other completion processor

`drain_completions` hands completions to Python without the rest of a tick. It makes its own case
analysis over the operation, the buffer flag and the result; `drainOne` is one turn of its loop.

The two processors do not do the same work. `drain_completions` goes by the buffer index first: it
releases a selected buffer and publishes it again, which a tick never does, and it returns the
credit of a receive. A tick takes the buffer and the state of a `RecvMsg` and the state of a
`SendMsg`, which `drain_completions` leaves. `drain_agrees_iff` says exactly for which states and
batches both leave the same tables.
-/

namespace Uringcore

/-- A receive as `drain_completions` sees it: it has no buffer index. -/
def CompletionEntry.isPlainRecv (c : CompletionEntry) : Bool :=
  c.bufferIndex.isNone && c.opType = .recv

namespace UringCore
variable {F H T : Type}

/-- `with_state_mut(fd, on_completion_empty)`, its error ignored. -/
def completionEmpty (fd : Fd) (core : UringCore F H T) : UringCore F H T :=
  match core.fdStates.withStateMut fd .onCompletionEmpty with
  | .ok fdStates => { core with fdStates }
  | .error _ => core

/-- The bytes of a completion with data. -/
def sliceOf (c : CompletionEntry) (bufIdx : UInt16) (core : UringCore F H T) : Option PyData :=
  if 0 < c.result then some (.bytes (core.bufferPool.getBufferSlice bufIdx c.result.toNat))
  else none

/-- One turn of the loop: the core, the tuple, and the provided buffer to be published again. -/
def drainOne (c : CompletionEntry) (core : UringCore F H T) :
    UringCore F H T × ResultTuple × List UInt16 :=
  let tuple (data : Option PyData) : ResultTuple := ⟨c.fd, c.opType.asStr, c.result, data⟩
  match c.bufferIndex with
  | some bufIdx =>
      (core.releaseBuffer bufIdx, tuple (core.sliceOf c bufIdx),
        if c.opType = .recvMulti then [bufIdx] else [])
  | none =>
      if c.opType = .recv then
        let core := core.completionEmpty c.fd
        match core.inflightRecvBuffers.lookup c.fd with
        | some bufIdx =>
            let core := { core with inflightRecvBuffers := core.inflightRecvBuffers.erase c.fd }
            (core.releaseBuffer bufIdx, tuple (core.sliceOf c bufIdx), [])
        | none => (core, tuple none, [])
      else (core, tuple none, [])

def drainAll : List CompletionEntry → UringCore F H T →
    UringCore F H T × List ResultTuple × List UInt16
  | [], core => (core, [], [])
  | c :: cs, core =>
      let r := core.drainOne c
      let rs := drainAll cs r.1
      (rs.1, r.2.1 :: rs.2.1, r.2.2 ++ rs.2.2)

/-- The provided buffers of the batch are published again. -/
def replenish (ids : List UInt16) (core : UringCore F H T) : UringCore F H T :=
  if ids.isEmpty then core
  else match core.pbufRing with
    | none => core
    | some pr => { core with
        pbufRing := some (pr.addBuffers (UInt16.ofNat ids.length) fun i =>
          let bid := ids.getD i.toNat 0
          ⟨core.bufferPool.getBufferPtr bid, core.bufLen, bid⟩) }

/-- `drain_completions` on the completions it has drained. -/
def drainBatch (cqes : List CompletionEntry) (core : UringCore F H T) :
    UringCore F H T × List ResultTuple :=
  let r := core.drainAll cqes
  (r.1.replenish r.2.2, r.2.1)

def drainCompletions (core : UringCore F H T) : UringCore F H T × List ResultTuple :=
  let drained := core.ring.drainCompletions
  drainBatch drained.2 { core with ring := drained.1 }

/-! ## What `drain_completions` changes -/

/-- What the credit of a descriptor depends on. -/
def credit (fd : Fd) (core : UringCore F H T) : Option (Nat × UInt64) :=
  (core.fdStates.states.lookup fd).map fun st => (st.inflightCount, st.generationId)

/-- The credit after `n` receives have been returned: only a state of the current generation is
written. -/
def returnedCredit (n : Nat) (generationId : UInt64) (x : Nat × UInt64) : Nat × UInt64 :=
  (if x.2 = generationId then x.1 - n else x.1, x.2)

theorem returnedCredit_add (m n : Nat) (generationId : UInt64) (x : Nat × UInt64) :
    returnedCredit n generationId (returnedCredit m generationId x) =
      returnedCredit (m + n) generationId x := by
  unfold returnedCredit
  by_cases h : x.2 = generationId
  · simp [h, Nat.sub_sub]
  · simp [h]

@[simp] theorem map_returnedCredit_zero (generationId : UInt64) (x : Option (Nat × UInt64)) :
    x.map (returnedCredit 0 generationId) = x := by
  cases x <;> simp [returnedCredit]

/-- The state after a receive has completed, its credit returned. -/
theorem completionEmpty_eq (fd : Fd) (core : UringCore F H T) :
    ∃ states, core.completionEmpty fd = { core with fdStates := { core.fdStates with states } } ∧
      ∀ fd', (core.completionEmpty fd).credit fd' = (core.credit fd').map
        (returnedCredit (if fd' = fd then 1 else 0) core.fdStates.generationId) := by
  have hother (states : FdMap FDState) (fd' : Fd) (hne : fd' ≠ fd)
      (h : states.lookup fd' = core.fdStates.states.lookup fd') :
      credit fd' { core with fdStates := { core.fdStates with states } } =
        (core.credit fd').map
          (returnedCredit (if fd' = fd then 1 else 0) core.fdStates.generationId) := by
    simp [credit, h, hne, returnedCredit, Function.comp_def]
  unfold completionEmpty FDStateManager.withStateMut
  cases hst : core.fdStates.states.lookup fd with
  | none =>
    refine ⟨core.fdStates.states, rfl, fun fd' => ?_⟩
    by_cases heq : fd' = fd
    · rw [heq]
      simp [credit, hst]
    · exact hother _ fd' heq rfl
  | some st =>
    cases hgen : st.isValidGeneration core.fdStates.generationId with
    | false =>
      refine ⟨core.fdStates.states, by simp [hgen], fun fd' => ?_⟩
      by_cases heq : fd' = fd
      · rw [heq]
        simp_all [credit, returnedCredit, FDState.isValidGeneration]
      · simp only [hgen]
        exact hother _ fd' heq rfl
    | true =>
      refine ⟨core.fdStates.states.insert fd st.onCompletionEmpty, by simp [hgen], fun fd' => ?_⟩
      by_cases heq : fd' = fd
      · rw [heq]
        simp_all [credit, returnedCredit, FDState.isValidGeneration, FDState.onCompletionEmpty]
      · simp only [hgen, if_true]
        exact hother _ fd' heq (AList.lookup_insert_ne heq)

/-- All that draining these completions does to the tables. -/
structure Drained (cqes : List CompletionEntry) (s d : UringCore F H T) : Prop where
  /-- The selected buffers join the pool. -/
  holdings : d.holdings.Perm (s.holdings ++ cqes.filterMap CompletionEntry.bufferIndex)
  inflightRecvBuffers : d.inflightRecvBuffers =
    AList.eraseAll ((cqes.filter CompletionEntry.isPlainRecv).map CompletionEntry.fd)
      s.inflightRecvBuffers
  credit : ∀ fd, d.credit fd = (s.credit fd).map (returnedCredit
    (cqes.countP fun c => c.isPlainRecv && c.fd == fd) s.fdStates.generationId)
  generationId : d.fdStates.generationId = s.fdStates.generationId
  recvmsgStates : d.recvmsgStates = s.recvmsgStates
  sendmsgStates : d.sendmsgStates = s.sendmsgStates
  pbufRing : d.pbufRing = s.pbufRing

theorem drainOne_spec (c : CompletionEntry) (s : UringCore F H T) :
    Drained [c] s (s.drainOne c).1 := by
  have hkeep (h : c.isPlainRecv = false) (fd : Fd) : s.credit fd =
      (s.credit fd).map (returnedCredit ([c].countP fun c => c.isPlainRecv && c.fd == fd)
        s.fdStates.generationId) := by
    simp [h]
  unfold drainOne
  cases hindex : c.bufferIndex with
  | some bufIdx =>
    have hplain : c.isPlainRecv = false := by simp [CompletionEntry.isPlainRecv, hindex]
    refine ⟨?_, by simp [hplain, AList.eraseAll, releaseBuffer], hkeep hplain, rfl, rfl, rfl, rfl⟩
    simp only [holdings, releaseBuffer, BufferPool.release_own, List.filterMap_cons, hindex,
      List.filterMap_nil, List.append_assoc]
    exact List.Perm.append_left _ List.perm_append_comm
  | none =>
    by_cases hop : c.opType = .recv
    · have hplain : c.isPlainRecv = true := by simp [CompletionEntry.isPlainRecv, hindex, hop]
      obtain ⟨states, heq, hcredit⟩ := completionEmpty_eq c.fd s
      have hcount (fd : Fd) : [c].countP (fun c => c.isPlainRecv && c.fd == fd) =
          if fd = c.fd then 1 else 0 := by
        by_cases hfd : fd = c.fd
        · simp [hplain, hfd]
        · simp [hplain, hfd, Ne.symm hfd]
      have hcredit (fd : Fd) : (s.completionEmpty c.fd).credit fd = (s.credit fd).map
          (returnedCredit ([c].countP fun c => c.isPlainRecv && c.fd == fd)
            s.fdStates.generationId) := by
        rw [hcount]
        exact hcredit fd
      have hbufs : (s.completionEmpty c.fd).inflightRecvBuffers = s.inflightRecvBuffers := by
        rw [heq]
      have herase : AList.eraseAll (([c].filter CompletionEntry.isPlainRecv).map
          CompletionEntry.fd) s.inflightRecvBuffers = s.inflightRecvBuffers.erase c.fd := by
        simp [hplain, AList.eraseAll]
      simp only [hop, if_true, hbufs]
      have hholdings := holdings_untrack s c.fd
      cases hbuf : s.inflightRecvBuffers.lookup c.fd with
      | none =>
        rw [hbuf] at hholdings
        refine ⟨?_, ?_, hcredit, ?_, ?_, ?_, ?_⟩
        · rw [heq]
          simp [holdings, hindex]
        · rw [hbufs, herase, AList.erase_of_lookup_eq_none hbuf]
        all_goals rw [heq]
      | some bufIdx =>
        rw [hbuf] at hholdings
        refine ⟨?_, ?_, ?_, ?_, ?_, ?_, ?_⟩
        · rw [heq]
          simpa [holdings, releaseBuffer, hindex] using hholdings
        · rw [herase]
          rfl
        · exact hcredit
        all_goals
          rw [heq]
          rfl
    · have hplain : c.isPlainRecv = false := by simp [CompletionEntry.isPlainRecv, hop]
      simp only [hop, if_false]
      exact ⟨by simp [hindex], by simp [hplain, AList.eraseAll], hkeep hplain, rfl, rfl, rfl, rfl⟩

theorem Drained.trans {c : CompletionEntry} {cs : List CompletionEntry} {s t u : UringCore F H T}
    (h : Drained [c] s t) (h' : Drained cs t u) : Drained (c :: cs) s u where
  holdings := by
    refine h'.holdings.trans ((h.holdings.append_right _).trans ?_)
    rw [List.append_assoc, ← List.filterMap_append]
    exact List.Perm.refl _
  inflightRecvBuffers := by
    rw [h'.inflightRecvBuffers, h.inflightRecvBuffers]
    cases hplain : c.isPlainRecv <;> simp [hplain, AList.eraseAll]
  credit fd := by
    rw [h'.credit, h.credit, Option.map_map, h.generationId]
    congr 1
    funext x
    rw [Function.comp_apply, returnedCredit_add]
    congr 1
    exact (List.countP_append ..).symm
  generationId := h'.generationId.trans h.generationId
  recvmsgStates := h'.recvmsgStates.trans h.recvmsgStates
  sendmsgStates := h'.sendmsgStates.trans h.sendmsgStates
  pbufRing := h'.pbufRing.trans h.pbufRing

theorem drainAll_spec (cqes : List CompletionEntry) (s : UringCore F H T) :
    Drained cqes s (s.drainAll cqes).1 := by
  induction cqes generalizing s with
  | nil =>
    refine ⟨by simp [drainAll], rfl, fun fd => ?_, rfl, rfl, rfl, rfl⟩
    simp [drainAll]
  | cons c cs ih => exact (drainOne_spec c s).trans (ih (s.drainOne c).1)

/-! ## What a tick changes -/

/-- The first completion of a batch that takes the buffer tracked for `fd` in a tick. -/
def firstTracked (fd : Fd) (cqes : List CompletionEntry) : Option CompletionEntry :=
  cqes.find? fun c => c.opType.isTracked && c.fd == fd

theorem firstTracked_self {c : CompletionEntry} (h : c.opType.isTracked)
    (cs : List CompletionEntry) : firstTracked c.fd (c :: cs) = some c := by
  simp [firstTracked, h]

theorem firstTracked_other {c : CompletionEntry} {fd : Fd} (h : c.opType.isTracked → c.fd ≠ fd)
    (cs : List CompletionEntry) : firstTracked fd (c :: cs) = firstTracked fd cs := by
  have hnot : (c.opType.isTracked && c.fd == fd) = false := by
    cases htracked : c.opType.isTracked with
    | false => rfl
    | true => simpa using h htracked
  simp [firstTracked, hnot]

theorem process_eq (c : CompletionEntry) (s : UringCore F H T) :
    (s.process c).1 = { (s.extract c).1 with futures := s.futures.erase c.fd } := rfl

theorem process_holdings (c : CompletionEntry) (s : UringCore F H T) :
    (s.process c).1.holdings.Perm s.holdings := by
  rw [process_eq, extract_eq, holdings]
  cases htracked : c.opType.isTracked with
  | true => exact holdings_untrack s c.fd
  | false => simp [holdings]

theorem processAll_holdings (cqes : List CompletionEntry) (s : UringCore F H T) :
    (s.processAll cqes).1.holdings.Perm s.holdings := by
  induction cqes generalizing s with
  | nil => exact List.Perm.refl _
  | cons c cs ih => exact (ih (s.process c).1).trans (process_holdings c s)

/-- Every receive of the batch, of either kind, takes what is tracked for its descriptor. -/
theorem processAll_inflight (cqes : List CompletionEntry) (s : UringCore F H T) :
    (s.processAll cqes).1.inflightRecvBuffers =
      AList.eraseAll ((cqes.filter (·.opType.isTracked)).map CompletionEntry.fd)
        s.inflightRecvBuffers := by
  induction cqes generalizing s with
  | nil => rfl
  | cons c cs ih =>
    refine (ih (s.process c).1).trans ?_
    rw [process_eq, extract_eq]
    cases htracked : c.opType.isTracked <;> simp [htracked, AList.eraseAll]

theorem processAll_sendmsg (cqes : List CompletionEntry) (s : UringCore F H T) :
    (s.processAll cqes).1.sendmsgStates =
      AList.eraseAll ((cqes.filter (·.opType = .sendMsg)).map CompletionEntry.fd)
        s.sendmsgStates := by
  induction cqes generalizing s with
  | nil => rfl
  | cons c cs ih =>
    refine (ih (s.process c).1).trans ?_
    rw [process_eq, extract_eq]
    by_cases hop : c.opType = .sendMsg <;> simp [hop, AList.eraseAll]

theorem processAll_pbufRing (cqes : List CompletionEntry) (s : UringCore F H T) :
    (s.processAll cqes).1.pbufRing = s.pbufRing := by
  induction cqes generalizing s with
  | nil => rfl
  | cons c cs ih =>
    refine (ih (s.process c).1).trans ?_
    rw [process_eq, extract_eq]

/-- The state of a `RecvMsg` goes with the buffer: if the first receive to take the tracked buffer
of the descriptor is one. -/
theorem processAll_recvmsg (cqes : List CompletionEntry) (s : UringCore F H T) (fd : Fd) :
    (s.processAll cqes).1.recvmsgStates.lookup fd =
      if (firstTracked fd cqes).any (·.opType = .recvMsg) ∧
        (s.inflightRecvBuffers.lookup fd).isSome then none
      else s.recvmsgStates.lookup fd := by
  induction cqes generalizing s with
  | nil => simp [firstTracked, processAll]
  | cons c cs ih =>
    refine (ih (s.process c).1).trans ?_
    rw [process_eq, extract_eq]
    simp only
    by_cases htakes : c.opType.isTracked ∧ c.fd = fd
    · obtain ⟨htracked, rfl⟩ := htakes
      rw [firstTracked_self htracked, if_pos htracked, AList.lookup_erase]
      -- whichever receive comes first, nothing is tracked for the later ones
      rw [if_neg (by simp)]
      by_cases hop : c.opType = .recvMsg
      · cases hbuf : s.inflightRecvBuffers.lookup c.fd <;> simp [hop]
      · simp [hop]
    · have hne : c.opType.isTracked → c.fd ≠ fd := fun htracked hfd => htakes ⟨htracked, hfd⟩
      have hmsg : c.opType = .recvMsg → fd ≠ c.fd := fun hop => Ne.symm (hne (by rw [hop]; rfl))
      have hbuf : (if c.opType.isTracked = true then s.inflightRecvBuffers.erase c.fd
          else s.inflightRecvBuffers).lookup fd = s.inflightRecvBuffers.lookup fd := by
        split
        · rename_i htracked
          exact AList.lookup_erase_ne (Ne.symm (hne htracked))
        · rfl
      have hstates : (if c.opType = .recvMsg ∧ (s.inflightRecvBuffers.lookup c.fd).isSome then
          s.recvmsgStates.erase c.fd else s.recvmsgStates).lookup fd =
          s.recvmsgStates.lookup fd := by
        split
        · rename_i hop
          exact AList.lookup_erase_ne (hmsg hop.1)
        · rfl
      rw [firstTracked_other hne, hbuf, hstates]

/-! ## When they agree -/

/-- The two processors leave the same tables. -/
structure Agree (s t : UringCore F H T) : Prop where
  free : s.bufferPool.freeList.Perm t.bufferPool.freeList
  inflightRecvBuffers : ∀ fd, s.inflightRecvBuffers.lookup fd = t.inflightRecvBuffers.lookup fd
  inflightCount : ∀ fd, (s.fdStates.states.lookup fd).map (·.inflightCount) =
    (t.fdStates.states.lookup fd).map (·.inflightCount)
  recvmsgStates : ∀ fd, s.recvmsgStates.lookup fd = t.recvmsgStates.lookup fd
  sendmsgStates : ∀ fd, s.sendmsgStates.lookup fd = t.sendmsgStates.lookup fd
  pbufRing : s.pbufRing = t.pbufRing

/-- The batch leads into no branch that one processor has and the other has not. -/
structure SameWork (cqes : List CompletionEntry) (s : UringCore F H T) : Prop where
  /-- No completion carries a selected buffer. -/
  noBuffer : ∀ c ∈ cqes, c.bufferIndex = none
  /-- There is no credit to be returned. -/
  credit : ∀ c ∈ cqes, c.opType = .recv → ∀ st, s.fdStates.states.lookup c.fd = some st →
    st.generationId = s.fdStates.generationId → st.inflightCount = 0
  /-- A `RecvMsg` takes no buffer that a `Recv` of the batch does not take anyway. -/
  tracked : ∀ c ∈ cqes, c.opType = .recvMsg → (s.inflightRecvBuffers.lookup c.fd).isSome →
    ∃ c' ∈ cqes, c'.opType = .recv ∧ c'.fd = c.fd
  recvMsg : ∀ fd c, firstTracked fd cqes = some c → c.opType = .recvMsg →
    (s.inflightRecvBuffers.lookup fd).isSome → s.recvmsgStates.lookup fd = none
  sendMsg : ∀ c ∈ cqes, c.opType = .sendMsg → s.sendmsgStates.lookup c.fd = none

/-- The triples are the same in any case. -/
theorem drainAll_triples (cqes : List CompletionEntry) (s t : UringCore F H T) :
    ((s.drainBatch cqes).2.map fun r => (r.fd, r.opType, r.result)) =
      (t.processCompletions cqes).2.map fun r => (r.1.tuple.fd, r.1.tuple.opType,
        r.1.tuple.result) := by
  rw [processCompletions_eq]
  have hone (c : CompletionEntry) (s : UringCore F H T) :
      ∃ data, (s.drainOne c).2.1 = ⟨c.fd, c.opType.asStr, c.result, data⟩ := by
    unfold drainOne
    cases c.bufferIndex with
    | some bufIdx => exact ⟨_, rfl⟩
    | none =>
      by_cases hop : c.opType = .recv
      · simp only [hop, if_true]
        split <;> exact ⟨_, rfl⟩
      · simp only [hop, if_false]
        exact ⟨_, rfl⟩
  show ((s.drainAll cqes).2.1.map _) = _
  induction cqes generalizing s t with
  | nil => rfl
  | cons c cs ih =>
    obtain ⟨data, hdata⟩ := hone c s
    obtain ⟨data', hitem⟩ := extract_item c t
    rw [drainAll, processAll, List.map_cons, List.map_cons, ih (s.drainOne c).1 (t.process c).1,
      hdata, process, hitem]
    rfl

theorem returnedCredit_eq_iff (n : Nat) (generationId : UInt64) (x : Nat × UInt64) :
    (returnedCredit n generationId x).1 = x.1 ↔ x.2 = generationId → n = 0 ∨ x.1 = 0 := by
  unfold returnedCredit
  by_cases h : x.2 = generationId
  · simp only [h, if_true, true_implies]
    omega
  · simp [h]

/-- The counts agree when no credit is returned. -/
theorem Drained.inflightCount_iff {cqes : List CompletionEntry} {s d t : UringCore F H T}
    (h : Drained cqes s d) (ht : t.fdStates = s.fdStates) :
    (∀ fd, (d.fdStates.states.lookup fd).map (·.inflightCount) =
      (t.fdStates.states.lookup fd).map (·.inflightCount)) ↔
    ∀ c ∈ cqes, c.isPlainRecv → ∀ st, s.fdStates.states.lookup c.fd = some st →
      st.generationId = s.fdStates.generationId → st.inflightCount = 0 := by
  have hfd : ∀ fd, (d.fdStates.states.lookup fd).map (·.inflightCount) =
      (s.fdStates.states.lookup fd).map fun st => (returnedCredit
        (cqes.countP fun c => c.isPlainRecv && c.fd == fd) s.fdStates.generationId
        (st.inflightCount, st.generationId)).1 := by
    intro fd
    have hcredit := congrArg (Option.map Prod.fst) (h.credit fd)
    simpa only [UringCore.credit, Option.map_map, Function.comp_def] using hcredit
  constructor
  · intro hagree c hc hplain st hst hgen
    have heq := (hfd c.fd).symm.trans (hagree c.fd)
    rw [ht, hst, Option.map_some, Option.map_some, Option.some.injEq] at heq
    rcases (returnedCredit_eq_iff ..).mp heq hgen with hzero | hzero
    · rw [List.countP_eq_zero] at hzero
      exact absurd (by simp [hplain]) (hzero c hc)
    · exact hzero
  · intro hnone fd
    rw [hfd, ht]
    cases hst : s.fdStates.states.lookup fd with
    | none => rfl
    | some st =>
      refine congrArg some ((returnedCredit_eq_iff ..).mpr fun hgen => ?_)
      by_cases hcount : (cqes.countP fun c => c.isPlainRecv && c.fd == fd) = 0
      · exact .inl hcount
      · obtain ⟨c, hc, hplain⟩ := List.countP_pos_iff.mp (Nat.pos_of_ne_zero hcount)
        rw [Bool.and_eq_true, beq_iff_eq] at hplain
        obtain ⟨hplain, rfl⟩ := hplain
        exact .inr (hnone c hc hplain st hst hgen)

/-- Without selected buffers nothing is published again. -/
theorem drainBatch_of_noBuffer {cqes : List CompletionEntry} (s : UringCore F H T)
    (h : ∀ c ∈ cqes, c.bufferIndex = none) : (s.drainBatch cqes).1 = (s.drainAll cqes).1 := by
  have hids : (s.drainAll cqes).2.2 = [] := by
    induction cqes generalizing s with
    | nil => rfl
    | cons c cs ih =>
      have hone : (s.drainOne c).2.2 = [] := by
        unfold drainOne
        rw [h c (List.mem_cons_self ..)]
        by_cases hop : c.opType = .recv
        · simp only [hop, if_true]
          split <;> rfl
        · simp only [hop, if_false]
      rw [drainAll, hone, ih _ fun c hc => h c (List.mem_cons_of_mem _ hc)]
      rfl
  rw [drainBatch, hids]
  rfl

/-- Publishing again touches the ring only. -/
theorem replenish_eq (ids : List UInt16) (s : UringCore F H T) :
    ∃ ring, s.replenish ids = { s with pbufRing := ring } := by
  unfold replenish
  split
  · exact ⟨_, rfl⟩
  · split <;> exact ⟨_, rfl⟩

theorem isPlainRecv_opType {c : CompletionEntry} (hc : c.isPlainRecv) : c.opType = .recv := by
  simp only [CompletionEntry.isPlainRecv, Bool.and_eq_true, decide_eq_true_eq] at hc
  exact hc.2

/-- With the same free buffers and the same tracked buffers there was nothing else to release. -/
theorem Agree.noBuffer {cqes : List CompletionEntry} {s : UringCore F H T}
    (h : Agree (s.drainBatch cqes).1 (s.processAll cqes).1) : ∀ c ∈ cqes, c.bufferIndex = none := by
  obtain ⟨ring, hring⟩ := replenish_eq (s.drainAll cqes).2.2 (s.drainAll cqes).1
  have hsame : (s.drainBatch cqes).1.holdings.Perm (s.processAll cqes).1.holdings :=
    h.free.append (AList.values_perm_of_lookup h.inflightRecvBuffers)
  have heq : (s.drainBatch cqes).1.holdings = (s.drainAll cqes).1.holdings := by
    rw [drainBatch, hring]
    rfl
  rw [heq] at hsame
  have hperm := (drainAll_spec cqes s).holdings.symm.trans (hsame.trans (processAll_holdings cqes s))
  have hlength := hperm.length_eq
  rw [List.length_append] at hlength
  have hnil : cqes.filterMap CompletionEntry.bufferIndex = [] :=
    List.eq_nil_of_length_eq_zero (by omega)
  exact List.filterMap_eq_nil_iff.mp hnil

/-- Without selected buffers every receive is a plain one. -/
theorem filter_isPlainRecv {cqes : List CompletionEntry} (h : ∀ c ∈ cqes, c.bufferIndex = none) :
    cqes.filter CompletionEntry.isPlainRecv = cqes.filter (·.opType = .recv) := by
  apply List.filter_congr
  intro c hc
  simp [CompletionEntry.isPlainRecv, h c hc]

theorem recv_subset_tracked (cqes : List CompletionEntry) :
    (cqes.filter (·.opType = .recv)).map CompletionEntry.fd ⊆
      (cqes.filter (·.opType.isTracked)).map CompletionEntry.fd := by
  intro fd hfd
  obtain ⟨c, hc, rfl⟩ := List.mem_map.mp hfd
  obtain ⟨hc, hop⟩ := List.mem_filter.mp hc
  rw [decide_eq_true_eq] at hop
  exact List.mem_map.mpr ⟨c, List.mem_filter.mpr ⟨hc, by rw [hop]; rfl⟩, rfl⟩

theorem SameWork.of_agree {cqes : List CompletionEntry} {s : UringCore F H T}
    (h : Agree (s.drainBatch cqes).1 (s.processAll cqes).1) : SameWork cqes s := by
  have hnone := h.noBuffer
  have hd := drainAll_spec cqes s
  rw [drainBatch_of_noBuffer s hnone] at h
  refine ⟨hnone, ?_, ?_, ?_, ?_⟩
  · intro c hc hop
    refine (hd.inflightCount_iff (processAll_frame cqes s).2).mp h.inflightCount c hc ?_
    simp [CompletionEntry.isPlainRecv, hnone c hc, hop]
  · intro c hc hop hsome
    have hlookup := h.inflightRecvBuffers
    rw [hd.inflightRecvBuffers, processAll_inflight cqes s, filter_isPlainRecv hnone] at hlookup
    have hfd := (AList.lookup_eraseAll_iff (recv_subset_tracked cqes) _).mp hlookup c.fd
      (List.mem_map.mpr ⟨c, List.mem_filter.mpr ⟨hc, by rw [hop]; rfl⟩, rfl⟩) hsome
    obtain ⟨c', hc', hfd⟩ := List.mem_map.mp hfd
    obtain ⟨hc', hop'⟩ := List.mem_filter.mp hc'
    exact ⟨c', hc', by simpa using hop', hfd⟩
  · intro fd c hfirst hop hsome
    have hmsg := h.recvmsgStates fd
    rw [hd.recvmsgStates, processAll_recvmsg, if_pos ⟨by simp [hfirst, hop], hsome⟩] at hmsg
    exact hmsg
  · intro c hc hop
    have hmsg := h.sendmsgStates c.fd
    rw [hd.sendmsgStates, processAll_sendmsg, AList.lookup_eraseAll, if_pos] at hmsg
    · exact hmsg
    · exact List.mem_map.mpr ⟨c, List.mem_filter.mpr ⟨hc, by simpa using hop⟩, rfl⟩

/-- Every tracked buffer is that of a receive, or of a `recvmsg` whose descriptor a receive is on. -/
theorem SameWork.inflightRecvBuffers {cqes : List CompletionEntry} {s : UringCore F H T}
    (h : SameWork cqes s) (fd : Fd) : (s.drainAll cqes).1.inflightRecvBuffers.lookup fd =
      (s.processAll cqes).1.inflightRecvBuffers.lookup fd := by
  rw [(drainAll_spec cqes s).inflightRecvBuffers, processAll_inflight cqes s, filter_isPlainRecv h.noBuffer]
  revert fd
  refine (AList.lookup_eraseAll_iff (recv_subset_tracked cqes) _).mpr fun fd hfd hsome => ?_
  obtain ⟨c, hc, rfl⟩ := List.mem_map.mp hfd
  obtain ⟨hc, htracked⟩ := List.mem_filter.mp hc
  have hop : c.opType = .recv ∨ c.opType = .recvMsg := by
    cases hop : c.opType <;> simp_all [OpType.isTracked]
  rcases hop with hop | hop
  · exact List.mem_map.mpr ⟨c, List.mem_filter.mpr ⟨hc, by simpa using hop⟩, rfl⟩
  · obtain ⟨c', hc', hop', hfd⟩ := h.tracked c hc hop hsome
    exact List.mem_map.mpr ⟨c', List.mem_filter.mpr ⟨hc', by simpa using hop'⟩, hfd⟩

theorem Agree.of_sameWork {cqes : List CompletionEntry} {s : UringCore F H T} (h : SameWork cqes s) :
    Agree (s.drainBatch cqes).1 (s.processAll cqes).1 := by
  have hd := drainAll_spec cqes s
  have hlookup := h.inflightRecvBuffers
  rw [drainBatch_of_noBuffer s h.noBuffer]
  refine ⟨?_, hlookup, ?_, ?_, ?_, ?_⟩
  · -- the tracked buffers are the same and all buffers are, so the free ones are
    have hnil : cqes.filterMap CompletionEntry.bufferIndex = [] :=
      List.filterMap_eq_nil_iff.mpr h.noBuffer
    have hholdings := hd.holdings
    rw [hnil, List.append_nil] at hholdings
    have hperm := hholdings.trans (processAll_holdings cqes s).symm
    have hvalues := AList.values_perm_of_lookup hlookup
    exact (List.perm_append_right_iff _).mp (hperm.trans (hvalues.symm.append_left _))
  · exact (hd.inflightCount_iff (processAll_frame cqes s).2).mpr fun c hc hp =>
      h.credit c hc (isPlainRecv_opType hp)
  · intro fd
    rw [hd.recvmsgStates, processAll_recvmsg]
    split
    · rename_i hfirst
      cases hc : firstTracked fd cqes with
      | none =>
        rw [hc] at hfirst
        cases hfirst.1
      | some c =>
        rw [hc] at hfirst
        exact h.recvMsg fd c hc (by simpa using hfirst.1) hfirst.2
    · rfl
  · intro fd
    rw [hd.sendmsgStates, processAll_sendmsg, AList.lookup_eraseAll]
    split
    · rename_i hfd
      obtain ⟨c, hc, rfl⟩ := List.mem_map.mp hfd
      obtain ⟨hc, hop⟩ := List.mem_filter.mp hc
      exact h.sendMsg c hc (by simpa using hop)
    · rfl
  · rw [hd.pbufRing, processAll_pbufRing]

/-- **The two completion processors.** In every state and for every batch, `drain_completions` and
the completion phase of a tick leave the same tables if and only if the batch leads into no branch
that one of them has and the other has not; the triples they return are the same in any case. -/
theorem drain_agrees_iff (cqes : List CompletionEntry) (s : UringCore F H T) :
    (Agree (s.drainBatch cqes).1 (s.processCompletions cqes).1 ↔ SameWork cqes s) ∧
    ((s.drainBatch cqes).2.map fun r => (r.fd, r.opType, r.result)) =
      (s.processCompletions cqes).2.map fun r => (r.1.tuple.fd, r.1.tuple.opType,
        r.1.tuple.result) := by
  refine ⟨?_, drainAll_triples cqes s s⟩
  rw [processCompletions_eq]
  exact ⟨SameWork.of_agree, Agree.of_sameWork⟩

/-- A receive on a registered descriptor has completed. -/
def receivedRun : List (Act Nat Unit Nat) :=
  [.registerFd 5 "tcp", .request 0 (.ok 1) 5 (.recv 7), .consume 1,
    .complete 0 (.data [1, 2]) false false]

/-- One plain receive: `drain_completions` returns its credit, a tick keeps it. -/
theorem drain_returns_credit :
    ∃ core t : UringCore Nat Unit Nat, new Setup.plain 16 2 = .ok core ∧
      machine.run core receivedRun = some t ∧
      (t.drainCompletions.1.fdStates.states.lookup 5).map (·.inflightCount) = some 0 ∧
      ((t.processCompletions (t.ring.cq.map Cqe.entry)).1.fdStates.states.lookup 5).map
        (·.inflightCount) = some 1 :=
  ⟨_, _, rfl, rfl, rfl, rfl⟩

end UringCore

end Uringcore
