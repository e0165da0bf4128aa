import Uringcore.Core.System

/-!
# What a refused submission leaves behind

The submit methods change the pool, the credit, the futures and the message states on their way, and
when a later step refuses the request they undo by hand what they have done. `RollsBack` says, from
the state before the call, when that restores everything. It is exact: a refused request leaves the
tables as they were if and only if `RollsBack` holds.

Two things are not restored. The undo *removes* the future of the descriptor, also when there was
one before the call; and the credit of a receive stays taken. A refused multishot receive undoes
nothing.

Nothing is assumed about the state. The pool's quarantine is empty in every state the code can
reach, but the exact condition names what `acquire` would move out of it.
-/

namespace Uringcore

def PyErr.isPanic : PyErr → Bool
  | .panic _ => true
  | _ => false

namespace BufferPool

/-- What is free once `acquire` has looked at the quarantine. -/
def acquirable (now : Nat) (pool : BufferPool) : List UInt16 :=
  (pool.reclaimQuarantined now).freeList

theorem subset_reclaim (now : Nat) (quarantine : List QuarantineEntry) (free : List UInt16) :
    free ⊆ (reclaim now quarantine free).1 := by
  induction quarantine generalizing free with
  | nil => exact List.Subset.refl free
  | cons e rest ih =>
    unfold reclaim
    split
    · exact List.Subset.trans (List.subset_append_left free [e.index]) (ih _)
    · exact List.Subset.refl free

theorem subset_acquirable (now : Nat) (pool : BufferPool) :
    pool.freeList ⊆ pool.acquirable now := subset_reclaim now _ _

theorem acquire_eq (now : Nat) (pool : BufferPool) :
    pool.acquire now = match pool.acquirable now with
      | [] => (pool.reclaimQuarantined now, none)
      | i :: rest => ({ pool.reclaimQuarantined now with freeList := rest }, some i) := rfl

end BufferPool

namespace UringCore
variable {F H T : Type}

/-- The tables of the core, as a caller can tell them apart: the free buffers as a set, the count of
receives in flight of every descriptor, and the maps. -/
structure SameTables (s t : UringCore F H T) : Prop where
  free : ∀ b, b ∈ t.bufferPool.freeList ↔ b ∈ s.bufferPool.freeList
  inflightCount : ∀ fd, (t.fdStates.states.lookup fd).map (·.inflightCount) =
    (s.fdStates.states.lookup fd).map (·.inflightCount)
  futures : ∀ fd, t.futures.lookup fd = s.futures.lookup fd
  inflightRecvBuffers : t.inflightRecvBuffers = s.inflightRecvBuffers
  recvmsgStates : t.recvmsgStates = s.recvmsgStates
  sendmsgStates : t.sendmsgStates = s.sendmsgStates

/-- The call raises before it has queued anything: the check of the state, the pool, the queue or
the address refuses it. -/
def Refuses (now : Nat) (enter : Except String Nat) (fd : Fd) (req : Request F)
    (core : UringCore F H T) : Prop :=
  (core.request now enter fd req).1.ring.tail = core.ring.tail ∧
    ∃ e, (core.request now enter fd req).2 = .error e ∧ e.isPanic = false

/-- A refused request finds nothing that its undoing would miss. -/
def RollsBack (now : Nat) (fd : Fd) (core : UringCore F H T) : Request F → Prop
  | .recv _ | .recvfrom _ =>
      core.bufferPool.acquirable now ⊆ core.bufferPool.freeList ∧
      (core.bufferPool.acquirable now ≠ [] → ∀ st, core.fdStates.states.lookup fd = some st →
        st.isValidGeneration core.fdStates.generationId →
        core.futures.lookup fd = none ∧ st.onSubmit.inflightCount = st.inflightCount)
  | .send .. =>
      core.bufferPool.acquirable now ⊆ core.bufferPool.freeList ∧
      (core.bufferPool.acquirable now ≠ [] → core.futures.lookup fd = none)
  | .accept _ => core.futures.lookup fd = none
  | .recvMultishot future => core.pbufRing.isSome → core.futures.lookup fd = some future
  | .sendto .. | .acceptMultishot | .close => True

namespace SameTables

theorem refl (s : UringCore F H T) : SameTables s s where
  free _ := Iff.rfl
  inflightCount _ := rfl
  futures _ := rfl
  inflightRecvBuffers := rfl
  recvmsgStates := rfl
  sendmsgStates := rfl

/-- Only the pool has changed. -/
theorem of_pool {s : UringCore F H T} {pool : BufferPool} (nextBox : Nat) :
    SameTables s { s with bufferPool := pool, nextBox } ↔
      ∀ b, b ∈ pool.freeList ↔ b ∈ s.bufferPool.freeList :=
  ⟨fun h => h.free, fun h => { refl s with free := h }⟩

end SameTables

/-- The buffer taken from the front has gone to the back. -/
theorem mem_cycled {now : Nat} {pool : BufferPool} {bufIdx : UInt16} {rest : List UInt16}
    (hfree : pool.acquirable now = bufIdx :: rest) :
    (∀ b, b ∈ rest ++ [bufIdx] ↔ b ∈ pool.freeList) ↔
      pool.acquirable now ⊆ pool.freeList := by
  have hsub := pool.subset_acquirable now
  have hmem : ∀ b, b ∈ rest ++ [bufIdx] ↔ b ∈ pool.acquirable now := by
    intro b
    rw [hfree, List.mem_append, List.mem_singleton, List.mem_cons]
    exact or_comm
  constructor
  · intro h b hb
    exact (h b).mp ((hmem b).mpr hb)
  · intro h b
    exact ⟨fun hb => h ((hmem b).mp hb), fun hb => (hmem b).mpr (hsub hb)⟩

/-- A future was stored and is removed again. -/
theorem lookup_undone (futures : FdMap F) (fd : Fd) (future : F) :
    (∀ fd', ((futures.insert fd future).erase fd).lookup fd' = futures.lookup fd') ↔
      futures.lookup fd = none := by
  constructor
  · intro h
    rw [← h fd]
    exact AList.lookup_erase ..
  · intro h fd'
    by_cases heq : fd' = fd
    · rw [heq, AList.lookup_erase, h]
    · rw [AList.lookup_erase_ne heq, AList.lookup_insert_ne heq]

/-- One state has been replaced by `st'`. -/
theorem inflightCount_insert {states : FdMap FDState} {fd : Fd} {st st' : FDState}
    (hst : states.lookup fd = some st) :
    (∀ fd', ((states.insert fd st').lookup fd').map (·.inflightCount) =
      (states.lookup fd').map (·.inflightCount)) ↔ st'.inflightCount = st.inflightCount := by
  constructor
  · intro h
    have hfd := h fd
    rw [AList.lookup_insert, hst] at hfd
    exact Option.some.inj hfd
  · intro h fd'
    by_cases heq : fd' = fd
    · rw [heq, AList.lookup_insert, hst]
      exact congrArg some h
    · rw [AList.lookup_insert_ne heq]

/-- The ways `beginRecv` can end, in any state. -/
theorem beginRecv_cases (now : Nat) (noBuffers : String) (fd : Fd) (future : F)
    (core : UringCore F H T) :
    core.beginRecv now noBuffers fd future = (core, .ok none) ∨
    (core.bufferPool.acquirable now = [] ∧ core.beginRecv now noBuffers fd future =
      ({ core with bufferPool := core.bufferPool.reclaimQuarantined now },
        .error (.runtimeError noBuffers))) ∨
    ∃ bufIdx rest st, core.bufferPool.acquirable now = bufIdx :: rest ∧
      core.fdStates.states.lookup fd = some st ∧
      ((st.isValidGeneration core.fdStates.generationId = false ∧
        ∃ msg, core.beginRecv now noBuffers fd future = ({ core with
          bufferPool := { core.bufferPool.reclaimQuarantined now with
            freeList := rest ++ [bufIdx] } }, .error (.runtimeError msg))) ∨
      (st.isValidGeneration core.fdStates.generationId = true ∧
        core.beginRecv now noBuffers fd future = ({ core with
          bufferPool := { core.bufferPool.reclaimQuarantined now with freeList := rest }
          fdStates := { core.fdStates with states := core.fdStates.states.insert fd st.onSubmit }
          futures := core.futures.insert fd future }, .ok (some bufIdx)))) := by
  unfold beginRecv
  cases hst : core.fdStates.states.lookup fd with
  | none => simp [FDStateManager.shouldSubmitRecv, hst]
  | some st =>
    cases hcredit : st.shouldSubmitRecv with
    | false => simp [FDStateManager.shouldSubmitRecv, hst, hcredit]
    | true =>
      rw [BufferPool.acquire_eq]
      cases hfree : core.bufferPool.acquirable now with
      | nil => simp [FDStateManager.shouldSubmitRecv, hst, hcredit]
      | cons bufIdx rest =>
        refine .inr (.inr ⟨bufIdx, rest, st, rfl, rfl, ?_⟩)
        cases hgen : st.isValidGeneration core.fdStates.generationId with
        | false =>
          refine .inl ⟨rfl, (Error.invalidGeneration core.fdStates.generationId
            st.generationId).display, ?_⟩
          simp [FDStateManager.shouldSubmitRecv, FDStateManager.withStateMut, hst, hcredit, hgen,
            releaseBuffer, BufferPool.release]
        | true =>
          refine .inr ⟨rfl, ?_⟩
          simp [FDStateManager.shouldSubmitRecv, FDStateManager.withStateMut, hst, hcredit, hgen]

/-- A push that succeeds has moved the tail, whatever is done with the ring afterwards. -/
theorem push_tail {fd : Fd} {op : SqeOp} {generation : UInt16} {target : Target} {ring r : Ring}
    (h : ring.push fd op generation target = .ok r) : r.tail ≠ ring.tail := by
  rw [Ring.push_ok h]
  exact Nat.succ_ne_self ring.tail

@[simp] theorem trackInflight_ring (fd : Fd) (bufIdx : UInt16) (core : UringCore F H T) :
    (core.trackInflight fd bufIdx).ring = core.ring := by
  unfold trackInflight
  split <;> rfl

@[simp] theorem submit_ring (enter : Except String Nat) (core : UringCore F H T) :
    (core.submit enter).1.ring = (core.ring.submit enter).1 := rfl

/-- A receive that was refused by the queue: its buffer is back, its credit is not, and there is no
future on its descriptor. -/
theorem SameTables.recv_undone_iff {s : UringCore F H T} {now : Nat} {fd : Fd} {future : F}
    {bufIdx : UInt16} {rest : List UInt16} {st : FDState} (nextBox : Nat)
    (hfree : s.bufferPool.acquirable now = bufIdx :: rest)
    (hst : s.fdStates.states.lookup fd = some st) :
    SameTables s { s with
      bufferPool := { s.bufferPool.reclaimQuarantined now with freeList := rest ++ [bufIdx] }
      fdStates := { s.fdStates with states := s.fdStates.states.insert fd st.onSubmit }
      futures := (s.futures.insert fd future).erase fd
      nextBox } ↔
    s.bufferPool.acquirable now ⊆ s.bufferPool.freeList ∧ s.futures.lookup fd = none ∧
      st.onSubmit.inflightCount = st.inflightCount := by
  constructor
  · intro h
    exact ⟨(mem_cycled hfree).mp h.free, (lookup_undone _ fd future).mp h.futures,
      (inflightCount_insert hst).mp h.inflightCount⟩
  · rintro ⟨hsub, hnone, hcount⟩
    exact {
      free := (mem_cycled hfree).mpr hsub
      inflightCount := (inflightCount_insert hst).mpr hcount
      futures := (lookup_undone _ fd future).mpr hnone
      inflightRecvBuffers := rfl
      recvmsgStates := rfl
      sendmsgStates := rfl }

/-- The part of a receive that can be refused, whichever of the two it is: `core'` and `r` are what
the call leaves and returns, given how `beginRecv` ended. -/
theorem recv_refused_iff (noBuffers : String) (future : F) {s core' : UringCore F H T} {now : Nat}
    {fd : Fd} {r : Except PyErr Unit}
    (hskip : s.beginRecv now noBuffers fd future = (s, .ok none) → r = .ok ())
    (herror : ∀ core e, s.beginRecv now noBuffers fd future = (core, .error e) →
      core' = core ∧ r = .error e)
    (hprep : ∀ core bufIdx, s.beginRecv now noBuffers fd future = (core, .ok (some bufIdx)) →
      core'.ring.tail ≠ core.ring.tail ∨
        ∃ nextBox, core' = { core.undo fd bufIdx with nextBox })
    (htail : core'.ring.tail = s.ring.tail) (hr : ∃ e, r = .error e ∧ e.isPanic = false) :
    SameTables s core' ↔ s.RollsBack now fd (.recv future) := by
  obtain ⟨e, hr, -⟩ := hr
  have hsub := s.bufferPool.subset_acquirable now
  obtain h | ⟨hnil, h⟩ | ⟨bufIdx, rest, st, hfree, hst, ⟨hgen, msg, h⟩ | ⟨hgen, h⟩⟩ :=
    beginRecv_cases now noBuffers fd future s
  · -- without credit the call succeeds
    rw [hskip h] at hr
    cases hr
  · -- nothing is free, and nothing in quarantine has expired
    rw [(herror _ _ h).1]
    have hempty : s.bufferPool.freeList = [] := List.subset_nil.mp (hnil ▸ hsub)
    have hpool : (s.bufferPool.reclaimQuarantined now).freeList = [] := hnil
    simp [SameTables.of_pool s.nextBox, RollsBack, hnil, hpool, hempty]
  · -- the state is of another generation: the buffer goes to the back of the list
    rw [(herror _ _ h).1]
    refine (SameTables.of_pool s.nextBox).trans ((mem_cycled hfree).trans ?_)
    simp only [RollsBack, hst, Option.some.injEq]
    constructor
    · intro hsub
      refine ⟨hsub, ?_⟩
      rintro - _ rfl hvalid
      rw [hgen] at hvalid
      cases hvalid
    · exact fun h => h.1
  · -- the ring is full: buffer and future are taken back, the credit is not
    rcases hprep _ _ h with hmoved | ⟨nextBox, heq⟩
    · exact absurd htail hmoved
    · rw [heq, undo_eq]
      refine (SameTables.recv_undone_iff nextBox hfree hst).trans ?_
      simp only [RollsBack, hst, Option.some.injEq]
      constructor
      · rintro ⟨hsub, hundone⟩
        exact ⟨hsub, by rintro - _ rfl -; exact hundone⟩
      · rintro ⟨hsub, hundone⟩
        exact ⟨hsub, hundone (by simp [hfree]) st rfl hgen⟩

variable {s : UringCore F H T} {now : Nat} {enter : Except String Nat} {fd : Fd}

theorem submitRecv_refused_iff {future : F} (h : s.Refuses now enter fd (.recv future)) :
    SameTables s (s.submitRecv now enter fd future).1 ↔ s.RollsBack now fd (.recv future) := by
  obtain ⟨htail, hr⟩ := h
  refine recv_refused_iff "No buffers available for recv" future ?_ ?_ ?_ htail hr
  · intro h
    simp only [request, submitRecv, h]
  · intro core e h
    simp only [request, submitRecv, h, and_self]
  · intro core bufIdx h
    simp only [submitRecv, h, Ring.prepRecv]
    split
    · exact .inr ⟨core.nextBox, by rw [undo_eq]⟩
    · rename_i ring hpush
      refine .inl ?_
      simpa using push_tail hpush

theorem submitRecvfrom_refused_iff {future : F} (h : s.Refuses now enter fd (.recvfrom future)) :
    SameTables s (s.submitRecvfrom now enter fd future).1 ↔
      s.RollsBack now fd (.recvfrom future) := by
  obtain ⟨htail, hr⟩ := h
  refine recv_refused_iff "No buffers available for recvfrom" future ?_ ?_ ?_ htail hr
  · intro h
    simp only [request, submitRecvfrom, h]
  · intro core e h
    simp only [request, submitRecvfrom, h, and_self]
  · intro core bufIdx h
    simp only [submitRecvfrom, h, Ring.prepRecvmsg]
    split
    · exact .inr ⟨core.nextBox + 1, by rw [undo_eq, undo_eq]⟩
    · rename_i ring hpush
      refine .inl ?_
      simpa using push_tail hpush

theorem submitSend_refused_iff {data : Bytes} {future : F}
    (h : s.Refuses now enter fd (.send data future)) :
    SameTables s (s.submitSend now enter fd data future).1 ↔
      s.RollsBack now fd (.send data future) := by
  obtain ⟨htail, e, hr, hpanic⟩ := h
  have hsub := s.bufferPool.subset_acquirable now
  simp only [request] at htail hr
  revert htail hr
  unfold submitSend
  rw [BufferPool.acquire_eq]
  cases hfree : s.bufferPool.acquirable now with
  | nil =>
    intro _ _
    have hempty : s.bufferPool.freeList = [] := List.subset_nil.mp (hfree ▸ hsub)
    have hpool : (s.bufferPool.reclaimQuarantined now).freeList = [] := hfree
    simp [SameTables.of_pool s.nextBox, RollsBack, hfree, hpool, hempty]
  | cons bufIdx rest =>
    simp only [Ring.prepSend]
    split
    · intro _ hr
      cases hr
      cases hpanic
    · split
      · intro _ _
        rw [undo_eq]
        constructor
        · intro h
          exact ⟨(mem_cycled hfree).mp h.free, fun _ => (lookup_undone _ fd future).mp h.futures⟩
        · rintro ⟨hsub, hnone⟩
          exact { SameTables.refl s with
            free := (mem_cycled hfree).mpr hsub
            futures := (lookup_undone _ fd future).mpr (hnone (by simp [hfree])) }
      · rename_i ring hpush
        intro htail _
        exact absurd (by simpa using htail) (push_tail hpush)

theorem submitSendto_refused {data : Bytes} {addr : AddrArg} {future : F}
    (h : s.Refuses now enter fd (.sendto data addr future)) :
    SameTables s (s.submitSendto enter fd data addr future).1 := by
  obtain ⟨htail, e, hr, -⟩ := h
  simp only [request] at htail hr
  revert htail hr
  unfold submitSendto
  cases buildSockaddr addr with
  | error e => exact fun _ _ => SameTables.refl s
  | ok sockaddr =>
    simp only [Ring.prepSendmsg]
    split
    · exact fun _ _ => { SameTables.refl s with }
    · rename_i ring hpush
      split
      · rename_i core' e hsubmit
        intro htail _
        have hring := congrArg (fun x => x.1.ring.tail) hsubmit
        simp only [submit_ring, Ring.tail_submit] at hring
        exact absurd (hring.trans htail) (push_tail hpush)
      · intro _ hr
        cases hr

theorem submitAccept_refused_iff {future : F} (h : s.Refuses now enter fd (.accept future)) :
    SameTables s (s.submitAccept enter fd future).1 ↔ s.futures.lookup fd = none := by
  obtain ⟨htail, e, hr, -⟩ := h
  simp only [request] at htail hr
  revert htail hr
  unfold submitAccept
  simp only [Ring.prepAccept]
  split
  · intro _ _
    rw [← lookup_undone s.futures fd future]
    exact ⟨fun h => h.futures, fun h => { SameTables.refl s with futures := h }⟩
  · rename_i ring hpush
    intro htail _
    exact absurd (by simpa using htail) (push_tail hpush)

/-- The future of a refused multishot receive stays, so it must have been there. -/
theorem submitRecvMultishot_refused_iff {future : F}
    (h : s.Refuses now enter fd (.recvMultishot future)) :
    SameTables s (s.submitRecvMultishot enter fd future).1 ↔
      (s.pbufRing.isSome → s.futures.lookup fd = some future) := by
  obtain ⟨htail, e, hr, -⟩ := h
  simp only [request] at htail hr
  revert htail hr
  unfold submitRecvMultishot
  cases hring : s.pbufRing with
  | none =>
    intro _ _
    exact ⟨fun _ hsome => (by cases hsome), fun _ => SameTables.refl s⟩
  | some pr =>
    simp only [Ring.prepRecvMultishot]
    split
    · intro _ _
      constructor
      · intro h _
        rw [← h.futures fd]
        exact AList.lookup_insert ..
      · intro h
        refine { SameTables.refl s with futures := fun fd' => ?_ }
        by_cases heq : fd' = fd
        · rw [heq, AList.lookup_insert, h rfl]
        · rw [AList.lookup_insert_ne heq]
    · rename_i ring hpush
      intro htail _
      exact absurd (by simpa using htail) (push_tail hpush)

/-- The requests that only push an entry. -/
theorem plain_refused {op : SqeOp} {generation : UInt16} {target : Target}
    {core' : UringCore F H T} {r : Except PyErr Unit}
    (h : (match s.ring.push fd op generation target with
      | .error e => (s, .error (.runtimeError e.display))
      | .ok ring => submit enter { s with ring }) = (core', r))
    (htail : core'.ring.tail = s.ring.tail) : SameTables s core' := by
  split at h
  · cases h
    exact SameTables.refl s
  · rename_i ring hpush
    have hring := congrArg (fun x => x.1.ring.tail) h
    simp only [submit_ring, Ring.tail_submit] at hring
    exact absurd (hring.trans htail) (push_tail hpush)

/-- **Atomicity of refused submissions.** In every state, a submission that raises before it has
queued anything leaves the tables as they were if and only if `RollsBack` held before. -/
theorem refused_unchanged_iff {req : Request F} (h : s.Refuses now enter fd req) :
    SameTables s (s.request now enter fd req).1 ↔ s.RollsBack now fd req := by
  cases req with
  | recv future => exact submitRecv_refused_iff h
  | recvfrom future => exact submitRecvfrom_refused_iff h
  | sendto data addr future => exact iff_of_true (submitSendto_refused h) trivial
  | recvMultishot future => exact submitRecvMultishot_refused_iff h
  | send data future => exact submitSend_refused_iff h
  | accept future => exact submitAccept_refused_iff h
  | acceptMultishot => exact iff_of_true (plain_refused (r := _) rfl h.1) trivial
  | close => exact iff_of_true (plain_refused (r := _) rfl h.1) trivial

/-- A receive on descriptor 5 is in flight, and then the queue is full. -/
def fullRun : List (Act Nat Unit Nat) :=
  [.registerFd 5 "tcp", .request 0 (.ok 1) 5 (.recv 7)] ++
    List.replicate 8 (.request 0 (.ok 0) 6 .close)

/-- A refused accept on a descriptor that nothing else uses. -/
theorem refused_unchanged_accept :
    ∃ core t : UringCore Nat Unit Nat, new Setup.plain 16 2 = .ok core ∧
      machine.run core fullRun = some t ∧ t.Refuses 0 (.ok 0) 9 (.accept 8) ∧
      SameTables t (t.request 0 (.ok 0) 9 (.accept 8)).1 :=
  ⟨_, _, rfl, rfl, ⟨rfl, _, rfl, rfl⟩, (refused_unchanged_iff ⟨rfl, _, rfl, rfl⟩).mpr rfl⟩

/-- A refused second receive: the future of the first one is gone, and the credit is taken. -/
theorem refused_changes_recv :
    ∃ core t : UringCore Nat Unit Nat, new Setup.plain 16 2 = .ok core ∧
      machine.run core fullRun = some t ∧ t.Refuses 0 (.ok 0) 5 (.recv 8) ∧
      t.futures.lookup 5 = some 7 ∧
      (t.request 0 (.ok 0) 5 (.recv 8)).1.futures.lookup 5 = none ∧
      (t.fdStates.states.lookup 5).map (·.inflightCount) = some 1 ∧
      ((t.request 0 (.ok 0) 5 (.recv 8)).1.fdStates.states.lookup 5).map (·.inflightCount) =
        some 2 :=
  ⟨_, _, rfl, rfl, ⟨rfl, _, rfl, rfl⟩, rfl, rfl, rfl, rfl⟩

end UringCore

end Uringcore
