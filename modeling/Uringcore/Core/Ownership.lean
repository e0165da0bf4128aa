import Mathlib.Data.List.Nodup
import Uringcore.Core.Conservation

/-!
# Who owns a buffer

While an operation is in flight the kernel may read or write the buffer it points at, and it may
fill any buffer that is published in the provided ring. `Exclusive` says that such an index is
neither free nor attached to another operation in flight.

The code gives this up in three ways: a provided ring is built over *all* indices of the pool while
they are also all free; a second receive on a descriptor, and unregistering it, release the tracked
buffer without asking whether its operation has completed. Without a provided ring, and as long as
no receive joins another one on its descriptor and no descriptor is unregistered under a receive in
flight (`Careful`), the ledger `Owned` is kept: every index is free, tracked or held by a send in
flight, and in one of these places only.
-/

namespace Uringcore.UringCore
variable {F H T : Type}

/-- The buffers that operations in flight point at. -/
def opBuffers (core : UringCore F H T) : List UInt16 := core.ring.inFlight.filterMap (·.op.buf?)

/-- The buffers published in the provided ring. -/
def provided (core : UringCore F H T) : List UInt16 :=
  match core.pbufRing with
  | some r => r.published core.pbufHead
  | none => []

/-- No index the kernel may use is free or attached to another operation in flight. -/
structure Exclusive (core : UringCore F H T) : Prop where
  notFree : ∀ b ∈ core.opBuffers ++ core.provided, b ∉ core.bufferPool.freeList
  ops : core.opBuffers.Nodup
  provided : ∀ b ∈ core.provided, b ∉ core.opBuffers

/-- A receive on `fd` would be issued now: credit, a buffer and room in the queue are there. -/
def IssuesRecv (core : UringCore F H T) (fd : Fd) : Prop :=
  core.fdStates.shouldSubmitRecv fd ∧ core.bufferPool.freeList ≠ [] ∧
    core.ring.sq.length < core.ring.entries

instance (core : UringCore F H T) (fd : Fd) : Decidable (core.IssuesRecv fd) :=
  inferInstanceAs (Decidable (_ ∧ _ ∧ _))

/-- The calls that cannot release a buffer in flight: a receive is issued only when none is
outstanding on its descriptor, a descriptor is unregistered only when none is in flight on it. -/
def Careful (core : UringCore F H T) : Act F H T → Prop
  | .request _ _ fd req => req.isRecv → core.IssuesRecv fd →
      ∀ e ∈ core.ring.outstanding, e.fd = fd → e.op.isRecv = false
  | .unregisterFd fd => ∀ e ∈ core.ring.inFlight, e.fd = fd → e.op.isRecv = false
  | _ => True

instance (core : UringCore F H T) : ∀ a : Act F H T, Decidable (core.Careful a)
  | .request _ _ fd req => inferInstanceAs (Decidable (req.isRecv → core.IssuesRecv fd →
      ∀ e ∈ core.ring.outstanding, e.fd = fd → e.op.isRecv = false))
  | .unregisterFd fd => inferInstanceAs
      (Decidable (∀ e ∈ core.ring.inFlight, e.fd = fd → e.op.isRecv = false))
  | .registerFd .. | .pauseReading _ | .resumeReading _ | .registerFile .. | .unregisterFile ..
  | .submit _ | .runTick .. | .consume _ | .complete .. => isTrue trivial

/-- The buffers of sends in flight. -/
def sendBuffers (core : UringCore F H T) : List UInt16 :=
  core.ring.inFlight.filterMap (·.op.sendBuf?)

/-- Free, tracked, or held by a send. -/
def ledger (core : UringCore F H T) : List UInt16 :=
  core.bufferPool.freeList ++ (core.inflightRecvBuffers.values ++ core.sendBuffers)

theorem ledger_eq (core : UringCore F H T) : core.ledger = core.holdings ++ core.sendBuffers :=
  (List.append_assoc ..).symm

/-- The receives of a list are on distinct descriptors. -/
def RecvsDistinct (l : List Sqe) : Prop :=
  l.Pairwise fun e e' => e.op.isRecv → e'.op.isRecv → e.fd ≠ e'.fd

structure Owned (core : UringCore F H T) : Prop where
  noRing : core.pbufRing = none
  nodup : core.ledger.Nodup
  tracked : ∀ e ∈ core.ring.inFlight, ∀ b, e.op.recvBuf? = some b →
    core.inflightRecvBuffers.lookup e.fd = some b
  distinct : RecvsDistinct core.ring.outstanding

theorem RecvsDistinct.perm {l l' : List Sqe} (h : l.Perm l') (hl : RecvsDistinct l) :
    RecvsDistinct l' :=
  (h.pairwise_iff fun hab hb ha heq => hab ha hb heq.symm).mp hl

/-- An operation points at the buffer it receives into or sends from. -/
theorem buf_eq_some {op : SqeOp} {b : UInt16} (h : op.buf? = some b) :
    op.recvBuf? = some b ∨ op.sendBuf? = some b := by
  cases op <;> simp_all [SqeOp.buf?, SqeOp.recvBuf?, SqeOp.sendBuf?]

theorem sendBuffers_issued {s : UringCore F H T} {ring : Ring} {fd : Fd} {op : SqeOp} {e : Sqe}
    (h : s.ring.Issued fd op ring e) :
    ring.inFlight.filterMap (·.op.sendBuf?) = s.sendBuffers ++ op.sendBuf?.toList := by
  rw [h.inFlight, List.filterMap_append, sendBuffers, ← h.op_eq]
  cases hop : e.op.sendBuf? <;> simp [hop]

namespace Owned

/-- The buffer of a receive in flight is tracked. -/
theorem mem_values {core : UringCore F H T} (h : core.Owned) {e : Sqe}
    (he : e ∈ core.ring.inFlight) {b : UInt16} (hb : e.op.recvBuf? = some b) :
    b ∈ core.inflightRecvBuffers.values :=
  AList.mem_values.mpr ⟨e.fd, h.tracked e he b hb⟩

theorem values_nodup {core : UringCore F H T} (h : core.Owned) :
    core.inflightRecvBuffers.values.Nodup :=
  (List.nodup_append.mp (List.nodup_append.mp h.nodup).2.1).1

/-- **Ownership.** -/
theorem exclusive {core : UringCore F H T} (h : core.Owned) : core.Exclusive := by
  have hprovided : core.provided = [] := by rw [provided, h.noRing]
  obtain ⟨-, hheld, hfree⟩ := List.nodup_append.mp h.nodup
  obtain ⟨hvalues, hsends, hdisjoint⟩ := List.nodup_append.mp hheld
  have hop : ∀ e ∈ core.ring.inFlight, ∀ b, e.op.buf? = some b →
      b ∈ core.inflightRecvBuffers.values ∨ b ∈ core.sendBuffers := by
    intro e he b hb
    obtain hb | hb := buf_eq_some hb
    · exact .inl (h.mem_values he hb)
    · exact .inr (List.mem_filterMap.mpr ⟨e, he, hb⟩)
  refine ⟨?_, ?_, ?_⟩
  · intro b hb hbfree
    rw [hprovided, List.append_nil, opBuffers, List.mem_filterMap] at hb
    obtain ⟨e, he, hb⟩ := hb
    exact hfree b hbfree b (List.mem_append.mpr (hop e he b hb)) rfl
  · have hrecv : RecvsDistinct core.ring.inFlight :=
      List.Pairwise.sublist (List.sublist_append_left _ _) h.distinct
    have hsend := List.pairwise_filterMap.mp hsends
    refine List.pairwise_filterMap.mpr ((hrecv.and hsend).imp_of_mem ?_)
    rintro e e' he he' ⟨hfd, hsend⟩ b hb b' hb' rfl
    obtain hb | hb := buf_eq_some hb <;> obtain hb' | hb' := buf_eq_some hb'
    · refine hfd (by rw [SqeOp.isRecv, hb]; rfl) (by rw [SqeOp.isRecv, hb']; rfl) ?_
      exact AList.key_eq_of_values_nodup h.values_nodup (h.tracked e he b hb)
        (h.tracked e' he' b hb')
    · exact hdisjoint b (h.mem_values he hb) b
        (List.mem_filterMap.mpr ⟨e', he', hb'⟩) rfl
    · exact hdisjoint b (h.mem_values he' hb') b
        (List.mem_filterMap.mpr ⟨e, he, hb⟩) rfl
    · exact hsend b hb b hb' rfl
  · intro b hb
    rw [hprovided] at hb
    cases hb

/-- Operations that are no receives may come without breaking the ledger. -/
theorem mono {s t : UringCore F H T} (h : s.Owned) (l : List Sqe) (hring : t.pbufRing = s.pbufRing)
    (hledger : t.ledger.Nodup) (hmap : t.inflightRecvBuffers = s.inflightRecvBuffers)
    (hl : ∀ e ∈ l, e.op.isRecv = false) (hops : t.ring.inFlight = s.ring.inFlight ++ l)
    (hcq : t.ring.cq = s.ring.cq) : t.Owned where
  noRing := hring.trans h.noRing
  nodup := hledger
  tracked e he b hb := by
    rw [hmap]
    rw [hops] at he
    obtain he | he := List.mem_append.mp he
    · exact h.tracked e he b hb
    · have hnot := hl e he
      rw [SqeOp.isRecv, hb] at hnot
      cases hnot
  distinct := by
    have hperm : t.ring.outstanding.Perm (l ++ s.ring.outstanding) := by
      simp only [Ring.outstanding, Ring.finished, hops, hcq, ← List.append_assoc]
      exact List.perm_append_comm.append_right _
    refine RecvsDistinct.perm hperm.symm (List.pairwise_append.mpr ⟨?_, h.distinct, ?_⟩)
    · refine List.pairwise_of_forall_mem_list fun e he e' _ hrecv => ?_
      simp [hl e he] at hrecv
    · intro e he e' _ hrecv
      simp [hl e he] at hrecv

theorem of_same {s t : UringCore F H T} (hst : SameLedger s t) (h : s.Owned) : t.Owned := by
  have hledger : t.ledger = s.ledger := by
    rw [ledger, ledger, sendBuffers, sendBuffers, hst.bufferPool, hst.inflightRecvBuffers,
      hst.inFlight]
  refine h.mono [] hst.pbufRing (by rw [hledger]; exact h.nodup) hst.inflightRecvBuffers
    (by simp) ?_ hst.cq
  rw [hst.inFlight, List.append_nil]

/-- A receive is issued on a descriptor without an outstanding one. -/
theorem of_recvIssued {s t : UringCore F H T} (h : s.Owned) {fd : Fd} {op : SqeOp} {e : Sqe}
    {bufIdx : UInt16} {rest : List UInt16} (huntracked : s.inflightRecvBuffers.lookup fd = none)
    (hnone : ∀ e ∈ s.ring.outstanding, e.fd = fd → e.op.isRecv = false)
    (hfree : s.bufferPool.freeList = bufIdx :: rest) (hissued : s.ring.Issued fd op t.ring e)
    (hbuf : op.recvBuf? = some bufIdx) (hsend : op.sendBuf? = none)
    (hring : t.pbufRing = s.pbufRing) (hfree' : t.bufferPool.freeList = rest)
    (hmap : t.inflightRecvBuffers = s.inflightRecvBuffers.insert fd bufIdx) : t.Owned := by
  have hout := hissued.outstanding
  have hold : ∀ e' ∈ s.ring.outstanding, e'.op.isRecv → e'.fd ≠ fd := by
    intro e' he' hrecv heq
    rw [hnone e' he' heq] at hrecv
    cases hrecv
  refine ⟨hring.trans h.noRing, ?_, ?_, ?_⟩
  · have hperm : t.ledger.Perm s.ledger := by
      rw [ledger, ledger, sendBuffers, sendBuffers_issued hissued, hfree', hfree, hmap, hsend,
        AList.values_insert_of_lookup_eq_none _ huntracked]
      simp only [Option.toList_none, List.append_nil]
      exact List.perm_middle
    exact hperm.nodup_iff.mpr h.nodup
  · intro e' he' b hb
    rw [hissued.inFlight] at he'
    obtain he' | he' := List.mem_append.mp he'
    · have hrecv : e'.op.isRecv := by rw [SqeOp.isRecv, hb]; rfl
      rw [hmap, AList.lookup_insert_ne (hold e' (List.mem_append_left _ he') hrecv)]
      exact h.tracked e' he' b hb
    · rw [List.mem_singleton.mp he', hissued.op_eq, hbuf] at hb
      cases hb
      rw [List.mem_singleton.mp he', hmap, hissued.fd_eq, AList.lookup_insert]
  · refine RecvsDistinct.perm hout.symm (List.pairwise_cons.mpr ⟨?_, h.distinct⟩)
    intro e' he' _ hrecv heq
    exact hold e' he' hrecv (heq.symm.trans hissued.fd_eq)

theorem of_submission {s t : UringCore F H T} {now : Nat} {enter : Except String Nat} {fd : Fd}
    {req : Request F} (htracked : s.Tracked) (h : s.Owned) (hcareful : s.Careful (.request now enter fd req))
    (hsub : s.Submission enter fd req t) : t.Owned := by
  have hsame : ∀ e ∈ ([] : List Sqe), e.op.isRecv = false := by simp
  cases hsub with
  | kept _ _ _ _ => exact h.mono [] rfl h.nodup rfl hsame (List.append_nil _).symm rfl
  | acceptRefused _ => exact h.mono [] rfl h.nodup rfl hsame (List.append_nil _).symm rfl
  | multishotRefused _ _ => exact h.mono [] rfl h.nodup rfl hsame (List.append_nil _).symm rfl
  | recvRefused nextBox hreq hfree hst hcredit hfull =>
    have hnodup := h.nodup
    rw [ledger, hfree] at hnodup
    refine h.mono [] rfl ?_ rfl hsame (List.append_nil _).symm rfl
    exact ((List.perm_append_singleton _ _).append_right _).nodup_iff.mpr hnodup
  | recvIssued nextBox hreq hfree hst hcredit hissued hop =>
    have hissues : s.IssuesRecv fd := by
      refine ⟨?_, by rw [hfree]; exact List.cons_ne_nil _ _, hissued.room⟩
      rw [FDStateManager.shouldSubmitRecv, hst]
      exact hcredit
    have hnone : ∀ e ∈ s.ring.outstanding, e.fd = fd → e.op.isRecv = false := by
      obtain rfl | rfl := hreq <;> exact hcareful rfl hissues
    -- the buffer that would be lost belongs to a receive that is not there
    have huntracked : s.inflightRecvBuffers.lookup fd = none := by
      by_contra hsome
      obtain ⟨b, hb⟩ := Option.ne_none_iff_exists'.mp hsome
      obtain ⟨e, he, hfd, hbuf⟩ := htracked fd b hb
      have hnot := hnone e he hfd
      rw [SqeOp.isRecv, hbuf] at hnot
      cases hnot
    refine h.of_recvIssued huntracked hnone hfree hissued ?_ ?_ rfl ?_ rfl
    · obtain ⟨rfl, -⟩ | ⟨state, rfl, -⟩ := hop <;> rfl
    · obtain ⟨rfl, -⟩ | ⟨state, rfl, -⟩ := hop <;> rfl
    · simp [huntracked]
  | sendPanicked hfree hlen =>
    have hnodup := h.nodup
    rw [ledger, hfree] at hnodup
    exact h.mono [] rfl (List.Nodup.of_cons hnodup) rfl hsame (List.append_nil _).symm rfl
  | sendRefused hfree hlen hfull =>
    have hnodup := h.nodup
    rw [ledger, hfree] at hnodup
    refine h.mono [] rfl ?_ rfl hsame (List.append_nil _).symm rfl
    exact ((List.perm_append_singleton _ _).append_right _).nodup_iff.mpr hnodup
  | sendIssued hfree hlen hissued =>
    rename_i data future bufIdx rest ring e
    have hnodup := h.nodup
    rw [ledger, hfree] at hnodup
    refine h.mono [e] rfl ?_ rfl ?_ hissued.inFlight hissued.cq
    · -- the index leaves the free list and joins the buffers of sends
      rw [ledger, sendBuffers, sendBuffers_issued hissued]
      refine List.Perm.nodup_iff ?_ |>.mpr hnodup
      rw [← List.append_assoc, ← List.append_assoc, List.append_assoc rest]
      exact List.perm_append_singleton _ _
    · intro e' he'
      rw [List.mem_singleton.mp he', hissued.op_eq]
      rfl
  | sendtoIssued state nextBox haddr hissued hfutures =>
    rename_i data addr future ring e futures
    refine h.mono [e] rfl ?_ rfl ?_ hissued.inFlight hissued.cq
    · rw [ledger, sendBuffers, sendBuffers_issued hissued]
      simpa [SqeOp.sendBuf?, ledger] using h.nodup
    · intro e' he'
      rw [List.mem_singleton.mp he', hissued.op_eq]
      rfl
  | plainIssued hreq hop hring hissued =>
    rename_i ring e op
    have hop' : op.recvBuf? = none ∧ op.sendBuf? = none := by
      have := hop.1
      cases op <;> simp_all [SqeOp.buf?, SqeOp.recvBuf?, SqeOp.sendBuf?]
    refine h.mono [e] rfl ?_ rfl ?_ hissued.inFlight hissued.cq
    · rw [ledger, sendBuffers, sendBuffers_issued hissued]
      simpa [hop'.2, ledger] using h.nodup
    · intro e' he'
      rw [List.mem_singleton.mp he', hissued.op_eq, SqeOp.isRecv, hop'.1]
      rfl

theorem of_processNext {s : UringCore F H T} {c : Cqe} {cs : List Cqe} (hcq : s.ring.cq = c :: cs)
    (hs : s.Sound) (h : s.Owned) : (s.processNext c cs).Owned := by
  have hout := processNext_outstanding hcq
  have heq := processNext_eq c cs s
  have hledger : (s.processNext c cs).ledger.Nodup := by
    refine List.Perm.nodup_iff ?_ |>.mpr h.nodup
    rw [ledger_eq, ledger_eq, sendBuffers, sendBuffers, processNext_inFlight]
    exact (holdings_processNext s c cs).append_right _
  have hring : (s.processNext c cs).pbufRing = none := by
    rw [heq]
    exact h.noRing
  cases hrecv : c.sqe.op.isRecv with
  | false =>
    have hmap : (s.processNext c cs).inflightRecvBuffers = s.inflightRecvBuffers := by
      rw [heq]
      simp [hrecv]
    refine ⟨hring, hledger, ?_, ?_⟩
    · rw [processNext_inFlight, hmap]
      exact h.tracked
    · split at hout
      · rw [hout]
        exact h.distinct
      · exact (List.pairwise_cons.mp (RecvsDistinct.perm hout h.distinct)).2
  | true =>
    have hmap : (s.processNext c cs).inflightRecvBuffers =
        s.inflightRecvBuffers.erase c.sqe.fd := by
      rw [heq]
      simp [hrecv]
    rw [hs.ring.single c (by rw [hcq]; exact List.mem_cons_self ..) hrecv] at hout
    have hdistinct := List.pairwise_cons.mp (RecvsDistinct.perm hout h.distinct)
    refine ⟨hring, hledger, ?_, hdistinct.2⟩
    intro e he b hb
    have hfd := hdistinct.1 e (List.mem_append_left _ he) hrecv (by rw [SqeOp.isRecv, hb]; rfl)
    rw [processNext_inFlight] at he
    rw [hmap, AList.lookup_erase_ne (Ne.symm hfd)]
    exact h.tracked e he b hb

/-- The tracked buffer of a descriptor without a receive in flight moves to the free list. -/
theorem of_unregisterFd {s : UringCore F H T} (hs : s.Sound) {fd : Fd}
    (hnone : ∀ e ∈ s.ring.inFlight, e.fd = fd → e.op.isRecv = false) (h : s.Owned) :
    (s.unregisterFd fd).Owned := by
  rw [unregisterFd_eq hs]
  refine ⟨h.noRing, ?_, ?_, h.distinct⟩
  · refine List.Perm.nodup_iff ?_ |>.mpr h.nodup
    rw [ledger_eq, ledger_eq]
    exact (holdings_untrack s fd).append_right _
  · intro e he b hb
    have hfd : e.fd ≠ fd := by
      intro hfd
      have hnot := hnone e he hfd
      rw [SqeOp.isRecv, hb] at hnot
      cases hnot
    simp only
    rw [AList.lookup_erase_ne hfd]
    exact h.tracked e he b hb

theorem of_completed {s t : UringCore F H T} {c : Cqe} (hc : s.Completed c t) (h : s.Owned) :
    t.Owned := by
  have hout := hc.outstanding
  have hin : t.ring.inFlight.Sublist s.ring.inFlight := by
    have := hc.inFlight
    split at this
    · rw [this]
    · exact this.1
  refine ⟨hc.pbufRing.trans h.noRing, ?_, ?_, RecvsDistinct.perm hout.symm h.distinct⟩
  · have hsub : t.ledger.Sublist s.ledger := by
      rw [ledger, ledger, sendBuffers, sendBuffers, hc.bufferPool, hc.inflightRecvBuffers,
        storeData_freeList]
      exact ((hin.filterMap _).append_left _).append_left _
    exact h.nodup.sublist hsub
  · intro e he b hb
    rw [hc.inflightRecvBuffers]
    exact h.tracked e (hin.subset he) b hb

end Owned

/-- The index list a pool starts with has no repetition. -/
theorem indices_nodup (n : Nat) : ((List.range (n % 2 ^ 16)).map UInt16.ofNat).Nodup := by
  refine List.Nodup.map_on ?_ List.nodup_range
  intro i hi j hj heq
  have hi := List.mem_range.mp hi
  have hj := List.mem_range.mp hj
  have := congrArg UInt16.toNat heq
  simp only [UInt16.toNat_ofNat'] at this
  omega

theorem owned_new {setup : Setup} {bufferSize bufferCount : Nat} {core : UringCore F H T}
    (h : new setup bufferSize bufferCount = .ok core) (hring : core.pbufRing = none) :
    core.Owned := by
  obtain ⟨entries, pool, hpool, rfl⟩ := new_spec h
  obtain ⟨base, rfl⟩ := BufferPool.new_ok hpool
  refine ⟨hring, ?_, ?_, List.Pairwise.nil⟩
  · have hledger : (List.range (bufferCount % 2 ^ 16)).map UInt16.ofNat ++ ([] ++ []) =
        (List.range (bufferCount % 2 ^ 16)).map UInt16.ofNat := by simp
    show ((List.range (bufferCount % 2 ^ 16)).map UInt16.ofNat ++ ([] ++ [])).Nodup
    rw [hledger]
    exact indices_nodup bufferCount
  · intro e he
    cases he

section
variable [LE T] [DecidableLE T]

theorem Owned.step {s t : UringCore F H T} {a : Act F H T} (hI : s.Sound ∧ s.Tracked ∧ s.Owned)
    (hcareful : s.Careful a) (hstep : machine.step s a = some t) :
    t.Sound ∧ t.Tracked ∧ t.Owned := by
  refine step_rule (I := fun u => u.Tracked ∧ u.Owned) (C := fun u a => u.Careful a)
    (fun _ _ huv hu => ⟨hu.1.of_same huv, hu.2.of_same huv⟩) ?_ ?_ ?_ ?_ ?_ s a t hI hcareful hstep
  · intro u fd socketType _ _ hu
    exact ⟨hu.1, hu.2.noRing, hu.2.nodup, hu.2.tracked, hu.2.distinct⟩
  · intro u fd hnone hsound hu
    exact ⟨hu.1.of_unregisterFd hsound fd, hu.2.of_unregisterFd hsound hnone⟩
  · intro u v now enter fd req hreq _ hsub hu
    exact ⟨hu.1.of_submission hsub, hu.2.of_submission hu.1 hreq hsub⟩
  · intro u clock enter pushed _ hsound hu
    refine (tick_rule (I := fun u => u.Sound ∧ u.Tracked ∧ u.Owned) ?_ ?_ _ _ _ _
      ⟨hsound, hu⟩).2
    · intro v w hvw hv
      exact ⟨hv.1.of_same hvw, hv.2.1.of_same hvw, hv.2.2.of_same hvw⟩
    · intro v c cs hcq hv
      exact ⟨hv.1.of_processNext hcq, hv.2.1.of_processNext hcq, hv.2.2.of_processNext hcq hv.1⟩
  · intro u v c i _ _ hc hu
    exact ⟨hu.1.of_completed hc, hu.2.of_completed hc⟩

/-- **No buffer in flight is free or shared**, in every state reached from a core without a provided
ring by a run in which no receive joins another one outstanding on its descriptor and no descriptor
is unregistered under a receive in flight. -/
theorem exclusive_of_careful {setup : Setup} {bufferSize bufferCount : Nat}
    {core t : UringCore F H T} {acts : List (Act F H T)}
    (hnew : new setup bufferSize bufferCount = .ok core) (hring : core.pbufRing = none)
    (hrun : machine.run core acts = some t)
    (hcareful : machine.Meets (fun s a => s.Careful a) core acts) : t.Exclusive :=
  (Machine.run_invariant (I := fun u : UringCore F H T => u.Sound ∧ u.Tracked ∧ u.Owned)
    (fun _ _ _ hI hC hst => Owned.step hI hC hst)
    ⟨sound_new hnew, (new_tracked hnew).1, owned_new hnew hring⟩ hcareful hrun).2.2.exclusive

end

/-- A receive on descriptor 5 and a send on descriptor 6, both in flight. -/
def twoOpsRun : List (Act Nat Unit Nat) :=
  [.registerFd 5 "tcp", .request 0 (.ok 1) 5 (.recv 7), .request 0 (.ok 1) 6 (.send [1] 8)]

theorem exclusive_twoOps :
    ∃ core t : UringCore Nat Unit Nat, new Setup.plain 16 2 = .ok core ∧
      machine.run core twoOpsRun = some t ∧ t.opBuffers = [0, 1] ∧ t.Exclusive :=
  ⟨_, _, rfl, rfl, rfl, exclusive_of_careful (show new Setup.plain 16 2 = .ok _ from rfl) rfl
    (show machine.run _ twoOpsRun = some _ from rfl) (by decide)⟩

/-- With a provided ring every index is published and free from the start; without one, a second
receive on a descriptor frees the first one's buffer while the kernel may still write it. -/
theorem not_exclusive :
    (∃ core : UringCore Nat Unit Nat, new Setup.provided 16 2 = .ok core ∧ ¬ core.Exclusive) ∧
    ∃ core t : UringCore Nat Unit Nat, new Setup.plain 16 2 = .ok core ∧
      machine.run core [.registerFd 5 "tcp", .request 0 (.ok 1) 5 (.recv 7),
        .request 0 (.ok 1) 5 (.recv 8)] = some t ∧ ¬ t.Exclusive :=
  ⟨⟨_, rfl, fun h => h.notFree 0 (by decide) (by decide)⟩,
    ⟨_, _, rfl, rfl, fun h => h.notFree 0 (by decide) (by decide)⟩⟩

end Uringcore.UringCore
