import Uringcore.Core.System

/-!
# Where the pool's buffers are

A buffer index is in the free list, or tracked for a descriptor in `inflight_recv_buffers`, or gone:
an index that a send takes is remembered nowhere. `holdings` are the first two places together.
No step changes them as a multiset, except a send that gets as far as taking a buffer for good,
which removes one index (`holdings_step`). What is tracked belongs to a receive that is still
outstanding (`Tracked`), so with nothing outstanding the holdings are the free list.
-/

namespace Uringcore.UringCore
variable {F H T : Type}

/-- The indices the core can still account for. -/
def holdings (core : UringCore F H T) : List UInt16 :=
  core.bufferPool.freeList ++ core.inflightRecvBuffers.values

/-- A call that takes a buffer which no completion will give back: a send that is queued, and one
whose data does not fit. -/
def TakesForGood (core : UringCore F H T) : Act F H T → Prop
  | .request _ _ _ (.send data _) => core.bufferPool.freeList ≠ [] ∧
      (core.bufferPool.bufferSize < data.length ∨ core.ring.sq.length < core.ring.entries)
  | _ => False

instance (core : UringCore F H T) : ∀ a : Act F H T, Decidable (core.TakesForGood a)
  | .request _ _ _ (.send data _) => inferInstanceAs (Decidable (core.bufferPool.freeList ≠ [] ∧
      (core.bufferPool.bufferSize < data.length ∨ core.ring.sq.length < core.ring.entries)))
  | .request _ _ _ (.recv _) | .request _ _ _ (.recvfrom _) | .request _ _ _ (.sendto ..)
  | .request _ _ _ (.recvMultishot _) | .request _ _ _ (.accept _)
  | .request _ _ _ .acceptMultishot | .request _ _ _ .close
  | .registerFd .. | .unregisterFd _ | .pauseReading _ | .resumeReading _ | .registerFile ..
  | .unregisterFile .. | .submit _ | .runTick .. | .consume _ | .complete .. => isFalse not_false

theorem holdings_same {s t : UringCore F H T} (h : SameLedger s t) : t.holdings = s.holdings := by
  rw [holdings, holdings, h.bufferPool, h.inflightRecvBuffers]

/-- Erasing what is tracked for a descriptor and appending it to the free list moves it. -/
theorem holdings_untrack (s : UringCore F H T) (fd : Fd) :
    (s.bufferPool.freeList ++ (s.inflightRecvBuffers.lookup fd).toList ++
      (s.inflightRecvBuffers.erase fd).values).Perm s.holdings := by
  rw [holdings, List.append_assoc]
  refine List.Perm.append_left _ ?_
  cases hbuf : s.inflightRecvBuffers.lookup fd with
  | none => simp [AList.erase_of_lookup_eq_none hbuf]
  | some b => exact (AList.values_perm_cons_erase hbuf).symm

theorem holdings_processNext (s : UringCore F H T) (c : Cqe) (cs : List Cqe) :
    (s.processNext c cs).holdings.Perm s.holdings := by
  rw [processNext_eq, holdings]
  cases hop : c.sqe.op.isRecv with
  | true =>
    simp only [returned, hop, if_true]
    exact holdings_untrack s c.sqe.fd
  | false => simp [returned, hop, holdings]

/-- A request that does not take a buffer for good keeps the holdings. -/
theorem holdings_submission {s t : UringCore F H T} {now : Nat} {enter : Except String Nat} {fd : Fd}
    {req : Request F} (h : s.Submission enter fd req t)
    (hkeeps : ¬ s.TakesForGood (.request now enter fd req)) : t.holdings.Perm s.holdings := by
  cases h with
  | kept _ _ _ _ => exact List.Perm.refl _
  | recvRefused _ _ hfree _ _ _ =>
    rw [holdings, holdings, hfree]
    exact (List.perm_append_singleton _ _).append_right _
  | recvIssued _ _ hfree _ _ _ _ =>
    -- the new index is tracked in place of the old one, which goes to the free list
    rw [holdings, holdings, hfree]
    simp only [AList.values_insert]
    refine List.perm_middle.trans (List.Perm.cons _ ?_)
    rw [List.append_assoc]
    refine List.Perm.append_left _ ?_
    cases hbuf : s.inflightRecvBuffers.lookup fd with
    | none => simp [AList.erase_of_lookup_eq_none hbuf]
    | some b => exact (AList.values_perm_cons_erase hbuf).symm
  | sendPanicked hfree hlen =>
    exact absurd ⟨by rw [hfree]; exact List.cons_ne_nil _ _, .inl hlen⟩ hkeeps
  | sendRefused hfree _ _ =>
    rw [holdings, holdings, hfree]
    exact (List.perm_append_singleton _ _).append_right _
  | sendIssued hfree _ hissued =>
    exact absurd ⟨by rw [hfree]; exact List.cons_ne_nil _ _, .inr hissued.room⟩ hkeeps
  | sendtoIssued _ _ _ _ _ => exact List.Perm.refl _
  | acceptRefused _ => exact List.Perm.refl _
  | multishotRefused _ _ => exact List.Perm.refl _
  | plainIssued _ _ _ _ => exact List.Perm.refl _

/-- A request that takes a buffer for good takes one index out of the holdings. -/
theorem holdings_takesForGood {s t : UringCore F H T} {now : Nat} {enter : Except String Nat}
    {fd : Fd} {req : Request F} (h : s.Submission enter fd req t)
    (htakes : s.TakesForGood (.request now enter fd req)) :
    ∃ b, (b :: t.holdings).Perm s.holdings := by
  cases h with
  | kept req nextBox hsend _ =>
    cases req with
    | send data future => exact absurd (hsend data future rfl) htakes.1
    | _ => exact htakes.elim
  | sendPanicked hfree _ => exact ⟨_, by rw [holdings, holdings, hfree]; exact List.Perm.refl _⟩
  | sendIssued hfree _ _ => exact ⟨_, by rw [holdings, holdings, hfree]; exact List.Perm.refl _⟩
  | sendRefused _ hlen hfull =>
    obtain hlt | hlt := htakes.2
    · exact absurd hlt (Nat.not_lt.mpr hlen)
    · exact absurd hlt (Nat.not_lt.mpr hfull)
  | recvRefused _ hreq _ _ _ _ => rcases hreq with rfl | rfl <;> exact htakes.elim
  | recvIssued _ hreq _ _ _ _ _ => rcases hreq with rfl | rfl <;> exact htakes.elim
  | sendtoIssued _ _ _ _ _ => exact htakes.elim
  | acceptRefused _ => exact htakes.elim
  | multishotRefused _ _ => exact htakes.elim
  | plainIssued hreq _ _ _ =>
    cases req with
    | send data future => cases hreq
    | _ => exact htakes.elim

section
variable [LE T] [DecidableLE T]

/-- **Holdings, step by step.** -/
theorem holdings_step {s t : UringCore F H T} {a : Act F H T} (hs : s.Sound)
    (h : machine.step s a = some t) (hkeeps : ¬ s.TakesForGood a) :
    t.holdings.Perm s.holdings := by
  refine (step_rule (I := fun u => u.holdings.Perm s.holdings) (C := fun u a => ¬ u.TakesForGood a)
    ?_ ?_ ?_ ?_ ?_ ?_ s a t ⟨hs, List.Perm.refl _⟩ hkeeps h).2
  · intro u v hsame hu
    rw [holdings_same hsame]
    exact hu
  · intro u fd socketType _ _ hu
    exact hu
  · intro u fd _ hsound hu
    rw [unregisterFd_eq hsound]
    exact (holdings_untrack u fd).trans hu
  · intro u v now enter fd req hnot _ hsub hu
    exact (holdings_submission hsub hnot).trans hu
  · intro u clock enter pushed _ _ hu
    refine tick_rule (I := fun v => v.holdings.Perm s.holdings) ?_ ?_ _ _ _ _ hu
    · intro v w hsame hv
      rw [holdings_same hsame]
      exact hv
    · intro v c cs _ hv
      exact (holdings_processNext v c cs).trans hv
  · intro u v c i _ _ hc hu
    rw [holdings, hc.bufferPool, hc.inflightRecvBuffers, storeData_freeList]
    exact hu

theorem holdings_length_lt {s t : UringCore F H T} {a : Act F H T}
    (h : machine.step s a = some t) (hs : s.Sound) (htakes : s.TakesForGood a) :
    t.holdings.length < s.holdings.length := by
  cases a with
  | request now enter fd req =>
    cases h
    obtain ⟨b, hperm⟩ := holdings_takesForGood (request_spec hs now req) htakes
    have hlen := hperm.length_eq
    simp only [List.length_cons] at hlen
    show (s.request now enter fd req).1.holdings.length < s.holdings.length
    omega
  | _ => exact htakes.elim

end

/-! ## What is tracked is outstanding -/

/-- Every tracked buffer is the buffer of an outstanding receive on that descriptor. -/
def Tracked (core : UringCore F H T) : Prop :=
  ∀ fd b, core.inflightRecvBuffers.lookup fd = some b →
    ∃ e ∈ core.ring.outstanding, e.fd = fd ∧ e.op.recvBuf? = some b

/-- The tracked part keeps when the operations it speaks of are still there. -/
theorem Tracked.mono {s t : UringCore F H T} (h : s.Tracked)
    (hbufs : ∀ fd b, t.inflightRecvBuffers.lookup fd = some b →
      s.inflightRecvBuffers.lookup fd = some b)
    (hops : ∀ e ∈ s.ring.outstanding, t.inflightRecvBuffers.lookup e.fd = e.op.recvBuf? →
      e.op.isRecv → e ∈ t.ring.outstanding) : t.Tracked := by
  intro fd b hb
  obtain ⟨e, he, rfl, hbuf⟩ := h fd b (hbufs fd b hb)
  exact ⟨e, hops e he (hb.trans hbuf.symm) (by rw [SqeOp.isRecv, hbuf]; rfl), rfl, hbuf⟩

theorem Tracked.of_processNext {s : UringCore F H T} {c : Cqe} {cs : List Cqe}
    (hcq : s.ring.cq = c :: cs) (h : s.Tracked) : (s.processNext c cs).Tracked := by
  have hmap : (s.processNext c cs).inflightRecvBuffers =
      if c.sqe.op.isRecv then s.inflightRecvBuffers.erase c.sqe.fd else s.inflightRecvBuffers := by
    rw [processNext_eq]
  have hout := processNext_outstanding hcq
  refine h.mono ?_ ?_
  · intro fd b hb
    rw [hmap] at hb
    split at hb
    · exact (AList.lookup_erase_eq_some.mp hb).2
    · exact hb
  · intro e he hbuf hrecv
    split at hout
    · rwa [hout]
    · obtain rfl | he := List.mem_cons.mp (hout.mem_iff.mp he)
      · -- the operation that has just finished is a receive, so nothing is tracked for it any more
        rw [hmap, if_pos hrecv, AList.lookup_erase] at hbuf
        rw [SqeOp.isRecv, ← hbuf] at hrecv
        cases hrecv
      · exact he

theorem Tracked.of_submission {s t : UringCore F H T} {enter : Except String Nat} {fd : Fd}
    {req : Request F} (hsub : s.Submission enter fd req t) (h : s.Tracked) : t.Tracked := by
  cases hsub with
  | recvIssued nextBox hreq hfree hst hcredit hissued hop =>
    rename_i future bufIdx rest st ring e op recvmsgStates
    have hout := hissued.outstanding
    have hbuf : op.recvBuf? = some bufIdx := by
      obtain ⟨rfl, -⟩ | ⟨state, rfl, -⟩ := hop <;> rfl
    intro fd' b hb
    obtain ⟨rfl, rfl⟩ | ⟨-, hold⟩ := AList.lookup_insert_eq_some.mp hb
    · exact ⟨e, hout.mem_iff.mpr (List.mem_cons_self ..), hissued.fd_eq, by rw [hissued.op_eq, hbuf]⟩
    · obtain ⟨e', he', hfd', hbuf'⟩ := h fd' b hold
      exact ⟨e', hout.mem_iff.mpr (List.mem_cons_of_mem _ he'), hfd', hbuf'⟩
  | sendIssued _ _ hissued | sendtoIssued _ _ _ hissued _ | plainIssued _ _ _ hissued =>
    exact h.mono (fun _ _ hb => hb)
      fun e he _ _ => hissued.outstanding.mem_iff.mpr (List.mem_cons_of_mem _ he)
  | _ => exact h.mono (fun _ _ hb => hb) fun _ he _ _ => he

theorem Tracked.of_same {s t : UringCore F H T} (hst : SameLedger s t) (h : s.Tracked) :
    t.Tracked := by
  refine h.mono (fun _ _ hb => by rwa [hst.inflightRecvBuffers] at hb) ?_
  intro e he _ _
  rwa [hst.outstanding]

theorem Tracked.of_unregisterFd {s : UringCore F H T} (hs : s.Sound) (fd : Fd) (h : s.Tracked) :
    (s.unregisterFd fd).Tracked := by
  rw [unregisterFd_eq hs]
  refine h.mono ?_ fun _ he _ _ => he
  exact fun fd' b hb => (AList.lookup_erase_eq_some.mp hb).2

theorem Tracked.of_completed {s t : UringCore F H T} {c : Cqe} (hc : s.Completed c t)
    (h : s.Tracked) : t.Tracked := by
  refine h.mono (fun _ _ hb => by rwa [hc.inflightRecvBuffers] at hb) ?_
  intro e he _ _
  exact hc.outstanding.mem_iff.mpr he

theorem Tracked.step [LE T] [DecidableLE T] {s t : UringCore F H T} {a : Act F H T} (hs : s.Sound)
    (h : s.Tracked) (hstep : machine.step s a = some t) : t.Tracked := by
  refine (step_rule (C := fun _ _ => True) (fun _ _ huv hu => hu.of_same huv) ?_ ?_ ?_ ?_ ?_
    s a t ⟨hs, h⟩ trivial hstep).2
  · intro u fd socketType _ _ hu
    exact hu
  · intro u fd _ hsound hu
    exact hu.of_unregisterFd hsound fd
  · intro u v now enter fd req _ _ hsub hu
    exact hu.of_submission hsub
  · intro u clock enter pushed _ _ hu
    exact tick_rule (fun _ _ huv hu => Tracked.of_same huv hu)
      (fun _ c cs hcq hv => hv.of_processNext hcq) _ _ _ _ hu
  · intro u v c i _ _ hc hu
    exact hu.of_completed hc

/-- Nothing tracked without an outstanding operation. -/
theorem Tracked.values_eq_nil {core : UringCore F H T} (h : core.Tracked)
    (hidle : core.ring.outstanding = []) : core.inflightRecvBuffers.values = [] := by
  rw [List.eq_nil_iff_forall_not_mem]
  intro b hb
  obtain ⟨fd, hfd⟩ := AList.mem_values.mp hb
  obtain ⟨e, he, -, -⟩ := h fd b hfd
  rw [hidle] at he
  cases he

/-! ## Conservation -/

theorem new_tracked {setup : Setup} {bufferSize bufferCount : Nat} {core : UringCore F H T}
    (h : new setup bufferSize bufferCount = .ok core) :
    core.Tracked ∧ core.holdings = core.bufferPool.freeList := by
  obtain ⟨entries, pool, hpool, rfl⟩ := new_spec h
  refine ⟨?_, ?_⟩
  · intro fd b hb
    simp at hb
  · exact List.append_nil _

section
variable [LE T] [DecidableLE T]

/-- **Buffers come back unless a send has taken them.** In every run from a fresh core: as long as
no step takes a buffer for good, an index that is missing from the free list belongs to an
outstanding receive; and once nothing is outstanding the free list holds what it held at the start
if and only if no step of the run took a buffer for good. -/
theorem freeList_restored_iff {setup : Setup} {bufferSize bufferCount : Nat}
    {core t : UringCore F H T} {acts : List (Act F H T)}
    (hnew : new setup bufferSize bufferCount = .ok core) (hrun : machine.run core acts = some t) :
    (machine.Meets (fun s a => ¬ s.TakesForGood a) core acts →
      ∀ b ∈ core.bufferPool.freeList, b ∉ t.bufferPool.freeList →
        ∃ e ∈ t.ring.outstanding, e.op.recvBuf? = some b) ∧
    (t.ring.outstanding = [] →
      (t.bufferPool.freeList.Perm core.bufferPool.freeList ↔
        machine.Meets (fun s a => ¬ s.TakesForGood a) core acts)) := by
  obtain ⟨htracked, hholdings⟩ := new_tracked hnew
  have hsound := sound_new hnew
  obtain ⟨-, hend⟩ : t.Sound ∧ t.Tracked :=
    Machine.run_invariant' (I := fun u => u.Sound ∧ u.Tracked)
      (fun _ _ _ h hst => ⟨h.1.step hst, h.2.step h.1 hst⟩) ⟨hsound, htracked⟩ hrun
  have hkept : machine.Meets (fun s a => ¬ s.TakesForGood a) core acts →
      t.holdings.Perm core.bufferPool.freeList := by
    intro hmeets
    rw [← hholdings]
    refine (Machine.run_invariant (I := fun u => u.Sound ∧ u.holdings.Perm core.holdings)
      ?_ ⟨hsound, List.Perm.refl _⟩ hmeets hrun).2
    rintro s a u ⟨hs, hperm⟩ hkeeps hst
    exact ⟨hs.step hst, (holdings_step hs hst hkeeps).trans hperm⟩
  refine ⟨?_, ?_⟩
  · intro hmeets b hb hnot
    obtain hfree | hval := List.mem_append.mp ((hkept hmeets).mem_iff.mpr hb)
    · exact absurd hfree hnot
    · obtain ⟨fd, hfd⟩ := AList.mem_values.mp hval
      obtain ⟨e, he, -, hbuf⟩ := hend fd b hfd
      exact ⟨e, he, hbuf⟩
  · intro hidle
    have hfree : t.holdings = t.bufferPool.freeList := by
      rw [holdings, hend.values_eq_nil hidle, List.append_nil]
    constructor
    · intro hperm
      refine (Machine.meets_of_measure_eq (I := Sound) (fun u => u.holdings.length)
        ?_ hsound hrun).2 ?_
      · intro s a u hs hst
        by_cases htakes : s.TakesForGood a
        · have hlt := holdings_length_lt hst hs htakes
          exact ⟨hs.step hst, hlt.le, fun _ => hlt⟩
        · have hlen := (holdings_step hs hst htakes).length_eq
          exact ⟨hs.step hst, hlen.le, fun h => absurd htakes h⟩
      · rw [hfree, hholdings]
        exact hperm.length_eq
    · intro hmeets
      rw [← hfree]
      exact hkept hmeets

end

/-- One receive on descriptor 5, completed and processed. -/
def recvRun : List (Act Nat Unit Nat) :=
  [.registerFd 5 "tcp", .request 0 (.ok 1) 5 (.recv 7), .complete 0 (.data [1, 2]) false false,
    .runTick 0 (.ok 0) []]

/-- One send on descriptor 5, accepted in full and processed. -/
def sendRun : List (Act Nat Unit Nat) :=
  [.registerFd 5 "tcp", .request 0 (.ok 1) 5 (.send [1, 2, 3] 7), .complete 0 (.count 3) false false,
    .runTick 0 (.ok 0) []]

theorem freeList_restored_recv :
    ∃ core t : UringCore Nat Unit Nat, new Setup.plain 16 2 = .ok core ∧
      machine.run core recvRun = some t ∧
      t.bufferPool.freeList.Perm core.bufferPool.freeList :=
  ⟨_, _, rfl, rfl,
    ((freeList_restored_iff (show new Setup.plain 16 2 = .ok _ from rfl)
      (show machine.run _ recvRun = some _ from rfl)).2 rfl).mpr (by decide)⟩

theorem freeList_not_restored_send :
    ∃ core t : UringCore Nat Unit Nat, new Setup.plain 16 2 = .ok core ∧
      machine.run core sendRun = some t ∧ t.ring.outstanding = [] ∧
      ¬ t.bufferPool.freeList.Perm core.bufferPool.freeList :=
  ⟨_, _, rfl, rfl, rfl, by decide⟩

end Uringcore.UringCore
