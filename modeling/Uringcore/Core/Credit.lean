import Uringcore.Core.System

/-!
# Receive credit

`inflight_count` rises with every receive that takes credit. `run_tick` never lowers it (only
`drain_completions` does), and a submission that meets a full queue keeps the credit it took. So the
count is the number of receives still outstanding *plus* those processed *plus* those refused since
the descriptor was registered (`Accounted`).

What happened since a registration is not in the core's state. It is kept beside it, in a
`CreditLog`, as a history variable of the machine.
-/

namespace Uringcore.UringCore
variable {F H T : Type}

/-- A receive on `fd` submitted at number `since` or later. -/
def countsFor (since : Nat) (fd : Fd) (e : Sqe) : Bool :=
  e.fd = fd && e.op.isRecv && since ≤ e.seq

/-- The receives on `fd` submitted since `since` whose completion has not been processed. -/
def pendingRecvs (core : UringCore F H T) (since : Nat) (fd : Fd) : Nat :=
  core.ring.outstanding.countP (countsFor since fd)

/-- A receive on `fd` would take credit now and then meet a full queue. -/
def RefusesRecv (core : UringCore F H T) (fd : Fd) : Prop :=
  core.fdStates.shouldSubmitRecv fd ∧ core.bufferPool.freeList ≠ [] ∧
    core.ring.entries ≤ core.ring.sq.length

instance (core : UringCore F H T) (fd : Fd) : Decidable (core.RefusesRecv fd) :=
  inferInstanceAs (Decidable (_ ∧ _ ∧ _))

/-- For each descriptor, since its last registration: the submission number then, the receives
processed by ticks, and the receives refused by a full queue. -/
structure CreditLog where
  since : Fd → Nat
  processed : Fd → Nat
  refused : Fd → Nat

namespace CreditLog

def init : CreditLog := ⟨fun _ => 0, fun _ => 0, fun _ => 0⟩

def upd (s : UringCore F H T) (a : Act F H T) (_ : UringCore F H T) (log : CreditLog) : CreditLog :=
  match a with
  | .registerFd fd _ => {
      since := Function.update log.since fd s.ring.tail
      processed := Function.update log.processed fd 0
      refused := Function.update log.refused fd 0 }
  | .request _ _ fd req =>
      if req.isRecv ∧ s.RefusesRecv fd then
        { log with refused := Function.update log.refused fd (log.refused fd + 1) }
      else log
  | .runTick _ enter _ =>
      if s.Flushes enter then
        { log with processed := fun fd => log.processed fd +
            s.ring.cq.countP fun c => countsFor (log.since fd) fd c.sqe }
      else log
  | _ => log

end CreditLog

/-- The count of every registered descriptor, accounted for. -/
structure Accounted (core : UringCore F H T) (log : CreditLog) : Prop where
  since : ∀ fd, log.since fd ≤ core.ring.tail
  count : ∀ fd st, core.fdStates.states.lookup fd = some st →
    st.inflightCount = core.pendingRecvs (log.since fd) fd + log.processed fd + log.refused fd

namespace Accounted

theorem of_same {s t : UringCore F H T} {log : CreditLog} (hst : SameLedger s t)
    (h : s.Accounted log) : t.Accounted log := by
  refine ⟨fun fd => by rw [hst.tail]; exact h.since fd, ?_⟩
  intro fd st hlookup
  rw [pendingRecvs, hst.outstanding]
  obtain heq | ⟨fd', st', b, hst', heq⟩ := hst.fdStates
  · rw [heq] at hlookup
    exact h.count fd st hlookup
  · rw [heq] at hlookup
    obtain ⟨rfl, rfl⟩ | ⟨-, hold⟩ := AList.lookup_insert_eq_some.mp hlookup
    · exact h.count fd st' hst'
    · exact h.count fd st hold

/-- An operation that is not a receive changes no account. -/
theorem of_issued {s t : UringCore F H T} {log : CreditLog} {fd : Fd} {op : SqeOp} {e : Sqe}
    (hissued : s.ring.Issued fd op t.ring e) (hop : op.isRecv = false)
    (hstates : t.fdStates = s.fdStates) (h : s.Accounted log) : t.Accounted log := by
  refine ⟨fun fd => ?_, ?_⟩
  · rw [hissued.tail]
    exact (h.since fd).trans (Nat.le_succ _)
  · intro fd' st hlookup
    rw [hstates] at hlookup
    have hnot : countsFor (log.since fd') fd' e = false := by
      simp [countsFor, hissued.op_eq, hop]
    rw [h.count fd' st hlookup, pendingRecvs, pendingRecvs, hissued.outstanding.countP_eq,
      List.countP_cons_of_neg (by simp [hnot])]

theorem of_registerFd {s : UringCore F H T} {log : CreditLog} (hs : s.Sound) (fd : Fd)
    (socketType : String) (h : s.Accounted log) :
    (s.registerFd fd socketType).Accounted
      (log.upd s (.registerFd fd socketType) (s.registerFd fd socketType)) := by
  refine ⟨?_, ?_⟩
  · intro fd'
    show Function.update log.since fd s.ring.tail fd' ≤ s.ring.tail
    by_cases hfd : fd' = fd
    · rw [hfd, Function.update_self]
    · rw [Function.update_of_ne hfd]
      exact h.since fd'
  · intro fd' st hlookup
    show st.inflightCount = s.pendingRecvs (Function.update log.since fd s.ring.tail fd') fd' +
      Function.update log.processed fd 0 fd' + Function.update log.refused fd 0 fd'
    simp only [registerFd, FDStateManager.register] at hlookup
    obtain ⟨rfl, rfl⟩ | ⟨hfd, hold⟩ := AList.lookup_insert_eq_some.mp hlookup
    · have hnone : s.pendingRecvs s.ring.tail fd' = 0 := by
        refine List.countP_eq_zero.mpr fun e he => ?_
        have := hs.ring.below e he
        simp [countsFor]
        omega
      simp [hnone, FDState.new]
    · simp only [Function.update_of_ne hfd]
      exact h.count fd' st hold

/-- One more receive on `fd`, outstanding or refused, takes one more credit. -/
theorem of_onSubmit {s t : UringCore F H T} {log log' : CreditLog} (hs : s.Sound) {fd : Fd}
    {st : FDState} (hst : s.fdStates.states.lookup fd = some st) (hcredit : st.shouldSubmitRecv)
    (h : s.Accounted log) (htail : s.ring.tail ≤ t.ring.tail)
    (hstates : t.fdStates.states = s.fdStates.states.insert fd st.onSubmit)
    (hsince : log'.since = log.since)
    (hself : t.pendingRecvs (log.since fd) fd + log'.processed fd + log'.refused fd =
      s.pendingRecvs (log.since fd) fd + log.processed fd + log.refused fd + 1)
    (hother : ∀ fd' ≠ fd,
      t.pendingRecvs (log.since fd') fd' + log'.processed fd' + log'.refused fd' =
        s.pendingRecvs (log.since fd') fd' + log.processed fd' + log.refused fd') :
    t.Accounted log' := by
  refine ⟨fun fd' => by rw [hsince]; exact (h.since fd').trans htail, ?_⟩
  intro fd' st' hlookup
  rw [hstates] at hlookup
  rw [hsince]
  obtain ⟨rfl, rfl⟩ | ⟨hfd, hold⟩ := AList.lookup_insert_eq_some.mp hlookup
  · rw [(hs.onSubmit hst hcredit).2.2.2.1, h.count fd' st hst, hself]
  · rw [h.count fd' st' hold, hother fd' hfd]

theorem of_request {s t : UringCore F H T} {log : CreditLog} (hs : s.Sound) {now : Nat}
    {enter : Except String Nat} {fd : Fd} {req : Request F} (h : s.Accounted log)
    (hsub : s.Submission enter fd req t) :
    t.Accounted (log.upd s (.request now enter fd req) t) := by
  have hkeep : ¬ (req.isRecv ∧ s.RefusesRecv fd) →
      log.upd s (.request now enter fd req) t = log := fun hnot => if_neg hnot
  have hplain : req.isRecv = false → log.upd s (.request now enter fd req) t = log :=
    fun hreq => hkeep (by simp [hreq])
  cases hsub with
  | kept req nextBox hsend hrecv =>
    rw [hkeep fun hrefused => hrefused.2.2.1 (hrecv hrefused.1 hrefused.2.1)]
    exact ⟨h.since, h.count⟩
  | recvRefused nextBox hreq hfree hst hcredit hfull =>
    have hrecv : req.isRecv := by obtain rfl | rfl := hreq <;> rfl
    have hrefuses : s.RefusesRecv fd := by
      refine ⟨?_, by rw [hfree]; exact List.cons_ne_nil _ _, hfull⟩
      rw [FDStateManager.shouldSubmitRecv, hst]
      exact hcredit
    have hupd (u) : log.upd s (.request now enter fd req) u =
        { log with refused := Function.update log.refused fd (log.refused fd + 1) } :=
      if_pos ⟨hrecv, hrefuses⟩
    rw [hupd]
    refine h.of_onSubmit hs hst hcredit (Nat.le_refl _) rfl rfl ?_ ?_
    · simp only [Function.update_self]
      rfl
    · intro fd' hfd
      simp only [Function.update_of_ne hfd]
      rfl
  | recvIssued nextBox hreq hfree hst hcredit hissued hop =>
    rename_i future bufIdx rest st ring e op recvmsgStates
    have hroom : ¬ s.ring.entries ≤ s.ring.sq.length := Nat.not_le.mpr hissued.room
    have hisRecv : op.isRecv := by obtain ⟨rfl, -⟩ | ⟨state, rfl, -⟩ := hop <;> rfl
    rw [hkeep fun hrefused => hroom hrefused.2.2.2]
    refine h.of_onSubmit hs hst hcredit (by rw [hissued.tail]; exact Nat.le_succ _) rfl rfl ?_ ?_
    · have hyes : countsFor (log.since fd) fd e := by
        simp [countsFor, hissued.fd_eq, hissued.op_eq, hisRecv, hissued.seq_eq, h.since fd]
      rw [pendingRecvs, pendingRecvs, hissued.outstanding.countP_eq, List.countP_cons_of_pos hyes]
      omega
    · intro fd' hfd
      have hnot : ¬ countsFor (log.since fd') fd' e := by
        simp [countsFor, hissued.fd_eq, Ne.symm hfd]
      rw [pendingRecvs, pendingRecvs, hissued.outstanding.countP_eq, List.countP_cons_of_neg hnot]
  | sendPanicked hfree hlen => exact ⟨h.since, h.count⟩
  | sendRefused hfree hlen hfull => exact ⟨h.since, h.count⟩
  | acceptRefused hfull => exact ⟨h.since, h.count⟩
  | multishotRefused _ hfull => exact ⟨h.since, h.count⟩
  | sendIssued hfree hlen hissued =>
    rw [hplain rfl]
    exact h.of_issued hissued rfl rfl
  | sendtoIssued state nextBox haddr hissued hfutures =>
    rw [hplain rfl]
    exact h.of_issued hissued rfl rfl
  | plainIssued hreq hop hring hissued =>
    rename_i ring e op
    have hisRecv : op.isRecv = false := by
      have := hop.1
      cases op <;> simp_all [SqeOp.buf?, SqeOp.isRecv, SqeOp.recvBuf?]
    rw [hplain (by cases req <;> simp_all [Request.isPlain, Request.isRecv])]
    exact h.of_issued hissued hisRecv rfl

theorem of_unregisterFd {s : UringCore F H T} {log : CreditLog} (hs : s.Sound) (fd : Fd)
    (h : s.Accounted log) : (s.unregisterFd fd).Accounted log := by
  rw [unregisterFd_eq hs]
  refine ⟨h.since, ?_⟩
  intro fd' st hlookup
  exact h.count fd' st (AList.lookup_erase_eq_some.mp hlookup).2

theorem of_completed {s t : UringCore F H T} {log : CreditLog} {c : Cqe} (hc : s.Completed c t)
    (h : s.Accounted log) : t.Accounted log := by
  refine ⟨fun fd => by rw [hc.tail]; exact h.since fd, ?_⟩
  intro fd st hlookup
  rw [hc.fdStates] at hlookup
  rw [h.count fd st hlookup, pendingRecvs, pendingRecvs, hc.outstanding.countP_eq]

section
variable [LE T] [DecidableLE T]

/-- A tick moves receives from the outstanding ones to the processed ones. -/
theorem of_runTick {s : UringCore F H T} {log : CreditLog} (hs : s.Sound) (clock : T)
    (enter : Except String Nat) (pushed : List (List H)) (h : s.Accounted log) :
    (s.runTick scripted clock enter pushed).1.Accounted
      (log.upd s (.runTick clock enter pushed) (s.runTick scripted clock enter pushed).1) := by
  cases hsubmit : (s.ring.submit enter).2 with
  | error e =>
    have hupd : log.upd s (.runTick clock enter pushed)
        (s.runTick scripted clock enter pushed).1 = log :=
      if_neg (by simp [Flushes, hsubmit, Except.isOk, Except.toBool])
    rw [hupd]
    exact h.of_same (runTick_error scripted clock pushed hsubmit)
  | ok n =>
    obtain ⟨hring, hstates⟩ := runTick_ring scripted clock pushed hsubmit
    generalize (s.runTick scripted clock enter pushed).1 = t at hring hstates
    have hupd : log.upd s (.runTick clock enter pushed) t = { log with
        processed := fun fd => log.processed fd +
          s.ring.cq.countP fun c => countsFor (log.since fd) fd c.sqe } :=
      if_pos (by simp [Flushes, hsubmit, Except.isOk, Except.toBool])
    have hinFlight : t.ring.inFlight = s.ring.inFlight := by
      rw [hring]
      exact Ring.inFlight_submit enter s.ring
    rw [hupd]
    refine ⟨fun fd => ?_, ?_⟩
    · rw [hring]
      exact (h.since fd).trans (by simp)
    · intro fd st hlookup
      rw [hstates] at hlookup
      -- a receive among the drained completions was its operation's last one
      have hfinished : s.ring.finished.countP (countsFor (log.since fd) fd) =
          s.ring.cq.countP fun c => countsFor (log.since fd) fd c.sqe := by
        rw [Ring.finished, List.countP_map, List.countP_filter]
        refine List.countP_congr fun c hc => ?_
        simp only [Function.comp, Bool.and_eq_true, Bool.not_eq_true', and_iff_left_iff_imp]
        intro hcounts
        refine hs.ring.single c hc ?_
        simp only [countsFor, Bool.and_eq_true] at hcounts
        exact hcounts.1.2
      have hleft : t.pendingRecvs (log.since fd) fd =
          s.ring.inFlight.countP (countsFor (log.since fd) fd) := by
        rw [pendingRecvs, Ring.outstanding, hinFlight, Ring.finished, hring]
        simp
      have hbefore : s.pendingRecvs (log.since fd) fd =
          s.ring.inFlight.countP (countsFor (log.since fd) fd) +
            s.ring.finished.countP (countsFor (log.since fd) fd) := List.countP_append
      show st.inflightCount = t.pendingRecvs (log.since fd) fd + (log.processed fd +
        s.ring.cq.countP fun c => countsFor (log.since fd) fd c.sqe) + log.refused fd
      rw [h.count fd st hlookup, hleft, hbefore, hfinished]
      omega

theorem step {s t : UringCore F H T} {log : CreditLog} {a : Act F H T} (hs : s.Sound)
    (h : s.Accounted log) (hstep : machine.step s a = some t) :
    t.Accounted (log.upd s a t) := by
  cases a with
  | registerFd fd socketType =>
    cases hstep
    exact h.of_registerFd hs fd socketType
  | unregisterFd fd =>
    cases hstep
    exact h.of_unregisterFd hs fd
  | pauseReading fd =>
    cases hstep
    exact h.of_same (SameLedger.of_withFdStates s fd true)
  | resumeReading fd =>
    cases hstep
    exact h.of_same (SameLedger.of_withFdStates s fd false)
  | registerFile init update fd =>
    cases hstep
    exact h.of_same (registerFile_ledger init update fd s)
  | unregisterFile update fd =>
    cases hstep
    exact h.of_same (unregisterFile_ledger update fd s)
  | request now enter fd req =>
    cases hstep
    exact h.of_request hs (request_spec hs now req)
  | submit enter =>
    cases hstep
    exact h.of_same (SameLedger.of_submit enter s)
  | runTick clock enter pushed =>
    cases hstep
    exact h.of_runTick hs clock enter pushed
  | consume n =>
    cases hstep
    exact h.of_same (SameLedger.of_ring s (Ring.inFlight_take n s.ring) rfl rfl)
  | complete i payload select more =>
    obtain ⟨c, -, -, -, -, hc⟩ := complete_spec hstep
    exact h.of_completed hc

end

end Accounted

/-! ## When the credit is exact -/

section
variable [LE T] [DecidableLE T]

/-- The machine with the log as a history variable. -/
def creditMachine : Machine (UringCore F H T × CreditLog) (Act F H T) :=
  machine.ghost fun s a t log => log.upd s a t

/-- A step that neither processes a receive submitted since its descriptor was registered nor
refuses one. -/
def KeepsCredit (x : UringCore F H T × CreditLog) : Act F H T → Prop
  | .runTick _ enter _ => x.1.Flushes enter → ∀ c ∈ x.1.ring.cq, c.sqe.op.isRecv →
      (x.1.fdStates.states.lookup c.sqe.fd).isSome → c.sqe.seq < x.2.since c.sqe.fd
  | .request _ _ fd req => ¬ (req.isRecv ∧ x.1.RefusesRecv fd)
  | _ => True

instance (x : UringCore F H T × CreditLog) : ∀ a : Act F H T, Decidable (KeepsCredit x a)
  | .runTick _ enter _ => inferInstanceAs (Decidable (x.1.Flushes enter →
      ∀ c ∈ x.1.ring.cq, c.sqe.op.isRecv →
        (x.1.fdStates.states.lookup c.sqe.fd).isSome → c.sqe.seq < x.2.since c.sqe.fd))
  | .request _ _ fd req => inferInstanceAs (Decidable (¬ (req.isRecv ∧ x.1.RefusesRecv fd)))
  | .registerFd .. | .unregisterFd _ | .pauseReading _ | .resumeReading _ | .registerFile ..
  | .unregisterFile .. | .submit _ | .consume _ | .complete .. => isTrue trivial

/-- Since its registration nothing was processed or refused on any registered descriptor. -/
def NothingSpent (x : UringCore F H T × CreditLog) : Prop :=
  ∀ fd, (x.1.fdStates.states.lookup fd).isSome → x.2.processed fd = 0 ∧ x.2.refused fd = 0

omit [LE T] [DecidableLE T] in
/-- Only `register_fd` makes a descriptor known. -/
theorem NothingSpent.mono {s t : UringCore F H T} {log : CreditLog} (h : NothingSpent (s, log))
    (hknown : ∀ fd, (t.fdStates.states.lookup fd).isSome →
      (s.fdStates.states.lookup fd).isSome) : NothingSpent (t, log) :=
  fun fd hfd => h fd (hknown fd hfd)

omit [LE T] [DecidableLE T] in
theorem isSome_of_insert {m : FdMap FDState} {fd : Fd} {st st' : FDState}
    (hst : m.lookup fd = some st) (fd' : Fd) (h : ((m.insert fd st').lookup fd').isSome) :
    (m.lookup fd').isSome := by
  by_cases hfd : fd' = fd
  · subst hfd
    rw [hst]
    rfl
  · rwa [AList.lookup_insert_ne hfd] at h

omit [LE T] [DecidableLE T] in
theorem SameLedger.known {s t : UringCore F H T} (h : SameLedger s t) (fd : Fd)
    (hfd : (t.fdStates.states.lookup fd).isSome) : (s.fdStates.states.lookup fd).isSome := by
  obtain heq | ⟨fd', st, b, hst, heq⟩ := h.fdStates
  · rwa [heq] at hfd
  · rw [heq] at hfd
    exact isSome_of_insert hst fd hfd

theorem NothingSpent.step {s t : UringCore F H T} {log : CreditLog} {a : Act F H T} (hs : s.Sound)
    (h : NothingSpent (s, log)) (hkeeps : KeepsCredit (s, log) a)
    (hstep : machine.step s a = some t) : NothingSpent (t, log.upd s a t) := by
  cases a with
  | registerFd fd socketType =>
    cases hstep
    intro fd' hfd'
    show Function.update log.processed fd 0 fd' = 0 ∧ Function.update log.refused fd 0 fd' = 0
    by_cases hfd : fd' = fd
    · simp [hfd]
    · simp only [registerFd, FDStateManager.register] at hfd'
      rw [AList.lookup_insert_ne hfd] at hfd'
      rw [Function.update_of_ne hfd, Function.update_of_ne hfd]
      exact h fd' hfd'
  | unregisterFd fd =>
    cases hstep
    refine h.mono fun fd' hfd' => ?_
    rw [unregisterFd_eq hs] at hfd'
    by_cases hfd : fd' = fd
    · subst hfd
      simp at hfd'
    · rwa [AList.lookup_erase_ne hfd] at hfd'
  | pauseReading fd =>
    cases hstep
    exact h.mono (SameLedger.of_withFdStates s fd true).known
  | resumeReading fd =>
    cases hstep
    exact h.mono (SameLedger.of_withFdStates s fd false).known
  | registerFile init update fd =>
    cases hstep
    exact h.mono fun _ hfd => hfd
  | unregisterFile update fd =>
    cases hstep
    exact h.mono fun _ hfd => hfd
  | request now enter fd req =>
    cases hstep
    have hupd (u) : log.upd s (.request now enter fd req) u = log := if_neg hkeeps
    rw [hupd]
    have hsub : s.Submission enter fd req _ := request_spec hs now req
    show NothingSpent ((s.request now enter fd req).1, log)
    generalize (s.request now enter fd req).1 = t at hsub
    cases hsub with
    | recvRefused _ _ _ hst _ _ => exact h.mono (isSome_of_insert hst)
    | recvIssued _ _ _ hst _ _ _ => exact h.mono (isSome_of_insert hst)
    | _ => exact h.mono fun _ hfd => hfd
  | submit enter =>
    cases hstep
    exact h.mono fun _ hfd => hfd
  | runTick clock enter pushed =>
    cases hstep
    cases hsubmit : (s.ring.submit enter).2 with
    | error e =>
      have hupd (u) : log.upd s (.runTick clock enter pushed) u = log :=
        if_neg (by simp [Flushes, hsubmit, Except.isOk, Except.toBool])
      rw [hupd]
      exact h.mono (runTick_error scripted clock pushed hsubmit).known
    | ok n =>
      have hflushes : s.Flushes enter := by
        simp [Flushes, hsubmit, Except.isOk, Except.toBool]
      have hupd (u) : log.upd s (.runTick clock enter pushed) u = { log with
          processed := fun fd => log.processed fd +
            s.ring.cq.countP fun c => countsFor (log.since fd) fd c.sqe } := if_pos hflushes
      rw [hupd]
      intro fd hfd
      have hstates := (runTick_ring scripted clock pushed hsubmit).2
      have hknown : (s.fdStates.states.lookup fd).isSome := by
        rw [← hstates]
        exact hfd
      refine ⟨?_, (h fd hknown).2⟩
      have hzero : (s.ring.cq.countP fun c => countsFor (log.since fd) fd c.sqe) = 0 := by
        refine List.countP_eq_zero.mpr fun c hc hcounts => ?_
        simp only [countsFor, Bool.and_eq_true, decide_eq_true_eq] at hcounts
        obtain ⟨⟨rfl, hrecv⟩, hle⟩ := hcounts
        exact absurd (hkeeps hflushes c hc hrecv hknown) (Nat.not_lt.mpr hle)
      show log.processed fd + _ = 0
      rw [(h fd hknown).1, hzero]
  | consume n =>
    cases hstep
    exact h.mono fun _ hfd => hfd
  | complete i payload select more =>
    obtain ⟨c, -, -, -, -, hc⟩ := complete_spec hstep
    exact h.mono fun _ hfd => by rwa [hc.fdStates] at hfd

/-- **Receive credit.** At the end of every run, for every registered descriptor: the count equals
the number of receives outstanding since the registration if and only if none of them has been
processed by a tick or refused by a full queue. It does so in every run whose steps neither process
nor refuse such a receive, and then a descriptor that is not paused and has none outstanding passes
`should_submit_recv`. In general it passes while fewer than 64 have been processed or refused. -/
theorem credit_exact_iff {setup : Setup} {bufferSize bufferCount : Nat} {core t : UringCore F H T}
    {log : CreditLog} {acts : List (Act F H T)}
    (hnew : new setup bufferSize bufferCount = .ok core)
    (hrun : creditMachine.run (core, .init) acts = some (t, log))
    {fd : Fd} {st : FDState} (hst : t.fdStates.states.lookup fd = some st) :
    (st.inflightCount = t.pendingRecvs (log.since fd) fd ↔
      log.processed fd = 0 ∧ log.refused fd = 0) ∧
    (creditMachine.Meets KeepsCredit (core, .init) acts →
      st.inflightCount = t.pendingRecvs (log.since fd) fd ∧
        (st.isPaused = false → t.pendingRecvs (log.since fd) fd = 0 →
          t.fdStates.shouldSubmitRecv fd)) ∧
    (st.isPaused = false → t.pendingRecvs (log.since fd) fd = 0 →
      (t.fdStates.shouldSubmitRecv fd ↔ log.processed fd + log.refused fd < 64)) := by
  have hstart : core.Accounted .init ∧ NothingSpent (core, .init) := by
    obtain ⟨entries, pool, hpool, rfl⟩ := new_spec hnew
    refine ⟨⟨fun _ => Nat.zero_le _, ?_⟩, ?_⟩
    · intro fd st h
      simp [FDStateManager.new] at h
    · intro fd hfd
      exact ⟨rfl, rfl⟩
  obtain ⟨hsound, hacc⟩ : t.Sound ∧ t.Accounted log := by
    refine Machine.run_invariant' (I := fun x : UringCore F H T × CreditLog =>
      x.1.Sound ∧ x.1.Accounted x.2) ?_ ⟨sound_new hnew, hstart.1⟩ hrun
    rintro ⟨s, l⟩ a ⟨u, l'⟩ ⟨hs, hl⟩ hstep
    obtain ⟨hcore, rfl⟩ := Machine.ghost_step_mk.mp hstep
    exact ⟨hs.step hcore, hl.step hs hcore⟩
  have hcount := hacc.count fd st hst
  obtain ⟨hbudget, hle⟩ := hsound.budget fd st hst
  have hpasses : st.isPaused = false →
      (t.fdStates.shouldSubmitRecv fd ↔ st.inflightCount < 64) := by
    intro hpaused
    have h64 : defaultCreditBudget = 64 := rfl
    have hmod : st.inflightCount % 4294967296 = st.inflightCount := Nat.mod_eq_of_lt (by omega)
    simp [FDStateManager.shouldSubmitRecv, hst, FDState.shouldSubmitRecv, FDState.hasCredit,
      FDState.used, hpaused, hsound.bufferQueue fd st hst, hbudget, h64, hmod]
  refine ⟨by omega, ?_, ?_⟩
  · intro hmeets
    obtain ⟨-, hspent⟩ : t.Sound ∧ NothingSpent (t, log) := by
      refine Machine.run_invariant (I := fun x : UringCore F H T × CreditLog =>
        x.1.Sound ∧ NothingSpent x) ?_ ⟨sound_new hnew, hstart.2⟩ hmeets hrun
      rintro ⟨s, l⟩ a ⟨u, l'⟩ ⟨hs, hl⟩ hkeeps hstep
      obtain ⟨hcore, rfl⟩ := Machine.ghost_step_mk.mp hstep
      exact ⟨hs.step hcore, hl.step hs hkeeps hcore⟩
    obtain ⟨hp, hr⟩ : log.processed fd = 0 ∧ log.refused fd = 0 := hspent fd (by rw [hst]; rfl)
    refine ⟨by omega, fun hpaused hnone => (hpasses hpaused).mpr ?_⟩
    omega
  · intro hpaused hnone
    rw [hpasses hpaused]
    omega

end

/-- Descriptor 5 is registered and a receive is submitted on it. -/
def armRun : List (Act Nat Unit Nat) := [.registerFd 5 "tcp", .request 0 (.ok 1) 5 (.recv 7)]

theorem credit_exact_arm :
    ∃ (core t : UringCore Nat Unit Nat) (log : CreditLog) (st : FDState),
      new Setup.plain 16 2 = .ok core ∧
      creditMachine.run (core, .init) armRun = some (t, log) ∧
      t.fdStates.states.lookup 5 = some st ∧ st.inflightCount = t.pendingRecvs (log.since 5) 5 :=
  ⟨_, _, _, _, rfl, rfl, rfl, (credit_exact_iff (show new Setup.plain 16 2 = .ok _ from rfl)
    (show creditMachine.run (_, .init) armRun = some (_, _)
      from rfl) rfl).1.mpr ⟨rfl, rfl⟩⟩

/-- One receive, completed and processed: nothing is outstanding and the count is 1. -/
theorem credit_not_returned :
    ∃ (core t : UringCore Nat Unit Nat) (log : CreditLog) (st : FDState),
      new Setup.plain 16 2 = .ok core ∧
      creditMachine.run (core, .init)
        (armRun ++ [.complete 0 (.data [1, 2]) false false, .runTick 0 (.ok 0) []]) =
          some (t, log) ∧
      t.fdStates.states.lookup 5 = some st ∧ t.pendingRecvs (log.since 5) 5 = 0 ∧
      st.inflightCount = 1 :=
  ⟨_, _, _, _, rfl, rfl, rfl, rfl, rfl⟩

end Uringcore.UringCore
