import Uringcore.Core.Drain
import Uringcore.Core.Ownership

/-!
# Whose message state is it

A `recvmsg` or `sendmsg` in flight points into a box that the core keeps in `recvmsg_states` or
`sendmsg_states`, one for each descriptor. A second operation of the same kind on the descriptor
replaces the box of the first, and the completion of either drops whichever box is there.

`MsgsHeld` says that no operation in flight has lost its box. A step keeps it exactly if it is one
of `KeepsMsgs` (`msgsHeld_step_iff`), so it holds all along a run exactly if every step is.
-/

namespace Uringcore

/-- A `recvmsg` has a buffer. -/
theorem SqeOp.opType_ne_recvMsg {op : SqeOp} (h : op.buf? = none) : op.opType ≠ .recvMsg := by
  cases op with
  | recvMsg msg buf len => cases h
  | _ => rintro ⟨⟩

namespace UringCore
variable {F H T : Type}

/-- The box that an operation in flight points into is held: its header, its iovec or its data. -/
def HoldsMsg (core : UringCore F H T) (e : Sqe) : Prop :=
  match e.op with
  | .recvMsg msg buf len => ∃ state, core.recvmsgStates.lookup e.fd = some state ∧
      state.ptr = msg ∧ state.iovBase = buf ∧ state.iovLen = len
  | .sendMsg msg len => ∃ state, core.sendmsgStates.lookup e.fd = some state ∧
      state.ptr = msg ∧ state.data.length = len
  | _ => True

def MsgsHeld (core : UringCore F H T) : Prop := ∀ e ∈ core.ring.inFlight, core.HoldsMsg e

/-- No operation of this type is in flight on the descriptor. -/
def NoneInFlight (opType : OpType) (fd : Fd) (core : UringCore F H T) : Prop :=
  ∀ e ∈ core.ring.inFlight, e.fd = fd → e.op.opType ≠ opType

instance (opType : OpType) (fd : Fd) (core : UringCore F H T) :
    Decidable (core.NoneInFlight opType fd) :=
  inferInstanceAs (Decidable (∀ e ∈ core.ring.inFlight, e.fd = fd → e.op.opType ≠ opType))

/-- A `sendto` on some descriptor would be queued now. -/
def IssuesSendto (core : UringCore F H T) (addr : AddrArg) : Prop :=
  (buildSockaddr addr).isOk ∧ core.ring.sq.length < core.ring.entries

instance (core : UringCore F H T) (addr : AddrArg) : Decidable (core.IssuesSendto addr) :=
  inferInstanceAs (Decidable (_ ∧ _))

/-- The completion of a `RecvMsg` on `fd` would be the first of the queue to take the buffer tracked
for `fd`, and the message state with it. -/
def TakesRecvMsg (core : UringCore F H T) (fd : Fd) : Prop :=
  (firstTracked fd (core.ring.cq.map Cqe.entry)).any (·.opType = .recvMsg) ∧
    (core.inflightRecvBuffers.lookup fd).isSome

instance (core : UringCore F H T) (fd : Fd) : Decidable (core.TakesRecvMsg fd) :=
  inferInstanceAs (Decidable (_ ∧ _))

/-- The steps that drop no box in use: a `recvfrom` or `sendto` is queued only when none of its kind
is in flight on the descriptor, and a tick processes no completion that takes a box in use. -/
def KeepsMsgs (core : UringCore F H T) : Act F H T → Prop
  | .request _ _ fd (.recvfrom _) => core.IssuesRecv fd → core.NoneInFlight .recvMsg fd
  | .request _ _ fd (.sendto _ addr _) => core.IssuesSendto addr → core.NoneInFlight .sendMsg fd
  | .runTick _ enter _ => core.Flushes enter →
      (∀ e ∈ core.ring.inFlight, e.op.opType = .recvMsg → ¬ core.TakesRecvMsg e.fd) ∧
      ∀ c ∈ core.ring.cq, c.sqe.op.opType = .sendMsg → core.NoneInFlight .sendMsg c.sqe.fd
  | _ => True

instance (core : UringCore F H T) : ∀ a : Act F H T, Decidable (core.KeepsMsgs a)
  | .request _ _ fd (.recvfrom _) =>
      inferInstanceAs (Decidable (core.IssuesRecv fd → core.NoneInFlight .recvMsg fd))
  | .request _ _ fd (.sendto _ addr _) =>
      inferInstanceAs (Decidable (core.IssuesSendto addr → core.NoneInFlight .sendMsg fd))
  | .runTick _ enter _ => inferInstanceAs (Decidable (core.Flushes enter →
      (∀ e ∈ core.ring.inFlight, e.op.opType = .recvMsg → ¬ core.TakesRecvMsg e.fd) ∧
      ∀ c ∈ core.ring.cq, c.sqe.op.opType = .sendMsg → core.NoneInFlight .sendMsg c.sqe.fd))
  | .request _ _ _ (.recv _) | .request _ _ _ (.recvMultishot _) | .request _ _ _ (.send ..)
  | .request _ _ _ (.accept _) | .request _ _ _ .acceptMultishot | .request _ _ _ .close
  | .registerFd .. | .unregisterFd _ | .pauseReading _ | .resumeReading _ | .registerFile ..
  | .unregisterFile .. | .submit _ | .consume _ | .complete .. => isTrue trivial

/-- The next box is none of those held. -/
structure BoxesFresh (core : UringCore F H T) : Prop where
  recvmsg : ∀ fd state, core.recvmsgStates.lookup fd = some state → state.ptr < core.nextBox
  sendmsg : ∀ fd state, core.sendmsgStates.lookup fd = some state → state.ptr < core.nextBox

theorem HoldsMsg.congr {s t : UringCore F H T} {e : Sqe}
    (hrecv : e.op.opType = .recvMsg → t.recvmsgStates.lookup e.fd = s.recvmsgStates.lookup e.fd)
    (hsend : e.op.opType = .sendMsg → t.sendmsgStates.lookup e.fd = s.sendmsgStates.lookup e.fd) :
    t.HoldsMsg e ↔ s.HoldsMsg e := by
  unfold HoldsMsg
  cases hop : e.op <;> simp_all [SqeOp.opType]

/-- Every box stays, and the operations in flight are among those of before. -/
theorem MsgsHeld.of_same {s t : UringCore F H T} (h : s.MsgsHeld)
    (hin : ∀ e ∈ t.ring.inFlight, e ∈ s.ring.inFlight ∨
      e.op.opType ≠ .recvMsg ∧ e.op.opType ≠ .sendMsg)
    (hrecv : t.recvmsgStates = s.recvmsgStates) (hsend : t.sendmsgStates = s.sendmsgStates) :
    t.MsgsHeld := by
  intro e he
  rcases hin e he with he | ⟨hrecvMsg, hsendMsg⟩
  · exact (HoldsMsg.congr (fun _ => by rw [hrecv]) fun _ => by rw [hsend]).mpr (h e he)
  · unfold HoldsMsg
    cases hop : e.op <;> simp_all [SqeOp.opType]

theorem BoxesFresh.of_same {s t : UringCore F H T} (h : s.BoxesFresh)
    (hrecv : t.recvmsgStates = s.recvmsgStates) (hsend : t.sendmsgStates = s.sendmsgStates)
    (hbox : s.nextBox ≤ t.nextBox) : t.BoxesFresh where
  recvmsg fd state hstate := by
    rw [hrecv] at hstate
    exact Nat.lt_of_lt_of_le (h.recvmsg fd state hstate) hbox
  sendmsg fd state hstate := by
    rw [hsend] at hstate
    exact Nat.lt_of_lt_of_le (h.sendmsg fd state hstate) hbox

/-! ## Requests -/

variable {s : UringCore F H T} {enter : Except String Nat} {fd : Fd}

/-- A `recvfrom` that is queued stores a new box, any other changes nothing here. -/
theorem submitRecvfrom_msgs (hs : s.Sound) (now : Nat) (future : F) {t : UringCore F H T}
    (ht : t = (s.submitRecvfrom now enter fd future).1) :
    t.sendmsgStates = s.sendmsgStates ∧
    (¬ s.IssuesRecv fd ∧ t.ring.inFlight = s.ring.inFlight ∧ t.recvmsgStates = s.recvmsgStates ∨
      s.IssuesRecv fd ∧ ∃ state e, state.ptr = s.nextBox ∧ t.nextBox = s.nextBox + 1 ∧
        t.recvmsgStates = s.recvmsgStates.insert fd state ∧
        s.ring.Issued fd (.recvMsg state.ptr state.iovBase state.iovLen) t.ring e) := by
  subst ht
  unfold submitRecvfrom
  rcases beginRecv_spec hs fd now "No buffers available for recvfrom" future with
    ⟨hnot, h⟩ | ⟨hnil, h⟩ | ⟨bufIdx, rest, st, hfree, hst, hcredit, h⟩
  · rw [h]
    exact ⟨rfl, .inl ⟨fun hissues => absurd hissues.1 (by simp [hnot]), rfl, rfl⟩⟩
  · rw [h]
    exact ⟨rfl, .inl ⟨fun hissues => hissues.2.1 hnil, rfl, rfl⟩⟩
  · rw [h]
    have hcredit : s.fdStates.shouldSubmitRecv fd := by
      rw [FDStateManager.shouldSubmitRecv, hst]
      exact hcredit
    have hne : s.bufferPool.freeList ≠ [] := by rw [hfree]; exact List.cons_ne_nil _ _
    simp only [Ring.prepRecvmsg]
    split
    · rename_i e hpush
      have hfull := (Ring.push_error hpush).1
      exact ⟨rfl, .inl ⟨fun hissues => Nat.not_le.mpr hissues.2.2 hfull, rfl, rfl⟩⟩
    · rename_i ring hpush
      simp only [trackInflight_eq, submit]
      have hissued := Ring.push_issued hpush enter
      exact ⟨trivial, .inr ⟨⟨hcredit, hne, hissued.room⟩,
        ⟨s.nextBox, bufIdx, s.bufLen, .unspec, 128⟩, _, rfl, trivial, rfl, hissued⟩⟩

/-- The same of `sendto`. -/
theorem submitSendto_msgs (data : Bytes) (addr : AddrArg) (future : F) {t : UringCore F H T}
    (ht : t = (s.submitSendto enter fd data addr future).1) :
    t.recvmsgStates = s.recvmsgStates ∧
    (¬ s.IssuesSendto addr ∧ t.ring.inFlight = s.ring.inFlight ∧
        t.sendmsgStates = s.sendmsgStates ∨
      s.IssuesSendto addr ∧ ∃ state e, state.ptr = s.nextBox ∧ t.nextBox = s.nextBox + 1 ∧
        t.sendmsgStates = s.sendmsgStates.insert fd state ∧
        s.ring.Issued fd (.sendMsg state.ptr state.data.length) t.ring e) := by
  subst ht
  unfold submitSendto
  cases haddr : buildSockaddr addr with
  | error e =>
    refine ⟨rfl, .inl ⟨fun hissues => ?_, rfl, rfl⟩⟩
    have hok := hissues.1
    rw [haddr] at hok
    cases hok
  | ok sockaddr =>
    have hok : (buildSockaddr addr).isOk := by rw [haddr]; rfl
    simp only [Ring.prepSendmsg]
    split
    · rename_i e hpush
      have hfull := (Ring.push_error hpush).1
      exact ⟨rfl, .inl ⟨fun hissues => Nat.not_le.mpr hissues.2 hfull, rfl, rfl⟩⟩
    · rename_i ring hpush
      have hissued := Ring.push_issued hpush enter
      split
      all_goals
        rename_i hsubmit
        have hcore := congrArg Prod.fst hsubmit
        simp only [submit] at hcore
        simp only [← hcore]
        exact ⟨trivial, .inr ⟨⟨hok, hissued.room⟩, ⟨s.nextBox, sockaddr, sockaddr.namelen, data⟩, _,
          rfl, trivial, rfl, hissued⟩⟩

/-- A plain receive has no box. -/
theorem submitRecv_msgs (hs : s.Sound) (now : Nat) (future : F) {t : UringCore F H T}
    (ht : t = (s.submitRecv now enter fd future).1) :
    t.recvmsgStates = s.recvmsgStates ∧ t.sendmsgStates = s.sendmsgStates ∧
      ∀ e ∈ t.ring.inFlight, e ∈ s.ring.inFlight ∨ e.op.opType = .recv := by
  subst ht
  unfold submitRecv
  rcases beginRecv_spec hs fd now "No buffers available for recv" future with
    ⟨-, h⟩ | ⟨-, h⟩ | ⟨bufIdx, rest, st, hfree, hst, hcredit, h⟩
  · rw [h]
    exact ⟨rfl, rfl, fun e he => .inl he⟩
  · rw [h]
    exact ⟨rfl, rfl, fun e he => .inl he⟩
  · rw [h]
    simp only [Ring.prepRecv]
    split
    · exact ⟨rfl, rfl, fun e he => .inl he⟩
    · rename_i ring hpush
      have hissued := Ring.push_issued hpush enter
      simp only [trackInflight_eq, submit]
      refine ⟨trivial, trivial, fun e he => ?_⟩
      rw [hissued.inFlight] at he
      rcases List.mem_append.mp he with he | he
      · exact .inl he
      · rw [List.mem_singleton.mp he]
        exact .inr rfl

/-- Every other request changes nothing here. -/
theorem request_msgs (hs : s.Sound) (now : Nat) {req : Request F}
    (hrecvfrom : ∀ future, req ≠ .recvfrom future)
    (hsendto : ∀ data addr future, req ≠ .sendto data addr future) {t : UringCore F H T}
    (ht : t = (s.request now enter fd req).1) :
    t.recvmsgStates = s.recvmsgStates ∧ t.sendmsgStates = s.sendmsgStates ∧
      ∀ e ∈ t.ring.inFlight, e ∈ s.ring.inFlight ∨
        e.op.opType ≠ .recvMsg ∧ e.op.opType ≠ .sendMsg := by
  have hissue {op : SqeOp} {ring : Ring} {e : Sqe} (h : s.ring.Issued fd op ring e)
      (hop : op.opType ≠ .recvMsg ∧ op.opType ≠ .sendMsg) :
      ∀ e' ∈ ring.inFlight, e' ∈ s.ring.inFlight ∨
        e'.op.opType ≠ .recvMsg ∧ e'.op.opType ≠ .sendMsg := by
    intro e' he'
    rw [h.inFlight] at he'
    rcases List.mem_append.mp he' with he' | he'
    · exact .inl he'
    · rw [List.mem_singleton.mp he', h.op_eq]
      exact .inr hop
  by_cases hrecv : ∃ future, req = .recv future
  · rcases hrecv with ⟨future, rfl⟩
    rcases submitRecv_msgs hs now future ht with ⟨hrecv, hsend, hin⟩
    refine ⟨hrecv, hsend, fun e he => (hin e he).imp_right fun hop => ?_⟩
    rw [hop]
    decide
  · have hsub : s.Submission enter fd req t := by
      rw [ht]
      exact request_spec hs now req
    cases hsub with
    | recvRefused _ hreq | recvIssued _ hreq =>
      rcases hreq with hreq | hreq
      · exact absurd ⟨_, hreq⟩ hrecv
      · exact absurd hreq (hrecvfrom _)
    | sendtoIssued => exact absurd rfl (hsendto _ _ _)
    | sendIssued _ _ hissued => exact ⟨rfl, rfl, hissue hissued (by simp [SqeOp.opType])⟩
    | plainIssued _ hop _ hissued =>
      exact ⟨rfl, rfl, hissue hissued ⟨SqeOp.opType_ne_recvMsg hop.1, hop.2⟩⟩
    | _ => exact ⟨rfl, rfl, fun e he => .inl he⟩

/-- What the steps keep besides. -/
structure BoxesSound (core : UringCore F H T) : Prop where
  sound : core.Sound
  fresh : core.BoxesFresh

/-- A new box for the operation `e` leaves the others their boxes exactly if it replaces none. -/
theorem recvMsg_msgsHeld_iff {t : UringCore F H T} {state : RecvMsgState} {e : Sqe}
    (hfresh : s.BoxesFresh) (hheld : s.MsgsHeld) (hptr : state.ptr = s.nextBox)
    (hrecv : t.recvmsgStates = s.recvmsgStates.insert fd state)
    (hsend : t.sendmsgStates = s.sendmsgStates)
    (hissued : s.ring.Issued fd (.recvMsg state.ptr state.iovBase state.iovLen) t.ring e) :
    t.MsgsHeld ↔ s.NoneInFlight .recvMsg fd := by
  constructor
  · intro h e' he' hfd hop
    have hbefore := hheld e' he'
    have hafter := h e' (by rw [hissued.inFlight]; exact List.mem_append_left _ he')
    unfold HoldsMsg at hbefore hafter
    cases hop' : e'.op with
    | recvMsg msg buf len =>
      rw [hop'] at hbefore hafter
      rcases hbefore with ⟨old, hold, hmsg, -⟩
      rcases hafter with ⟨new, hnew, hmsg', -⟩
      rw [hrecv, hfd, AList.lookup_insert] at hnew
      cases hnew
      have hlt := hfresh.recvmsg _ _ hold
      omega
    | _ => simp [hop', SqeOp.opType] at hop
  · intro hnone e' he'
    rw [hissued.inFlight] at he'
    rcases List.mem_append.mp he' with he' | he'
    · refine (HoldsMsg.congr (fun hop => ?_) fun _ => by rw [hsend]).mpr (hheld e' he')
      have hne : e'.fd ≠ fd := fun hfd => hnone e' he' hfd hop
      rw [hrecv, AList.lookup_insert_ne hne]
    · rw [List.mem_singleton.mp he', HoldsMsg, hissued.op_eq]
      refine ⟨state, ?_, rfl, rfl, rfl⟩
      rw [hrecv, hissued.fd_eq, AList.lookup_insert]

theorem sendMsg_msgsHeld_iff {t : UringCore F H T} {state : SendMsgState} {e : Sqe}
    (hfresh : s.BoxesFresh) (hheld : s.MsgsHeld) (hptr : state.ptr = s.nextBox)
    (hsend : t.sendmsgStates = s.sendmsgStates.insert fd state)
    (hrecv : t.recvmsgStates = s.recvmsgStates)
    (hissued : s.ring.Issued fd (.sendMsg state.ptr state.data.length) t.ring e) :
    t.MsgsHeld ↔ s.NoneInFlight .sendMsg fd := by
  constructor
  · intro h e' he' hfd hop
    have hbefore := hheld e' he'
    have hafter := h e' (by rw [hissued.inFlight]; exact List.mem_append_left _ he')
    unfold HoldsMsg at hbefore hafter
    cases hop' : e'.op with
    | sendMsg msg len =>
      rw [hop'] at hbefore hafter
      rcases hbefore with ⟨old, hold, hmsg, -⟩
      rcases hafter with ⟨new, hnew, hmsg', -⟩
      rw [hsend, hfd, AList.lookup_insert] at hnew
      cases hnew
      have hlt := hfresh.sendmsg _ _ hold
      omega
    | _ => simp [hop', SqeOp.opType] at hop
  · intro hnone e' he'
    rw [hissued.inFlight] at he'
    rcases List.mem_append.mp he' with he' | he'
    · refine (HoldsMsg.congr (fun _ => by rw [hrecv]) fun hop => ?_).mpr (hheld e' he')
      have hne : e'.fd ≠ fd := fun hfd => hnone e' he' hfd hop
      rw [hsend, AList.lookup_insert_ne hne]
    · rw [List.mem_singleton.mp he', HoldsMsg, hissued.op_eq]
      refine ⟨state, ?_, rfl, rfl⟩
      rw [hsend, hissued.fd_eq, AList.lookup_insert]

/-! ## Completions and ticks -/

/-- Filling in an address leaves the box where it is. -/
theorem storeAddr_lookup (sqe : Sqe) (payload : Payload) {states : FdMap RecvMsgState} {fd : Fd}
    {state : RecvMsgState} (h : states.lookup fd = some state) :
    ∃ addr namelen, (storeAddr sqe payload states).lookup fd =
      some { state with addr, namelen } := by
  unfold storeAddr
  split
  · rename_i state' hop hstate
    split
    · by_cases hfd : fd = sqe.fd
      · rw [hfd, hstate] at h
        cases h
        rw [hfd, AList.lookup_insert]
        exact ⟨_, _, rfl⟩
      · rw [AList.lookup_insert_ne hfd]
        exact ⟨state.addr, state.namelen, h⟩
    · exact ⟨state.addr, state.namelen, h⟩
  · exact ⟨state.addr, state.namelen, h⟩

/-- No box other than the stored ones appears. -/
theorem storeAddr_ptr (sqe : Sqe) (payload : Payload) {states : FdMap RecvMsgState} {fd : Fd}
    {state : RecvMsgState} (h : (storeAddr sqe payload states).lookup fd = some state) :
    ∃ old, states.lookup fd = some old ∧ old.ptr = state.ptr := by
  cases hold : states.lookup fd with
  | some old =>
    rcases storeAddr_lookup sqe payload hold with ⟨addr, namelen, heq⟩
    rw [heq] at h
    cases h
    exact ⟨old, rfl, rfl⟩
  | none =>
    unfold storeAddr at h
    split at h
    · rename_i state' hop hstate
      split at h
      · by_cases hfd : fd = sqe.fd
        · rw [hfd, hstate] at hold
          cases hold
        · rw [AList.lookup_insert_ne hfd, hold] at h
          cases h
      · rw [hold] at h
        cases h
    · rw [hold] at h
      cases h

theorem MsgsHeld.of_completed {t : UringCore F H T} {c : Cqe} (h : s.MsgsHeld)
    (hc : s.Completed c t) : t.MsgsHeld := by
  have hin : ∀ e ∈ t.ring.inFlight, e ∈ s.ring.inFlight := by
    have hsub := hc.inFlight
    split at hsub
    · rw [hsub]
      exact fun e he => he
    · exact hsub.1.subset
  intro e he
  have hheld := h e (hin e he)
  unfold HoldsMsg at hheld ⊢
  cases hop : e.op with
  | recvMsg msg buf len =>
    simp only [hop] at hheld ⊢
    rcases hheld with ⟨state, hstate, hptr⟩
    rcases storeAddr_lookup c.sqe c.payload hstate with ⟨addr, namelen, hstate'⟩
    rw [← hc.recvmsgStates] at hstate'
    exact ⟨_, hstate', hptr⟩
  | sendMsg msg len =>
    simp only [hop] at hheld ⊢
    rw [hc.sendmsgStates]
    exact hheld
  | _ => trivial

theorem BoxesFresh.of_completed {t : UringCore F H T} {c : Cqe} (h : s.BoxesFresh)
    (hc : s.Completed c t) (hbox : t.nextBox = s.nextBox) : t.BoxesFresh where
  recvmsg fd state hstate := by
    rw [hc.recvmsgStates] at hstate
    rcases storeAddr_ptr c.sqe c.payload hstate with ⟨old, hold, hptr⟩
    rw [← hptr, hbox]
    exact h.recvmsg fd old hold
  sendmsg fd state hstate := by
    rw [hc.sendmsgStates] at hstate
    rw [hbox]
    exact h.sendmsg fd state hstate

theorem processAll_nextBox (cqes : List CompletionEntry) (s : UringCore F H T) :
    (s.processAll cqes).1.nextBox = s.nextBox := by
  induction cqes generalizing s with
  | nil => rfl
  | cons c cs ih =>
    refine (ih (s.process c).1).trans ?_
    rw [process_eq, extract_eq]

/-- Processing the whole queue leaves every operation in flight its box exactly if no completion
takes it. -/
theorem processAll_msgsHeld_iff {t : UringCore F H T} (hheld : s.MsgsHeld)
    (hin : t.ring.inFlight = s.ring.inFlight)
    (hrecv : ∀ fd, t.recvmsgStates.lookup fd =
      if s.TakesRecvMsg fd then none else s.recvmsgStates.lookup fd)
    (hsend : t.sendmsgStates = AList.eraseAll
      (((s.ring.cq.map Cqe.entry).filter (·.opType = .sendMsg)).map CompletionEntry.fd)
        s.sendmsgStates) :
    t.MsgsHeld ↔ (∀ e ∈ s.ring.inFlight, e.op.opType = .recvMsg → ¬ s.TakesRecvMsg e.fd) ∧
      ∀ c ∈ s.ring.cq, c.sqe.op.opType = .sendMsg → s.NoneInFlight .sendMsg c.sqe.fd := by
  have htakes (fd : Fd) : fd ∈ (((s.ring.cq.map Cqe.entry).filter (·.opType = .sendMsg)).map
      CompletionEntry.fd) ↔ ∃ c ∈ s.ring.cq, c.sqe.op.opType = .sendMsg ∧ c.sqe.fd = fd := by
    simp [and_assoc]
  constructor
  · intro h
    refine ⟨fun e he hop htaken => ?_, fun c hc hop e he hfd hop' => ?_⟩
    · have hafter := h e (by rwa [hin])
      unfold HoldsMsg at hafter
      -- the tick has taken its state
      cases hop' : e.op with
      | recvMsg msg buf len =>
        rw [hop'] at hafter
        rcases hafter with ⟨state, hstate, -⟩
        rw [hrecv, if_pos htaken] at hstate
        cases hstate
      | _ => simp [hop', SqeOp.opType] at hop
    · have hafter := h e (by rwa [hin])
      unfold HoldsMsg at hafter
      -- a completion of another `sendmsg` has dropped its state
      cases hop'' : e.op with
      | sendMsg msg len =>
        rw [hop''] at hafter
        rcases hafter with ⟨state, hstate, -⟩
        rw [hsend, AList.lookup_eraseAll, if_pos ((htakes e.fd).mpr ⟨c, hc, hop, hfd.symm⟩)]
          at hstate
        cases hstate
      | _ => simp [hop'', SqeOp.opType] at hop'
  · rintro ⟨hrecvMsg, hsendMsg⟩ e he
    rw [hin] at he
    refine (HoldsMsg.congr (fun hop => ?_) fun hop => ?_).mpr (hheld e he)
    · rw [hrecv, if_neg (hrecvMsg e he hop)]
    · rw [hsend, AList.lookup_eraseAll, if_neg]
      intro hmem
      rcases (htakes e.fd).mp hmem with ⟨c, hc, hop', hfd⟩
      exact hsendMsg c hc hop' e he hfd.symm hop

/-! ## Steps and runs -/

/-- A step that touches neither boxes nor the operations that have one. -/
theorem BoxesSound.of_same {t : UringCore F H T} (h : s.BoxesSound) (hheld : s.MsgsHeld)
    (ht : t.Sound) (hin : ∀ e ∈ t.ring.inFlight, e ∈ s.ring.inFlight ∨
      e.op.opType ≠ .recvMsg ∧ e.op.opType ≠ .sendMsg)
    (hrecv : t.recvmsgStates = s.recvmsgStates) (hsend : t.sendmsgStates = s.sendmsgStates)
    (hbox : s.nextBox ≤ t.nextBox) : t.BoxesSound ∧ (t.MsgsHeld ↔ True) :=
  ⟨⟨ht, h.fresh.of_same hrecv hsend hbox⟩, iff_true_intro (hheld.of_same hin hrecv hsend)⟩

/-- The same, as far as the ledger says it. -/
theorem BoxesSound.of_ledger {t : UringCore F H T} (h : s.BoxesSound) (hheld : s.MsgsHeld)
    (ht : t.Sound) (hst : SameLedger s t) (hbox : s.nextBox ≤ t.nextBox) :
    t.BoxesSound ∧ (t.MsgsHeld ↔ True) :=
  h.of_same hheld ht (fun e he => .inl (by rwa [hst.inFlight] at he)) hst.recvmsgStates
    hst.sendmsgStates hbox

theorem BoxesSound.of_request (h : s.BoxesSound) (hheld : s.MsgsHeld) (now : Nat)
    (req : Request F) {t : UringCore F H T} (ht : t.Sound)
    (heq : t = (s.request now enter fd req).1) :
    t.BoxesSound ∧ (t.MsgsHeld ↔ KeepsMsgs s (.request now enter fd req : Act F H T)) := by
  have hbox : s.nextBox ≤ t.nextBox := by
    rw [heq]
    exact (request_frame now req).nextBox
  by_cases hrecvfrom : ∃ future, req = .recvfrom future
  · rcases hrecvfrom with ⟨future, rfl⟩
    rcases submitRecvfrom_msgs h.sound now future heq with
      ⟨hsend, ⟨hnot, hin, hrecv⟩ | ⟨hissues, state, e, hptr, hnext, hrecv, hissued⟩⟩
    · have hkept := h.of_same hheld ht (fun e he => .inl (by rwa [hin] at he)) hrecv hsend hbox
      exact ⟨hkept.1, hkept.2.trans (iff_of_true trivial fun hissues => absurd hissues hnot)⟩
    · refine ⟨⟨ht, ⟨fun fd' state' hstate' => ?_, fun fd' state' hstate' => ?_⟩⟩, ?_⟩
      · rw [hrecv] at hstate'
        rw [hnext]
        obtain ⟨-, rfl⟩ | ⟨-, hold⟩ := AList.lookup_insert_eq_some.mp hstate'
        · omega
        · exact Nat.lt_succ_of_lt (h.fresh.recvmsg fd' state' hold)
      · rw [hsend] at hstate'
        exact Nat.lt_of_lt_of_le (h.fresh.sendmsg fd' state' hstate') hbox
      · rw [recvMsg_msgsHeld_iff h.fresh hheld hptr hrecv hsend hissued]
        exact ⟨fun hnone _ => hnone, fun hkeeps => hkeeps hissues⟩
  · by_cases hsendto : ∃ data addr future, req = .sendto data addr future
    · rcases hsendto with ⟨data, addr, future, rfl⟩
      rcases submitSendto_msgs data addr future heq with
        ⟨hrecv, ⟨hnot, hin, hsend⟩ | ⟨hissues, state, e, hptr, hnext, hsend, hissued⟩⟩
      · have hkept := h.of_same hheld ht (fun e he => .inl (by rwa [hin] at he)) hrecv hsend hbox
        exact ⟨hkept.1, hkept.2.trans (iff_of_true trivial fun hissues => absurd hissues hnot)⟩
      · refine ⟨⟨ht, ⟨fun fd' state' hstate' => ?_, fun fd' state' hstate' => ?_⟩⟩, ?_⟩
        · rw [hrecv] at hstate'
          exact Nat.lt_of_lt_of_le (h.fresh.recvmsg fd' state' hstate') hbox
        · rw [hsend] at hstate'
          rw [hnext]
          obtain ⟨-, rfl⟩ | ⟨-, hold⟩ := AList.lookup_insert_eq_some.mp hstate'
          · omega
          · exact Nat.lt_succ_of_lt (h.fresh.sendmsg fd' state' hold)
        · rw [sendMsg_msgsHeld_iff h.fresh hheld hptr hsend hrecv hissued]
          exact ⟨fun hnone _ => hnone, fun hkeeps => hkeeps hissues⟩
    · rcases request_msgs h.sound now (fun future hreq => hrecvfrom ⟨future, hreq⟩)
        (fun data addr future hreq => hsendto ⟨data, addr, future, hreq⟩) heq with
        ⟨hrecv, hsend, hin⟩
      have hkept := h.of_same hheld ht hin hrecv hsend hbox
      refine ⟨hkept.1, hkept.2.trans (iff_of_true trivial ?_)⟩
      cases req with
      | recvfrom future => exact absurd ⟨future, rfl⟩ hrecvfrom
      | sendto data addr future => exact absurd ⟨data, addr, future, rfl⟩ hsendto
      | _ => trivial

section
variable [LE T] [DecidableLE T]

theorem BoxesSound.of_runTick (h : s.BoxesSound) (hheld : s.MsgsHeld) (clock : T)
    (enter : Except String Nat) (pushed : List (List H)) {t : UringCore F H T} (ht : t.Sound)
    (heq : t = (s.runTick scripted clock enter pushed).1) :
    t.BoxesSound ∧ (t.MsgsHeld ↔ s.KeepsMsgs (.runTick clock enter pushed)) := by
  rcases runTick_core scripted clock enter pushed s with ⟨⟨e, he⟩, hcore⟩ | ⟨⟨n, hn⟩, hcore⟩
  · rw [← heq] at hcore
    have hnot : ¬ s.Flushes enter := by simp [Flushes, he, Except.isOk, Except.toBool]
    have hin : t.ring.inFlight = s.ring.inFlight := by
      rw [hcore]
      exact Ring.inFlight_submit enter s.ring
    have hkept := h.of_same hheld ht (fun e he => .inl (by rwa [hin] at he)) (by rw [hcore]; rfl)
      (by rw [hcore]; rfl) (by rw [hcore]; exact Nat.le_refl _)
    exact ⟨hkept.1, hkept.2.trans (iff_of_true trivial fun hflushes => absurd hflushes hnot)⟩
  · rw [← heq] at hcore
    have hflushes : s.Flushes enter := by simp [Flushes, hn, Except.isOk, Except.toBool]
    have hcq : ((s.expireTimers clock).submit enter).1.ring.cq = s.ring.cq :=
      Ring.cq_submit enter s.ring
    have hin : t.ring.inFlight = s.ring.inFlight := by
      rw [hcore, (processAll_frame _ _).1]
      exact Ring.inFlight_submit enter s.ring
    have hrecv (fd : Fd) : t.recvmsgStates.lookup fd =
        if s.TakesRecvMsg fd then none else s.recvmsgStates.lookup fd := by
      rw [hcore, hcq]
      exact processAll_recvmsg _ _ fd
    have hsend : t.sendmsgStates = AList.eraseAll
        (((s.ring.cq.map Cqe.entry).filter (·.opType = .sendMsg)).map CompletionEntry.fd)
          s.sendmsgStates := by
      rw [hcore, hcq]
      exact processAll_sendmsg _ _
    have hbox : t.nextBox = s.nextBox := by
      rw [hcore]
      exact processAll_nextBox _ _
    refine ⟨⟨ht, ⟨fun fd state hstate => ?_, fun fd state hstate => ?_⟩⟩, ?_⟩
    · rw [hrecv] at hstate
      split at hstate
      · cases hstate
      · rw [hbox]
        exact h.fresh.recvmsg fd state hstate
    · rw [hsend, AList.lookup_eraseAll] at hstate
      split at hstate
      · cases hstate
      · rw [hbox]
        exact h.fresh.sendmsg fd state hstate
    · rw [processAll_msgsHeld_iff hheld hin hrecv hsend]
      exact ⟨fun hkeeps _ => hkeeps, fun hkeeps => hkeeps hflushes⟩

/-- **One step.** With every box in its place before, every box is in its place afterwards exactly
if the step drops none in use. -/
theorem msgsHeld_step_iff {t : UringCore F H T} {a : Act F H T} (h : s.BoxesSound)
    (hheld : s.MsgsHeld) (hstep : machine.step s a = some t) :
    t.BoxesSound ∧ (t.MsgsHeld ↔ s.KeepsMsgs a) := by
  have ht := h.sound.step hstep
  cases a with
  | registerFd fd socketType =>
    cases hstep
    exact h.of_same hheld ht (fun e he => .inl he) rfl rfl (Nat.le_refl _)
  | unregisterFd fd =>
    cases hstep
    have heq := unregisterFd_eq h.sound fd
    exact h.of_same hheld ht (fun e he => .inl (by rwa [heq] at he)) (by rw [heq]) (by rw [heq])
      (by rw [heq])
  | pauseReading fd =>
    cases hstep
    refine h.of_ledger hheld ht (SameLedger.of_withFdStates s fd true) (Nat.le_of_eq ?_)
    show _ = (s.withFdStates _).1.nextBox
    unfold withFdStates
    split <;> rfl
  | resumeReading fd =>
    cases hstep
    refine h.of_ledger hheld ht (SameLedger.of_withFdStates s fd false) (Nat.le_of_eq ?_)
    show _ = (s.withFdStates _).1.nextBox
    unfold withFdStates
    split <;> rfl
  | registerFile init update fd =>
    cases hstep
    exact h.of_ledger hheld ht (registerFile_ledger init update fd s) (Nat.le_refl _)
  | unregisterFile update fd =>
    cases hstep
    exact h.of_ledger hheld ht (unregisterFile_ledger update fd s) (Nat.le_refl _)
  | request now enter fd req =>
    cases hstep
    exact h.of_request hheld now req ht rfl
  | submit enter =>
    cases hstep
    exact h.of_ledger hheld ht (SameLedger.of_submit enter s) (Nat.le_refl _)
  | runTick clock enter pushed =>
    cases hstep
    exact h.of_runTick hheld clock enter pushed ht rfl
  | consume n =>
    cases hstep
    exact h.of_ledger hheld ht (SameLedger.of_ring s (Ring.inFlight_take n s.ring) rfl rfl)
      (Nat.le_refl _)
  | complete i payload select more =>
    have hbox : t.nextBox = s.nextBox := by
      simp only [machine, UringCore.step, complete] at hstep
      grind
    rcases complete_spec hstep with ⟨c, -, -, -, -, hc⟩
    exact ⟨⟨ht, h.fresh.of_completed hc hbox⟩, iff_true_intro (hheld.of_completed hc)⟩

/-- **Message states.** In every state of a run every `RecvMsg` and `SendMsg` in flight has its own
box still held, if and only if no step of the run drops a box in use. -/
theorem msgsHeld_iff {setup : Setup} {bufferSize bufferCount : Nat} {core t : UringCore F H T}
    {acts : List (Act F H T)} (hnew : new setup bufferSize bufferCount = .ok core)
    (hrun : machine.run core acts = some t) :
    machine.Always MsgsHeld core acts ↔ machine.Meets KeepsMsgs core acts := by
  have hstart : core.BoxesSound ∧ core.MsgsHeld := by
    have hsound := sound_new hnew
    rcases new_spec hnew with ⟨entries, pool, -, rfl⟩
    refine ⟨⟨hsound, ⟨by simp, by simp⟩⟩, ?_⟩
    intro e he
    simp [Ring.new, Ring.inFlight] at he
  exact Machine.always_iff_meets (fun s a t hI hP hstep => msgsHeld_step_iff hI hP hstep)
    hstart.1 hstart.2 hrun

end

/-- A `sendto` on descriptor 5, and another one on `fd` before it completes. -/
def sendtoRun (fd : Fd) : List (Act Nat Unit Nat) :=
  [.request 0 (.ok 1) 5 (.sendto [1] (.tuple2 (some 0x7F000001) (some 53)) 7),
    .request 0 (.ok 1) fd (.sendto [2, 3] (.tuple2 (some 0x7F000001) (some 53)) 8)]

/-- On different descriptors both keep their boxes. -/
theorem msgsHeld_sendto :
    ∃ core t : UringCore Nat Unit Nat, new Setup.plain 16 2 = .ok core ∧
      machine.run core (sendtoRun 6) = some t ∧ machine.Always MsgsHeld core (sendtoRun 6) :=
  ⟨_, _, rfl, rfl, (msgsHeld_iff (show new Setup.plain 16 2 = .ok _ from rfl)
    (show machine.run _ (sendtoRun 6) = some _ from rfl)).mpr (by decide)⟩

/-- On one descriptor the second box replaces the first, whose operation the kernel has taken. -/
theorem not_msgsHeld_sendto :
    ∃ core t : UringCore Nat Unit Nat, new Setup.plain 16 2 = .ok core ∧
      machine.run core (sendtoRun 5) = some t ∧
      (t.ring.kernel.map fun e => (e.fd, e.op)) = [(5, .sendMsg 0 1), (5, .sendMsg 1 2)] ∧
      (t.sendmsgStates.lookup 5).map (·.ptr) = some 1 :=
  ⟨_, _, rfl, rfl, rfl, rfl⟩

end UringCore

end Uringcore
