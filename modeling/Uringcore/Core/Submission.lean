import Uringcore.Core
import Uringcore.Lib.AssocList

/-!
# What a submission can do

`Request` is one call of a `submit_*` method, `request` performs it. `Submission` says, in one case
for each way through the methods, what the core is afterwards; `request_spec` says that these are
all the ways. Every result about runs reasons over these cases and never opens a method again.

The cases are those of a `Sound` core: nothing is in quarantine, the states kept for descriptors
carry the manager's generation, and the ring's operations are numbered apart. Nothing in the code
ever makes a core unsound, so the branches this excludes (`with_state_mut` refusing a state that
`should_submit_recv` has just accepted) are never taken. What holds of the ring alone, `Pushes`, is
proved of every core.
-/

namespace Uringcore

/-- One call of a `submit_*` method on some descriptor. -/
inductive Request (F : Type) where
  | recv (future : F)
  | recvfrom (future : F)
  | sendto (data : Bytes) (addr : AddrArg) (future : F)
  | recvMultishot (future : F)
  | send (data : Bytes) (future : F)
  | accept (future : F)
  | acceptMultishot
  | close
  deriving DecidableEq, Repr

def Request.future? {F : Type} : Request F → Option F
  | recv future => some future
  | recvfrom future => some future
  | sendto _ _ future => some future
  | recvMultishot future => some future
  | send _ future => some future
  | accept future => some future
  | acceptMultishot | close => none

/-- The operation a request asks for. -/
def Request.opType {F : Type} : Request F → OpType
  | recv _ => .recv
  | recvfrom _ => .recvMsg
  | sendto .. => .sendMsg
  | recvMultishot _ => .recvMulti
  | send .. => .send
  | accept _ => .accept
  | acceptMultishot => .acceptMulti
  | close => .close

/-- The requests that take receive credit and a buffer to receive into. -/
def Request.isRecv {F : Type} : Request F → Bool
  | recv _ | recvfrom _ => true
  | sendto .. | recvMultishot _ | send .. | accept _ | acceptMultishot | close => false

/-- The requests whose operation has neither a pool buffer nor a message state. -/
def Request.isPlain {F : Type} : Request F → Bool
  | recvMultishot _ | accept _ | acceptMultishot | close => true
  | recv _ | recvfrom _ | sendto .. | send .. => false

/-- Ring `r'` is ring `r` with one more operation: the entry `e`, for `op` on `fd`. -/
structure Ring.Issued (r : Ring) (fd : Fd) (op : SqeOp) (r' : Ring) (e : Sqe) : Prop where
  fd_eq : e.fd = fd
  op_eq : e.op = op
  seq_eq : e.seq = r.tail
  room : r.sq.length < r.entries
  tail : r'.tail = r.tail + 1
  inFlight : r'.inFlight = r.inFlight ++ [e]
  cq : r'.cq = r.cq

/-- A successful push, flushed or not, issues its entry. -/
theorem Ring.push_issued {fd : Fd} {op : SqeOp} {generation : UInt16} {target : Target}
    {ring r : Ring} (h : ring.push fd op generation target = .ok r) (enter : Except String Nat) :
    ring.Issued fd op (r.submit enter).1 ⟨fd, op, generation, target, ring.tail⟩ := by
  have hroom : ring.sq.length < ring.entries := by
    unfold push at h
    split at h
    · cases h
    · omega
  rw [push_ok h]
  exact {
    fd_eq := rfl
    op_eq := rfl
    seq_eq := rfl
    room := hroom
    tail := by simp
    inFlight := by
      rw [inFlight_submit]
      exact (List.append_assoc _ _ _).symm
    cq := by simp }

/-- The new operation joins the outstanding ones. -/
theorem Ring.Issued.outstanding {r r' : Ring} {fd : Fd} {op : SqeOp} {e : Sqe}
    (h : r.Issued fd op r' e) : r'.outstanding.Perm (e :: r.outstanding) := by
  simp only [Ring.outstanding, Ring.finished, h.inFlight, h.cq, List.append_assoc]
  exact List.perm_middle

theorem Ring.Issued.numbered {r r' : Ring} {fd : Fd} {op : SqeOp} {e : Sqe}
    (h : r.Issued fd op r' e) (hr : r.Numbered) : r'.Numbered := by
  have hout := h.outstanding
  refine ⟨?_, ?_, ?_⟩
  · intro e' he'
    rw [h.tail]
    obtain rfl | he' := List.mem_cons.mp (hout.mem_iff.mp he')
    · rw [h.seq_eq]
      exact Nat.lt_succ_self _
    · exact Nat.lt_succ_of_lt (hr.below e' he')
  · refine (hout.map Sqe.seq).nodup_iff.mpr (List.nodup_cons.mpr ⟨?_, hr.nodup⟩)
    intro hmem
    obtain ⟨e', he', hseq⟩ := List.mem_map.mp hmem
    have := hr.below e' he'
    rw [hseq, h.seq_eq] at this
    exact Nat.lt_irrefl _ this
  · rw [h.cq]
    exact hr.single

/-- A push fails only because the submission queue is full. -/
theorem Ring.push_error {fd : Fd} {op : SqeOp} {generation : UInt16} {target : Target}
    {ring : Ring} {e : Error} (h : ring.push fd op generation target = .error e) :
    ring.entries ≤ ring.sq.length ∧ e = .ringOp "SQ is full" := by
  unfold push at h
  split at h
  · rename_i hfull
    cases h
    exact ⟨hfull, rfl⟩
  · cases h

namespace UringCore
variable {F H T : Type}

def request (now : Nat) (enter : Except String Nat) (fd : Fd) (req : Request F)
    (core : UringCore F H T) : UringCore F H T × Except PyErr Unit :=
  match req with
  | .recv future => core.submitRecv now enter fd future
  | .recvfrom future => core.submitRecvfrom now enter fd future
  | .sendto data addr future => core.submitSendto enter fd data addr future
  | .recvMultishot future => core.submitRecvMultishot enter fd future
  | .send data future => core.submitSend now enter fd data future
  | .accept future => core.submitAccept enter fd future
  | .acceptMultishot => core.submitAcceptMultishot enter fd
  | .close => core.submitClose enter fd

/-- What no operation breaks. The bound is the credit budget: a receive is only submitted below
it. -/
structure Sound (core : UringCore F H T) : Prop where
  ring : core.ring.Numbered
  quarantine : core.bufferPool.quarantine = []
  generation : ∀ fd st, core.fdStates.states.lookup fd = some st →
    st.generationId = core.fdStates.generationId
  bufferQueue : ∀ fd st, core.fdStates.states.lookup fd = some st → st.bufferQueue = []
  budget : ∀ fd st, core.fdStates.states.lookup fd = some st →
    st.creditBudget = defaultCreditBudget ∧ st.inflightCount ≤ defaultCreditBudget

/-- The future of a request, stored. -/
def storeFuture (fd : Fd) (future? : Option F) (futures : FdMap F) : FdMap F :=
  match future? with
  | some future => futures.insert fd future
  | none => futures

variable (core : UringCore F H T) (enter : Except String Nat) (fd : Fd)

/-- All that a request can do to a sound core. -/
inductive Submission : Request F → UringCore F H T → Prop where
  /-- Refused before anything was changed; a send only for want of a buffer, a receive only for want
  of a buffer or of credit. -/
  | kept (req : Request F) (nextBox : Nat)
      (hsend : ∀ data future, req = .send data future → core.bufferPool.freeList = [])
      (hrecv : req.isRecv → core.fdStates.shouldSubmitRecv fd → core.bufferPool.freeList = []) :
      Submission req { core with nextBox }
  /-- A receive meets a full queue: buffer and future are undone, the credit is not. -/
  | recvRefused {req : Request F} {future : F} {bufIdx : UInt16} {rest : List UInt16} {st : FDState}
      (nextBox : Nat) (hreq : req = .recv future ∨ req = .recvfrom future)
      (hfree : core.bufferPool.freeList = bufIdx :: rest)
      (hst : core.fdStates.states.lookup fd = some st) (hcredit : st.shouldSubmitRecv)
      (hfull : core.ring.entries ≤ core.ring.sq.length) :
      Submission req { core with
        bufferPool := { core.bufferPool with freeList := rest ++ [bufIdx] }
        fdStates := { core.fdStates with states := core.fdStates.states.insert fd st.onSubmit }
        futures := (core.futures.insert fd future).erase fd
        nextBox }
  | recvIssued {req : Request F} {future : F} {bufIdx : UInt16} {rest : List UInt16} {st : FDState}
      {ring : Ring} {e : Sqe} {op : SqeOp} {recvmsgStates : FdMap RecvMsgState} (nextBox : Nat)
      (hreq : req = .recv future ∨ req = .recvfrom future)
      (hfree : core.bufferPool.freeList = bufIdx :: rest)
      (hst : core.fdStates.states.lookup fd = some st) (hcredit : st.shouldSubmitRecv)
      (hissued : core.ring.Issued fd op ring e)
      (hop : op = .recv bufIdx core.bufLen ∧ recvmsgStates = core.recvmsgStates ∨
        ∃ state, op = .recvMsg state.ptr bufIdx core.bufLen ∧
          recvmsgStates = core.recvmsgStates.insert fd state) :
      Submission req { core with
        ring
        bufferPool := { core.bufferPool with
          freeList := rest ++ (core.inflightRecvBuffers.lookup fd).toList }
        fdStates := { core.fdStates with states := core.fdStates.states.insert fd st.onSubmit }
        inflightRecvBuffers := core.inflightRecvBuffers.insert fd bufIdx
        futures := core.futures.insert fd future
        recvmsgStates
        nextBox }
  /-- Data larger than a buffer: the buffer is taken and never mentioned again. -/
  | sendPanicked {data : Bytes} {future : F} {bufIdx : UInt16} {rest : List UInt16}
      (hfree : core.bufferPool.freeList = bufIdx :: rest)
      (hlen : core.bufferPool.bufferSize < data.length) :
      Submission (.send data future) { core with
        bufferPool := { core.bufferPool with freeList := rest } }
  | sendRefused {data : Bytes} {future : F} {bufIdx : UInt16} {rest : List UInt16}
      (hfree : core.bufferPool.freeList = bufIdx :: rest)
      (hlen : data.length ≤ core.bufferPool.bufferSize)
      (hfull : core.ring.entries ≤ core.ring.sq.length) :
      Submission (.send data future) { core with
        bufferPool := { core.bufferPool.write bufIdx data with freeList := rest ++ [bufIdx] }
        futures := (core.futures.insert fd future).erase fd }
  | sendIssued {data : Bytes} {future : F} {bufIdx : UInt16} {rest : List UInt16} {ring : Ring}
      {e : Sqe} (hfree : core.bufferPool.freeList = bufIdx :: rest)
      (hlen : data.length ≤ core.bufferPool.bufferSize)
      (hissued : core.ring.Issued fd (.send bufIdx (data.length % 2 ^ 32)) ring e) :
      Submission (.send data future) { core with
        ring
        bufferPool := { core.bufferPool.write bufIdx data with freeList := rest }
        futures := core.futures.insert fd future }
  /-- `sendto`, whose future is stored when the flush has succeeded. -/
  | sendtoIssued {data : Bytes} {addr : AddrArg} {future : F} {ring : Ring} {e : Sqe}
      {futures : FdMap F} (state : SendMsgState) (nextBox : Nat)
      (haddr : (buildSockaddr addr).isOk)
      (hissued : core.ring.Issued fd (.sendMsg state.ptr data.length) ring e)
      (hfutures : futures = core.futures.insert fd future ∨
        futures = core.futures ∧ ∃ msg, enter = .error msg) :
      Submission (.sendto data addr future) { core with
        ring
        futures
        sendmsgStates := core.sendmsgStates.insert fd state
        nextBox }
  | acceptRefused {future : F} (hfull : core.ring.entries ≤ core.ring.sq.length) :
      Submission (.accept future) { core with
        futures := (core.futures.insert fd future).erase fd }
  /-- The future of a refused multishot receive stays. -/
  | multishotRefused {future : F} (hring : core.pbufRing.isSome)
      (hfull : core.ring.entries ≤ core.ring.sq.length) :
      Submission (.recvMultishot future) { core with futures := core.futures.insert fd future }
  /-- The operations without a pool buffer. -/
  | plainIssued {req : Request F} {ring : Ring} {e : Sqe} {op : SqeOp} (hreq : req.isPlain)
      (hop : op.buf? = none ∧ op.opType ≠ .sendMsg)
      (hring : ∀ future, req = .recvMultishot future → core.pbufRing.isSome)
      (hissued : core.ring.Issued fd op ring e) :
      Submission req { core with ring, futures := storeFuture fd req.future? core.futures }

variable {core enter fd}

/-- A sound core's credit check is the state's own. -/
theorem Sound.withStateMut {core : UringCore F H T} (hs : core.Sound) {fd : Fd} {st : FDState}
    (hst : core.fdStates.states.lookup fd = some st) (f : FDState → FDState) :
    core.fdStates.withStateMut fd f =
      .ok { core.fdStates with states := core.fdStates.states.insert fd (f st) } := by
  simp [FDStateManager.withStateMut, hst, FDState.isValidGeneration, hs.generation fd st hst]

/-- The ways `beginRecv` can end. -/
theorem beginRecv_spec (hs : core.Sound) (fd : Fd) (now : Nat) (noBuffers : String) (future : F) :
    (core.fdStates.shouldSubmitRecv fd = false ∧
      core.beginRecv now noBuffers fd future = (core, .ok none)) ∨
    (core.bufferPool.freeList = [] ∧
      core.beginRecv now noBuffers fd future = (core, .error (.runtimeError noBuffers))) ∨
    ∃ bufIdx rest st, core.bufferPool.freeList = bufIdx :: rest ∧
      core.fdStates.states.lookup fd = some st ∧ st.shouldSubmitRecv ∧
      core.beginRecv now noBuffers fd future = ({ core with
        bufferPool := { core.bufferPool with freeList := rest }
        fdStates := { core.fdStates with states := core.fdStates.states.insert fd st.onSubmit }
        futures := core.futures.insert fd future }, .ok (some bufIdx)) := by
  unfold beginRecv
  cases hst : core.fdStates.states.lookup fd with
  | none => simp [FDStateManager.shouldSubmitRecv, hst]
  | some st =>
    cases hcredit : st.shouldSubmitRecv with
    | false => simp [FDStateManager.shouldSubmitRecv, hst, hcredit]
    | true =>
      rw [BufferPool.acquire_of_quarantine_nil hs.quarantine]
      cases hfree : core.bufferPool.freeList with
      | nil => simp [FDStateManager.shouldSubmitRecv, hst, hcredit]
      | cons bufIdx rest =>
        refine .inr (.inr ⟨bufIdx, rest, st, rfl, rfl, hcredit, ?_⟩)
        simp [FDStateManager.shouldSubmitRecv, hst, hcredit, hs.withStateMut hst]

theorem undo_eq (bufIdx : UInt16) (core : UringCore F H T) :
    core.undo fd bufIdx = { core with
      bufferPool := { core.bufferPool with freeList := core.bufferPool.freeList ++ [bufIdx] }
      futures := core.futures.erase fd } := by
  simp [undo, releaseBuffer]

/-- The buffer that was tracked before, if any, goes to the back of the free list. -/
theorem trackInflight_eq (bufIdx : UInt16) (core : UringCore F H T) :
    core.trackInflight fd bufIdx = { core with
      bufferPool := { core.bufferPool with
        freeList := core.bufferPool.freeList ++ (core.inflightRecvBuffers.lookup fd).toList }
      inflightRecvBuffers := core.inflightRecvBuffers.insert fd bufIdx } := by
  unfold trackInflight
  cases core.inflightRecvBuffers.lookup fd with
  | none => simp
  | some old => simp [releaseBuffer]

theorem submitRecv_spec (hs : core.Sound) (now : Nat) (future : F) :
    core.Submission enter fd (.recv future) (core.submitRecv now enter fd future).1 := by
  unfold submitRecv
  obtain ⟨hnot, h⟩ | ⟨hnil, h⟩ | ⟨bufIdx, rest, st, hfree, hst, hcredit, h⟩ :=
    beginRecv_spec hs fd now "No buffers available for recv" future
  · rw [h]
    exact .kept _ core.nextBox (by simp) (by simp [hnot])
  · rw [h]
    exact .kept _ core.nextBox (by simp) fun _ _ => hnil
  · rw [h]
    simp only [Ring.prepRecv]
    split
    · rename_i e hpush
      have hfull := (Ring.push_error hpush).1
      simp only [undo_eq]
      exact .recvRefused core.nextBox (.inl rfl) hfree hst hcredit hfull
    · rename_i ring hpush
      simp only [trackInflight_eq, submit]
      exact .recvIssued core.nextBox (.inl rfl) hfree hst hcredit (Ring.push_issued hpush enter)
        (.inl ⟨rfl, rfl⟩)

theorem submitRecvfrom_spec (hs : core.Sound) (now : Nat) (future : F) :
    core.Submission enter fd (.recvfrom future) (core.submitRecvfrom now enter fd future).1 := by
  unfold submitRecvfrom
  obtain ⟨hnot, h⟩ | ⟨hnil, h⟩ | ⟨bufIdx, rest, st, hfree, hst, hcredit, h⟩ :=
    beginRecv_spec hs fd now "No buffers available for recvfrom" future
  · rw [h]
    exact .kept _ core.nextBox (by simp) (by simp [hnot])
  · rw [h]
    exact .kept _ core.nextBox (by simp) fun _ _ => hnil
  · rw [h]
    simp only [Ring.prepRecvmsg]
    split
    · rename_i e hpush
      have hfull := (Ring.push_error hpush).1
      simp only [undo_eq]
      exact .recvRefused (core.nextBox + 1) (.inr rfl) hfree hst hcredit hfull
    · rename_i ring hpush
      simp only [trackInflight_eq, submit]
      exact .recvIssued (core.nextBox + 1) (.inr rfl) hfree hst hcredit
        (Ring.push_issued hpush enter) (.inr ⟨_, rfl, rfl⟩)

theorem submitSend_spec (hs : core.Sound) (now : Nat) (data : Bytes) (future : F) :
    core.Submission enter fd (.send data future) (core.submitSend now enter fd data future).1 := by
  unfold submitSend
  rw [BufferPool.acquire_of_quarantine_nil hs.quarantine]
  cases hfree : core.bufferPool.freeList with
  | nil => exact .kept _ core.nextBox (fun _ _ _ => hfree) (fun _ _ => hfree)
  | cons bufIdx rest =>
    simp only [Ring.prepSend]
    split
    · rename_i hlen
      exact .sendPanicked hfree hlen
    · rename_i hlen
      have hlen := Nat.not_lt.mp hlen
      split
      · rename_i e hpush
        have hfull := (Ring.push_error hpush).1
        simp only [undo_eq]
        exact .sendRefused hfree hlen hfull
      · rename_i ring hpush
        exact .sendIssued hfree hlen (Ring.push_issued hpush enter)

/-- A flush that is accepted by the caller got no error from the kernel. -/
theorem submit_error {core core' : UringCore F H T} {e : PyErr}
    (h : core.submit enter = (core', .error e)) : ∃ msg, enter = .error msg := by
  cases enter with
  | error msg => exact ⟨msg, rfl⟩
  | ok n =>
    unfold submit Ring.submit at h
    split at h <;> simp at h

theorem submitSendto_spec (data : Bytes) (addr : AddrArg) (future : F) :
    core.Submission enter fd (.sendto data addr future)
      (core.submitSendto enter fd data addr future).1 := by
  unfold submitSendto
  cases haddr : buildSockaddr addr with
  | error e => exact .kept _ core.nextBox (by simp) (by simp [Request.isRecv])
  | ok sockaddr =>
    have haddr : (buildSockaddr addr).isOk := by rw [haddr]; rfl
    simp only [Ring.prepSendmsg]
    split
    · exact .kept _ (core.nextBox + 1) (by simp) (by simp [Request.isRecv])
    · rename_i ring hpush
      have hissued := Ring.push_issued hpush enter
      split
      · rename_i core' e hsubmit
        have hcore := congrArg Prod.fst hsubmit
        simp only [submit] at hcore
        rw [← hcore]
        exact .sendtoIssued ⟨core.nextBox, sockaddr, sockaddr.namelen, data⟩ _ haddr hissued
          (.inr ⟨rfl, submit_error hsubmit⟩)
      · rename_i core' hsubmit
        have hcore := congrArg Prod.fst hsubmit
        simp only [submit] at hcore
        rw [← hcore]
        exact .sendtoIssued ⟨core.nextBox, sockaddr, sockaddr.namelen, data⟩ _ haddr hissued (.inl rfl)

theorem submitRecvMultishot_spec (future : F) :
    core.Submission enter fd (.recvMultishot future)
      (core.submitRecvMultishot enter fd future).1 := by
  unfold submitRecvMultishot
  split
  · exact .kept _ core.nextBox (by simp) (by simp [Request.isRecv])
  · rename_i pr hpr
    simp only [Ring.prepRecvMultishot]
    split
    · rename_i e hpush
      exact .multishotRefused (by rw [hpr]; rfl) (Ring.push_error hpush).1
    · rename_i ring hpush
      exact .plainIssued rfl ⟨rfl, by simp [SqeOp.opType]⟩ (fun _ _ => by rw [hpr]; rfl)
        (Ring.push_issued hpush enter)

theorem submitAccept_spec (future : F) :
    core.Submission enter fd (.accept future) (core.submitAccept enter fd future).1 := by
  unfold submitAccept
  simp only [Ring.prepAccept]
  split
  · rename_i e hpush
    exact .acceptRefused (Ring.push_error hpush).1
  · rename_i ring hpush
    exact .plainIssued rfl ⟨rfl, by decide⟩ (by simp) (Ring.push_issued hpush enter)

theorem submitAcceptMultishot_spec :
    core.Submission enter fd .acceptMultishot (core.submitAcceptMultishot enter fd).1 := by
  unfold submitAcceptMultishot
  simp only [Ring.prepAcceptMultishot]
  split
  · exact .kept _ core.nextBox (by simp) (by simp [Request.isRecv])
  · rename_i ring hpush
    exact .plainIssued rfl ⟨rfl, by decide⟩ (by simp) (Ring.push_issued hpush enter)

theorem submitClose_spec :
    core.Submission enter fd .close (core.submitClose enter fd).1 := by
  unfold submitClose
  simp only [Ring.prepClose]
  split
  · exact .kept _ core.nextBox (by simp) (by simp [Request.isRecv])
  · rename_i ring hpush
    exact .plainIssued rfl ⟨rfl, by decide⟩ (by simp) (Ring.push_issued hpush enter)

/-- **What a request does.** -/
theorem request_spec (hs : core.Sound) (now : Nat) (req : Request F) :
    core.Submission enter fd req (core.request now enter fd req).1 := by
  cases req with
  | recv future => exact submitRecv_spec hs now future
  | recvfrom future => exact submitRecvfrom_spec hs now future
  | sendto data addr future => exact submitSendto_spec data addr future
  | recvMultishot future => exact submitRecvMultishot_spec future
  | send data future => exact submitSend_spec hs now data future
  | accept future => exact submitAccept_spec future
  | acceptMultishot => exact submitAcceptMultishot_spec
  | close => exact submitClose_spec

/-! ## What every request does to the ring -/

/-- At most one entry is pushed, of this kind, and flushed. Its file is named as `target` does, or by
descriptor; boxes are never given out twice. -/
inductive Pushes (s : UringCore F H T) (enter : Except String Nat) (fd : Fd) (opType : OpType)
    (t : UringCore F H T) : Prop where
  | kept (hring : t.ring = s.ring) (hbox : s.nextBox ≤ t.nextBox)
  | pushed {op : SqeOp} {generation : UInt16} {target : Target} {ring : Ring}
      (hpush : s.ring.push fd op generation target = .ok ring) (hop : op.opType = opType)
      (htarget : target = s.ring.target fd ∨ target = .fd fd)
      (hring : t.ring = (ring.submit enter).1) (hbox : s.nextBox ≤ t.nextBox)

/-- Starting a receive touches neither ring nor boxes. -/
theorem beginRecv_frame {now : Nat} {noBuffers : String} {future : F} {core' : UringCore F H T}
    {r : Except PyErr (Option UInt16)}
    (h : core.beginRecv now noBuffers fd future = (core', r)) :
    core'.ring = core.ring ∧ core'.nextBox = core.nextBox := by
  unfold beginRecv at h
  repeat' split at h
  all_goals
    cases h
    exact ⟨rfl, rfl⟩

theorem request_pushes (now : Nat) (req : Request F) :
    core.Pushes enter fd req.opType (core.request now enter fd req).1 := by
  cases req with
  | recv future =>
    simp only [request, submitRecv]
    split
    · rename_i h
      exact .kept (beginRecv_frame h).1 (Nat.le_of_eq (beginRecv_frame h).2.symm)
    · rename_i h
      exact .kept (beginRecv_frame h).1 (Nat.le_of_eq (beginRecv_frame h).2.symm)
    · rename_i h
      rcases beginRecv_frame h with ⟨hring, hbox⟩
      split
      · exact .kept hring (Nat.le_of_eq hbox.symm)
      · rename_i hpush
        rw [hring] at hpush
        simp only [trackInflight_eq, submit]
        exact .pushed hpush rfl (.inl rfl) rfl (Nat.le_of_eq hbox.symm)
  | recvfrom future =>
    simp only [request, submitRecvfrom]
    split
    · rename_i h
      exact .kept (beginRecv_frame h).1 (Nat.le_of_eq (beginRecv_frame h).2.symm)
    · rename_i h
      exact .kept (beginRecv_frame h).1 (Nat.le_of_eq (beginRecv_frame h).2.symm)
    · rename_i core' bufIdx h
      rcases beginRecv_frame h with ⟨hring, hbox⟩
      have hle : core.nextBox ≤ core'.nextBox + 1 := by omega
      split
      · exact .kept hring hle
      · rename_i hpush
        simp only [hring] at hpush
        simp only [trackInflight_eq, submit]
        exact .pushed hpush rfl (.inl rfl) rfl hle
  | sendto data addr future =>
    simp only [request, submitSendto]
    split
    · exact .kept rfl (Nat.le_refl _)
    · split
      · exact .kept rfl (Nat.le_succ _)
      · rename_i hpush
        -- the future is stored or not, the flush is the same
        split
        all_goals
          rename_i hsubmit
          have hcore := congrArg Prod.fst hsubmit
          simp only [submit] at hcore
          rw [← hcore]
          exact .pushed hpush rfl (.inl rfl) rfl (Nat.le_succ _)
  | recvMultishot future =>
    simp only [request, submitRecvMultishot]
    split
    · exact .kept rfl (Nat.le_refl _)
    · split
      · exact .kept rfl (Nat.le_refl _)
      · rename_i hpush
        exact .pushed hpush rfl (.inl rfl) rfl (Nat.le_refl _)
  | send data future =>
    simp only [request, submitSend]
    split
    · exact .kept rfl (Nat.le_refl _)
    · split
      · exact .kept rfl (Nat.le_refl _)
      · split
        · exact .kept rfl (Nat.le_refl _)
        · rename_i hpush
          exact .pushed hpush rfl (.inl rfl) rfl (Nat.le_refl _)
  | accept future =>
    simp only [request, submitAccept]
    split
    · exact .kept rfl (Nat.le_refl _)
    · rename_i hpush
      exact .pushed hpush rfl (.inl rfl) rfl (Nat.le_refl _)
  | acceptMultishot =>
    simp only [request, submitAcceptMultishot]
    split
    · exact .kept rfl (Nat.le_refl _)
    · rename_i hpush
      exact .pushed hpush rfl (.inl rfl) rfl (Nat.le_refl _)
  | close =>
    simp only [request, submitClose]
    split
    · exact .kept rfl (Nat.le_refl _)
    · rename_i hpush
      exact .pushed hpush rfl (.inr rfl) rfl (Nat.le_refl _)

/-- The registered files stay, a new entry names its file as `target` does (or by descriptor), and
boxes are never given out twice. -/
structure RequestFrame (s : UringCore F H T) (fd : Fd) (t : UringCore F H T) : Prop where
  registeredFds : t.ring.registeredFds = s.ring.registeredFds
  entries : ∀ e ∈ t.ring.inFlight, e ∈ s.ring.inFlight ∨
    e.fd = fd ∧ (e.target = s.ring.target fd ∨ e.target = .fd fd)
  nextBox : s.nextBox ≤ t.nextBox

theorem Pushes.frame {s t : UringCore F H T} {opType : OpType} (h : s.Pushes enter fd opType t) :
    RequestFrame s fd t := by
  cases h with
  | kept hring hbox =>
    exact ⟨by rw [hring], fun e he => .inl (by rwa [hring] at he), hbox⟩
  | pushed hpush hop htarget hring hbox =>
    rename_i op generation target ring
    refine ⟨?_, fun e he => ?_, hbox⟩
    · rw [hring]
      rcases ring.submit_cases enter with h | ⟨n, h⟩
      · rw [h, Ring.push_ok hpush]
      · rw [h, Ring.push_ok hpush]
        rfl
    · rw [hring, (Ring.push_issued hpush enter).inFlight] at he
      rcases List.mem_append.mp he with he | he
      · exact .inl he
      · rw [List.mem_singleton.mp he]
        exact .inr ⟨rfl, htarget⟩

theorem request_frame (now : Nat) (req : Request F) :
    RequestFrame core fd (core.request now enter fd req).1 :=
  (request_pushes now req).frame

/-- At most one entry is pushed: for this descriptor, with this operation. -/
def IssuesOne (s : UringCore F H T) (fd : Fd) (opType : OpType) (t : UringCore F H T) : Prop :=
  t.ring = s.ring ∨ ∃ e, t.ring.inFlight = s.ring.inFlight ++ [e] ∧ t.ring.cq = s.ring.cq ∧
    e.fd = fd ∧ e.op.opType = opType ∧ e.seq = s.ring.tail

theorem Pushes.issuesOne {s t : UringCore F H T} {opType : OpType}
    (h : s.Pushes enter fd opType t) : s.IssuesOne fd opType t := by
  cases h with
  | kept hring => exact .inl hring
  | pushed hpush hop htarget hring =>
    have hissued := Ring.push_issued hpush enter
    rw [← hring] at hissued
    exact .inr ⟨_, hissued.inFlight, hissued.cq, rfl, hop, rfl⟩

theorem request_issuesOne (now : Nat) (req : Request F) :
    core.IssuesOne fd req.opType (core.request now enter fd req).1 :=
  (request_pushes now req).issuesOne

end UringCore

end Uringcore
