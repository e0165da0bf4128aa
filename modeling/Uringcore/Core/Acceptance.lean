import Uringcore.Core.Atomicity

/-!
# What a submission that returns has done

`submit_send` copies its data into one buffer. `get_buffer_slice_mut` cuts the slice to the size of a
buffer, `copy_from_slice` panics when the slice and the data differ in length, and nothing bounds the
data on the way: so a send is queued whole, or refused with its buffer given back, exactly if the
data fits (`SendFits`).

`submit_recv` and `submit_recvfrom` ask `should_submit_recv` first, and when the descriptor is
unknown, paused or out of credit they return `Ok` without having done anything. Otherwise `Ok` means
that the receive is queued.
-/

namespace Uringcore

/-- One call issues one operation. -/
theorem Ring.Issued.op_unique {r r' : Ring} {fd : Fd} {op op' : SqeOp} {e e' : Sqe}
    (h : r.Issued fd op r' e) (h' : r.Issued fd op' r' e') : op = op' := by
  have hlist : r.inFlight ++ [e] = r.inFlight ++ [e'] := h.inFlight.symm.trans h'.inFlight
  have heq : e = e' := List.singleton_inj.mp (List.append_cancel_left hlist)
  rw [← h.op_eq, heq, h'.op_eq]

namespace UringCore
variable {F H T : Type} {now : Nat} {enter : Except String Nat} {fd : Fd} {s t : UringCore F H T}

/-! ## Sends -/

/-- The send is queued with a buffer that holds all of the data, and only that buffer is taken. -/
def QueuesWhole (now : Nat) (fd : Fd) (data : Bytes) (s t : UringCore F H T) : Prop :=
  ∃ buf e, s.bufferPool.acquirable now = buf :: t.bufferPool.freeList ∧
    s.ring.Issued fd (.send buf data.length) t.ring e ∧
    t.bufferPool.getBufferSlice buf data.length = data

/-- The call ends without a panic, with the send queued whole or with an error and every buffer
back. -/
def SendsSafely (now : Nat) (enter : Except String Nat) (fd : Fd) (data : Bytes) (future : F)
    (s : UringCore F H T) : Prop :=
  (∀ msg, (s.submitSend now enter fd data future).2 ≠ .error (.panic msg)) ∧
  (s.QueuesWhole now fd data (s.submitSend now enter fd data future).1 ∨
    (∃ e, (s.submitSend now enter fd data future).2 = .error e) ∧
      (s.submitSend now enter fd data future).1.bufferPool.freeList.Perm
        (s.bufferPool.acquirable now))

/-- There is no buffer to copy to, or the data fits one and its length fits 32 bits; the length is not
looked at when the queue is full. -/
def SendFits (now : Nat) (data : Bytes) (s : UringCore F H T) : Prop :=
  s.bufferPool.acquirable now = [] ∨
    data.length ≤ s.bufferPool.bufferSize ∧
      (data.length < 2 ^ 32 ∨ s.ring.entries ≤ s.ring.sq.length)

/-- The ways `submit_send` can end, in any state. -/
inductive SendEnds (now : Nat) (enter : Except String Nat) (fd : Fd) (data : Bytes) (s : UringCore F H T) :
    UringCore F H T × Except PyErr Unit → Prop where
  | noBuffer (hfree : s.bufferPool.acquirable now = []) {t : UringCore F H T} {msg : String}
      (ht : t.bufferPool.freeList = []) : SendEnds now enter fd data s (t, .error (.runtimeError msg))
  | panicked {buf : UInt16} {rest : List UInt16} (hfree : s.bufferPool.acquirable now = buf :: rest)
      (hlen : s.bufferPool.bufferSize < data.length) {t : UringCore F H T} {msg : String} :
      SendEnds now enter fd data s (t, .error (.panic msg))
  | full {buf : UInt16} {rest : List UInt16} (hfree : s.bufferPool.acquirable now = buf :: rest)
      (hlen : data.length ≤ s.bufferPool.bufferSize) (hfull : s.ring.entries ≤ s.ring.sq.length)
      {t : UringCore F H T} {msg : String} (ht : t.bufferPool.freeList = rest ++ [buf]) :
      SendEnds now enter fd data s (t, .error (.runtimeError msg))
  | queued {buf : UInt16} {rest : List UInt16} (hfree : s.bufferPool.acquirable now = buf :: rest)
      (hlen : data.length ≤ s.bufferPool.bufferSize) (hroom : s.ring.sq.length < s.ring.entries)
      {t : UringCore F H T} {e : Sqe} {r : Except PyErr Unit} (ht : t.bufferPool.freeList = rest)
      (hissued : s.ring.Issued fd (.send buf (data.length % 2 ^ 32)) t.ring e)
      (hdata : t.bufferPool.getBufferSlice buf data.length = data) (hr : ∀ msg, r ≠ .error (.panic msg)) :
      SendEnds now enter fd data s (t, r)

theorem submit_ne_panic (core : UringCore F H T) (msg : String) :
    (core.submit enter).2 ≠ .error (.panic msg) := by
  unfold submit
  simp only
  split <;> simp

theorem submitSend_ends (data : Bytes) (future : F) :
    SendEnds now enter fd data s (s.submitSend now enter fd data future) := by
  unfold submitSend
  rw [BufferPool.acquire_eq]
  cases hfree : s.bufferPool.acquirable now with
  | nil => exact .noBuffer hfree hfree
  | cons buf rest =>
    simp only [Ring.prepSend]
    split
    · rename_i hlen
      exact .panicked hfree hlen
    · rename_i hlen
      have hlen := Nat.not_lt.mp hlen
      split
      · rename_i e hpush
        have hfull := (Ring.push_error hpush).1
        rw [undo_eq]
        exact .full hfree hlen hfull rfl
      · rename_i ring hpush
        have hissued := Ring.push_issued hpush enter
        refine .queued hfree hlen hissued.room rfl hissued ?_ (submit_ne_panic _)
        exact BufferPool.getBufferSlice_write hlen buf

/-- **Sends of any length.** In every state, `submit_send` queues all of the data or refuses it
without keeping a buffer, and does not panic, if and only if the data fits. -/
theorem sendsSafely_iff (data : Bytes) (future : F) :
    s.SendsSafely now enter fd data future ↔ s.SendFits now data := by
  have hends : SendEnds now enter fd data s (s.submitSend now enter fd data future) :=
    submitSend_ends data future
  unfold SendsSafely SendFits
  cases h : s.submitSend now enter fd data future with | mk t r =>
  rw [h] at hends
  cases hends with
  | noBuffer hfree ht =>
    refine iff_of_true ⟨by simp, .inr ⟨⟨_, rfl⟩, ?_⟩⟩ (.inl hfree)
    rw [hfree, ht]
  | panicked hfree hlen =>
    apply iff_of_false
    · rintro ⟨hnot, -⟩
      exact hnot _ rfl
    · rw [hfree]
      rintro (hnil | ⟨hle, -⟩)
      · cases hnil
      · omega
  | full hfree hlen hfull ht =>
    refine iff_of_true ⟨by simp, .inr ⟨⟨_, rfl⟩, ?_⟩⟩ (.inr ⟨hlen, .inr hfull⟩)
    rw [hfree, ht]
    exact List.perm_append_singleton ..
  | queued hfree hlen hroom ht hissued hdata hr =>
    rename_i buf rest e
    constructor
    · rintro ⟨-, ⟨buf', e', hfree', hissued', -⟩ | ⟨-, hperm⟩⟩
      · -- the length that was submitted is the length of the data
        have hop : SqeOp.send buf (data.length % 2 ^ 32) = .send buf' data.length :=
          hissued.op_unique hissued'
        injection hop with _ hmod
        have hlt : data.length % 2 ^ 32 < 2 ^ 32 := Nat.mod_lt _ (by decide)
        exact .inr ⟨hlen, .inl (by omega)⟩
      · have hlength := hperm.length_eq
        rw [hfree, ht, List.length_cons] at hlength
        omega
    · rintro (hnil | ⟨-, hlt | hfull⟩)
      · rw [hfree] at hnil
        cases hnil
      · rw [Nat.mod_eq_of_lt hlt] at hissued
        exact ⟨hr, .inl ⟨buf, e, by rw [hfree, ht], hissued, hdata⟩⟩
      · omega

/-- Five bytes, and buffers of four. -/
theorem not_sendsSafely_long :
    ∃ core : UringCore Nat Unit Nat, new Setup.plain 4 2 = .ok core ∧
      ¬ core.SendsSafely 0 (.ok 1) 5 [1, 2, 3, 4, 5] 7 ∧
      (core.submitSend 0 (.ok 1) 5 [1, 2, 3, 4, 5] 7).2 =
        .error (.panic "copy_from_slice: source slice length does not match destination") ∧
      (core.submitSend 0 (.ok 1) 5 [1, 2, 3, 4, 5] 7).1.bufferPool.freeList.length <
        core.bufferPool.freeList.length :=
  ⟨_, rfl, fun h => h.1 _ rfl, rfl, by decide⟩

/-- `submit_send` returns: there is a buffer, the data fits it, and the queue has room and can be
flushed. -/
def AcceptsSend (now : Nat) (enter : Except String Nat) (data : Bytes) (s : UringCore F H T) : Prop :=
  s.bufferPool.acquirable now ≠ [] ∧ data.length ≤ s.bufferPool.bufferSize ∧
    s.ring.sq.length < s.ring.entries ∧ enter.isOk

instance (data : Bytes) : Decidable (s.AcceptsSend now enter data) :=
  inferInstanceAs (Decidable (_ ∧ _ ∧ _ ∧ _ = true))

theorem submitSend_ok_iff (data : Bytes) (future : F) :
    (s.submitSend now enter fd data future).2 = .ok () ↔ s.AcceptsSend now enter data := by
  unfold submitSend AcceptsSend
  rw [BufferPool.acquire_eq]
  cases hfree : s.bufferPool.acquirable now with
  | nil => simp
  | cons buf rest =>
    simp only [Ring.prepSend]
    split
    · rename_i hlen
      apply iff_of_false (by simp)
      -- the data does not fit the buffer: the copy panics
      rintro ⟨-, hle, -⟩
      exact absurd hlen (Nat.not_lt.mpr hle)
    · rename_i hlen
      have hlen : data.length ≤ s.bufferPool.bufferSize := Nat.not_lt.mp hlen
      unfold Ring.push
      split
      · rename_i hpush
        apply iff_of_false (by simp)
        rintro ⟨-, -, hroom, -⟩
        simp [Nat.not_le.mpr hroom] at hpush
      · rename_i ring hpush
        obtain ⟨hroom, hring⟩ : s.ring.sq.length < s.ring.entries ∧ ring.sq ≠ [] := by
          split at hpush
          · cases hpush
          · rename_i hroom
            cases hpush
            exact ⟨Nat.not_le.mp hroom, by simp⟩
        have hlength : ring.sq.length ≠ 0 := by simpa using hring
        unfold submit Ring.submit
        cases enter with
        | error msg => simp [hlength, Except.isOk, Except.toBool]
        | ok n => simp [hlength, Except.isOk, Except.toBool, hlen, hroom]

/-! ## Receives -/

/-- The receive is queued with the buffer it took, which is tracked for the descriptor, and its future
is stored; a completion of it that finds the future still there resolves it. -/
def QueuesRecv (now : Nat) (fd : Fd) (future : F) (s t : UringCore F H T) : Prop :=
  ∃ buf e, (s.bufferPool.acquirable now).head? = some buf ∧ e.fd = fd ∧ e.op.recvBuf? = some buf ∧
    t.ring.inFlight = s.ring.inFlight ++ [e] ∧
    t.inflightRecvBuffers.lookup fd = some buf ∧ t.futures.lookup fd = some future ∧
    ∀ (u : UringCore F H T) (c : Cqe), c.sqe = e → u.futures.lookup fd = some future →
      (u.process c.entry).2.2 = some future

theorem queuesRecv_submit (core : UringCore F H T) {op : SqeOp} {generation : UInt16}
    {target : Target} {ring ring' : Ring} {buf : UInt16} {rest : List UInt16} {future : F}
    (hfree : s.bufferPool.acquirable now = buf :: rest) (hring : ring = s.ring)
    (hpush : ring.push fd op generation target = .ok ring') (hop : op.recvBuf? = some buf)
    (hcore : core.futures.lookup fd = some future) :
    s.QueuesRecv now fd future ((trackInflight fd buf { core with ring := ring' }).submit enter).1 := by
  have hissued := Ring.push_issued hpush enter
  subst hring
  refine ⟨buf, _, by rw [hfree]; rfl, hissued.fd_eq, hop, ?_, ?_, ?_, fun u c hc hu => ?_⟩
  · rw [trackInflight_eq]
    exact hissued.inFlight
  · rw [trackInflight_eq]
    exact AList.lookup_insert ..
  · rw [trackInflight_eq]
    exact hcore
  · show u.futures.lookup c.entry.fd = some future
    rw [Cqe.entry_fd, hc]
    exact hu

/-- Past the check of the descriptor there is no way to return `Ok` early. -/
theorem beginRecv_open (hgate : s.fdStates.shouldSubmitRecv fd = true) (noBuffers : String) (future : F) :
    (∃ core e, s.beginRecv now noBuffers fd future = (core, .error e)) ∨
    ∃ core buf rest, s.beginRecv now noBuffers fd future = (core, .ok (some buf)) ∧
      s.bufferPool.acquirable now = buf :: rest ∧ core.ring = s.ring ∧
      core.futures.lookup fd = some future := by
  rcases beginRecv_cases now noBuffers fd future s with
    h | ⟨-, h⟩ | ⟨buf, rest, st, hfree, -, ⟨-, msg, h⟩ | ⟨-, h⟩⟩
  · have hnone := congrArg Prod.snd h
    unfold beginRecv at hnone
    rw [hgate] at hnone
    simp only [Bool.not_true, Bool.false_eq_true, if_false] at hnone
    split at hnone
    · cases hnone
    · split at hnone <;> cases hnone
  · exact .inl ⟨_, _, h⟩
  · exact .inl ⟨_, _, h⟩
  · exact .inr ⟨_, buf, rest, h, hfree, rfl, AList.lookup_insert ..⟩

/-- **Receives.** In every state, a receive that is accepted has been queued, or the descriptor is
unknown, paused or without credit and the call has changed nothing. -/
theorem recv_accepted {future : F} {req : Request F} (hreq : req = .recv future ∨ req = .recvfrom future)
    (hok : s.request now enter fd req = (t, .ok ())) :
    s.fdStates.shouldSubmitRecv fd = true ∧ s.QueuesRecv now fd future t ∨
      s.fdStates.shouldSubmitRecv fd = false ∧ t = s := by
  cases hgate : s.fdStates.shouldSubmitRecv fd with
  | false =>
    have hbegin (noBuffers : String) : s.beginRecv now noBuffers fd future = (s, .ok none) := by
      rw [beginRecv, hgate]
      rfl
    rcases hreq with rfl | rfl
    · rw [request, submitRecv, hbegin] at hok
      cases hok
      exact .inr ⟨rfl, rfl⟩
    · rw [request, submitRecvfrom, hbegin] at hok
      cases hok
      exact .inr ⟨rfl, rfl⟩
  | true =>
    refine .inl ⟨rfl, ?_⟩
    rcases hreq with rfl | rfl
    · rw [request, submitRecv] at hok
      rcases beginRecv_open hgate "No buffers available for recv" future with
        ⟨core, e, h⟩ | ⟨core, buf, rest, h, hfree, hring, hfuture⟩
      · rw [h] at hok
        cases hok
      · rw [h] at hok
        simp only [Ring.prepRecv] at hok
        split at hok
        · cases hok
        · rename_i ring hpush
          have ht : t = _ := (congrArg Prod.fst hok).symm
          rw [ht]
          exact queuesRecv_submit core hfree hring hpush rfl hfuture
    · rw [request, submitRecvfrom] at hok
      rcases beginRecv_open hgate "No buffers available for recvfrom" future with
        ⟨core, e, h⟩ | ⟨core, buf, rest, h, hfree, hring, hfuture⟩
      · rw [h] at hok
        cases hok
      · rw [h] at hok
        simp only [Ring.prepRecvmsg] at hok
        split at hok
        · cases hok
        · rename_i ring hpush
          have ht : t = _ := (congrArg Prod.fst hok).symm
          rw [ht]
          exact queuesRecv_submit { core with
              nextBox := core.nextBox + 1
              recvmsgStates :=
                core.recvmsgStates.insert fd ⟨core.nextBox, buf, core.bufLen, .unspec, 128⟩ }
            hfree hring hpush rfl hfuture

/-- Descriptor 5 is registered, and then reading is paused. -/
def pausedRun : List (Act Nat Unit Nat) := [.registerFd 5 "tcp", .pauseReading 5]

theorem recv_accepted_open :
    ∃ core s t : UringCore Nat Unit Nat, new Setup.plain 16 2 = .ok core ∧
      machine.run core (pausedRun.take 1) = some s ∧ s.request 0 (.ok 1) 5 (.recv 7) = (t, .ok ()) ∧
      (s.fdStates.shouldSubmitRecv 5 = true ∧ s.QueuesRecv 0 5 7 t ∨
        s.fdStates.shouldSubmitRecv 5 = false ∧ t = s) :=
  ⟨_, _, _, rfl, rfl, rfl, recv_accepted (.inl rfl) rfl⟩

/-- The receive on the paused descriptor is accepted, and there is nothing in the queue and no
future. -/
theorem not_queued_paused :
    ∃ core s : UringCore Nat Unit Nat, new Setup.plain 16 2 = .ok core ∧
      machine.run core pausedRun = some s ∧ (s.request 0 (.ok 1) 5 (.recv 7)).2 = .ok () ∧
      (s.request 0 (.ok 1) 5 (.recv 7)).1.ring.inFlight = [] ∧
      (s.request 0 (.ok 1) 5 (.recv 7)).1.futures.lookup 5 = none :=
  ⟨_, _, rfl, rfl, rfl, rfl, rfl⟩

end UringCore

end Uringcore
