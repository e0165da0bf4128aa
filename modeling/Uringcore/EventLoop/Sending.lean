import Uringcore.EventLoop.Issued

/-!
# The data that is sent

`write` and `sock_sendall` submit one send for all the data they are given, and what the send's
future is resolved with, the number of bytes the kernel took, only lowers the transport's counter.
So the tail of a short send is lost. It is the same where no send is submitted at all: for want of a
buffer, of room in the queue, or because the data is larger than a buffer.

`SendLog` keeps what was written and what the kernel took, beside the loop. `AllSent` is the promise,
`KeepsSends` says which steps keep it.
-/

namespace Uringcore

/-- A send on `fd`. -/
def Sqe.sendsOn (fd : Fd) (e : Sqe) : Bool := e.fd = fd && e.op.sendBuf?.isSome

namespace EventLoop
variable {K T : Type}

/-- The data of the send that was submitted with the number `n`. -/
def dataOf (s : EventLoop K T) (n : Nat) : Bytes :=
  match s.issued[n]? with
  | some (_, .send data _) => data
  | _ => []

/-- The sends on `fd` the kernel has not finished, in the order they were submitted. -/
def sending (s : EventLoop K T) (fd : Fd) : List Sqe :=
  s.core.ring.inFlight.filter (Sqe.sendsOn fd)

/-- What the program gives the loop to send. A closing transport ignores it, and so do both methods
when there is no data. -/
def sent? (s : EventLoop K T) : Act K T → Option (Fd × Bytes)
  | .call (.write tr data) _ => match s.objs[tr]? with
    | some t => if t.closing || data.isEmpty then none else some (t.fd, data)
    | none => none
  | .call (.sockSendall fd data _) _ => if data.isEmpty then none else some (fd, data)
  | _ => none

structure SendLog where
  written : Fd → Bytes
  accepted : Fd → Bytes
  /-- By submission number. -/
  acceptedOf : Nat → Bytes
  /-- A send has completed with an error. -/
  failed : Fd → Bool
  /-- The futures of `sock_sendall`. -/
  sendalls : List FutId

namespace SendLog

def init : SendLog := ⟨fun _ => [], fun _ => [], fun _ => [], fun _ => false, []⟩

def write (fd : Fd) (data : Bytes) (log : SendLog) : SendLog :=
  { log with written := Function.update log.written fd (log.written fd ++ data) }

def sendall (fut : FutId) (log : SendLog) : SendLog :=
  { log with sendalls := log.sendalls ++ [fut] }

/-- The kernel has taken `bytes` for the operation `e`. -/
def accept (e : Sqe) (bytes : Bytes) (log : SendLog) : SendLog :=
  { log with
    accepted := Function.update log.accepted e.fd (log.accepted e.fd ++ bytes)
    acceptedOf := Function.update log.acceptedOf e.seq bytes }

def fail (fd : Fd) (log : SendLog) : SendLog :=
  { log with failed := Function.update log.failed fd true }

/-- The kernel completes `e`. -/
def complete (s : EventLoop K T) (e : Sqe) (payload : Payload) (log : SendLog) : SendLog :=
  match e.op.sendBuf? with
  | some buf =>
      if 0 ≤ payload.result then
        log.accept e ((s.core.bufferPool.memory buf).take payload.result.toNat)
      else log.fail e.fd
  | none => log

def upd (s : EventLoop K T) (a : Act K T) (_ : EventLoop K T) (log : SendLog) : SendLog :=
  match a, s.sent? a with
  | .call (.sockSendall ..) _, some (fd, data) => (log.write fd data).sendall s.futs.length
  | .complete i payload _ _, _ => match s.core.ring.kernel[i]? with
    | some e => log.complete s e payload
    | none => log
  | _, some (fd, data) => log.write fd data
  | _, none => log

end SendLog

/-- When every send on a descriptor has completed, without an error, the kernel has taken what was
written, in order; and a `sock_sendall` that has returned has had all its data taken. -/
structure AllSent (x : EventLoop K T × SendLog) : Prop where
  accepted : ∀ fd, x.2.failed fd = false → x.1.sending fd = [] → x.2.accepted fd = x.2.written fd
  returned : ∀ n fd data fut v, x.1.issued[n]? = some (fd, .send data fut) → fut ∈ x.2.sendalls →
    x.1.futState fut = some (.result v) → x.2.acceptedOf n = data

/-- A send of `data` would be submitted. -/
def QueuesSend (s : EventLoop K T) (data : Bytes) : Prop :=
  s.core.bufferPool.freeList ≠ [] ∧ data.length ≤ s.core.bufferPool.bufferSize ∧
    s.core.ring.sq.length < s.core.ring.entries

/-- The kernel completes `e`, at position `i`, with `n` bytes: they are all the data that was
submitted, the buffer still holds them, and no send on the descriptor comes before. -/
def TakesAll (s : EventLoop K T) (i : Nat) (e : Sqe) (buf : UInt16) (n : Nat) : Prop :=
  n = (s.dataOf e.seq).length ∧ (s.core.bufferPool.memory buf).take n = s.dataOf e.seq ∧
    ∀ e' ∈ s.core.ring.kernel.take i, e'.sendsOn e.fd = false

/-- If `fut` is the future of a submission, it is that of the submission `n`. -/
def BelongsTo (s : EventLoop K T) (fut : FutId) (n : Nat) : Prop :=
  ∀ m < s.issued.length, (s.issued[m]?).bind (·.2.future?) = some fut → m = n

instance (s : EventLoop K T) (data : Bytes) : Decidable (s.QueuesSend data) :=
  inferInstanceAs (Decidable (_ ∧ _))

instance (s : EventLoop K T) (i : Nat) (e : Sqe) (buf : UInt16) (n : Nat) :
    Decidable (s.TakesAll i e buf n) :=
  inferInstanceAs (Decidable (_ ∧ _ ∧ ∀ e' ∈ _, _))

instance (s : EventLoop K T) (fut : FutId) (n : Nat) : Decidable (s.BelongsTo fut n) :=
  inferInstanceAs (Decidable (∀ m < _, _))

/-- A waiting future of `sock_sendall` is not found by the completion of another operation. -/
def SendsApart (x : EventLoop K T × SendLog) (fut? : Option FutId) (n : Nat) : Prop :=
  ∀ fut ∈ fut?, fut ∈ x.2.sendalls → x.1.Waits fut → x.1.BelongsTo fut n

instance (x : EventLoop K T × SendLog) (fut? : Option FutId) (n : Nat) :
    Decidable (SendsApart x fut? n) :=
  inferInstanceAs (Decidable (∀ fut ∈ fut?, _ → _ → _))

/-- Sends complete with all of their data and in order; a completion of another operation, in a tick
or in the handler of a send, does not resolve the future of a `sock_sendall`. -/
def KeepsSent (x : EventLoop K T × SendLog) : Act K T → Prop
  | .complete i payload _ _ => ∀ e ∈ x.1.core.ring.kernel[i]?, ∀ buf ∈ e.op.sendBuf?,
      0 ≤ payload.result → x.1.TakesAll i e buf payload.result.toNat
  | .startTick _ enter => x.1.core.Flushes enter →
      InTurn (fun pre c => 0 ≤ c.payload.result →
        SendsApart x (x.1.takes pre c.sqe.fd) c.sqe.seq) [] x.1.core.ring.cq
  | .handleCompletion => ∀ r ∈ x.1.results.head?, r.opType = "send" → 0 ≤ r.result →
      ∀ c ∈ x.1.handled?, SendsApart x (x.1.ioLookup r.fd .send) c.sqe.seq
  | _ => True

instance (x : EventLoop K T × SendLog) : ∀ a : Act K T, Decidable (KeepsSent x a)
  | .complete i payload _ _ =>
      have : ∀ e : Sqe, Decidable (∀ buf ∈ e.op.sendBuf?,
        0 ≤ payload.result → x.1.TakesAll i e buf payload.result.toNat) :=
        fun _ => Option.decidableForallMem _
      inferInstanceAs (Decidable (∀ e ∈ x.1.core.ring.kernel[i]?, ∀ buf ∈ e.op.sendBuf?,
        0 ≤ payload.result → x.1.TakesAll i e buf payload.result.toNat))
  | .startTick _ _ =>
      have : ∀ (pre : List Cqe) (c : Cqe), Decidable (0 ≤ c.payload.result →
        SendsApart x (x.1.takes pre c.sqe.fd) c.sqe.seq) := fun _ _ => inferInstance
      inferInstanceAs (Decidable (_ → InTurn _ _ _))
  | .handleCompletion =>
      inferInstanceAs (Decidable (∀ r ∈ x.1.results.head?, r.opType = "send" → 0 ≤ r.result →
        ∀ c ∈ x.1.handled?, SendsApart x (x.1.ioLookup r.fd .send) c.sqe.seq))
  | .consume _ | .callSoon _ | .runHandle | .ret .. | .rearmAccept _ | .call .. => .isTrue trivial

/-- Everything the program gives the loop to send is submitted, and then `KeepsSent`. -/
def KeepsSends (x : EventLoop K T × SendLog) (a : Act K T) : Prop :=
  (∀ w ∈ x.1.sent? a, x.1.QueuesSend w.2) ∧ KeepsSent x a

instance (x : EventLoop K T × SendLog) (a : Act K T) : Decidable (KeepsSends x a) :=
  inferInstanceAs (Decidable ((∀ w ∈ x.1.sent? a, x.1.QueuesSend w.2) ∧ KeepsSent x a))

/-! ## Nothing is lost -/

/-- The data of the sends on `fd` that the kernel has not finished. -/
def unsent (s : EventLoop K T) (fd : Fd) : Bytes :=
  ((s.sending fd).map fun e => s.dataOf e.seq).flatten

/-- As long as no send fails, what was written has been taken or is still to be sent. -/
def NothingLost (x : EventLoop K T × SendLog) : Prop :=
  ∀ fd, x.2.failed fd = false → x.2.accepted fd ++ x.1.unsent fd = x.2.written fd

section
variable {s₀ s t : EventLoop K T} {a : Act K T}

theorem Names.getElem? {e : Sqe} {xs : List (Fd × Request FutId)} (h : s.Names e) :
    (s.issued ++ xs)[e.seq]? = s.issued[e.seq]? := by
  rcases h with ⟨req, hreq, -⟩
  exact List.getElem?_append_left (List.getElem?_eq_some_iff.mp hreq).1

theorem dataOf_eq {n : Nat} {fd : Fd} {data : Bytes} {fut : FutId}
    (h : s.issued[n]? = some (fd, .send data fut)) : s.dataOf n = data := by
  rw [dataOf, h]

/-- Later submissions do not change what is still to be sent. -/
theorem unsent_congr (hi : s.IssuedSound) {fd : Fd} {xs : List (Fd × Request FutId)}
    (hissued : t.issued = s.issued ++ xs) (hsending : t.sending fd = s.sending fd) :
    t.unsent fd = s.unsent fd := by
  unfold unsent
  rw [hsending]
  congr 1
  apply List.map_congr_left
  intro e he
  have hlive : e ∈ s.core.live := UringCore.mem_live.mpr (.inl (List.mem_filter.mp he).1)
  rw [dataOf, dataOf, hissued, (hi.live e hlive).getElem?]

/-- A request for anything but a send leaves the sends as they are. -/
theorem sending_request {now : Nat} {enter : Except String Nat} {fd' : Fd} {req : Request FutId}
    (hreq : req.opType ≠ .send) (hcore : t.core = (s.core.request now enter fd' req).1) (fd : Fd) :
    t.sending fd = s.sending fd := by
  have hone : s.core.IssuesOne fd' req.opType t.core := hcore ▸ UringCore.request_issuesOne now req
  unfold sending
  rcases hone with hring | ⟨e, hin, -, -, hop, -⟩
  · rw [hring]
  · have hnot : e.sendsOn fd = false := by
      have hbuf : e.op.sendBuf? = none := by
        cases heq : e.op with
        | send buf len =>
          rw [heq] at hop
          exact absurd hop.symm hreq
        | _ => rfl
      simp [Sqe.sendsOn, hbuf]
    rw [hin, List.filter_append, List.filter_cons_of_neg (by simp [hnot]), List.filter_nil,
      List.append_nil]

/-- Only the calls that send and the kernel change what is still to be sent. -/
theorem Move.unsent [LE T] [DecidableLE T] (hs : s.CoreSound) (hi : s.IssuedSound)
    (hsends : a.sends = false) (hcomplete : ∀ i payload select more, a ≠ .complete i payload select more)
    (h : Move s₀ a s t) (fd : Fd) : t.unsent fd = s.unsent fd := by
  cases h.issue hs with
  | calm hcalm =>
    have hissued : t.issued = s.issued ++ [] := by rw [hcalm.issued, List.append_nil]
    apply unsent_congr hi hissued
    · unfold sending
      rw [hcalm.core.inFlight]
  | completed ha => exact absurd ha (hcomplete _ _ _ _)
  | new env fd' kind? callbacks req objs hfuture hkind hsend ht =>
    rw [ht, submitNew_eq]
    apply unsent_congr hi rfl
    apply sending_request _ rfl
    intro hop
    rw [hsend _ hop] at hsends
    cases hsends
  | close env fd' ht =>
    rw [ht]
    apply unsent_congr hi rfl
    exact sending_request (by simp [Request.opType]) rfl fd
  | drained hticks hmidway hcq ht =>
    have hissued : t.issued = s.issued ++ [] := by rw [ht, drainOne_eq, List.append_nil]
    apply unsent_congr hi hissued
    · rw [ht, drainOne_eq]
      show (s.core.processNext _ _).ring.inFlight.filter _ = _
      rw [UringCore.processNext_inFlight, sending]

/-- What the kernel's completion of the operation at position `i` does to the operations in flight. -/
theorem complete_inFlight {core core' : UringCore FutId (Handle K) T} {i : Nat} {payload : Payload}
    {select more : Bool} (h : core.complete i payload select more = some core') :
    ∃ e, core.ring.kernel[i]? = some e ∧ e.op.admits core.bufLen payload select more ∧
      core'.ring.inFlight =
        (if more then core.ring.kernel else core.ring.kernel.eraseIdx i) ++ core.ring.sq := by
  unfold UringCore.complete at h
  split at h
  · cases h
  · rename_i e he
    split at h
    · rename_i hadmits
      cases h
      exact ⟨e, he, hadmits.1, rfl⟩
    · cases h

theorem filter_eraseIdx {l : List Sqe} {i : Nat} {e : Sqe} (p : Sqe → Bool) (h : l[i]? = some e) :
    l.filter p = (l.take i).filter p ++ ([e].filter p ++ (l.drop (i + 1)).filter p) ∧
      (l.eraseIdx i).filter p = (l.take i).filter p ++ (l.drop (i + 1)).filter p := by
  rcases List.getElem?_eq_some_iff.mp h with ⟨hlt, hget⟩
  have hsplit : l = l.take i ++ ([e] ++ l.drop (i + 1)) := by
    rw [List.singleton_append, ← hget, List.getElem_cons_drop, List.take_append_drop]
  refine ⟨?_, ?_⟩
  · rw [← List.filter_append, ← List.filter_append, ← hsplit]
  · rw [List.eraseIdx_eq_take_drop_succ, List.filter_append]

/-- A send never goes on after a completion. -/
theorem more_of_send {op : SqeOp} {bufLen : Nat} {payload : Payload} {select more : Bool} {buf : UInt16}
    (h : op.admits bufLen payload select more) (hbuf : op.sendBuf? = some buf) : more = false := by
  cases op <;> cases hbuf
  cases payload <;> simp_all [SqeOp.admits]

theorem NothingLost.complete {log : SendLog} (h : NothingLost (s, log)) {i : Nat} {payload : Payload}
    {select more : Bool} {core : UringCore FutId (Handle K) T}
    (hcomplete : s.core.complete i payload select more = some core)
    (hkeeps : KeepsSent (s, log) (.complete i payload select more)) :
    NothingLost ({ s with core }, SendLog.upd s (.complete i payload select more) { s with core } log) := by
  rcases complete_inFlight hcomplete with ⟨e, he, hadmits, hin⟩
  have hupd : SendLog.upd s (.complete i payload select more) { s with core } log =
      log.complete s e payload := by
    simp [SendLog.upd, he]
  rw [hupd]
  -- what remains of the sends, apart from `e`
  have hrest {fd : Fd} (hnot : e.sendsOn fd = false) :
      ({ s with core } : EventLoop K T).unsent fd = s.unsent fd := by
    have hsending : ({ s with core } : EventLoop K T).sending fd = s.sending fd := by
      unfold sending
      show core.ring.inFlight.filter _ = _
      rw [hin, Ring.inFlight, List.filter_append, List.filter_append]
      congr 1
      split
      · rfl
      · rcases filter_eraseIdx (Sqe.sendsOn fd) he with ⟨hall, herased⟩
        rw [hall, herased]
        simp [hnot]
    rw [unsent, hsending]
    rfl
  unfold SendLog.complete
  cases hbuf : e.op.sendBuf? with
  | none => exact fun fd hfd => by rw [hrest (by simp [Sqe.sendsOn, hbuf])]; exact h fd hfd
  | some buf =>
    have hmore := more_of_send hadmits hbuf
    simp only
    split
    · rename_i hresult
      rcases hkeeps e he buf hbuf hresult with ⟨-, hbytes, hfirst⟩
      intro fd hfd
      by_cases heq : fd = e.fd
      · subst heq
        have hsends : e.sendsOn e.fd = true := by simp [Sqe.sendsOn, hbuf]
        have hnone : (s.core.ring.kernel.take i).filter (Sqe.sendsOn e.fd) = [] :=
          List.filter_eq_nil_iff.mpr fun e' he' => by simp [hfirst e' he']
        have hunsent : s.unsent e.fd =
            s.dataOf e.seq ++ ({ s with core } : EventLoop K T).unsent e.fd := by
          rcases filter_eraseIdx (Sqe.sendsOn e.fd) he with ⟨hall, herased⟩
          unfold unsent sending
          show _ = s.dataOf e.seq ++ ((core.ring.inFlight.filter _).map fun e => s.dataOf e.seq).flatten
          rw [hin, hmore, Ring.inFlight, List.filter_append, hall, hnone]
          simp [herased, hnone, hsends]
        have hbefore := h e.fd hfd
        rw [hunsent, ← List.append_assoc] at hbefore
        simp only [SendLog.accept, Function.update_self, hbytes]
        exact hbefore
      · rw [hrest (by simp [Sqe.sendsOn, Ne.symm heq])]
        simp only [SendLog.accept, Function.update_of_ne heq]
        exact h fd hfd
    · intro fd hfd
      by_cases heq : fd = e.fd
      · subst heq
        simp [SendLog.fail] at hfd
      · rw [hrest (by simp [Sqe.sendsOn, Ne.symm heq])]
        simp only [SendLog.fail, Function.update_of_ne heq] at hfd ⊢
        exact h fd hfd

/-- What is submitted is to be sent. -/
theorem unsent_submitNew (hs : s.CoreSound) (hi : s.IssuedSound) (env : Env) (fd : Fd)
    (kind? : Option IoKind) (callbacks : FutId → List (Handle K)) {data : Bytes}
    (hqueues : s.QueuesSend data) (fd' : Fd) :
    (s.submitNew env fd kind? callbacks (.send data)).1.unsent fd' =
      s.unsent fd' ++ if fd' = fd then data else [] := by
  rcases hqueues with ⟨hfree, hlen, hroom⟩
  have hspec : s.core.Submission env.enter fd (.send data s.futs.length) _ :=
    UringCore.request_spec hs.sound env.now _
  have hissued : ∃ buf len e, s.core.ring.Issued fd (.send buf len)
      (s.core.request env.now env.enter fd (.send data s.futs.length)).1.ring e := by
    generalize (s.core.request env.now env.enter fd (.send data s.futs.length)).1 = core at hspec
    cases hspec with
    | kept req nextBox hsend => exact absurd (hsend data _ rfl) hfree
    | recvRefused nextBox hreq => simp at hreq
    | recvIssued nextBox hreq => simp at hreq
    | sendPanicked hfree' hlen' => omega
    | sendRefused hfree' hlen' hfull => omega
    | sendIssued hfree' hlen' hissued => exact ⟨_, _, _, hissued⟩
    | plainIssued hreq => cases hreq
  rcases hissued with ⟨buf, len, e, hissued⟩
  have htail : (s.core.request env.now env.enter fd (.send data s.futs.length)).1.ring.tail ≠
      s.core.ring.tail := by
    rw [hissued.tail]
    exact Nat.succ_ne_self _
  have ht : ∃ t, (s.submitNew env fd kind? callbacks (.send data)).1 = t ∧
      t.issued = s.issued ++ [(fd, .send data s.futs.length)] ∧
      t.core.ring.inFlight = s.core.ring.inFlight ++ [e] := by
    refine ⟨_, rfl, ?_, ?_⟩
    · rw [submitNew_eq]
      simp only
      rw [if_neg htail]
    · rw [submitNew_eq]
      exact hissued.inFlight
  rcases ht with ⟨t, rfl, hlist, hin⟩
  have hdata : (s.submitNew env fd kind? callbacks (.send data)).1.dataOf e.seq = data := by
    have hget : (s.submitNew env fd kind? callbacks (.send data)).1.issued[e.seq]? =
        some (fd, .send data s.futs.length) := by
      rw [hlist, hissued.seq_eq, ← hi.length]
      exact List.getElem?_concat_length
    exact dataOf_eq hget
  have hends : e.sendsOn fd' = decide (fd' = fd) := by
    simp [Sqe.sendsOn, hissued.fd_eq, hissued.op_eq, SqeOp.sendBuf?, eq_comm]
  have hold : ((s.sending fd').map fun e =>
      (s.submitNew env fd kind? callbacks (.send data)).1.dataOf e.seq) =
        (s.sending fd').map fun e => s.dataOf e.seq := by
    apply List.map_congr_left
    intro e' he'
    have hlive : e' ∈ s.core.live := UringCore.mem_live.mpr (.inl (List.mem_filter.mp he').1)
    rw [dataOf, dataOf, hlist, (hi.live e' hlive).getElem?]
  unfold unsent
  rw [← hold, sending, hin, List.filter_append, List.map_append, List.flatten_append, sending]
  congr 1
  by_cases hfd : fd' = fd
  · subst hfd
    simp [hends, hdata]
  · simp [hends, hfd]

/-- After its submission `write` changes nothing of what is to be sent. -/
theorem unsent_write {tr : TransportId} {t : Transport} {data : Bytes} (env : Env)
    (ht : s.objs[tr]? = some t) (hopen : t.closing = false) (hdata : data ≠ []) (fd : Fd) :
    (s.write env tr data).unsent fd = (s.submitNew env t.fd none
      (fun fut => [.onWriteComplete tr fut]) (.send data)).1.unsent fd := by
  have hforce (u : EventLoop K T) (exc : Exc) : (u.errorReceived tr exc).unsent fd = u.unsent fd := by
    obtain ⟨_, _, _, _, h⟩ := SameTables.errorReceived tr exc u
    rw [h]
    rfl
  unfold write
  rw [ht]
  simp only [hopen, Bool.false_or, List.isEmpty_iff, hdata, if_false]
  split
  · rename_i s' msg hpanic
    rw [submitNew, hpanic]
  · rename_i s' e _ herror
    rw [submitNew, herror, hforce]
  · rename_i s' hok
    rw [submitNew, hok]
    simp only
    split <;> rfl

theorem NothingLost.write {log : SendLog} {u : EventLoop K T} {fd : Fd} {data : Bytes}
    (h : NothingLost (s, log))
    (hunsent : ∀ fd', u.unsent fd' = s.unsent fd' ++ if fd' = fd then data else []) :
    NothingLost (u, log.write fd data) := by
  intro fd' hfd'
  show log.accepted fd' ++ u.unsent fd' = Function.update log.written fd _ fd'
  rw [hunsent, ← List.append_assoc, h fd' hfd']
  by_cases hfd : fd' = fd
  · subst hfd
    simp
  · simp [hfd]

theorem NothingLost.step [LE T] [DecidableLE T] {log : SendLog} (h : NothingLost (s, log))
    (hs : s.CoreSound) (hi : s.IssuedSound) (hkeeps : KeepsSends (s, log) a)
    (hstep : s.step a = some t) : NothingLost (t, SendLog.upd s a t log) := by
  -- the steps that neither send nor complete
  have hquiet (hsends : a.sends = false) (hlog : SendLog.upd s a t log = log)
      (hcomplete : ∀ i payload select more, a ≠ .complete i payload select more) :
      NothingLost (t, SendLog.upd s a t log) := by
    have hkept := (step_moves hstep).rule
      (I := fun u => u.CoreSound ∧ u.IssuedSound ∧ ∀ fd, u.unsent fd = s.unsent fd)
      (fun u v hu hmove => ⟨hu.1.move hmove, hu.2.1.move hu.1 hmove, fun fd =>
        (hmove.unsent hu.1 hu.2.1 hsends hcomplete fd).trans (hu.2.2 fd)⟩)
      ⟨hs, hi, fun _ => rfl⟩
    intro fd hfd
    rw [hlog] at hfd ⊢
    rw [hkept.2.2 fd]
    exact h fd hfd
  cases a with
  | complete i payload select more =>
    rcases Option.map_eq_some_iff.mp hstep with ⟨core, hcore, rfl⟩
    exact h.complete hcore hkeeps.2
  | call c env =>
    have hrun := step_call.mp hstep
    cases c with
    | write tr data =>
      rw [← hrun.2]
      show NothingLost (s.write env tr data,
        SendLog.upd s (.call (.write tr data) env) (s.write env tr data) log)
      cases ht : s.objs[tr]? with
      | none =>
        have hlog : SendLog.upd s (.call (.write tr data) env) (s.write env tr data) log = log := by
          simp [SendLog.upd, sent?, ht]
        rw [hlog, EventLoop.write, ht]
        exact h
      | some tr' =>
        by_cases hopen : tr'.closing = false ∧ data ≠ []
        · have hsent : s.sent? (.call (.write tr data) env) = some (tr'.fd, data) := by
            simp [sent?, ht, hopen.1, hopen.2]
          have hlog : SendLog.upd s (.call (.write tr data) env) (s.write env tr data) log =
              log.write tr'.fd data := by
            simp [SendLog.upd, hsent]
          rw [hlog]
          apply h.write
          intro fd
          rw [unsent_write env ht hopen.1 hopen.2]
          exact unsent_submitNew hs hi env tr'.fd none _ (hkeeps.1 _ hsent) fd
        · have hnot : (tr'.closing || data.isEmpty) = true := by
            by_contra hnot
            simp_all
          have hlog : SendLog.upd s (.call (.write tr data) env) (s.write env tr data) log = log := by
            simp [SendLog.upd, sent?, ht, hnot]
          rw [hlog, EventLoop.write, ht]
          simp only [hnot, if_true]
          exact h
    | sockSendall fd data k =>
      rw [← hrun.2]
      show NothingLost (s.sockSendall env data k fd,
        SendLog.upd s (.call (.sockSendall fd data k) env) (s.sockSendall env data k fd) log)
      by_cases hempty : data.isEmpty = true
      · have hlog : SendLog.upd s (.call (.sockSendall fd data k) env) (s.sockSendall env data k fd) log =
            log := by
          simp [SendLog.upd, sent?, hempty]
        rw [hlog, EventLoop.sockSendall, if_pos hempty]
        exact h
      · have hsent : s.sent? (.call (.sockSendall fd data k) env) = some (fd, data) := by
          simp [sent?, hempty]
        have hlog : SendLog.upd s (.call (.sockSendall fd data k) env) (s.sockSendall env data k fd) log =
            (log.write fd data).sendall s.futs.length := by
          simp [SendLog.upd, hsent]
        rw [hlog, EventLoop.sockSendall, if_neg hempty]
        apply NothingLost.write h
        intro fd'
        have hregistered : (s.registerFd fd "tcp").IssuedSound :=
          ⟨hi.length, hi.live, hi.drained, hi.created, hi.once, hi.ioFutures, hi.futures⟩
        have hmove : Move s (.consume 0) s (s.registerFd fd "tcp") := .registered fd "tcp"
        exact unsent_submitNew (hs.move hmove) hregistered env fd (some .send) _ (hkeeps.1 _ hsent) fd'
    | _ => exact hquiet rfl rfl (by simp)
  | _ => exact hquiet rfl rfl (by simp)

/-! ## `sock_sendall` returns late enough -/

/-- A send that has completed without an error has had its data taken, and so has one whose
`sock_sendall` has returned. -/
structure ReturnsKept (x : EventLoop K T × SendLog) : Prop where
  posted : ∀ c, c ∈ x.1.core.ring.cq ∨ c ∈ x.1.drained → 0 ≤ c.payload.result →
    ∀ fd data fut, x.1.issued[c.sqe.seq]? = some (fd, .send data fut) →
      x.2.acceptedOf c.sqe.seq = data
  returned : ∀ n fd data fut v, x.1.issued[n]? = some (fd, .send data fut) → fut ∈ x.2.sendalls →
    x.1.futState fut = some (.result v) → x.2.acceptedOf n = data
  known : ∀ fut ∈ x.2.sendalls, fut < x.1.futs.length

/-- Submissions that are not those of a `sock_sendall` known so far do not matter. -/
theorem ReturnsKept.mono {log : SendLog} (h : ReturnsKept (s, log)) (hi : s.IssuedSound)
    {xs : List (Fd × Request FutId)} (hissued : t.issued = s.issued ++ xs)
    (hxs : ∀ x ∈ xs, ∀ fut, x.2.future? = some fut → s.futs.length ≤ fut)
    (hcq : ∀ c, c ∈ t.core.ring.cq ∨ c ∈ t.drained → c ∈ s.core.ring.cq ∨ c ∈ s.drained)
    (hlength : s.futs.length ≤ t.futs.length)
    (hstate : ∀ n fd data fut v, s.issued[n]? = some (fd, .send data fut) → fut ∈ log.sendalls →
      t.futState fut = some (.result v) →
        s.futState fut = some (.result v) ∨ log.acceptedOf n = data) : ReturnsKept (t, log) where
  posted c hc hresult fd data fut hn := by
    have hc := hcq c hc
    have hnames : s.Names c.sqe := by
      rcases hc with hc | hc
      · exact hi.names_cq hc
      · exact hi.drained c hc
    apply h.posted c hc hresult fd data fut
    rwa [hissued, hnames.getElem?] at hn
  returned n fd data fut v hn hfut hv := by
    rw [hissued] at hn
    obtain hn | ⟨-, hmem⟩ := History.append_cases hn
    · rcases hstate n fd data fut v hn hfut hv with hbefore | haccepted
      · exact h.returned n fd data fut v hn hfut hbefore
      · exact haccepted
    · exact absurd (h.known fut hfut) (Nat.not_lt.mpr (hxs _ hmem fut rfl))
  known fut hfut := Nat.lt_of_lt_of_le (h.known fut hfut) hlength

/-- The future of a submission belongs to no other. -/
theorem BelongsTo.eq {fut : FutId} {n m : Nat} {x : Fd × Request FutId} (h : s.BelongsTo fut n)
    (hm : s.issued[m]? = some x) (hx : x.2.future? = some fut) : m = n := by
  apply h m (List.getElem?_eq_some_iff.mp hm).1
  rw [hm]
  exact hx

/-- A result comes from a completion without an error. -/
theorem result_nonneg {core : UringCore FutId (Handle K) T} {c : Cqe} {v : Value}
    (h : (core.process c.entry).2.1.outcome.futState = .result v) : 0 ≤ c.payload.result := by
  have hresult : (core.process c.entry).2.1.result = c.payload.result := by
    rcases UringCore.extract_item c.entry core with ⟨data, hitem⟩
    rw [UringCore.process, hitem, Cqe.entry_result]
  unfold CompletionItem.outcome at h
  rw [hresult] at h
  split at h
  · cases h
  · rename_i hnot
    exact Int.not_lt.mp hnot

/-- The handler of a send's completion resolves the futures stored for sends. -/
theorem settles_send {r : ResultTuple} {state : FutState} (h : r.settles = some (.send, state)) :
    r.opType = "send" ∧ state = plainState r.result := by
  unfold ResultTuple.settles at h
  split at h
  all_goals simp_all

theorem ReturnsKept.move [LE T] [DecidableLE T] {log : SendLog} (h : ReturnsKept (s, log))
    (hs : s.CoreSound) (hi : s.IssuedSound) (hr₀ : s₀.ResultsTied)
    (hkeeps : KeepsSent (s₀, log) a)
    (hcomplete : ∀ i payload select more, a ≠ .complete i payload select more)
    (hmove : Move s₀ a s t) : ReturnsKept (t, log) := by
  cases hmove.issue hs with
  | calm hcalm =>
    have hissued : t.issued = s.issued ++ [] := by rw [hcalm.issued, List.append_nil]
    apply h.mono hi hissued (by simp)
    · rw [hcalm.core.cq, hcalm.drained]
      exact fun c hc => hc
    · exact hcalm.futs.ge
    · intro n fd data fut v hn hfut hv
      rcases hcalm.futState fut with hsame | ⟨hwaits, state, hstate, hsettles⟩
      · exact .inl (hsame.symm.trans hv)
      · cases hsettles with
        | cancelled => cases hstate.symm.trans hv
        | io hr hs₀ hsettles hio =>
          rename_i r kind
          right
          rcases hs₀ with ⟨results, rfl⟩
          rcases hr with ⟨rfl, rest, hresults⟩
          have hkind := ((hi.ioFutures _ _ _ hio).2 _ (List.mem_of_getElem? hn) rfl).2
          cases hkind
          rcases settles_send hsettles with ⟨hop, rfl⟩
          have hnonneg : 0 ≤ r.result := by
            rw [hv, Option.some_inj, plainState] at hstate
            split at hstate
            · assumption
            · cases hstate
          rcases hr₀.handled hresults with ⟨c, hhandled, hdrained, hseen⟩
          have hapart := hkeeps r (by simp [hresults]) hop hnonneg c hhandled
          -- the handler has found the future, so the completion is its own
          have hown : n = c.sqe.seq := (hapart fut hio hfut hwaits).eq hn rfl
          have hresult : c.payload.result = r.result := congrArg (fun x => x.2.2) hseen
          rw [hown] at hn ⊢
          exact h.posted c (.inr hdrained) (hresult ▸ hnonneg) fd data fut hn
  | completed ha => exact absurd ha (hcomplete _ _ _ _)
  | new env fd kind? callbacks req objs hfuture hkind hsend ht =>
    have hone : s.core.IssuesOne fd (req s.futs.length).opType
        (s.core.request env.now env.enter fd (req s.futs.length)).1 :=
      UringCore.request_issuesOne env.now _
    rw [ht, submitNew_eq]
    apply h.mono hi rfl
    · intro x hx fut hfut
      split at hx
      · cases hx
      · rw [List.mem_singleton.mp hx, hfuture, Option.some_inj] at hfut
        exact hfut.le
    · rintro c (hc | hc)
      · rcases hone with hring | ⟨-, -, hcq, -⟩
        · exact .inl (hring ▸ hc)
        · exact .inl (hcq ▸ hc)
      · exact .inr hc
    · simp
    · intro n fd data fut v hn hfut hv
      left
      rw [← hv, futState, futState, List.getElem?_append_left (h.known fut hfut)]
  | close env fd ht =>
    have hone : s.core.IssuesOne fd Request.close.opType
        (s.core.request env.now env.enter fd Request.close).1 :=
      UringCore.request_issuesOne env.now _
    rw [ht]
    apply h.mono hi rfl
    · intro x hx fut hfut
      split at hx
      · cases hx
      · rw [List.mem_singleton.mp hx] at hfut
        cases hfut
    · rintro c (hc | hc)
      · rcases hone with hring | ⟨-, -, hcq, -⟩
        · exact .inl (hring ▸ hc)
        · exact .inl (hcq ▸ hc)
      · exact .inr hc
    · exact Nat.le_refl _
    · exact fun n fd data fut v hn hfut hv => .inl hv
  | drained hticks hmidway hcq ht =>
    rename_i pre c cs
    have hone := drainOne_eq c cs s
    rw [UringCore.processNext_eq] at hone
    rw [ht]
    have hissued : t.issued = s.issued ++ [] := by rw [ht, hone, List.append_nil]
    rw [ht] at hissued
    apply h.mono hi hissued (by simp)
    · rw [hone]
      rintro c' (hc' | hc')
      · left
        rw [hcq]
        exact List.mem_cons_of_mem _ hc'
      · rcases List.mem_append.mp hc' with hc' | hc'
        · exact .inr hc'
        · left
          rw [hcq, List.mem_singleton.mp hc']
          exact .head _
    · rw [drainOne_length]
    · intro n fd data fut v hn hfut hv
      rw [drainOne_futState] at hv
      split at hv
      · rename_i hfound
        right
        have hnonneg : 0 ≤ c.payload.result := result_nonneg (Option.some_inj.mp hv)
        rcases hticks with ⟨clock, enter, rfl, hflushes, -⟩
        have hall := hkeeps hflushes
        rw [hmidway.cq, hcq] at hall
        have htaken : s₀.takes pre c.sqe.fd = some fut := (hmidway.futures _).symm.trans hfound.1
        have hapart : s₀.BelongsTo fut c.sqe.seq :=
          hall.at hnonneg fut htaken hfut (hmidway.waits fut hfound.2)
        have hget : s₀.issued[n]? = some (fd, .send data fut) := hmidway.issued ▸ hn
        have hown : n = c.sqe.seq := hapart.eq hget rfl
        rw [hown] at hn ⊢
        exact h.posted c (.inl (by rw [hcq]; exact .head _)) hnonneg fd data fut hn
      · exact .inl hv

theorem ReturnsKept.complete {log : SendLog} (h : ReturnsKept (s, log)) (hi : s.IssuedSound)
    {i : Nat} {payload : Payload} {select more : Bool} {core : UringCore FutId (Handle K) T}
    (hcomplete : s.core.complete i payload select more = some core)
    (hkeeps : KeepsSent (s, log) (.complete i payload select more)) :
    ReturnsKept ({ s with core }, SendLog.upd s (.complete i payload select more) { s with core } log) := by
  rcases UringCore.complete_spec hcomplete with ⟨c, he, rfl, -, -, hc⟩
  have hupd : SendLog.upd s (.complete i c.payload select more) { s with core } log =
      log.complete s c.sqe c.payload := by
    simp [SendLog.upd, he]
  rw [hupd]
  have hkeeps := hkeeps c.sqe he
  have hsendalls : (log.complete s c.sqe c.payload).sendalls = log.sendalls := by
    unfold SendLog.complete
    split
    · split <;> rfl
    · rfl
  -- what the kernel takes for a submission is all of its data
  have haccepted (n : Nat) : (log.complete s c.sqe c.payload).acceptedOf n = log.acceptedOf n ∨
      (log.complete s c.sqe c.payload).acceptedOf n = s.dataOf n := by
    unfold SendLog.complete
    split
    · rename_i buf hbuf
      split
      · rename_i hresult
        by_cases hn : n = c.sqe.seq
        · subst hn
          right
          simp only [SendLog.accept, Function.update_self]
          exact (hkeeps buf hbuf hresult).2.1
        · simp [SendLog.accept, Function.update_of_ne hn]
      · exact .inl rfl
    · exact .inl rfl
  have hkept {n : Nat} {fd : Fd} {data : Bytes} {fut : FutId}
      (hn : s.issued[n]? = some (fd, .send data fut)) (hbefore : log.acceptedOf n = data) :
      (log.complete s c.sqe c.payload).acceptedOf n = data := by
    rcases haccepted n with heq | heq
    · exact heq.trans hbefore
    · exact heq.trans (dataOf_eq hn)
  refine ⟨?_, ?_, ?_⟩
  · intro c' hc' hresult fd data fut hn
    have hold (hc' : c' ∈ s.core.ring.cq ∨ c' ∈ s.drained) :
        (log.complete s c.sqe c.payload).acceptedOf c'.sqe.seq = data :=
      hkept hn (h.posted c' hc' hresult fd data fut hn)
    rcases hc' with hc' | hc'
    · have hc' : c' ∈ core.ring.cq := hc'
      rw [hc.cq] at hc'
      rcases List.mem_append.mp hc' with hc' | hc'
      · exact hold (.inl hc')
      · -- the completion that is posted now
        rw [List.mem_singleton.mp hc'] at hn hresult ⊢
        have hbuf : ∃ buf, c.sqe.op.sendBuf? = some buf := by
          rcases hi.live c.sqe (UringCore.mem_live.mpr (.inl hc.mem)) with ⟨req, hreq, hop⟩
          rw [show s.issued[c.sqe.seq]? = some (fd, .send data fut) from hn] at hreq
          cases hreq
          cases hsqe : c.sqe.op with
          | send buf len => exact ⟨buf, rfl⟩
          | _ => simp [hsqe, Request.opType, SqeOp.opType] at hop
        rcases hbuf with ⟨buf, hbuf⟩
        unfold SendLog.complete
        simp only [hbuf, hresult, if_true, SendLog.accept, Function.update_self]
        rw [(hkeeps buf hbuf hresult).2.1]
        exact dataOf_eq hn
    · exact hold (.inr hc')
  · intro n fd data fut v hn hfut hv
    exact hkept hn (h.returned n fd data fut v hn (hsendalls ▸ hfut) hv)
  · rw [hsendalls]
    exact h.known

theorem ReturnsKept.step [LE T] [DecidableLE T] {log : SendLog} (h : ReturnsKept (s, log))
    (hs : s.CoreSound) (hi : s.IssuedSound) (hr : s.ResultsTied) (hkeeps : KeepsSends (s, log) a)
    (hstep : s.step a = some t) : ReturnsKept (t, SendLog.upd s a t log) := by
  have hmoved (hcomplete : ∀ i payload select more, a ≠ .complete i payload select more) :
      ReturnsKept (t, log) :=
    ((step_moves hstep).rule
      (I := fun u => u.CoreSound ∧ u.IssuedSound ∧ ReturnsKept (u, log))
      (fun u v hu hmove => ⟨hu.1.move hmove, hu.2.1.move hu.1 hmove,
        hu.2.2.move hu.1 hu.2.1 hr hkeeps.2 hcomplete hmove⟩) ⟨hs, hi, h⟩).2.2
  -- what the program has written is not looked at
  have hwritten (log' : SendLog) (hacceptedOf : log'.acceptedOf = log.acceptedOf)
      (hsendalls : log'.sendalls = log.sendalls) (h : ReturnsKept (t, log)) : ReturnsKept (t, log') := by
    refine ⟨?_, ?_, ?_⟩
    · rw [hacceptedOf]
      exact h.posted
    · rw [hacceptedOf, hsendalls]
      exact h.returned
    · rw [hsendalls]
      exact h.known
  cases a with
  | complete i payload select more =>
    rcases Option.map_eq_some_iff.mp hstep with ⟨core, hcore, rfl⟩
    exact h.complete hi hcore hkeeps.2
  | call c env =>
    have h := hmoved (by simp)
    cases c with
    | write tr data =>
      apply hwritten _ _ _ h
      · simp only [SendLog.upd]
        split <;> simp_all [SendLog.write]
      · simp only [SendLog.upd]
        split <;> simp_all [SendLog.write]
    | sockSendall fd data k =>
      by_cases hempty : data.isEmpty = true
      · have hlog : SendLog.upd s (.call (.sockSendall fd data k) env) t log = log := by
          simp [SendLog.upd, sent?, hempty]
        rwa [hlog]
      · have hlog : SendLog.upd s (.call (.sockSendall fd data k) env) t log =
            (log.write fd data).sendall s.futs.length := by
          simp [SendLog.upd, sent?, hempty]
        have ht : t = ((s.registerFd fd "tcp").submitNew env fd (some .send) (fun _ => [.user k])
            (.send data)).1 := by
          rw [← (step_call.mp hstep).2]
          show s.sockSendall env data k fd = _
          rw [sockSendall, if_neg hempty]
          rfl
        rw [hlog]
        refine ⟨h.posted, ?_, ?_⟩
        · intro n fd' data' fut v hn hfut hv
          rcases List.mem_append.mp hfut with hfut | hfut
          · exact h.returned n fd' data' fut v hn hfut hv
          · rw [List.mem_singleton.mp hfut, ht, submitNew_eq] at hv
            simp [EventLoop.futState, registerFd] at hv
        · intro fut hfut
          rcases List.mem_append.mp hfut with hfut | hfut
          · exact h.known fut hfut
          · rw [List.mem_singleton.mp hfut, ht, submitNew_eq]
            simp [registerFd]
    | _ => exact h
  | _ => exact hmoved (by simp)

end

/-! ## Runs -/

section
variable [LE T] [DecidableLE T]

def sendMachine : Machine (EventLoop K T × SendLog) (Act K T) := machine.ghost SendLog.upd

/-- **Sends.** In a run whose steps all keep the sends, everything that was written has been taken by
the kernel once every send has completed without an error, in order, and no `sock_sendall` has
returned before its data was taken. -/
theorem all_sent {setup : Setup} {bufferSize bufferCount : Nat}
    {core : UringCore FutId (Handle K) T} (hnew : UringCore.new setup bufferSize bufferCount = .ok core)
    {acts : List (Act K T)} (hkeeps : sendMachine.Meets KeepsSends (init core, SendLog.init) acts)
    {x : EventLoop K T × SendLog} (hrun : sendMachine.run (init core, SendLog.init) acts = some x) :
    AllSent x := by
  have hinvariant := Machine.run_invariant (M := sendMachine) (C := KeepsSends)
    (I := fun x : EventLoop K T × SendLog => (x.1.CoreSound ∧ x.1.IssuedSound ∧ x.1.ResultsTied) ∧
      NothingLost x ∧ ReturnsKept x) ?_ ?_ hkeeps hrun
  · refine ⟨fun fd hfd hsending => ?_, hinvariant.2.2.returned⟩
    have hlost := hinvariant.2.1 fd hfd
    rwa [unsent, hsending, List.map_nil, List.flatten_nil, List.append_nil] at hlost
  · rintro ⟨s, log⟩ a ⟨t, log'⟩ ⟨⟨hs, hi, hr⟩, hlost, hreturns⟩ hk hghost
    rcases Machine.ghost_step_mk.mp hghost with ⟨hstep, rfl⟩
    have hmoved := (step_moves hstep).rule
      (I := fun u => u.CoreSound ∧ u.IssuedSound ∧ u.ResultsTied)
      (fun u v hu hmove => ⟨hu.1.move hmove, hu.2.1.move hu.1 hmove, hu.2.2.move hu.1 hmove⟩)
      ⟨hs, hi, hr⟩
    exact ⟨hmoved, hlost.step hs hi hk hstep, hreturns.step hs hi hr hk hstep⟩
  · have hring : core.ring = Ring.new core.ring.entries := by
      rcases UringCore.new_spec hnew with ⟨entries, pool, -, rfl⟩
      rfl
    refine ⟨⟨coreSound_init hnew, IssuedSound.init hnew, resultsTied_init core⟩, ?_, ?_⟩
    · intro fd hfd
      show [] ++ ((core.ring.inFlight.filter _).map _).flatten = []
      rw [hring]
      rfl
    · refine ⟨?_, ?_, ?_⟩
      · intro c hc hresult fd data fut hn
        cases hn
      · intro n fd data fut v hn
        cases hn
      · intro fut hfut
        cases hfut

end

/-- A write, then a `sock_sendall` on another descriptor; both are taken in full. -/
def sendRun : List (Act Unit Nat) :=
  [.call (.newTransport 5) ⟨0, .ok 1⟩, .call (.write 0 [1, 2]) ⟨0, .ok 1⟩,
    .call (.sockSendall 6 [3] ()) ⟨0, .ok 1⟩, .complete 0 (.count 2) false false,
    .complete 0 (.count 1) false false, .startTick 0 (.ok 0), .runHandle,
    .ret (.value true) ⟨0, .ok 1⟩, .runHandle, .ret (.value true) ⟨0, .ok 1⟩, .handleCompletion,
    .handleCompletion]

/-- The kernel takes one byte of three. -/
def shortRun : List (Act Unit Nat) :=
  [.call (.newTransport 5) ⟨0, .ok 1⟩, .call (.write 0 [1, 2, 3]) ⟨0, .ok 1⟩,
    .complete 0 (.count 1) false false, .startTick 0 (.ok 0), .runHandle,
    .ret (.value true) ⟨0, .ok 1⟩, .handleCompletion]

theorem all_sent_full :
    ∃ core x, UringCore.new Setup.plain 16 2 = .ok core ∧
      sendMachine.run (init core, SendLog.init) sendRun = some x ∧ AllSent x :=
  ⟨_, _, rfl, rfl, all_sent (show UringCore.new Setup.plain 16 2 = .ok _ from rfl) (by decide)
    (show sendMachine.run _ sendRun = some _ from rfl)⟩

/-- Nothing is under way any more, and two of the three bytes were never sent. -/
theorem not_all_sent_short :
    ∃ core x, UringCore.new Setup.plain 16 2 = .ok core ∧
      sendMachine.run (init core, SendLog.init) shortRun = some x ∧ x.1.idle = true ∧
      x.2.failed 5 = false ∧ x.1.sending 5 = [] ∧ x.2.accepted 5 = [1] ∧ x.2.written 5 = [1, 2, 3] :=
  ⟨_, _, rfl, rfl, rfl, rfl, rfl, rfl, rfl⟩

end EventLoop

end Uringcore
