import Mathlib.Algebra.BigOperators.Group.List.Basic
import Uringcore.EventLoop.ReceivedOnce

/-!
# The size of the write buffer

`write` adds to `_write_buffer_size`, `_send_completed` takes off again what the kernel reports. It is
called from two places: the callback of the future that `run_tick` finds under the completion's
descriptor, and the handler of the completion, for the transport that `_transports` has there. For a
transport in the table whose own future is found both take off the same bytes, and the clamp at zero
hides it.

`Writes` keeps what was written and by whom, beside the loop. `SizesRight` is the promise, `KeepsSizes`
says which steps keep it: those in which exactly one of the two counts a completion. What is proved
here is where the callbacks are, and that the kernel reports no more than was written.
-/

namespace Uringcore

/-- The number of bytes that a send asks the kernel to take. -/
def SqeOp.sendLen : SqeOp → Nat
  | send _ len => len
  | _ => 0

/-- The operations whose futures are resolved with data. -/
def OpType.givesData (op : OpType) : Bool := op = .recv || op = .recvMulti || op = .recvMsg

/-- What `_on_write_complete` takes off when it finds its future so. -/
def FutState.counted : FutState → Nat
  | result (.data (.int n)) => n.toNat
  | _ => 0

/-- The transport and the future of a send's callback. -/
def Handle.sender? {K : Type} : Handle K → Option (TransportId × FutId)
  | onWriteComplete tr fut => some (tr, fut)
  | _ => none

namespace EventLoop
variable {K T : Type}

structure Writes where
  /-- The number of bytes passed to `write` while the transport was open. -/
  written : TransportId → Nat
  /-- By submission number. -/
  writer : Nat → Option TransportId

namespace Writes

def init : Writes := ⟨fun _ => 0, fun _ => none⟩

def upd (s : EventLoop K T) (a : Act K T) (t : EventLoop K T) (w : Writes) : Writes :=
  match a with
  | .call (.write tr data) _ =>
      if s.Open tr then {
        written := Function.update w.written tr (w.written tr + data.length)
        writer := fun n => if s.issued.length ≤ n ∧ n < t.issued.length then some tr else w.writer n }
      else w
  | _ => w

/-- The bytes that the completion reports to `tr`. -/
def taken (w : Writes) (tr : TransportId) (c : Cqe) : Nat :=
  if w.writer c.sqe.seq = some tr then c.payload.result.toNat else 0

/-- The bytes of `tr` that the operation asks the kernel to take. -/
def asked (w : Writes) (tr : TransportId) (e : Sqe) : Nat :=
  if w.writer e.seq = some tr then e.op.sendLen else 0

end Writes

/-- The bytes that the processed completions have reported to `tr`. -/
def reported (s : EventLoop K T) (w : Writes) (tr : TransportId) : Nat := (s.drained.map (w.taken tr)).sum

/-- The call of `_send_completed` that a step makes. -/
def reduces? (s : EventLoop K T) : Act K T → Option (TransportId × Int)
  | .runHandle => match s.batch with
    | .onWriteComplete tr fut :: _ => match s.futState fut with
      | some (.result (.data (.int n))) => some (tr, n)
      | _ => none
    | _ => none
  | .handleCompletion => match s.results with
    | r :: _ => if r.opType = "send" then (s.transports.lookup r.fd).map (·, r.result) else none
    | [] => none
  | _ => none

/-- Between the iterations of the loop the size is what was written less what was reported, for every
open transport; and the clamp is never needed. -/
structure SizesRight (x : EventLoop K T × Writes) : Prop where
  exact : x.1.idle = true → ∀ tr t, x.1.objs[tr]? = some t → t.closing = false →
    t.writeBufferSize + x.1.reported x.2 tr = x.2.written tr
  unclamped : ∀ a tr n t, x.1.reduces? a = some (tr, n) → x.1.objs[tr]? = some t → t.closing = false →
    n ≤ t.writeBufferSize

/-- The transport whose `_on_write_complete` waits for the future. -/
def sender? (s : EventLoop K T) (fut : FutId) : Option TransportId :=
  match s.futs[fut]? with
  | some ⟨.pending, [.onWriteComplete tr _]⟩ => some tr
  | _ => none

/-- The transports that are told of a completion which a tick from `s` comes to after `pre`: by the
callback of the future found for it, and by its handler. -/
def told (s : EventLoop K T) (pre : List Cqe) (c : Cqe) : List TransportId :=
  (if c.sqe.op.opType.givesData then none else (s.takes pre c.sqe.fd).bind s.sender?).toList ++
    (if c.sqe.op.opType = .send then s.transports.lookup c.sqe.fd else none).toList

/-- Of the open transports, the completion's own is told, and once, and no other. -/
def CountsOnce (x : EventLoop K T × Writes) (pre : List Cqe) (c : Cqe) : Prop :=
  0 < c.payload.result →
    (x.1.told pre c).filter (x.1.Open ·) = (x.2.writer c.sqe.seq).toList.filter (x.1.Open ·)

instance (x : EventLoop K T × Writes) (pre : List Cqe) (c : Cqe) : Decidable (CountsOnce x pre c) :=
  inferInstanceAs (Decidable (_ → _))

/-- The handler of the result is to count it, for an open transport. -/
def Counts (s : EventLoop K T) (r : ResultTuple) : Prop :=
  r.opType = "send" ∧ 0 < r.result ∧ ∃ tr ∈ s.transports.lookup r.fd, s.Open tr

instance (s : EventLoop K T) (r : ResultTuple) : Decidable (s.Counts r) :=
  inferInstanceAs (Decidable (_ ∧ _ ∧ ∃ tr ∈ s.transports.lookup r.fd, _))

/-- No handle of the batch is to count a result for an open transport. -/
def NoneCounting (s : EventLoop K T) : Prop :=
  ∀ h ∈ s.batch, ∀ p ∈ h.sender?, s.Open p.1 → ((s.futState p.2).map FutState.counted).getD 0 = 0

instance (s : EventLoop K T) : Decidable s.NoneCounting :=
  have (h : Handle K) : Decidable (∀ p ∈ h.sender?, s.Open p.1 →
      ((s.futState p.2).map FutState.counted).getD 0 = 0) := Option.decidableForallMem _
  List.decidableBAll _ _

/-- A new transport on `fd` is told of no completion of a send that waits for its handler. -/
def Fresh (s : EventLoop K T) (fd : Fd) : Prop :=
  ∀ r ∈ s.results, r.fd = fd → r.opType = "send" → r.result ≤ 0

instance (s : EventLoop K T) (fd : Fd) : Decidable (s.Fresh fd) :=
  inferInstanceAs (Decidable (∀ r ∈ s.results, _ → _ → _))

/-- The descriptor of the transport that the step makes and enters in `_transports`. -/
def made? (s : EventLoop K T) : Act K T → Option Fd
  | .call (.createConnection fd) _ | .call (.createUnixConnection fd) _ => some fd
  | .ret (.value _) _ => match s.stack with
    | .protocolFactory _ client _ :: _ => some client
    | _ => none
  | _ => none

/-- A tick counts every completion once. No result that a handler is to count is dropped, `run_tick`
does not unwind before a handle that is to count one, and a write does not panic. -/
def KeepsCounts (x : EventLoop K T × Writes) : Act K T → Prop
  | .startTick _ enter => x.1.core.Flushes enter → InTurn (CountsOnce x) [] x.1.core.ring.cq
  | .handleCompletion => ∀ r ∈ x.1.results.head?, r.opType = "close" →
      ∀ r' ∈ x.1.results, r'.fd = r.fd → ¬ x.1.Counts r'
  | .ret r _ => ∀ frame ∈ x.1.stack.head?, (frame.aborts r → ∀ r' ∈ x.1.results, ¬ x.1.Counts r') ∧
      (frame.unwinds r → x.1.NoneCounting)
  | .rearmAccept env => x.1.core.HasRoom ∧ env.enter.isOk ∨ ∀ r' ∈ x.1.results, ¬ x.1.Counts r'
  | .call (.write tr data) env => x.1.Open tr →
      x.1.core.bufferPool.acquirable env.now = [] ∨ data.length ≤ x.1.core.bufferPool.bufferSize
  | .consume _ | .complete .. | .callSoon _ | .runHandle | .call .. => True

/-- `KeepsCounts`, and no result is left to a new transport. -/
def KeepsSizes (x : EventLoop K T × Writes) (a : Act K T) : Prop :=
  (∀ fd ∈ x.1.made? a, x.1.Fresh fd) ∧ KeepsCounts x a

instance (x : EventLoop K T × Writes) : ∀ a : Act K T, Decidable (KeepsCounts x a)
  | .startTick .. => inferInstanceAs (Decidable (_ → _))
  | .handleCompletion =>
      inferInstanceAs (Decidable (∀ r ∈ x.1.results.head?, r.opType = "close" →
        ∀ r' ∈ x.1.results, r'.fd = r.fd → ¬ x.1.Counts r'))
  | .ret r _ =>
      inferInstanceAs (Decidable (∀ frame ∈ x.1.stack.head?,
        (frame.aborts r = true → ∀ r' ∈ x.1.results, ¬ x.1.Counts r') ∧
          (frame.unwinds r = true → x.1.NoneCounting)))
  | .rearmAccept _ => inferInstanceAs (Decidable (_ ∧ _ = true ∨ ∀ r' ∈ x.1.results, ¬ x.1.Counts r'))
  | .call (.write tr _) _ => inferInstanceAs (Decidable (x.1.Open tr → _ = [] ∨ _ ≤ _))
  | .consume _ | .complete .. | .callSoon _ | .runHandle => .isTrue trivial
  | .call (.close _) _ | .call (.abort _) _ | .call (.pauseReading _) _ | .call (.resumeReading _) _
  | .call (.setWriteBufferLimits ..) _ | .call (.createConnection _) _
  | .call (.createUnixConnection _) _ | .call (.newTransport _) _ | .call (.createServer ..) _
  | .call (.closeServer _) _ | .call (.sockRecv ..) _ | .call (.sockSendall ..) _
  | .call (.sockAccept ..) _ | .call (.sockRecvfrom ..) _ | .call (.sockSendto ..) _
  | .call (.sendtoFailed _) _ | .call (.recvMultishot ..) _ | .call (.closeSock _) _
  | .call (.cancel _) _ => .isTrue trivial

instance (x : EventLoop K T × Writes) (a : Act K T) : Decidable (KeepsSizes x a) :=
  have : Decidable (∀ fd ∈ x.1.made? a, x.1.Fresh fd) := Option.decidableForallMem _
  inferInstanceAs (Decidable (_ ∧ _))

/-! ## The callbacks -/

/-- The sends' callbacks are not among them. -/
def NoSender (hs : List (Handle K)) : Prop := ∀ tr fut, .onWriteComplete tr fut ∉ hs

theorem noSender_nil : NoSender ([] : List (Handle K)) := fun _ _ hmem => List.not_mem_nil hmem

theorem noSender_of_user {hs : List (Handle K)} (h : ∀ x ∈ hs, x.isUser = true) : NoSender hs := by
  intro tr fut hmem
  cases h _ hmem

/-- The future is done. -/
def Done (s : EventLoop K T) (fut : FutId) : Prop := ∃ state, s.futState fut = some state ∧ state ≠ .pending

/-- Where `_on_write_complete` waits: in the callbacks of a future of its own that is in no table of
Python's, or among the handles, when that future is done. -/
structure SendersSound (s : EventLoop K T) : Prop where
  callbacks : ∀ (fut : FutId) (f : AsyncFuture K) tr fut', s.futs[fut]? = some f →
    .onWriteComplete tr fut' ∈ f.callbacks → f.callbacks = [.onWriteComplete tr fut] ∧ tr < s.objs.length
  io : ∀ fd kind fut (f : AsyncFuture K), s.ioLookup fd kind = some fut → s.futs[fut]? = some f → NoSender f.callbacks
  queued : ∀ tr fut, .onWriteComplete tr fut ∈ s.queued → tr < s.objs.length ∧ s.Done fut

/-- From `s` to `t` no callback of a send has come or gone. -/
structure SameSenders (s t : EventLoop K T) : Prop where
  futs : ∀ fut : FutId, t.futs[fut]? = s.futs[fut]? ∨
    (∀ f, t.futs[fut]? = some f → NoSender f.callbacks) ∧ ∀ f, s.futs[fut]? = some f → f.state = .pending
  queued : ∀ tr fut, .onWriteComplete tr fut ∈ t.queued → .onWriteComplete tr fut ∈ s.queued
  objs : s.objs.length ≤ t.objs.length
  io : ∀ fd kind fut, t.ioLookup fd kind = some fut → s.ioLookup fd kind = some fut ∨ s.futs.length ≤ fut

section
variable {s t : EventLoop K T}

theorem Done.of_same (h : SameSenders s t) {fut : FutId} (hdone : s.Done fut) : t.Done fut := by
  obtain ⟨state, hstate, hne⟩ := hdone
  rcases h.futs fut with hsame | ⟨-, hpending⟩
  · refine ⟨state, ?_, hne⟩
    rw [futState, hsame]
    exact hstate
  · obtain ⟨f, hf, rfl⟩ := Option.map_eq_some_iff.mp hstate
    exact absurd (hpending f hf) hne

theorem SendersSound.of_same (hs : s.SendersSound) (h : SameSenders s t) : t.SendersSound where
  callbacks fut f tr fut' hf hmem := by
    rcases h.futs fut with hsame | ⟨hnone, -⟩
    · obtain ⟨hcallbacks, hlt⟩ := hs.callbacks fut f tr fut' (hsame ▸ hf) hmem
      exact ⟨hcallbacks, Nat.lt_of_lt_of_le hlt h.objs⟩
    · exact absurd hmem (hnone f hf tr fut')
  io fd kind fut f hio hf := by
    rcases h.futs fut with hsame | ⟨hnone, -⟩
    · rw [hsame] at hf
      rcases h.io fd kind fut hio with hio | hge
      · exact hs.io fd kind fut f hio hf
      · exact absurd (List.getElem?_eq_some_iff.mp hf).1 (Nat.not_lt.mpr hge)
    · exact hnone f hf
  queued tr fut hmem := by
    obtain ⟨hlt, hdone⟩ := hs.queued tr fut (h.queued tr fut hmem)
    exact ⟨Nat.lt_of_lt_of_le hlt h.objs, hdone.of_same h⟩

namespace SameSenders

theorem refl (s : EventLoop K T) : SameSenders s s :=
  ⟨fun _ => .inl rfl, fun _ _ => id, Nat.le_refl _, fun _ _ _ => .inl⟩

theorem modify (tr : TransportId) (f : Transport → Transport) (s : EventLoop K T) :
    SameSenders s (s.modify tr f) :=
  { SameSenders.refl s with objs := (List.length_modify ..).ge }

theorem forceClose (cause : TransportEvent) (exc : Option Exc) (tr : TransportId) (s : EventLoop K T) :
    SameSenders s (s.forceClose cause exc tr) := by
  cases ht : s.objs[tr]? with
  | none =>
    rw [forceClose_none ht]
    exact .refl s
  | some t₀ =>
    cases hclosed : t₀.closed with
    | true =>
      rw [forceClose_closed ht hclosed]
      exact { SameSenders.refl s with }
    | false =>
      rw [forceClose_open ht hclosed]
      have hqueued (tr' : TransportId) (fut : FutId)
          (hmem : .onWriteComplete tr' fut ∈ s.core.scheduler ++ [.callConnectionLost tr exc] ++ s.batch) :
          .onWriteComplete tr' fut ∈ s.queued := by
        rcases List.mem_append.mp hmem with hmem | hmem
        · rcases List.mem_append.mp hmem with hmem | hmem
          · exact List.mem_append_left _ hmem
          · cases List.mem_singleton.mp hmem
        · exact List.mem_append_right _ hmem
      exact { SameSenders.refl s with queued := hqueued, objs := (List.length_modify ..).ge }

end SameSenders

theorem futs_concat (futs : List (AsyncFuture K)) (f : AsyncFuture K) (fut : FutId) :
    (futs ++ [f])[fut]? = if fut = futs.length then some f else futs[fut]? := by
  rcases Nat.lt_trichotomy fut futs.length with hlt | rfl | hgt
  · rw [List.getElem?_append_left hlt, if_neg (Nat.ne_of_lt hlt)]
  · rw [List.getElem?_concat_length, if_pos rfl]
  · rw [if_neg (Nat.ne_of_gt hgt), List.getElem?_eq_none (Nat.le_of_lt hgt),
      List.getElem?_eq_none (by simp; omega)]

/-- A submission for which no send of a transport waits. -/
theorem SameSenders.submitNew (hs : s.CoreSound) (env : Env) (fd : Fd) (kind? : Option IoKind)
    {callbacks : FutId → List (Handle K)} (req : FutId → Request FutId)
    (hnone : NoSender (callbacks s.futs.length)) :
    SameSenders s (s.submitNew env fd kind? callbacks req).1 := by
  have hio (fd' : Fd) (kind' : IoKind) (fut : FutId)
      (hfut : (s.submitNew env fd kind? callbacks req).1.ioLookup fd' kind' = some fut) :
      s.ioLookup fd' kind' = some fut ∨ s.futs.length ≤ fut :=
    (ioLookup_submitNew hfut).imp_right fun hnew => hnew.2.2.ge
  rw [submitNew_eq] at hio ⊢
  refine ⟨fun fut => ?_, fun tr fut hmem => ?_, Nat.le_refl _, hio⟩
  · show (s.futs ++ [_])[fut]? = _ ∨ (∀ f, (s.futs ++ [_])[fut]? = some f → _) ∧ _
    rw [futs_concat]
    by_cases heq : fut = s.futs.length
    · subst heq
      right
      rw [if_pos rfl, List.getElem?_eq_none (Nat.le_refl _)]
      refine ⟨?_, nofun⟩
      rintro f ⟨⟩
      exact hnone
    · exact .inl (if_neg heq)
  · rwa [EventLoop.queued, scheduler_request hs] at hmem

namespace SendersSound

/-- A future that is settled passes its callback on to the handles. -/
theorem settled (hw : s.SendersSound) (fut : FutId) {state : FutState} (hdone : state ≠ .pending) :
    (s.setFuture fut state).SendersSound := by
  rcases settle_cases s.futs fut state with ⟨-, hsettle⟩ | ⟨callbacks, hfut, hsettle⟩
  · rw [setFuture_eq, hsettle, List.append_nil]
    exact hw
  · rw [setFuture_eq, hsettle]
    have hlt := (List.getElem?_eq_some_iff.mp hfut).1
    have hself : (s.futs.set fut ⟨state, []⟩)[fut]? = some ⟨state, []⟩ := List.getElem?_set_self hlt
    have hother {fut' : FutId} (hne : fut ≠ fut') : (s.futs.set fut ⟨state, []⟩)[fut']? = s.futs[fut']? :=
      List.getElem?_set_ne hne
    refine ⟨fun fut' f tr fut'' hf hmem => ?_, fun fd kind fut' f hio hf => ?_, fun tr fut' hmem => ?_⟩
    · by_cases heq : fut = fut'
      · subst heq
        cases hself.symm.trans hf
        cases hmem
      · exact hw.callbacks fut' f tr fut'' ((hother heq).symm.trans hf) hmem
    · by_cases heq : fut = fut'
      · subst heq
        cases hself.symm.trans hf
        exact noSender_nil
      · exact hw.io fd kind fut' f hio ((hother heq).symm.trans hf)
    · by_cases heq : fut = fut'
      · subst heq
        have hown : tr < s.objs.length := by
          rcases List.mem_append.mp hmem with hmem | hmem
          · rcases List.mem_append.mp hmem with hmem | hmem
            · exact (hw.queued tr fut (List.mem_append_left _ hmem)).1
            · exact (hw.callbacks fut _ tr fut hfut hmem).2
          · exact (hw.queued tr fut (List.mem_append_right _ hmem)).1
        refine ⟨hown, state, ?_, hdone⟩
        show ((s.futs.set fut ⟨state, []⟩)[fut]?).map _ = _
        rw [hself]
        rfl
      · have hmem : .onWriteComplete tr fut' ∈ s.queued := by
          rcases List.mem_append.mp hmem with hmem | hmem
          · rcases List.mem_append.mp hmem with hmem | hmem
            · exact List.mem_append_left _ hmem
            · -- the callback of another future carries that future
              have hcallbacks := (hw.callbacks fut _ tr fut' hfut hmem).1
              have hcallbacks : callbacks = [.onWriteComplete tr fut] := hcallbacks
              rw [hcallbacks] at hmem
              cases List.mem_singleton.mp hmem
              exact absurd rfl heq
          · exact List.mem_append_right _ hmem
        obtain ⟨hlt', state', hstate', hne⟩ := hw.queued tr fut' hmem
        refine ⟨hlt', state', ?_, hne⟩
        show ((s.futs.set fut ⟨state, []⟩)[fut']?).map _ = _
        rw [hother heq]
        exact hstate'

/-- A transport submits a send. -/
theorem wrote (hw : s.SendersSound) (hs : s.CoreSound) (hi : s.IssuedSound) (env : Env) (fd : Fd)
    {tr : TransportId} (hlt : tr < s.objs.length) (req : FutId → Request FutId) :
    (s.submitNew env fd none (fun fut => [.onWriteComplete tr fut]) req).1.SendersSound := by
  rw [submitNew_eq]
  have hfuts (fut : FutId) :
      (s.futs ++ [⟨.pending, [.onWriteComplete tr s.futs.length]⟩])[fut]? =
        if fut = s.futs.length then some ⟨.pending, [.onWriteComplete tr s.futs.length]⟩
        else s.futs[fut]? := futs_concat ..
  refine ⟨fun fut f tr' fut' hf hmem => ?_, fun fd' kind fut f hio hf => ?_, fun tr' fut hmem => ?_⟩
  · have hf := (hfuts fut).symm.trans hf
    split at hf
    · rename_i heq
      cases hf
      cases List.mem_singleton.mp hmem
      exact ⟨by rw [heq], hlt⟩
    · exact hw.callbacks fut f tr' fut' hf hmem
  · have hlength := (hi.ioFutures fd' kind fut hio).1
    have hf := (hfuts fut).symm.trans hf
    rw [if_neg (Nat.ne_of_lt hlength)] at hf
    exact hw.io fd' kind fut f hio hf
  · rw [EventLoop.queued, scheduler_request hs] at hmem
    obtain ⟨hlt', state, hstate, hne⟩ := hw.queued tr' fut hmem
    refine ⟨hlt', state, ?_, hne⟩
    obtain ⟨f, hf, -⟩ := Option.map_eq_some_iff.mp hstate
    show ((s.futs ++ [_])[fut]?).map _ = _
    rw [hfuts, if_neg (Nat.ne_of_lt (List.getElem?_eq_some_iff.mp hf).1)]
    exact hstate

/-- A completion settles the future that is found for it. -/
theorem drainOne (hw : s.SendersSound) (c : Cqe) (cs : List Cqe) : (s.drainOne c cs).SendersSound := by
  have hposted : (s.posted c cs).SendersSound := by
    refine hw.of_same { SameSenders.refl s with queued := fun tr fut hmem => ?_ }
    rwa [EventLoop.queued, EventLoop.posted, UringCore.processNext_eq] at hmem
  cases hfut : s.core.futures.lookup c.sqe.fd with
  | none => rwa [drainOne_none hfut]
  | some fut =>
    rw [drainOne_some hfut]
    generalize hstate : (s.core.process c.entry).2.1.outcome.futState = state
    have hdone : state ≠ .pending := by
      rw [← hstate]
      exact outcome_ne_pending _
    exact hposted.settled fut hdone

theorem move [LE T] [DecidableLE T] {s₀ : EventLoop K T} {a : Act K T} (hw : s.SendersSound)
    (hs : s.CoreSound) (hi : s.IssuedSound) (h : Move s₀ a s t) : t.SendersSound := by
  -- most moves touch neither handles nor futures
  have hcore {core : UringCore FutId (Handle K) T} (hscheduler : core.scheduler = s.core.scheduler) :
      ({ s with core } : EventLoop K T).SendersSound := by
    refine hw.of_same { SameSenders.refl s with queued := fun tr fut hmem => ?_ }
    rwa [EventLoop.queued, hscheduler] at hmem
  have hstep {core : UringCore FutId (Handle K) T} (act : UringCore.Act FutId (Handle K) T)
      (hact : act.isTick = false) (h : UringCore.machine.step s.core act = some core) :
      ({ s with core } : EventLoop K T).SendersSound := hcore (UringCore.queues_step hs.sound hact h).1
  have hbatch {batch : List (Handle K)} (hsuffix : batch <:+ s.batch) :
      ({ s with batch } : EventLoop K T).SendersSound := by
    refine hw.of_same { SameSenders.refl s with queued := fun tr fut hmem => ?_ }
    rcases List.mem_append.mp hmem with hmem | hmem
    · exact List.mem_append_left _ hmem
    · exact List.mem_append_right _ (hsuffix.subset hmem)
  cases h with
  | control stack hsuffix hresults hruns => exact (hbatch hsuffix).of_same { SameSenders.refl _ with }
  | unwound hunwinds => exact (hbatch List.nil_suffix).of_same { SameSenders.refl _ with }
  | lost hnext ha =>
    have hrest := hbatch (hnext ▸ List.suffix_cons _ _)
    exact hrest.of_same { SameSenders.refl _ with }
  | forced exc hcause => exact hw.of_same (.forceClose ..)
  | closed hcause ht =>
    exact hw.of_same { SameSenders.refl s with objs := (List.length_modify ..).ge }
  | flagged tr hf => exact hw.of_same (.modify ..)
  | received hruns hnext => exact (hbatch (hnext ▸ List.suffix_cons _ _)).of_same (.modify ..)
  | data hruns ht hopen => exact hw.of_same { SameSenders.refl s with }
  | eof handler h => exact hw.of_same { SameSenders.refl s with }
  | flow frame he haccounts => exact hw.of_same { SameSenders.refl s with }
  | made fd creator =>
    exact hw.of_same { SameSenders.refl s with objs := by simp [makeConnection, callProtocol] }
  | constructed fd => exact hw.of_same { SameSenders.refl s with objs := by simp }
  | armed env ht hidle =>
    rename_i tr t₀
    have hmodify : (s.modify tr (.setRecvPending true)).SendersSound := hw.of_same (.modify ..)
    have hs' : (s.modify tr (.setRecvPending true)).CoreSound := ⟨hs.sound, hs.timers⟩
    refine hmodify.of_same (.submitNew hs' env t₀.fd _ _ fun tr' fut hmem => ?_)
    cases List.mem_singleton.mp hmem
  | disarmed tr exc =>
    have hmodify : (s.modify tr (.setRecvPending false)).SendersSound := hw.of_same (.modify ..)
    exact hmodify.of_same (.forceClose ..)
  | wrote env ha ht hopen hdata =>
    exact hw.wrote hs hi env _ (List.getElem?_eq_some_iff.mp ht).1 _
  | submitted env fd kind? callbacks req hreq hkind hcallbacks hsend =>
    exact hw.of_same (.submitNew hs env fd kind? req (noSender_of_user (hcallbacks _)))
  | closeSubmitted env ht hsock => exact (hcore (scheduler_request hs env _ _)).of_same { SameSenders.refl _ with }
  | cancelled fut huser => exact hw.settled fut (by rintro ⟨⟩)
  | ioSettled hr hs₀ hsettles hfut =>
    rename_i r kind fut state
    have hpop : (s.popIo r.fd kind).SendersSound :=
      hw.of_same { SameSenders.refl s with io := fun _ _ _ h => .inl (popIo_lookup h) }
    exact hpop.settled fut (settles_ne_pending hsettles)
  | ioPopped fd => exact hw.of_same { SameSenders.refl s with io := fun _ _ _ h => .inl (popIo_lookup h) }
  | closeHandled hr hop =>
    rename_i r
    exact (hstep (.unregisterFd r.fd) rfl rfl).of_same { SameSenders.refl _ with }
  | servers servers => exact hw.of_same { SameSenders.refl s with }
  | registered fd socketType => exact hstep (.registerFd fd socketType) rfl rfl
  | unregistered fd => exact hstep (.unregisterFd fd) rfl rfl
  | paused fd => exact hstep (.pauseReading fd) rfl rfl
  | resumed fd => exact hstep (.resumeReading fd) rfl rfl
  | pushed k =>
    refine hw.of_same { SameSenders.refl s with queued := fun tr fut hmem => ?_ }
    have hmem : .onWriteComplete tr fut ∈ s.core.scheduler ++ [.user k] ++ s.batch := hmem
    rcases List.mem_append.mp hmem with hmem | hmem
    · rcases List.mem_append.mp hmem with hmem | hmem
      · exact List.mem_append_left _ hmem
      · cases List.mem_singleton.mp hmem
    · exact List.mem_append_right _ hmem
  | consumed n => exact hstep (.consume n) rfl rfl
  | completed ha h => exact hstep (.complete _ _ _ _) rfl h
  | flushed clock enter =>
    apply hcore
    show (s.core.timers.popExpired clock).2.foldl _ s.core.scheduler = _
    rw [hs.timers]
    rfl
  | drained hticks hmidway hcq => exact hw.drainOne _ _
  | batched hticks hempty =>
    refine hw.of_same { SameSenders.refl s with queued := fun tr fut hmem => ?_ }
    have hmem : .onWriteComplete tr fut ∈ [] ++ s.core.scheduler := hmem
    exact List.mem_append_left _ (by simpa using hmem)

end SendersSound

/-- Without a tick no callback of a send gets into the ready queue. -/
theorem Move.noSender [LE T] [DecidableLE T] {s₀ : EventLoop K T} {a : Act K T} (hw : s.SendersSound)
    (hs : s.CoreSound) (hticks : ¬ s₀.Ticks a) (h : Move s₀ a s t) (hnone : NoSender s.core.scheduler) :
    NoSender t.core.scheduler := by
  have hstep {core : UringCore FutId (Handle K) T} (act : UringCore.Act FutId (Handle K) T)
      (hact : act.isTick = false) (h : UringCore.machine.step s.core act = some core) :
      NoSender core.scheduler := (UringCore.queues_step hs.sound hact h).1 ▸ hnone
  have hpush {x : Handle K} (hx : ∀ tr fut, x ≠ .onWriteComplete tr fut) :
      NoSender (s.core.scheduler ++ [x]) := by
    intro tr fut hmem
    rcases List.mem_append.mp hmem with hmem | hmem
    · exact hnone tr fut hmem
    · exact hx tr fut (List.mem_singleton.mp hmem).symm
  have hsettle {fut : FutId} {state : FutState}
      (hcallbacks : ∀ f, s.futs[fut]? = some f → NoSender f.callbacks) :
      NoSender (s.core.scheduler ++ (settle s.futs fut state).2) := by
    intro tr fut' hmem
    rcases List.mem_append.mp hmem with hmem | hmem
    · exact hnone tr fut' hmem
    · rcases settle_cases s.futs fut state with ⟨-, hsettle⟩ | ⟨callbacks, hfut, hsettle⟩
      · rw [hsettle] at hmem
        cases hmem
      · rw [hsettle] at hmem
        exact hcallbacks _ hfut tr fut' hmem
  have hforced (cause : TransportEvent) (exc : Option Exc) (tr : TransportId) (u : EventLoop K T)
      (hu : u.core = s.core) : NoSender (u.forceClose cause exc tr).core.scheduler := by
    unfold forceClose
    split
    · exact hu ▸ hnone
    · split
      · exact hu ▸ hnone
      · show NoSender (u.core.scheduler ++ _)
        rw [hu]
        exact hpush (by simp)
  cases h with
  | forced exc hcause => exact hforced _ _ _ s rfl
  | disarmed tr exc => exact hforced _ _ _ (s.modify tr (.setRecvPending false)) rfl
  | armed env ht hidle =>
    rw [submitNew_eq]
    exact (scheduler_request hs env _ _) ▸ hnone
  | wrote env ha ht hopen hdata =>
    rw [submitNew_eq]
    exact (scheduler_request hs env _ _) ▸ hnone
  | submitted env fd kind? callbacks req hreq hkind hcallbacks hsend =>
    rw [submitNew_eq]
    exact (scheduler_request hs env _ _) ▸ hnone
  | closeSubmitted env ht hsock => exact (scheduler_request hs env _ _) ▸ hnone
  | cancelled fut huser =>
    rw [setFuture_eq]
    apply hsettle
    intro f hf tr fut' hmem
    obtain ⟨f', hf', hany⟩ := huser
    cases hf.symm.trans hf'
    -- the program awaits it, so it is no send's
    rw [(hw.callbacks fut f tr fut' hf hmem).1] at hany
    cases hany
  | ioSettled hr hs₀ hsettles hfut =>
    rename_i r kind fut state
    rw [setFuture_eq]
    exact hsettle fun f hf => hw.io r.fd kind fut f hfut hf
  | closeHandled hr hop =>
    rename_i r
    exact hstep (.unregisterFd r.fd) rfl rfl
  | registered fd socketType => exact hstep (.registerFd fd socketType) rfl rfl
  | unregistered fd => exact hstep (.unregisterFd fd) rfl rfl
  | paused fd => exact hstep (.pauseReading fd) rfl rfl
  | resumed fd => exact hstep (.resumeReading fd) rfl rfl
  | pushed k => exact hpush (by simp)
  | completed ha h => exact hstep (.complete _ _ _ _) rfl h
  | flushed clock enter =>
    show NoSender ((s.core.timers.popExpired clock).2.foldl _ s.core.scheduler)
    rw [hs.timers]
    exact hnone
  | drained hticks' hmidway hcq => exact absurd hticks' hticks
  | batched hticks' hempty => exact noSender_nil
  | _ => exact hnone

/-- No future is stored under two descriptors. -/
def FuturesOnce (s : EventLoop K T) : Prop :=
  ∀ (fd fd' : Fd) (fut : FutId), s.core.futures.lookup fd = some fut →
    s.core.futures.lookup fd' = some fut → fd = fd'

theorem FuturesOnce.request (hf : s.FuturesOnce) (hs : s.CoreSound) (hi : s.IssuedSound) (now : Nat)
    (enter : Except String Nat) (fd : Fd) (req : Request FutId)
    (hnew : ∀ fut, req.future? = some fut → s.futs.length ≤ fut)
    (hcore : t.core = (s.core.request now enter fd req).1) : t.FuturesOnce := by
  have hspec : s.core.Submission enter fd req _ := UringCore.request_spec hs.sound now req
  rw [← hcore] at hspec
  -- a new future is not in the map yet
  have hold {fd' : Fd} {fut : FutId} (hfut : s.core.futures.lookup fd' = some fut) :
      req.future? ≠ some fut := fun hreq =>
    absurd (hi.futures fd' fut hfut).1 (Nat.not_lt.mpr (hnew fut hreq))
  intro fd₁ fd₂ fut h₁ h₂
  rcases hspec.futures fd₁ fut h₁ with h₁ | ⟨rfl, hreq⟩ <;>
    rcases hspec.futures fd₂ fut h₂ with h₂ | ⟨rfl, hreq'⟩
  · exact hf fd₁ fd₂ fut h₁ h₂
  · exact absurd hreq' (hold h₁)
  · exact absurd hreq (hold h₂)
  · rfl

theorem FuturesOnce.move [LE T] [DecidableLE T] {s₀ : EventLoop K T} {a : Act K T} (hf : s.FuturesOnce)
    (hs : s.CoreSound) (hi : s.IssuedSound) (h : Move s₀ a s t) : t.FuturesOnce := by
  cases h.issue hs with
  | calm hcalm =>
    intro fd fd' fut
    rw [hcalm.core.futures]
    exact hf fd fd' fut
  | completed ha hcomplete ht =>
    obtain ⟨c, -, -, -, -, hc⟩ := UringCore.complete_spec hcomplete
    intro fd fd' fut
    rw [ht, hc.futures]
    exact hf fd fd' fut
  | new env fd kind? callbacks req objs hfuture hkind hsend ht =>
    apply hf.request hs hi env.now env.enter fd (req s.futs.length)
    · intro fut hreq
      rw [hfuture, Option.some_inj] at hreq
      exact hreq.le
    · rw [ht, submitNew_eq]
  | close env fd ht =>
    apply hf.request hs hi env.now env.enter fd .close
    · rintro fut ⟨⟩
    · rw [ht]
      rfl
  | drained hticks hmidway hcq ht =>
    rename_i pre c cs
    have hfutures : t.core.futures = s.core.futures.erase c.sqe.fd := by
      rw [ht, drainOne_eq, UringCore.processNext_eq]
    intro fd fd' fut h h'
    rw [hfutures] at h h'
    exact hf fd fd' fut (AList.lookup_erase_eq_some.mp h).2 (AList.lookup_erase_eq_some.mp h').2

end

end EventLoop

end Uringcore
