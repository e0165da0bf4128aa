import Uringcore.EventLoop.WriteBuffer

/-!
# Every send is counted once

What a completion reports to a transport is counted by a handle of the tick's batch or by its handler.
`due` is what those will still take off the size of the transport: a tick adds to it what its
completions report, each callback and each handler takes its part, and `SizesKept` is the balance that
every step leaves. The kernel reports no more than was written, so the size never falls short of it.
-/

namespace Uringcore

namespace EventLoop
variable {K T : Type}

/-! ## What the kernel reports -/

/-- `_transports` knows no transport that does not exist. -/
def TableSound (s : EventLoop K T) : Prop :=
  ∀ fd tr, s.transports.lookup fd = some tr → tr < s.objs.length

/-- What is recorded is about transports and submissions that exist. -/
structure WritesKnown (s : EventLoop K T) (w : Writes) : Prop where
  writer : ∀ n tr, w.writer n = some tr →
    tr < s.objs.length ∧ ∃ fd data fut, s.issued[n]? = some (fd, .send data fut)
  unwritten : ∀ tr, s.objs.length ≤ tr → w.written tr = 0

/-- The bytes that were reported, that are about to be and that the kernel may still report. -/
def outstanding (s : EventLoop K T) (w : Writes) (tr : TransportId) : Nat :=
  s.reported w tr + ((s.core.ring.cq.map (w.taken tr)).sum + (s.core.ring.inFlight.map (w.asked tr)).sum)

/-- No more was written than may be reported. -/
def Bounded (s : EventLoop K T) (w : Writes) : Prop := ∀ tr, s.outstanding w tr ≤ w.written tr

section
variable {s t : EventLoop K T} {w : Writes}

theorem WritesKnown.mono (h : s.WritesKnown w) (hobjs : s.objs.length ≤ t.objs.length)
    (hissued : s.issued <+: t.issued) : t.WritesKnown w where
  writer n tr hn := by
    obtain ⟨hlt, fd, data, fut, hsend⟩ := h.writer n tr hn
    exact ⟨Nat.lt_of_lt_of_le hlt hobjs, fd, data, fut, History.getElem?_mono hsend hissued⟩
  unwritten tr hle := h.unwritten tr (Nat.le_trans hobjs hle)

/-- An operation of a transport is a send. -/
theorem WritesKnown.send (h : s.WritesKnown w) {e : Sqe} (hnames : s.Names e) {tr : TransportId}
    (hwriter : w.writer e.seq = some tr) : e.op.opType = .send := by
  obtain ⟨-, fd, data, fut, hsend⟩ := h.writer e.seq tr hwriter
  obtain ⟨req, hreq, hop⟩ := hnames
  cases hsend.symm.trans hreq
  exact hop.symm

/-- The kernel takes at most what a send asks for, and completes it once. -/
theorem taken_le_asked {op : SqeOp} {bufLen : Nat} {payload : Payload} {select more : Bool}
    (hop : op.opType = .send) (h : op.admits bufLen payload select more) :
    payload.result.toNat ≤ op.sendLen ∧ more = false := by
  cases op <;> cases hop
  cases payload <;> simp_all [SqeOp.admits, Payload.result, SqeOp.sendLen]

theorem WritesKnown.outstanding_complete (h : s.WritesKnown w) (hi : s.IssuedSound) {c : Cqe}
    {core : UringCore FutId (Handle K) T} (hc : s.core.Completed c core) (tr : TransportId) :
    ({ s with core } : EventLoop K T).outstanding w tr ≤ s.outstanding w tr := by
  have hnames : s.Names c.sqe := hi.live c.sqe (UringCore.mem_live.mpr (.inl hc.mem))
  have hcq : (core.ring.cq.map (w.taken tr)).sum =
      (s.core.ring.cq.map (w.taken tr)).sum + w.taken tr c := by
    rw [hc.cq, List.map_append, List.sum_append]
    rfl
  have hflight : (core.ring.inFlight.map (w.asked tr)).sum + w.taken tr c ≤
      (s.core.ring.inFlight.map (w.asked tr)).sum := by
    have hin := hc.inFlight
    by_cases hown : w.writer c.sqe.seq = some tr
    · obtain ⟨hle, hmore⟩ := taken_le_asked (h.send hnames hown) hc.admits
      rw [hmore] at hin
      have hsum := (hin.2.map (w.asked tr)).sum_eq
      rw [List.map_cons, List.sum_cons] at hsum
      have hself : w.taken tr c ≤ w.asked tr c.sqe := by
        rw [Writes.taken, Writes.asked, if_pos hown, if_pos hown]
        exact hle
      omega
    · have hnone : w.taken tr c = 0 := if_neg hown
      rw [hnone, Nat.add_zero]
      split at hin
      · rw [hin]
      · have hsum := (hin.2.map (w.asked tr)).sum_eq
        rw [List.map_cons, List.sum_cons] at hsum
        omega
  show s.reported w tr +
      ((core.ring.cq.map (w.taken tr)).sum + (core.ring.inFlight.map (w.asked tr)).sum) ≤
    s.reported w tr +
      ((s.core.ring.cq.map (w.taken tr)).sum + (s.core.ring.inFlight.map (w.asked tr)).sum)
  omega

/-- A submission is nobody's until its step has ended. -/
theorem WritesKnown.outstanding_request (h : s.WritesKnown w) (hs : s.CoreSound) (hi : s.IssuedSound)
    (now : Nat) (enter : Except String Nat) (fd : Fd) (req : Request FutId)
    (hcore : t.core = (s.core.request now enter fd req).1) (hdrained : t.drained = s.drained)
    (tr : TransportId) : t.outstanding w tr = s.outstanding w tr := by
  have hspec : s.core.Submission enter fd req _ := UringCore.request_spec hs.sound now req
  unfold outstanding reported
  rw [hdrained, hcore]
  rcases hspec.ring_cases with hring | ⟨op, e, hissued⟩
  · rw [hring]
  · have hnone : w.asked tr e = 0 := by
      apply if_neg
      intro hwriter
      obtain ⟨-, fd', data, fut, hsend⟩ := h.writer e.seq tr hwriter
      have hlt := (List.getElem?_eq_some_iff.mp hsend).1
      rw [hissued.seq_eq, hi.length] at hlt
      exact Nat.lt_irrefl _ hlt
    rw [hissued.cq, hissued.inFlight, List.map_append, List.sum_append, List.map_singleton,
      List.sum_singleton, hnone, Nat.add_zero]

section
variable [LE T] [DecidableLE T] {s₀ : EventLoop K T} {a : Act K T}

theorem Move.outstanding (h : s.WritesKnown w) (hs : s.CoreSound) (hi : s.IssuedSound)
    (hmove : Move s₀ a s t) (tr : TransportId) : t.outstanding w tr ≤ s.outstanding w tr := by
  cases hmove.issue hs with
  | calm hcalm =>
    unfold EventLoop.outstanding reported
    rw [hcalm.drained, hcalm.core.cq, hcalm.core.inFlight]
  | completed ha hcomplete ht =>
    obtain ⟨c, -, -, -, -, hc⟩ := UringCore.complete_spec hcomplete
    rw [ht]
    exact h.outstanding_complete hi hc tr
  | new env fd kind? callbacks req objs hfuture hkind hsend ht =>
    apply Nat.le_of_eq
    apply h.outstanding_request hs hi env.now env.enter fd (req s.futs.length)
    · rw [ht, submitNew_eq]
    · rw [ht, submitNew_eq]
  | close env fd ht =>
    apply Nat.le_of_eq
    apply h.outstanding_request hs hi env.now env.enter fd .close
    · rw [ht]
      rfl
    · rw [ht]
      rfl
  | drained hticks hmidway hcq ht =>
    rename_i pre c cs
    apply Nat.le_of_eq
    have hdrained : t.drained = s.drained ++ [c] := by rw [ht, drainOne_eq]
    have hcq' : t.core.ring.cq = cs := by rw [ht, drainOne_eq, UringCore.processNext_eq]
    have hin : t.core.ring.inFlight = s.core.ring.inFlight := by
      rw [ht, drainOne_eq]
      exact UringCore.processNext_inFlight ..
    unfold EventLoop.outstanding reported
    rw [hdrained, hcq', hin, hcq, List.map_append, List.sum_append, List.map_singleton,
      List.sum_singleton, List.map_cons, List.sum_cons]
    omega

end

end

/-! ## What is still to be counted -/

/-- What a waiting handle will take off the size of `tr`. -/
def credit (s : EventLoop K T) (tr : TransportId) : Handle K → Nat
  | .onWriteComplete tr' fut =>
      if tr' = tr then ((s.futState fut).map FutState.counted).getD 0 else 0
  | _ => 0

/-- What the handler of a waiting result will take off the size of `tr`. -/
def owed (transports : FdMap TransportId) (tr : TransportId) (r : ResultTuple) : Nat :=
  if r.opType = "send" ∧ transports.lookup r.fd = some tr then r.result.toNat else 0

/-- What the handles `hs` and the handlers of the waiting results will take off the size of `tr`. -/
def due (s : EventLoop K T) (hs : List (Handle K)) (tr : TransportId) : Nat :=
  (hs.map (s.credit tr)).sum + (s.results.map (owed s.transports tr)).sum

section
variable {s t : EventLoop K T} {w : Writes}

theorem credit_noSender {hs : List (Handle K)} (h : NoSender hs) (tr : TransportId) :
    (hs.map (s.credit tr)).sum = 0 := by
  apply List.sum_eq_zero
  intro n hn
  obtain ⟨x, hx, rfl⟩ := List.mem_map.mp hn
  cases x with
  | onWriteComplete tr' fut => exact absurd hx (h tr' fut)
  | _ => rfl

/-- The future of a handle that waits is done, and stays as it is. -/
theorem credit_congr {hs : List (Handle K)} (tr : TransportId)
    (h : ∀ tr' fut, .onWriteComplete tr' fut ∈ hs → t.futState fut = s.futState fut) :
    hs.map (t.credit tr) = hs.map (s.credit tr) := by
  apply List.map_congr_left
  intro x hx
  cases x with
  | onWriteComplete tr' fut =>
    unfold credit
    dsimp only
    rw [h tr' fut hx]
  | _ => rfl

theorem asStr_send {op : OpType} : op.asStr = "send" ↔ op = .send := by
  cases op <;> simp [OpType.asStr]

theorem extractRecv_not_int (c : CompletionEntry) (core : UringCore FutId (Handle K) T) (n : Int) :
    (core.extractRecv c).2 ≠ some (.int n) := by
  unfold UringCore.extractRecv
  split
  · rintro ⟨⟩
  · dsimp only
    split
    · split <;> rintro ⟨⟩
    · rintro ⟨⟩

theorem extract_not_int (core : UringCore FutId (Handle K) T) {c : CompletionEntry}
    (hop : c.opType.givesData = true) (n : Int) : (core.extract c).2.dataBytes ≠ some (.int n) := by
  unfold UringCore.extract
  cases hkind : c.opType with
  | recvMulti =>
    dsimp only
    split
    · rintro ⟨⟩
    · split <;> rintro ⟨⟩
  | recv | recvMsg => exact extractRecv_not_int c core n
  | _ =>
    rw [hkind] at hop
    cases hop

/-- The data of a receive is no number. -/
theorem dataBytes_recv (core : UringCore FutId (Handle K) T) {c : Cqe}
    (hop : c.sqe.op.opType.givesData = true) (n : Int) :
    (core.process c.entry).2.1.dataBytes ≠ some (.int n) := by
  rw [← Cqe.entry_opType] at hop
  exact extract_not_int core hop n

/-- What a completion's outcome counts for. -/
theorem counted_outcome (core : UringCore FutId (Handle K) T) (c : Cqe) :
    (core.process c.entry).2.1.outcome.futState.counted =
      if c.sqe.op.opType.givesData then 0 else c.payload.result.toNat := by
  obtain ⟨data, hitem⟩ := UringCore.extract_item c.entry core
  have hitem : (core.process c.entry).2.1 = ⟨c.sqe.fd, c.payload.result, c.sqe.op.opType, data⟩ := by
    rw [UringCore.process, hitem, Cqe.entry_fd, Cqe.entry_opType, Cqe.entry_result]
  have hrecv : (core.process c.entry).2.1.isRecv = c.sqe.op.opType.givesData := by
    rw [hitem]
    rfl
  have hnot := fun hop => dataBytes_recv core (c := c) hop
  unfold CompletionItem.outcome
  rw [hrecv]
  rw [hitem] at hnot ⊢
  dsimp only at hnot ⊢
  split
  · rename_i hneg
    rw [Int.toNat_of_nonpos (Int.le_of_lt hneg), ite_self]
    rfl
  · split
    · rename_i hgives
      cases data with
      | none => rfl
      | some d =>
        cases d with
        | int n => exact absurd rfl (hnot hgives n)
        | _ => rfl
    · rfl

/-- What a completion adds to the results. -/
theorem owed_tuple (core : UringCore FutId (Handle K) T) (transports : FdMap TransportId) (c : Cqe)
    (tr : TransportId) : owed transports tr (core.process c.entry).2.1.tuple =
      c.payload.result.toNat * List.count tr
        (if c.sqe.op.opType = .send then transports.lookup c.sqe.fd else none).toList := by
  obtain ⟨data, hitem⟩ := UringCore.extract_item c.entry core
  have htuple : (core.process c.entry).2.1.tuple =
      ⟨c.sqe.fd, c.sqe.op.opType.asStr, c.payload.result, data⟩ := by
    rw [UringCore.process, hitem, CompletionItem.tuple, Cqe.entry_fd, Cqe.entry_opType, Cqe.entry_result]
  rw [htuple, owed]
  by_cases hop : c.sqe.op.opType = .send
  · rw [if_pos hop]
    cases hlookup : transports.lookup c.sqe.fd with
    | none => simp
    | some tr' =>
      by_cases htr : tr' = tr
      · subst htr
        simp [asStr_send.mpr hop]
      · simp [htr]
  · have hstr : c.sqe.op.opType.asStr ≠ "send" := fun h => hop (asStr_send.mp h)
    simp [hop, hstr]

end

/-! ## A tick -/

section
variable {s₀ s t : EventLoop K T} {w : Writes} {pre cs : List Cqe} {c : Cqe}

/-- The future that the tick has come to is as it was when the tick began. -/
theorem Midway.found (hmidway : s₀.Midway pre s) (honce : s₀.FuturesOnce) {fut : FutId}
    (hfut : s.core.futures.lookup c.sqe.fd = some fut) :
    s₀.takes pre c.sqe.fd = some fut ∧ s.futs[fut]? = s₀.futs[fut]? := by
  have htakes : s₀.takes pre c.sqe.fd = some fut := (hmidway.futures _).symm.trans hfut
  refine ⟨htakes, hmidway.futs fut fun c' hc' hfound => ?_⟩
  unfold takes at htakes
  split at htakes
  · cases htakes
  · rename_i hfresh
    apply hfresh
    rw [← honce c'.sqe.fd c.sqe.fd fut hfound htakes]
    exact List.mem_map_of_mem hc'

/-- The handles that settling a future pushes. -/
theorem credit_settled (hw : s.SendersSound) {fut : FutId} {callbacks : List (Handle K)}
    {state : FutState} (hfut : s.futs[fut]? = some ⟨.pending, callbacks⟩)
    (hstate : t.futState fut = some state) (tr : TransportId) :
    (callbacks.map (t.credit tr)).sum = state.counted * (s.sender? fut).toList.count tr := by
  by_cases hsender : ∃ tr' fut', .onWriteComplete tr' fut' ∈ callbacks
  · obtain ⟨tr', fut', hmem⟩ := hsender
    have hcallbacks : callbacks = [.onWriteComplete tr' fut] := (hw.callbacks fut _ tr' fut' hfut hmem).1
    rw [hcallbacks] at hfut ⊢
    have hown : s.sender? fut = some tr' := by rw [sender?, hfut]
    rw [List.map_singleton, List.sum_singleton, hown, credit, hstate]
    by_cases htr : tr' = tr <;> simp [htr]
  · have hnone : NoSender callbacks := fun tr' fut' hmem => hsender ⟨tr', fut', hmem⟩
    have hown : s.sender? fut = none := by
      unfold sender?
      split
      · rename_i tr' fut' heq
        cases hfut.symm.trans heq
        exact absurd List.mem_cons_self (hnone tr' fut')
      · rfl
    rw [credit_noSender hnone, hown]
    rfl

/-- A completion adds what it reports to the transports that are told of it. -/
theorem due_drainOne (hmidway : s₀.Midway pre s) (honce : s₀.FuturesOnce) (hw : s.SendersSound)
    (tr : TransportId) : (s.drainOne c cs).due (s.drainOne c cs).core.scheduler tr =
      s.due s.core.scheduler tr + c.payload.result.toNat * (s₀.told pre c).count tr := by
  have hone := drainOne_eq c cs s
  have hresults : (s.drainOne c cs).results = s.results ++ [(s.core.process c.entry).2.1.tuple] := by
    rw [hone]
  have htransports : (s.drainOne c cs).transports = s₀.transports := by
    rw [hone]
    exact hmidway.transports
  have hhandlers : ((s.drainOne c cs).results.map (owed (s.drainOne c cs).transports tr)).sum =
      (s.results.map (owed s.transports tr)).sum + c.payload.result.toNat * List.count tr
        (if c.sqe.op.opType = .send then s₀.transports.lookup c.sqe.fd else none).toList := by
    rw [hresults, htransports, hmidway.transports, List.map_append, List.sum_append,
      List.map_singleton, List.sum_singleton, owed_tuple]
  -- the handles that wait already are not affected
  have hold : (s.core.scheduler.map ((s.drainOne c cs).credit tr)) = s.core.scheduler.map (s.credit tr) := by
    apply credit_congr
    intro tr' fut hmem
    obtain ⟨-, state, hstate, hne⟩ := hw.queued tr' fut (List.mem_append_left _ hmem)
    rw [drainOne_futState, if_neg]
    rintro ⟨-, hwaits⟩
    have hpending : s.futState fut = some .pending := hwaits
    cases hstate.symm.trans hpending
    exact hne rfl
  have hhandles : ((s.drainOne c cs).core.scheduler.map ((s.drainOne c cs).credit tr)).sum =
      (s.core.scheduler.map (s.credit tr)).sum + c.payload.result.toNat * List.count tr
        (if c.sqe.op.opType.givesData then none
          else (s₀.takes pre c.sqe.fd).bind s₀.sender?).toList := by
    cases hfut : s.core.futures.lookup c.sqe.fd with
    | none =>
      have htakes : s₀.takes pre c.sqe.fd = none := (hmidway.futures _).symm.trans hfut
      have hscheduler : (s.drainOne c cs).core.scheduler = s.core.scheduler := by
        rw [drainOne_none hfut, posted, UringCore.processNext_eq]
      rw [hscheduler, hold, htakes]
      simp
    | some fut =>
      obtain ⟨htakes, hsame⟩ := hmidway.found honce hfut
      have hsender : s₀.sender? fut = s.sender? fut := by rw [sender?, ← hsame, sender?]
      have hcore : (s.posted c cs).core.scheduler = s.core.scheduler := by
        rw [posted, UringCore.processNext_eq]
      rw [htakes, Option.bind_some, hsender]
      rcases settle_cases s.futs fut (s.core.process c.entry).2.1.outcome.futState with
        ⟨hnot, hsettle⟩ | ⟨callbacks, hpending, hsettle⟩
      · -- nobody waits for a future that is done
        have hscheduler : (s.drainOne c cs).core.scheduler = s.core.scheduler := by
          rw [drainOne_some hfut, setFuture_eq, posted, hsettle, UringCore.processNext_eq]
          exact List.append_nil _
        have hnone : s.sender? fut = none := by
          unfold sender?
          split
          · rename_i heq
            rw [heq] at hnot
            exact absurd rfl hnot
          · rfl
        rw [hscheduler, hold, hnone]
        simp
      · have hscheduler : (s.drainOne c cs).core.scheduler = s.core.scheduler ++ callbacks := by
          rw [drainOne_some hfut, setFuture_eq, posted, hsettle, UringCore.processNext_eq]
        have hstate : (s.drainOne c cs).futState fut =
            some (s.core.process c.entry).2.1.outcome.futState := by
          rw [drainOne_futState, if_pos ⟨hfut, by rw [Waits, hpending]; rfl⟩]
        rw [hscheduler, List.map_append, List.sum_append, hold, credit_settled hw hpending hstate,
          counted_outcome]
        split
        · simp
        · rfl
  unfold due told
  rw [hhandlers, hhandles, List.count_append, Nat.mul_add]
  omega

/-- A completion that is counted once adds what it reports to its own transport. -/
theorem CountsOnce.count (h : CountsOnce (s₀, w) pre c) {tr : TransportId} (hopen : s₀.Open tr) :
    c.payload.result.toNat * (s₀.told pre c).count tr = w.taken tr c := by
  by_cases hpos : 0 < c.payload.result
  · have hfilter (l : List TransportId) : (l.filter (s₀.Open ·)).count tr = l.count tr :=
      List.count_filter (by simpa using hopen)
    have htold := congrArg (List.count tr) (h hpos)
    simp only [hfilter] at htold
    rw [htold, Writes.taken]
    cases hwriter : w.writer c.sqe.seq with
    | none => simp
    | some tr' => by_cases htr : tr' = tr <;> simp [htr]
  · rw [Int.toNat_of_nonpos (Int.not_lt.mp hpos), Nat.zero_mul, Writes.taken, ite_eq_right_iff.mpr]
    intro _
    exact Int.toNat_of_nonpos (Int.not_lt.mp hpos)

theorem due_drainAll {cqes : List Cqe} (hmidway : s₀.Midway pre s) (honce : s₀.FuturesOnce)
    (hw : s.SendersSound) (hcq : s.core.ring.cq = cqes) {tr : TransportId} (hopen : s₀.Open tr)
    (hcounts : InTurn (CountsOnce (s₀, w)) pre cqes) :
    (drainAll cqes s).due (drainAll cqes s).core.scheduler tr =
      s.due s.core.scheduler tr + (cqes.map (w.taken tr)).sum := by
  induction cqes generalizing s pre with
  | nil => rfl
  | cons c cs ih =>
    obtain ⟨hone, hrest⟩ := hcounts
    have hcs : (s.drainOne c cs).core.ring.cq = cs := by rw [drainOne_eq, UringCore.processNext_eq]
    have hnext := ih (hmidway.next hcq) (hw.drainOne c cs) hcs hrest
    rw [drainAll, hnext, due_drainOne hmidway honce hw, hone.count hopen, List.map_cons, List.sum_cons]
    omega

/-! ## The balance -/

/-- The size of an open transport is what was written less what was reported, and what is still to be
counted. -/
def Even (s : EventLoop K T) (w : Writes) : Prop :=
  ∀ tr t, s.objs[tr]? = some t → t.closing = false →
    t.writeBufferSize + s.reported w tr = w.written tr + s.due s.batch tr

theorem reported_le (h : s.Bounded w) (tr : TransportId) : s.reported w tr ≤ w.written tr :=
  Nat.le_trans (Nat.le_add_right _ _) (h tr)

/-- Nothing is due to a transport that does not exist. -/
theorem due_unknown (hw : s.SendersSound) (htable : s.TableSound) {tr : TransportId}
    (hle : s.objs.length ≤ tr) : s.due s.batch tr = 0 := by
  have hhandles : (s.batch.map (s.credit tr)).sum = 0 := by
    apply List.sum_eq_zero
    intro n hn
    obtain ⟨x, hx, rfl⟩ := List.mem_map.mp hn
    cases x with
    | onWriteComplete tr' fut =>
      have hlt := (hw.queued tr' fut (List.mem_append_right _ hx)).1
      exact if_neg (Nat.ne_of_lt (Nat.lt_of_lt_of_le hlt hle))
    | _ => rfl
  have hresults : (s.results.map (owed s.transports tr)).sum = 0 := by
    apply List.sum_eq_zero
    intro n hn
    obtain ⟨r, -, rfl⟩ := List.mem_map.mp hn
    exact if_neg fun h => absurd (htable _ _ h.2) (Nat.not_lt.mpr hle)
  rw [due, hhandles, hresults]

theorem reported_unknown (h : s.WritesKnown w) (hbounded : s.Bounded w) {tr : TransportId}
    (hle : s.objs.length ≤ tr) : s.reported w tr = 0 := by
  have hle := h.unwritten tr hle ▸ reported_le hbounded tr
  exact Nat.le_zero.mp hle

/-- From `s` to `t` the size of an open transport has become `δ` smaller; a new transport has an empty
buffer. -/
structure Lowered (δ : TransportId → Nat) (s t : EventLoop K T) : Prop where
  length : s.objs.length ≤ t.objs.length
  sizes : ∀ tr u, t.objs[tr]? = some u → u.closing = false →
    s.objs.length ≤ tr ∧ u.writeBufferSize = 0 ∨
      ∃ u₀, s.objs[tr]? = some u₀ ∧ u₀.closing = false ∧ u.writeBufferSize = u₀.writeBufferSize - δ tr

/-- What a step takes off the sizes it takes off what is due. -/
theorem Even.lowered (h : s.Even w) (hknown : s.WritesKnown w) (hbounded : s.Bounded w)
    {δ : TransportId → Nat} (hlowered : Lowered δ s t) (hdrained : t.drained = s.drained)
    (hdue : ∀ tr, s.Open tr → t.due t.batch tr + δ tr = s.due s.batch tr)
    (hnew : ∀ tr, s.objs.length ≤ tr → t.due t.batch tr = 0) : t.Even w := by
  intro tr u hu hopen
  have hreported : t.reported w tr = s.reported w tr := by rw [reported, hdrained, reported]
  rcases hlowered.sizes tr u hu hopen with ⟨hle, hsize⟩ | ⟨u₀, hu₀, hopen₀, hsize⟩
  · rw [hreported, hsize, hnew tr hle, reported_unknown hknown hbounded hle, hknown.unwritten tr hle]
  · have heven := h tr u₀ hu₀ hopen₀
    have hle := reported_le hbounded tr
    have hdue := hdue tr ⟨u₀, hu₀, hopen₀⟩
    omega

/-! ## The sizes, the table and the futures in a step -/

namespace Lowered

theorem of_objs {δ : TransportId → Nat} (hobjs : t.objs = s.objs)
    (hδ : ∀ tr, s.Open tr → δ tr = 0) : Lowered δ s t where
  length := (congrArg List.length hobjs).ge
  sizes tr u hu hopen := by
    rw [hobjs] at hu
    exact .inr ⟨u, hu, hopen, by rw [hδ tr ⟨u, hu, hopen⟩, Nat.sub_zero]⟩

theorem modify {δ : TransportId → Nat} {tr : TransportId} {f : Transport → Transport}
    (hf : ∀ u, s.objs[tr]? = some u → (f u).closing = false →
      u.closing = false ∧ (f u).writeBufferSize = u.writeBufferSize - δ tr)
    (hδ : ∀ tr', tr' ≠ tr → δ tr' = 0) : Lowered δ s (s.modify tr f) where
  length := (List.length_modify ..).ge
  sizes tr' u hu hopen := by
    have hu : (s.objs.modify tr f)[tr']? = some u := hu
    rw [List.getElem?_modify] at hu
    obtain ⟨u₀, hu₀, rfl⟩ := Option.map_eq_some_iff.mp hu
    by_cases htr : tr = tr'
    · subst htr
      simp only [if_true] at hopen ⊢
      obtain ⟨hopen₀, hsize⟩ := hf u₀ hu₀ hopen
      exact .inr ⟨u₀, hu₀, hopen₀, hsize⟩
    · simp only [if_neg htr] at hopen ⊢
      exact .inr ⟨u₀, hu₀, hopen, by rw [hδ tr' (Ne.symm htr), Nat.sub_zero]⟩

/-- Flags that are not about the size and the end. -/
theorem flags {tr : TransportId} {f : Transport → Transport}
    (hf : ∀ u, (f u).closing = u.closing ∧ (f u).writeBufferSize = u.writeBufferSize) :
    Lowered (fun _ => 0) s (s.modify tr f) :=
  modify (fun u _ hopen => ⟨(hf u).1.symm.trans hopen, (hf u).2⟩) fun _ _ => rfl

theorem append {objs : List Transport} (hobjs : t.objs = s.objs ++ objs)
    (hnew : ∀ u ∈ objs, u.writeBufferSize = 0) : Lowered (fun _ => 0) s t where
  length := by
    rw [hobjs, List.length_append]
    exact Nat.le_add_right _ _
  sizes tr u hu hopen := by
    rw [hobjs] at hu
    obtain hu | ⟨hge, hmem⟩ := History.append_cases hu
    · exact .inr ⟨u, hu, hopen, rfl⟩
    · exact .inl ⟨hge, hnew u hmem⟩

theorem trans {u : EventLoop K T} {δ : TransportId → Nat} (h : Lowered (fun _ => 0) s t)
    (h' : Lowered δ t u) : Lowered δ s u where
  length := h.length.trans h'.length
  sizes tr x hx hopen := by
    rcases h'.sizes tr x hx hopen with ⟨hle, hsize⟩ | ⟨x₁, hx₁, hopen₁, hsize⟩
    · exact .inl ⟨h.length.trans hle, hsize⟩
    · rcases h.sizes tr x₁ hx₁ hopen₁ with ⟨hle, hsize₁⟩ | ⟨x₀, hx₀, hopen₀, hsize₁⟩
      · exact .inl ⟨hle, by omega⟩
      · exact .inr ⟨x₀, hx₀, hopen₀, by omega⟩

theorem forceClose (cause : TransportEvent) (exc : Option Exc) (tr : TransportId) (s : EventLoop K T) :
    Lowered (fun _ => 0) s (s.forceClose cause exc tr) := by
  unfold EventLoop.forceClose
  split
  · exact of_objs rfl fun _ _ => rfl
  · split
    · exact of_objs rfl fun _ _ => rfl
    · have hclosed : Lowered (fun _ => 0) s (s.modify tr .setClosed) :=
        modify (fun u _ hopen => by cases hopen) fun _ _ => rfl
      exact ⟨hclosed.length, hclosed.sizes⟩

/-- `_send_completed`. -/
theorem sendCompleted (tr : TransportId) (n : Int) (handler : Bool) (s : EventLoop K T) :
    Lowered (fun tr' => if tr = tr' then n.toNat else 0) s (s.sendCompleted tr n handler) := by
  unfold EventLoop.sendCompleted
  split
  · rename_i hnone
    apply of_objs rfl
    rintro tr' ⟨u, hu, -⟩
    apply if_neg
    rintro rfl
    cases hnone.symm.trans hu
  · rename_i u hu
    split
    · rename_i hneg
      apply of_objs rfl
      rintro tr' -
      rw [Int.toNat_of_nonpos (Int.le_of_lt hneg), ite_self]
    · have hmodify : Lowered (fun tr' => if tr = tr' then n.toNat else 0) s
          (s.modify tr (.setWriteBufferSize (u.writeBufferSize - n.toNat))) := by
        apply modify
        · intro u' hu' hopen
          cases hu.symm.trans hu'
          exact ⟨hopen, by rw [if_pos rfl]; rfl⟩
        · exact fun tr' htr => if_neg (Ne.symm htr)
      dsimp only
      split
      · exact ⟨hmodify.length, hmodify.sizes⟩
      · exact hmodify

/-- `_on_write_complete`. -/
theorem onWriteComplete (tr : TransportId) (fut : FutId) (s : EventLoop K T) :
    Lowered (fun tr' => s.credit tr' (.onWriteComplete tr fut)) s (s.onWriteComplete tr fut) := by
  have hother (hnone : s.Open tr → ((s.futState fut).map FutState.counted).getD 0 = 0)
      (tr' : TransportId) (hopen : s.Open tr') : s.credit tr' (.onWriteComplete tr fut) = 0 := by
    show (if tr = tr' then ((s.futState fut).map FutState.counted).getD 0 else 0) = 0
    by_cases htr : tr = tr'
    · subst htr
      rw [if_pos rfl, hnone hopen]
    · exact if_neg htr
  have herror (exc : Exc) (hnone : ((s.futState fut).map FutState.counted).getD 0 = 0) :
      Lowered (fun tr' => s.credit tr' (.onWriteComplete tr fut)) s (s.errorReceived tr exc) := by
    refine (forceClose _ _ tr s).trans (of_objs rfl fun tr' _ => ?_)
    unfold credit
    dsimp only
    rw [hnone, ite_self]
  unfold EventLoop.onWriteComplete
  split
  · rename_i hobj
    apply of_objs rfl
    apply hother
    rintro ⟨u, hu, -⟩
    cases hobj.symm.trans hu
  · rename_i u hu
    split
    · rename_i hclosing
      apply of_objs rfl
      apply hother
      rintro ⟨u', hu', hopen⟩
      cases hu.symm.trans hu'
      cases hclosing.symm.trans hopen
    · split
      · rename_i errno hstate
        exact herror _ (by rw [futState, hstate]; rfl)
      · rename_i n hstate
        have hcredit : (fun tr' => s.credit tr' (.onWriteComplete tr fut)) =
            fun tr' => if tr = tr' then n.toNat else 0 := by
          funext tr'
          unfold credit
          dsimp only
          rw [futState, hstate]
          rfl
        rw [hcredit]
        exact sendCompleted tr n _ s
      · rename_i v hnot hstate
        refine herror _ ?_
        rw [futState, hstate]
        show FutState.counted (.result v) = 0
        rcases v with (b | ⟨b, addr⟩ | n) | _
        · rfl
        · rfl
        · exact absurd rfl (hnot n)
        · rfl
      · rename_i hstate
        exact of_objs rfl (hother fun _ => by rw [futState, hstate]; rfl)
      · rename_i hstate
        exact herror _ (by rw [futState, hstate]; rfl)
      · rename_i hstate
        exact herror _ (by rw [futState, hstate]; rfl)

end Lowered

section
variable [LE T] [DecidableLE T] {a : Act K T}

/-- Only the steps that account for sends change a size. -/
theorem Move.lowered (h : Move s₀ a s t) (haccounts : ¬ s₀.Accounts a) :
    Lowered (fun _ => 0) s t := by
  have hsame (hobjs : t.objs = s.objs) : Lowered (fun _ => 0) s t := .of_objs hobjs fun _ _ => rfl
  cases h with
  | forced exc hcause => exact .forceClose _ _ _ s
  | disarmed tr exc =>
    exact .trans (.flags (f := .setRecvPending false) fun _ => ⟨rfl, rfl⟩) (.forceClose _ _ tr _)
  | closed hcause ht =>
    rename_i tr u cause
    have hclosing : Lowered (fun _ => 0) s (s.modify tr .setClosing) :=
      .modify (fun u _ hopen => by cases hopen) fun _ _ => rfl
    exact ⟨hclosing.length, hclosing.sizes⟩
  | flagged tr hf hpaused hsize =>
    exact .flags fun u => ⟨hf.closing u, hsize.resolve_left haccounts u⟩
  | received hruns hbatch =>
    rename_i tr fut rest
    exact .trans (t := { s with batch := rest }) (.of_objs rfl fun _ _ => rfl)
      (.flags (f := .setRecvPending false) fun _ => ⟨rfl, rfl⟩)
  | armed env ht hidle =>
    rename_i tr u
    have hpending : Lowered (fun _ => 0) s (s.modify tr (.setRecvPending true)) :=
      .flags fun _ => ⟨rfl, rfl⟩
    exact hpending.trans (.of_objs (by rw [submitNew_eq]) fun _ _ => rfl)
  | made fd creator hmakes => exact .append rfl (by simp [Transport.new])
  | constructed fd => exact .append rfl (by simp [Transport.new])
  | wrote env ha ht hopen hdata => exact hsame (by rw [submitNew_eq])
  | submitted env fd kind? callbacks req hreq hkind hcallbacks hsend => exact hsame (by rw [submitNew_eq])
  | cancelled fut huser => exact hsame (by rw [setFuture_eq])
  | ioSettled hr hs₀ hsettles hfut => exact hsame (by rw [setFuture_eq]; rfl)
  | drained hticks hmidway hcq => exact hsame (by rw [drainOne_eq])
  | _ => exact hsame rfl

/-- What a move does to `_transports`. -/
theorem Move.table_cases (h : Move s₀ a s t) :
    t.transports = s.transports ∧ s.objs.length ≤ t.objs.length ∨
    (∃ fd, s₀.Makes fd a ∧ t.transports = s.transports.insert fd s.objs.length ∧
      t.objs.length = s.objs.length + 1) ∨
    ∃ r, s₀.Handles a r ∧ r.opType = "close" ∧ t.transports = s.transports.erase r.fd ∧
      t.objs.length = s.objs.length := by
  have hsame (htransports : t.transports = s.transports) :
      t.transports = s.transports ∧ s.objs.length ≤ t.objs.length :=
    ⟨htransports, (Moves.single h).objs_length⟩
  cases h with
  | made fd creator hmakes =>
    exact .inr (.inl ⟨fd, hmakes, rfl, by simp [makeConnection, callProtocol]⟩)
  | closeHandled hr hop => exact .inr (.inr ⟨_, hr, hop, rfl, rfl⟩)
  | forced exc hcause => exact .inl (hsame (sockets_forceClose s _ _ _).2.1)
  | disarmed tr exc =>
    exact .inl (hsame (sockets_forceClose (s.modify tr (.setRecvPending false)) _ _ _).2.1)
  | armed env ht hidle => exact .inl (hsame (by rw [submitNew_eq]; rfl))
  | wrote env ha ht hopen hdata => exact .inl (hsame (by rw [submitNew_eq]))
  | submitted env fd kind? callbacks req hreq hkind hcallbacks hsend =>
    exact .inl (hsame (by rw [submitNew_eq]))
  | cancelled fut huser => exact .inl (hsame (by rw [setFuture_eq]))
  | ioSettled hr hs₀ hsettles hfut => exact .inl (hsame (by rw [setFuture_eq]; rfl))
  | drained hticks hmidway hcq => exact .inl (hsame (by rw [drainOne_eq]))
  | _ => exact .inl (hsame rfl)

theorem TableSound.move (htable : s.TableSound) (h : Move s₀ a s t) : t.TableSound := by
  intro fd tr htr
  rcases h.table_cases with ⟨heq, hle⟩ | ⟨fd', -, heq, hlength⟩ | ⟨r, -, -, heq, hlength⟩
  · exact Nat.lt_of_lt_of_le (htable fd tr (heq ▸ htr)) hle
  · rw [heq] at htr
    rw [hlength]
    obtain ⟨-, rfl⟩ | ⟨-, htr⟩ := AList.lookup_insert_eq_some.mp htr
    · exact Nat.lt_succ_self _
    · exact Nat.lt_succ_of_lt (htable fd tr htr)
  · rw [heq] at htr
    rw [hlength]
    exact htable fd tr (AList.lookup_erase_eq_some.mp htr).2

omit [LE T] [DecidableLE T] in
theorem made?_of_makes {fd : Fd} (h : s.Makes fd a) : s.made? a = some fd := by
  cases h with
  | connection env => rfl
  | unixConnection env => rfl
  | accepted truthy env hstack => rw [made?, hstack]

/-- An entry of `_transports` stays, but for a transport that is made and a close that is handled. -/
theorem step_table (hstep : s.step a = some t) (fd : Fd) :
    t.transports.lookup fd = s.transports.lookup fd ∨ s.made? a = some fd ∨
      ∃ r, s.Handles a r ∧ r.opType = "close" ∧ r.fd = fd ∧ t.transports.lookup fd = none := by
  refine (step_moves hstep).rule (I := fun u => u.transports.lookup fd = s.transports.lookup fd ∨
    s.made? a = some fd ∨
      ∃ r, s.Handles a r ∧ r.opType = "close" ∧ r.fd = fd ∧ u.transports.lookup fd = none) ?_ (.inl rfl)
  intro u v hu hmove
  rcases hmove.table_cases with ⟨heq, -⟩ | ⟨fd', hmakes, heq, -⟩ | ⟨r, hr, hop, heq, -⟩
  · rwa [heq]
  · by_cases hfd : fd = fd'
    · exact .inr (.inl (hfd ▸ made?_of_makes hmakes))
    · rwa [heq, AList.lookup_insert_ne hfd]
  · by_cases hfd : fd = r.fd
    · exact .inr (.inr ⟨r, hr, hop, hfd.symm, by rw [heq, hfd, AList.lookup_erase]⟩)
    · rwa [heq, AList.lookup_erase_ne hfd]

end

end

end EventLoop

end Uringcore
