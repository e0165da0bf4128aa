import Uringcore.EventLoop.Counted

/-!
# The sizes over whole runs

Each kind of step keeps the balance of `Counted`: a handle and a handler take off what is due, a tick
makes due what its completions report, a write adds to both sides. With the exact condition on the
steps the sizes are right in every state of a run.
-/

namespace Uringcore

namespace EventLoop
variable {K T : Type}

theorem sum_suffix_le {α : Type*} {xs ys : List α} (h : xs <:+ ys) (f : α → Nat) :
    (xs.map f).sum ≤ (ys.map f).sum := by
  obtain ⟨pre, rfl⟩ := h
  rw [List.map_append, List.sum_append]
  exact Nat.le_add_left _ _

/-! ## A write -/

section
variable {s : EventLoop K T} {tr : TransportId} {t₀ : Transport} {data : Bytes} {env : Env}

/-- A write to an open transport submits its data. -/
theorem write_submits (env : Env) (ht : s.objs[tr]? = some t₀) (hopen : t₀.closing = false) (hdata : data ≠ []) :
    (s.write env tr data).core.ring =
        (s.core.request env.now env.enter t₀.fd (.send data s.futs.length)).1.ring ∧
      (s.write env tr data).issued = s.issued ++
        if (s.core.request env.now env.enter t₀.fd (.send data s.futs.length)).1.ring.tail = s.core.ring.tail
        then [] else [(t₀.fd, .send data s.futs.length)] := by
  have herror (u : EventLoop K T) (exc : Exc) :
      (u.errorReceived tr exc).core.ring = u.core.ring ∧ (u.errorReceived tr exc).issued = u.issued := by
    obtain ⟨_, _, _, _, h⟩ := SameTables.errorReceived tr exc u
    rw [h]
    exact ⟨rfl, rfl⟩
  unfold write
  rw [ht]
  simp only [hopen, Bool.false_or, List.isEmpty_iff, hdata, if_false]
  split
  · rename_i u msg hpanic
    obtain rfl : _ = u := congrArg Prod.fst hpanic
    exact ⟨rfl, rfl⟩
  · rename_i u e _ hrefused
    rw [(herror u _).1, (herror u _).2]
    obtain rfl : _ = u := congrArg Prod.fst hrefused
    exact ⟨rfl, rfl⟩
  · rename_i u hok
    obtain rfl : _ = u := congrArg Prod.fst hok
    split <;> exact ⟨rfl, rfl⟩

/-- Otherwise it does nothing. -/
theorem write_nothing (env : Env) (w : Writes) (h : ¬ (s.Open tr ∧ data ≠ [])) :
    s.write env tr data = s ∧ Writes.upd s (.call (.write tr data) env) s w = w := by
  by_cases hopen : s.Open tr
  · have hdata : data = [] := by
      by_contra hdata
      exact h ⟨hopen, hdata⟩
    obtain ⟨t₀, ht, hclosing⟩ := hopen
    subst hdata
    constructor
    · unfold write
      rw [ht]
      exact if_pos (Bool.or_true _)
    · have hwriter : (fun n => if s.issued.length ≤ n ∧ n < s.issued.length then some tr else w.writer n) =
          w.writer := by
        funext n
        apply if_neg
        omega
      unfold Writes.upd
      dsimp only
      rw [if_pos ⟨t₀, ht, hclosing⟩, hwriter, List.length_nil, Nat.add_zero, Function.update_eq_self]
  · constructor
    · unfold write
      split
      · rfl
      · rename_i t₀ ht
        apply if_pos
        rw [Bool.or_eq_true]
        left
        rw [← Bool.not_eq_false]
        exact fun hclosing => hopen ⟨t₀, ht, hclosing⟩
    · exact if_neg hopen

/-- The kernel is asked for no more than was written. -/
theorem write_ring (hs : s.CoreSound) (env : Env) (ht : s.objs[tr]? = some t₀) (hopen : t₀.closing = false)
    (hdata : data ≠ []) :
    (s.write env tr data).core.ring = s.core.ring ∧ (s.write env tr data).issued = s.issued ∨
      ∃ buf e, s.core.ring.Issued t₀.fd (.send buf (data.length % 2 ^ 32)) (s.write env tr data).core.ring e ∧
        (s.write env tr data).issued = s.issued ++ [(t₀.fd, .send data s.futs.length)] := by
  obtain ⟨hring, hissued⟩ := write_submits env ht hopen hdata
  have hspec : s.core.Submission env.enter t₀.fd (.send data s.futs.length) _ :=
    UringCore.request_spec hs.sound env.now _
  rw [hring, hissued]
  generalize (s.core.request env.now env.enter t₀.fd (.send data s.futs.length)).1 = core at hspec
  cases hspec with
  | kept nextBox hsend hrecv => exact .inl ⟨rfl, by rw [if_pos rfl, List.append_nil]⟩
  | recvRefused nextBox hreq => exact absurd hreq (by simp)
  | recvIssued nextBox hreq => exact absurd hreq (by simp)
  | sendPanicked hfree hlen => exact .inl ⟨rfl, by rw [if_pos rfl, List.append_nil]⟩
  | sendRefused hfree hlen hfull => exact .inl ⟨rfl, by rw [if_pos rfl, List.append_nil]⟩
  | sendIssued hfree hlen hpush =>
    refine .inr ⟨_, _, hpush, ?_⟩
    rw [if_neg]
    show ¬ _ = _
    rw [hpush.tail]
    exact Nat.succ_ne_self _
  | plainIssued hreq => cases hreq

/-- A write to an open transport adds to its size, or closes it. -/
theorem write_sizes (hends : s.EndsKept) (ht : s.objs[tr]? = some t₀) (hopen : t₀.closing = false)
    (hdata : data ≠ [])
    (hfits : s.core.bufferPool.acquirable env.now = [] ∨ data.length ≤ s.core.bufferPool.bufferSize)
    {tr' : TransportId} {u : Transport} (hu : (s.write env tr data).objs[tr']? = some u)
    (hopen' : u.closing = false) : ∃ u₀, s.objs[tr']? = some u₀ ∧ u₀.closing = false ∧
      u.writeBufferSize = u₀.writeBufferSize + if tr = tr' then data.length else 0 := by
  have hmodify {f : Transport → Transport} (hu : (s.objs.modify tr f)[tr']? = some u)
      (hf : (f t₀).closing = false → (f t₀).writeBufferSize = t₀.writeBufferSize + data.length) :
      ∃ u₀, s.objs[tr']? = some u₀ ∧ u₀.closing = false ∧
        u.writeBufferSize = u₀.writeBufferSize + if tr = tr' then data.length else 0 := by
    rw [List.getElem?_modify] at hu
    obtain ⟨u₀, hu₀, rfl⟩ := Option.map_eq_some_iff.mp hu
    by_cases htr : tr = tr'
    · subst htr
      cases ht.symm.trans hu₀
      simp only [if_true] at hopen' ⊢
      exact ⟨t₀, ht, hopen, hf hopen'⟩
    · simp only [if_neg htr] at hopen' ⊢
      exact ⟨u₀, hu₀, hopen', rfl⟩
  unfold write at hu
  rw [ht] at hu
  simp only [hopen, Bool.false_or, List.isEmpty_iff, hdata, if_false] at hu
  split at hu
  · rename_i v msg hpanic
    -- the data fits into the buffer, if there is one
    have hends : UringCore.SendEnds env.now env.enter t₀.fd data s.core
      (s.core.submitSend env.now env.enter t₀.fd data s.futs.length) := UringCore.submitSend_ends data _
    have hresult : (s.core.submitSend env.now env.enter t₀.fd data s.futs.length).2 =
        .error (.panic msg) := congrArg Prod.snd hpanic
    generalize s.core.submitSend env.now env.enter t₀.fd data s.futs.length = x at hends hresult
    cases hends with
    | noBuffer hfree ht => cases hresult
    | panicked hfree hlen =>
      rcases hfits with hnil | hle
      · cases hfree.symm.trans hnil
      · exact absurd hle (Nat.not_le.mpr hlen)
    | full hfree hlen hfull ht => cases hresult
    | queued hfree hlen hroom ht hissued hdata hr => exact absurd hresult (hr msg)
  · rename_i v e _ herror
    have hobjs : v.objs = s.objs := by
      obtain rfl : _ = v := congrArg Prod.fst herror
      rfl
    have hclosed : t₀.closed = false := by
      rw [← Bool.not_eq_true]
      intro hclosed
      cases hopen.symm.trans ((hends.ends tr).closing t₀ ht hclosed)
    rw [errorReceived, forceClose_open (hobjs ▸ ht) hclosed, hobjs] at hu
    exact hmodify hu fun h => by cases h
  · rename_i v hok
    obtain rfl : _ = v := congrArg Prod.fst hok
    split at hu <;> exact hmodify hu fun _ => rfl

end

/-! ## The steps -/

/-- What holds of the sizes in every state that a run whose steps keep them reaches. -/
structure SizesKept (s : EventLoop K T) (w : Writes) : Prop where
  accepts : s.AcceptsSound
  ends : s.EndsKept
  issued : s.IssuedSound
  senders : s.SendersSound
  noSender : NoSender s.core.scheduler
  futures : s.FuturesOnce
  table : s.TableSound
  known : s.WritesKnown w
  bounded : s.Bounded w
  even : s.Even w

section
variable [LE T] [DecidableLE T] {s t : EventLoop K T} {a : Act K T} {w w' : Writes}

/-- A step that accounts for no send leaves the sizes. -/
theorem Lowered.step (hstep : s.step a = some t) (haccounts : ¬ s.Accounts a) :
    Lowered (fun _ => 0) s t :=
  (step_moves hstep).rule (I := fun u => Lowered (fun _ => 0) s u)
    (fun _ _ hu hmove => hu.trans (hmove.lowered haccounts)) (.of_objs rfl fun _ _ => rfl)

/-- The handler of a send's completion tells the transport that `_transports` has there. -/
theorem Lowered.sent {r : ResultTuple} {rest : List ResultTuple} (hstep : s.step .handleCompletion = some t)
    (hr : s.results = r :: rest) (hop : r.opType = "send") :
    Lowered (fun tr => owed s.transports tr r) s t := by
  obtain ⟨r', rest', hstack, hbatch, hresults, rfl⟩ := step_handle.mp hstep
  cases hr.symm.trans hresults
  have hhandle : handle r { s with results := rest } =
      handleSendCompletion r.fd r.result { s with results := rest } := by
    unfold handle
    simp only [hop]
  rw [hhandle]
  generalize hu : ({ s with results := rest } : EventLoop K T).resolveIo r.fd .send
    (plainState r.result) = u
  have hsame : u.objs = s.objs ∧ u.transports = s.transports := by
    rw [← hu]
    unfold resolveIo
    split
    · rw [setFuture_eq]
      exact ⟨rfl, rfl⟩
    · exact ⟨rfl, rfl⟩
  have hstart : Lowered (fun _ => 0) s u := .of_objs hsame.1 fun _ _ => rfl
  unfold handleSendCompletion
  rw [hu]
  dsimp only
  split
  · rename_i tr hlookup
    rw [hsame.2] at hlookup
    have howed : (fun tr' => owed s.transports tr' r) =
        fun tr' => if tr = tr' then r.result.toNat else 0 := by
      funext tr'
      simp [owed, hop, hlookup]
    rw [howed]
    exact hstart.trans (.sendCompleted tr r.result true u)
  · rename_i hlookup
    rw [hsame.2] at hlookup
    have howed : (fun tr' => owed s.transports tr' r) = fun _ => 0 := by
      funext tr'
      simp [owed, hlookup]
    rw [howed]
    exact hstart

omit [LE T] [DecidableLE T] in
theorem owed_eq_zero {r : ResultTuple} {tr : TransportId} (h : ¬ s.Counts r) (hopen : s.Open tr) :
    owed s.transports tr r = 0 := by
  unfold owed
  split
  · rename_i hown
    apply Int.toNat_of_nonpos
    apply Int.not_lt.mp
    intro hpos
    exact h ⟨hown.1, hpos, tr, hown.2, hopen⟩
  · rfl

omit [LE T] [DecidableLE T] in
theorem KeepsCounts.noneCounts (hkeeps : KeepsCounts (s, w) a) (hdrops : s.Drops a) :
    ∀ r ∈ s.results, ¬ s.Counts r := by
  cases a with
  | ret q env =>
    obtain ⟨frame, hframe, haborts⟩ := hdrops
    exact (hkeeps frame hframe).1 haborts
  | rearmAccept env => exact hkeeps.resolve_left hdrops
  | _ => cases hdrops

omit [LE T] [DecidableLE T] in
theorem KeepsCounts.noneCounting (hkeeps : KeepsCounts (s, w) a) (hunwinds : s.Unwinds a) :
    s.NoneCounting := by
  cases a with
  | ret q env =>
    obtain ⟨frame, hframe, hunwinds⟩ := hunwinds
    exact (hkeeps frame hframe).2 hunwinds
  | _ => cases hunwinds

omit [LE T] [DecidableLE T] in
theorem NoneCounting.credit (h : s.NoneCounting) {tr : TransportId} (hopen : s.Open tr) :
    (s.batch.map (s.credit tr)).sum = 0 := by
  apply List.sum_eq_zero
  intro n hn
  obtain ⟨handle, hmem, rfl⟩ := List.mem_map.mp hn
  cases handle with
  | onWriteComplete tr' fut =>
    by_cases htr : tr' = tr
    · subst htr
      exact (if_pos rfl).trans (h _ hmem (tr', fut) rfl hopen)
    · exact if_neg htr
  | _ => rfl

/-- From `w` to `w'` a write of `data` to `tr` is recorded, which has led from `s` to `t` and may have
submitted an operation. -/
structure Recorded (s t : EventLoop K T) (tr : TransportId) (data : Bytes) (w w' : Writes) : Prop where
  written : ∀ tr', w'.written tr' = w.written tr' + if tr = tr' then data.length else 0
  writer : ∀ n, w'.writer n = if s.issued.length ≤ n ∧ n < t.issued.length then some tr else w.writer n
  submits : t.core.ring = s.core.ring ∧ t.issued = s.issued ∨ ∃ fd buf e,
    s.core.ring.Issued fd (.send buf (data.length % 2 ^ 32)) t.core.ring e ∧
      t.issued = s.issued ++ [(fd, .send data s.futs.length)]

namespace Recorded
variable {tr : TransportId} {data : Bytes}

omit [LE T] [DecidableLE T] in
theorem of_upd {env : Env} (hopen : s.Open tr) (hsubmits : t.core.ring = s.core.ring ∧ t.issued = s.issued ∨
      ∃ fd buf e, s.core.ring.Issued fd (.send buf (data.length % 2 ^ 32)) t.core.ring e ∧
        t.issued = s.issued ++ [(fd, .send data s.futs.length)]) :
    Recorded s t tr data w (Writes.upd s (.call (.write tr data) env) t w) := by
  have hupd : Writes.upd s (.call (.write tr data) env) t w = {
      written := Function.update w.written tr (w.written tr + data.length)
      writer := fun n => if s.issued.length ≤ n ∧ n < t.issued.length then some tr else w.writer n } :=
    if_pos hopen
  rw [hupd]
  refine ⟨fun tr' => ?_, fun n => rfl, hsubmits⟩
  by_cases htr : tr' = tr
  · subst htr
    simp
  · simp [htr, Ne.symm htr]

omit [LE T] [DecidableLE T] in
/-- What was submitted before keeps its writer. -/
theorem writer_eq (h : Recorded s t tr data w w') {e : Sqe} (he : s.Names e) :
    w'.writer e.seq = w.writer e.seq := by
  obtain ⟨req, hreq, -⟩ := he
  rw [h.writer]
  exact if_neg fun h => absurd h.1 (Nat.not_le.mpr (List.getElem?_eq_some_iff.mp hreq).1)

omit [LE T] [DecidableLE T] in
theorem map_taken (h : Recorded s t tr data w w') {cqes : List Cqe} (hcqes : ∀ c ∈ cqes, s.Names c.sqe)
    (tr' : TransportId) : cqes.map (w'.taken tr') = cqes.map (w.taken tr') := by
  apply List.map_congr_left
  intro c hc
  rw [Writes.taken, h.writer_eq (hcqes c hc), Writes.taken]

omit [LE T] [DecidableLE T] in
theorem map_asked (h : Recorded s t tr data w w') {es : List Sqe} (hes : ∀ e ∈ es, s.Names e)
    (tr' : TransportId) : es.map (w'.asked tr') = es.map (w.asked tr') := by
  apply List.map_congr_left
  intro e he
  rw [Writes.asked, h.writer_eq (hes e he), Writes.asked]

omit [LE T] [DecidableLE T] in
theorem reported_eq (h : Recorded s t tr data w w') (hi : s.IssuedSound) (hdrained : t.drained = s.drained)
    (tr' : TransportId) : t.reported w' tr' = s.reported w tr' := by
  rw [reported, hdrained, h.map_taken hi.drained, reported]

omit [LE T] [DecidableLE T] in
theorem writesKnown (h : Recorded s t tr data w w') (hknown : t.WritesKnown w) (hlt : tr < t.objs.length) :
    t.WritesKnown w' := by
  refine ⟨fun n tr' hn => ?_, fun tr' hle => ?_⟩
  · rw [h.writer] at hn
    split at hn
    · rename_i hnew
      cases hn
      refine ⟨hlt, ?_⟩
      rcases h.submits with ⟨-, hissued⟩ | ⟨fd, buf, e, -, hissued⟩
      · rw [hissued] at hnew
        omega
      · rw [hissued, List.length_append, List.length_singleton] at hnew
        obtain rfl : s.issued.length = n := by omega
        exact ⟨fd, data, s.futs.length, by rw [hissued, List.getElem?_concat_length]⟩
    · exact hknown.writer n tr' hn
  · rw [h.written, hknown.unwritten tr' hle, if_neg]
    exact Nat.ne_of_lt (Nat.lt_of_lt_of_le hlt hle)

omit [LE T] [DecidableLE T] in
/-- The operation asks for no more than was written, and for another transport nothing. -/
theorem asked_new (h : Recorded s t tr data w w') (hi : s.IssuedSound) (hknown : s.WritesKnown w) {fd : Fd}
    {buf : UInt16} {e : Sqe}
    (hpush : s.core.ring.Issued fd (.send buf (data.length % 2 ^ 32)) t.core.ring e) (tr' : TransportId) :
    w'.asked tr' e ≤ if tr = tr' then data.length else 0 := by
  have hsend : e.op.sendLen ≤ data.length := by
    rw [hpush.op_eq]
    exact Nat.mod_le _ _
  unfold Writes.asked
  by_cases htr : tr = tr'
  · rw [if_pos htr]
    split
    · exact hsend
    · exact Nat.zero_le _
  · rw [if_neg htr, if_neg]
    intro hwriter
    rw [h.writer, hpush.seq_eq, ← hi.length] at hwriter
    split at hwriter
    · exact htr (Option.some_inj.mp hwriter)
    · -- nothing was submitted under that number before
      obtain ⟨-, fd, data', fut, hissued⟩ := hknown.writer _ tr' hwriter
      exact Nat.lt_irrefl _ (List.getElem?_eq_some_iff.mp hissued).1

omit [LE T] [DecidableLE T] in
theorem bounded (h : Recorded s t tr data w w') (hi : s.IssuedSound) (hknown : s.WritesKnown w)
    (hbounded : s.Bounded w) (hdrained : t.drained = s.drained) : t.Bounded w' := by
  intro tr'
  have hle := hbounded tr'
  have hcq : s.core.ring.cq.map (w'.taken tr') = s.core.ring.cq.map (w.taken tr') :=
    h.map_taken (fun _ hc => hi.names_cq hc) tr'
  have hasked : s.core.ring.inFlight.map (w'.asked tr') = s.core.ring.inFlight.map (w.asked tr') :=
    h.map_asked (fun e he => hi.live e (UringCore.mem_live.mpr (.inl he))) tr'
  rw [h.written]
  unfold outstanding at hle ⊢
  rw [h.reported_eq hi hdrained]
  rcases h.submits with ⟨hring, -⟩ | ⟨fd, buf, e, hpush, -⟩
  · rw [hring, hcq, hasked]
    omega
  · have hnew := h.asked_new hi hknown hpush tr'
    rw [hpush.cq, hpush.inFlight, hcq, List.map_append, List.sum_append, hasked, List.map_singleton,
      List.sum_singleton]
    omega

end Recorded

namespace SizesKept

/-- What is not about the sizes, every step keeps. -/
theorem of_step (h : s.SizesKept w) (hstep : s.step a = some t) (hnone : NoSender t.core.scheduler)
    (hknown : t.WritesKnown w') (hbounded : t.Bounded w') (heven : t.Even w') : t.SizesKept w' := by
  have hend := (step_moves hstep).rule
    (I := fun u => u.EndsKept ∧ u.IssuedSound ∧ u.SendersSound ∧ u.FuturesOnce ∧ u.TableSound) ?_
    ⟨h.ends, h.issued, h.senders, h.futures, h.table⟩
  · obtain ⟨hends, hissued, hsenders, hfutures, htable⟩ := hend
    exact ⟨h.accepts.step hstep, hends, hissued, hsenders, hnone, hfutures, htable, hknown, hbounded, heven⟩
  · rintro u v ⟨hends, hissued, hsenders, hfutures, htable⟩ hmove
    have hs := hends.core
    exact ⟨hends.move hmove, hissued.move hs hmove, hsenders.move hs hissued hmove,
      hfutures.move hs hissued hmove, htable.move hmove⟩

/-- What was recorded stays known, and the kernel reports no more. -/
theorem recorded (h : s.SizesKept w) (hstep : s.step a = some t) : t.WritesKnown w ∧ t.Bounded w := by
  have hend := (step_moves hstep).rule
    (I := fun u => u.CoreSound ∧ u.IssuedSound ∧ u.WritesKnown w ∧ u.Bounded w) ?_
    ⟨h.ends.core, h.issued, h.known, h.bounded⟩
  · exact hend.2.2
  · rintro u v ⟨hs, hissued, hknown, hbounded⟩ hmove
    refine ⟨hs.move hmove, hissued.move hs hmove,
      hknown.mono (Moves.single hmove).objs_length (hmove.issued_prefix hs), fun tr => ?_⟩
    exact (hmove.outstanding hknown hs hissued tr).trans (hbounded tr)

theorem noSender_step (h : s.SizesKept w) (hstep : s.step a = some t) (hticks : ¬ s.Ticks a) :
    NoSender t.core.scheduler := by
  have hend := (step_moves hstep).rule
    (I := fun u => u.CoreSound ∧ u.IssuedSound ∧ u.SendersSound ∧ NoSender u.core.scheduler) ?_
    ⟨h.ends.core, h.issued, h.senders, h.noSender⟩
  · exact hend.2.2.2
  · rintro u v ⟨hs, hissued, hsenders, hnone⟩ hmove
    exact ⟨hs.move hmove, hissued.move hs hmove, hsenders.move hs hissued hmove,
      hmove.noSender hsenders hs hticks hnone⟩

theorem futState_step (h : s.SizesKept w) (hstep : s.step a = some t) {fut : FutId} {state : FutState}
    (hstate : s.futState fut = some state) (hdone : state ≠ .pending) : t.futState fut = some state := by
  have hend := (step_moves hstep).rule (I := fun u => u.CoreSound ∧ u.futState fut = some state)
    (fun u v hu hmove => ⟨hu.1.move hmove, hmove.futState_done hu.1 hu.2 hdone⟩) ⟨h.ends.core, hstate⟩
  exact hend.2

/-- A result that a handler is still to count is counted for the same transport after the step. -/
theorem owed_step (h : s.SizesKept w) (hstep : s.step a = some t)
    (hfresh : ∀ fd ∈ s.made? a, s.Fresh fd)
    (hclose : ∀ r, s.Handles a r → r.opType = "close" →
      ∀ r' ∈ s.results, r'.fd = r.fd → ¬ s.Counts r') {r : ResultTuple} (hr : r ∈ s.results)
    {tr : TransportId} (hopen : s.Open tr ∨ s.objs.length ≤ tr) :
    owed t.transports tr r = owed s.transports tr r := by
  unfold owed
  by_cases hsend : r.opType = "send" ∧ 0 < r.result
  · rcases step_table hstep r.fd with hsame | hmade | ⟨r₀, hr₀, hop, hfd, hnone⟩
    · rw [hsame]
    · exact absurd (hfresh r.fd hmade r hr rfl hsend.1) (Int.not_le.mpr hsend.2)
    · rw [hnone, if_neg (by simp), if_neg]
      rintro ⟨-, hlookup⟩
      rcases hopen with hopen | hle
      · exact hclose r₀ hr₀ hop r hr hfd.symm ⟨hsend.1, hsend.2, tr, hlookup, hopen⟩
      · exact absurd (h.table r.fd tr hlookup) (Nat.not_lt.mpr hle)
  · by_cases hop : r.opType = "send"
    · have hzero : r.result.toNat = 0 := Int.toNat_of_nonpos (Int.not_lt.mp fun hpos => hsend ⟨hop, hpos⟩)
      rw [hzero, ite_self, ite_self]
    · rw [if_neg fun h => hop h.1, if_neg fun h => hop h.1]

/-- What a waiting handle takes off stays. -/
theorem credit_step (h : s.SizesKept w) (hstep : s.step a = some t) (hbatch : t.batch <:+ s.batch)
    (tr : TransportId) : t.batch.map (t.credit tr) = t.batch.map (s.credit tr) := by
  apply credit_congr
  intro tr' fut hmem
  obtain ⟨-, state, hstate, hdone⟩ :=
    h.senders.queued tr' fut (List.mem_append_right _ (hbatch.subset hmem))
  rw [hstate]
  exact h.futState_step hstep hstate hdone

/-- A step that lowers the sizes by what it takes from the batch and the results. -/
theorem even_step (h : s.SizesKept w) (hstep : s.step a = some t)
    (hfresh : ∀ fd ∈ s.made? a, s.Fresh fd)
    (hclose : ∀ r, s.Handles a r → r.opType = "close" →
      ∀ r' ∈ s.results, r'.fd = r.fd → ¬ s.Counts r')
    {δ : TransportId → Nat} (hlowered : Lowered δ s t) (hdrained : t.drained = s.drained)
    (hbatch : t.batch <:+ s.batch) (hresults : t.results <:+ s.results)
    (hdue : ∀ tr, s.Open tr → (t.batch.map (s.credit tr)).sum +
      (t.results.map (owed s.transports tr)).sum + δ tr = s.due s.batch tr) : t.Even w := by
  have hcredit := h.credit_step hstep hbatch
  have howed {tr : TransportId} (hopen : s.Open tr ∨ s.objs.length ≤ tr) :
      t.results.map (owed t.transports tr) = t.results.map (owed s.transports tr) := by
    apply List.map_congr_left
    intro r hr
    exact h.owed_step hstep hfresh hclose (hresults.subset hr) hopen
  apply h.even.lowered h.known h.bounded hlowered hdrained
  · intro tr hopen
    rw [due, hcredit, howed (.inl hopen)]
    exact hdue tr hopen
  · intro tr hle
    -- nothing is due to a transport that did not exist
    have hold := due_unknown h.senders h.table hle
    unfold due at hold ⊢
    rw [hcredit, howed (.inr hle)]
    have hhandles := sum_suffix_le hbatch (s.credit tr)
    have hhandlers := sum_suffix_le hresults (owed s.transports tr)
    omega

/-- A step that is no tick, no handle and no handler. -/
theorem quiet (h : s.SizesKept w) (hstep : s.step a = some t) (haccounts : ¬ s.Accounts a)
    (hticks : ¬ s.Ticks a) (hrun : a ≠ .runHandle) (hhandle : a ≠ .handleCompletion)
    (hfresh : ∀ fd ∈ s.made? a, s.Fresh fd)
    (hbatch : t.batch = s.batch ∨ t.batch = [] ∧ s.NoneCounting)
    (hresults : t.results = s.results ∨ t.results = [] ∧ ∀ r ∈ s.results, ¬ s.Counts r) :
    t.SizesKept w := by
  obtain ⟨-, hdrained⟩ := (step_moves hstep).rest_eq h.ends.core hticks hrun
  obtain ⟨hknown, hbounded⟩ := h.recorded hstep
  apply h.of_step hstep (h.noSender_step hstep hticks) hknown hbounded
  apply h.even_step hstep hfresh
  · rintro r ⟨rfl, -⟩
    exact absurd rfl hhandle
  · exact Lowered.step hstep haccounts
  · exact hdrained
  · rcases hbatch with hbatch | ⟨hbatch, -⟩
    · exact ⟨[], hbatch⟩
    · exact hbatch.symm ▸ List.nil_suffix
  · rcases hresults with hresults | ⟨hresults, -⟩
    · exact ⟨[], hresults⟩
    · exact hresults.symm ▸ List.nil_suffix
  · intro tr hopen
    have hhandles : (t.batch.map (s.credit tr)).sum = (s.batch.map (s.credit tr)).sum := by
      rcases hbatch with hbatch | ⟨hbatch, hnone⟩
      · rw [hbatch]
      · rw [hbatch, hnone.credit hopen]
        rfl
    have hhandlers : (t.results.map (owed s.transports tr)).sum =
        (s.results.map (owed s.transports tr)).sum := by
      rcases hresults with hresults | ⟨hresults, hnone⟩
      · rw [hresults]
      · have hzero : (s.results.map (owed s.transports tr)).sum = 0 := by
          apply List.sum_eq_zero
          intro n hn
          obtain ⟨r, hr, rfl⟩ := List.mem_map.mp hn
          exact owed_eq_zero (hnone r hr) hopen
        rw [hresults, hzero]
        rfl
    rw [hhandles, hhandlers, due, Nat.add_zero]

theorem runHandle (h : s.SizesKept w) (hstep : s.step .runHandle = some t) : t.SizesKept w := by
  have hticks : ¬ s.Ticks .runHandle := by
    rintro ⟨clock, enter, heq, -⟩
    cases heq
  have hsame := step_quiet hstep rfl
  obtain ⟨hknown, hbounded⟩ := h.recorded hstep
  apply h.of_step hstep (h.noSender_step hstep hticks) hknown hbounded
  obtain ⟨handle, rest, hstack, hbatch, rfl⟩ := step_runHandle.mp hstep
  have hrest : (execute handle { s with batch := rest }).batch = rest := execute_batch handle _
  have hlowered : Lowered (fun tr => s.credit tr handle) s (execute handle { s with batch := rest }) := by
    cases handle with
    | onWriteComplete tr fut =>
      have hlowered := Lowered.onWriteComplete tr fut { s with batch := rest }
      exact ⟨hlowered.length, hlowered.sizes⟩
    | _ =>
      refine Lowered.step hstep fun haccounts => ?_
      cases haccounts with
      | sent hhead => cases hbatch.symm.trans hhead
  apply h.even_step hstep
  · rintro fd ⟨⟩
  · rintro r ⟨heq, -⟩
    cases heq
  · exact hlowered
  · exact hsame.drained
  · rw [hrest, hbatch]
    exact List.suffix_cons _ _
  · exact ⟨[], hsame.results⟩
  · intro tr hopen
    have hresults : (execute handle { s with batch := rest }).results = s.results := hsame.results
    rw [hrest, hresults, due, hbatch, List.map_cons, List.sum_cons]
    omega

theorem handled (h : s.SizesKept w) (hkeeps : KeepsSizes (s, w) .handleCompletion)
    (hstep : s.step .handleCompletion = some t) : t.SizesKept w := by
  have hticks : ¬ s.Ticks .handleCompletion := by
    rintro ⟨clock, enter, heq, -⟩
    cases heq
  have hrun : (.handleCompletion : Act K T) ≠ .runHandle := by
    intro heq
    cases heq
  obtain ⟨hbatch, hdrained⟩ := (step_moves hstep).rest_eq h.ends.core hticks hrun
  have hbatch := hbatch id
  obtain ⟨r, rest, hr, -, hsame⟩ := step_handleCompletion hstep
  have hresults : t.results = rest := hsame.results
  obtain ⟨hknown, hbounded⟩ := h.recorded hstep
  apply h.of_step hstep (h.noSender_step hstep hticks) hknown hbounded
  have hlowered : Lowered (fun tr => owed s.transports tr r) s t := by
    by_cases hop : r.opType = "send"
    · exact Lowered.sent hstep hr hop
    · have hzero : (fun tr => owed s.transports tr r) = fun _ => 0 := by
        funext tr
        exact if_neg fun h => hop h.1
      rw [hzero]
      refine Lowered.step hstep fun haccounts => ?_
      cases haccounts with
      | handled hr' hop' =>
        cases hr.symm.trans hr'
        exact hop hop'
  apply h.even_step hstep hkeeps.1
  · rintro r' ⟨-, rest', hr'⟩ hop
    cases hr.symm.trans hr'
    apply hkeeps.2 r _ hop
    show r ∈ s.results.head?
    rw [hr]
    rfl
  · exact hlowered
  · exact hdrained
  · exact ⟨[], hbatch⟩
  · rw [hresults, hr]
    exact List.suffix_cons _ _
  · intro tr hopen
    rw [hbatch, hresults, due, hr, List.map_cons, List.sum_cons]
    omega

/-- A tick that gets to the completions makes due what they report. -/
theorem ticked (h : s.SizesKept w) {clock : T} {enter : Except String Nat} (hidle : s.idle = true)
    (hflushes : s.core.Flushes enter) (hcounts : InTurn (CountsOnce (s, w)) [] s.core.ring.cq) :
    NoSender (s.startTick clock enter).core.scheduler ∧ (s.startTick clock enter).Even w := by
  have hdrained := (startTick_accepts clock enter hidle).2.2
  rw [if_pos hflushes] at hdrained
  obtain ⟨hdrained, -⟩ := hdrained
  simp only [idle, Bool.and_eq_true, List.isEmpty_iff] at hidle
  obtain ⟨n, hsubmit⟩ : ∃ n, (s.core.ring.submit enter).2 = .ok n := by
    unfold UringCore.Flushes at hflushes
    cases hsubmit : (s.core.ring.submit enter).2 with
    | ok n => exact ⟨n, rfl⟩
    | error e =>
      rw [hsubmit] at hflushes
      cases hflushes
  generalize hs₁ : ({ s with core := ((s.core.expireTimers clock).submit enter).1 } : EventLoop K T) = s₁
  have hmove : Move s (.startTick clock enter) s s₁ := hs₁ ▸ .flushed clock enter
  have hmidway : s.Midway [] s₁ := hs₁ ▸ .start clock enter
  have hsenders := h.senders.move h.ends.core h.issued hmove
  have hcq : s₁.core.ring.cq = s.core.ring.cq := hmidway.cq.symm
  have hscheduler : s₁.core.scheduler = s.core.scheduler := by
    rw [← hs₁]
    show (s.core.timers.popExpired clock).2.foldl _ s.core.scheduler = _
    rw [h.ends.core.timers]
    rfl
  have hresults : s₁.results = [] := hs₁ ▸ hidle.2
  have htick : s.startTick clock enter = { drainAll s.core.ring.cq s₁ with
      batch := (drainAll s.core.ring.cq s₁).core.scheduler
      core := { (drainAll s.core.ring.cq s₁).core with scheduler := [] } } :=
    hs₁ ▸ startTick_ok hsubmit hidle.2
  have hobjs : (s.startTick clock enter).objs = s.objs := by
    rw [htick, drainAll_eq s.core.ring.cq s₁ hcq]
    exact hmidway.objs
  refine ⟨htick ▸ noSender_nil, fun tr u hu hopen => ?_⟩
  rw [hobjs] at hu
  have heven := h.even tr u hu hopen
  have hnothing : s.due s.batch tr = 0 := by
    rw [due, hidle.1.2, hidle.2]
    rfl
  -- when the tick begins, nothing is due either
  have hstart : s₁.due s₁.core.scheduler tr = 0 := by
    rw [due, hscheduler, credit_noSender h.noSender, hresults]
    rfl
  have hdue : (s.startTick clock enter).due (s.startTick clock enter).batch tr =
      (s.core.ring.cq.map (w.taken tr)).sum := by
    have hall := due_drainAll hmidway h.futures hsenders hcq ⟨u, hu, hopen⟩ hcounts
    rw [hstart, Nat.zero_add] at hall
    rw [← hall, htick]
    rfl
  have hreported : (s.startTick clock enter).reported w tr =
      s.reported w tr + (s.core.ring.cq.map (w.taken tr)).sum := by
    rw [reported, hdrained, List.map_append, List.sum_append, reported]
  omega

theorem startTick (h : s.SizesKept w) {clock : T} {enter : Except String Nat}
    (hkeeps : KeepsSizes (s, w) (.startTick clock enter))
    (hstep : s.step (.startTick clock enter) = some t) : t.SizesKept w := by
  obtain ⟨hidle, rfl⟩ := step_startTick.mp hstep
  by_cases hflushes : s.core.Flushes enter
  · obtain ⟨hknown, hbounded⟩ := h.recorded hstep
    obtain ⟨hnone, heven⟩ := h.ticked hidle hflushes (hkeeps.2 hflushes)
    exact h.of_step hstep hnone hknown hbounded heven
  · have hresults := (startTick_accepts clock enter hidle).2.2
    rw [if_neg hflushes] at hresults
    have hticks : ¬ s.Ticks (.startTick clock enter) := by
      rintro ⟨clock', enter', heq, hflushes', -⟩
      cases heq
      exact hflushes hflushes'
    apply h.quiet hstep nofun hticks nofun nofun hkeeps.1
    · exact .inl (((step_moves hstep).rest_eq h.ends.core hticks nofun).1 id)
    · exact .inl hresults.2

/-- A write to an open transport adds to both sides. -/
theorem written (h : s.SizesKept w) {tr : TransportId} {data : Bytes} {env : Env} {t₀ : Transport}
    (ht : s.objs[tr]? = some t₀) (hopen : t₀.closing = false) (hdata : data ≠ [])
    (hfits : s.core.bufferPool.acquirable env.now = [] ∨ data.length ≤ s.core.bufferPool.bufferSize)
    (hstep : s.step (.call (.write tr data) env) = some t) :
    t.SizesKept (Writes.upd s (.call (.write tr data) env) t w) := by
  have hticks : ¬ s.Ticks (.call (.write tr data) env) := by
    rintro ⟨clock, enter, heq, -⟩
    cases heq
  have hrun : (.call (.write tr data) env : Act K T) ≠ .runHandle := by
    intro heq
    cases heq
  have hcall : s.write env tr data = t := (step_call.mp hstep).2
  obtain ⟨hbatch, hdrained⟩ := (step_moves hstep).rest_eq h.ends.core hticks hrun
  have hbatch := hbatch id
  obtain ⟨hknown, -⟩ := h.recorded hstep
  have hresults : t.results = s.results := hcall ▸ call_results env (.write tr data) s
  have hlt : tr < t.objs.length :=
    (List.getElem?_eq_some_iff.mp ht).1.trans_le (step_moves hstep).objs_length
  have hring := write_ring h.ends.core env ht hopen hdata
  rw [hcall] at hring
  have hrecorded : Recorded s t tr data w (Writes.upd s (.call (.write tr data) env) t w) := by
    apply Recorded.of_upd ⟨t₀, ht, hopen⟩
    exact hring.imp_right fun ⟨buf, e, hpush, hissued⟩ => ⟨t₀.fd, buf, e, hpush, hissued⟩
  apply h.of_step hstep (h.noSender_step hstep hticks) (hrecorded.writesKnown hknown hlt)
    (hrecorded.bounded h.issued h.known h.bounded hdrained)
  intro tr' u hu hopen'
  obtain ⟨u₀, hu₀, hopen₀, hsize⟩ := write_sizes h.ends ht hopen hdata hfits (hcall.symm ▸ hu) hopen'
  have heven := h.even tr' u₀ hu₀ hopen₀
  have hdue : t.due t.batch tr' = s.due s.batch tr' := by
    have hcredit := h.credit_step hstep (hbatch ▸ List.suffix_rfl) tr'
    have howed : t.results.map (owed t.transports tr') = s.results.map (owed s.transports tr') := by
      rw [hresults]
      apply List.map_congr_left
      intro r hr
      apply h.owed_step hstep _ _ hr (.inl ⟨u₀, hu₀, hopen₀⟩)
      · rintro fd ⟨⟩
      · rintro r' ⟨heq, -⟩
        cases heq
    rw [due, howed, hcredit, hbatch, due]
  rw [hrecorded.written, hrecorded.reported_eq h.issued hdrained, hdue, hsize]
  omega

theorem step (h : s.SizesKept w) (hkeeps : KeepsSizes (s, w) a) (hstep : s.step a = some t) :
    t.SizesKept (Writes.upd s a t w) := by
  have hrest (ha : a.handles = false) (haccounts : ¬ s.Accounts a) : t.SizesKept w := by
    obtain ⟨hplain, hrun⟩ := plain_of_handles s ha
    have hresults := results_cases h.accepts hstep ha
    apply h.quiet hstep haccounts hplain.ticks hrun _ hkeeps.1
    · by_cases hunwinds : s.Unwinds a
      · exact .inr ⟨(step_unwinds hstep hunwinds).1, hkeeps.2.noneCounting hunwinds⟩
      · exact .inl (((step_moves hstep).rest_eq h.ends.core hplain.ticks hrun).1 hunwinds)
    · exact hresults.imp_right fun hdrops => ⟨hdrops.1, hkeeps.2.noneCounts hdrops.2⟩
    · rintro rfl
      cases ha
  cases a with
  | startTick clock enter => exact h.startTick hkeeps hstep
  | runHandle => exact h.runHandle hstep
  | handleCompletion => exact h.handled hkeeps hstep
  | call c env =>
    cases c with
    | write tr data =>
      have hcall : s.write env tr data = t := (step_call.mp hstep).2
      by_cases hwrites : s.Open tr ∧ data ≠ []
      · obtain ⟨⟨t₀, ht, hopen⟩, hdata⟩ := hwrites
        exact h.written ht hopen hdata (hkeeps.2 ⟨t₀, ht, hopen⟩) hstep
      · obtain ⟨hsame, hupd⟩ := write_nothing env w hwrites
        obtain rfl : s = t := hsame.symm.trans hcall
        rwa [hupd]
    | _ => exact hrest rfl nofun
  | _ => exact hrest rfl nofun

omit [LE T] [DecidableLE T] in
theorem init {setup : Setup} {bufferSize bufferCount : Nat} {core : UringCore FutId (Handle K) T}
    (hnew : UringCore.new setup bufferSize bufferCount = .ok core) :
    (EventLoop.init core).SizesKept Writes.init := by
  refine ⟨acceptsSound_init hnew, endsKept_init hnew, IssuedSound.init hnew, ?_, ?_, ?_, ?_, ?_, ?_, ?_⟩
  · refine ⟨fun fut f tr fut' hf => ?_, fun fd kind fut f hfut => ?_, fun tr fut hmem => ?_⟩
    · cases hf
    · cases hfut
    · rcases UringCore.new_spec hnew with ⟨entries, pool, -, rfl⟩
      cases hmem
  · rcases UringCore.new_spec hnew with ⟨entries, pool, -, rfl⟩
    exact noSender_nil
  · intro fd fd' fut hfut
    rcases UringCore.new_spec hnew with ⟨entries, pool, -, rfl⟩
    cases hfut
  · intro fd tr htr
    cases htr
  · refine ⟨fun n tr hn => ?_, fun tr _ => rfl⟩
    cases hn
  · intro tr
    rcases UringCore.new_spec hnew with ⟨entries, pool, -, rfl⟩
    exact Nat.le_refl 0
  · intro tr u hu
    cases hu

omit [LE T] [DecidableLE T] in
/-- What a step takes off was due. -/
theorem reduces_le (h : s.SizesKept w) {tr : TransportId} {n : Int} {u : Transport}
    (hreduces : s.reduces? a = some (tr, n)) (hu : s.objs[tr]? = some u) (hopen : u.closing = false) :
    n ≤ u.writeBufferSize := by
  have heven := h.even tr u hu hopen
  have hle := reported_le h.bounded tr
  have hdue : n.toNat ≤ s.due s.batch tr := by
    unfold reduces? at hreduces
    split at hreduces
    · split at hreduces
      · rename_i tr' fut rest hbatch
        split at hreduces
        · rename_i m hstate
          cases hreduces
          have hcredit : s.credit tr (.onWriteComplete tr fut) = n.toNat := by
            unfold credit
            dsimp only
            rw [if_pos rfl, hstate]
            rfl
          rw [due, hbatch, List.map_cons, List.sum_cons, hcredit]
          omega
        · cases hreduces
      · cases hreduces
    · split at hreduces
      · rename_i r rest hresults
        split at hreduces
        · rename_i hop
          obtain ⟨tr', hlookup, heq⟩ := Option.map_eq_some_iff.mp hreduces
          cases heq
          have howed : owed s.transports tr r = r.result.toNat := if_pos ⟨hop, hlookup⟩
          rw [due, hresults, List.map_cons, List.sum_cons, howed]
          omega
        · cases hreduces
      · cases hreduces
    · cases hreduces
  omega

omit [LE T] [DecidableLE T] in
/-- When nothing is under way, nothing is due. -/
theorem right (h : s.SizesKept w) : SizesRight (s, w) where
  exact hidle tr u hu hopen := by
    have heven := h.even tr u hu hopen
    simp only [idle, Bool.and_eq_true, List.isEmpty_iff] at hidle
    rw [due, hidle.1.2, hidle.2] at heven
    exact heven
  unclamped a tr n u hreduces hu hopen := h.reduces_le hreduces hu hopen

end SizesKept

/-! ## Runs -/

def writeMachine : Machine (EventLoop K T × Writes) (Act K T) := machine.ghost Writes.upd

/-- In a run whose completions of sends are counted once, the size of every open transport is what was
written less what was reported. -/
theorem sizes_right {setup : Setup} {bufferSize bufferCount : Nat}
    {core : UringCore FutId (Handle K) T} (hnew : UringCore.new setup bufferSize bufferCount = .ok core)
    {acts : List (Act K T)} {x : EventLoop K T × Writes}
    (hkeeps : writeMachine.Meets KeepsSizes (EventLoop.init core, Writes.init) acts)
    (hrun : writeMachine.run (EventLoop.init core, Writes.init) acts = some x) : SizesRight x := by
  have hend := Machine.run_invariant (M := writeMachine)
    (I := fun x : EventLoop K T × Writes => x.1.SizesKept x.2) ?_ (.init hnew) hkeeps hrun
  · exact hend.right
  · rintro ⟨s, w⟩ a ⟨t, w'⟩ h hk hstep
    obtain ⟨hnext, rfl⟩ := Machine.ghost_step_mk.mp hstep
    exact h.step hk hnext

end

/-- A transport of the program's own, which is in no table, sends in two goes. -/
def ownSendRun : List (Act Unit Nat) :=
  [.call (.newTransport 5) ⟨0, .ok 1⟩, .call (.write 0 [1, 2]) ⟨0, .ok 1⟩,
    .complete 0 (.count 1) false false, .startTick 0 (.ok 0), .runHandle,
    .ret (.value true) ⟨0, .ok 1⟩, .handleCompletion, .call (.write 0 [3]) ⟨0, .ok 1⟩,
    .complete 0 (.count 1) false false, .startTick 0 (.ok 0), .runHandle,
    .ret (.value true) ⟨0, .ok 1⟩, .handleCompletion]

/-- A connection sends half of its data. -/
def halfSentRun : List (Act Unit Nat) :=
  [.call (.createConnection 5) ⟨0, .ok 1⟩, .ret (.value true) ⟨0, .ok 1⟩,
    .call (.write 0 [1, 2]) ⟨0, .ok 1⟩, .complete 1 (.count 1) false false, .startTick 0 (.ok 0),
    .runHandle, .ret (.value true) ⟨0, .ok 1⟩, .handleCompletion, .ret (.value true) ⟨0, .ok 1⟩]

theorem sizes_right_own : ∃ core x, UringCore.new (Setup.plain) 16 4 = .ok core ∧
    writeMachine.run (init core, Writes.init) ownSendRun = some x ∧ SizesRight x ∧
    x.1.objs.map Transport.writeBufferSize = [1] ∧ x.2.written 0 = 3 :=
  ⟨_, _, rfl, rfl, sizes_right (show UringCore.new Setup.plain 16 4 = .ok _ from rfl) (by decide)
    (show writeMachine.run _ ownSendRun = some _ from rfl), rfl, rfl⟩

/-- The callback has counted the completion, and so has the handler. -/
theorem not_sizes_right : ∃ core x, UringCore.new (Setup.plain) 16 4 = .ok core ∧
    writeMachine.run (init core, Writes.init) halfSentRun = some x ∧ ¬ SizesRight x := by
  refine ⟨_, _, rfl, rfl, fun h => ?_⟩
  have hsize : 0 + 1 = 2 := h.exact rfl 0 _ rfl rfl
  cases hsize

end EventLoop

end Uringcore
