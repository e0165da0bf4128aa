import Uringcore.EventLoop.Issued

/-!
# The data of a multishot receive

One submission of `submit_recv_multishot` answers with any number of completions, and it has one
future, which is removed from the futures map with the first. The later completions find no future,
in `run_tick` and in `_handle_recv_completion`, and their data is dropped.

`stream` is the data the ticks have seen for a submission, `received` what its consumer has got.
They agree as long as every completion with data finds the submission's own future still waiting,
which can be so for one completion only.
-/

namespace Uringcore

namespace EventLoop
variable {K T : Type}

/-- The future of the multishot receive that was submitted with the number `n`. -/
def multishot? (s : EventLoop K T) (n : Nat) : Option FutId :=
  match s.issued[n]? with
  | some (_, .recvMultishot fut) => some fut
  | _ => none

/-- The data of the processed completions of the submission `n` with a positive result. -/
def stream (s : EventLoop K T) (n : Nat) : List Value :=
  (s.drained.filter fun c => c.sqe.seq = n ∧ 0 < c.payload.result).map
    fun c => .data (.bytes c.payload.bytes)

/-- The data a future has been resolved with. -/
def received (s : EventLoop K T) (fut : FutId) : List Value :=
  match s.futState fut with
  | some (.result v) => if v.truthy then [v] else []
  | _ => []

/-- Every consumer of a multishot receive has got all the data of its completions, in order. -/
def StreamsDelivered (s : EventLoop K T) : Prop :=
  ∀ n fut, s.multishot? n = some fut → s.received fut = s.stream n

/-- The provided buffer the kernel has selected still holds the data. -/
def Intact (s : EventLoop K T) (c : Cqe) : Prop :=
  ∃ b ∈ c.buf, c.payload = .data c.payload.bytes ∧
    s.core.bufferPool.getBufferSlice b c.payload.bytes.length = c.payload.bytes

instance (s : EventLoop K T) (c : Cqe) : Decidable (s.Intact c) :=
  inferInstanceAs (Decidable (∃ b ∈ c.buf, _ ∧ _))

/-- A completion with a positive result that a tick from `s` comes to after `pre`: one of a multishot
receive finds that receive's own future waiting and its data in the buffer, and no other finds the
waiting future of a multishot receive. -/
structure Serves (s : EventLoop K T) (pre : List Cqe) (c : Cqe) : Prop where
  own : ∀ fut ∈ s.multishot? c.sqe.seq,
    s.takes pre c.sqe.fd = some fut ∧ s.Waits fut ∧ s.Intact c
  others : ∀ fut ∈ s.takes pre c.sqe.fd, s.Waits fut →
    ∀ n < s.issued.length, s.multishot? n = some fut → n = c.sqe.seq

instance (s : EventLoop K T) (pre : List Cqe) (c : Cqe) : Decidable (s.Serves pre c) :=
  have : Decidable (∀ fut ∈ s.multishot? c.sqe.seq,
      s.takes pre c.sqe.fd = some fut ∧ s.Waits fut ∧ s.Intact c) := Option.decidableForallMem _
  have : Decidable (∀ fut ∈ s.takes pre c.sqe.fd, s.Waits fut →
      ∀ n < s.issued.length, s.multishot? n = some fut → n = c.sqe.seq) :=
    Option.decidableForallMem _
  decidable_of_iff (_ ∧ _) ⟨fun h => ⟨h.1, h.2⟩, fun h => ⟨h.own, h.others⟩⟩

/-- A tick that gets to its completions serves all of them. -/
def KeepsStreams (s : EventLoop K T) : Act K T → Prop
  | .startTick _ enter => s.core.Flushes enter →
      InTurn (fun pre c => 0 < c.payload.result → s.Serves pre c) [] s.core.ring.cq
  | _ => True

instance (s : EventLoop K T) : ∀ a : Act K T, Decidable (s.KeepsStreams a)
  | .startTick .. => inferInstanceAs (Decidable (_ → _))
  | .consume _ | .complete .. | .callSoon _ | .runHandle | .handleCompletion | .ret .. | .rearmAccept _
  | .call .. => .isTrue trivial

/-! ## One completion -/

theorem received_eq_nil {s : EventLoop K T} {fut : FutId}
    (h : ∀ v, s.futState fut = some (.result v) → v.truthy = false) : s.received fut = [] := by
  unfold received
  split
  · rename_i v hv
    simp [h v hv]
  · rfl

theorem received_waits {s : EventLoop K T} {fut : FutId} (h : s.Waits fut) : s.received fut = [] := by
  apply received_eq_nil
  intro v hv
  cases h.symm.trans hv

/-- A completion without data resolves a future with something falsy, or not with a result. -/
theorem outcome_falsy {core : UringCore FutId (Handle K) T} {c : Cqe} (h : c.payload.result ≤ 0)
    {v : Value} (hv : (core.process c.entry).2.1.outcome.futState = .result v) : v.truthy = false := by
  have hnot : ¬ 0 < c.entry.result := Int.not_lt.mpr h
  have hitem : ∃ data, (core.process c.entry).2.1 = ⟨c.entry.fd, c.entry.result, c.entry.opType, data⟩ ∧
      ((core.process c.entry).2.1.isRecv → data = none) := by
    unfold UringCore.process UringCore.extract
    cases c.entry.opType with
    | recvMulti =>
      cases c.entry.bufferIndex with
      | none => exact ⟨none, rfl, fun _ => rfl⟩
      | some b =>
        simp only [hnot, if_false]
        exact ⟨none, rfl, fun _ => rfl⟩
    | recv | recvMsg =>
      refine ⟨_, rfl, fun _ => ?_⟩
      unfold UringCore.extractRecv
      split
      · rfl
      · simp only [hnot, if_false]
    | sendMsg => exact ⟨_, rfl, fun hrecv => by simp [CompletionItem.isRecv] at hrecv⟩
    | _ => exact ⟨none, rfl, fun _ => rfl⟩
  rcases hitem with ⟨data, hitem, hdata⟩
  have hresult : (core.process c.entry).2.1.result = c.payload.result := by rw [hitem]; rfl
  unfold CompletionItem.outcome at hv
  rw [hresult] at hv
  split at hv
  · cases hv
  · have hzero : c.payload.result = 0 := by omega
    split at hv
    · rename_i hrecv
      have hnone : (core.process c.entry).2.1.dataBytes = none := by
        rw [hitem]
        exact hdata hrecv
      rw [hnone] at hv
      cases hv
      rfl
    · rw [hzero] at hv
      cases hv
      rfl

/-- What a multishot completion with data resolves a future with, if the buffer still has it. -/
theorem outcome_multishot {s : EventLoop K T} {c : Cqe} (hop : c.sqe.op.opType = .recvMulti)
    (hintact : s.Intact c) (hpos : 0 < c.payload.result) :
    (s.core.process c.entry).2.1.outcome.futState = .result (.data (.bytes c.payload.bytes)) ∧
      (Value.data (.bytes c.payload.bytes)).truthy = true := by
  rcases hintact with ⟨b, hb, hdata, hslice⟩
  have hb : c.buf = some b := hb
  have hlength : c.payload.result = c.payload.bytes.length := by
    rw [hdata]
    rfl
  have hitem : (s.core.process c.entry).2.1 = (s.core.extract c.entry).2 := rfl
  rw [hitem, UringCore.extract_recvMulti _ (by rw [Cqe.entry_opType, hop]), Cqe.entry_bufferIndex, hb]
  have hnat : c.payload.result.toNat = c.payload.bytes.length := by
    rw [hlength]
    rfl
  have hnot : ¬ c.payload.result < 0 := by omega
  refine ⟨?_, ?_⟩
  · simp [CompletionItem.outcome, CompletionItem.isRecv, hnot, hpos, hnat, hslice,
      Outcome.futState]
  · cases hbytes : c.payload.bytes with
    | nil => simp [hlength, hbytes] at hpos
    | cons x xs => rfl

/-! ## The moves -/

section
variable {s₀ s t : EventLoop K T} {a : Act K T}

/-- The future of a multishot receive is in no table of the loop. -/
theorem IssuedSound.multishot_not_io (h : s.IssuedSound) {n : Nat} {fut : FutId}
    (hfut : s.multishot? n = some fut) (fd : Fd) (kind : IoKind) : s.ioLookup fd kind ≠ some fut := by
  intro hio
  unfold multishot? at hfut
  split at hfut
  · rename_i fd' fut' hissued
    cases hfut
    have hkind := ((h.ioFutures fd kind fut hio).2 _ (List.mem_of_getElem? hissued) rfl).2
    cases hkind
  · cases hfut

theorem multishot?_eq_some {s : EventLoop K T} {n : Nat} {fut : FutId} :
    s.multishot? n = some fut ↔ ∃ fd, s.issued[n]? = some (fd, .recvMultishot fut) := by
  unfold multishot?
  split
  · rename_i fd fut' hissued
    simp [hissued]
  · rename_i hnot
    refine ⟨nofun, fun ⟨fd, h⟩ => absurd h (hnot fd fut)⟩

/-- The completion that a tick comes to is served. -/
theorem StreamsDelivered.drainOne (h : s.StreamsDelivered) (hi : s.IssuedSound)
    (hi₀ : s₀.IssuedSound) {pre : List Cqe} {c : Cqe} {cs : List Cqe} (hmidway : s₀.Midway pre s)
    (hcq : s.core.ring.cq = c :: cs) (hserves : 0 < c.payload.result → s₀.Serves pre c) :
    (s.drainOne c cs).StreamsDelivered := by
  have hone := drainOne_eq c cs s
  have hissued : (s.drainOne c cs).issued = s.issued := by rw [hone]
  have hstream (n : Nat) : (s.drainOne c cs).stream n = s.stream n ++
      if c.sqe.seq = n ∧ 0 < c.payload.result then [.data (.bytes c.payload.bytes)] else [] := by
    unfold stream
    rw [hone]
    show ((s.drained ++ [c]).filter _).map _ = _
    rw [List.filter_append, List.map_append]
    congr 1
    split <;> simp_all
  -- the future this completion takes is known when the tick begins
  have htakes : s₀.takes pre c.sqe.fd = s.core.futures.lookup c.sqe.fd := (hmidway.futures _).symm
  have hmultishot₀ (n : Nat) : s₀.multishot? n = s.multishot? n := by
    rw [multishot?, multishot?, hmidway.issued]
  intro n fut hfut
  have hfut : s.multishot? n = some fut := by rwa [multishot?, hissued] at hfut
  have hbefore := h n fut hfut
  rcases multishot?_eq_some.mp hfut with ⟨fd, hn⟩
  rw [hstream]
  by_cases hown : c.sqe.seq = n ∧ 0 < c.payload.result
  · rw [if_pos hown]
    rcases hown with ⟨rfl, hpos⟩
    rcases (hserves hpos).own fut ((hmultishot₀ _).trans hfut) with ⟨htaken, hwaits₀, hintact₀⟩
    have hwaits : s.Waits fut := by
      apply hmidway.waits_of_takes hi₀ htaken hwaits₀ (n := c.sqe.seq)
      · rw [← hmidway.issued]
        exact hn
      · rfl
    have hop : c.sqe.op.opType = .recvMulti := by
      rcases hi.names_cq (by rw [hcq]; exact List.mem_cons_self) with ⟨req, hreq, hop⟩
      rw [hn] at hreq
      cases hreq
      exact hop.symm
    have hintact : s.Intact c := by
      unfold Intact BufferPool.getBufferSlice at hintact₀ ⊢
      rwa [hmidway.bufferPool.1, hmidway.bufferPool.2]
    rcases outcome_multishot hop hintact hpos with ⟨hstate, htruthy⟩
    rw [← hbefore, received_waits hwaits, received, drainOne_futState,
      if_pos ⟨htakes.symm.trans htaken, hwaits⟩, hstate]
    simp [htruthy]
  · rw [if_neg hown, List.append_nil, ← hbefore]
    by_cases hhit : s.core.futures.lookup c.sqe.fd = some fut ∧ s.Waits fut
    · have hnonpos : c.payload.result ≤ 0 := by
        apply Int.not_lt.mp
        intro hpos
        have hlt : n < s₀.issued.length := by
          rw [← hmidway.issued]
          exact (List.getElem?_eq_some_iff.mp hn).1
        have hseq := (hserves hpos).others fut (htakes.trans hhit.1) (hmidway.waits fut hhit.2) n hlt
          ((hmultishot₀ n).trans hfut)
        exact hown ⟨hseq.symm, hpos⟩
      rw [received_waits hhit.2]
      apply received_eq_nil
      intro v hv
      rw [drainOne_futState, if_pos hhit, Option.some_inj] at hv
      exact outcome_falsy hnonpos hv
    · unfold received
      rw [drainOne_futState, if_neg hhit]

theorem StreamsDelivered.calm (h : s.StreamsDelivered) (hi : s.IssuedSound) (hcalm : Calm s₀ a s t) :
    t.StreamsDelivered := by
  intro n fut hfut
  have hfut : s.multishot? n = some fut := by rwa [multishot?, hcalm.issued] at hfut
  have hstream : t.stream n = s.stream n := by rw [stream, stream, hcalm.drained]
  rw [hstream, ← h n fut hfut]
  rcases hcalm.futState fut with hsame | ⟨hwaits, state, hstate, hsettles⟩
  · rw [received, received, hsame]
  · cases hsettles with
    | cancelled =>
      rw [received_waits hwaits]
      apply received_eq_nil
      intro v hv
      cases hstate.symm.trans hv
    | io hr hs₀ hsettles hio => exact absurd hio (hi.multishot_not_io hfut _ _)

/-- A submission adds at most its own future, under the next number. -/
theorem multishot?_submitNew {env : Env} {fd : Fd} {kind? : Option IoKind}
    {callbacks : FutId → List (Handle K)} {req : FutId → Request FutId}
    (hfuture : ∀ fut, (req fut).future? = some fut) {n : Nat} {fut : FutId}
    (h : (s.submitNew env fd kind? callbacks req).1.multishot? n = some fut) :
    s.multishot? n = some fut ∨ n = s.issued.length ∧ fut = s.futs.length := by
  rcases multishot?_eq_some.mp h with ⟨fd', hn⟩
  rw [submitNew_eq] at hn
  simp only at hn
  rcases Nat.lt_or_ge n s.issued.length with hlt | hge
  · rw [List.getElem?_append_left hlt] at hn
    exact .inl (multishot?_eq_some.mpr ⟨fd', hn⟩)
  · rw [List.getElem?_append_right hge] at hn
    split at hn
    · simp at hn
    · have hzero : n - s.issued.length = 0 := by
        have hlt := (List.getElem?_eq_some_iff.mp hn).1
        simpa using hlt
      rw [hzero] at hn
      have hreq := hfuture s.futs.length
      simp only [List.getElem?_cons_zero, Option.some_inj, Prod.mk.injEq] at hn
      rw [hn.2] at hreq
      exact .inr ⟨by omega, Option.some_inj.mp hreq⟩

/-- A new submission has no completion yet. -/
theorem StreamsDelivered.submitNew (h : s.StreamsDelivered) (hi : s.IssuedSound) (env : Env) (fd : Fd)
    (kind? : Option IoKind) (callbacks : FutId → List (Handle K)) (req : FutId → Request FutId)
    (hfuture : ∀ fut, (req fut).future? = some fut) :
    (s.submitNew env fd kind? callbacks req).1.StreamsDelivered := by
  intro n fut hfut
  have hstream : (s.submitNew env fd kind? callbacks req).1.stream n = s.stream n := by
    rw [submitNew_eq]
    rfl
  rw [hstream]
  rcases multishot?_submitNew hfuture hfut with hold | ⟨rfl, rfl⟩
  · rcases multishot?_eq_some.mp hold with ⟨fd', hn⟩
    have hlt := hi.created _ (List.mem_of_getElem? hn) fut rfl
    rw [← h n fut hold, received, received, futState_submitNew _ _ _ _ _ hlt]
  · have hpending : (s.submitNew env fd kind? callbacks req).1.Waits s.futs.length := by
      rw [submitNew_eq, Waits]
      simp
    rw [received_waits hpending, stream, List.filter_eq_nil_iff.mpr, List.map_nil]
    intro c hc hown
    rcases hi.drained c hc with ⟨req', hreq', -⟩
    have hlt := (List.getElem?_eq_some_iff.mp hreq').1
    simp only [decide_eq_true_eq] at hown
    exact Nat.lt_irrefl _ (hown.1 ▸ hlt)

/-- A close adds a submission that is no multishot receive. -/
theorem StreamsDelivered.request_close (h : s.StreamsDelivered) (env : Env) (fd : Fd) :
    (s.request env fd .close).1.StreamsDelivered := by
  intro n fut hfut
  apply h n fut
  rcases multishot?_eq_some.mp hfut with ⟨fd', hn⟩
  have hn : (s.issued ++ if (s.core.request env.now env.enter fd .close).1.ring.tail =
      s.core.ring.tail then [] else [(fd, .close)])[n]? = some (fd', .recvMultishot fut) := hn
  apply multishot?_eq_some.mpr
  refine ⟨fd', ?_⟩
  obtain hn | ⟨-, hmem⟩ := History.append_cases hn
  · exact hn
  · split at hmem <;> simp at hmem

variable [LE T] [DecidableLE T]

theorem StreamsDelivered.move (h : s.StreamsDelivered) (hs : s.CoreSound) (hi : s.IssuedSound)
    (hi₀ : s₀.IssuedSound) (hkeeps : s₀.KeepsStreams a) (hmove : Move s₀ a s t) :
    t.StreamsDelivered := by
  cases hmove.issue hs with
  | calm hcalm => exact h.calm hi hcalm
  | completed ha hcomplete ht =>
    rw [ht]
    exact h
  | new env fd kind? callbacks req objs hfuture hkind hsend ht =>
    rw [ht]
    have hobjs : ({ s with objs } : EventLoop K T).StreamsDelivered := h
    exact hobjs.submitNew ⟨hi.length, hi.live, hi.drained, hi.created, hi.once, hi.ioFutures, hi.futures⟩
      env fd kind? callbacks req hfuture
  | close env fd ht =>
    rw [ht]
    exact h.request_close env fd
  | drained hticks hmidway hcq ht =>
    rename_i pre c cs
    rcases hticks with ⟨clock, enter, rfl, hflushes, -⟩
    have hall := hkeeps hflushes
    rw [hmidway.cq, hcq] at hall
    rw [ht]
    exact h.drainOne hi hi₀ hmidway hcq hall.at

theorem StreamsDelivered.step (h : s.CoreSound ∧ s.IssuedSound ∧ s.StreamsDelivered)
    (hkeeps : s.KeepsStreams a) (hstep : s.step a = some t) :
    t.CoreSound ∧ t.IssuedSound ∧ t.StreamsDelivered := by
  refine (step_moves hstep).rule (I := fun u => u.CoreSound ∧ u.IssuedSound ∧ u.StreamsDelivered) ?_ h
  rintro u v ⟨hs, hi, hu⟩ hmove
  exact ⟨hs.move hmove, hi.move hs hmove, hu.move hs hi h.2.1 hkeeps hmove⟩

/-- **Multishot receives.** In a run in which every tick serves its completions, every consumer of a
multishot receive has got all the data of its completions, once and in order. -/
theorem streams_delivered {setup : Setup} {bufferSize bufferCount : Nat}
    {core : UringCore FutId (Handle K) T} (hnew : UringCore.new setup bufferSize bufferCount = .ok core)
    {acts : List (Act K T)} (hkeeps : machine.Meets KeepsStreams (init core) acts)
    {t : EventLoop K T} (hrun : machine.run (init core) acts = some t) : t.StreamsDelivered := by
  have hinit : (init core).StreamsDelivered := by
    intro n fut hfut
    cases hfut
  exact (Machine.run_invariant (M := machine) (C := KeepsStreams)
    (I := fun s => s.CoreSound ∧ s.IssuedSound ∧ s.StreamsDelivered)
    (fun s a t h hk hstep => StreamsDelivered.step h hk hstep)
    ⟨coreSound_init hnew, IssuedSound.init hnew, hinit⟩ hkeeps hrun).2.2

end

/-- A multishot receive whose one completion the tick sees. -/
def onceRun : List (Act Unit Nat) :=
  [.call (.recvMultishot 5 ()) ⟨0, .ok 1⟩, .complete 0 (.data [1]) true true, .startTick 0 (.ok 0)]

/-- The kernel goes on, and the next tick sees the second completion. -/
def twiceRun : List (Act Unit Nat) :=
  onceRun ++ [.complete 0 (.data [2]) true true, .runHandle, .ret (.value true) ⟨0, .ok 1⟩,
    .handleCompletion, .startTick 0 (.ok 0), .handleCompletion]

theorem streams_delivered_once :
    ∃ core t, UringCore.new Setup.provided 16 2 = .ok core ∧
      machine.run (init core) onceRun = some t ∧ t.StreamsDelivered :=
  ⟨_, _, rfl, rfl, streams_delivered (show UringCore.new Setup.provided 16 2 = .ok _ from rfl)
    (by decide) (show machine.run _ onceRun = some _ from rfl)⟩

/-- The second completion finds no future: its data is lost. -/
theorem not_delivered_twice :
    ∃ core t, UringCore.new Setup.provided 16 2 = .ok core ∧
      machine.run (init core) twiceRun = some t ∧ t.multishot? 0 = some 0 ∧
      t.stream 0 = [.data (.bytes [1]), .data (.bytes [2])] ∧ t.received 0 = [.data (.bytes [1])] ∧
      t.idle = true :=
  ⟨_, _, rfl, rfl, rfl, rfl, rfl, rfl⟩

end EventLoop

end Uringcore
