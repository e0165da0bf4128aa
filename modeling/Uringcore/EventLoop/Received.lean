import Uringcore.EventLoop.Receiving

/-!
# What a resolved receive becomes

The future of a receive is resolved in a tick or by the handler of a completion, then its callback
hands the data over. Both move the balance of `Receiving` as long as the completion is the receive's
own; here each is shown to, and with the steps that only arm receives that makes whole runs.
-/

namespace Uringcore

/-- The data that a receive's callback hands over when it finds its future so. -/
def FutState.values : FutState → List Value
  | result v => if v.truthy then [v] else []
  | _ => []

namespace Ring

/-- The completions that wait in the ring are of different receives. -/
theorem Numbered.apart {ring : Ring} (h : ring.Numbered) : ring.cq.Pairwise Cqe.Apart := by
  have hfinished : (ring.cq.filter (!·.more)).Pairwise fun c c' => c.sqe.seq ≠ c'.sqe.seq := by
    have hnodup := h.nodup
    rw [outstanding, List.map_append, finished, List.map_map] at hnodup
    exact List.pairwise_map.mp (List.nodup_append.mp hnodup).2.1
  rw [List.pairwise_filter] at hfinished
  apply hfinished.imp_of_mem
  intro c c' hc hc' hne hrecv hrecv'
  apply hne
  · rw [h.single c hc hrecv]
    rfl
  · rw [h.single c' hc' hrecv']
    rfl

end Ring

namespace EventLoop
variable {K T : Type}

section
variable {s t : EventLoop K T} {r : Receivers} {B : List (Handle K)} {W : List Cqe}

theorem received_eq {fut : FutId} {state : FutState} (h : s.futState fut = some state) :
    s.received fut = state.values := by
  rw [received, h]
  cases state <;> rfl

/-! ## A future is resolved -/

/-- The waiting future of a receive of `tr` is resolved. -/
structure Resolved (s t : EventLoop K T) (tr : TransportId) (fut : FutId) (state : FutState) : Prop where
  waits : s.Waits fut
  futs : t.futs = s.futs.set fut ⟨state, []⟩
  scheduler : t.core.scheduler = s.core.scheduler ++ [.onRecvComplete tr fut]
  objs : t.objs = s.objs
  log : t.log = s.log
  io : t.ioFutures = s.ioFutures
  issued : t.issued = s.issued
  drained : t.drained = s.drained

theorem ReceiversSound.resolved (hr : ReceiversSound s r B) {fut : FutId} {tr : TransportId}
    (hown : r fut = some tr) (hwaits : s.Waits fut) (state : FutState) :
    Resolved s (s.setFuture fut state) tr fut state := by
  have hfut := hr.waits_callbacks hown hwaits
  rw [setFuture_eq, settle, hfut]
  exact ⟨hwaits, rfl, rfl, rfl, rfl, rfl, rfl, rfl⟩

namespace Resolved
variable {tr : TransportId} {fut : FutId} {state : FutState}

theorem futs_ne (h : s.Resolved t tr fut state) {fut' : FutId} (hne : fut ≠ fut') :
    t.futs[fut']? = s.futs[fut']? := by
  rw [h.futs, List.getElem?_set_ne hne]

theorem futState_self (h : s.Resolved t tr fut state) : t.futState fut = some state := by
  obtain ⟨f, hf, -⟩ := Option.map_eq_some_iff.mp h.waits
  have hlt := (List.getElem?_eq_some_iff.mp hf).1
  rw [futState, h.futs, List.getElem?_set_self hlt]
  rfl

theorem futState_ne (h : s.Resolved t tr fut state) {fut' : FutId} (hne : fut ≠ fut') :
    t.futState fut' = s.futState fut' := by
  rw [futState, h.futs_ne hne, futState]

/-- The others wait as before. -/
theorem waits_iff (h : s.Resolved t tr fut state) (hdone : state ≠ .pending) (fut' : FutId) :
    t.Waits fut' ↔ s.Waits fut' ∧ fut ≠ fut' := by
  by_cases heq : fut = fut'
  · subst heq
    have hself : (t.futs[fut]?).map AsyncFuture.state = some state := h.futState_self
    simp [Waits, hself, hdone]
  · rw [Waits, Waits, h.futs_ne heq]
    exact (and_iff_left heq).symm

theorem mem_queue (h : s.Resolved t tr fut state) {tr' : TransportId} {fut' : FutId}
    (hmem : .onRecvComplete tr' fut' ∈ B ++ t.core.scheduler) :
    .onRecvComplete tr' fut' ∈ B ++ s.core.scheduler ∨ tr' = tr ∧ fut' = fut := by
  rw [h.scheduler, ← List.append_assoc] at hmem
  rcases List.mem_append.mp hmem with hmem | hmem
  · exact .inl hmem
  · cases List.mem_singleton.mp hmem
    exact .inr ⟨rfl, rfl⟩

theorem outstanding (h : s.Resolved t tr fut state) (hdone : state ≠ .pending) (hown : r fut = some tr)
    {tr' : TransportId} {fut' : FutId} (hout : t.Outstanding r B tr' fut') :
    s.Outstanding r B tr' fut' := by
  rcases hout with ⟨hown', hwaits⟩ | hmem
  · exact .inl ⟨hown', ((h.waits_iff hdone fut').mp hwaits).1⟩
  · rcases h.mem_queue hmem with hmem | ⟨rfl, rfl⟩
    · exact .inr hmem
    · exact .inl ⟨hown, h.waits⟩

theorem open_iff (h : s.Resolved t tr fut state) (tr' : TransportId) : t.Open tr' ↔ s.Open tr' := by
  rw [Open, h.objs, Open]

theorem sound (h : s.Resolved t tr fut state) (hdone : state ≠ .pending) (hown : r fut = some tr)
    (hr : ReceiversSound s r B) : ReceiversSound t r B := by
  constructor
  case known =>
    intro fut' tr' hown'
    rw [h.futs, List.length_set, h.objs]
    exact hr.known fut' tr' hown'
  case callbacks =>
    intro fut' tr' f hown' hf hpending
    have hwaits : t.Waits fut' := by rw [Waits, hf, Option.map_some, hpending]
    rw [h.futs_ne ((h.waits_iff hdone fut').mp hwaits).2] at hf
    exact hr.callbacks fut' tr' f hown' hf hpending
  case others =>
    intro fut' f hown' hf
    have hne : fut ≠ fut' := by
      rintro rfl
      rw [hown] at hown'
      cases hown'
    rw [h.futs_ne hne] at hf
    exact hr.others fut' f hown' hf
  case queued =>
    intro tr' fut' hmem
    rw [h.waits_iff hdone]
    rcases h.mem_queue hmem with hmem | ⟨rfl, rfl⟩
    · obtain ⟨hown', hdone'⟩ := hr.queued tr' fut' hmem
      exact ⟨hown', fun hwaits => hdone' hwaits.1⟩
    · exact ⟨hown, fun hwaits => hwaits.2 rfl⟩
  case nodup =>
    rw [h.scheduler, ← List.append_assoc, List.filterMap_append, List.nodup_append]
    refine ⟨hr.nodup, List.nodup_singleton _, ?_⟩
    rintro ⟨tr', fut'⟩ hmem x hx rfl
    obtain ⟨handle, hmem, hreceiver⟩ := List.mem_filterMap.mp hmem
    cases handle <;> cases hreceiver
    have hx : (tr', fut') = (tr, fut) := List.mem_singleton.mp hx
    cases hx
    exact (hr.queued _ _ hmem).2 h.waits
  case single =>
    intro tr' hopen fut₁ fut₂ hout₁ hout₂
    exact hr.single tr' ((h.open_iff tr').mp hopen) fut₁ fut₂ (h.outstanding hdone hown hout₁)
      (h.outstanding hdone hown hout₂)
  case pending =>
    intro tr' t' ht' hopen fut' hout
    rw [h.objs] at ht'
    exact hr.pending tr' t' ht' hopen fut' (h.outstanding hdone hown hout)
  case io =>
    intro fd kind fut' tr' hfut'
    rw [ioLookup, h.io] at hfut'
    exact hr.io fd kind fut' tr' hfut'
  case logged =>
    intro tr' v hmem
    rw [h.log] at hmem
    rw [h.objs]
    exact hr.logged tr' v hmem

end Resolved

/-- Whatever future is settled, the receives stay sound. -/
theorem ReceiversSound.settle (hr : ReceiversSound s r B) (fut : FutId) {state : FutState}
    (hdone : state ≠ .pending) : ReceiversSound (s.setFuture fut state) r B := by
  by_cases hwaits : s.Waits fut
  · cases hown : r fut with
    | some tr => exact (hr.resolved hown hwaits state).sound hdone hown hr
    | none => exact hr.of_same (.setFuture state fun f hf _ => hr.others fut f hown hf)
  · apply hr.of_same
    apply SameReceives.setFuture
    intro f hf hpending
    exact absurd (by rw [Waits, hf, Option.map_some, hpending]) hwaits

/-- What a completion of the waiting receive owes is all that is unresolved. -/
theorem Balanced.unresolved_eq (hb : Balanced s r B W) (hr : ReceiversSound s r B) (hi : s.IssuedSound)
    {fut : FutId} {tr : TransportId} (hown : r fut = some tr) (hopen : s.Open tr) (hwaits : s.Waits fut)
    {c : Cqe} (hc : c ∈ W) (hfut : s.recvFuture? c.sqe.seq = some fut) :
    s.unresolved r tr W =
      if 0 < c.payload.result then [.data (.bytes c.payload.bytes)] else [] := by
  obtain ⟨before, after, rfl⟩ := List.append_of_mem hc
  -- another one that is owed would be of the same receive
  have hapart {c' : Cqe} (hc' : c' ∈ before ++ c :: after) (hpair : c'.Apart c ∨ c.Apart c') :
      ¬ s.Owes r tr c' := by
    rintro ⟨-, fut', hfut', hown', hwaits'⟩
    have heq := hr.single tr hopen fut fut' (.inl ⟨hown, hwaits⟩) (.inl ⟨hown', hwaits'⟩)
    subst heq
    have hseq := hi.recvFuture_inj hfut' hfut
    have hrecv : c.sqe.op.isRecv := (hi.drained c (hb.processed c hc)).isRecv hfut
    have hrecv' : c'.sqe.op.isRecv := (hi.drained c' (hb.processed c' hc')).isRecv hfut'
    rcases hpair with hpair | hpair
    · exact hpair hrecv' hrecv hseq
    · exact hpair hrecv hrecv' hseq.symm
  obtain ⟨-, hafter, hbefore⟩ := List.pairwise_append.mp hb.seqs
  have hfilter (l : List Cqe) (hl : ∀ c' ∈ l, ¬ s.Owes r tr c') :
      l.filter (fun c => s.Owes r tr c) = [] := by
    apply List.filter_eq_nil_iff.mpr
    intro c' hc'
    simpa using hl c' hc'
  have hown' : s.Owes r tr c ↔ 0 < c.payload.result :=
    ⟨fun h => h.1, fun h => ⟨h, fut, hfut, hown, hwaits⟩⟩
  unfold unresolved
  rw [List.filter_append, hfilter before, List.filter_cons, hfilter after]
  · by_cases hpos : 0 < c.payload.result <;> simp [hown', hpos]
  · intro c' hc'
    apply hapart (List.mem_append_right _ (List.mem_cons_of_mem _ hc'))
    exact .inr (List.rel_of_pairwise_cons hafter hc')
  · intro c' hc'
    apply hapart (List.mem_append_left _ hc')
    exact .inl (hbefore c' hc' c List.mem_cons_self)

/-- A completion that owes nothing has its turn. -/
theorem Balanced.drop {c : Cqe} (hb : Balanced s r B (c :: W))
    (hnone : ∀ tr, s.Open tr → ¬ s.Owes r tr c) : Balanced s r B W where
  processed c' hc' := hb.processed c' (List.mem_cons_of_mem _ hc')
  seqs := (List.pairwise_cons.mp hb.seqs).2
  balance tr hopen := by
    have hbalance := hb.balance tr hopen
    unfold unresolved at hbalance ⊢
    rwa [List.filter_cons_of_neg (by simpa using hnone tr hopen)] at hbalance

/-- The completions are lost, and owe nothing. -/
theorem Balanced.dropAll (hb : Balanced s r B W) (hnone : ∀ c ∈ W, ∀ tr, s.Open tr → ¬ s.Owes r tr c) :
    Balanced s r B [] := by
  induction W with
  | nil => exact hb
  | cons c W ih =>
    apply ih (hb.drop (hnone c List.mem_cons_self))
    exact fun c' hc' => hnone c' (List.mem_cons_of_mem _ hc')

theorem futState_setFuture (fut fut' : FutId) (state : FutState) (s : EventLoop K T) :
    (s.setFuture fut state).futState fut' = s.futState fut' ∨ fut = fut' ∧ s.Waits fut' := by
  rw [setFuture_eq]
  rcases @settle_state K s.futs fut fut' state with hsame | ⟨heq, hwaits, -⟩
  · exact .inl hsame
  · exact .inr ⟨heq, hwaits⟩

/-- A future is settled that no open transport waits for. -/
theorem Balanced.settle (hb : Balanced s r B W) (hr : ReceiversSound s r B) (hi : s.IssuedSound)
    {fut : FutId} (state : FutState) (hnot : ¬ s.Awaited r fut) :
    Balanced (s.setFuture fut state) r B W := by
  have hclosed {tr : TransportId} (hown : r fut = some tr) (hwaits : s.Waits fut) : ¬ s.Open tr :=
    fun hopen => hnot ⟨hwaits, tr, hown, hopen⟩
  have hobjs : (s.setFuture fut state).objs = s.objs := by rw [setFuture_eq]
  have hissued : (s.setFuture fut state).issued = s.issued := by rw [setFuture_eq]
  have hopen (tr : TransportId) (h : (s.setFuture fut state).Open tr) : s.Open tr := by
    rwa [Open, hobjs] at h
  apply hb.mono hr hi (fun _ _ => rfl)
  · exact fun tr h => .inr (hopen tr h)
  · intro fut' tr hown h
    rcases futState_setFuture fut fut' state s with hsame | ⟨rfl, hwaits⟩
    · exact hsame
    · exact absurd (hopen tr h) (hclosed hown hwaits)
  · rw [setFuture_eq]
    refine ⟨_, rfl, fun tr fut' hmem h => ?_⟩
    have h : s.Open tr := h
    rcases settle_cases s.futs fut state with ⟨-, hsettle⟩ | ⟨callbacks, hfut, hsettle⟩
    · rw [hsettle] at hmem
      cases hmem
    · have hmem : Handle.onRecvComplete tr fut' ∈ callbacks := by rwa [hsettle] at hmem
      have hwaits : s.Waits fut := by rw [Waits, hfut, Option.map_some]
      cases hown : r fut with
      | none => exact not_mem_noReceiver (hr.others fut _ hown hfut) tr fut' hmem
      | some tr' =>
        have hcallbacks : callbacks = [.onRecvComplete tr' fut] := hr.callbacks fut tr' _ hown hfut rfl
        rw [hcallbacks] at hmem
        cases List.mem_singleton.mp hmem
        exact hclosed hown hwaits h
  · rw [setFuture_eq]
    exact ⟨[], (List.append_nil _).symm, by simp⟩
  · exact hissued ▸ List.prefix_rfl
  · rw [setFuture_eq]

/-- The waiting receive of an open transport is resolved with what is unresolved of it. -/
theorem Resolved.balanced {tr : TransportId} {fut : FutId} {state : FutState}
    (h : s.Resolved t tr fut state) (hdone : state ≠ .pending) (hown : r fut = some tr)
    (hopen : s.Open tr) (hb : Balanced s r B W) (hr : ReceiversSound s r B)
    (hvalues : state.values = s.unresolved r tr W) : Balanced t r B W := by
  refine ⟨fun c hc => h.drained ▸ hb.processed c hc, hb.seqs, fun tr' hopen' => ?_⟩
  rw [h.open_iff] at hopen'
  have hfuture (n : Nat) : t.recvFuture? n = s.recvFuture? n := by
    rw [recvFuture?, h.issued, recvFuture?]
  have hready : t.ready tr' B = s.ready tr' B ++ if tr = tr' then state.values else [] := by
    unfold ready
    rw [h.scheduler, ← List.append_assoc, List.flatMap_append]
    congr 1
    · apply List.flatMap_congr
      intro handle hmem
      cases handle with
      | onRecvComplete tr₁ fut₁ =>
        have hne : fut ≠ fut₁ := by
          rintro rfl
          exact (hr.queued tr₁ fut hmem).2 h.waits
        simp only [owes, received_congr (h.futState_ne hne)]
      | _ => rfl
    · simp only [List.flatMap_cons, List.flatMap_nil, List.append_nil, owes,
        received_eq h.futState_self]
  -- of the receives that are still unresolved, none is of `tr`
  have howes (c : Cqe) : t.Owes r tr' c ↔ s.Owes r tr' c ∧ tr' ≠ tr := by
    constructor
    · rintro ⟨hpos, fut', hfut', hown', hwaits'⟩
      obtain ⟨hwaits', hne⟩ := (h.waits_iff hdone fut').mp hwaits'
      refine ⟨⟨hpos, fut', hfuture _ ▸ hfut', hown', hwaits'⟩, ?_⟩
      rintro rfl
      exact hne (hr.single tr' hopen fut fut' (.inl ⟨hown, h.waits⟩) (.inl ⟨hown', hwaits'⟩))
    · rintro ⟨⟨hpos, fut', hfut', hown', hwaits'⟩, hne⟩
      refine ⟨hpos, fut', (hfuture _).symm ▸ hfut', hown', (h.waits_iff hdone fut').mpr ⟨hwaits', ?_⟩⟩
      rintro rfl
      rw [hown, Option.some_inj] at hown'
      exact hne hown'.symm
  have hdelivered : t.delivered tr' = s.delivered tr' := by rw [delivered, h.log, delivered]
  have hcompleted : t.completed r tr' = s.completed r tr' := by
    unfold completed receiverOf
    simp only [h.drained, hfuture]
  rw [hdelivered, hcompleted, hready]
  by_cases htr : tr = tr'
  · subst htr
    have hnone : t.unresolved r tr W = [] := by
      rw [unresolved, List.map_eq_nil_iff, List.filter_eq_nil_iff]
      intro c _ howes'
      exact ((howes c).mp (of_decide_eq_true howes')).2 rfl
    rw [hnone, if_pos rfl, List.append_nil, hvalues]
    exact hb.balance tr hopen
  · have hsame : t.unresolved r tr' W = s.unresolved r tr' W := by
      unfold unresolved
      congr 1
      apply List.filter_congr
      intro c _
      apply decide_eq_decide.mpr
      rw [howes c]
      exact and_iff_left fun heq => htr heq.symm
    rw [hsame, if_neg htr, List.append_nil]
    exact hb.balance tr' hopen'

/-! ## A tick -/

/-- A completion is processed, and its future is still to be resolved. -/
def posted (s : EventLoop K T) (c : Cqe) (cs : List Cqe) : EventLoop K T := { s with
  core := s.core.processNext c cs
  results := s.results ++ [(s.core.process c.entry).2.1.tuple]
  drained := s.drained ++ [c] }

theorem drainOne_some {c : Cqe} {cs : List Cqe} {fut : FutId}
    (h : s.core.futures.lookup c.sqe.fd = some fut) : s.drainOne c cs =
      (s.posted c cs).setFuture fut (s.core.process c.entry).2.1.outcome.futState := by
  have hfut : (s.core.process c.entry).2.2 = some fut := by rw [UringCore.process, Cqe.entry_fd, h]
  unfold drainOne
  dsimp only
  rw [hfut]
  rfl

theorem drainOne_none {c : Cqe} {cs : List Cqe} (h : s.core.futures.lookup c.sqe.fd = none) :
    s.drainOne c cs = s.posted c cs := by
  have hfut : (s.core.process c.entry).2.2 = none := by rw [UringCore.process, Cqe.entry_fd, h]
  unfold drainOne
  dsimp only
  rw [hfut]
  rfl

theorem SameReceives.posted (s : EventLoop K T) (c : Cqe) (cs : List Cqe) :
    SameReceives s (s.posted c cs) :=
  { SameReceives.refl s with
    scheduler := ⟨[], by
      show (s.core.processNext c cs).scheduler = s.core.scheduler ++ []
      rw [UringCore.processNext_eq, List.append_nil], by simp [NoReceiver]⟩ }

/-- A completion of a transport's receive, with data, is processed while the receive waits. -/
theorem Balanced.posted (hb : Balanced s r B W) {c : Cqe} (cs : List Cqe)
    (hapart : ∀ c' ∈ W, c'.Apart c) (hown : ∀ fut tr, s.recvFuture? c.sqe.seq = some fut →
      0 < c.payload.result → r fut = some tr → s.Open tr → s.Waits fut) :
    Balanced (s.posted c cs) r B (W ++ [c]) := by
  refine ⟨?_, ?_, fun tr hopen => ?_⟩
  · intro c' hc'
    rcases List.mem_append.mp hc' with hc' | hc'
    · exact List.mem_append_left _ (hb.processed c' hc')
    · exact List.mem_append_right _ hc'
  · rw [List.pairwise_append]
    refine ⟨hb.seqs, List.pairwise_singleton _ _, fun c' hc' x hx => ?_⟩
    rw [List.mem_singleton.mp hx]
    exact hapart c' hc'
  · have hopen : s.Open tr := hopen
    have hready : (s.posted c cs).ready tr B = s.ready tr B := by
      show (B ++ (s.core.processNext c cs).scheduler).flatMap (s.owes tr) = _
      rw [UringCore.processNext_eq]
      rfl
    have howes : s.Owes r tr c ↔ s.receiverOf r c = some tr ∧ 0 < c.payload.result := by
      constructor
      · rintro ⟨hpos, fut, hfut, hr, -⟩
        exact ⟨Option.bind_eq_some_iff.mpr ⟨fut, hfut, hr⟩, hpos⟩
      · rintro ⟨hr, hpos⟩
        obtain ⟨fut, hfut, hr⟩ := Option.bind_eq_some_iff.mp hr
        exact ⟨hpos, fut, hfut, hr, hown fut tr hfut hpos hr hopen⟩
    have hunresolved : (s.posted c cs).unresolved r tr (W ++ [c]) = s.unresolved r tr W ++
        if s.Owes r tr c then [.data (.bytes c.payload.bytes)] else [] := by
      show ((W ++ [c]).filter fun c => s.Owes r tr c).map _ = _
      rw [List.filter_append, List.map_append, unresolved]
      by_cases h : s.Owes r tr c <;> simp [h]
    have hcompleted : (s.posted c cs).completed r tr = s.completed r tr ++
        if s.Owes r tr c then [.data (.bytes c.payload.bytes)] else [] := by
      show ((s.drained ++ [c]).filter fun c => s.receiverOf r c = some tr ∧ 0 < c.payload.result).map _ = _
      rw [List.filter_append, List.map_append, completed]
      simp only [howes]
      by_cases h : s.receiverOf r c = some tr ∧ 0 < c.payload.result <;> simp [h]
    rw [hunresolved, hcompleted, hready, ← hb.balance tr hopen]
    show s.delivered tr ++ _ = _
    simp only [List.append_assoc]

/-- What a receive's completion resolves its future with, if the tracked buffer still has the data. -/
theorem outcome_recv {c : Cqe} (hop : c.sqe.op.opType = .recv) {b : UInt16}
    (hb : s.core.inflightRecvBuffers.lookup c.sqe.fd = some b) (hdata : c.payload = .data c.payload.bytes)
    (hslice : s.core.bufferPool.getBufferSlice b c.payload.bytes.length = c.payload.bytes)
    (hpos : 0 < c.payload.result) :
    (s.core.process c.entry).2.1.outcome.futState = .result (.data (.bytes c.payload.bytes)) := by
  have hlength : c.payload.result = c.payload.bytes.length := by
    rw [hdata]
    rfl
  have hnat : c.payload.result.toNat = c.payload.bytes.length := by
    rw [hlength]
    rfl
  have hnot : ¬ c.payload.result < 0 := by omega
  have hitem : (s.core.process c.entry).2.1 = (s.core.extract c.entry).2 := rfl
  rw [hitem, UringCore.extract_recv (by rw [Cqe.entry_opType, hop]) (by rw [Cqe.entry_fd]; exact hb)]
  simp [CompletionItem.outcome, CompletionItem.isRecv, hnot, hpos, hnat, hslice, Outcome.futState]

theorem values_bytes {b : Bytes} (h : 0 < b.length) :
    (FutState.result (.data (.bytes b))).values = [.data (.bytes b)] := by
  cases b with
  | nil => cases h
  | cons x xs => rfl

theorem outcome_ne_pending (o : Outcome) : o.futState ≠ .pending := by cases o <;> nofun

theorem values_falsy {state : FutState} (h : ∀ v, state = .result v → v.truthy = false) :
    state.values = [] := by
  cases state with
  | result v => simp [FutState.values, h v rfl]
  | _ => rfl

theorem IssuedSound.posted (hi : s.IssuedSound) {c : Cqe} {cs : List Cqe}
    (hcq : s.core.ring.cq = c :: cs) : (s.posted c cs).IssuedSound := by
  have hdrained := hi.drainOne hcq
  have hlength := drainOne_length c cs s
  cases hfut : s.core.futures.lookup c.sqe.fd with
  | none => rwa [drainOne_none hfut] at hdrained
  | some fut =>
    rw [drainOne_some hfut, setFuture_eq] at hdrained hlength
    obtain ⟨hissued, hlive, hdone, hcreated, honce, hio, hfutures⟩ := hdrained
    refine ⟨hissued, hlive, hdone, ?_, honce, ?_, ?_⟩
    · intro x hx fut' hfut'
      exact Nat.lt_of_lt_of_eq (hcreated x hx fut' hfut') hlength
    · intro fd kind fut' hfut'
      obtain ⟨hlt, hown⟩ := hio fd kind fut' hfut'
      exact ⟨Nat.lt_of_lt_of_eq hlt hlength, hown⟩
    · intro fd fut' hfut'
      obtain ⟨hlt, hown⟩ := hfutures fd fut' hfut'
      exact ⟨Nat.lt_of_lt_of_eq hlt hlength, hown⟩

/-- What a tick from `s₀` keeps when it has processed `pre`. -/
structure Halfway (s₀ s : EventLoop K T) (r : Receivers) (pre : List Cqe) : Prop where
  midway : s₀.Midway pre s
  sound : ReceiversSound s r []
  balanced : Balanced s r [] pre
  issued : s.IssuedSound
  /-- The receives without a completion still wait. -/
  waits : ∀ fut, s₀.Awaited r fut → (∀ c ∈ pre, s₀.recvFuture? c.sqe.seq ≠ some fut) → s.Waits fut

section
variable {s₀ : EventLoop K T} {pre cs : List Cqe} {c : Cqe}

theorem Midway.recvFuture (h : s₀.Midway pre s) (n : Nat) : s₀.recvFuture? n = s.recvFuture? n := by
  rw [recvFuture?, recvFuture?, h.issued]

theorem Midway.bufferSlice (h : s₀.Midway pre s) (b : UInt16) (n : Nat) :
    s.core.bufferPool.getBufferSlice b n = s₀.core.bufferPool.getBufferSlice b n := by
  rw [BufferPool.getBufferSlice, BufferPool.getBufferSlice, h.bufferPool.1, h.bufferPool.2]

theorem Midway.outcome_recv (h : s₀.Midway pre s) (hop : c.sqe.op.opType = .recv)
    (hholds : s₀.Holds pre c) (hpos : 0 < c.payload.result) :
    (s.core.process c.entry).2.1.outcome.futState = .result (.data (.bytes c.payload.bytes)) := by
  obtain ⟨hfirst, b, hb, hdata, hslice⟩ := hholds
  have hkept := (h.bufferSlice b c.payload.bytes.length).trans hslice
  exact EventLoop.outcome_recv hop ((h.tracked _ hfirst).trans hb) hdata hkept hpos

theorem Midway.mem_cq (h : s₀.Midway pre s) (hcq : s.core.ring.cq = c :: cs) : c ∈ s₀.core.ring.cq := by
  rw [h.cq, hcq]
  exact List.mem_append_right _ List.mem_cons_self

/-- The completions of a tick do not complete a receive twice. -/
theorem Midway.apart (h : s₀.Midway pre s) (hs₀ : s₀.CoreSound) (hcq : s.core.ring.cq = c :: cs) :
    ∀ c' ∈ pre, c'.Apart c := by
  have hall := hs₀.sound.ring.apart
  rw [h.cq, hcq, List.pairwise_append] at hall
  exact fun c' hc' => hall.2.2 c' hc' c List.mem_cons_self

/-- The receive of a completion with data is waiting for it. -/
theorem Halfway.own (h : Halfway s₀ s r pre) (hs₀ : s₀.CoreSound) (hcq : s.core.ring.cq = c :: cs)
    (htakes : Takes (s₀, r) pre c) {fut : FutId} {tr : TransportId}
    (hfut : s.recvFuture? c.sqe.seq = some fut) (hpos : 0 < c.payload.result) (hown : r fut = some tr)
    (hopen : s.Open tr) : s.Waits fut := by
  have hfuture := h.midway.recvFuture
  rw [Open, h.midway.objs] at hopen
  have hwaits : s₀.Waits fut := (htakes.own fut ((hfuture _).trans hfut) hpos ⟨tr, hown, hopen⟩).1
  apply h.waits fut ⟨hwaits, tr, hown, hopen⟩
  intro c' hc' hfut'
  rw [hfuture] at hfut'
  have hapart : c'.Apart c := h.midway.apart hs₀ hcq c' hc'
  have hlive : s.Names c.sqe := h.issued.names_cq (by rw [hcq]; exact List.mem_cons_self)
  have hdrained : s.Names c'.sqe := h.issued.drained c' (h.balanced.processed c' hc')
  exact hapart (hdrained.isRecv hfut') (hlive.isRecv hfut) (h.issued.recvFuture_inj hfut' hfut)

/-- What the tick resolves the completion's own future with. -/
theorem Halfway.values (h : Halfway s₀ s r pre) (hcq : s.core.ring.cq = c :: cs)
    (htakes : Takes (s₀, r) pre c) {fut : FutId} {tr : TransportId}
    (htaken : s.core.futures.lookup c.sqe.fd = some fut) (hfut : s.recvFuture? c.sqe.seq = some fut)
    (hown : r fut = some tr) (hopen : s.Open tr) :
    (s.core.process c.entry).2.1.outcome.futState.values =
      if 0 < c.payload.result then [.data (.bytes c.payload.bytes)] else [] := by
  split
  · rename_i hpos
    have hfuture : s₀.recvFuture? c.sqe.seq = some fut := (h.midway.recvFuture _).trans hfut
    rw [Open, h.midway.objs] at hopen
    have htaken₀ : s₀.takes pre c.sqe.fd = some fut := (h.midway.futures _).symm.trans htaken
    have hholds := (htakes.own fut hfuture hpos ⟨tr, hown, hopen⟩).2 htaken₀
    have hlive : s.Names c.sqe := h.issued.names_cq (by rw [hcq]; exact List.mem_cons_self)
    rw [h.midway.outcome_recv (hlive.opType_recv hfut) hholds hpos]
    apply values_bytes
    obtain ⟨-, -, -, hdata, -⟩ := hholds
    rw [hdata] at hpos
    exact Int.natCast_pos.mp hpos
  · rename_i hnot
    apply values_falsy
    intro v hv
    exact outcome_falsy (Int.not_lt.mp hnot) hv

theorem Halfway.next (h : Halfway s₀ s r pre) (hs₀ : s₀.CoreSound) (hcq : s.core.ring.cq = c :: cs)
    (htakes : Takes (s₀, r) pre c) : Halfway s₀ (s.drainOne c cs) r (pre ++ [c]) := by
  have hfuture := h.midway.recvFuture
  have htaken : s₀.takes pre c.sqe.fd = s.core.futures.lookup c.sqe.fd := (h.midway.futures _).symm
  have hapart : ∀ c' ∈ pre, c'.Apart c := h.midway.apart hs₀ hcq
  have hsound : ReceiversSound (s.posted c cs) r [] := h.sound.of_same (.posted s c cs)
  have hbalanced : Balanced (s.posted c cs) r [] (pre ++ [c]) :=
    h.balanced.posted cs hapart fun fut tr hfut hpos hown hopen => h.own hs₀ hcq htakes hfut hpos hown hopen
  have hissued : (s.posted c cs).IssuedSound := h.issued.posted hcq
  refine ⟨h.midway.next hcq, ?_, ?_, h.issued.drainOne hcq, ?_⟩
  · cases hfut : s.core.futures.lookup c.sqe.fd with
    | none => rwa [drainOne_none hfut]
    | some fut =>
      rw [drainOne_some hfut]
      exact hsound.settle fut (outcome_ne_pending _)
  · cases hfut : s.core.futures.lookup c.sqe.fd with
    | none => rwa [drainOne_none hfut]
    | some fut =>
      rw [drainOne_some hfut]
      by_cases hawaited : (s.posted c cs).Awaited r fut
      · obtain ⟨hwaits, tr, hown, hopen⟩ := hawaited
        have hopen₀ : s₀.Open tr := by
          rw [Open, ← h.midway.objs]
          exact hopen
        -- the completion is the receive's own
        have hself : s.recvFuture? c.sqe.seq = some fut := by
          rw [← hfuture]
          exact htakes.others fut (htaken.trans hfut) ⟨h.midway.waits fut hwaits, tr, hown, hopen₀⟩
        have hvalues := h.values hcq htakes hfut hself hown hopen
        have hunresolved := hbalanced.unresolved_eq hsound hissued hown hopen hwaits
          (List.mem_append_right _ (List.mem_singleton.mpr rfl)) hself
        exact (hsound.resolved hown hwaits _).balanced (outcome_ne_pending _) hown hopen hbalanced
          hsound (hvalues.trans hunresolved.symm)
      · exact hbalanced.settle hsound hissued _ hawaited
  · intro fut hawaited hnone
    have hwaits : s.Waits fut :=
      h.waits fut hawaited fun c' hc' => hnone c' (List.mem_append_left _ hc')
    have hnot : ¬ (s.core.futures.lookup c.sqe.fd = some fut ∧ s.Waits fut) := by
      rintro ⟨hfut, -⟩
      exact hnone c (List.mem_append_right _ (List.mem_singleton.mpr rfl))
        (htakes.others fut (htaken.trans hfut) hawaited)
    have hstate := drainOne_futState c cs s fut
    rw [if_neg hnot] at hstate
    exact hstate.trans hwaits

theorem Halfway.all (hs₀ : s₀.CoreSound) {cqes : List Cqe} (h : Halfway s₀ s r pre)
    (hcq : s.core.ring.cq = cqes) (htakes : InTurn (Takes (s₀, r)) pre cqes) :
    Halfway s₀ (drainAll cqes s) r (pre ++ cqes) := by
  induction cqes generalizing s pre with
  | nil => rwa [List.append_nil]
  | cons c cs ih =>
    obtain ⟨hone, hrest⟩ := htakes
    have hcs : (s.drainOne c cs).core.ring.cq = cs := by
      rw [drainOne_eq, UringCore.processNext_eq]
    rw [List.append_cons]
    exact ih (h.next hs₀ hcq hone) hcs hrest

end

/-- The handles that are ready become the batch. -/
theorem Halfway.batched (h : Halfway s t r W) :
    ReceiversSound { t with batch := t.core.scheduler, core := { t.core with scheduler := [] } } r
        t.core.scheduler ∧
      Balanced { t with batch := t.core.scheduler, core := { t.core with scheduler := [] } } r
        t.core.scheduler W := by
  have hqueue : t.core.scheduler ++ [] = [] ++ t.core.scheduler := List.append_nil _
  refine ⟨⟨h.sound.known, h.sound.callbacks, h.sound.others, ?_, ?_, ?_, ?_, h.sound.io, h.sound.logged⟩,
    h.balanced.processed, h.balanced.seqs, ?_⟩
  · intro tr fut hmem
    exact h.sound.queued tr fut (hqueue ▸ hmem)
  · show ((t.core.scheduler ++ []).filterMap _).Nodup
    rw [hqueue]
    exact h.sound.nodup
  · intro tr hopen fut fut' hout hout'
    exact h.sound.single tr hopen fut fut' (hout.imp_right (hqueue ▸ ·)) (hout'.imp_right (hqueue ▸ ·))
  · intro tr t' ht' hopen fut hout
    exact h.sound.pending tr t' ht' hopen fut (hout.imp_right (hqueue ▸ ·))
  · intro tr hopen
    have hbalance := h.balanced.balance tr hopen
    show t.delivered tr ++ ((t.core.scheduler ++ []).flatMap (t.owes tr) ++ t.unresolved r tr W) =
      t.completed r tr
    rw [hqueue]
    exact hbalance

theorem drainAll_length (cqes : List Cqe) (s : EventLoop K T) :
    (drainAll cqes s).futs.length = s.futs.length := by
  induction cqes generalizing s with
  | nil => rfl
  | cons c cs ih => exact (ih (s.drainOne c cs)).trans (drainOne_length c cs s)

theorem waiting_congr (hresults : t.results = s.results) (hdrained : t.drained = s.drained) :
    t.waiting = s.waiting := by
  rw [waiting, hresults, hdrained, waiting]

theorem waiting_nil (hresults : s.results = []) : s.waiting = [] := by
  rw [waiting, hresults]
  exact List.drop_length

/-- After a tick its completions wait for their handlers. -/
theorem waiting_ticked {cqes : List Cqe} (hdrained : t.drained = s.drained ++ cqes)
    (hresults : t.results.map (fun r => (r.fd, r.opType, r.result)) = cqes.map Cqe.seen) :
    t.waiting = cqes := by
  have hlength := congrArg List.length hresults
  simp only [List.length_map] at hlength
  rw [waiting, hdrained, hlength, List.length_append, Nat.add_sub_cancel]
  exact List.drop_left

/-- What holds of the receives in every state that a run whose steps keep them reaches. -/
structure ReceivesKept (s : EventLoop K T) (r : Receivers) : Prop where
  accepts : s.AcceptsSound
  ends : s.EndsKept
  issued : s.IssuedSound
  sound : ReceiversSound s r s.batch
  balanced : Balanced s r s.batch s.waiting

section
variable [LE T] [DecidableLE T]

theorem ReceivesKept.startTick (h : s.ReceivesKept r) {clock : T} {enter : Except String Nat}
    (hidle : s.idle = true) (hkeeps : KeepsReceived (s, r) (.startTick clock enter)) :
    ReceiversSound (s.startTick clock enter) r (s.startTick clock enter).batch ∧
      Balanced (s.startTick clock enter) r (s.startTick clock enter).batch
        (s.startTick clock enter).waiting ∧
      (s.startTick clock enter).futs.length = s.futs.length := by
  have hs := h.ends.core
  obtain ⟨-, -, htick⟩ := startTick_accepts clock enter hidle
  simp only [idle, Bool.and_eq_true, List.isEmpty_iff] at hidle
  have hflush := SameReceives.flush hs clock enter
  cases hsubmit : (s.core.ring.submit enter).2 with
  | error e =>
    rw [startTick_error hsubmit]
    exact ⟨h.sound.of_same hflush, h.balanced.of_same h.sound h.issued hflush rfl, rfl⟩
  | ok n =>
    have hflushes : s.core.Flushes enter := by
      simp [UringCore.Flushes, hsubmit, Except.isOk, Except.toBool]
    rw [if_pos hflushes] at htick
    obtain ⟨hdrained, hresults⟩ := htick
    rw [waiting_ticked hdrained hresults]
    have hmove : Move s (.startTick clock enter) s
        { s with core := ((s.core.expireTimers clock).submit enter).1 } := .flushed clock enter
    have hsound₀ := h.sound
    have hbalanced₀ := h.balanced
    rw [hidle.1.2] at hsound₀ hbalanced₀
    rw [waiting_nil hidle.2] at hbalanced₀
    have hstart : Halfway s { s with core := ((s.core.expireTimers clock).submit enter).1 } r [] :=
      ⟨.start clock enter, hsound₀.of_same hflush, hbalanced₀.of_same hsound₀ h.issued hflush rfl,
        h.issued.move hs hmove, fun _ hawaited _ => hawaited.1⟩
    have hcq : (s.core.ring.submit enter).1.cq = s.core.ring.cq := Ring.cq_submit enter s.core.ring
    have hall := hstart.all hs hcq (hkeeps hflushes)
    rw [startTick_ok hsubmit hidle.2]
    exact ⟨hall.batched.1, hall.batched.2, drainAll_length _ _⟩

end

/-! ## A callback -/

theorem SameReceives.eof (tr : TransportId) (handler : Bool) (s : EventLoop K T) :
    SameReceives s (s.eofReceived tr handler) :=
  { SameReceives.refl s with log := ⟨[_], rfl, by simp⟩ }

theorem SameReceives.errorReceived (tr : TransportId) (exc : Exc) (s : EventLoop K T) :
    SameReceives s (s.errorReceived tr exc) := by
  apply SameReceives.forceClose
  simp [TransportEvent.isForced]

theorem SameReceives.sendCompleted (tr : TransportId) (result : Int) (handler : Bool)
    (s : EventLoop K T) : SameReceives s (s.sendCompleted tr result handler) := by
  unfold EventLoop.sendCompleted
  split
  · exact .refl s
  · split
    · exact .refl s
    · rename_i t₀ _ _
      have hmodify : SameReceives s (s.modify tr
          (.setWriteBufferSize (t₀.writeBufferSize - result.toNat))) := .modify fun _ _ hopen => ⟨hopen, id⟩
      dsimp only
      split
      · exact { hmodify with log := ⟨[_], rfl, by simp⟩ }
      · exact hmodify

/-- The other handles do nothing to a receive. -/
theorem SameReceives.execute {handle : Handle K} (hnone : handle.receiver? = none) (s : EventLoop K T) :
    SameReceives s (execute handle s) ∧ (execute handle s).batch = s.batch := by
  cases handle with
  | onRecvComplete tr fut => cases hnone
  | user k => exact ⟨{ SameReceives.refl s with }, rfl⟩
  | callConnectionLost tr exc =>
    exact ⟨{ SameReceives.refl s with log := ⟨[_], rfl, by simp⟩ }, rfl⟩
  | onWriteComplete tr fut =>
    have herror (exc : Exc) : SameReceives s (s.errorReceived tr exc) ∧
        (s.errorReceived tr exc).batch = s.batch := by
      refine ⟨.errorReceived tr exc s, ?_⟩
      unfold EventLoop.errorReceived EventLoop.forceClose
      split
      · rfl
      · split <;> rfl
    have hsent (n : Int) : SameReceives s (s.sendCompleted tr n false) ∧
        (s.sendCompleted tr n false).batch = s.batch := by
      refine ⟨.sendCompleted tr n false s, ?_⟩
      unfold EventLoop.sendCompleted
      split
      · rfl
      · split
        · rfl
        · dsimp only
          split <;> rfl
    show SameReceives s (s.onWriteComplete tr fut) ∧ (s.onWriteComplete tr fut).batch = s.batch
    unfold onWriteComplete
    split
    · exact ⟨.refl s, rfl⟩
    · split
      · exact ⟨.refl s, rfl⟩
      · split
        · exact herror _
        · exact hsent _
        · exact herror _
        · exact ⟨.refl s, rfl⟩
        · exact herror _
        · exact herror _

/-- A handle that is no receive's leaves the batch. -/
theorem ReceiversSound.tail {handle : Handle K} (h : ReceiversSound s r (handle :: B)) :
    ReceiversSound s r B := by
  have hmem {x : Handle K} (hx : x ∈ B ++ s.core.scheduler) : x ∈ handle :: B ++ s.core.scheduler :=
    List.mem_cons_of_mem _ hx
  refine ⟨h.known, h.callbacks, h.others, fun tr fut hx => h.queued tr fut (hmem hx), ?_, ?_, ?_, h.io,
    h.logged⟩
  · exact h.nodup.sublist ((List.sublist_cons_self _ _).filterMap _)
  · intro tr hopen fut fut' hout hout'
    exact h.single tr hopen fut fut' (hout.imp_right hmem) (hout'.imp_right hmem)
  · intro tr t₀ ht₀ hopen fut hout
    exact h.pending tr t₀ ht₀ hopen fut (hout.imp_right hmem)

theorem Balanced.tail {handle : Handle K} (h : Balanced s r (handle :: B) W)
    (hnone : ∀ p ∈ handle.receiver?, s.Open p.1 → s.received p.2 = []) : Balanced s r B W := by
  refine ⟨h.processed, h.seqs, fun tr hopen => ?_⟩
  have hbalance := h.balance tr hopen
  have howes : s.owes tr handle = [] := by
    cases handle with
    | onRecvComplete tr' fut =>
      by_cases htr : tr' = tr
      · subst htr
        exact (if_pos rfl).trans (hnone (tr', fut) rfl hopen)
      · exact if_neg htr
    | _ => rfl
  unfold ready at hbalance ⊢
  rwa [List.cons_append, List.flatMap_cons, howes, List.nil_append] at hbalance

/-- The batch is lost. -/
theorem ReceiversSound.unwound (h : ReceiversSound s r B) : ReceiversSound s r [] := by
  induction B with
  | nil => exact h
  | cons handle B ih => exact ih h.tail

/-- What is lost had no data for an open transport. -/
theorem Balanced.unwound (h : Balanced s r B W)
    (hnone : ∀ handle ∈ B, ∀ p ∈ handle.receiver?, s.Open p.1 → s.received p.2 = []) :
    Balanced s r [] W := by
  induction B with
  | nil => exact h
  | cons handle B ih =>
    apply ih (h.tail (hnone handle List.mem_cons_self))
    exact fun handle' hmem => hnone handle' (List.mem_cons_of_mem _ hmem)

section
variable {tr : TransportId} {fut : FutId}

/-- `_on_recv_complete` is called: the receive of its transport is over. -/
theorem ReceiversSound.called (h : ReceiversSound s r (.onRecvComplete tr fut :: B)) :
    ReceiversSound (s.modify tr (.setRecvPending false)) r B := by
  have htail := h.tail
  have hhead : .onRecvComplete tr fut ∈ Handle.onRecvComplete tr fut :: B ++ s.core.scheduler :=
    List.mem_cons_self
  have hlength : (s.objs.modify tr (.setRecvPending false)).length = s.objs.length :=
    List.length_modify ..
  have hopens {tr' : TransportId} {t' : Transport}
      (ht' : (s.objs.modify tr (.setRecvPending false))[tr']? = some t') (hopen : t'.closing = false) :
      ∃ t₀, s.objs[tr']? = some t₀ ∧ t₀.closing = false ∧ (tr ≠ tr' → t' = t₀) := by
    rw [List.getElem?_modify] at ht'
    obtain ⟨t₀, ht₀, rfl⟩ := Option.map_eq_some_iff.mp ht'
    by_cases htr : tr = tr'
    · simp only [htr, if_true] at hopen
      exact ⟨t₀, ht₀, hopen, fun hne => absurd htr hne⟩
    · simp only [htr, if_false] at hopen ⊢
      exact ⟨t₀, ht₀, hopen, fun _ => rfl⟩
  refine ⟨?_, htail.callbacks, htail.others, htail.queued, htail.nodup, ?_, ?_, htail.io, ?_⟩
  · intro fut' tr' hown
    show _ ∧ tr' < (s.objs.modify tr (.setRecvPending false)).length
    rw [hlength]
    exact h.known fut' tr' hown
  · rintro tr' ⟨t', ht', hopen⟩ fut₁ fut₂ hout₁ hout₂
    obtain ⟨t₀, ht₀, hopen₀, -⟩ := hopens ht' hopen
    exact htail.single tr' ⟨t₀, ht₀, hopen₀⟩ fut₁ fut₂ hout₁ hout₂
  · intro tr' t' ht' hopen fut' hout
    have hout : s.Outstanding r B tr' fut' := hout
    obtain ⟨t₀, ht₀, hopen₀, hkept⟩ := hopens ht' hopen
    by_cases htr : tr = tr'
    · -- another receive of the transport would be a second one
      subst htr
      have heq : fut' = fut := by
        apply h.single tr ⟨t₀, ht₀, hopen₀⟩ fut' fut _ (.inr hhead)
        exact hout.imp_right fun hmem => List.mem_cons_of_mem _ hmem
      subst heq
      rcases hout with ⟨-, hwaits⟩ | hmem
      · exact absurd hwaits (h.queued tr fut' hhead).2
      · have hnodup : ((tr, fut') :: (B ++ s.core.scheduler).filterMap Handle.receiver?).Nodup := h.nodup
        have hin : (tr, fut') ∈ (B ++ s.core.scheduler).filterMap Handle.receiver? :=
          List.mem_filterMap.mpr ⟨_, hmem, rfl⟩
        exact absurd hin (List.nodup_cons.mp hnodup).1
    · rw [hkept htr]
      exact htail.pending tr' t₀ ht₀ hopen₀ fut' hout
  · intro tr' v hmem
    show tr' < (s.objs.modify tr (.setRecvPending false)).length
    rw [hlength]
    exact h.logged tr' v hmem

/-- What the handle owed has been handed over. -/
theorem Balanced.called (h : Balanced s r (.onRecvComplete tr fut :: B) W)
    (hfuts : t.futs = s.futs) (hscheduler : t.core.scheduler = s.core.scheduler)
    (hissued : t.issued = s.issued) (hdrained : t.drained = s.drained)
    (hopen : ∀ tr', t.Open tr' → s.Open tr')
    (hdelivered : ∀ tr', t.Open tr' →
      t.delivered tr' = s.delivered tr' ++ s.owes tr' (.onRecvComplete tr fut)) : Balanced t r B W := by
  refine ⟨fun c hc => hdrained ▸ h.processed c hc, h.seqs, fun tr' htr' => ?_⟩
  have hbalance := h.balance tr' (hopen tr' htr')
  have hwaits (fut' : FutId) : t.Waits fut' ↔ s.Waits fut' := by rw [Waits, hfuts, Waits]
  have howes : t.owes tr' = s.owes tr' := by
    funext handle
    cases handle with
    | onRecvComplete tr₁ fut₁ =>
      have hstate : t.futState fut₁ = s.futState fut₁ := by rw [futState, hfuts, futState]
      simp only [owes, received_congr hstate]
    | _ => rfl
  have hfuture (n : Nat) : t.recvFuture? n = s.recvFuture? n := by
    rw [recvFuture?, hissued, recvFuture?]
  have hready : s.ready tr' (.onRecvComplete tr fut :: B) =
      s.owes tr' (.onRecvComplete tr fut) ++ t.ready tr' B := by
    rw [ready, ready, List.cons_append, List.flatMap_cons, hscheduler, howes]
  have hunresolved : t.unresolved r tr' W = s.unresolved r tr' W := by
    unfold unresolved
    congr 1
    apply List.filter_congr
    intro c _
    apply decide_eq_decide.mpr
    simp only [Owes, hfuture, hwaits]
  have hcompleted : t.completed r tr' = s.completed r tr' := by
    unfold completed receiverOf
    simp only [hdrained, hfuture]
  rw [hready] at hbalance
  rw [hdelivered tr' htr', hunresolved, hcompleted, ← hbalance]
  simp only [List.append_assoc]

/-- The callback of a receive hands its data over. -/
theorem received_onRecvComplete (hi : s.IssuedSound)
    (hr : ReceiversSound s r (.onRecvComplete tr fut :: B))
    (hb : Balanced s r (.onRecvComplete tr fut :: B) W) :
    ReceiversSound (s.onRecvComplete tr fut) r B ∧ Balanced (s.onRecvComplete tr fut) r B W := by
  have hcalled := hr.called
  obtain ⟨hown, -⟩ := hr.queued tr fut List.mem_cons_self
  have hlt := (hr.known fut tr hown).2
  have ht₀ := List.getElem?_eq_getElem hlt
  generalize s.objs[tr] = t₀ at ht₀
  have hopen (tr' : TransportId) (h : (s.modify tr (.setRecvPending false)).Open tr') : s.Open tr' := by
    obtain ⟨t', ht', hopen⟩ := h
    have ht' : (s.objs.modify tr (.setRecvPending false))[tr']? = some t' := ht'
    rw [List.getElem?_modify] at ht'
    obtain ⟨t₁, ht₁, rfl⟩ := Option.map_eq_some_iff.mp ht'
    refine ⟨t₁, ht₁, ?_⟩
    split at hopen <;> exact hopen
  -- nothing is handed over, and nothing was owed
  have hnothing (hnone : s.Open tr → s.received fut = []) :
      Balanced (s.modify tr (.setRecvPending false)) r B W := by
    apply hb.called (t := s.modify tr (.setRecvPending false)) rfl rfl rfl rfl hopen
    intro tr' htr'
    have howes : s.owes tr' (.onRecvComplete tr fut) = [] := by
      show (if tr = tr' then s.received fut else []) = []
      split
      · rename_i heq
        subst heq
        exact hnone (hopen tr htr')
      · rfl
    rw [howes, List.append_nil]
    rfl
  have hissued : (s.modify tr (.setRecvPending false)).IssuedSound :=
    ⟨hi.length, hi.live, hi.drained, hi.created, hi.once, hi.ioFutures, hi.futures⟩
  have hsame {u : EventLoop K T} (hnone : s.received fut = [])
      (h : SameReceives (s.modify tr (.setRecvPending false)) u)
      (hdrained : u.drained = s.drained) : ReceiversSound u r B ∧ Balanced u r B W :=
    ⟨hcalled.of_same h, (hnothing fun _ => hnone).of_same hcalled hissued h hdrained⟩
  have herror (hnone : s.received fut = []) (exc : Exc) :
      ReceiversSound ((s.modify tr (.setRecvPending false)).errorReceived tr exc) r B ∧
        Balanced ((s.modify tr (.setRecvPending false)).errorReceived tr exc) r B W := by
    apply hsame hnone (.errorReceived tr exc _)
    obtain ⟨_, _, _, _, h⟩ := SameTables.errorReceived tr exc (s.modify tr (.setRecvPending false))
    rw [h]
    rfl
  have hreceived {f? : Option FutState} (hf : (s.futs[fut]?).map AsyncFuture.state = f?)
      (hnot : ∀ v, f? ≠ some (.result v)) : s.received fut = [] := by
    apply received_eq_nil
    intro v hv
    exact absurd (hf.symm.trans hv) (hnot v)
  unfold onRecvComplete
  rw [ht₀]
  dsimp only
  split
  · rename_i hclosing
    refine ⟨hcalled, hnothing fun hopen => ?_⟩
    obtain ⟨t₁, ht₁, hopen⟩ := hopen
    rw [ht₀, Option.mem_some_iff] at ht₁
    rw [ht₁, hopen] at hclosing
    cases hclosing
  · split
    · rename_i errno hstate
      exact herror (hreceived hstate (by simp)) _
    · rename_i v hstate
      have hvalue : s.received fut = if v.truthy then [v] else [] := by
        have hstate : s.futState fut = some (.result v) := hstate
        exact received_eq hstate
      split
      · rename_i htruthy
        rw [if_pos htruthy] at hvalue
        refine ⟨{ hcalled with logged := ?_ }, ?_⟩
        · intro tr' v' hmem
          have hmem : .dataReceived tr' v' ∈ s.log ++ [.dataReceived tr v] := hmem
          rcases List.mem_append.mp hmem with hmem | hmem
          · exact hcalled.logged tr' v' hmem
          · cases List.mem_singleton.mp hmem
            exact (hcalled.known fut tr hown).2
        · apply hb.called (t := callProtocol (.dataReceived tr v) (.dataReceived tr)
            (s.modify tr (.setRecvPending false))) rfl rfl rfl rfl hopen
          intro tr' _
          show (s.log ++ [TransportEvent.dataReceived tr v]).filterMap (TransportEvent.delivered? tr') =
            s.delivered tr' ++ if tr = tr' then s.received fut else []
          rw [List.filterMap_append, hvalue, delivered]
          by_cases htr : tr = tr' <;> simp [TransportEvent.delivered?, htr]
      · rename_i hfalsy
        rw [if_neg hfalsy] at hvalue
        exact hsame hvalue (.eof tr false _) rfl
    · rename_i hstate
      exact ⟨hcalled, hnothing fun _ => hreceived hstate (by simp)⟩
    · rename_i hstate
      exact herror (hreceived hstate (by simp)) _
    · rename_i hstate
      exact herror (hreceived hstate (by simp)) _

end

end

end EventLoop

end Uringcore
