import Uringcore.EventLoop.Received

/-!
# Every receive is delivered once

The handlers of completions come last: `_handle_recv_completion` resolves the future it finds in
`_io_futures`. With the ticks and the callbacks of `Received` every step keeps the receives
(`ReceivesKept`), so a run does whose ticks and handlers resolve them for their own completions only.
-/

namespace Uringcore

namespace EventLoop
variable {K T : Type}

/-! ## A handler -/

/-- What `_handle_recv_completion` resolves the future with. -/
def recvState (result : Int) (data : Option PyData) : FutState :=
  match if 0 < result then truthyData data else none with
  | some d => .result (.data d)
  | none => if result = 0 then .result (.data (.bytes [])) else .exception (-result)

theorem recvState_ne_pending (result : Int) (data : Option PyData) : recvState result data ≠ .pending := by
  unfold recvState
  split
  · nofun
  · split <;> nofun

theorem recvState_bytes {result : Int} {b : Bytes} (hpos : 0 < result) (hb : 0 < b.length) :
    (recvState result (some (.bytes b))).values = [.data (.bytes b)] := by
  cases b with
  | nil => cases hb
  | cons x xs =>
    unfold recvState
    rw [if_pos hpos]
    rfl

theorem recvState_values {result : Int} (hle : ¬ 0 < result) (data : Option PyData) :
    (recvState result data).values = [] := by
  unfold recvState
  rw [if_neg hle]
  dsimp only
  split <;> rfl

/-- A handler settles its future for good. -/
theorem settles_ne_pending {r : ResultTuple} {kind : IoKind} {state : FutState}
    (h : r.settles = some (kind, state)) : state ≠ .pending := by
  rintro rfl
  have hplain (n : Int) : plainState n ≠ .pending := by
    unfold plainState
    intro h
    split at h <;> cases h
  unfold ResultTuple.settles at h
  split at h
  · exact recvState_ne_pending r.result r.data (Prod.mk.inj (Option.some_inj.mp h)).2
  · exact recvState_ne_pending r.result r.data (Prod.mk.inj (Option.some_inj.mp h)).2
  · exact hplain _ (Prod.mk.inj (Option.some_inj.mp h)).2
  · exact hplain _ (Prod.mk.inj (Option.some_inj.mp h)).2
  · have hmsg := (Prod.mk.inj (Option.some_inj.mp h)).2
    split at hmsg
    · split at hmsg <;> cases hmsg
    · cases hmsg
  · exact hplain _ (Prod.mk.inj (Option.some_inj.mp h)).2
  · cases h

section
variable {s t : EventLoop K T} {r : Receivers} {B : List (Handle K)} {W : List Cqe}

theorem handleRecvCompletion_some {fd : Fd} {fut : FutId} (h : s.ioLookup fd .recv = some fut) (result : Int)
    (data : Option PyData) : s.handleRecvCompletion fd result data =
      (s.popIo fd .recv).setFuture fut (recvState result data) := by
  unfold handleRecvCompletion recvState
  rw [h]
  dsimp only
  cases if 0 < result then truthyData data else none <;> rfl

theorem handleRecvCompletion_none {fd : Fd} (h : s.ioLookup fd .recv = none) (result : Int)
    (data : Option PyData) : SameReceives s (s.handleRecvCompletion fd result data) := by
  have hpop : SameReceives s (s.popIo fd .recv) :=
    { SameReceives.refl s with io := fun _ _ _ h => .inl (popIo_lookup h) }
  unfold handleRecvCompletion
  rw [h]
  dsimp only
  split
  · exact hpop
  · split
    · split
      · exact { hpop with log := ⟨[_], rfl, by simp⟩ }
      · exact { SameReceives.errorReceived _ _ (s.popIo fd .recv) with
          io := fun fd' kind fut hfut =>
            ((SameReceives.errorReceived _ _ (s.popIo fd .recv)).io fd' kind fut hfut).imp_left popIo_lookup }
    · exact hpop

theorem handleRecvCompletion_length (fd : Fd) (result : Int) (data : Option PyData) (s : EventLoop K T) :
    (s.handleRecvCompletion fd result data).futs.length = s.futs.length := by
  have hset (fut : FutId) (state : FutState) (u : EventLoop K T) :
      (u.setFuture fut state).futs.length = u.futs.length := by
    rw [setFuture_eq]
    exact settle_length _ _ _
  have herror (tr : TransportId) (exc : Exc) (u : EventLoop K T) :
      (u.errorReceived tr exc).futs.length = u.futs.length := by
    obtain ⟨_, _, _, _, h⟩ := SameTables.errorReceived tr exc u
    rw [h]
  unfold handleRecvCompletion
  dsimp only
  split
  · split
    · exact hset _ _ _
    · rfl
  · split
    · exact hset _ _ _
    · split
      · split
        · rfl
        · exact herror _ _ _
      · rfl

/-- The next completion has its turn. -/
theorem waiting_handled (h : s.ResultsTied) {q : ResultTuple} {rest : List ResultTuple}
    (hq : s.results = q :: rest) : ∃ c, s.handled? = some c ∧ c ∈ s.drained ∧
      c.seen = (q.fd, q.opType, q.result) ∧
      s.waiting = c :: waiting { s with results := rest } := by
  obtain ⟨c, hc, hmem, hseen⟩ := h.handled hq
  have hle := h.length_le
  rw [hq, List.length_cons] at hle
  have hnext : s.drained.length - rest.length = s.drained.length - s.results.length + 1 := by
    rw [hq, List.length_cons]
    omega
  refine ⟨c, hc, hmem, hseen, ?_⟩
  obtain ⟨hlt, hget⟩ := List.getElem?_eq_some_iff.mp hc
  rw [waiting, waiting, List.drop_eq_getElem_cons hlt, hget, hnext]

/-- The handler of a receive resolves the future it finds for the completion `c`. -/
theorem received_handler (hi : s.IssuedSound) (hr : ReceiversSound s r B) {c : Cqe}
    (hb : Balanced s r B (c :: W)) {q : ResultTuple} (hseen : c.seen = (q.fd, q.opType, q.result))
    (hresolves : Resolves (s, r) q c) :
    ReceiversSound (s.handleRecvCompletion q.fd q.result q.data) r B ∧
      Balanced (s.handleRecvCompletion q.fd q.result q.data) r B W := by
  have hresult : q.result = c.payload.result := (congrArg (·.2.2) hseen).symm
  -- what the completion owes is owed to the future that is found
  have hown {tr : TransportId} (hopen : s.Open tr) (howes : s.Owes r tr c) : ∃ fut,
      s.recvFuture? c.sqe.seq = some fut ∧ s.ioLookup q.fd .recv = some fut ∧ s.Awaited r fut := by
    obtain ⟨hpos, fut, hfut, hown, hwaits⟩ := howes
    have hawaited : s.Awaited r fut := ⟨hwaits, tr, hown, hopen⟩
    exact ⟨fut, hfut, (hresolves.own fut hfut hpos hawaited).1, hawaited⟩
  cases hfound : s.ioLookup q.fd .recv with
  | none =>
    have hsame := handleRecvCompletion_none hfound q.result q.data
    have hdrop : Balanced s r B W := hb.drop fun tr hopen howes => by
      obtain ⟨fut, -, hfut, -⟩ := hown hopen howes
      rw [hfound] at hfut
      cases hfut
    refine ⟨hr.of_same hsame, hdrop.of_same hr hi hsame ?_⟩
    unfold handleRecvCompletion errorReceived forceClose
    rw [hfound]
    dsimp only
    split
    · rfl
    · split
      · split
        · rfl
        · split
          · rfl
          · split <;> rfl
      · rfl
  | some fut =>
    rw [handleRecvCompletion_some hfound]
    have hpop : SameReceives s (s.popIo q.fd .recv) :=
      { SameReceives.refl s with io := fun _ _ _ h => .inl (popIo_lookup h) }
    have hr' : ReceiversSound (s.popIo q.fd .recv) r B := hr.of_same hpop
    have hb' : Balanced (s.popIo q.fd .recv) r B (c :: W) := hb.of_same hr hi hpop rfl
    have hi' : (s.popIo q.fd .recv).IssuedSound :=
      ⟨hi.length, hi.live, hi.drained, hi.created, hi.once,
        fun fd kind fut h => hi.ioFutures fd kind fut (popIo_lookup h), hi.futures⟩
    refine ⟨hr'.settle fut (recvState_ne_pending _ _), ?_⟩
    by_cases hawaited : s.Awaited r fut
    · obtain ⟨hwaits, tr, hreceiver, hopen⟩ := hawaited
      have hself := hresolves.others fut hfound ⟨hwaits, tr, hreceiver, hopen⟩
      have hunresolved := hb'.unresolved_eq hr' hi' hreceiver hopen hwaits List.mem_cons_self hself
      have hvalues : (recvState q.result q.data).values =
          (s.popIo q.fd .recv).unresolved r tr (c :: W) := by
        rw [hunresolved]
        split
        · rename_i hpos
          obtain ⟨-, hdata, hq⟩ := hresolves.own fut hself hpos ⟨hwaits, tr, hreceiver, hopen⟩
          rw [hq]
          apply recvState_bytes (hresult ▸ hpos)
          rw [hdata] at hpos
          exact Int.natCast_pos.mp hpos
        · rename_i hle
          exact recvState_values (hresult ▸ hle) q.data
      have hresolved := hr'.resolved hreceiver hwaits (recvState q.result q.data)
      apply (hresolved.balanced (recvState_ne_pending _ _) hreceiver hopen hb' hr' hvalues).drop
      -- the receive of the completion waits no longer
      rintro tr' - ⟨-, fut', hfut', -, hwaits'⟩
      rw [recvFuture?, hresolved.issued] at hfut'
      have heq : fut = fut' := Option.some_inj.mp (hself.symm.trans hfut')
      exact ((hresolved.waits_iff (recvState_ne_pending _ _) fut').mp hwaits').2 heq
    · apply (hb'.settle hr' hi' (recvState q.result q.data) hawaited).drop
      intro tr hopen howes
      have hopen : s.Open tr := by
        rwa [Open, setFuture_eq] at hopen
      obtain ⟨hpos, fut', hfut', hreceiver, hwaits⟩ := howes
      have hfut' : s.recvFuture? c.sqe.seq = some fut' := by
        rwa [recvFuture?, setFuture_eq] at hfut'
      have hwaits : s.Waits fut' := by
        rcases futState_setFuture fut fut' (recvState q.result q.data) (s.popIo q.fd .recv) with
          hsame | ⟨-, hwaits'⟩
        · exact hsame.symm.trans hwaits
        · exact hwaits'
      obtain ⟨fut₁, hfut₁, hio, hawaited'⟩ := hown hopen ⟨hpos, fut', hfut', hreceiver, hwaits⟩
      rw [hfound, Option.some_inj] at hio
      exact hawaited (hio ▸ hawaited')

section
variable [LE T] [DecidableLE T] {s₀ : EventLoop K T} {a : Act K T}

/-- Only a tick makes a batch, of an empty one. -/
theorem Move.batch_cases (hrun : a ≠ .runHandle) (hunwinds : ¬ s₀.Unwinds a) (h : Move s₀ a s t) :
    t.batch = s.batch ∨ s₀.Ticks a ∧ s.batch = [] := by
  have hforce {cause : TransportEvent} (exc : Option Exc) (tr : TransportId) (u : EventLoop K T) :
      (u.forceClose cause exc tr).batch = u.batch := by
    obtain ⟨_, _, _, _, h⟩ := SameTables.forceClose cause exc tr u
    rw [h]
  have hset (fut : FutId) (state : FutState) (u : EventLoop K T) :
      (u.setFuture fut state).batch = u.batch := by
    rw [setFuture_eq]
  cases h with
  | control stack hbatch hresults hruns => exact .inl (hruns.resolve_right hrun)
  | unwound hunwinds' => exact absurd hunwinds' hunwinds
  | lost hbatch ha => exact absurd ha hrun
  | received hruns hbatch => exact absurd hruns.1 hrun
  | forced exc hcause => exact .inl (hforce _ _ _)
  | disarmed tr exc => exact .inl (hforce _ _ _)
  | armed env ht hidle => exact .inl (by rw [submitNew_eq]; rfl)
  | wrote env ha ht hopen hdata => exact .inl (by rw [submitNew_eq])
  | submitted env fd kind? callbacks req hreq hkind hcallbacks hsend => exact .inl (by rw [submitNew_eq])
  | cancelled fut huser => exact .inl (hset _ _ _)
  | ioSettled hr hs hsettles hfut => exact .inl (hset _ _ _)
  | drained hticks hmidway hcq => exact .inl (by rw [drainOne_eq])
  | batched hticks hbatch => exact .inr ⟨hticks, hbatch⟩
  | _ => exact .inl rfl

theorem Move.batch_eq (hticks : ¬ s₀.Ticks a) (hrun : a ≠ .runHandle) (hunwinds : ¬ s₀.Unwinds a)
    (h : Move s₀ a s t) : t.batch = s.batch :=
  (h.batch_cases hrun hunwinds).resolve_right fun hnew => hticks hnew.1

/-- The steps that neither tick nor run a handle leave what was drained, and the batch if they do not
unwind. -/
theorem Moves.rest_eq (hmoves : Moves s₀ a s t) (hs : s.CoreSound) (hticks : ¬ s₀.Ticks a)
    (hrun : a ≠ .runHandle) : (¬ s₀.Unwinds a → t.batch = s.batch) ∧ t.drained = s.drained := by
  have hend := hmoves.rule
    (I := fun u => u.CoreSound ∧ (¬ s₀.Unwinds a → u.batch = s.batch) ∧ u.drained = s.drained) ?_
    ⟨hs, fun _ => rfl, rfl⟩
  · exact hend.2
  · intro u v hu hmove
    obtain ⟨hs, hbatch, hdrained⟩ := hu
    exact ⟨hs.move hmove, fun hunwinds => (hmove.batch_eq hticks hrun hunwinds).trans (hbatch hunwinds),
      (hmove.drained_eq hs hticks).trans hdrained⟩

omit [LE T] [DecidableLE T] in
theorem escape_unwinds {frame : Frame} {e : Escape} (hcaller : frame.caller = .handle) (he : e = .panic)
    (s : EventLoop K T) : (s.escape frame e).batch = [] ∧ (s.escape frame e).results = [] := by
  subst he
  simp [escape, hcaller]

/-- Nothing of an unwinding `run_tick` is left. -/
theorem step_unwinds (hstep : s.step a = some t) (hunwinds : s.Unwinds a) :
    t.batch = [] ∧ t.results = [] := by
  cases a with
  | ret q env =>
    obtain ⟨frame, hframe, hunwinds⟩ := hunwinds
    simp only [Frame.unwinds, Bool.and_eq_true, decide_eq_true_eq] at hunwinds
    obtain ⟨hcaller, hescape⟩ := hunwinds
    simp only [step] at hstep
    split at hstep
    · cases hstep
    · cases hstep
    · rename_i frame' rest _ hstack
      rw [hstack] at hframe
      obtain rfl := Option.some_inj.mp hframe
      cases (Option.ite_none_right_eq_some.mp hstep).2
      cases q with
      | escaped e =>
        have he := Option.some_inj.mp hescape
        cases frame' <;> exact escape_unwinds hcaller he _
      | closeEscaped e =>
        have he := Option.some_inj.mp hescape
        cases frame' <;> exact escape_unwinds hcaller he _
      | _ => cases hescape
  | _ => cases hunwinds

omit [LE T] [DecidableLE T] in
theorem execute_futs (handle : Handle K) (s : EventLoop K T) : (execute handle s).futs = s.futs := by
  obtain ⟨_, _, _, _, h⟩ := SameTables.execute handle s
  rw [h]

omit [LE T] [DecidableLE T] in
/-- No handle adds to the batch that it is in. -/
theorem execute_batch (handle : Handle K) (s : EventLoop K T) : (execute handle s).batch = s.batch := by
  obtain ⟨_, _, _, _, h⟩ := SameTables.execute handle s
  rw [h]

omit [LE T] [DecidableLE T] in
/-- A completion that owes nothing may be lost. -/
theorem Balanced.lose (hb : Balanced s r B s.waiting) (hnone : NoneOwed (s, r)) : Balanced s r B [] := by
  apply hb.dropAll
  rintro c hc tr hopen ⟨hpos, fut, hfut, hown, hwaits⟩
  exact hnone c hc ⟨hpos, fut, hfut, hwaits, tr, hown, hopen⟩

omit [LE T] [DecidableLE T] in
/-- A completion that is no receive's owes nothing. -/
theorem Balanced.other {c : Cqe} (hb : Balanced s r B (c :: W)) (hi : s.IssuedSound)
    {q : ResultTuple} (hseen : c.seen = (q.fd, q.opType, q.result)) (hop : q.opType ≠ "recv") :
    Balanced s r B W := by
  apply hb.drop
  rintro tr - ⟨-, fut, hfut, -⟩
  apply hop
  have hstr : c.sqe.op.opType.asStr = q.opType := congrArg (·.2.1) hseen
  rw [← hstr, (hi.drained c (hb.processed c List.mem_cons_self)).opType_recv hfut]
  rfl

omit [LE T] [DecidableLE T] in
theorem settles_other {q : ResultTuple} (hop : ¬ (q.opType = "recv" ∨ q.opType = "recv_multi"))
    (state : FutState) : q.settles ≠ some (.recv, state) := by
  unfold ResultTuple.settles
  split
  · rename_i h
    exact absurd (.inl h) hop
  · rename_i h
    exact absurd (.inr h) hop
  all_goals nofun

omit [LE T] [DecidableLE T] in
theorem call_results (env : Env) (c : Call K) (s : EventLoop K T) : (s.call env c).results = s.results := by
  cases hc : c.arms with
  | false => exact (call_accepts env s hc).results
  | true =>
    cases c with
    | sockAccept fd k => exact (sockAccept_accepts env k fd s).2.2.1
    | createServer unix startServing fd => cases unix <;> cases startServing <;> rfl
    | _ => cases hc

/-- The steps of a tick: it begins, runs a handle, or hands a completion to its handler. -/
def Act.handles : Act K T → Bool
  | .startTick .. | .runHandle | .handleCompletion => true
  | _ => false

omit [LE T] [DecidableLE T] in
theorem plain_of_handles (s : EventLoop K T) (ha : a.handles = false) : s.Plain a ∧ a ≠ .runHandle := by
  refine ⟨⟨?_, ?_, ?_⟩, ?_⟩
  · rintro ⟨clock, enter, rfl, -⟩
    cases ha
  · rintro tr fut ⟨rfl, -⟩
    cases ha
  · rintro q state ⟨rfl, -⟩
    cases ha
  · rintro rfl
    cases ha

/-- The step ends `_process_completions` with an exception, or `run_tick` before it returns. -/
def Drops (s : EventLoop K T) : Act K T → Prop
  | .ret r _ => ∃ frame ∈ s.stack.head?, frame.aborts r = true
  | .rearmAccept env => ¬ (s.core.HasRoom ∧ env.enter.isOk)
  | _ => False

/-- Outside a tick the results stay, unless they are dropped. -/
theorem results_cases (hs : s.AcceptsSound) (hstep : s.step a = some t) (ha : a.handles = false) :
    t.results = s.results ∨ t.results = [] ∧ s.Drops a := by
  cases a with
  | ret q env =>
    obtain ⟨frame, rest, hstack, -, hsame⟩ := step_ret hstep hs.made
    rw [hsame.results]
    by_cases haborts : frame.aborts q
    · refine .inr ⟨if_pos haborts, frame, ?_, haborts⟩
      rw [hstack]
      rfl
    · exact .inl (if_neg haborts)
  | rearmAccept env =>
    obtain ⟨listener, rest, -, -, -, hresults, -⟩ := step_rearmAccept hstep
    rw [hresults]
    split
    · exact .inl rfl
    · rename_i hrefused
      exact .inr ⟨rfl, hrefused⟩
  | call c env =>
    obtain ⟨-, rfl⟩ := step_call.mp hstep
    exact .inl (call_results env c s)
  | consume n => exact .inl (step_quiet hstep rfl).results
  | complete i payload select more => exact .inl (step_quiet hstep rfl).results
  | callSoon k => exact .inl (step_quiet hstep rfl).results
  | _ => cases ha

omit [LE T] [DecidableLE T] in
theorem KeepsReceived.noneOwed (hkeeps : KeepsReceived (s, r) a) (hdrops : s.Drops a) :
    NoneOwed (s, r) := by
  cases a with
  | ret q env =>
    obtain ⟨frame, hframe, haborts⟩ := hdrops
    exact (hkeeps frame hframe).1 haborts
  | rearmAccept env => exact hkeeps.resolve_left hdrops
  | _ => cases hdrops

omit [LE T] [DecidableLE T] in
theorem KeepsReceived.noneReady (hkeeps : KeepsReceived (s, r) a) (hunwinds : s.Unwinds a) :
    s.NoneReady := by
  cases a with
  | ret q env =>
    obtain ⟨frame, hframe, hunwinds⟩ := hunwinds
    exact (hkeeps frame hframe).2 hunwinds
  | _ => cases hunwinds

namespace ReceivesKept

/-- What is not about receives, every step keeps. -/
theorem of_step (h : s.ReceivesKept r) (hstep : s.step a = some t) {r' : Receivers}
    (hsound : ReceiversSound t r' t.batch) (hbalanced : Balanced t r' t.batch t.waiting) :
    t.ReceivesKept r' where
  accepts := h.accepts.step hstep
  ends := (step_moves hstep).rule (fun _ _ => EndsKept.move) h.ends
  issued := h.issued.step h.ends.core hstep
  sound := hsound
  balanced := hbalanced

/-- What is left of the batch and of the completions has what was on its way. -/
theorem plain (h : s.ReceivesKept r) (hplain : s.Plain a) (hstep : s.step a = some t)
    (hsound : ReceiversSound s r t.batch) (hbalanced : Balanced s r t.batch t.waiting) :
    t.ReceivesKept (Receivers.upd s a t r) := by
  obtain ⟨hsound, hbalanced⟩ := hplain.moves (step_moves hstep) h.ends h.issued rfl hsound hbalanced
  exact h.of_step hstep hsound hbalanced

theorem runHandle (h : s.ReceivesKept r) (hstep : s.step .runHandle = some t) :
    t.ReceivesKept (Receivers.upd s .runHandle t r) := by
  have hsame := step_quiet hstep rfl
  have hwaiting : t.waiting = s.waiting := waiting_congr hsame.results hsame.drained
  obtain ⟨handle, rest, hstack, hbatch, rfl⟩ := step_runHandle.mp hstep
  have hsound : ReceiversSound s r (handle :: rest) := hbatch ▸ h.sound
  have hbalanced : Balanced s r (handle :: rest) s.waiting := hbatch ▸ h.balanced
  have hfuts : (execute handle { s with batch := rest }).futs = s.futs := execute_futs _ _
  have htaken : (execute handle { s with batch := rest }).batch = rest := execute_batch handle _
  have hend : ReceiversSound (execute handle { s with batch := rest }) r rest ∧
      Balanced (execute handle { s with batch := rest }) r rest s.waiting := by
    cases hreceiver : handle.receiver? with
    | none =>
      obtain ⟨hquiet, -⟩ := SameReceives.execute hreceiver { s with batch := rest }
      have hquiet : SameReceives s (execute handle { s with batch := rest }) := { hquiet with }
      exact ⟨hsound.tail.of_same hquiet,
        (hbalanced.tail (by simp [hreceiver])).of_same hsound.tail h.issued hquiet hsame.drained⟩
    | some x =>
      cases handle with
      | onRecvComplete tr fut =>
        have hi : ({ s with batch := rest } : EventLoop K T).IssuedSound :=
          ⟨h.issued.length, h.issued.live, h.issued.drained, h.issued.created, h.issued.once,
            h.issued.ioFutures, h.issued.futures⟩
        have hs : SameReceives s { s with batch := rest } := { SameReceives.refl s with }
        exact received_onRecvComplete hi (hsound.of_same hs) (hbalanced.of_same hsound h.issued hs rfl)
      | _ => cases hreceiver
  obtain ⟨hsound', hbalanced'⟩ := hend
  rw [Receivers.upd_of_length hsound' (congrArg List.length hfuts)]
  apply h.of_step hstep
  · rwa [htaken]
  · rwa [htaken, hwaiting]

theorem handled (h : s.ReceivesKept r) (hkeeps : KeepsReceived (s, r) .handleCompletion)
    (hstep : s.step .handleCompletion = some t) :
    t.ReceivesKept (Receivers.upd s .handleCompletion t r) := by
  have hticks : ¬ s.Ticks .handleCompletion := by
    rintro ⟨clock, enter, heq, -⟩
    cases heq
  have hrun : (.handleCompletion : Act K T) ≠ .runHandle := by
    intro heq
    cases heq
  obtain ⟨hbatch', hdrained⟩ := (step_moves hstep).rest_eq h.ends.core hticks hrun
  have hbatch' := hbatch' id
  obtain ⟨q, rest, hq, -, hsame⟩ := step_handleCompletion hstep
  obtain ⟨c, hc, hmem, hseen, hwaiting⟩ := waiting_handled h.accepts.tied hq
  have hwaiting' : t.waiting = waiting { s with results := rest } :=
    waiting_congr (s := { s with results := rest }) hsame.results hsame.drained
  have hbalanced := h.balanced
  rw [hwaiting] at hbalanced
  have hnext : SameReceives s { s with results := rest } := { SameReceives.refl s with }
  have hsound₁ := h.sound.of_same hnext
  have hbalanced₁ := hbalanced.of_same h.sound h.issued hnext rfl
  have hissued₁ : ({ s with results := rest } : EventLoop K T).IssuedSound :=
    ⟨h.issued.length, h.issued.live, h.issued.drained, h.issued.created, h.issued.once,
      h.issued.ioFutures, h.issued.futures⟩
  obtain ⟨q', rest', hstack, hbatch, hresults, rfl⟩ := step_handle.mp hstep
  have heq := hq.symm.trans hresults
  cases heq
  by_cases hop : q.opType = "recv" ∨ q.opType = "recv_multi"
  · have hhandle : handle q { s with results := rest } =
        handleRecvCompletion q.fd q.result q.data { s with results := rest } := by
      unfold handle
      rcases hop with hop | hop
      · simp only [hop]
      · simp only [hop]
    have hresolves : Resolves (s, r) q c := by
      apply hkeeps q _ hop c
      · exact hc
      · show q ∈ s.results.head?
        rw [hq]
        rfl
    have hresolves₁ : Resolves (({ s with results := rest } : EventLoop K T), r) q c :=
      ⟨hresolves.others, hresolves.own⟩
    obtain ⟨hsound, hbalanced⟩ := received_handler hissued₁ hsound₁ hbalanced₁ hseen hresolves₁
    rw [← hhandle] at hsound hbalanced
    have hlength : (handle q { s with results := rest }).futs.length = s.futs.length := by
      rw [hhandle]
      exact handleRecvCompletion_length _ _ _ _
    rw [Receivers.upd_of_length hsound hlength]
    apply h.of_step hstep
    · rwa [hbatch']
    · rwa [hbatch', hwaiting']
  · have hplain : s.Plain (.handleCompletion : Act K T) := by
      refine ⟨hticks, fun tr fut hruns => absurd hruns.1 hrun, ?_⟩
      rintro q' state ⟨-, rest', hq'⟩
      have heq := hq.symm.trans hq'
      cases heq
      exact settles_other hop state
    have hends₁ : ({ s with results := rest } : EventLoop K T).EndsKept := by
      have hmove : Move s .handleCompletion s { s with results := rest } :=
        .control s.stack (List.suffix_refl _) (by rw [hq]; exact List.suffix_cons _ _) (.inl rfl)
      exact h.ends.move hmove
    have hrest := hbalanced₁.other hissued₁ hseen fun heq => hop (.inl heq)
    obtain ⟨hsound, hbalanced⟩ := hplain.moves (moves_handle s _ hq rfl) hends₁ hissued₁ rfl
      hsound₁ hrest
    apply h.of_step hstep
    · rwa [hbatch']
    · rwa [hbatch', hwaiting']

theorem step (h : s.ReceivesKept r) (hkeeps : KeepsReceived (s, r) a) (hstep : s.step a = some t) :
    t.ReceivesKept (Receivers.upd s a t r) := by
  cases ha : a.handles with
  | false =>
    obtain ⟨hplain, hrun⟩ := plain_of_handles s ha
    obtain ⟨hbatch, hdrained⟩ := (step_moves hstep).rest_eq h.ends.core hplain.ticks hrun
    have hwaiting (B : List (Handle K)) (hbalanced : Balanced s r B s.waiting) :
        Balanced s r B t.waiting := by
      rcases results_cases h.accepts hstep ha with hresults | ⟨hresults, hdrops⟩
      · rwa [waiting_congr hresults hdrained]
      · rw [waiting_nil hresults]
        exact hbalanced.lose (hkeeps.noneOwed hdrops)
    by_cases hunwinds : s.Unwinds a
    · have hnone := (step_unwinds hstep hunwinds).1
      apply h.plain hplain hstep
      · rw [hnone]
        exact h.sound.unwound
      · rw [hnone]
        exact hwaiting [] (h.balanced.unwound (hkeeps.noneReady hunwinds))
    · apply h.plain hplain hstep
      · rw [hbatch hunwinds]
        exact h.sound
      · rw [hbatch hunwinds]
        exact hwaiting _ h.balanced
  | true =>
    cases a with
    | startTick clock enter =>
      obtain ⟨hidle, rfl⟩ := step_startTick.mp hstep
      obtain ⟨hsound, hbalanced, hlength⟩ := h.startTick hidle hkeeps
      rw [Receivers.upd_of_length hsound hlength]
      exact h.of_step hstep hsound hbalanced
    | runHandle => exact h.runHandle hstep
    | handleCompletion => exact h.handled hkeeps hstep
    | _ => cases ha

omit [LE T] [DecidableLE T] in
theorem init {setup : Setup} {bufferSize bufferCount : Nat} {core : UringCore FutId (Handle K) T}
    (hnew : UringCore.new setup bufferSize bufferCount = .ok core) :
    (EventLoop.init core).ReceivesKept Receivers.init := by
  have hscheduler : core.scheduler = [] := by
    rcases UringCore.new_spec hnew with ⟨entries, pool, -, rfl⟩
    rfl
  have hqueue : ([] : List (Handle K)) ++ core.scheduler = [] := by rw [hscheduler]; rfl
  have hnone (tr : TransportId) (fut : FutId) : ¬ (EventLoop.init core).Outstanding Receivers.init [] tr fut := by
    rintro (⟨hown, -⟩ | hmem)
    · cases hown
    · have hmem : Handle.onRecvComplete tr fut ∈ [] ++ core.scheduler := hmem
      rw [hqueue] at hmem
      cases hmem
  refine ⟨acceptsSound_init hnew, endsKept_init hnew, IssuedSound.init hnew, ?_, ?_⟩
  · constructor
    case known =>
      intro fut tr hown
      cases hown
    case callbacks =>
      intro fut tr f hown
      cases hown
    case others =>
      intro fut f _ hf
      cases hf
    case queued =>
      intro tr fut hmem
      exact absurd (.inr hmem) (hnone tr fut)
    case nodup =>
      show (([] ++ core.scheduler).filterMap _).Nodup
      rw [hqueue]
      exact List.nodup_nil
    case single =>
      intro tr _ fut fut' hout
      exact absurd hout (hnone tr fut)
    case pending =>
      intro tr t _ _ fut hout
      exact absurd hout (hnone tr fut)
    case io =>
      intro fd kind fut tr hlookup
      cases hlookup
    case logged =>
      intro tr v hmem
      cases hmem
  · refine ⟨?_, List.Pairwise.nil, ?_⟩
    · intro c hc
      cases hc
    · rintro tr ⟨t, ht, -⟩
      cases ht

omit [LE T] [DecidableLE T] in
/-- What is left over when nothing is under way is nothing. -/
theorem receivedOnce (h : s.ReceivesKept r) : ReceivedOnce (s, r) where
  ordered tr hopen := ⟨_, h.balanced.balance tr hopen⟩
  all tr hopen hidle hscheduler := by
    have hbalance := h.balanced.balance tr hopen
    simp only [idle, Bool.and_eq_true, List.isEmpty_iff] at hidle
    have hready : s.ready tr s.batch = [] := by
      have hscheduler : s.core.scheduler = [] := hscheduler
      rw [ready, hidle.1.2, hscheduler]
      rfl
    rw [waiting_nil hidle.2, hready] at hbalance
    have hunresolved : s.unresolved r tr [] = [] := rfl
    rwa [hunresolved, List.append_nil, List.append_nil] at hbalance

end ReceivesKept

/-! ## Runs -/

def receiveMachine : Machine (EventLoop K T × Receivers) (Act K T) := machine.ghost Receivers.upd

/-- In a run whose ticks and handlers resolve the waiting receives of transports for their own
completions only, every protocol is given the data of its receives, each once and in order. -/
theorem received_once {setup : Setup} {bufferSize bufferCount : Nat}
    {core : UringCore FutId (Handle K) T} (hnew : UringCore.new setup bufferSize bufferCount = .ok core)
    {acts : List (Act K T)} {x : EventLoop K T × Receivers}
    (hkeeps : receiveMachine.Meets KeepsReceived (init core, Receivers.init) acts)
    (hrun : receiveMachine.run (init core, Receivers.init) acts = some x) : ReceivedOnce x := by
  have hend := Machine.run_invariant (M := receiveMachine)
    (I := fun x : EventLoop K T × Receivers => x.1.ReceivesKept x.2) ?_ (.init hnew) hkeeps hrun
  · exact hend.receivedOnce
  · rintro ⟨s, r⟩ a ⟨t, r'⟩ h hk hstep
    obtain ⟨hnext, rfl⟩ := Machine.ghost_step_mk.mp hstep
    exact h.step hk hnext

end

end

/-- A connection receives twice; its protocol pauses reading while it is given the first data, and
resumes after the tick. -/
def pausedRun : List (Act Unit Nat) :=
  [.call (.createConnection 5) ⟨0, .ok 1⟩, .ret (.value true) ⟨0, .ok 1⟩,
    .complete 0 (.data [1]) false false, .startTick 0 (.ok 0), .runHandle,
    .call (.pauseReading 0) ⟨0, .ok 1⟩, .ret (.value true) ⟨0, .ok 1⟩, .handleCompletion,
    .call (.resumeReading 0) ⟨0, .ok 1⟩, .complete 0 (.data [2]) false false, .startTick 0 (.ok 0),
    .runHandle, .call (.pauseReading 0) ⟨0, .ok 1⟩, .ret (.value true) ⟨0, .ok 1⟩, .handleCompletion]

/-- A connection that is not paused receives once. -/
def rearmedRun : List (Act Unit Nat) :=
  [.call (.createConnection 5) ⟨0, .ok 1⟩, .ret (.value true) ⟨0, .ok 1⟩,
    .complete 0 (.data [1]) false false, .startTick 0 (.ok 0), .runHandle,
    .ret (.value true) ⟨0, .ok 1⟩, .handleCompletion, .startTick 0 (.ok 0), .runHandle,
    .ret (.value true) ⟨0, .ok 1⟩]

theorem received_once_paused : ∃ core x, UringCore.new (Setup.plain) 16 4 = .ok core ∧
    receiveMachine.run (init core, Receivers.init) pausedRun = some x ∧ ReceivedOnce x ∧
    x.1.delivered 0 = [.data (.bytes [1]), .data (.bytes [2])] :=
  ⟨_, _, rfl, rfl, received_once (show UringCore.new Setup.plain 16 4 = .ok _ from rfl) (by decide)
    (show receiveMachine.run _ pausedRun = some _ from rfl), rfl⟩

/-- The handler of the first receive's completion has resolved the second receive with its data. -/
theorem not_received_once : ∃ core x, UringCore.new (Setup.plain) 16 4 = .ok core ∧
    receiveMachine.run (init core, Receivers.init) rearmedRun = some x ∧ ¬ ReceivedOnce x := by
  refine ⟨_, _, rfl, rfl, fun h => ?_⟩
  obtain ⟨rest, hrest⟩ := h.ordered 0 (by decide)
  cases hrest

end EventLoop

end Uringcore
