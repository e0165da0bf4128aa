import Uringcore.EventLoop.Moves

/-!
# What was submitted

The history `issued` gives every submission its request, by its number. Here it is tied to the rest
of the state: every operation and every completion carries the number of a request for its own
descriptor and of its own kind, every future belongs to at most one submission, and a future that is
found under a descriptor belongs to a request for that descriptor.

`Move.issue` cuts the moves down for that: a move submits with a new future, closes, processes a
completion, or brings in nothing.
-/

namespace Uringcore

/-- What Python sees of a completion, apart from the data. -/
def Cqe.seen (c : Cqe) : Fd × String × Int := (c.sqe.fd, c.sqe.op.opType.asStr, c.payload.result)

namespace UringCore
variable {F H T : Type}

/-- The operations, the completions and the futures are the same. -/
structure Quiet (s t : UringCore F H T) : Prop where
  tail : t.ring.tail = s.ring.tail
  inFlight : t.ring.inFlight = s.ring.inFlight
  cq : t.ring.cq = s.ring.cq
  futures : t.futures = s.futures

theorem Quiet.refl (s : UringCore F H T) : Quiet s s := ⟨rfl, rfl, rfl, rfl⟩

theorem Quiet.live {s t : UringCore F H T} (h : Quiet s t) : t.live = s.live := by
  rw [UringCore.live, UringCore.live, h.inFlight, h.cq]

theorem SameLedger.quiet {s t : UringCore F H T} (h : SameLedger s t) : Quiet s t :=
  ⟨h.tail, h.inFlight, h.cq, h.futures⟩

/-- The bookkeeping of descriptors is quiet. -/
theorem quiet_unregisterFd {s : UringCore F H T} (hs : s.Sound) (fd : Fd) :
    Quiet s (s.unregisterFd fd) := by
  rw [unregisterFd_eq hs]
  exact ⟨rfl, rfl, rfl, rfl⟩

/-- A request submits one operation or none. -/
theorem Submission.ring_cases {s t : UringCore F H T} {enter : Except String Nat} {fd : Fd}
    {req : Request F} (h : s.Submission enter fd req t) :
    t.ring = s.ring ∨ ∃ op e, s.ring.Issued fd op t.ring e := by
  cases h with
  | recvIssued nextBox hreq hfree hst hcredit hissued hop => exact .inr ⟨_, _, hissued⟩
  | sendIssued hfree hlen hissued => exact .inr ⟨_, _, hissued⟩
  | sendtoIssued state nextBox haddr hissued hfutures => exact .inr ⟨_, _, hissued⟩
  | plainIssued hreq hop hring hissued => exact .inr ⟨_, _, hissued⟩
  | _ => exact .inl rfl

/-- The only future a request can store is its own, under its descriptor. -/
theorem Submission.futures {s t : UringCore F H T} {enter : Except String Nat} {fd : Fd}
    {req : Request F} (h : s.Submission enter fd req t) (fd' : Fd) (fut : F)
    (hfut : t.futures.lookup fd' = some fut) :
    s.futures.lookup fd' = some fut ∨ fd' = fd ∧ req.future? = some fut := by
  have hinsert {future : F} (hreq : req.future? = some future)
      (hfut : (s.futures.insert fd future).lookup fd' = some fut) :
      s.futures.lookup fd' = some fut ∨ fd' = fd ∧ req.future? = some fut := by
    obtain ⟨rfl, rfl⟩ | ⟨-, hold⟩ := AList.lookup_insert_eq_some.mp hfut
    · exact .inr ⟨rfl, hreq⟩
    · exact .inl hold
  have hundone {future : F} (hfut : ((s.futures.insert fd future).erase fd).lookup fd' = some fut) :
      s.futures.lookup fd' = some fut := by
    obtain ⟨hfd, hfut⟩ := AList.lookup_erase_eq_some.mp hfut
    rwa [AList.lookup_insert_ne hfd] at hfut
  cases h with
  | kept => exact .inl hfut
  | recvRefused nextBox hreq => exact .inl (hundone hfut)
  | recvIssued nextBox hreq =>
    apply hinsert _ hfut
    rcases hreq with rfl | rfl <;> rfl
  | sendPanicked => exact .inl hfut
  | sendRefused => exact .inl (hundone hfut)
  | sendIssued => exact hinsert rfl hfut
  | sendtoIssued state nextBox haddr hissued hfutures =>
    rcases hfutures with rfl | ⟨rfl, -⟩
    · exact hinsert rfl hfut
    · exact .inl hfut
  | acceptRefused => exact .inl (hundone hfut)
  | multishotRefused => exact hinsert rfl hfut
  | plainIssued hreq =>
    cases hfuture : req.future? with
    | none =>
      simp only [hfuture, storeFuture] at hfut
      exact .inl hfut
    | some future =>
      simp only [hfuture, storeFuture] at hfut
      exact hfuture ▸ hinsert hfuture hfut

/-- What a request adds to the live operations, with the count of submissions. -/
theorem request_issues {s : UringCore F H T} (hs : s.Sound) (now : Nat) (enter : Except String Nat)
    (fd : Fd) (req : Request F) :
    let t := (s.request now enter fd req).1
    t.ring.tail = s.ring.tail ∧ (∀ e ∈ t.live, e ∈ s.live) ∨
    t.ring.tail = s.ring.tail + 1 ∧ ∀ e ∈ t.live, e ∈ s.live ∨
      e.fd = fd ∧ e.op.opType = req.opType ∧ e.seq = s.ring.tail := by
  intro t
  have hone : s.IssuesOne fd req.opType t := request_issuesOne now req
  have hspec : s.Submission enter fd req t := request_spec hs now req
  rcases hspec.ring_cases with hring | ⟨op, e, hissued⟩
  · refine .inl ⟨congrArg Ring.tail hring, fun e he => ?_⟩
    have hring : t.ring = s.ring := hring
    rwa [live, hring] at he
  · exact .inr ⟨hissued.tail, fun e he => hone.live he⟩

end UringCore

namespace EventLoop
variable {K T : Type}

def futState (s : EventLoop K T) (fut : FutId) : Option FutState :=
  (s.futs[fut]?).map AsyncFuture.state

/-- The ways a future can be done without a tick. -/
inductive Settles (s₀ : EventLoop K T) (a : Act K T) (s : EventLoop K T) (fut : FutId) :
    FutState → Prop where
  | cancelled (ha : ∃ env, a = .call (.cancel fut) env) : Settles s₀ a s fut .cancelled
  /-- By a handler, which has found it under its descriptor. -/
  | io {r : ResultTuple} {kind : IoKind} {state : FutState} (hr : s₀.Handles a r)
      (hs : ∃ results, s = { s₀ with results }) (hsettles : r.settles = some (kind, state)) (hfut : s.ioLookup r.fd kind = some fut) :
      Settles s₀ a s fut state

/-- Nothing was submitted or processed, and no future has come or is found where it was not. -/
structure Calm (s₀ : EventLoop K T) (a : Act K T) (s t : EventLoop K T) : Prop where
  core : s.core.Quiet t.core
  issued : t.issued = s.issued
  drained : t.drained = s.drained
  results : t.results <:+ s.results
  futs : t.futs.length = s.futs.length
  futState : ∀ fut, t.futState fut = s.futState fut ∨
    s.Waits fut ∧ ∃ state, t.futState fut = some state ∧ Settles s₀ a s fut state
  ioFutures : ∀ fd kind fut, t.ioLookup fd kind = some fut → s.ioLookup fd kind = some fut

/-- What a move does to the histories and the futures. -/
inductive Issue (s₀ : EventLoop K T) (a : Act K T) (s t : EventLoop K T) : Prop where
  | calm (h : Calm s₀ a s t)
  | completed {i : Nat} {payload : Payload} {select more : Bool}
      {core : UringCore FutId (Handle K) T} (ha : a = .complete i payload select more)
      (h : s.core.complete i payload select more = some core) (ht : t = { s with core })
  | new (env : Env) (fd : Fd) (kind? : Option IoKind) (callbacks : FutId → List (Handle K))
      (req : FutId → Request FutId) (objs : List Transport)
      (hfuture : ∀ fut, (req fut).future? = some fut)
      (hkind : ∀ fut, ∀ kind ∈ kind?, (req fut).ioKind = some kind)
      (hsend : ∀ fut, (req fut).opType = .send → a.sends = true)
      (ht : t = (EventLoop.submitNew env fd kind? callbacks req { s with objs }).1)
  | close (env : Env) (fd : Fd) (ht : t = (s.request env fd .close).1)
  | drained {pre : List Cqe} {c : Cqe} {cs : List Cqe} (hticks : s₀.Ticks a)
      (hmidway : s₀.Midway pre s) (hcq : s.core.ring.cq = c :: cs) (ht : t = s.drainOne c cs)

section
variable [LE T] [DecidableLE T]

omit [LE T] [DecidableLE T] in
theorem settle_length (futs : List (AsyncFuture K)) (fut : FutId) (state : FutState) :
    (settle futs fut state).1.length = futs.length := by
  unfold settle
  split
  · exact List.length_set
  · rfl

omit [LE T] [DecidableLE T] in
theorem settle_state {futs : List (AsyncFuture K)} {fut fut' : FutId} {state : FutState} :
    ((settle futs fut state).1[fut']?).map AsyncFuture.state =
      (futs[fut']?).map AsyncFuture.state ∨
    fut = fut' ∧ (futs[fut']?).map AsyncFuture.state = some .pending ∧
      ((settle futs fut state).1[fut']?).map AsyncFuture.state = some state := by
  rw [settle_getElem?]
  split
  · rename_i heq
    cases hfut : futs[fut']? with
    | none => exact .inl rfl
    | some f =>
      by_cases hpending : f.state = .pending
      · exact .inr ⟨heq, by simp [hpending], by simp [hpending]⟩
      · simp [hpending]
  · exact .inl rfl

omit [LE T] [DecidableLE T] in
theorem drainOne_length (c : Cqe) (cs : List Cqe) (s : EventLoop K T) :
    (s.drainOne c cs).futs.length = s.futs.length := by
  unfold drainOne
  dsimp only
  split
  · rw [setFuture_eq]
    exact settle_length _ _ _
  · rfl

omit [LE T] [DecidableLE T] in
theorem popIo_lookup {s : EventLoop K T} {fd fd' : Fd} {kind kind' : IoKind} {fut : FutId}
    (h : (s.popIo fd kind).ioLookup fd' kind' = some fut) : s.ioLookup fd' kind' = some fut :=
  (AList.lookup_erase_eq_some.mp h).2

/-- A move submits one operation with a new future, or a close, or processes a completion; or it
brings in nothing. -/
theorem Move.issue {s₀ s t : EventLoop K T} {a : Act K T} (hs : s.CoreSound) (h : Move s₀ a s t) :
    Issue s₀ a s t := by
  have hcore {t : EventLoop K T} (hquiet : s.core.Quiet t.core) (hissued : t.issued = s.issued)
      (hdrained : t.drained = s.drained) (hresults : t.results <:+ s.results)
      (hfuts : t.futs = s.futs) (hio : t.ioFutures = s.ioFutures) : Issue s₀ a s t := by
    refine .calm ⟨hquiet, hissued, hdrained, hresults, congrArg _ hfuts, fun fut => .inl ?_, ?_⟩
    · unfold EventLoop.futState
      rw [hfuts]
    · intro fd kind fut hfut
      rwa [ioLookup, hio] at hfut
  have hpushed (scheduler : Scheduler (Handle K)) : s.core.Quiet { s.core with scheduler } :=
    UringCore.SameLedger.quiet { UringCore.SameLedger.refl s.core with }
  have hforced {u : EventLoop K T} (cause : TransportEvent) (exc : Option Exc) (tr : TransportId)
      (hu : u = { s with objs := u.objs }) : Issue s₀ a s (u.forceClose cause exc tr) := by
    unfold forceClose
    split
    · rw [hu]
      exact hcore (.refl _) rfl rfl (List.suffix_refl _) rfl rfl
    · split
      · rw [hu]
        exact hcore (.refl _) rfl rfl (List.suffix_refl _) rfl rfl
      · rw [hu]
        exact hcore (hpushed _) rfl rfl (List.suffix_refl _) rfl rfl
  have hsettled (fut' : FutId) (state : FutState) (u : EventLoop K T) (hu : u.futs = s.futs)
      (fut : FutId) : (u.setFuture fut' state).futState fut = s.futState fut ∨
        fut' = fut ∧ s.Waits fut ∧ (u.setFuture fut' state).futState fut = some state := by
    rw [setFuture_eq]
    unfold EventLoop.futState Waits
    rw [hu]
    exact settle_state
  have hlength (fut : FutId) (state : FutState) (u : EventLoop K T) (hu : u.futs = s.futs) :
      (u.setFuture fut state).futs.length = s.futs.length := by
    rw [setFuture_eq, ← hu]
    exact settle_length _ _ _
  cases h with
  | control stack hbatch hresults hruns => exact hcore (.refl _) rfl rfl hresults rfl rfl
  | unwound hunwinds => exact hcore (.refl _) rfl rfl List.nil_suffix rfl rfl
  | forced exc hcause => exact hforced _ _ _ rfl
  | disarmed tr exc => exact hforced (u := s.modify tr (.setRecvPending false)) _ _ _ rfl
  | armed env ht hidle =>
    rename_i tr t
    refine .new env t.fd (some .recv) _ .recv (s.objs.modify tr (.setRecvPending true))
      (fun _ => rfl) ?_ (by simp [Request.opType]) rfl
    simp [Request.ioKind]
  | wrote env ha ht hopen hdata =>
    rename_i tr t data
    exact .new env t.fd none _ (.send data) s.objs (fun _ => rfl) (by simp) (fun _ _ => ha) rfl
  | submitted env fd kind? callbacks req hreq hkind hcallbacks hsend =>
    exact .new env fd kind? callbacks req s.objs hreq hkind hsend rfl
  | closeSubmitted env ht hsock => exact .close env _ rfl
  | drained hticks hmidway hcq => exact .drained hticks hmidway hcq rfl
  | cancelled fut' huser ha =>
    refine .calm ⟨?_, ?_, ?_, ?_, hlength _ _ s rfl, fun fut => ?_, ?_⟩
    · rw [setFuture_eq]
      exact hpushed _
    · rw [setFuture_eq]
    · rw [setFuture_eq]
    · have hresults : (s.setFuture fut' .cancelled).results = s.results := by rw [setFuture_eq]
      exact hresults ▸ List.suffix_refl _
    · rcases hsettled fut' .cancelled s rfl fut with h | ⟨hfut, hwaits, h⟩
      · exact .inl h
      · exact .inr ⟨hwaits, _, h, .cancelled (hfut ▸ ha)⟩
    · rw [setFuture_eq]
      exact fun _ _ _ h => h
  | ioSettled hr hs₀ hsettles hfut =>
    rename_i r kind fut' state
    refine .calm ⟨?_, ?_, ?_, ?_, hlength _ _ (s.popIo r.fd kind) rfl, fun fut => ?_, ?_⟩
    · rw [setFuture_eq]
      exact hpushed _
    · rw [setFuture_eq]
      rfl
    · rw [setFuture_eq]
      rfl
    · rw [setFuture_eq]
      exact List.suffix_refl s.results
    · rcases hsettled fut' state (s.popIo r.fd kind) rfl fut with h | ⟨rfl, hwaits, h⟩
      · exact .inl h
      · exact .inr ⟨hwaits, _, h, .io hr hs₀ hsettles hfut⟩
    · rw [setFuture_eq]
      exact fun _ _ _ h => popIo_lookup h
  | ioPopped fd =>
    exact .calm ⟨.refl _, rfl, rfl, List.suffix_refl _, rfl, fun _ => .inl rfl,
      fun _ _ _ h => popIo_lookup h⟩
  | closeHandled hr hop =>
    exact hcore (UringCore.quiet_unregisterFd hs.sound _) rfl rfl (List.suffix_refl _) rfl rfl
  | registered fd socketType =>
    exact hcore ⟨rfl, rfl, rfl, rfl⟩ rfl rfl (List.suffix_refl _) rfl rfl
  | unregistered fd =>
    exact hcore (UringCore.quiet_unregisterFd hs.sound fd) rfl rfl (List.suffix_refl _) rfl rfl
  | paused fd =>
    exact hcore (UringCore.SameLedger.of_withFdStates s.core fd true).quiet rfl rfl
      (List.suffix_refl _) rfl rfl
  | resumed fd =>
    exact hcore (UringCore.SameLedger.of_withFdStates s.core fd false).quiet rfl rfl
      (List.suffix_refl _) rfl rfl
  | consumed n =>
    exact hcore ⟨rfl, Ring.inFlight_take n s.core.ring, rfl, rfl⟩ rfl rfl (List.suffix_refl _) rfl rfl
  | completed ha h => exact .completed ha h rfl
  | flushed clock enter =>
    refine hcore ?_ rfl rfl (List.suffix_refl _) rfl rfl
    apply UringCore.SameLedger.quiet
    exact { UringCore.SameLedger.of_submit enter (s.core.expireTimers clock) with }
  | pushed k => exact hcore (hpushed _) rfl rfl (List.suffix_refl _) rfl rfl
  | batched hticks hbatch => exact hcore (hpushed []) rfl rfl (List.suffix_refl _) rfl rfl
  | _ => exact hcore (.refl _) rfl rfl (List.suffix_refl _) rfl rfl

/-! ## The history of submissions is right -/

/-- The operation was submitted by a request of its descriptor and its kind. -/
def Names (s : EventLoop K T) (e : Sqe) : Prop :=
  ∃ req, s.issued[e.seq]? = some (e.fd, req) ∧ req.opType = e.op.opType

structure IssuedSound (s : EventLoop K T) : Prop where
  length : s.issued.length = s.core.ring.tail
  live : ∀ e ∈ s.core.live, s.Names e
  drained : ∀ c ∈ s.drained, s.Names c.sqe
  created : ∀ x ∈ s.issued, ∀ fut, x.2.future? = some fut → fut < s.futs.length
  /-- A future belongs to one submission. -/
  once : ∀ (m n : Nat) (fut : FutId) (x y : Fd × Request FutId), s.issued[m]? = some x →
    s.issued[n]? = some y → x.2.future? = some fut → y.2.future? = some fut → m = n
  ioFutures : ∀ fd kind fut, s.ioLookup fd kind = some fut → fut < s.futs.length ∧
    ∀ x ∈ s.issued, x.2.future? = some fut → x.1 = fd ∧ x.2.ioKind = some kind
  futures : ∀ fd fut, s.core.futures.lookup fd = some fut → fut < s.futs.length ∧
    ∀ x ∈ s.issued, x.2.future? = some fut → x.1 = fd

namespace IssuedSound

variable {s t : EventLoop K T}

omit [LE T] [DecidableLE T] in
theorem names_cq (h : s.IssuedSound) {c : Cqe} (hc : c ∈ s.core.ring.cq) : s.Names c.sqe :=
  h.live c.sqe (UringCore.mem_live.mpr (.inr ⟨c, hc, rfl⟩))

omit [LE T] [DecidableLE T] in
theorem init {setup : Setup} {bufferSize bufferCount : Nat} {core : UringCore FutId (Handle K) T}
    (hnew : UringCore.new setup bufferSize bufferCount = .ok core) :
    (EventLoop.init core).IssuedSound := by
  rcases UringCore.new_spec hnew with ⟨entries, pool, -, rfl⟩
  refine ⟨rfl, ?_, ?_, ?_, ?_, ?_, ?_⟩
  · intro e he
    simp [EventLoop.init, UringCore.live, Ring.inFlight, Ring.new] at he
  · intro c hc
    cases hc
  · intro x hx
    cases hx
  · intro m n fut x y hx
    cases hx
  · intro fd kind fut hfut
    cases hfut
  · intro fd fut hfut
    cases hfut

omit [LE T] [DecidableLE T] in
theorem calm {s₀ : EventLoop K T} {a : Act K T} (h : s.IssuedSound) (hcalm : Calm s₀ a s t) : t.IssuedSound where
  length := by rw [hcalm.issued, hcalm.core.tail, h.length]
  live e he := by
    rw [Names, hcalm.issued]
    exact h.live e (hcalm.core.live ▸ he)
  drained c hc := by
    rw [hcalm.drained] at hc
    rw [Names, hcalm.issued]
    exact h.drained c hc
  created := by
    rw [hcalm.issued, hcalm.futs]
    exact h.created
  once := by
    rw [hcalm.issued]
    exact h.once
  ioFutures fd kind fut hfut := by
    rw [hcalm.issued, hcalm.futs]
    exact h.ioFutures fd kind fut (hcalm.ioFutures fd kind fut hfut)
  futures fd fut hfut := by
    rw [hcalm.issued, hcalm.futs]
    exact h.futures fd fut (hcalm.core.futures ▸ hfut)

omit [LE T] [DecidableLE T] in
theorem completed (h : s.IssuedSound) {i : Nat} {payload : Payload} {select more : Bool}
    {core : UringCore FutId (Handle K) T}
    (hcomplete : s.core.complete i payload select more = some core) :
    ({ s with core } : EventLoop K T).IssuedSound := by
  rcases UringCore.complete_spec hcomplete with ⟨c, -, -, -, -, hc⟩
  refine ⟨h.length.trans hc.tail.symm, fun e he => h.live e (hc.live he), h.drained, h.created,
    h.once, h.ioFutures, ?_⟩
  show ∀ fd fut, core.futures.lookup fd = some fut → _
  rw [hc.futures]
  exact h.futures

omit [LE T] [DecidableLE T] in
theorem drainOne (h : s.IssuedSound) {c : Cqe} {cs : List Cqe} (hcq : s.core.ring.cq = c :: cs) :
    (s.drainOne c cs).IssuedSound := by
  have hlength := drainOne_length c cs s
  have hone := drainOne_eq c cs s
  simp only [UringCore.processNext_eq] at hone
  have hissued : (s.drainOne c cs).issued = s.issued := by rw [hone]
  have hlive (e : Sqe) (he : e ∈ (s.drainOne c cs).core.live) : e ∈ s.core.live := by
    apply UringCore.live_processNext hcq
    rwa [drainOne_eq] at he
  constructor
  case length =>
    rw [hissued, h.length, hone]
  case live =>
    intro e he
    rw [Names, hissued]
    exact h.live e (hlive e he)
  case drained =>
    intro c' hc'
    rw [hone] at hc'
    rw [Names, hissued]
    rcases List.mem_append.mp hc' with hc' | hc'
    · exact h.drained c' hc'
    · rw [List.mem_singleton.mp hc']
      exact h.names_cq (by rw [hcq]; exact List.mem_cons_self)
  case created =>
    rw [hissued, hlength]
    exact h.created
  case once =>
    rw [hissued]
    exact h.once
  case ioFutures =>
    rw [hissued, hlength]
    have hio : (s.drainOne c cs).ioFutures = s.ioFutures := by rw [hone]
    simp only [ioLookup, hio]
    exact h.ioFutures
  case futures =>
    rw [hissued, hlength]
    intro fd fut hfut
    rw [hone] at hfut
    exact h.futures fd fut (AList.lookup_erase_eq_some.mp hfut).2

omit [LE T] [DecidableLE T] in
/-- A request joins the history; its future, if it has one, is not in the history yet. -/
theorem request (h : s.IssuedSound) (hs : s.CoreSound) (env : Env) (fd : Fd) (req : Request FutId)
    (hfuture : ∀ fut, req.future? = some fut → fut < s.futs.length ∧
      (∀ x ∈ s.issued, x.2.future? ≠ some fut) ∧ (∀ fd', s.core.futures.lookup fd' ≠ some fut) ∧
      ∀ fd' kind, s.ioLookup fd' kind = some fut → fd' = fd ∧ req.ioKind = some kind) :
    (s.request env fd req).1.IssuedSound := by
  have hspec : s.core.Submission env.enter fd req _ := UringCore.request_spec hs.sound env.now req
  have hissues := UringCore.request_issues hs.sound env.now env.enter fd req
  have heq : (s.request env fd req).1 = { s with
      core := (s.core.request env.now env.enter fd req).1
      issued := s.issued ++
        if (s.core.request env.now env.enter fd req).1.ring.tail = s.core.ring.tail then []
        else [(fd, req)] } := rfl
  rw [heq]
  rcases hissues with ⟨htail, hlive⟩ | ⟨htail, hlive⟩
  · rw [if_pos htail, List.append_nil]
    refine ⟨h.length.trans htail.symm, fun e he => h.live e (hlive e he), h.drained, h.created,
      h.once, h.ioFutures, ?_⟩
    intro fd' fut hfut
    rcases hspec.futures fd' fut hfut with hfut | ⟨-, hfut⟩
    · exact h.futures fd' fut hfut
    · rcases hfuture fut hfut with ⟨hlt, hnot, -⟩
      exact ⟨hlt, fun x hx hxfut => absurd hxfut (hnot x hx)⟩
  · rw [if_neg (by rw [htail]; exact Nat.succ_ne_self _)]
    -- the number of the new entry is its place in the history
    have hlast : (s.issued ++ [(fd, req)])[s.core.ring.tail]? = some (fd, req) := by
      rw [← h.length]
      exact List.getElem?_concat_length
    have hold {n : Nat} {x : Fd × Request FutId} (hx : (s.issued ++ [(fd, req)])[n]? = some x) :
        s.issued[n]? = some x ∨ n = s.core.ring.tail ∧ x = (fd, req) := by
      rw [← h.length]
      exact History.concat_eq_some.mp hx
    have hnames {e : Sqe} (he : s.Names e) :
        ∃ req', (s.issued ++ [(fd, req)])[e.seq]? = some (e.fd, req') ∧ req'.opType = e.op.opType := by
      rcases he with ⟨req', hreq', hop⟩
      exact ⟨req', History.getElem?_append_of_some hreq' _, hop⟩
    refine ⟨?_, ?_, fun c hc => hnames (h.drained c hc), ?_, ?_, ?_, ?_⟩
    · rw [List.length_append, h.length]
      exact htail.symm
    · intro e he
      rcases hlive e he with he | ⟨hfd, hop, hseq⟩
      · exact hnames (h.live e he)
      · exact ⟨req, by rw [hseq, hfd]; exact hlast, hop.symm⟩
    · intro x hx fut hfut
      rcases List.mem_append.mp hx with hx | hx
      · exact h.created x hx fut hfut
      · rw [List.mem_singleton.mp hx] at hfut
        exact (hfuture fut hfut).1
    · intro m n fut x y hx hy hxfut hyfut
      rcases hold hx with hx | ⟨rfl, rfl⟩ <;> rcases hold hy with hy | ⟨rfl, rfl⟩
      · exact h.once m n fut x y hx hy hxfut hyfut
      · exact absurd hxfut ((hfuture fut hyfut).2.1 x (List.mem_of_getElem? hx))
      · exact absurd hyfut ((hfuture fut hxfut).2.1 y (List.mem_of_getElem? hy))
      · rfl
    · intro fd' kind fut hfut
      refine ⟨(h.ioFutures fd' kind fut hfut).1, fun x hx hxfut => ?_⟩
      rcases List.mem_append.mp hx with hx | hx
      · exact (h.ioFutures fd' kind fut hfut).2 x hx hxfut
      · rw [List.mem_singleton.mp hx] at hxfut ⊢
        rcases (hfuture fut hxfut).2.2.2 fd' kind hfut with ⟨rfl, hkind⟩
        exact ⟨rfl, hkind⟩
    · intro fd' fut hfut
      rcases hspec.futures fd' fut hfut with hfut | ⟨rfl, hown⟩
      · refine ⟨(h.futures fd' fut hfut).1, fun x hx hxfut => ?_⟩
        rcases List.mem_append.mp hx with hx | hx
        · exact (h.futures fd' fut hfut).2 x hx hxfut
        · rw [List.mem_singleton.mp hx] at hxfut
          exact absurd hfut ((hfuture fut hxfut).2.2.1 fd')
      · refine ⟨(hfuture fut hown).1, fun x hx hxfut => ?_⟩
        rcases List.mem_append.mp hx with hx | hx
        · exact absurd hxfut ((hfuture fut hown).2.1 x hx)
        · rw [List.mem_singleton.mp hx]

omit [LE T] [DecidableLE T] in
/-- A new future is in no table. -/
theorem createFuture (h : s.IssuedSound) (callbacks : FutId → List (Handle K)) :
    (s.createFuture callbacks).IssuedSound where
  length := h.length
  live := h.live
  drained := h.drained
  created x hx fut hfut := by
    apply Nat.lt_of_lt_of_le (h.created x hx fut hfut)
    simp [EventLoop.createFuture]
  once := h.once
  ioFutures fd kind fut hfut := by
    refine ⟨?_, (h.ioFutures fd kind fut hfut).2⟩
    apply Nat.lt_of_lt_of_le (h.ioFutures fd kind fut hfut).1
    simp [EventLoop.createFuture]
  futures fd fut hfut := by
    refine ⟨?_, (h.futures fd fut hfut).2⟩
    apply Nat.lt_of_lt_of_le (h.futures fd fut hfut).1
    simp [EventLoop.createFuture]

omit [LE T] [DecidableLE T] in
theorem storeIo (h : s.IssuedSound) {fut : FutId} (fd : Fd) (kind : IoKind)
    (hlt : fut < s.futs.length) (hnot : ∀ x ∈ s.issued, x.2.future? ≠ some fut) :
    (s.storeIo fd kind fut).IssuedSound where
  length := h.length
  live := h.live
  drained := h.drained
  created := h.created
  once := h.once
  ioFutures fd' kind' fut' hfut := by
    obtain ⟨-, rfl⟩ | ⟨-, hold⟩ := AList.lookup_insert_eq_some.mp hfut
    · exact ⟨hlt, fun x hx hxfut => absurd hxfut (hnot x hx)⟩
    · exact h.ioFutures fd' kind' fut' hold
  futures := h.futures

omit [LE T] [DecidableLE T] in
theorem submitNew (h : s.IssuedSound) (hs : s.CoreSound) (env : Env) (fd : Fd)
    (kind? : Option IoKind) (callbacks : FutId → List (Handle K)) {req : FutId → Request FutId}
    (hfuture : ∀ fut, (req fut).future? = some fut)
    (hkind : ∀ fut, ∀ kind ∈ kind?, (req fut).ioKind = some kind) :
    (s.submitNew env fd kind? callbacks req).1.IssuedSound := by
  have hcreated := h.createFuture callbacks
  have hlt : s.futs.length < (s.createFuture callbacks).futs.length := by
    simp [EventLoop.createFuture]
  have hnot (x) (hx : x ∈ s.issued) : x.2.future? ≠ some s.futs.length := fun hfut =>
    Nat.lt_irrefl _ (h.created x hx _ hfut)
  have hnowhere (fd') : s.core.futures.lookup fd' ≠ some s.futs.length := fun hfut =>
    Nat.lt_irrefl _ (h.futures fd' _ hfut).1
  have hnoIo (fd' kind) : s.ioLookup fd' kind ≠ some s.futs.length := fun hfut =>
    Nat.lt_irrefl _ (h.ioFutures fd' kind _ hfut).1
  have hown {fut : FutId} (hfut : (req s.futs.length).future? = some fut) : fut = s.futs.length := by
    rw [hfuture, Option.some_inj] at hfut
    exact hfut.symm
  cases hk : kind? with
  | none =>
    apply hcreated.request ⟨hs.sound, hs.timers⟩
    intro fut hfut
    rw [hown hfut]
    exact ⟨hlt, hnot, hnowhere, fun fd' kind hio => absurd hio (hnoIo fd' kind)⟩
  | some kind =>
    apply (hcreated.storeIo fd kind hlt hnot).request ⟨hs.sound, hs.timers⟩
    intro fut hfut
    rw [hown hfut]
    refine ⟨hlt, hnot, hnowhere, fun fd' kind' hio => ?_⟩
    obtain ⟨hkey, -⟩ | ⟨-, hold⟩ := AList.lookup_insert_eq_some.mp hio
    · cases hkey
      exact ⟨rfl, hkind _ kind (by rw [hk]; rfl)⟩
    · exact absurd hold (hnoIo fd' kind')

theorem move {s₀ : EventLoop K T} {a : Act K T} (h : s.IssuedSound) (hs : s.CoreSound)
    (hmove : Move s₀ a s t) : t.IssuedSound := by
  cases hmove.issue hs with
  | calm hcalm => exact h.calm hcalm
  | completed ha hcomplete ht =>
    rw [ht]
    exact h.completed hcomplete
  | new env fd kind? callbacks req objs hfuture hkind hsend ht =>
    have hobjs : ({ s with objs } : EventLoop K T).IssuedSound :=
      ⟨h.length, h.live, h.drained, h.created, h.once, h.ioFutures, h.futures⟩
    rw [ht]
    exact hobjs.submitNew ⟨hs.sound, hs.timers⟩ env fd kind? callbacks hfuture hkind
  | close env fd ht =>
    rw [ht]
    exact h.request hs env fd .close (by simp [Request.future?])
  | drained hticks hmidway hcq ht =>
    rw [ht]
    exact h.drainOne hcq

theorem step {a : Act K T} (h : s.IssuedSound) (hs : s.CoreSound) (hstep : s.step a = some t) :
    t.IssuedSound :=
  ((step_moves hstep).rule (I := fun u => u.CoreSound ∧ u.IssuedSound)
    (fun _ _ hu hmove => ⟨hu.1.move hmove, hu.2.move hu.1 hmove⟩) ⟨hs, h⟩).2

end IssuedSound

/-! ## The futures during a tick -/

/-- The future that a tick from `s` has for `fd` when it has processed `pre`. -/
def takes (s : EventLoop K T) (pre : List Cqe) (fd : Fd) : Option FutId :=
  if fd ∈ pre.map (·.sqe.fd) then none else s.core.futures.lookup fd

omit [LE T] [DecidableLE T] in
/-- What processing a completion does to a future. -/
theorem drainOne_futState (c : Cqe) (cs : List Cqe) (s : EventLoop K T) (fut : FutId) :
    (s.drainOne c cs).futState fut =
      if s.core.futures.lookup c.sqe.fd = some fut ∧ s.Waits fut then
        some (s.core.process c.entry).2.1.outcome.futState
      else s.futState fut := by
  unfold futState
  rw [drainOne_futs]
  by_cases hfut : s.core.futures.lookup c.sqe.fd = some fut
  · rw [if_pos hfut]
    by_cases hwaits : s.Waits fut
    · rw [if_pos ⟨hfut, hwaits⟩]
      rcases Option.map_eq_some_iff.mp hwaits with ⟨f, hf, hpending⟩
      simp [hf, hpending]
    · rw [if_neg fun h => hwaits h.2]
      cases hf : s.futs[fut]? with
      | none => rfl
      | some f =>
        have hdone : f.state ≠ .pending := fun h => hwaits (by simp [Waits, hf, h])
        simp [hdone]
  · rw [if_neg hfut, if_neg fun h => hfut h.1]

omit [LE T] [DecidableLE T] in
/-- The future that the tick has for a completion is as it was when the tick began. -/
theorem Midway.waits_of_takes {s₀ s : EventLoop K T} (hi₀ : s₀.IssuedSound) {pre : List Cqe} (hmidway : s₀.Midway pre s)
    {fd : Fd} {fut : FutId} (htakes : s₀.takes pre fd = some fut) (hwaits : s₀.Waits fut)
    {n : Nat} {x : Fd × Request FutId} (hn : s₀.issued[n]? = some x) (hx : x.2.future? = some fut) :
    s.Waits fut := by
  unfold takes at htakes
  split at htakes
  · cases htakes
  · rename_i hfresh
    have hmem := List.mem_of_getElem? hn
    have hfd : x.1 = fd := (hi₀.futures fd fut htakes).2 x hmem hx
    rw [Waits, hmidway.futs fut]
    · exact hwaits
    · -- a future is stored under one descriptor only
      intro c' hc' hfound
      have hfd' : x.1 = c'.sqe.fd := (hi₀.futures c'.sqe.fd fut hfound).2 x hmem hx
      apply hfresh
      rw [← hfd, hfd']
      exact List.mem_map_of_mem hc'

omit [LE T] [DecidableLE T] in
theorem futState_submitNew (env : Env) (fd : Fd) (kind? : Option IoKind)
    (callbacks : FutId → List (Handle K)) (req : FutId → Request FutId) {s : EventLoop K T}
    {fut : FutId} (hlt : fut < s.futs.length) :
    (s.submitNew env fd kind? callbacks req).1.futState fut = s.futState fut := by
  rw [submitNew_eq]
  unfold futState
  rw [List.getElem?_append_left hlt]

/-- What was submitted stays submitted. -/
theorem Move.issued_prefix {s₀ s t : EventLoop K T} {a : Act K T} (hs : s.CoreSound)
    (hmove : Move s₀ a s t) : s.issued <+: t.issued := by
  cases hmove.issue hs with
  | calm hcalm => exact hcalm.issued ▸ List.prefix_rfl
  | completed ha hcomplete ht => exact ht ▸ List.prefix_rfl
  | new env fd kind? callbacks req objs hfuture hkind hsend ht =>
    rw [ht, submitNew_eq]
    exact List.prefix_append ..
  | close env fd ht =>
    rw [ht]
    exact List.prefix_append ..
  | drained hticks hmidway hcq ht =>
    have hissued : t.issued = s.issued := by rw [ht, drainOne_eq]
    exact hissued ▸ List.prefix_rfl

theorem Move.drained_prefix {s₀ s t : EventLoop K T} {a : Act K T} (hs : s.CoreSound)
    (hmove : Move s₀ a s t) : s.drained <+: t.drained := by
  cases hmove.issue hs with
  | calm hcalm => exact hcalm.drained ▸ List.prefix_rfl
  | completed ha hcomplete ht => exact ht ▸ List.prefix_rfl
  | new env fd kind? callbacks req objs hfuture hkind hsend ht =>
    have hdrained : t.drained = s.drained := by rw [ht, submitNew_eq]
    exact hdrained ▸ List.prefix_rfl
  | close env fd ht => exact ht ▸ List.prefix_rfl
  | drained hticks hmidway hcq ht =>
    rename_i pre c cs
    have hdrained : t.drained = s.drained ++ [c] := by rw [ht, drainOne_eq]
    exact hdrained ▸ List.prefix_append ..

/-- A future that is done stays as it is. -/
theorem Move.futState_done {s₀ s t : EventLoop K T} {a : Act K T} (h : Move s₀ a s t)
    (hs : s.CoreSound) {fut : FutId} {state : FutState} (hstate : s.futState fut = some state)
    (hdone : state ≠ .pending) : t.futState fut = some state := by
  have hwaits : ¬ s.Waits fut := fun hwaits => by
    have hpending : s.futState fut = some .pending := hwaits
    cases hstate.symm.trans hpending
    exact hdone rfl
  cases h.issue hs with
  | calm hcalm =>
    rcases hcalm.futState fut with hsame | ⟨hwaits', -⟩
    · exact hsame.trans hstate
    · exact absurd hwaits' hwaits
  | completed ha hcomplete ht =>
    rw [ht]
    exact hstate
  | new env fd kind? callbacks req objs hfuture hkind hsend ht =>
    obtain ⟨f, hf, -⟩ := Option.map_eq_some_iff.mp hstate
    rw [ht, futState_submitNew]
    · exact hstate
    · exact (List.getElem?_eq_some_iff.mp hf).1
  | close env fd ht =>
    rw [ht]
    exact hstate
  | drained hticks hmidway hcq ht =>
    rw [ht, drainOne_futState, if_neg fun h => hwaits h.2]
    exact hstate

/-! ## The completions and their handlers -/

/-- `C` holds of each completion of a batch, given the ones before it. -/
def InTurn (C : List Cqe → Cqe → Prop) (pre : List Cqe) : List Cqe → Prop
  | [] => True
  | c :: cs => C pre c ∧ InTurn C (pre ++ [c]) cs

instance decidableInTurn (C : List Cqe → Cqe → Prop) [∀ pre c, Decidable (C pre c)] :
    (pre cqes : List Cqe) → Decidable (InTurn C pre cqes)
  | _, [] => .isTrue trivial
  | pre, c :: cs =>
      have := decidableInTurn C (pre ++ [c]) cs
      inferInstanceAs (Decidable (_ ∧ _))

omit [LE T] [DecidableLE T] in
theorem InTurn.at {C : List Cqe → Cqe → Prop} {pre₀ pre cs : List Cqe} {c : Cqe}
    (h : InTurn C pre₀ (pre ++ c :: cs)) : C (pre₀ ++ pre) c := by
  induction pre generalizing pre₀ with
  | nil => simpa using h.1
  | cons c' pre ih =>
    rw [List.append_cons]
    exact ih h.2

/-- The completion whose handler is called next. -/
def handled? (s : EventLoop K T) : Option Cqe := s.drained[s.drained.length - s.results.length]?

/-- The results that wait for their handlers are of the last completions processed. -/
def ResultsTied (s : EventLoop K T) : Prop :=
  ∃ done cs, s.drained = done ++ cs ∧
    s.results.map (fun r => (r.fd, r.opType, r.result)) = cs.map Cqe.seen

omit [LE T] [DecidableLE T] in
theorem resultsTied_init (core : UringCore FutId (Handle K) T) : (init core).ResultsTied :=
  ⟨[], [], rfl, rfl⟩

omit [LE T] [DecidableLE T] in
theorem ResultsTied.suffix {s t : EventLoop K T} (h : s.ResultsTied) (hdrained : t.drained = s.drained)
    (hresults : t.results <:+ s.results) : t.ResultsTied := by
  rcases h with ⟨done, cs, hs, hcs⟩
  rcases hresults with ⟨pre, hpre⟩
  rw [← hpre, List.map_append] at hcs
  rcases List.map_eq_append_iff.mp hcs.symm with ⟨cs₁, cs₂, rfl, -, hcs₂⟩
  exact ⟨done ++ cs₁, cs₂, by rw [hdrained, hs, List.append_assoc], hcs₂.symm⟩

theorem ResultsTied.move {s₀ s t : EventLoop K T} {a : Act K T} (h : s.ResultsTied)
    (hs : s.CoreSound) (hmove : Move s₀ a s t) : t.ResultsTied := by
  cases hmove.issue hs with
  | calm hcalm => exact h.suffix hcalm.drained hcalm.results
  | completed ha hcomplete ht =>
    rw [ht]
    exact h
  | new env fd kind? callbacks req objs hfuture hkind hsend ht =>
    rw [ht, submitNew_eq]
    exact h
  | close env fd ht =>
    rw [ht]
    exact h
  | drained hticks hmidway hcq ht =>
    rename_i pre c cs
    rw [ht, drainOne_eq]
    rcases h with ⟨done, cs', hs, hcs⟩
    refine ⟨done, cs' ++ [c], by rw [← List.append_assoc, hs], ?_⟩
    rcases UringCore.extract_item c.entry s.core with ⟨data, hitem⟩
    simp only [List.map_append, hcs, List.map_cons, List.map_nil, UringCore.process, hitem,
      CompletionItem.tuple, Cqe.entry_fd, Cqe.entry_opType, Cqe.seen]
    rfl

omit [LE T] [DecidableLE T] in
/-- The next result is that of the completion `handled?`. -/
theorem ResultsTied.handled {s : EventLoop K T} (h : s.ResultsTied) {r : ResultTuple}
    {rest : List ResultTuple} (hr : s.results = r :: rest) : ∃ c, s.handled? = some c ∧
      c ∈ s.drained ∧ c.seen = (r.fd, r.opType, r.result) := by
  rcases h with ⟨done, cs, hs, hcs⟩
  rw [hr] at hcs
  cases cs with
  | nil => cases hcs
  | cons c cs =>
    simp only [List.map_cons, List.cons.injEq] at hcs
    have hlength : s.drained.length - s.results.length = done.length := by
      have htail := congrArg List.length hcs.2
      simp only [List.length_map] at htail
      rw [hs, hr, List.length_append, List.length_cons, List.length_cons, htail]
      omega
    refine ⟨c, ?_, ?_, hcs.1.symm⟩
    · rw [handled?, hlength, hs, List.getElem?_append_right (Nat.le_refl _), Nat.sub_self]
      rfl
    · rw [hs]
      simp

end

end EventLoop

end Uringcore
