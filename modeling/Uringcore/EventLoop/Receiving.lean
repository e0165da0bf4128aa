import Uringcore.EventLoop.ConnectionLost
import Uringcore.EventLoop.Listening
import Uringcore.EventLoop.Multishot

/-!
# The data that is received

A receive of a transport completes once, but its completion is looked at twice: `run_tick` resolves
the future stored for the descriptor, and after the tick's callbacks `_handle_recv_completion`
resolves the one it finds in `_io_futures`. In between the transport has armed its next receive, and
then the handler finds that one's future.

`Receivers` keeps, beside the loop, which transport each future was created for. `ReceivedOnce` is
the promise, `KeepsReceived` says which steps keep it: those that resolve the waiting future of a
transport's receive for no completion but its own.
-/

namespace Uringcore

/-- The transport and the future of an `_on_recv_complete`. -/
def Handle.receiver? {K : Type} : Handle K → Option (TransportId × FutId)
  | .onRecvComplete tr fut => some (tr, fut)
  | _ => none

/-- The data that `data_received` of `tr` is called with. -/
def TransportEvent.delivered? (tr : TransportId) : TransportEvent → Option Value
  | dataReceived tr' v => if tr' = tr then some v else none
  | _ => none

/-- The completions are not of one receive. -/
def Cqe.Apart (c c' : Cqe) : Prop := c.sqe.op.isRecv → c'.sqe.op.isRecv → c.sqe.seq ≠ c'.sqe.seq

namespace EventLoop
variable {K T : Type}

def Open (s : EventLoop K T) (tr : TransportId) : Prop := ∃ t ∈ s.objs[tr]?, t.closing = false

instance (s : EventLoop K T) (tr : TransportId) : Decidable (s.Open tr) :=
  inferInstanceAs (Decidable (∃ t ∈ s.objs[tr]?, t.closing = false))

/-- The future of the receive that was submitted with the number `n`. -/
def recvFuture? (s : EventLoop K T) (n : Nat) : Option FutId :=
  match s.issued[n]? with
  | some (_, .recv fut) => some fut
  | _ => none

/-- The transport whose `_on_recv_complete` waits for the future. -/
def receiver? (s : EventLoop K T) (fut : FutId) : Option TransportId :=
  match s.futs[fut]? with
  | some ⟨_, [.onRecvComplete tr _]⟩ => some tr
  | _ => none

/-- By future, the transport it was created for. -/
abbrev Receivers := FutId → Option TransportId

namespace Receivers

def init : Receivers := fun _ => none

/-- The futures that a step creates have their callbacks when it ends. -/
def upd (s : EventLoop K T) (_ : Act K T) (t : EventLoop K T) (r : Receivers) : Receivers :=
  fun fut => if fut < s.futs.length then r fut else t.receiver? fut

end Receivers

section
variable (s : EventLoop K T) (r : Receivers) (tr : TransportId)

/-- What the protocol of `tr` has been given, in order. -/
def delivered : List Value := s.log.filterMap (TransportEvent.delivered? tr)

/-- The transport whose receive the completion is of. -/
def receiverOf (c : Cqe) : Option TransportId := (s.recvFuture? c.sqe.seq).bind r

/-- The data of the receives of `tr` that ticks have processed, in order. -/
def completed : List Value :=
  (s.drained.filter fun c => s.receiverOf r c = some tr ∧ 0 < c.payload.result).map
    fun c => .data (.bytes c.payload.bytes)

/-- The future is that of a receive, which an open transport waits for. -/
def Awaited (fut : FutId) : Prop := s.Waits fut ∧ ∃ tr ∈ r fut, s.Open tr

instance (fut : FutId) : Decidable (s.Awaited r fut) :=
  inferInstanceAs (Decidable (_ ∧ ∃ tr ∈ r fut, s.Open tr))

/-- The completion has data, and the future of its own receive is waiting for it. -/
def Owed (c : Cqe) : Prop := 0 < c.payload.result ∧ ∃ fut ∈ s.recvFuture? c.sqe.seq, s.Awaited r fut

instance (c : Cqe) : Decidable (s.Owed r c) :=
  inferInstanceAs (Decidable (_ ∧ ∃ fut ∈ s.recvFuture? c.sqe.seq, _))

end

/-- The protocol of every open transport has been given the data of its receives, each once and in
order; when nothing is under way, all of it. -/
structure ReceivedOnce (x : EventLoop K T × Receivers) : Prop where
  ordered : ∀ tr, x.1.Open tr → x.1.delivered tr <+: x.1.completed x.2 tr
  all : ∀ tr, x.1.Open tr → x.1.idle = true → x.1.core.scheduler = [] →
    x.1.delivered tr = x.1.completed x.2 tr

/-- The buffer that a tick from `s` has for the receive on `c`'s descriptor after `pre` holds the
data of `c`. -/
def Holds (s : EventLoop K T) (pre : List Cqe) (c : Cqe) : Prop :=
  (∀ c' ∈ pre, c'.sqe.op.isRecv → c'.sqe.fd ≠ c.sqe.fd) ∧
    ∃ b ∈ s.core.inflightRecvBuffers.lookup c.sqe.fd, c.payload = .data c.payload.bytes ∧
      s.core.bufferPool.getBufferSlice b c.payload.bytes.length = c.payload.bytes

instance (s : EventLoop K T) (pre : List Cqe) (c : Cqe) : Decidable (s.Holds pre c) :=
  have : Decidable (∀ c' ∈ pre, c'.sqe.op.isRecv → c'.sqe.fd ≠ c.sqe.fd) := List.decidableBAll _ _
  inferInstanceAs (Decidable (_ ∧ ∃ b ∈ s.core.inflightRecvBuffers.lookup c.sqe.fd, _))

/-- A completion that a tick from `x` comes to after `pre` takes no awaited future but its own, and
its own with the data. -/
structure Takes (x : EventLoop K T × Receivers) (pre : List Cqe) (c : Cqe) : Prop where
  others : ∀ fut ∈ x.1.takes pre c.sqe.fd, x.1.Awaited x.2 fut → x.1.recvFuture? c.sqe.seq = some fut
  own : ∀ fut ∈ x.1.recvFuture? c.sqe.seq, 0 < c.payload.result → (∃ tr ∈ x.2 fut, x.1.Open tr) →
    x.1.Waits fut ∧ (x.1.takes pre c.sqe.fd = some fut → x.1.Holds pre c)

/-- The handler of `c`, whose result tuple is `r`, resolves no awaited future but `c`'s own, and its
own with the data. -/
structure Resolves (x : EventLoop K T × Receivers) (r : ResultTuple) (c : Cqe) : Prop where
  others : ∀ fut ∈ x.1.ioLookup r.fd .recv, x.1.Awaited x.2 fut → x.1.recvFuture? c.sqe.seq = some fut
  own : ∀ fut ∈ x.1.recvFuture? c.sqe.seq, 0 < c.payload.result → x.1.Awaited x.2 fut →
    x.1.ioLookup r.fd .recv = some fut ∧ c.payload = .data c.payload.bytes ∧
      r.data = some (.bytes c.payload.bytes)

instance (x : EventLoop K T × Receivers) (pre : List Cqe) (c : Cqe) : Decidable (Takes x pre c) :=
  have : Decidable (∀ fut ∈ x.1.takes pre c.sqe.fd, x.1.Awaited x.2 fut →
      x.1.recvFuture? c.sqe.seq = some fut) := Option.decidableForallMem _
  have : Decidable (∀ fut ∈ x.1.recvFuture? c.sqe.seq, 0 < c.payload.result →
      (∃ tr ∈ x.2 fut, x.1.Open tr) →
      x.1.Waits fut ∧ (x.1.takes pre c.sqe.fd = some fut → x.1.Holds pre c)) :=
    Option.decidableForallMem _
  decidable_of_iff (_ ∧ _) ⟨fun h => ⟨h.1, h.2⟩, fun h => ⟨h.others, h.own⟩⟩

instance (x : EventLoop K T × Receivers) (r : ResultTuple) (c : Cqe) : Decidable (Resolves x r c) :=
  have : Decidable (∀ fut ∈ x.1.ioLookup r.fd .recv, x.1.Awaited x.2 fut →
      x.1.recvFuture? c.sqe.seq = some fut) := Option.decidableForallMem _
  have : Decidable (∀ fut ∈ x.1.recvFuture? c.sqe.seq, 0 < c.payload.result →
      x.1.Awaited x.2 fut → x.1.ioLookup r.fd .recv = some fut ∧ c.payload = .data c.payload.bytes ∧
        r.data = some (.bytes c.payload.bytes)) :=
    Option.decidableForallMem _
  decidable_of_iff (_ ∧ _) ⟨fun h => ⟨h.1, h.2⟩, fun h => ⟨h.others, h.own⟩⟩

/-- No completion that waits for its handler owes its data. -/
def NoneOwed (x : EventLoop K T × Receivers) : Prop := ∀ c ∈ x.1.waiting, ¬ x.1.Owed x.2 c

instance (x : EventLoop K T × Receivers) : Decidable (NoneOwed x) := List.decidableBAll _ _

/-- No handle of the batch is to give data to an open transport. -/
def NoneReady (s : EventLoop K T) : Prop :=
  ∀ h ∈ s.batch, ∀ p ∈ h.receiver?, s.Open p.1 → s.received p.2 = []

instance (s : EventLoop K T) : Decidable s.NoneReady :=
  have (h : Handle K) : Decidable (∀ p ∈ h.receiver?, s.Open p.1 → s.received p.2 = []) :=
    Option.decidableForallMem _
  List.decidableBAll _ _

/-- The ticks and the handlers of receives resolve the futures of transports' receives for their own
completions, no exception leaves `_process_completions` while one is owed, and `run_tick` does not
unwind then, nor while data is ready. -/
def KeepsReceived (x : EventLoop K T × Receivers) : Act K T → Prop
  | .startTick _ enter => x.1.core.Flushes enter → InTurn (Takes x) [] x.1.core.ring.cq
  | .handleCompletion => ∀ r ∈ x.1.results.head?, r.opType = "recv" ∨ r.opType = "recv_multi" →
      ∀ c ∈ x.1.handled?, Resolves x r c
  | .ret r _ => ∀ frame ∈ x.1.stack.head?, (frame.aborts r → NoneOwed x) ∧
      (frame.unwinds r → x.1.NoneReady)
  | .rearmAccept env => x.1.core.HasRoom ∧ env.enter.isOk ∨ NoneOwed x
  | .consume _ | .complete .. | .callSoon _ | .runHandle | .call .. => True

instance (x : EventLoop K T × Receivers) : ∀ a : Act K T, Decidable (KeepsReceived x a)
  | .startTick .. => inferInstanceAs (Decidable (_ → _))
  | .handleCompletion =>
      have : ∀ r : ResultTuple, Decidable (∀ c ∈ x.1.handled?, Resolves x r c) :=
        fun _ => Option.decidableForallMem _
      inferInstanceAs (Decidable (∀ r ∈ x.1.results.head?, r.opType = "recv" ∨ r.opType = "recv_multi" →
        ∀ c ∈ x.1.handled?, Resolves x r c))
  | .ret .. => Option.decidableForallMem x.1.stack.head?
  | .rearmAccept _ => inferInstanceAs (Decidable (_ ∧ _ = true ∨ _))
  | .consume _ | .complete .. | .callSoon _ | .runHandle | .call .. => .isTrue trivial

/-! ## What is on its way -/

/-- The receives' callbacks are not among them. -/
def NoReceiver (hs : List (Handle K)) : Prop := ∀ h ∈ hs, h.receiver? = none

theorem not_mem_noReceiver {hs : List (Handle K)} (h : NoReceiver hs) (tr : TransportId) (fut : FutId) :
    .onRecvComplete tr fut ∉ hs := by
  intro hmem
  cases h _ hmem

/-- The data that a waiting handle will give to the protocol of `tr`, as long as that stays open. -/
def owes (s : EventLoop K T) (tr : TransportId) : Handle K → List Value
  | .onRecvComplete tr' fut => if tr' = tr then s.received fut else []
  | _ => []

section
variable (s : EventLoop K T) (r : Receivers)

/-- The data of resolved receives: `B` is what is left of the batch. -/
def ready (tr : TransportId) (B : List (Handle K)) : List Value :=
  (B ++ s.core.scheduler).flatMap (s.owes tr)

/-- The future of the completion's own receive, which is one of `tr`, is waiting for its data. -/
def Owes (tr : TransportId) (c : Cqe) : Prop :=
  0 < c.payload.result ∧ ∃ fut ∈ s.recvFuture? c.sqe.seq, r fut = some tr ∧ s.Waits fut

instance (tr : TransportId) (c : Cqe) : Decidable (s.Owes r tr c) :=
  inferInstanceAs (Decidable (_ ∧ ∃ fut ∈ s.recvFuture? c.sqe.seq, _))

/-- The data of receives that are not resolved: `W` are the completions that wait for their
handlers. -/
def unresolved (tr : TransportId) (W : List Cqe) : List Value :=
  (W.filter fun c => s.Owes r tr c).map fun c => .data (.bytes c.payload.bytes)

/-- `fut` is the future of a receive of `tr` that is not over: it waits, or its callback does. -/
def Outstanding (B : List (Handle K)) (tr : TransportId) (fut : FutId) : Prop :=
  r fut = some tr ∧ s.Waits fut ∨ .onRecvComplete tr fut ∈ B ++ s.core.scheduler

end

/-- What the futures, the handles and the transports of receives have to do with one another. An open
transport has one receive at a time. -/
structure ReceiversSound (s : EventLoop K T) (r : Receivers) (B : List (Handle K)) : Prop where
  known : ∀ fut tr, r fut = some tr → fut < s.futs.length ∧ tr < s.objs.length
  callbacks : ∀ fut tr f, r fut = some tr → s.futs[fut]? = some f → f.state = .pending →
    f.callbacks = [.onRecvComplete tr fut]
  others : ∀ fut f, r fut = none → s.futs[fut]? = some f → NoReceiver f.callbacks
  queued : ∀ tr fut, .onRecvComplete tr fut ∈ B ++ s.core.scheduler → r fut = some tr ∧ ¬ s.Waits fut
  nodup : ((B ++ s.core.scheduler).filterMap Handle.receiver?).Nodup
  single : ∀ tr, s.Open tr → ∀ fut fut', s.Outstanding r B tr fut → s.Outstanding r B tr fut' →
    fut = fut'
  pending : ∀ tr t, s.objs[tr]? = some t → t.closing = false → ∀ fut, s.Outstanding r B tr fut →
    t.recvPending = true
  io : ∀ fd kind fut tr, s.ioLookup fd kind = some fut → r fut = some tr → kind = .recv
  logged : ∀ tr v, .dataReceived tr v ∈ s.log → tr < s.objs.length

/-- What a protocol has been given and what is on its way to it is the data of its receives. -/
structure Balanced (s : EventLoop K T) (r : Receivers) (B : List (Handle K)) (W : List Cqe) : Prop where
  processed : ∀ c ∈ W, c ∈ s.drained
  /-- A receive completes once. -/
  seqs : W.Pairwise Cqe.Apart
  balance : ∀ tr, s.Open tr →
    s.delivered tr ++ (s.ready tr B ++ s.unresolved r tr W) = s.completed r tr

/-! ## Steps that do nothing to a receive -/

/-- The future is the same, or it is none of a receive: it waits or is new, and then it is done or
waits. -/
def SameFuture (f? f?' : Option (AsyncFuture K)) : Prop :=
  f?' = f? ∨ (∀ f ∈ f?, f.state = .pending ∧ NoReceiver f.callbacks) ∧
    ∃ f', f?' = some f' ∧ NoReceiver f'.callbacks

structure SameReceives (s t : EventLoop K T) : Prop where
  futs : ∀ fut : FutId, SameFuture s.futs[fut]? t.futs[fut]?
  scheduler : ∃ hs, t.core.scheduler = s.core.scheduler ++ hs ∧ NoReceiver hs
  objs : s.objs.length ≤ t.objs.length
  opens : ∀ tr t', t.objs[tr]? = some t' → t'.closing = false → s.objs.length ≤ tr ∨
    ∃ t₀, s.objs[tr]? = some t₀ ∧ t₀.closing = false ∧ (t₀.recvPending = true → t'.recvPending = true)
  log : ∃ es, t.log = s.log ++ es ∧ ∀ e ∈ es, ∀ tr v, e ≠ .dataReceived tr v
  io : ∀ fd kind fut, t.ioLookup fd kind = some fut →
    s.ioLookup fd kind = some fut ∨ s.futs.length ≤ fut
  issued : s.issued <+: t.issued

section
variable {s t t' : EventLoop K T} {r r' : Receivers} {B : List (Handle K)} {W : List Cqe}

theorem open_iff {tr : TransportId} : s.Open tr ↔ ∃ t₀, s.objs[tr]? = some t₀ ∧ t₀.closing = false :=
  Iff.rfl

theorem receiver?_of_noReceiver {fut : FutId} {f : AsyncFuture K} (hf : s.futs[fut]? = some f)
    (hnone : NoReceiver f.callbacks) : s.receiver? fut = none := by
  unfold receiver?
  rw [hf]
  split
  · rename_i tr fut' heq
    cases heq
    exact absurd List.mem_cons_self (not_mem_noReceiver hnone tr fut')
  · rfl

theorem SameReceives.futs_le (h : SameReceives s t) : s.futs.length ≤ t.futs.length := by
  by_contra hlt
  have hlt : t.futs.length < s.futs.length := Nat.not_le.mp hlt
  rcases h.futs t.futs.length with heq | ⟨-, f, hf, -⟩
  · rw [List.getElem?_eq_none (Nat.le_refl _), List.getElem?_eq_getElem hlt] at heq
    cases heq
  · exact Nat.lt_irrefl _ (List.getElem?_eq_some_iff.mp hf).1

namespace ReceiversSound

theorem waits_callbacks (h : ReceiversSound s r B) {fut : FutId} {tr : TransportId} (hr : r fut = some tr)
    (hwaits : s.Waits fut) : s.futs[fut]? = some ⟨.pending, [.onRecvComplete tr fut]⟩ := by
  obtain ⟨f, hf, hpending⟩ := Option.map_eq_some_iff.mp hwaits
  have hcallbacks := h.callbacks fut tr f hr hf hpending
  obtain ⟨state, callbacks⟩ := f
  cases hpending
  cases hcallbacks
  exact hf

/-- A step that does nothing to a receive does nothing to its future. -/
theorem futs_eq (h : ReceiversSound s r B) (hsame : SameReceives s t) {fut : FutId} {tr : TransportId}
    (hr : r fut = some tr) : t.futs[fut]? = s.futs[fut]? := by
  rcases hsame.futs fut with heq | ⟨hnone, -⟩
  · exact heq
  · have hlt := (h.known fut tr hr).1
    obtain ⟨hpending, hcallbacks⟩ := hnone _ (List.getElem?_eq_getElem hlt)
    have hown := h.callbacks fut tr _ hr (List.getElem?_eq_getElem hlt) hpending
    rw [hown] at hcallbacks
    exact absurd List.mem_cons_self (not_mem_noReceiver hcallbacks tr fut)

theorem mem_queue (hsame : SameReceives s t) {tr : TransportId} {fut : FutId}
    (hmem : .onRecvComplete tr fut ∈ B ++ t.core.scheduler) :
    .onRecvComplete tr fut ∈ B ++ s.core.scheduler := by
  obtain ⟨hs, hscheduler, hnone⟩ := hsame.scheduler
  rw [hscheduler, ← List.append_assoc] at hmem
  rcases List.mem_append.mp hmem with hmem | hmem
  · exact hmem
  · exact absurd hmem (not_mem_noReceiver hnone tr fut)

theorem outstanding_of_same (h : ReceiversSound s r B) (hsame : SameReceives s t) {tr : TransportId}
    {fut : FutId} (hout : t.Outstanding r B tr fut) : s.Outstanding r B tr fut := by
  rcases hout with ⟨hr, hwaits⟩ | hmem
  · left
    rw [Waits, h.futs_eq hsame hr] at hwaits
    exact ⟨hr, hwaits⟩
  · exact .inr (mem_queue hsame hmem)

theorem outstanding_known (h : ReceiversSound s r B) {tr : TransportId} {fut : FutId}
    (hout : s.Outstanding r B tr fut) : r fut = some tr := by
  rcases hout with ⟨hr, -⟩ | hmem
  · exact hr
  · exact (h.queued tr fut hmem).1

/-- An open transport with a receive was open before. -/
theorem opens (h : ReceiversSound s r B) (hsame : SameReceives s t) {tr : TransportId} {fut : FutId}
    (hr : r fut = some tr) {t' : Transport} (ht' : t.objs[tr]? = some t') (hopen : t'.closing = false) :
    ∃ t₀, s.objs[tr]? = some t₀ ∧ t₀.closing = false ∧
      (t₀.recvPending = true → t'.recvPending = true) := by
  rcases hsame.opens tr t' ht' hopen with hnew | hold
  · exact absurd (h.known fut tr hr).2 (Nat.not_lt.mpr hnew)
  · exact hold

theorem of_same (h : ReceiversSound s r B) (hsame : SameReceives s t) : ReceiversSound t r B := by
  have hlength := hsame.futs_le
  constructor
  case known =>
    intro fut tr hr
    obtain ⟨hfut, htr⟩ := h.known fut tr hr
    exact ⟨Nat.lt_of_lt_of_le hfut hlength, Nat.lt_of_lt_of_le htr hsame.objs⟩
  case callbacks =>
    intro fut tr f hr hf
    rw [h.futs_eq hsame hr] at hf
    exact h.callbacks fut tr f hr hf
  case others =>
    intro fut f hr hf
    rcases hsame.futs fut with heq | ⟨-, f', hf', hnone⟩
    · rw [heq] at hf
      exact h.others fut f hr hf
    · rw [hf, Option.some_inj] at hf'
      rwa [hf']
  case queued =>
    intro tr fut hmem
    obtain ⟨hr, hdone⟩ := h.queued tr fut (mem_queue hsame hmem)
    refine ⟨hr, ?_⟩
    rwa [Waits, h.futs_eq hsame hr]
  case nodup =>
    obtain ⟨hs, hscheduler, hnone⟩ := hsame.scheduler
    rw [hscheduler, ← List.append_assoc, List.filterMap_append, List.filterMap_eq_nil_iff.mpr hnone,
      List.append_nil]
    exact h.nodup
  case single =>
    rintro tr ⟨t', ht', hopen⟩ fut fut' hout hout'
    have hout := h.outstanding_of_same hsame hout
    have hout' := h.outstanding_of_same hsame hout'
    obtain ⟨t₀, ht₀, hopen₀, -⟩ := h.opens hsame (h.outstanding_known hout) ht' hopen
    exact h.single tr ⟨t₀, ht₀, hopen₀⟩ fut fut' hout hout'
  case pending =>
    intro tr t' ht' hopen fut hout
    have hout := h.outstanding_of_same hsame hout
    obtain ⟨t₀, ht₀, hopen₀, hpending⟩ := h.opens hsame (h.outstanding_known hout) ht' hopen
    exact hpending (h.pending tr t₀ ht₀ hopen₀ fut hout)
  case io =>
    intro fd kind fut tr hfut hr
    rcases hsame.io fd kind fut hfut with hold | hnew
    · exact h.io fd kind fut tr hold hr
    · exact absurd (h.known fut tr hr).1 (Nat.not_lt.mpr hnew)
  case logged =>
    intro tr v hmem
    obtain ⟨es, hlog, hnone⟩ := hsame.log
    rw [hlog] at hmem
    rcases List.mem_append.mp hmem with hmem | hmem
    · exact Nat.lt_of_lt_of_le (h.logged tr v hmem) hsame.objs
    · exact absurd rfl (hnone _ hmem tr v)

end ReceiversSound

/-! ## The balance -/

theorem recvFuture?_eq_some {n : Nat} {fut : FutId} :
    s.recvFuture? n = some fut ↔ ∃ fd, s.issued[n]? = some (fd, .recv fut) := by
  unfold recvFuture?
  split
  · rename_i fd fut' hissued
    simp [hissued]
  · rename_i hnot
    refine ⟨nofun, fun ⟨fd, h⟩ => absurd h (hnot fd fut)⟩

theorem recvFuture?_eq (hissued : s.issued <+: t.issued) {n : Nat} (hlt : n < s.issued.length) :
    t.recvFuture? n = s.recvFuture? n := by
  obtain ⟨new, hnew⟩ := hissued
  rw [recvFuture?, recvFuture?, ← hnew, List.getElem?_append_left hlt]

theorem IssuedSound.drained_lt (hi : s.IssuedSound) {c : Cqe} (hc : c ∈ s.drained) :
    c.sqe.seq < s.issued.length := by
  obtain ⟨req, hreq, -⟩ := hi.drained c hc
  exact (List.getElem?_eq_some_iff.mp hreq).1

theorem IssuedSound.recvFuture_lt (hi : s.IssuedSound) {n : Nat} {fut : FutId}
    (h : s.recvFuture? n = some fut) : fut < s.futs.length := by
  obtain ⟨fd, hn⟩ := recvFuture?_eq_some.mp h
  exact hi.created _ (List.mem_of_getElem? hn) fut rfl

/-- An operation with the number of a receive is a receive. -/
theorem Names.opType_recv {e : Sqe} (he : s.Names e) {fut : FutId} (h : s.recvFuture? e.seq = some fut) :
    e.op.opType = .recv := by
  obtain ⟨fd, hn⟩ := recvFuture?_eq_some.mp h
  obtain ⟨req, hreq, hop⟩ := he
  rw [hn] at hreq
  cases hreq
  exact hop.symm

theorem Names.isRecv {e : Sqe} (he : s.Names e) {fut : FutId} (h : s.recvFuture? e.seq = some fut) :
    e.op.isRecv = true := by
  have hop := he.opType_recv h
  cases heq : e.op <;> simp_all [SqeOp.opType, SqeOp.isRecv, SqeOp.recvBuf?]

theorem IssuedSound.recvFuture_inj (hi : s.IssuedSound) {m n : Nat} {fut : FutId}
    (hm : s.recvFuture? m = some fut) (hn : s.recvFuture? n = some fut) : m = n := by
  obtain ⟨fd, hm⟩ := recvFuture?_eq_some.mp hm
  obtain ⟨fd', hn⟩ := recvFuture?_eq_some.mp hn
  exact hi.once m n fut _ _ hm hn rfl rfl

/-- A transport that is not there yet has received nothing. -/
theorem ReceiversSound.nothing_of_new (h : ReceiversSound s r B) {tr : TransportId}
    (htr : s.objs.length ≤ tr) : s.delivered tr = [] ∧ s.ready tr B = [] ∧ s.unresolved r tr W = [] ∧
      s.completed r tr = [] := by
  have hnot (fut : FutId) : r fut ≠ some tr := fun hr =>
    absurd (h.known fut tr hr).2 (Nat.not_lt.mpr htr)
  refine ⟨?_, ?_, ?_, ?_⟩
  · apply List.filterMap_eq_nil_iff.mpr
    intro e he
    cases e with
    | dataReceived tr' v =>
      have hlt := h.logged tr' v he
      have hne : tr' ≠ tr := fun heq => absurd hlt (Nat.not_lt.mpr (heq ▸ htr))
      simp [TransportEvent.delivered?, hne]
    | _ => rfl
  · apply List.flatMap_eq_nil_iff.mpr
    intro handle hmem
    cases handle with
    | onRecvComplete tr' fut =>
      have hne : tr' ≠ tr := fun heq => hnot fut (heq ▸ (h.queued tr' fut hmem).1)
      simp [owes, hne]
    | _ => rfl
  · rw [unresolved, List.map_eq_nil_iff, List.filter_eq_nil_iff]
    intro c _ howes
    obtain ⟨-, fut, -, hr, -⟩ := of_decide_eq_true howes
    exact hnot fut hr
  · rw [completed, List.map_eq_nil_iff, List.filter_eq_nil_iff]
    intro c _ howned
    obtain ⟨fut, -, hr⟩ := Option.bind_eq_some_iff.mp (of_decide_eq_true howned).1
    exact hnot fut hr

theorem received_congr {fut : FutId} (h : t.futState fut = s.futState fut) :
    t.received fut = s.received fut := by
  rw [received, received, h]

/-- What was handed over, what is on its way and what was completed stays, if nothing happens to the
receives of the transports that are still open. -/
theorem Balanced.mono (h : Balanced s r B W) (hs : ReceiversSound s r B) (hi : s.IssuedSound)
    (hr : ∀ fut < s.futs.length, r' fut = r fut)
    (hopen : ∀ tr, t.Open tr → s.objs.length ≤ tr ∨ s.Open tr)
    (hstate : ∀ fut tr, r fut = some tr → t.Open tr → t.futState fut = s.futState fut)
    (hscheduler : ∃ hs, t.core.scheduler = s.core.scheduler ++ hs ∧
      ∀ tr fut, .onRecvComplete tr fut ∈ hs → ¬ t.Open tr)
    (hlog : ∃ es, t.log = s.log ++ es ∧ ∀ e ∈ es, ∀ tr v, e ≠ .dataReceived tr v)
    (hissued : s.issued <+: t.issued) (hdrained : t.drained = s.drained) : Balanced t r' B W := by
  refine ⟨fun c hc => hdrained ▸ h.processed c hc, h.seqs, fun tr htr => ?_⟩
  have hfuture {c : Cqe} (hc : c ∈ s.drained) :
      t.recvFuture? c.sqe.seq = s.recvFuture? c.sqe.seq := recvFuture?_eq hissued (hi.drained_lt hc)
  have hdelivered : t.delivered tr = s.delivered tr := by
    obtain ⟨es, heq, hnone⟩ := hlog
    have hempty : es.filterMap (TransportEvent.delivered? tr) = [] := by
      apply List.filterMap_eq_nil_iff.mpr
      intro e he
      cases e with
      | dataReceived tr' v => exact absurd rfl (hnone _ he tr' v)
      | _ => rfl
    rw [delivered, heq, List.filterMap_append, hempty, List.append_nil, delivered]
  have hready : t.ready tr B = s.ready tr B := by
    obtain ⟨new, heq, hclosed⟩ := hscheduler
    have hnew : new.flatMap (t.owes tr) = [] := by
      apply List.flatMap_eq_nil_iff.mpr
      intro handle hmem
      cases handle with
      | onRecvComplete tr' fut =>
        have hne : tr' ≠ tr := fun heq => hclosed tr' fut hmem (heq ▸ htr)
        simp [owes, hne]
      | _ => rfl
    have hold : (B ++ s.core.scheduler).flatMap (t.owes tr) =
        (B ++ s.core.scheduler).flatMap (s.owes tr) := by
      apply List.flatMap_congr
      intro handle hmem
      cases handle with
      | onRecvComplete tr' fut =>
        show (if tr' = tr then t.received fut else []) = if tr' = tr then s.received fut else []
        split
        · rename_i htr'
          subst htr'
          exact received_congr (hstate fut tr' (hs.queued tr' fut hmem).1 htr)
        · rfl
      | _ => rfl
    rw [ready, heq, ← List.append_assoc, List.flatMap_append, hnew, List.append_nil, hold, ready]
  have hunresolved : t.unresolved r' tr W = s.unresolved r tr W := by
    unfold unresolved
    congr 1
    apply List.filter_congr
    intro c hc
    apply decide_eq_decide.mpr
    rw [Owes, Owes, hfuture (h.processed c hc)]
    apply and_congr_right
    intro _
    apply exists_congr
    intro fut
    apply and_congr_right
    intro hfut
    rw [hr fut (hi.recvFuture_lt hfut)]
    apply and_congr_right
    intro hown
    exact iff_of_eq (congrArg (· = some FutState.pending) (hstate fut tr hown htr))
  have hcompleted : t.completed r' tr = s.completed r tr := by
    unfold completed
    rw [hdrained]
    congr 1
    apply List.filter_congr
    intro c hc
    have hsame : t.receiverOf r' c = s.receiverOf r c := by
      unfold receiverOf
      rw [hfuture hc]
      cases hfut : s.recvFuture? c.sqe.seq with
      | none => rfl
      | some fut => exact hr fut (hi.recvFuture_lt hfut)
    rw [hsame]
  rw [hdelivered, hready, hunresolved, hcompleted]
  rcases hopen tr htr with hnew | hopen
  · obtain ⟨h₁, h₂, h₃, h₄⟩ := hs.nothing_of_new (W := W) hnew
    rw [h₁, h₂, h₃, h₄]
    rfl
  · exact h.balance tr hopen

theorem Balanced.of_same (h : Balanced s r B W) (hs : ReceiversSound s r B) (hi : s.IssuedSound)
    (hsame : SameReceives s t) (hdrained : t.drained = s.drained) : Balanced t r B W := by
  apply h.mono hs hi (fun _ _ => rfl)
  · rintro tr ⟨t', ht', hopen⟩
    rcases hsame.opens tr t' ht' hopen with hnew | ⟨t₀, ht₀, hopen₀, -⟩
    · exact .inl hnew
    · exact .inr ⟨t₀, ht₀, hopen₀⟩
  · intro fut tr hr _
    rw [futState, futState, hs.futs_eq hsame hr]
  · obtain ⟨new, hscheduler, hnone⟩ := hsame.scheduler
    exact ⟨new, hscheduler, fun tr fut hmem => absurd hmem (not_mem_noReceiver hnone tr fut)⟩
  · exact hsame.log
  · exact hsame.issued
  · exact hdrained

/-! ## The moves that do nothing to a receive -/

theorem settle_cases (futs : List (AsyncFuture K)) (fut : FutId) (state : FutState) :
    (futs[fut]?).map AsyncFuture.state ≠ some .pending ∧ settle futs fut state = (futs, []) ∨
      ∃ callbacks, futs[fut]? = some ⟨.pending, callbacks⟩ ∧
        settle futs fut state = (futs.set fut ⟨state, []⟩, callbacks) := by
  unfold settle
  split
  · rename_i callbacks hfut
    exact .inr ⟨callbacks, hfut, rfl⟩
  · rename_i hdone
    left
    refine ⟨fun hpending => ?_, rfl⟩
    obtain ⟨⟨state, callbacks⟩, hfut, hstate⟩ := Option.map_eq_some_iff.mp hpending
    cases hstate
    exact hdone callbacks hfut

namespace SameReceives

theorem refl (s : EventLoop K T) : SameReceives s s where
  futs _ := .inl rfl
  scheduler := ⟨[], (List.append_nil _).symm, by simp [NoReceiver]⟩
  objs := Nat.le_refl _
  opens tr t ht hopen := .inr ⟨t, ht, hopen, id⟩
  log := ⟨[], (List.append_nil _).symm, by simp⟩
  io _ _ _ h := .inl h
  issued := List.prefix_rfl

/-- Flags are written that leave a closing transport closing, and an open one as pending as it was. -/
theorem opens_modify {objs : List Transport} {tr : TransportId} {f : Transport → Transport}
    (hf : ∀ t₀, objs[tr]? = some t₀ → (f t₀).closing = false →
      t₀.closing = false ∧ (t₀.recvPending = true → (f t₀).recvPending = true)) :
    ∀ tr' t', (objs.modify tr f)[tr']? = some t' → t'.closing = false → objs.length ≤ tr' ∨
      ∃ t₀, objs[tr']? = some t₀ ∧ t₀.closing = false ∧
        (t₀.recvPending = true → t'.recvPending = true) := by
  intro tr' t' ht' hopen
  right
  rw [List.getElem?_modify] at ht'
  obtain ⟨t₀, ht₀, rfl⟩ := Option.map_eq_some_iff.mp ht'
  by_cases htr : tr = tr'
  · subst htr
    simp only [if_true] at hopen ⊢
    obtain ⟨hopen₀, hpending⟩ := hf t₀ ht₀ hopen
    exact ⟨t₀, ht₀, hopen₀, hpending⟩
  · simp only [htr, if_false] at hopen ⊢
    exact ⟨t₀, ht₀, hopen, id⟩

/-- A new transport comes after those there are. -/
theorem opens_concat (objs : List Transport) (new : Transport) :
    ∀ tr t', (objs ++ [new])[tr]? = some t' → t'.closing = false → objs.length ≤ tr ∨
      ∃ t₀, objs[tr]? = some t₀ ∧ t₀.closing = false ∧
        (t₀.recvPending = true → t'.recvPending = true) := by
  intro tr t' ht' hopen
  obtain hold | ⟨rfl, -⟩ := History.concat_eq_some.mp ht'
  · exact .inr ⟨t', hold, hopen, id⟩
  · exact .inl (Nat.le_refl _)

theorem modify {tr : TransportId} {f : Transport → Transport}
    (hf : ∀ t₀, s.objs[tr]? = some t₀ → (f t₀).closing = false →
      t₀.closing = false ∧ (t₀.recvPending = true → (f t₀).recvPending = true)) :
    SameReceives s (s.modify tr f) :=
  { SameReceives.refl s with
    objs := (List.length_modify ..).ge
    opens := opens_modify hf }

/-- A transport that goes through `_force_close` is not open afterwards. -/
theorem forceClose {cause : TransportEvent} (exc : Option Exc) {tr : TransportId}
    (hcause : cause.isForced tr = true) : SameReceives s (s.forceClose cause exc tr) := by
  have hquiet : ∀ tr' v, cause ≠ .dataReceived tr' v := by
    rintro tr' v rfl
    cases hcause
  cases ht : s.objs[tr]? with
  | none =>
    rw [forceClose_none ht]
    exact .refl s
  | some t₀ =>
    cases hclosed : t₀.closed with
    | true =>
      rw [forceClose_closed ht hclosed]
      exact { SameReceives.refl s with log := ⟨[cause], rfl, by simpa using hquiet⟩ }
    | false =>
      rw [forceClose_open ht hclosed]
      exact { SameReceives.refl s with
        scheduler := ⟨[.callConnectionLost tr exc], rfl, by simp [NoReceiver, Handle.receiver?]⟩
        objs := (List.length_modify ..).ge
        opens := opens_modify fun t₀ _ hopen => by cases hopen
        log := ⟨[cause, .lostScheduled tr], rfl, by simpa using hquiet⟩ }

/-- The receive of a transport has been refused. -/
theorem disarmed (tr : TransportId) (exc : Exc)
    (hclosing : ∀ t₀, s.objs[tr]? = some t₀ → t₀.closed = true → t₀.closing = true) :
    SameReceives s ((s.modify tr (.setRecvPending false)).errorReceived tr exc) := by
  unfold errorReceived
  cases ht : s.objs[tr]? with
  | none =>
    rw [forceClose_none (by simp [EventLoop.modify, ht])]
    apply modify
    intro t₀ ht₀
    rw [ht] at ht₀
    cases ht₀
  | some t₀ =>
    have ht' : (s.modify tr (.setRecvPending false)).objs[tr]? = some (t₀.setRecvPending false) := by
      simp [EventLoop.modify, ht]
    cases hclosed : t₀.closed with
    | true =>
      rw [forceClose_closed ht' hclosed]
      exact { SameReceives.refl s with
        objs := (List.length_modify ..).ge
        opens := opens_modify fun t₁ ht₁ hopen => by
          rw [ht, Option.some_inj] at ht₁
          subst ht₁
          have hopen : t₀.closing = false := hopen
          rw [hclosing t₀ ht hclosed] at hopen
          cases hopen
        log := ⟨[_], rfl, by simp⟩ }
    | false =>
      rw [forceClose_open ht' hclosed]
      have hmodify : (s.modify tr (.setRecvPending false)).objs.modify tr .setClosed =
          s.objs.modify tr fun t => (t.setRecvPending false).setClosed := List.modify_modify_eq ..
      exact { SameReceives.refl s with
        scheduler := ⟨[.callConnectionLost tr _], rfl, by simp [NoReceiver, Handle.receiver?]⟩
        objs := by
          rw [hmodify]
          exact (List.length_modify ..).ge
        opens := by
          rw [hmodify]
          exact opens_modify fun t₁ _ hopen => by cases hopen
        log := ⟨[_, _], rfl, by simp⟩ }

/-- A future that is no receive's is settled. -/
theorem setFuture {fut : FutId} (state : FutState)
    (hnone : ∀ f, s.futs[fut]? = some f → f.state = .pending → NoReceiver f.callbacks) :
    SameReceives s (s.setFuture fut state) := by
  rw [setFuture_eq]
  rcases settle_cases s.futs fut state with ⟨-, hsettle⟩ | ⟨callbacks, hfut, hsettle⟩
  · rw [hsettle]
    exact { SameReceives.refl s with
      scheduler := ⟨[], rfl, by simp [NoReceiver]⟩ }
  · rw [hsettle]
    exact { SameReceives.refl s with
      scheduler := ⟨callbacks, rfl, hnone _ hfut rfl⟩
      futs := by
        intro fut'
        show SameFuture s.futs[fut']? (s.futs.set fut ⟨state, []⟩)[fut']?
        by_cases heq : fut = fut'
        · subst heq
          have hlt := (List.getElem?_eq_some_iff.mp hfut).1
          rw [List.getElem?_set_self hlt, hfut]
          refine .inr ⟨?_, _, rfl, by simp [NoReceiver]⟩
          rintro f ⟨⟩
          exact ⟨rfl, hnone _ hfut rfl⟩
        · rw [List.getElem?_set_ne heq]
          exact .inl rfl }

/-- A submission for which no receive of a transport waits. -/
theorem submitNew (hs : s.CoreSound) (env : Env) (fd : Fd) (kind? : Option IoKind)
    {callbacks : FutId → List (Handle K)} (req : FutId → Request FutId)
    (hnone : NoReceiver (callbacks s.futs.length)) :
    SameReceives s (s.submitNew env fd kind? callbacks req).1 := by
  have hio (fd' : Fd) (kind' : IoKind) (fut : FutId)
      (hfut : (s.submitNew env fd kind? callbacks req).1.ioLookup fd' kind' = some fut) :
      s.ioLookup fd' kind' = some fut ∨ s.futs.length ≤ fut :=
    (ioLookup_submitNew hfut).imp_right fun hnew => hnew.2.2.ge
  rw [submitNew_eq] at hio ⊢
  exact { SameReceives.refl s with
    scheduler := ⟨[], by
      rw [List.append_nil]
      exact scheduler_request hs env fd _, by simp [NoReceiver]⟩
    issued := List.prefix_append ..
    futs := by
      intro fut
      rcases Nat.lt_trichotomy fut s.futs.length with hlt | rfl | hgt
      · exact .inl (List.getElem?_append_left hlt)
      · right
        refine ⟨?_, _, List.getElem?_concat_length, hnone⟩
        rw [List.getElem?_eq_none (Nat.le_refl _)]
        nofun
      · left
        rw [List.getElem?_eq_none (Nat.le_of_lt hgt), List.getElem?_eq_none (by simp; omega)]
    io := hio }

/-- A step of the core that is no tick. -/
theorem core_step [LE T] [DecidableLE T] (hs : s.CoreSound) {core : UringCore FutId (Handle K) T}
    {act : UringCore.Act FutId (Handle K) T} (hact : act.isTick = false)
    (hstep : UringCore.machine.step s.core act = some core) : SameReceives s { s with core } :=
  { SameReceives.refl s with
    scheduler := ⟨[], by
      rw [List.append_nil]
      exact (UringCore.queues_step hs.sound hact hstep).1, by simp [NoReceiver]⟩ }

/-- A tick flushes the ring. -/
theorem flush [LE T] [DecidableLE T] (hs : s.CoreSound) (clock : T) (enter : Except String Nat) :
    SameReceives s { s with core := ((s.core.expireTimers clock).submit enter).1 } :=
  { SameReceives.refl s with
    scheduler := ⟨[], by
      show (s.core.timers.popExpired clock).2.foldl _ s.core.scheduler = _
      rw [hs.timers, List.append_nil]
      rfl, by simp [NoReceiver]⟩ }

end SameReceives

/-- A transport arms its next receive. -/
def Arms (s t : EventLoop K T) : Prop :=
  ∃ env tr t₀, s.objs[tr]? = some t₀ ∧ t₀.closing = false ∧ t₀.recvPending = false ∧
    t = ((s.modify tr (.setRecvPending true)).submitNew env t₀.fd (some .recv)
      (fun fut => [.onRecvComplete tr fut]) .recv).1

/-- The step is no tick, runs no receive's callback, and is no handler that resolves the future of a
receive. -/
structure Plain (s : EventLoop K T) (a : Act K T) : Prop where
  ticks : ¬ s.Ticks a
  runs : ∀ tr fut, ¬ s.Runs a (.onRecvComplete tr fut)
  handles : ∀ q state, s.Handles a q → q.settles ≠ some (.recv, state)

theorem noReceiver_of_user {callbacks : List (Handle K)} (h : ∀ x ∈ callbacks, x.isUser = true) :
    NoReceiver callbacks := by
  intro x hx
  have huser := h x hx
  cases x <;> first | rfl | cases huser

/-- What waits for a receive is no callback of the program. -/
theorem ReceiversSound.noReceiver_of_any_user (hr : ReceiversSound s r B) {fut : FutId}
    {f : AsyncFuture K} (hf : s.futs[fut]? = some f) (hpending : f.state = .pending)
    (hany : f.callbacks.any Handle.isUser = true) : NoReceiver f.callbacks := by
  cases hown : r fut with
  | none => exact hr.others fut f hown hf
  | some tr =>
    obtain ⟨x, hx, hxuser⟩ := List.any_eq_true.mp hany
    rw [hr.callbacks fut tr f hown hf hpending] at hx
    rw [List.mem_singleton.mp hx] at hxuser
    cases hxuser

/-- A future that is settled by a handler for another kind is no receive's. -/
theorem SameReceives.ioSettled (hr : ReceiversSound s r B) {fd : Fd} {kind : IoKind} {fut : FutId}
    (state : FutState) (hfut : s.ioLookup fd kind = some fut) (hkind : kind ≠ .recv) :
    SameReceives s ((s.popIo fd kind).setFuture fut state) := by
  have hown : r fut = none := by
    cases hown : r fut with
    | none => rfl
    | some tr => exact absurd (hr.io fd kind fut tr hfut hown) hkind
  have hsettled : SameReceives (s.popIo fd kind) ((s.popIo fd kind).setFuture fut state) :=
    .setFuture state fun f hf _ => hr.others fut f hown hf
  exact { hsettled with
    io := fun fd' kind' fut' h => (hsettled.io fd' kind' fut' h).imp_left popIo_lookup }

section
variable [LE T] [DecidableLE T] {s₀ : EventLoop K T} {a : Act K T}

theorem Move.sameReceives (hk : s.EndsKept) (hr : ReceiversSound s r B) (hplain : s₀.Plain a)
    (h : Move s₀ a s t) : SameReceives s t ∨ s.Arms t := by
  have hs := hk.core
  cases h with
  | control stack hbatch hresults hruns => exact .inl { SameReceives.refl s with }
  | unwound hunwinds => exact .inl { SameReceives.refl s with }
  | lost hbatch ha =>
    exact .inl { SameReceives.refl s with log := ⟨[_], rfl, by simp⟩ }
  | forced exc hcause => exact .inl (.forceClose exc hcause)
  | closed hcause ht =>
    rename_i tr t₀ cause
    left
    exact { SameReceives.refl s with
      objs := (List.length_modify ..).ge
      opens := SameReceives.opens_modify fun t₀ _ hopen => by cases hopen
      log := ⟨[cause], rfl, by
        rintro e he tr' v rfl
        rw [← List.mem_singleton.mp he] at hcause
        cases hcause⟩ }
  | flagged tr hf hpaused hsize =>
    left
    apply SameReceives.modify
    intro t₀ _ hopen
    rw [hf.closing] at hopen
    rw [hf.recvPending]
    exact ⟨hopen, id⟩
  | received hruns hbatch => exact absurd hruns (hplain.runs _ _)
  | data hruns ht hopen => exact absurd hruns (hplain.runs _ _)
  | eof handler h => exact .inl { SameReceives.refl s with log := ⟨[_], rfl, by simp⟩ }
  | flow frame he haccounts =>
    refine .inl { SameReceives.refl s with log := ⟨[_], rfl, ?_⟩ }
    rcases he with rfl | rfl <;> simp
  | made fd creator =>
    left
    exact { SameReceives.refl s with
      objs := by simp [makeConnection, callProtocol]
      opens := SameReceives.opens_concat s.objs _
      log := ⟨[_], rfl, by simp⟩ }
  | constructed fd =>
    left
    exact { SameReceives.refl s with
      objs := by simp
      opens := SameReceives.opens_concat s.objs _ }
  | armed env ht hidle =>
    rename_i tr t₀
    simp only [Bool.or_eq_false_iff] at hidle
    exact .inr ⟨env, tr, t₀, ht, hidle.1.1, hidle.2, rfl⟩
  | disarmed tr exc => exact .inl (.disarmed tr exc (hk.ends tr).closing)
  | wrote env ha ht hopen hdata =>
    exact .inl (.submitNew hs env _ none _ (by simp [NoReceiver, Handle.receiver?]))
  | submitted env fd kind? callbacks req hreq hkind hcallbacks hsend =>
    exact .inl (.submitNew hs env fd kind? req (noReceiver_of_user (hcallbacks _)))
  | closeSubmitted env ht hsock =>
    rename_i t₀
    have hstep : UringCore.machine.step s.core (.request env.now env.enter t₀.fd .close) =
        some (s.core.request env.now env.enter t₀.fd .close).1 := rfl
    left
    exact { SameReceives.core_step hs rfl hstep with issued := List.prefix_append .. }
  | cancelled fut huser =>
    left
    obtain ⟨f', hf', hany⟩ := huser
    apply SameReceives.setFuture
    intro f hf hpending
    obtain rfl := Option.some_inj.mp (hf.symm.trans hf')
    exact hr.noReceiver_of_any_user hf hpending hany
  | ioSettled hr' hs₀ hsettles hfut =>
    rename_i q kind fut state
    left
    apply SameReceives.ioSettled hr state hfut
    rintro rfl
    exact hplain.handles q state hr' hsettles
  | ioPopped fd =>
    exact .inl { SameReceives.refl s with io := fun _ _ _ h => .inl (popIo_lookup h) }
  | closeHandled hr' hop =>
    rename_i q
    have hstep : UringCore.machine.step s.core (.unregisterFd q.fd) = some (s.core.unregisterFd q.fd) := rfl
    exact .inl { SameReceives.core_step hs rfl hstep with }
  | servers servers => exact .inl { SameReceives.refl s with }
  | registered fd socketType =>
    have hstep : UringCore.machine.step s.core (.registerFd fd socketType) =
      some (s.core.registerFd fd socketType) := rfl
    exact .inl (.core_step hs rfl hstep)
  | unregistered fd =>
    have hstep : UringCore.machine.step s.core (.unregisterFd fd) = some (s.core.unregisterFd fd) := rfl
    exact .inl (.core_step hs rfl hstep)
  | paused fd =>
    have hstep : UringCore.machine.step s.core (.pauseReading fd) = some (s.core.pauseReading fd).1 := rfl
    exact .inl (.core_step hs rfl hstep)
  | resumed fd =>
    have hstep : UringCore.machine.step s.core (.resumeReading fd) = some (s.core.resumeReading fd).1 := rfl
    exact .inl (.core_step hs rfl hstep)
  | pushed k =>
    exact .inl { SameReceives.refl s with
      scheduler := ⟨[.user k], rfl, by simp [NoReceiver, Handle.receiver?]⟩ }
  | consumed n => exact .inl { SameReceives.refl s with }
  | completed ha h =>
    rename_i i payload select more core
    have hstep : UringCore.machine.step s.core (.complete i payload select more) = some core := h
    exact .inl (.core_step hs rfl hstep)
  | flushed clock enter => exact .inl (.flush hs clock enter)
  | drained hticks hmidway hcq => exact absurd hticks hplain.ticks
  | batched hticks hbatch => exact absurd hticks hplain.ticks

end

/-! ## A transport arms its next receive -/

/-- What there is when the receive has been armed. -/
structure Armed (s t : EventLoop K T) (tr : TransportId) : Prop where
  futs : t.futs = s.futs ++ [⟨.pending, [.onRecvComplete tr s.futs.length]⟩]
  objs : t.objs = s.objs.modify tr (.setRecvPending true)
  scheduler : t.core.scheduler = s.core.scheduler
  log : t.log = s.log
  io : ∀ fd kind fut, t.ioLookup fd kind = some fut → s.ioLookup fd kind = some fut ∨ kind = .recv
  issued : s.issued <+: t.issued
  drained : t.drained = s.drained
  idle : ∃ t₀, s.objs[tr]? = some t₀ ∧ t₀.recvPending = false

theorem Arms.armed (hs : s.CoreSound) (h : s.Arms t) : ∃ tr, s.Open tr ∧ s.Armed t tr := by
  obtain ⟨env, tr, t₀, ht₀, hopen, hidle, rfl⟩ := h
  refine ⟨tr, ⟨t₀, ht₀, hopen⟩, ?_⟩
  have hio (fd : Fd) (kind : IoKind) (fut : FutId)
      (hfut : ((s.modify tr (.setRecvPending true)).submitNew env t₀.fd (some .recv)
        (fun fut => [.onRecvComplete tr fut]) .recv).1.ioLookup fd kind = some fut) :
      s.ioLookup fd kind = some fut ∨ kind = .recv :=
    (ioLookup_submitNew hfut).imp_right fun hnew => (Option.some_inj.mp hnew.1).symm
  rw [submitNew_eq] at hio ⊢
  exact ⟨rfl, rfl, scheduler_request hs env _ _, rfl, hio, List.prefix_append .., rfl, t₀, ht₀, hidle⟩

/-- The new future is that of the transport's receive. -/
theorem ReceiversSound.known_update (hr : ReceiversSound s r B) {tr : TransportId} {fut : FutId} {tr' : TransportId}
    (hown : Function.update r s.futs.length (some tr) fut = some tr') :
    fut < s.futs.length ∧ r fut = some tr' ∨ fut = s.futs.length ∧ tr' = tr := by
  by_cases hfut : fut = s.futs.length
  · subst hfut
    rw [Function.update_self, Option.some_inj] at hown
    exact .inr ⟨rfl, hown.symm⟩
  · rw [Function.update_of_ne hfut] at hown
    exact .inl ⟨(hr.known fut tr' hown).1, hown⟩

namespace Armed
variable {tr : TransportId}

theorem futs_lt (h : s.Armed t tr) {fut : FutId} (hlt : fut < s.futs.length) :
    t.futs[fut]? = s.futs[fut]? := by
  rw [h.futs, List.getElem?_append_left hlt]

theorem futs_new (h : s.Armed t tr) :
    t.futs[s.futs.length]? = some ⟨.pending, [.onRecvComplete tr s.futs.length]⟩ := by
  rw [h.futs, List.getElem?_concat_length]

theorem open_iff (h : s.Armed t tr) (tr' : TransportId) : t.Open tr' ↔ s.Open tr' := by
  rw [EventLoop.open_iff, EventLoop.open_iff, h.objs, List.getElem?_modify]
  cases s.objs[tr']? with
  | none => simp
  | some t₀ => by_cases htr : tr = tr' <;> simp [htr, Transport.setRecvPending]

theorem outstanding (h : s.Armed t tr) (hr : ReceiversSound s r B) {fut : FutId} {tr' : TransportId}
    (hout : t.Outstanding (Function.update r s.futs.length (some tr)) B tr' fut) :
    s.Outstanding r B tr' fut ∨ fut = s.futs.length ∧ tr' = tr := by
  rcases hout with ⟨hown, hwaits⟩ | hmem
  · rcases hr.known_update hown with ⟨hlt, hown⟩ | hnew
    · rw [Waits, h.futs_lt hlt] at hwaits
      exact .inl (.inl ⟨hown, hwaits⟩)
    · exact .inr hnew
  · rw [h.scheduler] at hmem
    exact .inl (.inr hmem)

theorem sound (h : s.Armed t tr) (hr : ReceiversSound s r B) (hi : s.IssuedSound) (hopen : s.Open tr) :
    ReceiversSound t (Function.update r s.futs.length (some tr)) B := by
  have hlength : t.futs.length = s.futs.length + 1 := by rw [h.futs, List.length_append]; rfl
  have hobjs : t.objs.length = s.objs.length := by rw [h.objs, List.length_modify]
  obtain ⟨t₀, ht₀, hidle⟩ := h.idle
  -- a transport that is not pending has no receive that is not over
  have hnone (fut : FutId) : ¬ s.Outstanding r B tr fut := by
    intro hout
    obtain ⟨t₁, ht₁, hopen₁⟩ := hopen
    have hpending := hr.pending tr t₁ ht₁ hopen₁ fut hout
    rw [ht₀] at ht₁
    cases ht₁
    rw [hidle] at hpending
    cases hpending
  constructor
  case known =>
    intro fut tr' hown
    rw [hlength, hobjs]
    rcases hr.known_update hown with ⟨hlt, hown⟩ | ⟨rfl, rfl⟩
    · exact ⟨Nat.lt_succ_of_lt hlt, (hr.known fut tr' hown).2⟩
    · exact ⟨Nat.lt_succ_self _, (List.getElem?_eq_some_iff.mp ht₀).1⟩
  case callbacks =>
    intro fut tr' f hown hf hpending
    rcases hr.known_update hown with ⟨hlt, hown⟩ | ⟨rfl, rfl⟩
    · rw [h.futs_lt hlt] at hf
      exact hr.callbacks fut tr' f hown hf hpending
    · rw [h.futs_new, Option.some_inj] at hf
      rw [← hf]
  case others =>
    intro fut f hown hf
    have hne : fut ≠ s.futs.length := by
      rintro rfl
      rw [Function.update_self] at hown
      cases hown
    rw [Function.update_of_ne hne] at hown
    have hlt := (List.getElem?_eq_some_iff.mp hf).1
    rw [hlength] at hlt
    rw [h.futs_lt (Nat.lt_of_le_of_ne (Nat.le_of_lt_succ hlt) hne)] at hf
    exact hr.others fut f hown hf
  case queued =>
    intro tr' fut hmem
    rw [h.scheduler] at hmem
    obtain ⟨hown, hdone⟩ := hr.queued tr' fut hmem
    have hlt := (hr.known fut tr' hown).1
    rw [Function.update_of_ne (Nat.ne_of_lt hlt), Waits, h.futs_lt hlt]
    exact ⟨hown, hdone⟩
  case nodup =>
    rw [h.scheduler]
    exact hr.nodup
  case single =>
    intro tr' htr' fut fut' hout hout'
    have htr' := (h.open_iff tr').mp htr'
    rcases h.outstanding hr hout with hold | ⟨rfl, rfl⟩
    · rcases h.outstanding hr hout' with hold' | ⟨rfl, rfl⟩
      · exact hr.single tr' htr' fut fut' hold hold'
      · exact absurd hold (hnone fut)
    · rcases h.outstanding hr hout' with hold' | ⟨rfl, -⟩
      · exact absurd hold' (hnone fut')
      · rfl
  case pending =>
    intro tr' t' ht' hopen' fut hout
    rw [h.objs, List.getElem?_modify] at ht'
    obtain ⟨t₁, ht₁, rfl⟩ := Option.map_eq_some_iff.mp ht'
    by_cases htr : tr = tr'
    · simp [htr, Transport.setRecvPending]
    · simp only [htr, if_false] at hopen' ⊢
      rcases h.outstanding hr hout with hout | ⟨-, rfl⟩
      · exact hr.pending tr' t₁ ht₁ hopen' fut hout
      · exact absurd rfl htr
  case io =>
    intro fd kind fut tr' hfut hown
    rcases h.io fd kind fut hfut with hold | hkind
    · rcases hr.known_update hown with ⟨-, hown⟩ | ⟨rfl, -⟩
      · exact hr.io fd kind fut tr' hold hown
      · exact absurd (hi.ioFutures fd kind _ hold).1 (Nat.lt_irrefl _)
    · exact hkind
  case logged =>
    intro tr' v hmem
    rw [h.log] at hmem
    rw [hobjs]
    exact hr.logged tr' v hmem

theorem balanced (h : s.Armed t tr) (hb : Balanced s r B W) (hr : ReceiversSound s r B)
    (hi : s.IssuedSound) : Balanced t (Function.update r s.futs.length (some tr)) B W := by
  apply hb.mono hr hi
  · intro fut hlt
    exact Function.update_of_ne (Nat.ne_of_lt hlt) _ _
  · exact fun tr' hopen => .inr ((h.open_iff tr').mp hopen)
  · intro fut tr' hown _
    rw [futState, futState, h.futs_lt (hr.known fut tr' hown).1]
  · exact ⟨[], by rw [h.scheduler, List.append_nil], by simp⟩
  · exact ⟨[], by rw [h.log, List.append_nil], by simp⟩
  · exact h.issued
  · exact h.drained

end Armed

/-! ## Steps that only arm receives -/

namespace Receivers

theorem upd_of_length {u : EventLoop K T} {a : Act K T} (hr : ReceiversSound u r B)
    (hlength : u.futs.length = s.futs.length) : upd s a u r = r := by
  funext fut
  unfold upd
  split
  · rfl
  · rename_i hge
    have hge := Nat.not_lt.mp hge
    have hnone : r fut = none := by
      cases hown : r fut with
      | none => rfl
      | some tr => exact absurd (hr.known fut tr hown).1 (Nat.not_lt.mpr (hlength ▸ hge))
    rw [hnone, receiver?, List.getElem?_eq_none (hlength ▸ hge)]

theorem upd_of_same {u v : EventLoop K T} {a : Act K T} (h : SameReceives u v) :
    upd s a v r = upd s a u r := by
  funext fut
  unfold upd
  split
  · rfl
  · rcases h.futs fut with heq | ⟨hbefore, f, hf, hafter⟩
    · rw [receiver?, heq, receiver?]
    · rw [receiver?_of_noReceiver hf hafter]
      cases hf : u.futs[fut]? with
      | none => rw [receiver?, hf]
      | some f => rw [receiver?_of_noReceiver hf (hbefore f hf).2]

theorem upd_of_armed {u v : EventLoop K T} {a : Act K T} {tr : TransportId} (h : u.Armed v tr)
    (hle : s.futs.length ≤ u.futs.length) :
    upd s a v r = Function.update (upd s a u r) u.futs.length (some tr) := by
  funext fut
  by_cases hnew : fut = u.futs.length
  · subst hnew
    rw [Function.update_self, upd, if_neg (Nat.not_lt.mpr hle), receiver?, h.futs_new]
  · rw [Function.update_of_ne hnew]
    have hfut : v.futs[fut]? = u.futs[fut]? := by
      rcases Nat.lt_or_gt_of_ne hnew with hlt | hgt
      · exact h.futs_lt hlt
      · rw [h.futs, List.getElem?_eq_none (by simp; exact hgt), List.getElem?_eq_none (Nat.le_of_lt hgt)]
    rw [upd, upd, receiver?, hfut, receiver?]

end Receivers

section
variable [LE T] [DecidableLE T] {s₀ : EventLoop K T} {a : Act K T}

theorem Move.drained_eq (hs : s.CoreSound) (hticks : ¬ s₀.Ticks a) (h : Move s₀ a s t) :
    t.drained = s.drained := by
  cases h.issue hs with
  | calm hcalm => exact hcalm.drained
  | completed ha hcomplete ht => rw [ht]
  | new env fd kind? callbacks req objs hfuture hkind hsend ht => rw [ht, submitNew_eq]
  | close env fd ht =>
    rw [ht]
    rfl
  | drained hticks' => exact absurd hticks' hticks

/-- What a stretch of such a step begins with, it ends with. -/
theorem Plain.moves (hplain : s.Plain a) (hmoves : Moves s a t t') (hk : t.EndsKept)
    (hi : t.IssuedSound) (hlength : t.futs.length = s.futs.length) (hr : ReceiversSound t r B)
    (hb : Balanced t r B W) : ReceiversSound t' (Receivers.upd s a t' r) B ∧
      Balanced t' (Receivers.upd s a t' r) B W := by
  have hstart : Receivers.upd s a t r = r := Receivers.upd_of_length hr hlength
  have hend := hmoves.rule (I := fun u => u.EndsKept ∧ u.IssuedSound ∧ s.futs.length ≤ u.futs.length ∧
    ReceiversSound u (Receivers.upd s a u r) B ∧ Balanced u (Receivers.upd s a u r) B W) ?_ ?_
  · exact hend.2.2.2
  · rintro u v ⟨hk, hi, hle, hr, hb⟩ hmove
    refine ⟨hk.move hmove, hi.move hk.core hmove, ?_⟩
    rcases hmove.sameReceives hk hr hplain with hsame | harms
    · rw [Receivers.upd_of_same hsame]
      exact ⟨Nat.le_trans hle hsame.futs_le, hr.of_same hsame,
        hb.of_same hr hi hsame (hmove.drained_eq hk.core hplain.ticks)⟩
    · obtain ⟨tr, hopen, harmed⟩ := harms.armed hk.core
      rw [Receivers.upd_of_armed harmed hle]
      have hle' : u.futs.length ≤ v.futs.length := by simp [harmed.futs]
      exact ⟨Nat.le_trans hle hle', harmed.sound hr hi hopen, harmed.balanced hb hr hi⟩
  · rw [hstart]
    exact ⟨hk, hi, hlength.ge, hr, hb⟩

end

end

end EventLoop

end Uringcore
