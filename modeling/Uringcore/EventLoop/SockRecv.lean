import Uringcore.EventLoop.Woken

/-!
# A stream that is read with `sock_recv`

A coroutine awaits one `sock_recv(sock, nbytes)` after another. How much it asks for goes no further
than the Python function: the receive is submitted with a whole buffer. And it goes on in the tick that
has resolved its future, before `_handle_recv_completion` is called for the same completion, which then
finds the future of the next call.

`SockRecvs` keeps the futures of the calls on one socket, in order. `ReadsStream` is the promise,
`KeepsStream` says which steps keep it: no call is resolved but for its own completion, and that has no
more than was asked for.
-/

namespace Uringcore

def OpType.receives : OpType → Bool
  | recv | recvMulti | recvMsg => true
  | _ => false

namespace Cqe

/-- The completion is that of a receive on `fd`, with data. -/
def Brings (fd : Fd) (c : Cqe) : Prop :=
  c.sqe.fd = fd ∧ c.sqe.op.opType.receives ∧ 0 < c.payload.result

instance (fd : Fd) (c : Cqe) : Decidable (c.Brings fd) := inferInstanceAs (Decidable (_ ∧ _ ∧ _))

/-- What the completion has for the stream of `fd`. -/
def arrived (fd : Fd) (c : Cqe) : Bytes := if c.Brings fd then c.payload.bytes else []

end Cqe

/-- The bytes that awaiting such a future gives. -/
def FutState.bytes : FutState → Bytes
  | result (.data (.bytes b)) => b
  | _ => []

def Call.sockRecv? {K : Type} : Call K → Option Fd
  | sockRecv fd _ => some fd
  | _ => none

def Call.cancels? {K : Type} : Call K → Option FutId
  | cancel fut => some fut
  | _ => none

namespace EventLoop
variable {K T : Type}

/-- The futures of the `sock_recv` calls on a socket, in order. -/
abbrev SockRecvs := List FutId

def SockRecvs.upd (fd : Fd) (s : EventLoop K T) (a : Act K T) (_ : EventLoop K T) (calls : SockRecvs) :
    SockRecvs :=
  match a with
  | .call (.sockRecv fd' k) env =>
      if fd' = fd ∧ (s.sockRecv env k fd').2.isOk then calls ++ [s.futs.length] else calls
  | _ => calls

section
variable (s : EventLoop K T)

/-- What the call has returned. -/
def returned (fut : FutId) : Bytes := (s.futState fut).elim [] FutState.bytes

/-- What all the calls have returned. -/
def read (calls : SockRecvs) : Bytes := calls.flatMap s.returned

/-- What has arrived on `fd` and gone through a tick. -/
def processed (fd : Fd) : Bytes := s.drained.flatMap (Cqe.arrived fd)

/-- All that has arrived on `fd`. -/
def arrived (fd : Fd) : Bytes := (s.drained ++ s.core.ring.cq).flatMap (Cqe.arrived fd)

end

/-- What the calls return is the stream: the `i`-th one at most `nbytes i` of it, and all that came with
a completion as soon as its handler is through. -/
structure ReadsStream (fd : Fd) (nbytes : Nat → Nat) (x : EventLoop K T × SockRecvs) : Prop where
  sized : ∀ (i : Nat) fut v, x.2[i]? = some fut → x.1.futState fut = some (.result v) →
    ∃ b, v = .data (.bytes b) ∧ b.length ≤ nbytes i
  ordered : x.1.read x.2 <+: x.1.arrived fd
  all : x.1.results = [] → x.1.read x.2 = x.1.processed fd

/-- The calls are awaited one after another. -/
def AwaitsInTurn (fd : Fd) (x : EventLoop K T × SockRecvs) : Act K T → Prop
  | .call c _ => c.sockRecv? = some fd → ∀ fut ∈ x.2.getLast?, ¬ x.1.Waits fut
  | _ => True

/-- The completion has data for a call that waits for it. -/
def OwesBytes (x : EventLoop K T × SockRecvs) (c : Cqe) : Prop :=
  0 < c.payload.result ∧ ∃ fut ∈ x.1.recvFuture? c.sqe.seq, fut ∈ x.2 ∧ x.1.Waits fut

/-- A completion that a tick from `x` comes to after `pre` takes the future of no waiting call but its
own. One with data is that of the last call, which waits for it and has asked for as much. -/
structure TakesBytes (fd : Fd) (nbytes : Nat → Nat) (x : EventLoop K T × SockRecvs) (pre : List Cqe)
    (c : Cqe) : Prop where
  others : ∀ fut ∈ x.1.takes pre c.sqe.fd, fut ∈ x.2 → x.1.Waits fut →
    x.1.recvFuture? c.sqe.seq = some fut
  own : c.Brings fd → ∃ fut ∈ x.2.getLast?, x.1.recvFuture? c.sqe.seq = some fut ∧ x.1.Waits fut ∧
    c.payload.bytes.length ≤ nbytes (x.2.length - 1) ∧
    (x.1.takes pre c.sqe.fd = some fut → x.1.Holds pre c)

/-- The handler of `c`, whose result tuple is `r`, finds the future of no waiting call but its own, and
that with the data. -/
structure ResolvesBytes (x : EventLoop K T × SockRecvs) (r : ResultTuple) (c : Cqe) : Prop where
  others : ∀ q ∈ r.settles, ∀ fut ∈ x.1.ioLookup r.fd q.1, fut ∈ x.2 → x.1.Waits fut →
    x.1.recvFuture? c.sqe.seq = some fut
  own : ∀ fut ∈ x.1.recvFuture? c.sqe.seq, 0 < c.payload.result → fut ∈ x.2 → x.1.Waits fut →
    x.1.ioLookup r.fd .recv = some fut ∧ c.payload = .data c.payload.bytes ∧
      r.data = some (.bytes c.payload.bytes)

/-- The ticks and the handlers resolve the calls for their own completions. No call is cancelled, and no
exception leaves `_process_completions` or unwinds `run_tick`, while data waits for its handler. -/
def KeepsStream (fd : Fd) (nbytes : Nat → Nat) (x : EventLoop K T × SockRecvs) : Act K T → Prop
  | .startTick _ enter =>
      x.1.core.Flushes enter → InTurn (TakesBytes fd nbytes x) [] x.1.core.ring.cq
  | .handleCompletion => ∀ r ∈ x.1.results.head?, ∀ c ∈ x.1.handled?, ResolvesBytes x r c
  | .ret r _ => ∀ frame ∈ x.1.stack.head?, frame.aborts r → ∀ c ∈ x.1.waiting, ¬ OwesBytes x c
  | .rearmAccept env => x.1.core.HasRoom ∧ env.enter.isOk ∨ ∀ c ∈ x.1.waiting, ¬ OwesBytes x c
  | .call call _ => ∀ fut ∈ call.cancels?, ∀ c ∈ x.1.waiting, OwesBytes x c →
      x.1.recvFuture? c.sqe.seq ≠ some fut
  | .consume _ | .complete .. | .callSoon _ | .runHandle => True

instance (fd : Fd) (x : EventLoop K T × SockRecvs) : ∀ a : Act K T, Decidable (AwaitsInTurn fd x a)
  | .call c _ =>
      have : Decidable (∀ fut ∈ x.2.getLast?, ¬ x.1.Waits fut) := Option.decidableForallMem _
      inferInstanceAs (Decidable (c.sockRecv? = some fd → _))
  | .consume _ | .complete .. | .callSoon _ | .startTick .. | .runHandle | .handleCompletion | .ret ..
  | .rearmAccept _ => .isTrue trivial

instance (x : EventLoop K T × SockRecvs) (c : Cqe) : Decidable (OwesBytes x c) :=
  inferInstanceAs (Decidable (_ ∧ ∃ fut ∈ x.1.recvFuture? c.sqe.seq, _))

instance (fd : Fd) (nbytes : Nat → Nat) (x : EventLoop K T × SockRecvs) (pre : List Cqe) (c : Cqe) :
    Decidable (TakesBytes fd nbytes x pre c) :=
  have : Decidable (∀ fut ∈ x.1.takes pre c.sqe.fd, fut ∈ x.2 → x.1.Waits fut →
      x.1.recvFuture? c.sqe.seq = some fut) := Option.decidableForallMem _
  have : Decidable (∃ fut ∈ x.2.getLast?, x.1.recvFuture? c.sqe.seq = some fut ∧ x.1.Waits fut ∧
      c.payload.bytes.length ≤ nbytes (x.2.length - 1) ∧
      (x.1.takes pre c.sqe.fd = some fut → x.1.Holds pre c)) := Option.decidableExistsMem _
  decidable_of_iff (_ ∧ (c.Brings fd → _)) ⟨fun h => ⟨h.1, h.2⟩, fun h => ⟨h.others, h.own⟩⟩

instance (x : EventLoop K T × SockRecvs) (r : ResultTuple) (c : Cqe) :
    Decidable (ResolvesBytes x r c) :=
  have (q : IoKind × FutState) : Decidable (∀ fut ∈ x.1.ioLookup r.fd q.1, fut ∈ x.2 →
      x.1.Waits fut → x.1.recvFuture? c.sqe.seq = some fut) := Option.decidableForallMem _
  have : Decidable (∀ q ∈ r.settles, ∀ fut ∈ x.1.ioLookup r.fd q.1, fut ∈ x.2 → x.1.Waits fut →
      x.1.recvFuture? c.sqe.seq = some fut) := Option.decidableForallMem _
  have : Decidable (∀ fut ∈ x.1.recvFuture? c.sqe.seq, 0 < c.payload.result → fut ∈ x.2 →
      x.1.Waits fut → x.1.ioLookup r.fd .recv = some fut ∧ c.payload = .data c.payload.bytes ∧
        r.data = some (.bytes c.payload.bytes)) := Option.decidableForallMem _
  decidable_of_iff (_ ∧ _) ⟨fun h => ⟨h.1, h.2⟩, fun h => ⟨h.others, h.own⟩⟩

instance (fd : Fd) (nbytes : Nat → Nat) (x : EventLoop K T × SockRecvs) :
    ∀ a : Act K T, Decidable (KeepsStream fd nbytes x a)
  | .startTick .. => inferInstanceAs (Decidable (_ → _))
  | .handleCompletion =>
      have (r : ResultTuple) : Decidable (∀ c ∈ x.1.handled?, ResolvesBytes x r c) :=
        Option.decidableForallMem _
      inferInstanceAs (Decidable (∀ r ∈ x.1.results.head?, ∀ c ∈ x.1.handled?, ResolvesBytes x r c))
  | .ret r _ =>
      have (frame : Frame) : Decidable (frame.aborts r → ∀ c ∈ x.1.waiting, ¬ OwesBytes x c) :=
        have : Decidable (∀ c ∈ x.1.waiting, ¬ OwesBytes x c) := List.decidableBAll _ _
        inferInstanceAs (Decidable (_ → _))
      Option.decidableForallMem x.1.stack.head?
  | .rearmAccept _ =>
      have : Decidable (∀ c ∈ x.1.waiting, ¬ OwesBytes x c) := List.decidableBAll _ _
      inferInstanceAs (Decidable (_ ∧ _ = true ∨ _))
  | .call call _ =>
      have (fut : FutId) : Decidable (∀ c ∈ x.1.waiting, OwesBytes x c →
          x.1.recvFuture? c.sqe.seq ≠ some fut) := List.decidableBAll _ _
      Option.decidableForallMem call.cancels?
  | .consume _ | .complete .. | .callSoon _ | .runHandle => .isTrue trivial

/-! ## What was read -/

section
variable {s t s₀ : EventLoop K T} {fd : Fd} {nbytes : Nat → Nat} {calls : SockRecvs} {W W' : List Cqe}

theorem returned_waits {fut : FutId} (h : s.Waits fut) : s.returned fut = [] := by
  have hstate : s.futState fut = some .pending := h
  rw [returned, hstate]
  rfl

theorem read_congr (h : ∀ fut ∈ calls, t.returned fut = s.returned fut) : t.read calls = s.read calls :=
  List.flatMap_congr h

/-- The last call returns. -/
theorem read_last {fut : FutId} (hlast : calls.getLast? = some fut) (hnodup : calls.Nodup)
    (hothers : ∀ fut' ∈ calls, fut' ≠ fut → t.returned fut' = s.returned fut') (hwaits : s.Waits fut) :
    t.read calls = s.read calls ++ t.returned fut := by
  obtain ⟨before, rfl⟩ := List.getLast?_eq_some_iff.mp hlast
  have hbefore : before.flatMap t.returned = before.flatMap s.returned := by
    apply List.flatMap_congr
    intro fut' hmem
    refine hothers fut' (List.mem_append_left _ hmem) ?_
    rintro rfl
    exact (List.nodup_append.mp hnodup).2.2 fut' hmem fut' List.mem_cons_self rfl
  rw [read, read, List.flatMap_append, List.flatMap_append, hbefore, List.flatMap_singleton,
    List.flatMap_singleton, returned_waits hwaits, List.append_nil]

theorem arrived_of_not {c : Cqe} (h : ¬ c.Brings fd) : c.arrived fd = [] := if_neg h

/-- What the calls have to do with one another: only the last one may be waiting. -/
structure CallsSound (s : EventLoop K T) (fd : Fd) (calls : SockRecvs) : Prop where
  known : ∀ fut ∈ calls, fut < s.futs.length
  nodup : calls.Nodup
  single : ∀ fut ∈ calls, s.Waits fut → calls.getLast? = some fut
  socket : ∀ fut ∈ calls, ∀ x ∈ s.issued, x.2.future? = some fut → x.1 = fd

/-- What was returned, and what is owed by the completions of `W`, is what was processed. -/
structure ReadTo (s : EventLoop K T) (fd : Fd) (nbytes : Nat → Nat) (calls : SockRecvs)
    (W : List Cqe) : Prop where
  sized : ∀ (i : Nat) fut v, calls[i]? = some fut → s.futState fut = some (.result v) →
    ∃ b, v = .data (.bytes b) ∧ b.length ≤ nbytes i
  even : (∀ c ∈ W, ¬ OwesBytes (s, calls) c) → s.read calls = s.processed fd
  owed : ∀ c ∈ W, OwesBytes (s, calls) c → s.read calls ++ c.payload.bytes = s.processed fd ∧
    c.payload.bytes.length ≤ nbytes (calls.length - 1)

namespace ReadTo

theorem ordered (h : ReadTo s fd nbytes calls W) : s.read calls <+: s.processed fd := by
  by_cases howes : ∃ c ∈ W, OwesBytes (s, calls) c
  · obtain ⟨c, hc, howes⟩ := howes
    exact ⟨_, (h.owed c hc howes).1⟩
  · have heven := h.even fun c hc hown => howes ⟨c, hc, hown⟩
    exact heven ▸ List.prefix_rfl

/-- The waiting call is resolved. -/
theorem settled (h : ReadTo s fd nbytes calls W) (hnodup : calls.Nodup)
    (hsingle : ∀ fut' ∈ calls, s.Waits fut' → calls.getLast? = some fut') {fut : FutId}
    (hmem : fut ∈ calls) (hwaits : s.Waits fut) {state : FutState} (hstate : t.futState fut = some state)
    (hdone : state ≠ .pending)
    (hothers : ∀ fut' ∈ calls, fut' ≠ fut → t.futState fut' = s.futState fut')
    (hsized : ∀ v, state = .result v → ∃ b, v = .data (.bytes b) ∧ b.length ≤ nbytes (calls.length - 1))
    (hread : s.read calls ++ state.bytes = t.processed fd) : ReadTo t fd nbytes calls W' := by
  have hlast := hsingle fut hmem hwaits
  -- no call waits any longer
  have hnone (c : Cqe) : ¬ OwesBytes (t, calls) c := by
    rintro ⟨-, fut', -, hmem', hwaits'⟩
    by_cases heq : fut' = fut
    · subst heq
      exact hdone (Option.some_inj.mp (hstate.symm.trans hwaits'))
    · have hwaits' : s.Waits fut' := (hothers fut' hmem' heq).symm.trans hwaits'
      exact heq (Option.some_inj.mp ((hsingle fut' hmem' hwaits').symm.trans hlast))
  refine ⟨fun i fut' v hi hv => ?_, fun _ => ?_, fun c _ howes => absurd howes (hnone c)⟩
  · by_cases heq : fut' = fut
    · -- the last place is its own
      subst heq
      obtain ⟨b, hb, hle⟩ := hsized v (Option.some_inj.mp (hstate.symm.trans hv))
      have hindex : i = calls.length - 1 := by
        have hlt := (List.getElem?_eq_some_iff.mp hi).1
        rw [List.getLast?_eq_getElem?] at hlast
        exact (List.getElem?_inj hlt hnodup).mp (hi.trans hlast.symm)
      exact ⟨b, hb, hindex ▸ hle⟩
    · rw [hothers fut' (List.mem_of_getElem? hi) heq] at hv
      exact h.sized i fut' v hi hv
  · rw [← hread, read_last hlast hnodup _ hwaits]
    · rw [returned, hstate]
      rfl
    · intro fut' hmem' hne
      rw [returned, returned, hothers fut' hmem' hne]

/-- A step that resolves no call and loses nothing that is owed. -/
theorem kept (h : ReadTo s fd nbytes calls W)
    (hreturned : ∀ fut ∈ calls, t.returned fut = s.returned fut)
    (hresults : ∀ fut ∈ calls, ∀ v, t.futState fut = some (.result v) → s.futState fut = some (.result v))
    (hprocessed : t.processed fd = s.processed fd)
    (heven : (∀ c ∈ W', ¬ OwesBytes (t, calls) c) → ∀ c ∈ W, ¬ OwesBytes (s, calls) c)
    (howed : ∀ c ∈ W', OwesBytes (t, calls) c → c ∈ W ∧ OwesBytes (s, calls) c) :
    ReadTo t fd nbytes calls W' := by
  have hread := read_congr hreturned
  refine ⟨fun i fut v hi hv => ?_, fun hnone => ?_, fun c hc howes => ?_⟩
  · exact h.sized i fut v hi (hresults fut (List.mem_of_getElem? hi) v hv)
  · rw [hread, hprocessed]
    exact h.even (heven hnone)
  · obtain ⟨hmem, hold⟩ := howed c hc howes
    rw [hread, hprocessed]
    exact h.owed c hmem hold

/-- A call begins when the one before it is over. -/
theorem call (h : ReadTo s fd nbytes calls W) (hover : ∀ fut ∈ calls, ¬ s.Waits fut) {fut : FutId}
    (hwaits : s.Waits fut) (hnew : ∀ c ∈ W, s.recvFuture? c.sqe.seq ≠ some fut) :
    ReadTo s fd nbytes (calls ++ [fut]) W := by
  have hread : s.read (calls ++ [fut]) = s.read calls := by
    rw [read, List.flatMap_append, List.flatMap_singleton, returned_waits hwaits, List.append_nil, read]
  have hnone (c : Cqe) : ¬ OwesBytes (s, calls) c := by
    rintro ⟨-, fut', -, hmem, hwaits'⟩
    exact hover fut' hmem hwaits'
  refine ⟨fun i fut' v hi hv => ?_, fun _ => ?_, fun c hc howes => ?_⟩
  · -- the new call has not returned
    obtain hi | ⟨-, rfl⟩ := History.concat_eq_some.mp hi
    · exact h.sized i fut' v hi hv
    · cases hwaits.symm.trans hv
  · rw [hread]
    exact h.even fun c _ => hnone c
  · obtain ⟨hpos, fut', hown, hmem, hwaits'⟩ := howes
    rcases List.mem_append.mp hmem with hmem | hmem
    · exact absurd hwaits' (hover fut' hmem)
    · rw [List.mem_singleton.mp hmem] at hown
      exact absurd hown (hnew c hc)

end ReadTo

/-! ## A tick -/

/-- A completion of a call is one of a receive on its socket. -/
theorem CallsSound.brings (h : CallsSound s fd calls) {c : Cqe} (hnames : s.Names c.sqe) {fut : FutId}
    (hmem : fut ∈ calls) (hown : s.recvFuture? c.sqe.seq = some fut) (hpos : 0 < c.payload.result) :
    c.Brings fd := by
  have hop := hnames.opType_recv hown
  obtain ⟨fd', hissued⟩ := recvFuture?_eq_some.mp hown
  obtain ⟨req, hreq, -⟩ := hnames
  have hfd := h.socket fut hmem _ (List.mem_of_getElem? hissued) rfl
  rw [hissued] at hreq
  cases hreq
  refine ⟨hfd, ?_, hpos⟩
  rw [hop]
  rfl

/-- A receive without data gives an error or no bytes. -/
theorem outcome_recv_nodata (core : UringCore FutId (Handle K) T) {c : Cqe}
    (hop : c.sqe.op.opType = .recv) (hle : ¬ 0 < c.payload.result) {state : FutState}
    (hstate : (core.process c.entry).2.1.outcome.futState = state) :
    state.bytes = [] ∧ ∀ v, state = .result v → v = .data (.bytes []) := by
  have hop : c.entry.opType = .recv := by rw [Cqe.entry_opType, hop]
  have hnot : ¬ 0 < c.entry.result := hle
  have hitem : (core.process c.entry).2.1 = ⟨c.entry.fd, c.entry.result, .recv, none⟩ := by
    show (core.extract c.entry).2 = _
    cases hbuf : core.inflightRecvBuffers.lookup c.entry.fd with
    | some b => rw [UringCore.extract_recv hop hbuf, if_neg hnot]
    | none => simp only [UringCore.extract, hop, UringCore.extractRecv, hbuf]
  rw [hitem, CompletionItem.outcome] at hstate
  split at hstate
  · subst hstate
    exact ⟨rfl, by rintro v ⟨⟩⟩
  · subst hstate
    exact ⟨rfl, by rintro v ⟨⟩; rfl⟩

/-- What is left after `pre` of a tick from `s₀`. -/
structure StreamedTo (s₀ : EventLoop K T) (fd : Fd) (nbytes : Nat → Nat) (calls : SockRecvs)
    (pre : List Cqe) (s : EventLoop K T) : Prop where
  read : ReadTo s fd nbytes calls pre
  /-- The calls without a completion still wait. -/
  waits : ∀ fut ∈ calls, s₀.Waits fut → (∀ c ∈ pre, s₀.recvFuture? c.sqe.seq ≠ some fut) → s.Waits fut

theorem processed_drainOne (c : Cqe) (cs : List Cqe) (s : EventLoop K T) (fd : Fd) :
    (s.drainOne c cs).processed fd = s.processed fd ++ c.arrived fd := by
  have hdrained : (s.drainOne c cs).drained = s.drained ++ [c] := by rw [drainOne_eq]
  rw [processed, hdrained, List.flatMap_append, List.flatMap_singleton, processed]

section
variable {pre cs : List Cqe} {c : Cqe}

/-- A receive completes once in a tick. -/
theorem Midway.not_before (hmidway : s₀.Midway pre s) (hs₀ : s₀.CoreSound) (hi₀ : s₀.IssuedSound)
    (hcq : s.core.ring.cq = c :: cs) {fut : FutId} (hown : s₀.recvFuture? c.sqe.seq = some fut) :
    ∀ c' ∈ pre, s₀.recvFuture? c'.sqe.seq ≠ some fut := by
  intro c' hc' hown'
  have hbefore : s₀.Names c'.sqe := hi₀.names_cq (by rw [hmidway.cq]; exact List.mem_append_left _ hc')
  have hself : s₀.Names c.sqe := hi₀.names_cq (hmidway.mem_cq hcq)
  exact hmidway.apart hs₀ hcq c' hc' (hbefore.isRecv hown') (hself.isRecv hown)
    (hi₀.recvFuture_inj hown' hown)

/-- So the completions before owe the call nothing. -/
theorem CallsSound.none_owed (hcalls : CallsSound s₀ fd calls) (hmidway : s₀.Midway pre s)
    (hs₀ : s₀.CoreSound) (hi₀ : s₀.IssuedSound) (hcq : s.core.ring.cq = c :: cs) {fut : FutId}
    (hown : s₀.recvFuture? c.sqe.seq = some fut) (hlast : calls.getLast? = some fut) :
    ∀ c' ∈ pre, ¬ OwesBytes (s, calls) c' := by
  rintro c' hc' ⟨-, fut', hown', hmem', hwaits'⟩
  have hlast' := hcalls.single fut' hmem' (hmidway.waits fut' hwaits')
  obtain rfl := Option.some_inj.mp (hlast'.symm.trans hlast)
  exact hmidway.not_before hs₀ hi₀ hcq hown c' hc' ((hmidway.recvFuture _).trans hown')

/-- The tick resolves a call: the last one, for its own completion. -/
theorem StreamedTo.resolved (hs₀ : s₀.CoreSound) (hi₀ : s₀.IssuedSound) (hcalls : CallsSound s₀ fd calls)
    (hmidway : s₀.Midway pre s) (hcq : s.core.ring.cq = c :: cs)
    (htakes : TakesBytes fd nbytes (s₀, calls) pre c) (h : StreamedTo s₀ fd nbytes calls pre s) {fut : FutId}
    (hmem : fut ∈ calls) (htaken : s.core.futures.lookup c.sqe.fd = some fut) (hwaits : s.Waits fut) :
    ReadTo (s.drainOne c cs) fd nbytes calls (pre ++ [c]) := by
  have hsingle (fut : FutId) (hmem : fut ∈ calls) (hwaits : s.Waits fut) : calls.getLast? = some fut :=
    hcalls.single fut hmem (hmidway.waits fut hwaits)
  have hself : s₀.Names c.sqe := hi₀.names_cq (hmidway.mem_cq hcq)
  have htaken₀ : s₀.takes pre c.sqe.fd = some fut := (hmidway.futures _).symm.trans htaken
  have hown := htakes.others fut htaken₀ hmem (hmidway.waits fut hwaits)
  have hlast := hsingle fut hmem hwaits
  have hop := hself.opType_recv hown
  have hstate (fut : FutId) := drainOne_futState c cs s fut
  have hresolved := hstate fut
  rw [if_pos ⟨htaken, hwaits⟩] at hresolved
  have hdata : (s.core.process c.entry).2.1.outcome.futState.bytes = c.arrived fd ∧
      ∀ v, (s.core.process c.entry).2.1.outcome.futState = .result v →
        ∃ b, v = .data (.bytes b) ∧ b.length ≤ nbytes (calls.length - 1) := by
    by_cases hpos : 0 < c.payload.result
    · have hbrings := hcalls.brings hself hmem hown hpos
      obtain ⟨fut', hlast', -, -, hle, hholds⟩ := htakes.own hbrings
      obtain rfl := Option.some_inj.mp (hlast.symm.trans hlast')
      rw [hmidway.outcome_recv hop (hholds htaken₀) hpos, Cqe.arrived, if_pos hbrings]
      exact ⟨rfl, by rintro v ⟨⟩; exact ⟨_, rfl, hle⟩⟩
    · obtain ⟨hbytes, hresult⟩ := outcome_recv_nodata s.core hop hpos rfl
      rw [arrived_of_not fun hbrings => hpos hbrings.2.2]
      exact ⟨hbytes, fun v hv => ⟨[], hresult v hv, Nat.zero_le _⟩⟩
  apply h.read.settled hcalls.nodup hsingle hmem hwaits hresolved (outcome_ne_pending _) _ hdata.2
  · have hnone := hcalls.none_owed hmidway hs₀ hi₀ hcq hown hlast
    rw [h.read.even hnone, hdata.1, processed_drainOne]
  · intro fut' hmem' hne
    rw [hstate, if_neg]
    rintro ⟨htaken', -⟩
    exact hne (Option.some_inj.mp (htaken'.symm.trans htaken))

/-- The tick resolves no call: what the completion brings waits for its handler. -/
theorem StreamedTo.unresolved (hs₀ : s₀.CoreSound) (hi₀ : s₀.IssuedSound)
    (hcalls : CallsSound s₀ fd calls) (hmidway : s₀.Midway pre s) (hcq : s.core.ring.cq = c :: cs)
    (htakes : TakesBytes fd nbytes (s₀, calls) pre c) (h : StreamedTo s₀ fd nbytes calls pre s)
    (hkept : ∀ fut ∈ calls, (s.drainOne c cs).futState fut = s.futState fut) :
    ReadTo (s.drainOne c cs) fd nbytes calls (pre ++ [c]) := by
  have hself : s₀.Names c.sqe := hi₀.names_cq (hmidway.mem_cq hcq)
  have hissued : (s.drainOne c cs).issued = s.issued := by rw [drainOne_eq]
  have hnext (n : Nat) : (s.drainOne c cs).recvFuture? n = s.recvFuture? n := by
    rw [recvFuture?, hissued, recvFuture?]
  have hreturned (fut : FutId) (hmem : fut ∈ calls) :
      (s.drainOne c cs).returned fut = s.returned fut := by
    rw [returned, hkept fut hmem, returned]
  have howes (c' : Cqe) : OwesBytes (s.drainOne c cs, calls) c' ↔ OwesBytes (s, calls) c' := by
    constructor
    · rintro ⟨hpos, fut, hown, hmem, hwaits⟩
      exact ⟨hpos, fut, (hnext _).symm.trans hown, hmem, (hkept fut hmem).symm.trans hwaits⟩
    · rintro ⟨hpos, fut, hown, hmem, hwaits⟩
      exact ⟨hpos, fut, (hnext _).trans hown, hmem, (hkept fut hmem).trans hwaits⟩
  by_cases hbrings : c.Brings fd
  · obtain ⟨fut, hlast, hown, hwaits, hle, -⟩ := htakes.own hbrings
    have hmem := List.mem_of_getLast? hlast
    have hnone := hcalls.none_owed hmidway hs₀ hi₀ hcq hown hlast
    have hwaits := h.waits fut hmem hwaits (hmidway.not_before hs₀ hi₀ hcq hown)
    have howed : OwesBytes (s.drainOne c cs, calls) c :=
      (howes c).mpr ⟨hbrings.2.2, fut, (hmidway.recvFuture _).symm.trans hown, hmem, hwaits⟩
    refine ⟨fun i fut v hi hv => ?_, fun hnot => ?_, fun c' hc' howed' => ?_⟩
    · rw [hkept fut (List.mem_of_getElem? hi)] at hv
      exact h.read.sized i fut v hi hv
    · exact absurd howed (hnot c (List.mem_append_right _ List.mem_cons_self))
    · rcases List.mem_append.mp hc' with hc' | hc'
      · exact absurd ((howes c').mp howed') (hnone c' hc')
      · rw [List.mem_singleton.mp hc', read_congr hreturned, h.read.even hnone, processed_drainOne,
          Cqe.arrived, if_pos hbrings]
        exact ⟨rfl, hle⟩
  · -- nor does it bring anything
    apply h.read.kept hreturned
    · intro fut hmem v hv
      rwa [hkept fut hmem] at hv
    · rw [processed_drainOne, arrived_of_not hbrings, List.append_nil]
    · exact fun hnot c' hc' howed => hnot c' (List.mem_append_left _ hc') ((howes c').mpr howed)
    · intro c' hc' howed
      refine ⟨(List.mem_append.mp hc').resolve_right fun hc' => ?_, (howes c').mp howed⟩
      rw [List.mem_singleton.mp hc'] at howed
      obtain ⟨hpos, fut, hown, hmem, -⟩ := (howes c).mp howed
      exact hbrings (hcalls.brings hself hmem ((hmidway.recvFuture _).trans hown) hpos)

theorem StreamedTo.next (hs₀ : s₀.CoreSound) (hi₀ : s₀.IssuedSound) (hcalls : CallsSound s₀ fd calls)
    (hmidway : s₀.Midway pre s) (hcq : s.core.ring.cq = c :: cs)
    (htakes : TakesBytes fd nbytes (s₀, calls) pre c) (h : StreamedTo s₀ fd nbytes calls pre s) :
    StreamedTo s₀ fd nbytes calls (pre ++ [c]) (s.drainOne c cs) := by
  have hstate (fut : FutId) := drainOne_futState c cs s fut
  constructor
  case read =>
    by_cases htaken : ∃ fut ∈ calls, s.core.futures.lookup c.sqe.fd = some fut ∧ s.Waits fut
    · obtain ⟨fut, hmem, htaken, hwaits⟩ := htaken
      exact h.resolved hs₀ hi₀ hcalls hmidway hcq htakes hmem htaken hwaits
    · apply h.unresolved hs₀ hi₀ hcalls hmidway hcq htakes
      intro fut hmem
      rw [hstate, if_neg]
      exact fun hfound => htaken ⟨fut, hmem, hfound⟩
  case waits =>
    intro fut hmem hwaits hnot
    have hwaits := h.waits fut hmem hwaits fun c' hc' => hnot c' (List.mem_append_left _ hc')
    refine (hstate fut).trans ?_
    rw [if_neg]
    · exact hwaits
    · rintro ⟨htaken, -⟩
      have htaken₀ : s₀.takes pre c.sqe.fd = some fut := (hmidway.futures _).symm.trans htaken
      exact hnot c (List.mem_append_right _ List.mem_cons_self)
        (htakes.others fut htaken₀ hmem (hmidway.waits fut hwaits))

end

/-! ## Any step -/

/-- What every step that keeps the stream keeps. -/
structure StreamKept (s : EventLoop K T) (fd : Fd) (nbytes : Nat → Nat) (calls : SockRecvs) : Prop where
  accepts : s.AcceptsSound
  issued : s.IssuedSound
  sound : CallsSound s fd calls
  apart : s.waiting.Pairwise Cqe.Apart
  read : ReadTo s fd nbytes calls s.waiting

section
variable [LE T] [DecidableLE T] {a : Act K T}

theorem StreamKept.startTick (h : s.StreamKept fd nbytes calls) {clock : T} {enter : Except String Nat}
    (hidle : s.idle = true) (hflushes : s.core.Flushes enter)
    (hkeeps : KeepsStream fd nbytes (s, calls) (.startTick clock enter)) :
    ReadTo (s.startTick clock enter) fd nbytes calls s.core.ring.cq := by
  have hstart := h.read
  have hempty := hidle
  simp only [idle, Bool.and_eq_true, List.isEmpty_iff] at hempty
  rw [waiting_nil hempty.2] at hstart
  obtain ⟨u, hu, heq⟩ := startTick_rule (I := StreamedTo s fd nbytes calls) clock hidle
    hflushes (hkeeps hflushes) ⟨⟨hstart.sized, hstart.even, hstart.owed⟩, fun _ _ hwaits _ => hwaits⟩
    fun _ _ _ _ hmidway hcq htakes hread =>
      hread.next h.accepts.core h.issued h.sound hmidway hcq htakes
  rw [heq]
  exact ⟨hu.read.sized, hu.read.even, hu.read.owed⟩

/-- A completion that waits for its handler is of the same receive as before. -/
theorem StreamKept.recvFuture (h : s.StreamKept fd nbytes calls) (hstep : s.step a = some t) {c : Cqe}
    (hc : c ∈ s.drained) : t.recvFuture? c.sqe.seq = s.recvFuture? c.sqe.seq := by
  obtain ⟨-, hissued, -⟩ := histories_step h.accepts.core hstep
  exact recvFuture?_eq hissued (h.issued.drained_lt hc)

/-- What is owed was owed before. -/
theorem StreamKept.owed_before (h : s.StreamKept fd nbytes calls) (hstep : s.step a = some t) {c : Cqe}
    (hc : c ∈ s.drained) (howes : OwesBytes (t, calls) c) : OwesBytes (s, calls) c := by
  obtain ⟨hpos, fut, hown, hmem, hwaits⟩ := howes
  exact ⟨hpos, fut, (h.recvFuture hstep hc).symm.trans hown, hmem,
    waits_before h.accepts.core hstep (h.sound.known fut hmem) hwaits⟩

omit [LE T] [DecidableLE T] in
theorem settles_recv {r : ResultTuple} (hop : r.opType = "recv") :
    r.settles = some (.recv, recvState r.result r.data) := by
  simp only [ResultTuple.settles, hop]
  rfl

omit [LE T] [DecidableLE T] in
theorem recvState_data {result : Int} {b : Bytes} (hpos : 0 < result) (hb : b ≠ []) :
    recvState result (some (.bytes b)) = .result (.data (.bytes b)) := by
  cases b with
  | nil => exact absurd rfl hb
  | cons x xs =>
    unfold recvState
    rw [if_pos hpos]
    rfl

omit [LE T] [DecidableLE T] in
theorem recvState_nodata {result : Int} (hle : ¬ 0 < result) (data : Option PyData) :
    (recvState result data).bytes = [] ∧
      ∀ v, recvState result data = .result v → v = .data (.bytes []) := by
  unfold recvState
  rw [if_neg hle]
  dsimp only
  split
  · exact ⟨rfl, by rintro v ⟨⟩; rfl⟩
  · exact ⟨rfl, by rintro v ⟨⟩⟩

omit [LE T] [DecidableLE T] in
/-- What the handler of its own completion resolves a call with. -/
theorem StreamKept.resolves_data (h : s.StreamKept fd nbytes calls) {r : ResultTuple} {c : Cqe}
    {W : List Cqe} (hc : c ∈ s.drained) (hresult : r.result = c.payload.result)
    (hwaiting : s.waiting = c :: W) (hresolves : ResolvesBytes (s, calls) r c) {fut : FutId}
    (hmem : fut ∈ calls) (hwaits : s.Waits fut) (hown : s.recvFuture? c.sqe.seq = some fut) :
    s.read calls ++ (recvState r.result r.data).bytes = s.processed fd ∧
      ∀ v, recvState r.result r.data = .result v →
        ∃ b, v = .data (.bytes b) ∧ b.length ≤ nbytes (calls.length - 1) := by
  by_cases hpos : 0 < c.payload.result
  · obtain ⟨-, hpayload, hbytes⟩ := hresolves.own fut hown hpos hmem hwaits
    have howed : OwesBytes (s, calls) c := ⟨hpos, fut, hown, hmem, hwaits⟩
    obtain ⟨hread, hle⟩ := h.read.owed c (hwaiting ▸ List.mem_cons_self) howed
    have hne : c.payload.bytes ≠ [] := by
      intro hnil
      rw [hpayload, hnil] at hpos
      exact absurd hpos (by decide)
    rw [hbytes, recvState_data (hresult ▸ hpos) hne]
    exact ⟨hread, by rintro v ⟨⟩; exact ⟨_, rfl, hle⟩⟩
  · -- nothing else is owed to the call
    have hnone (c' : Cqe) (hc' : c' ∈ s.waiting) : ¬ OwesBytes (s, calls) c' := by
      rintro ⟨hpos', fut', hown', hmem', hwaits'⟩
      have hlast := h.sound.single fut hmem hwaits
      obtain rfl := Option.some_inj.mp ((h.sound.single fut' hmem' hwaits').symm.trans hlast)
      have hapart := h.apart
      have hdrained' : c' ∈ s.drained := List.mem_of_mem_drop hc'
      rw [hwaiting] at hc' hapart
      rcases List.mem_cons.mp hc' with rfl | hc'
      · exact hpos hpos'
      · exact (List.pairwise_cons.mp hapart).1 c' hc' ((h.issued.drained c hc).isRecv hown)
          ((h.issued.drained c' hdrained').isRecv hown') (h.issued.recvFuture_inj hown hown')
    obtain ⟨hbytes, hresults⟩ := recvState_nodata (hresult ▸ hpos) r.data
    rw [hbytes, List.append_nil]
    exact ⟨h.read.even hnone, fun v hv => ⟨[], hresults v hv, Nat.zero_le _⟩⟩

theorem StreamKept.handled (h : s.StreamKept fd nbytes calls) (hstep : s.step a = some t)
    {r : ResultTuple} {c : Cqe} (hr : s.Handles a r) (hc : c ∈ s.drained)
    (hseen : c.seen = (r.fd, r.opType, r.result)) (hwaiting : s.waiting = c :: t.waiting)
    (hdrained : t.drained = s.drained) (hresolves : ResolvesBytes (s, calls) r c) :
    ReadTo t fd nbytes calls t.waiting := by
  have hticks : ¬ s.Ticks a := by
    rintro ⟨_, _, heq, -⟩
    cases hr.1.symm.trans heq
  have hprocessed : t.processed fd = s.processed fd := by rw [processed, hdrained, processed]
  have hop {fut : FutId} (hown : s.recvFuture? c.sqe.seq = some fut) : r.opType = "recv" := by
    have hstr : c.sqe.op.opType.asStr = r.opType := congrArg (·.2.1) hseen
    rw [← hstr, (h.issued.drained c hc).opType_recv hown]
    rfl
  have hold (c' : Cqe) (hc' : c' ∈ t.waiting) : c' ∈ s.waiting := by
    rw [hwaiting]
    exact List.mem_cons_of_mem _ hc'
  have hstate (fut : FutId) (hmem : fut ∈ calls) :=
    futState_step h.accepts.core hstep hticks (h.sound.known fut hmem)
  by_cases hset : ∃ fut ∈ calls, s.Waits fut ∧ ∃ state, t.futState fut = some state ∧ s.SettledBy a fut state
  · -- the call is resolved, for its own completion
    obtain ⟨fut, hmem, hwaits, state, hfut, hsettled⟩ := hset
    obtain ⟨r', kind, hr', hsettles, hio⟩ : ∃ r' kind, s.Handles a r' ∧
        r'.settles = some (kind, state) ∧ s.ioLookup r'.fd kind = some fut := by
      cases hsettled with
      | handler hr' hsettles hio => exact ⟨_, _, hr', hsettles, hio⟩
      | cancelled ha => cases hr.1.symm.trans ha
    obtain rfl : r' = r := by
      obtain ⟨-, rest, hresults⟩ := hr
      obtain ⟨-, rest', hresults'⟩ := hr'
      exact (List.cons.inj (hresults'.symm.trans hresults)).1
    have hown := hresolves.others _ hsettles fut hio hmem hwaits
    have hrecv := (settles_recv (hop hown)).symm.trans hsettles
    obtain ⟨-, rfl⟩ := Prod.mk.inj (Option.some_inj.mp hrecv)
    obtain ⟨hread, hsized⟩ := h.resolves_data hc (congrArg (·.2.2) hseen).symm hwaiting hresolves hmem
      hwaits hown
    apply h.read.settled h.sound.nodup h.sound.single hmem hwaits hfut (recvState_ne_pending _ _) _
      hsized (hprocessed ▸ hread)
    intro fut' hmem' hne
    refine (hstate fut' hmem').resolve_right fun hsettled' => hne ?_
    have hlast := h.sound.single fut hmem hwaits
    exact Option.some_inj.mp ((h.sound.single fut' hmem' hsettled'.1).symm.trans hlast)
  · -- the handler finds no future, or one that is no call's
    have hkept (fut : FutId) (hmem : fut ∈ calls) : t.futState fut = s.futState fut :=
      (hstate fut hmem).resolve_right fun hsettled => hset ⟨fut, hmem, hsettled⟩
    apply h.read.kept
    · intro fut hmem
      rw [returned, hkept fut hmem, returned]
    · intro fut hmem v hv
      rwa [hkept fut hmem] at hv
    · exact hprocessed
    · rintro hnone c' hc' ⟨hpos, fut, hown, hmem, hwaits⟩
      have hc'' := List.mem_of_mem_drop hc'
      rw [hwaiting] at hc'
      rcases List.mem_cons.mp hc' with rfl | hc'
      · obtain ⟨hio, -, -⟩ := hresolves.own fut hown hpos hmem hwaits
        have hdone := futState_handled hstep hr (.inl (hop hown)) (settles_recv (hop hown)) hio hwaits
        rw [hkept fut hmem] at hdone
        exact recvState_ne_pending _ _ (Option.some_inj.mp (hdone.symm.trans hwaits))
      · exact hnone c' hc' ⟨hpos, fut, (h.recvFuture hstep hc'').trans hown, hmem,
          (hkept fut hmem).trans hwaits⟩
    · intro c' hc' howed
      exact ⟨hold c' hc', h.owed_before hstep (List.mem_of_mem_drop (hold c' hc')) howed⟩

omit [LE T] [DecidableLE T] in
theorem KeepsStream.noneOwed (hkeeps : KeepsStream fd nbytes (s, calls) a) (hdrops : s.Drops a) :
    ∀ c ∈ s.waiting, ¬ OwesBytes (s, calls) c := by
  cases a with
  | ret q env =>
    obtain ⟨frame, hframe, haborts⟩ := hdrops
    exact hkeeps frame hframe haborts
  | rearmAccept env => exact hkeeps.resolve_left hdrops
  | _ => cases hdrops

/-- A step that is no tick and calls no handler. -/
theorem StreamKept.rest (h : s.StreamKept fd nbytes calls) (hstep : s.step a = some t)
    (hkeeps : KeepsStream fd nbytes (s, calls) a) (hticks : ¬ s.Ticks a)
    (hhandles : ∀ r, ¬ s.Handles a r) (hdrained : t.drained = s.drained)
    (hwaiting : t.waiting = s.waiting ∨ t.waiting = [] ∧ s.Drops a) :
    ReadTo t fd nbytes calls t.waiting := by
  have hstate (fut : FutId) (hmem : fut ∈ calls) : t.futState fut = s.futState fut ∨
      s.Waits fut ∧ t.futState fut = some .cancelled ∧ ∃ env, a = .call (.cancel fut) env := by
    refine (futState_step h.accepts.core hstep hticks (h.sound.known fut hmem)).imp_right ?_
    rintro ⟨hwaits, state, hfut, hsettled⟩
    cases hsettled with
    | handler hr hsettles hio => exact absurd hr (hhandles _)
    | cancelled ha => exact ⟨hwaits, hfut, _, ha⟩
  apply h.read.kept
  · intro fut hmem
    rcases hstate fut hmem with hsame | ⟨hwaits, hcancelled, -⟩
    · rw [returned, hsame, returned]
    · rw [returned_waits hwaits, returned, hcancelled]
      rfl
  · intro fut hmem v hv
    rcases hstate fut hmem with hsame | ⟨-, hcancelled, -⟩
    · exact hsame.symm.trans hv
    · cases hcancelled.symm.trans hv
  · rw [processed, hdrained, processed]
  · rcases hwaiting with hwaiting | ⟨-, hdrops⟩
    · -- what was owed before is owed still, unless the call was cancelled
      rintro hnone c hc ⟨hpos, fut, hown, hmem, hwaits⟩
      have hown' := (h.recvFuture hstep (List.mem_of_mem_drop hc)).trans hown
      rcases hstate fut hmem with hsame | ⟨-, -, env, rfl⟩
      · exact hnone c (hwaiting ▸ hc) ⟨hpos, fut, hown', hmem, hsame.trans hwaits⟩
      · exact hkeeps fut rfl c hc ⟨hpos, fut, hown, hmem, hwaits⟩ hown
    · exact fun _ => hkeeps.noneOwed hdrops
  · intro c hc howed
    rcases hwaiting with hwaiting | ⟨hnil, -⟩
    · rw [hwaiting] at hc
      exact ⟨hc, h.owed_before hstep (List.mem_of_mem_drop hc) howed⟩
    · rw [hnil] at hc
      cases hc

/-- The calls that were there before. -/
theorem StreamKept.read_step (h : s.StreamKept fd nbytes calls) (hstep : s.step a = some t)
    (hkeeps : KeepsStream fd nbytes (s, calls) a) :
    ReadTo t fd nbytes calls t.waiting ∧ t.waiting.Pairwise Cqe.Apart := by
  cases turn_of_step h.accepts hstep with
  | ticked hticks hwaiting hdrained =>
    obtain ⟨clock, enter, rfl, hflushes, hidle⟩ := hticks
    rw [hwaiting]
    obtain ⟨-, rfl⟩ := step_startTick.mp hstep
    exact ⟨h.startTick hidle hflushes hkeeps, h.accepts.core.sound.ring.apart⟩
  | @handled r c hr hc hmem hseen hwaiting hdrained =>
    have hresolves : ResolvesBytes (s, calls) r c := by
      obtain ⟨rfl, rest, hresults⟩ := hr
      apply hkeeps r _ c hc
      rw [hresults]
      rfl
    have hapart := h.apart
    rw [hwaiting] at hapart
    exact ⟨h.handled hstep hr hmem hseen hwaiting hdrained hresolves, (List.pairwise_cons.mp hapart).2⟩
  | kept hticks hhandles hwaiting hdrained =>
    exact ⟨h.rest hstep hkeeps hticks hhandles hdrained (.inl hwaiting), hwaiting ▸ h.apart⟩
  | dropped hticks hhandles hdrops hresults hdrained =>
    have hnil := waiting_nil hresults
    exact ⟨h.rest hstep hkeeps hticks hhandles hdrained (.inr ⟨hnil, hdrops⟩), hnil ▸ List.Pairwise.nil⟩

theorem CallsSound.step (h : CallsSound s fd calls) (hs : s.CoreSound) (hstep : s.step a = some t) :
    CallsSound t fd calls where
  known fut hmem := (h.known fut hmem).trans_le (histories_step hs hstep).1
  nodup := h.nodup
  single fut hmem hwaits := h.single fut hmem (waits_before hs hstep (h.known fut hmem) hwaits)
  socket fut hmem x hx hfut :=
    h.socket fut hmem x (issued_before hs hstep hx hfut (h.known fut hmem)) hfut

omit [LE T] [DecidableLE T] in
theorem SockRecvs.upd_cases (fd : Fd) (s : EventLoop K T) (a : Act K T) (t : EventLoop K T)
    (calls : SockRecvs) : SockRecvs.upd fd s a t calls = calls ∨
      (∃ k env, a = .call (.sockRecv fd k) env) ∧
        SockRecvs.upd fd s a t calls = calls ++ [s.futs.length] := by
  unfold SockRecvs.upd
  split
  · rename_i fd' k env
    split
    · rename_i hcall
      obtain ⟨rfl, -⟩ := hcall
      exact .inr ⟨⟨k, env, rfl⟩, rfl⟩
    · exact .inl rfl
  · exact .inl rfl

theorem StreamKept.step (h : s.StreamKept fd nbytes calls) (hawaits : AwaitsInTurn fd (s, calls) a)
    (hkeeps : KeepsStream fd nbytes (s, calls) a) (hstep : s.step a = some t) :
    t.StreamKept fd nbytes (SockRecvs.upd fd s a t calls) := by
  have hissued := h.issued.step h.accepts.core hstep
  have hsound := h.sound.step h.accepts.core hstep
  obtain ⟨hread, hapart⟩ := h.read_step hstep hkeeps
  rcases SockRecvs.upd_cases fd s a t calls with hupd | ⟨⟨k, env, rfl⟩, hupd⟩
  · rw [hupd]
    exact ⟨h.accepts.step hstep, hissued, hsound, hapart, hread⟩
  · -- a new call begins, and the others are over
    have haccepts := h.accepts.step hstep
    have hrecv {c : Cqe} (hc : c ∈ s.drained) := h.recvFuture hstep hc
    obtain ⟨-, rfl⟩ := step_call.mp hstep
    have hwaits : (s.call env (.sockRecv fd k)).Waits s.futs.length := by
      show ((s.futs ++ [_])[s.futs.length]?).map AsyncFuture.state = _
      rw [List.getElem?_concat_length]
      rfl
    have hlength : (s.call env (.sockRecv fd k)).futs.length = s.futs.length + 1 := by
      show (s.futs ++ [_]).length = _
      rw [List.length_append]
      rfl
    have hover (fut : FutId) (hmem : fut ∈ calls) : ¬ (s.call env (.sockRecv fd k)).Waits fut := by
      intro hfut
      have hold := waits_before h.accepts.core hstep (h.sound.known fut hmem) hfut
      exact hawaits rfl fut (h.sound.single fut hmem hold) hold
    rw [hupd]
    refine ⟨haccepts, hissued, ⟨?_, ?_, ?_, ?_⟩, hapart, hread.call hover hwaits ?_⟩
    · intro fut hmem
      rw [hlength]
      rcases List.mem_append.mp hmem with hmem | hmem
      · exact Nat.lt_succ_of_lt (h.sound.known fut hmem)
      · rw [List.mem_singleton.mp hmem]
        exact Nat.lt_succ_self _
    · refine List.nodup_append.mpr ⟨h.sound.nodup, List.nodup_singleton _, ?_⟩
      rintro fut hmem fut' hmem' rfl
      rw [List.mem_singleton.mp hmem'] at hmem
      exact Nat.lt_irrefl _ (h.sound.known _ hmem)
    · intro fut hmem hfut
      rcases List.mem_append.mp hmem with hmem | hmem
      · exact absurd hfut (hover fut hmem)
      · rw [List.mem_singleton.mp hmem]
        exact List.getLast?_concat
    · intro fut hmem x hx hfut
      rcases List.mem_append.mp hmem with hmem | hmem
      · exact hsound.socket fut hmem x hx hfut
      · rw [List.mem_singleton.mp hmem] at hfut
        have hx : x ∈ s.issued ++ (if _ then [] else [(fd, .recv s.futs.length)]) := hx
        rcases List.mem_append.mp hx with hx | hx
        · exact absurd (h.issued.created x hx _ hfut) (Nat.lt_irrefl _)
        · rw [List.mem_singleton.mp (List.mem_ite_nil_left.mp hx).2]
    · intro c hc hown
      have hc : c ∈ s.drained := List.mem_of_mem_drop hc
      exact Nat.lt_irrefl _ (h.issued.recvFuture_lt ((hrecv hc).symm.trans hown))

def sockRecvMachine (fd : Fd) : Machine (EventLoop K T × SockRecvs × Wakes K) (Act K T) :=
  machine.ghost fun s a t g => (SockRecvs.upd fd s a t g.1, Wakes.upd s a t g.2)

/-- `KeepsStream`, and no task that a result has woken is lost. -/
def KeepsSockRecv (fd : Fd) (nbytes : Nat → Nat) (x : EventLoop K T × SockRecvs × Wakes K) (a : Act K T) :
    Prop :=
  KeepsStream fd nbytes (x.1, x.2.1) a ∧ KeepsWakes (x.1, x.2.2) a

instance [DecidableEq K] (fd : Fd) (nbytes : Nat → Nat) (x : EventLoop K T × SockRecvs × Wakes K)
    (a : Act K T) : Decidable (KeepsSockRecv fd nbytes x a) :=
  inferInstanceAs (Decidable (_ ∧ _))

/-- **Calls of `sock_recv` return the stream.** In a run that awaits them one after another, and whose
ticks and handlers resolve them for their own completions only, with no more data than they have asked
for; and the coroutine goes on with each result. -/
theorem reads_stream {setup : Setup} {bufferSize bufferCount : Nat}
    {core : UringCore FutId (Handle K) T} (hnew : UringCore.new setup bufferSize bufferCount = .ok core)
    (fd : Fd) (nbytes : Nat → Nat) {acts : List (Act K T)} {x : EventLoop K T × SockRecvs × Wakes K}
    (hawaits : (sockRecvMachine fd).Meets (fun x => AwaitsInTurn fd (x.1, x.2.1))
      (init core, [], Wakes.init) acts)
    (hkeeps : (sockRecvMachine fd).Meets (KeepsSockRecv fd nbytes) (init core, [], Wakes.init) acts)
    (hrun : (sockRecvMachine fd).run (init core, [], Wakes.init) acts = some x) :
    ReadsStream fd nbytes (x.1, x.2.1) ∧ x.1.TasksResumed x.2.2 := by
  have hend := Machine.run_invariant (M := sockRecvMachine fd)
    (I := fun x : EventLoop K T × SockRecvs × Wakes K =>
      x.1.StreamKept fd nbytes x.2.1 ∧ x.1.Woken x.2.2) ?_ ?_ (hawaits.and hkeeps) hrun
  · obtain ⟨hkept, hwoken⟩ := hend
    refine ⟨⟨hkept.read.sized, hkept.read.ordered.trans ?_,
      fun hresults => hkept.read.even fun c hc => ?_⟩, hwoken.resumes⟩
    · rw [arrived, List.flatMap_append]
      exact List.prefix_append ..
    · rw [waiting_nil hresults] at hc
      cases hc
  · rintro ⟨s, calls⟩ a ⟨t, calls'⟩ h ⟨hawaits, hkeeps⟩ hstep
    obtain ⟨hnext, rfl⟩ := Machine.ghost_step_mk.mp hstep
    exact ⟨h.1.step hawaits hkeeps.1 hnext, h.2.step h.1.accepts.core hnext hkeeps.2⟩
  · refine ⟨?_, .init core⟩
    refine ⟨acceptsSound_init hnew, .init hnew, ⟨?_, List.nodup_nil, ?_, ?_⟩, List.Pairwise.nil, ?_, ?_, ?_⟩
    · rintro fut ⟨⟩
    · rintro fut ⟨⟩
    · rintro fut ⟨⟩
    · rintro i fut v ⟨⟩
    · exact fun _ => rfl
    · rintro c ⟨⟩

end

end

/-! ## Runs -/

/-- A coroutine reads from fd 5. -/
def readRun (bytes : Bytes) : List (Act Unit Nat) :=
  [.call (.sockRecv 5 ()) ⟨0, .ok 1⟩, .complete 0 (.data bytes) false false, .startTick 0 (.ok 0),
    .runHandle, .ret (.value true) ⟨0, .ok 1⟩, .handleCompletion]

/-- It reads again as soon as it is resumed. -/
def rereadRun : List (Act Unit Nat) :=
  [.call (.sockRecv 5 ()) ⟨0, .ok 1⟩, .complete 0 (.data [1]) false false, .startTick 0 (.ok 0),
    .runHandle, .call (.sockRecv 5 ()) ⟨0, .ok 1⟩, .ret (.value true) ⟨0, .ok 1⟩, .handleCompletion]

theorem reads_stream_twice : ∃ core x, UringCore.new Setup.plain 16 4 = .ok core ∧
    (sockRecvMachine 5).run (init core, [], Wakes.init) (readRun [1, 2] ++ readRun [3]) = some x ∧
    ReadsStream 5 (fun _ => 2) (x.1, x.2.1) ∧ x.1.TasksResumed x.2.2 ∧ x.1.read x.2.1 = [1, 2, 3] := by
  obtain ⟨hreads, hresumed⟩ := reads_stream (show UringCore.new Setup.plain 16 4 = .ok _ from rfl) 5
    (fun _ => 2) (by decide) (by decide)
    (show (sockRecvMachine 5).run _ (readRun [1, 2] ++ readRun [3]) = some _ from rfl)
  exact ⟨_, _, rfl, rfl, hreads, hresumed, rfl⟩

/-- The handler has resolved the second call with what the first one has returned. And one byte was asked
for, but two are returned. -/
theorem not_reads_stream : ∃ core x y, UringCore.new Setup.plain 16 4 = .ok core ∧
    (sockRecvMachine 5).run (init core, [], Wakes.init) rereadRun = some x ∧
    (sockRecvMachine 5).Meets (fun x => AwaitsInTurn 5 (x.1, x.2.1)) (init core, [], Wakes.init)
      rereadRun ∧
    x.1.read x.2.1 = [1, 1] ∧ x.1.arrived 5 = [1] ∧ ¬ ReadsStream 5 (fun _ => 4) (x.1, x.2.1) ∧
    (sockRecvMachine 5).run (init core, [], Wakes.init) (readRun [1, 2]) = some y ∧
    (sockRecvMachine 5).Meets (fun x => AwaitsInTurn 5 (x.1, x.2.1)) (init core, [], Wakes.init)
      (readRun [1, 2]) ∧
    y.1.read y.2.1 = [1, 2] ∧ ¬ ReadsStream 5 (fun _ => 1) (y.1, y.2.1) := by
  refine ⟨_, _, _, rfl, rfl, by decide, rfl, rfl, fun h => ?_, rfl, by decide, rfl, fun h => ?_⟩
  · obtain ⟨rest, hrest⟩ := h.ordered
    cases hrest
  · obtain ⟨b, hb, hle⟩ := h.sized 0 0 _ rfl rfl
    cases hb
    exact absurd hle (by decide)

end EventLoop

end Uringcore
