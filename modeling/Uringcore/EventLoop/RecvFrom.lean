import Uringcore.EventLoop.Woken

/-!
# The pair that `sock_recvfrom` returns

What `await fut` gives is what the future was resolved with, by `run_tick` or by
`_handle_recvmsg_completion`, whichever comes first. The tick makes a pair only of data that is not
empty and of an address that it knows; the handler makes one of no data, without an address.
`received_pairs` says in which runs every result is the pair it should be.
-/

namespace Uringcore

/-- The result as `(data, address)`, if it is a pair. -/
def Value.pair? : Value → Option (Bytes × Option PyAddr)
  | data (.msg bytes addr) => some (bytes, some addr)
  | emptyMsg => some ([], none)
  | data (.bytes _) | data (.int _) => none

namespace Payload

/-- The message has data, and an address that is decoded for what it is. -/
def Answerable : Payload → Prop
  | msg bytes addr _ => bytes ≠ [] ∧ addr.Plain
  | data _ | count _ | error _ => False

/-- An empty message from nobody. -/
def Anonymous : Payload → Prop
  | msg bytes addr _ => bytes = [] ∧ addr = .unspec
  | data _ | count _ | error _ => False

/-- The pair to make of the message. -/
def answer? : Payload → Option PyData
  | msg bytes addr namelen => (decodeAddr addr namelen).map (.msg bytes)
  | data _ | count _ | error _ => none

instance : ∀ p : Payload, Decidable p.Answerable
  | .msg .. => inferInstanceAs (Decidable (_ ∧ _))
  | .data _ | .count _ | .error _ => .isFalse id

instance : ∀ p : Payload, Decidable p.Anonymous
  | .msg .. => inferInstanceAs (Decidable (_ ∧ _))
  | .data _ | .count _ | .error _ => .isFalse id

/-- The answer to a message is a pair with its data and its sender. -/
theorem Answerable.pair {p : Payload} (h : p.Answerable) : ∃ bytes addr namelen a,
    p = .msg bytes addr namelen ∧ p.answer? = some (.msg bytes a) ∧ bytes ≠ [] ∧
      decodeAddr addr namelen = some a ∧
      ∀ sender : Sender, sender.Reports addr namelen → sender.IdentifiedBy (some a) := by
  cases p with
  | msg bytes addr namelen =>
    obtain ⟨hne, hplain⟩ := h
    obtain ⟨a, ha⟩ := decodeAddr_plain hplain namelen
    refine ⟨bytes, addr, namelen, a, rfl, ?_, hne, ha, fun sender hreports => ?_⟩
    · rw [answer?, ha]
      rfl
    · exact decodeAddr_identifies hreports hplain ha
  | _ => cases h

end Payload

namespace EventLoop
variable {K T : Type}

/-- The future of the `recvfrom` that was submitted with the number `n`. -/
def recvfrom? (s : EventLoop K T) (n : Nat) : Option FutId :=
  match s.issued[n]? with
  | some (_, .recvfrom fut) => some fut
  | _ => none

/-- The futures that `sock_recvfrom` has come to await. -/
abbrev Recvfroms := FutId → Bool

namespace Recvfroms

def init : Recvfroms := fun _ => false

def upd (s : EventLoop K T) (a : Act K T) (_ : EventLoop K T) (g : Recvfroms) : Recvfroms :=
  match a with
  | .call (.sockRecvfrom fd k) env =>
      if (s.sockRecvfrom env k fd).2.isOk then fun fut => fut = s.futs.length || g fut else g
  | _ => g

end Recvfroms

/-- `v` is the payload of the datagram that the submission of `fut` has received, with its sender. -/
def Paired (s : EventLoop K T) (fut : FutId) (v : Value) : Prop :=
  ∃ c ∈ s.drained, s.recvfrom? c.sqe.seq = some fut ∧ ∃ bytes addr namelen a,
    c.payload = .msg bytes addr namelen ∧ v.pair? = some (bytes, a) ∧
      ∀ sender : Sender, sender.Reports addr namelen → sender.IdentifiedBy a

/-- What the future is resolved with is what its submission has received, or its error. -/
def Answered (s : EventLoop K T) (fut : FutId) : FutState → Prop
  | .pending | .cancelled => True
  | .exception errno => ∃ c ∈ s.drained, s.recvfrom? c.sqe.seq = some fut ∧
      0 < errno ∧ c.payload.result = -errno
  | .result v => s.Paired fut v

/-- The completion is that of a `sock_recvfrom` which still waits for it. -/
def OwesMsg (x : EventLoop K T × Recvfroms) (c : Cqe) : Prop :=
  ∃ fut ∈ x.1.recvfrom? c.sqe.seq, x.2 fut = true ∧ x.1.Waits fut

instance (x : EventLoop K T × Recvfroms) (c : Cqe) : Decidable (OwesMsg x c) :=
  inferInstanceAs (Decidable (∃ fut ∈ x.1.recvfrom? c.sqe.seq, _))

/-- Every result of a `sock_recvfrom` is the pair that it should be, and there is one as soon as the
handlers of its completion are through. -/
structure ReceivesPairs (x : EventLoop K T × Recvfroms) : Prop where
  answered : ∀ fut state, x.2 fut = true → x.1.futState fut = some state → x.1.Answered fut state
  completes : x.1.results = [] → ∀ c ∈ x.1.drained, ¬ OwesMsg x c

/-- What a tick from `s` has for the `recvmsg` on `c`'s descriptor after `pre` is the data of `c` and
its address. -/
def HoldsMsg (s : EventLoop K T) (pre : List Cqe) (c : Cqe) : Prop :=
  (∀ c' ∈ pre, c'.sqe.op.isRecv → c'.sqe.fd ≠ c.sqe.fd) ∧
    (∃ b ∈ s.core.inflightRecvBuffers.lookup c.sqe.fd,
      s.core.bufferPool.getBufferSlice b c.payload.bytes.length = c.payload.bytes) ∧
    ∃ st ∈ s.core.recvmsgStates.lookup c.sqe.fd, c.payload = .msg c.payload.bytes st.addr st.namelen

/-- A completion that a tick comes to after `pre` takes the future of no `sock_recvfrom` but its own,
and that for an error or a message that it can answer. -/
def TakesMsg (x : EventLoop K T × Recvfroms) (pre : List Cqe) (c : Cqe) : Prop :=
  ∀ fut ∈ x.1.takes pre c.sqe.fd, x.2 fut = true → x.1.Waits fut →
    x.1.recvfrom? c.sqe.seq = some fut ∧
      (c.payload.result < 0 ∨ c.payload.Answerable ∧ x.1.HoldsMsg pre c)

/-- The handler of `c` finds the future of no waiting `sock_recvfrom` but its own, and that with what
it can answer: it makes `(b"", None)` of no data. -/
structure ResolvesMsg (x : EventLoop K T × Recvfroms) (r : ResultTuple) (c : Cqe) : Prop where
  others : ∀ q ∈ r.settles, ∀ fut ∈ x.1.ioLookup r.fd q.1, x.2 fut = true → x.1.Waits fut →
    x.1.recvfrom? c.sqe.seq = some fut ∧ (c.payload.result < 0 ∨
      c.payload.Answerable ∧ r.data = c.payload.answer? ∨ c.payload.Anonymous ∧ r.data = none)
  own : ∀ fut ∈ x.1.recvfrom? c.sqe.seq, x.2 fut = true → x.1.Waits fut →
    x.1.ioLookup r.fd .recvmsg = some fut

/-- The ticks and the handlers resolve the futures of `sock_recvfrom` for their own completions, and no
exception leaves `_process_completions` or unwinds `run_tick` while one waits for its handler. -/
def KeepsPairs (x : EventLoop K T × Recvfroms) : Act K T → Prop
  | .startTick _ enter => x.1.core.Flushes enter → InTurn (TakesMsg x) [] x.1.core.ring.cq
  | .handleCompletion => ∀ r ∈ x.1.results.head?, ∀ c ∈ x.1.handled?, ResolvesMsg x r c
  | .ret r _ => ∀ frame ∈ x.1.stack.head?, frame.aborts r → ∀ c ∈ x.1.waiting, ¬ OwesMsg x c
  | .rearmAccept env =>
      x.1.core.HasRoom ∧ env.enter.isOk ∨ ∀ c ∈ x.1.waiting, ¬ OwesMsg x c
  | .consume _ | .complete .. | .callSoon _ | .runHandle | .call .. => True

instance (s : EventLoop K T) (pre : List Cqe) (c : Cqe) : Decidable (s.HoldsMsg pre c) :=
  have : Decidable (∀ c' ∈ pre, c'.sqe.op.isRecv → c'.sqe.fd ≠ c.sqe.fd) := List.decidableBAll _ _
  inferInstanceAs (Decidable (_ ∧ (∃ b ∈ s.core.inflightRecvBuffers.lookup c.sqe.fd, _) ∧
    ∃ st ∈ s.core.recvmsgStates.lookup c.sqe.fd, _))

instance (x : EventLoop K T × Recvfroms) (pre : List Cqe) (c : Cqe) : Decidable (TakesMsg x pre c) :=
  Option.decidableForallMem _

instance (x : EventLoop K T × Recvfroms) (r : ResultTuple) (c : Cqe) :
    Decidable (ResolvesMsg x r c) :=
  have (q : IoKind × FutState) : Decidable (∀ fut ∈ x.1.ioLookup r.fd q.1, x.2 fut = true →
      x.1.Waits fut → x.1.recvfrom? c.sqe.seq = some fut ∧ (c.payload.result < 0 ∨
        c.payload.Answerable ∧ r.data = c.payload.answer? ∨ c.payload.Anonymous ∧ r.data = none)) :=
    Option.decidableForallMem _
  have : Decidable (∀ q ∈ r.settles, ∀ fut ∈ x.1.ioLookup r.fd q.1, x.2 fut = true →
      x.1.Waits fut → x.1.recvfrom? c.sqe.seq = some fut ∧ (c.payload.result < 0 ∨
        c.payload.Answerable ∧ r.data = c.payload.answer? ∨ c.payload.Anonymous ∧ r.data = none)) :=
    Option.decidableForallMem r.settles
  have : Decidable (∀ fut ∈ x.1.recvfrom? c.sqe.seq, x.2 fut = true → x.1.Waits fut →
      x.1.ioLookup r.fd .recvmsg = some fut) := Option.decidableForallMem _
  decidable_of_iff (_ ∧ _) ⟨fun h => ⟨h.1, h.2⟩, fun h => ⟨h.others, h.own⟩⟩

instance (x : EventLoop K T × Recvfroms) : ∀ a : Act K T, Decidable (KeepsPairs x a)
  | .startTick .. => inferInstanceAs (Decidable (_ → _))
  | .handleCompletion =>
      have (r : ResultTuple) : Decidable (∀ c ∈ x.1.handled?, ResolvesMsg x r c) :=
        Option.decidableForallMem _
      inferInstanceAs (Decidable (∀ r ∈ x.1.results.head?, ∀ c ∈ x.1.handled?, ResolvesMsg x r c))
  | .ret r _ =>
      have (frame : Frame) : Decidable (frame.aborts r → ∀ c ∈ x.1.waiting, ¬ OwesMsg x c) :=
        have : Decidable (∀ c ∈ x.1.waiting, ¬ OwesMsg x c) := List.decidableBAll _ _
        inferInstanceAs (Decidable (_ → _))
      Option.decidableForallMem x.1.stack.head?
  | .rearmAccept _ =>
      have : Decidable (∀ c ∈ x.1.waiting, ¬ OwesMsg x c) := List.decidableBAll _ _
      inferInstanceAs (Decidable (_ ∧ _ = true ∨ _))
  | .consume _ | .complete .. | .callSoon _ | .runHandle | .call .. => .isTrue trivial

section
variable {s t : EventLoop K T} {g : Recvfroms}

theorem recvfrom?_eq_some {n : Nat} {fut : FutId} :
    s.recvfrom? n = some fut ↔ ∃ fd, s.issued[n]? = some (fd, .recvfrom fut) := by
  unfold recvfrom?
  split
  · rename_i fd fut' hissued
    simp [hissued]
  · rename_i hnot
    exact iff_of_false (by rintro ⟨⟩) fun ⟨fd, h⟩ => hnot fd fut h

theorem recvfrom?_mono (hissued : s.issued <+: t.issued) {n : Nat} {fut : FutId}
    (h : s.recvfrom? n = some fut) : t.recvfrom? n = some fut := by
  obtain ⟨fd, hfd⟩ := recvfrom?_eq_some.mp h
  exact recvfrom?_eq_some.mpr ⟨fd, History.getElem?_mono hfd hissued⟩

theorem Answered.mono {fut : FutId} {state : FutState} (h : s.Answered fut state)
    (hissued : s.issued <+: t.issued) (hdrained : ∀ c ∈ s.drained, c ∈ t.drained) :
    t.Answered fut state := by
  cases state with
  | pending | cancelled => trivial
  | exception errno =>
    obtain ⟨c, hc, hown, herror⟩ := h
    exact ⟨c, hdrained c hc, recvfrom?_mono hissued hown, herror⟩
  | result v =>
    obtain ⟨c, hc, hown, hpair⟩ := h
    exact ⟨c, hdrained c hc, recvfrom?_mono hissued hown, hpair⟩

/-- A completion of a `recvfrom` is one of a `recvmsg`. -/
theorem Names.opType_recvfrom {e : Sqe} (h : s.Names e) {fut : FutId}
    (hown : s.recvfrom? e.seq = some fut) : e.op.opType = .recvMsg := by
  obtain ⟨fd, hissued⟩ := recvfrom?_eq_some.mp hown
  obtain ⟨req, hreq, hop⟩ := h
  rw [hissued] at hreq
  cases hreq
  exact hop.symm

/-! ## What a result is made of -/

theorem outcome_negative (core : UringCore FutId (Handle K) T) {c : Cqe} (h : c.payload.result < 0) :
    (core.process c.entry).2.1.outcome.futState = .exception (-c.payload.result) := by
  obtain ⟨data, hitem⟩ := UringCore.extract_item c.entry core
  have hitem : (core.process c.entry).2.1 = ⟨c.entry.fd, c.entry.result, c.entry.opType, data⟩ := hitem
  have hresult : c.entry.result < 0 := h
  rw [hitem, CompletionItem.outcome, if_pos hresult]
  rfl

/-- What a tick resolves the future of a `recvmsg` with. -/
theorem outcome_recvMsg {core : UringCore FutId (Handle K) T} {c : Cqe}
    (hop : c.sqe.op.opType = .recvMsg) {bytes : Bytes} {addr : Sockaddr} {namelen : Nat} {a : PyAddr}
    (hpayload : c.payload = .msg bytes addr namelen) (hne : bytes ≠ [])
    (ha : decodeAddr addr namelen = some a) {b : UInt16}
    (hb : core.inflightRecvBuffers.lookup c.sqe.fd = some b)
    (hslice : core.bufferPool.getBufferSlice b bytes.length = bytes) {st : RecvMsgState}
    (hst : core.recvmsgStates.lookup c.sqe.fd = some st) (haddr : st.addr = addr)
    (hnamelen : st.namelen = namelen) :
    (core.process c.entry).2.1.outcome.futState = .result (.data (.msg bytes a)) := by
  have hresult : c.entry.result = bytes.length := by
    rw [Cqe.entry_result, hpayload]
    rfl
  have hpos : 0 < (bytes.length : Int) := Int.natCast_pos.mpr (List.length_pos_iff.mpr hne)
  have hitem : (core.process c.entry).2.1 = (core.extract c.entry).2 := rfl
  rw [hitem, UringCore.extract_recvMsg (by rw [Cqe.entry_opType, hop]) (by rwa [Cqe.entry_fd])
    (by rwa [Cqe.entry_fd]), hresult, if_pos hpos, haddr, hnamelen, ha, Int.toNat_natCast, hslice]
  have hnot : ¬ (bytes.length : Int) < 0 := by omega
  simp [CompletionItem.outcome, CompletionItem.isRecv, hnot, Outcome.futState]

/-! ## What a step keeps -/

/-- What `_handle_recvmsg_completion` resolves the future with. -/
def recvmsgState (result : Int) (data : Option PyData) : FutState :=
  if 0 ≤ result then match truthyData data with
    | some d => .result (.data d)
    | none => .result .emptyMsg
  else .exception (-result)

theorem settles_recvmsg {r : ResultTuple} (hop : r.opType = "recvmsg") :
    r.settles = some (.recvmsg, recvmsgState r.result r.data) := by
  simp only [ResultTuple.settles, hop]
  rfl

theorem IssuedSound.opType_recvmsg (hi : s.IssuedSound) {r : ResultTuple} {c : Cqe} (hc : c ∈ s.drained)
    (hseen : c.seen = (r.fd, r.opType, r.result)) {fut : FutId}
    (hown : s.recvfrom? c.sqe.seq = some fut) : r.opType = "recvmsg" := by
  have hstr : c.sqe.op.opType.asStr = r.opType := congrArg (·.2.1) hseen
  rw [← hstr, (hi.drained c hc).opType_recvfrom hown]
  rfl

/-- What a handler that keeps the pairs resolves the future of a `sock_recvfrom` with. -/
theorem ResolvesMsg.answered (hi : s.IssuedSound) {r : ResultTuple} {c : Cqe}
    (hresolves : ResolvesMsg (s, g) r c) (hc : c ∈ s.drained)
    (hseen : c.seen = (r.fd, r.opType, r.result)) {kind : IoKind} {fut : FutId} {state : FutState}
    (hsettles : r.settles = some (kind, state)) (hio : s.ioLookup r.fd kind = some fut)
    (hg : g fut = true) (hwaits : s.Waits fut) : s.Answered fut state := by
  obtain ⟨hown, hcase⟩ := hresolves.others (kind, state) hsettles fut hio hg hwaits
  have hstate := (settles_recvmsg (hi.opType_recvmsg hc hseen hown)).symm.trans hsettles
  obtain ⟨-, rfl⟩ := Prod.mk.inj (Option.some_inj.mp hstate)
  unfold recvmsgState
  have hresult : r.result = c.payload.result := (congrArg (·.2.2) hseen).symm
  rcases hcase with hneg | ⟨hanswerable, hdata⟩ | ⟨hanonymous, hdata⟩
  · -- an error number
    rw [if_neg (by omega)]
    exact ⟨c, hc, hown, by omega, by omega⟩
  · obtain ⟨bytes, addr, namelen, a, hpayload, hanswer, -, -, hsender⟩ := hanswerable.pair
    have hnonneg : 0 ≤ r.result := by
      rw [hresult, hpayload]
      exact Int.natCast_nonneg _
    rw [if_pos hnonneg, hdata, hanswer]
    exact ⟨c, hc, hown, bytes, addr, namelen, some a, hpayload, rfl, hsender⟩
  · -- an empty message of nobody
    cases hpayload : c.payload with
    | msg bytes addr namelen =>
      rw [hpayload] at hanonymous
      obtain ⟨rfl, rfl⟩ := hanonymous
      have hnonneg : 0 ≤ r.result := by
        rw [hresult, hpayload]
        exact Int.natCast_nonneg _
      rw [if_pos hnonneg, hdata]
      exact ⟨c, hc, hown, [], .unspec, namelen, none, hpayload, rfl,
        fun sender hreports => Sender.identifiedBy_none hreports⟩
    | _ =>
      rw [hpayload] at hanonymous
      cases hanonymous

/-- What is left after `pre` of a tick from `s₀`. -/
structure PairedTo (s₀ : EventLoop K T) (g : Recvfroms) (pre : List Cqe) (s : EventLoop K T) : Prop where
  answered : ∀ fut state, g fut = true → s.futState fut = some state → s.Answered fut state
  states : ∀ fd, (∀ c ∈ pre, c.sqe.op.isRecv → c.sqe.fd ≠ fd) →
    s.core.recvmsgStates.lookup fd = s₀.core.recvmsgStates.lookup fd

theorem PairedTo.next {s₀ : EventLoop K T} (hi : s₀.IssuedSound) {pre cs : List Cqe} {c : Cqe}
    (hmidway : s₀.Midway pre s) (hcq : s.core.ring.cq = c :: cs) (htakes : TakesMsg (s₀, g) pre c)
    (h : PairedTo s₀ g pre s) : PairedTo s₀ g (pre ++ [c]) (s.drainOne c cs) := by
  have hone := drainOne_eq c cs s
  simp only [UringCore.processNext_eq] at hone
  have hissued : (s.drainOne c cs).issued = s.issued := by rw [hone]
  have hdrained : (s.drainOne c cs).drained = s.drained ++ [c] := by rw [hone]
  have hlast : c ∈ (s.drainOne c cs).drained := by
    rw [hdrained]
    exact List.mem_append_right _ List.mem_cons_self
  refine ⟨?_, ?_⟩
  · intro fut state hg hstate
    rw [drainOne_futState] at hstate
    split at hstate
    · -- the completion is the own one of the future
      rename_i htaken
      have htaken₀ : s₀.takes pre c.sqe.fd = some fut := (hmidway.futures _).symm.trans htaken.1
      obtain ⟨hown, hcase⟩ := htakes fut htaken₀ hg (hmidway.waits fut htaken.2)
      have hop : c.sqe.op.opType = .recvMsg := (hi.names_cq (hmidway.mem_cq hcq)).opType_recvfrom hown
      have hown : (s.drainOne c cs).recvfrom? c.sqe.seq = some fut := by
        rw [recvfrom?, hissued, hmidway.issued]
        exact hown
      rcases hcase with hneg | ⟨hanswerable, hfirst, ⟨b, hb, hslice⟩, st, hst, hmsg⟩
      · rw [outcome_negative s.core hneg] at hstate
        cases hstate
        exact ⟨c, hlast, hown, by omega, by omega⟩
      · obtain ⟨bytes, addr, namelen, a, hpayload, -, hne, ha, hsender⟩ := hanswerable.pair
        rw [hpayload] at hslice hmsg
        obtain ⟨-, haddr, hnamelen⟩ := Payload.msg.inj hmsg
        have hkept := (hmidway.bufferSlice b bytes.length).trans hslice
        have houtcome := outcome_recvMsg hop hpayload hne ha ((hmidway.tracked _ hfirst).trans hb)
          hkept ((h.states _ hfirst).trans hst) haddr.symm hnamelen.symm
        rw [houtcome] at hstate
        cases hstate
        exact ⟨c, hlast, hown, bytes, addr, namelen, some a, hpayload, rfl, hsender⟩
    · -- an answer that was there before is an answer still
      apply (h.answered fut state hg hstate).mono (hissued ▸ List.prefix_rfl)
      intro c' hc'
      rw [hdrained]
      exact List.mem_append_left _ hc'
  · intro fd hnone
    have hkept : (s.drainOne c cs).core.recvmsgStates.lookup fd = s.core.recvmsgStates.lookup fd := by
      rw [hone]
      show (if _ then s.core.recvmsgStates.erase c.sqe.fd else s.core.recvmsgStates).lookup fd = _
      split
      · -- the box of `c` is dropped, which is not that of `fd`
        rename_i hmsg
        have hrecv : c.sqe.op.isRecv := by
          cases hop : c.sqe.op <;> simp_all [SqeOp.opType, SqeOp.isRecv, SqeOp.recvBuf?]
        have hfd : fd ≠ c.sqe.fd := (hnone c (List.mem_append_right _ List.mem_cons_self) hrecv).symm
        rw [AList.lookup_erase_ne hfd]
      · rfl
    rw [hkept]
    exact h.states fd fun c' hc' => hnone c' (List.mem_append_left _ hc')

/-- What every step that keeps the pairs keeps. What is owed waits for its handler. -/
structure PairsKept (s : EventLoop K T) (g : Recvfroms) : Prop where
  accepts : s.AcceptsSound
  issued : s.IssuedSound
  known : ∀ fut, g fut = true → fut < s.futs.length
  answered : ∀ fut state, g fut = true → s.futState fut = some state → s.Answered fut state
  owed : ∀ c ∈ s.drained, OwesMsg (s, g) c → c ∈ s.waiting

section
variable [LE T] [DecidableLE T] {a : Act K T}

/-- A tick keeps the answers. -/
theorem PairsKept.startTick (h : s.PairsKept g) {clock : T} {enter : Except String Nat}
    (hidle : s.idle = true) (hkeeps : KeepsPairs (s, g) (.startTick clock enter)) {fut : FutId}
    {state : FutState} (hg : g fut = true)
    (hstate : (s.startTick clock enter).futState fut = some state) :
    (s.startTick clock enter).Answered fut state := by
  by_cases hflushes : s.core.Flushes enter
  · obtain ⟨u, hu, heq⟩ := startTick_rule (I := PairedTo s g) clock hidle hflushes
      (hkeeps hflushes) ⟨h.answered, fun _ _ => rfl⟩ fun _ _ _ _ hmidway hcq htakes hpaired =>
        hpaired.next h.issued hmidway hcq htakes
    rw [heq] at hstate ⊢
    exact (hu.answered fut state hg hstate).mono List.prefix_rfl fun _ => id
  · rw [startTick_unflushed hflushes] at hstate ⊢
    exact (h.answered fut state hg hstate).mono List.prefix_rfl fun _ => id

/-- The futures that are awaited already. -/
theorem PairsKept.answered_step (h : s.PairsKept g) (hkeeps : KeepsPairs (s, g) a)
    (hstep : s.step a = some t) {fut : FutId} {state : FutState} (hg : g fut = true)
    (hstate : t.futState fut = some state) : t.Answered fut state := by
  by_cases hticks : s.Ticks a
  · obtain ⟨clock, enter, rfl, -, hidle⟩ := hticks
    obtain ⟨-, rfl⟩ := step_startTick.mp hstep
    exact h.startTick hidle hkeeps hg hstate
  · obtain ⟨-, hissued, hdrained⟩ := histories_step h.accepts.core hstep
    rcases futState_step h.accepts.core hstep hticks (h.known fut hg) with
      hsame | ⟨hwaits, state', hstate', hsettled⟩
    · exact (h.answered fut state hg (hsame.symm.trans hstate)).mono hissued hdrained.subset
    · obtain rfl : state' = state := Option.some_inj.mp (hstate'.symm.trans hstate)
      cases hsettled with
      | cancelled ha => trivial
      | @handler r kind _ hr hsettles hfut =>
        obtain ⟨rfl, rest, hresults⟩ := hr
        obtain ⟨c, hc, hmem, hseen⟩ := h.accepts.tied.handled hresults
        have hresolves : ResolvesMsg (s, g) r c := by
          apply hkeeps r _ c hc
          rw [hresults]
          rfl
        exact (hresolves.answered h.issued hmem hseen hsettles hfut hg hwaits).mono hissued
          hdrained.subset

omit [LE T] [DecidableLE T] in
/-- A future that is awaited was so before, or is the new one of a `sock_recvfrom`. -/
theorem Recvfroms.upd_cases {fut : FutId} (h : Recvfroms.upd s a t g fut = true) :
    g fut = true ∨ fut = s.futs.length ∧ ∃ fd k env, a = .call (.sockRecvfrom fd k) env := by
  unfold Recvfroms.upd at h
  split at h
  · rename_i fd k env
    split at h
    · rw [Bool.or_eq_true, decide_eq_true_iff] at h
      exact h.symm.imp_right fun hnew => ⟨hnew, fd, k, env, rfl⟩
    · exact .inl h
  · exact .inl h

/-- What is owed by a completion that was processed before was owed before. -/
theorem PairsKept.owed_before (h : s.PairsKept g) (hstep : s.step a = some t) {c : Cqe}
    (hc : c ∈ s.drained) (howes : OwesMsg (t, Recvfroms.upd s a t g) c) : OwesMsg (s, g) c := by
  obtain ⟨fut, hown, hg, hwaits⟩ := howes
  obtain ⟨-, ⟨new, hissued⟩, -⟩ := histories_step h.accepts.core hstep
  obtain ⟨fd, hfd⟩ := recvfrom?_eq_some.mp hown
  obtain ⟨req, hreq, -⟩ := h.issued.drained c hc
  rw [← hissued, List.getElem?_append_left (List.getElem?_eq_some_iff.mp hreq).1] at hfd
  have hlt : fut < s.futs.length := h.issued.created _ (List.mem_of_getElem? hfd) fut rfl
  refine ⟨fut, recvfrom?_eq_some.mpr ⟨fd, hfd⟩, ?_, waits_before h.accepts.core hstep hlt hwaits⟩
  rcases Recvfroms.upd_cases (t := t) hg with hold | ⟨rfl, -⟩
  · exact hold
  · exact absurd hlt (Nat.lt_irrefl _)

omit [LE T] [DecidableLE T] in
theorem KeepsPairs.noneOwed (hkeeps : KeepsPairs (s, g) a) (hdrops : s.Drops a) :
    ∀ c ∈ s.waiting, ¬ OwesMsg (s, g) c := by
  cases a with
  | ret q env =>
    obtain ⟨frame, hframe, haborts⟩ := hdrops
    exact hkeeps frame hframe haborts
  | rearmAccept env => exact hkeeps.resolve_left hdrops
  | _ => cases hdrops

theorem PairsKept.owed_step (h : s.PairsKept g) (hkeeps : KeepsPairs (s, g) a)
    (hstep : s.step a = some t) {c : Cqe} (hc : c ∈ t.drained)
    (howes : OwesMsg (t, Recvfroms.upd s a t g) c) : c ∈ t.waiting := by
  have hold (hc : c ∈ s.drained) : c ∈ s.waiting := h.owed c hc (h.owed_before hstep hc howes)
  cases turn_of_step h.accepts hstep with
  | ticked hticks hwaiting hdrained =>
    rw [hdrained, List.mem_append] at hc
    rw [hwaiting]
    refine hc.resolve_left fun hc => ?_
    -- nothing waits when a tick begins
    obtain ⟨_, _, -, -, hidle⟩ := hticks
    simp only [idle, Bool.and_eq_true, List.isEmpty_iff] at hidle
    have hmem := hold hc
    rw [waiting_nil hidle.2] at hmem
    cases hmem
  | @handled r c' hr hhandled hmem hseen hwaiting hdrained =>
    rw [hdrained] at hc
    have hmem' := hold hc
    rw [hwaiting] at hmem'
    rcases List.mem_cons.mp hmem' with rfl | hmem'
    · obtain ⟨fut, hown, hg, hwaits⟩ := h.owed_before hstep hc howes
      have hop := h.issued.opType_recvmsg hc hseen hown
      have hresolves : ResolvesMsg (s, g) r c := by
        obtain ⟨rfl, rest, hresults⟩ := hr
        apply hkeeps r _ c hhandled
        rw [hresults]
        rfl
      have hdone := futState_handled hstep hr (.inr hop) (settles_recvmsg hop)
        (hresolves.own fut hown hg hwaits) hwaits
      obtain ⟨fut', hown', -, hwaits'⟩ := howes
      obtain ⟨-, hissued, -⟩ := histories_step h.accepts.core hstep
      obtain rfl : fut = fut' := Option.some_inj.mp ((recvfrom?_mono hissued hown).symm.trans hown')
      exact absurd (Option.some_inj.mp (hdone.symm.trans hwaits')) (settles_ne_pending (settles_recvmsg hop))
    · exact hmem'
  | kept hticks hhandles hwaiting hdrained =>
    rw [hwaiting]
    exact hold (hdrained ▸ hc)
  | dropped hticks hhandles hdrops hresults hdrained =>
    have hc : c ∈ s.drained := hdrained ▸ hc
    exact absurd (h.owed_before hstep hc howes) (hkeeps.noneOwed hdrops c (hold hc))

theorem PairsKept.step (h : s.PairsKept g) (hkeeps : KeepsPairs (s, g) a) (hstep : s.step a = some t) :
    t.PairsKept (Recvfroms.upd s a t g) := by
  obtain ⟨hlength, -, -⟩ := histories_step h.accepts.core hstep
  refine ⟨h.accepts.step hstep, h.issued.step h.accepts.core hstep, ?_, ?_,
    fun c hc => h.owed_step hkeeps hstep hc⟩
  · intro fut hfut
    rcases Recvfroms.upd_cases hfut with hold | ⟨rfl, fd, k, env, rfl⟩
    · exact (h.known fut hold).trans_le hlength
    · obtain ⟨-, rfl⟩ := step_call.mp hstep
      show s.futs.length < (s.futs ++ [_]).length
      rw [List.length_append]
      exact Nat.lt_succ_self _
  · intro fut state hfut hstate
    rcases Recvfroms.upd_cases (t := t) hfut with hold | ⟨rfl, fd, k, env, rfl⟩
    · exact h.answered_step hkeeps hstep hold hstate
    · -- a new future waits
      obtain ⟨-, rfl⟩ := step_call.mp hstep
      have hpending : (s.call env (.sockRecvfrom fd k)).futState s.futs.length = some .pending := by
        show ((s.futs ++ [_])[s.futs.length]?).map AsyncFuture.state = _
        rw [List.getElem?_concat_length]
        rfl
      cases hpending.symm.trans hstate
      trivial

def recvfromMachine : Machine (EventLoop K T × Recvfroms × Wakes K) (Act K T) :=
  machine.ghost fun s a t g => (Recvfroms.upd s a t g.1, Wakes.upd s a t g.2)

/-- `KeepsPairs`, and no task that a result has woken is lost. -/
def KeepsRecvfrom (x : EventLoop K T × Recvfroms × Wakes K) (a : Act K T) : Prop :=
  KeepsPairs (x.1, x.2.1) a ∧ KeepsWakes (x.1, x.2.2) a

instance [DecidableEq K] (x : EventLoop K T × Recvfroms × Wakes K) (a : Act K T) :
    Decidable (KeepsRecvfrom x a) :=
  inferInstanceAs (Decidable (_ ∧ _))

/-- **`sock_recvfrom` returns pairs.** In a run whose ticks and handlers resolve the futures of
`sock_recvfrom` for their own completions, and those for messages that they can answer, every result
is the payload with the sender, none is missing, and who awaits it goes on. -/
theorem received_pairs {setup : Setup} {bufferSize bufferCount : Nat}
    {core : UringCore FutId (Handle K) T} (hnew : UringCore.new setup bufferSize bufferCount = .ok core)
    {acts : List (Act K T)} {x : EventLoop K T × Recvfroms × Wakes K}
    (hkeeps : recvfromMachine.Meets KeepsRecvfrom (init core, Recvfroms.init, Wakes.init) acts)
    (hrun : recvfromMachine.run (init core, Recvfroms.init, Wakes.init) acts = some x) :
    ReceivesPairs (x.1, x.2.1) ∧ x.1.TasksResumed x.2.2 := by
  have hend := Machine.run_invariant (M := recvfromMachine)
    (I := fun x : EventLoop K T × Recvfroms × Wakes K => x.1.PairsKept x.2.1 ∧ x.1.Woken x.2.2)
    ?_ ?_ hkeeps hrun
  · refine ⟨⟨hend.1.answered, fun hresults c hc howes => ?_⟩, hend.2.resumes⟩
    have hmem := hend.1.owed c hc howes
    rw [waiting_nil hresults] at hmem
    cases hmem
  · rintro ⟨s, g⟩ a ⟨t, g'⟩ h hk hstep
    obtain ⟨hnext, rfl⟩ := Machine.ghost_step_mk.mp hstep
    exact ⟨h.1.step hk.1 hnext, h.2.step h.1.accepts.core hnext hk.2⟩
  · refine ⟨?_, .init core⟩
    exact ⟨acceptsSound_init hnew, .init hnew, by rintro fut ⟨⟩, by rintro fut state ⟨⟩, by rintro c ⟨⟩⟩

end

end

/-! ## Runs -/

/-- A datagram arrives for a `sock_recvfrom` on fd 5. -/
def datagramRun (payload : Payload) : List (Act Unit Nat) :=
  [.call (.sockRecvfrom 5 ()) ⟨0, .ok 1⟩, .complete 0 payload false false, .startTick 0 (.ok 0),
    .runHandle, .ret (.value true) ⟨0, .ok 1⟩, .handleCompletion]

/-- From port 53 of 127.0.0.1. -/
def inetDatagram (bytes : Bytes) : Payload :=
  .msg bytes (.inet (swap16 53) (swap32 0x7F000001)) 16

theorem received_pairs_inet : ∃ core x, UringCore.new Setup.plain 16 4 = .ok core ∧
    recvfromMachine.run (init core, Recvfroms.init, Wakes.init) (datagramRun (inetDatagram [1])) = some x ∧
    ReceivesPairs (x.1, x.2.1) ∧ x.1.TasksResumed x.2.2 ∧ x.2.1 0 = true ∧
    x.1.futState 0 = some (.result (.data (.msg [1] (.inet 0x7F000001 53)))) := by
  obtain ⟨hpairs, hresumed⟩ := received_pairs (show UringCore.new Setup.plain 16 4 = .ok _ from rfl)
    (by decide) (show recvfromMachine.run _ (datagramRun (inetDatagram [1])) = some _ from rfl)
  exact ⟨_, _, rfl, rfl, hpairs, hresumed, rfl, rfl⟩

/-- An empty datagram gives `b""`, and one from an unnamed Unix socket gives its data without a pair.
A path that is no text does not come back. -/
theorem not_received_pairs : ∃ core x y z, UringCore.new Setup.plain 16 4 = .ok core ∧
    recvfromMachine.run (init core, Recvfroms.init, Wakes.init) (datagramRun (inetDatagram [])) = some x ∧
    x.1.futState 0 = some (.result (.data (.bytes []))) ∧ ¬ ReceivesPairs (x.1, x.2.1) ∧
    recvfromMachine.run (init core, Recvfroms.init, Wakes.init) (datagramRun (.msg [1] .unspec 0)) = some y ∧
    y.1.futState 0 = some (.result (.data (.bytes [1]))) ∧ ¬ ReceivesPairs (y.1, y.2.1) ∧
    recvfromMachine.run (init core, Recvfroms.init, Wakes.init)
      (datagramRun (.msg [1] (.unix (0xFF :: List.replicate 107 0)) 4)) = some z ∧
    (Sender.named [0xFF]).Reports (.unix (0xFF :: List.replicate 107 0)) 4 ∧
    z.1.futState 0 = some (.result (.data (.msg [1] (.path [0xEF, 0xBF, 0xBD])))) ∧
    ¬ ReceivesPairs (z.1, z.2.1) := by
  have hbare {x : EventLoop Unit Nat × Recvfroms × Wakes Unit} {bytes : Bytes} (hg : x.2.1 0 = true)
      (hv : x.1.futState 0 = some (.result (.data (.bytes bytes)))) : ¬ ReceivesPairs (x.1, x.2.1) := by
    intro h
    obtain ⟨c, -, -, _, _, _, _, -, hpair, -⟩ := h.answered 0 _ hg hv
    cases hpair
  have hreports : (Sender.named [0xFF]).Reports (.unix (0xFF :: List.replicate 107 0)) 4 :=
    ⟨by decide, by decide, by decide, rfl, List.replicate 107 0, rfl, fun _ => rfl⟩
  refine ⟨_, _, _, _, rfl, rfl, rfl, hbare rfl rfl, rfl, rfl, hbare rfl rfl, rfl, hreports, rfl, ?_⟩
  intro h
  obtain ⟨c, hc, -, bytes, addr, namelen, a, hpayload, hpair, hsender⟩ := h.answered 0 _ rfl rfl
  obtain rfl := List.mem_singleton.mp hc
  cases hpayload
  cases hpair
  cases hsender _ hreports

end EventLoop

end Uringcore
