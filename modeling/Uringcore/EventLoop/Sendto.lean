import Uringcore.EventLoop.System

/-!
# `sock_sendto`

The coroutine over the loop, with its stops: the direct attempt, the submitted operation that it
awaits, the writer it waits for before it tries again. It goes on when its handle of the batch is
executed, so after `run_tick` has resolved its future and, unless a handler has resolved it, before
`_process_completions` takes it out of `_io_futures`. `tries` is a history of what the attempts came
to. A task that is cancelled is left out, and so is the debug mode, in which the first line calls a
`_check_socket` that does not exist.

The `except` of a submitted operation evaluates `errno.EAGAIN`, and the module does not import
`errno`: `sends_iff` says which runs do without.
-/

namespace Uringcore

/-- The global names of the module. -/
def loopGlobals : List String :=
  ["asyncio", "os", "select", "socket", "subprocess", "ssl", "time", "Any", "Callable", "Optional",
    "TypeVar", "IO", "cast", "PathLike", "UringCore", "UringFuture", "UringHandle",
    "SubprocessTransport", "ReadPipeTransport", "WritePipeTransport", "SSLTransport", "_ProtocolT",
    "UringEventLoop"]

/-- Look up a name that is no built-in. -/
def loadGlobal (name : String) : Except PyErr Unit :=
  if loopGlobals.contains name then .ok () else .error (.nameError s!"name '{name}' is not defined")

/-- How an attempt to send ends, and how the coroutine does. -/
inductive SendtoResult where
  | returned (v : Value)
  | raised (e : PyErr)
  deriving DecidableEq, Repr

namespace SendtoResult

def isReturned : SendtoResult → Bool
  | returned _ => true
  | raised _ => false

/-- An errno after which the coroutine is to try again. -/
def retryable : SendtoResult → Bool
  | raised (.osError (some errno)) => [eagain, ewouldblock, enobufs].contains errno
  | _ => false

end SendtoResult

/-- `e.errno in (errno.EAGAIN, errno.EWOULDBLOCK, errno.ENOBUFS)`. -/
def errnoRetries (errno : Option Int) : Except PyErr Bool :=
  (loadGlobal "errno").map fun _ => [some eagain, some ewouldblock, some enobufs].contains errno

structure SendtoEnd where
  result : SendtoResult
  /-- The future of its last submission is in `_io_futures`. -/
  entryLeft : Bool
  writerLeft : Bool
  deriving DecidableEq, Repr

inductive SendtoAt where
  | start
  /-- `await fut`. -/
  | awaiting (fut : FutId)
  /-- `await waiter`. -/
  | waiting
  | ended (e : SendtoEnd)
  deriving DecidableEq, Repr

def SendtoAt.awaiting? : SendtoAt → Option FutId
  | awaiting fut => some fut
  | _ => none

/-- An attempt, and whether the coroutine had waited for the socket to be writable before it. -/
structure Try where
  outcome : SendtoResult
  waited : Bool
  deriving DecidableEq, Repr

structure Sendto (K T : Type) where
  loop : EventLoop K T
  pc : SendtoAt
  /-- The writer of this call is registered. -/
  writer : Bool
  waited : Bool
  tries : List Try

/-- The arguments of the call, and the handle that wakes its task. -/
structure SendtoCall (K : Type) where
  fd : Fd
  data : Bytes
  addr : AddrArg
  wake : K

namespace Sendto
variable {K T : Type}

def init (core : UringCore FutId (Handle K) T) : Sendto K T := ⟨.init core, .start, false, false, []⟩

variable (call : SendtoCall K)

/-- `fut` is stored for the call's descriptor. -/
def entryOf (fut : Option FutId) (x : Sendto K T) : Bool :=
  fut.isSome && x.loop.ioLookup call.fd .sendmsg = fut

def record (outcome : SendtoResult) (x : Sendto K T) : Sendto K T :=
  { x with tries := x.tries ++ [⟨outcome, x.waited⟩] }

def finish (fut : Option FutId) (result : SendtoResult) (x : Sendto K T) : Sendto K T :=
  { x with pc := .ended ⟨result, x.entryOf call fut, x.writer⟩ }

def popIo (x : Sendto K T) : Sendto K T := { x with loop := x.loop.popIo call.fd .sendmsg }

/-- The `except` clauses of the loop's `try`. -/
def caught (fut : FutId) (e : PyErr) (x : Sendto K T) : Sendto K T :=
  match e with
  -- no `Exception`
  | .panic _ => x.finish call (some fut) (.raised e)
  | .osError errno =>
      let x := x.popIo call
      match errnoRetries errno with
      | .ok true => { x with pc := .waiting, writer := true }
      | .ok false => x.finish call (some fut) (.raised e)
      | .error e' => x.finish call (some fut) (.raised e')
  | _ => (x.popIo call).finish call (some fut) (.raised e)

/-- The body of `while True` up to the first `await`. -/
def submit (env : Env) (x : Sendto K T) : Sendto K T :=
  let fut := x.loop.futs.length
  match x.loop.sockOp env none .sendmsg call.wake (.sendto call.data call.addr) call.fd with
  | (loop, .ok ()) => { x with loop, pc := .awaiting fut }
  | (loop, .error e) => ({ x with loop }.record (.raised e)).caught call fut e

/-- `await fut` is over. -/
def resumed (fut : FutId) (outcome : SendtoResult) (x : Sendto K T) : Sendto K T :=
  let x := x.record outcome
  match outcome with
  | .returned _ => x.finish call (some fut) outcome
  | .raised e => x.caught call fut e

/-- What awaiting a future gives, unless it is pending or cancelled. -/
def awaited? (fut : FutId) (x : Sendto K T) : Option SendtoResult :=
  match (x.loop.futs[fut]?).map AsyncFuture.state with
  | some (.result v) => some (.returned v)
  | some (.exception errno) => some (.raised (.osError (some errno)))
  | _ => none

inductive Act (K T : Type) where
  | loop (a : EventLoop.Act K T)
  /-- `sock.sendto` has sent `n` bytes. -/
  | directSent (n : Nat)
  | directFailed (errno : Int) (env : Env)
  /-- The handle that wakes the task is executed, the future being done. -/
  | resume
  /-- The task is woken because the socket is writable. -/
  | writable (env : Env)

section
variable [DecidableEq K] [LE T] [DecidableLE T]

def step (x : Sendto K T) : Act K T → Option (Sendto K T)
  | .loop a => (x.loop.step a).map fun loop => { x with loop }
  | .directSent n => if x.pc = .start ∧ x.loop.programRuns then
      let outcome := .returned (.data (.int n))
      some ((x.record outcome).finish call none outcome) else none
  | .directFailed errno env => if x.pc = .start ∧ x.loop.programRuns then
      let e := PyErr.osError (some errno)
      let x := x.record (.raised e)
      some (if e.isBlockingIOError then x.submit call env else x.finish call none (.raised e)) else none
  | .resume => match x.pc, x.loop.stack, x.loop.batch with
      | .awaiting fut, [], .user k :: rest => if k = call.wake then
          (x.awaited? fut).map fun outcome =>
            { x with loop := { x.loop with batch := rest, stack := [.user] } }.resumed call fut outcome
          else none
      | _, _, _ => none
  | .writable env => if x.pc = .waiting ∧ x.loop.programRuns then
      some ({ x with writer := false, waited := true }.submit call env) else none

def machine : Machine (Sendto K T) (Act K T) := ⟨step call⟩

end

/-! ## What the coroutine is to do -/

/-- The first attempt is the direct one, and the one after it needs no wait: the ring sends when it
can. -/
structure Sends (x : Sendto K T) : Prop where
  waits : ∀ t ∈ x.tries.drop 2, t.waited = true
  /-- It goes on after what is to be retried only. -/
  retries : (∀ e, x.pc ≠ .ended e) → ∀ t ∈ x.tries, t.outcome.retryable = true
  ends : ∀ e, x.pc = .ended e → e.entryLeft = false ∧ e.writerLeft = false ∧
    ∃ before t, x.tries = before ++ [t] ∧ (∀ t' ∈ before, t'.outcome.retryable = true) ∧
      t.outcome.retryable = false ∧ e.result = t.outcome

/-- The attempts that the code is right about: a direct attempt that does not end in `ENOBUFS` (it is
not tried again) nor in `EALREADY` or `EINPROGRESS` (it is), and an operation that succeeds and was
resolved by its handler. -/
def KeepsSends (x : Sendto K T) : Act K T → Prop
  | .directFailed errno _ => errno ≠ enobufs ∧ errno ≠ ealready ∧ errno ≠ einprogress
  | .resume => ∀ fut ∈ x.pc.awaiting?,
      (x.awaited? fut).any SendtoResult.isReturned = true ∧ x.entryOf call (some fut) = false
  | _ => True

instance (x : Sendto K T) : ∀ a, Decidable (x.KeepsSends call a)
  | .directFailed .. => inferInstanceAs (Decidable (_ ∧ _ ∧ _))
  | .resume => inferInstanceAs (Decidable (∀ fut ∈ x.pc.awaiting?, _))
  | .loop _ | .directSent _ | .writable _ => isTrue trivial

/-! ## What the `except` clauses do -/

/-- The core refuses with no `OSError`. -/
theorem request_sendto_error {env : Env} {fd : Fd} {data : Bytes} {addr : AddrArg} {fut : FutId}
    {s t : EventLoop K T} {e : PyErr} (h : s.request env fd (.sendto data addr fut) = (t, .error e)) :
    e.isPlain = true := by
  have h : (s.core.submitSendto env.enter fd data addr fut).2 = .error e := congrArg Prod.snd h
  unfold UringCore.submitSendto at h
  split at h
  · rename_i e' haddr
    cases h
    exact buildSockaddr_error haddr
  · dsimp only at h
    split at h
    · cases h
      rfl
    · split at h
      · rename_i hsubmit
        cases h
        have hsubmit := congrArg Prod.snd hsubmit
        simp only [UringCore.submit] at hsubmit
        split at hsubmit
        · cases hsubmit
        · cases hsubmit
          rfl
      · cases h

variable {call} {x y : Sendto K T}

@[simp] theorem entryOf_popIo (fut : Option FutId) : (x.popIo call).entryOf call fut = false := by
  cases fut <;> simp [entryOf, popIo, EventLoop.popIo, EventLoop.ioLookup]

@[simp] theorem entryOf_none : x.entryOf call none = false := rfl

theorem caught_plain {e : PyErr} (h : e.isPlain = true) (fut : FutId) :
    x.caught call fut e = { x.popIo call with pc := .ended ⟨.raised e, false, x.writer⟩ } := by
  cases e with
  | osError errno => cases h
  | panic msg => cases h
  | _ =>
    simp only [caught, finish, entryOf_popIo]
    rfl

/-- What an error of the operation ends in. -/
theorem caught_osError (errno : Option Int) (fut : FutId) :
    x.caught call fut (.osError errno) = { x.popIo call with
      pc := .ended ⟨.raised (.nameError "name 'errno' is not defined"), false, x.writer⟩ } := by
  have hname : errnoRetries errno = .error (.nameError "name 'errno' is not defined") := rfl
  simp only [caught, hname, finish, entryOf_popIo]
  rfl

/-! ## One step -/

/-- What is true whatever the attempts come to. -/
structure Waits (x : Sendto K T) : Prop where
  tries : ∀ t ∈ x.tries.drop 2, t.waited = true
  start : x.pc = .start → x.tries = []
  /-- An attempt that is under way is one of the first two or was waited for. -/
  next : ∀ fut, x.pc = .awaiting fut → 2 ≤ x.tries.length → x.waited = true
  writer : x.pc = .start ∨ (∃ fut, x.pc = .awaiting fut) → x.writer = false

theorem sends_going (hpc : ∀ e, x.pc ≠ .ended e) (hwaits : ∀ t ∈ x.tries.drop 2, t.waited = true) :
    x.Sends ↔ ∀ t ∈ x.tries, t.outcome.retryable = true :=
  ⟨fun h => h.retries hpc, fun h => ⟨hwaits, fun _ => h, fun e he => absurd he (hpc e)⟩⟩

theorem sends_ended {e : SendtoEnd} {before : List Try} {t : Try} (hpc : x.pc = .ended e)
    (htries : x.tries = before ++ [t]) (hwaits : ∀ t ∈ x.tries.drop 2, t.waited = true) :
    x.Sends ↔ e.entryLeft = false ∧ e.writerLeft = false ∧
      (∀ t' ∈ before, t'.outcome.retryable = true) ∧ t.outcome.retryable = false ∧
      e.result = t.outcome := by
  constructor
  · intro h
    obtain ⟨hentry, hwriter, before', t', htries', hbefore, hlast, hresult⟩ := h.ends e hpc
    obtain ⟨rfl, ht⟩ := List.append_inj' (htries.symm.trans htries') rfl
    cases ht
    exact ⟨hentry, hwriter, hbefore, hlast, hresult⟩
  · rintro ⟨hentry, hwriter, hbefore, hlast, hresult⟩
    refine ⟨hwaits, fun hgoing => absurd hpc (hgoing e), fun e' he' => ?_⟩
    cases hpc.symm.trans he'
    exact ⟨hentry, hwriter, before, t, htries, hbefore, hlast, hresult⟩

theorem drop_two_concat {before : List Try} {t : Try} (hbefore : ∀ t ∈ before.drop 2, t.waited = true)
    (ht : 2 ≤ before.length → t.waited = true) : ∀ t' ∈ (before ++ [t]).drop 2, t'.waited = true := by
  intro t' ht'
  rw [List.drop_append] at ht'
  rcases List.mem_append.mp ht' with hmem | hmem
  · exact hbefore t' hmem
  · have hmem' := List.mem_of_mem_drop hmem
    rw [List.mem_singleton] at hmem'
    subst hmem'
    apply ht
    by_contra hshort
    have : 2 - before.length ≠ 0 := by omega
    have hnil : [t'].drop (2 - before.length) = [] :=
      List.drop_eq_nil_of_le (by simp only [List.length_singleton]; omega)
    rw [hnil] at hmem
    cases hmem

theorem Waits.ended {e : SendtoEnd} (hpc : x.pc = .ended e)
    (htries : ∀ t ∈ x.tries.drop 2, t.waited = true) : x.Waits where
  tries := htries
  start hstart := by cases hpc.symm.trans hstart
  next fut hfut := by cases hpc.symm.trans hfut
  writer := by
    rintro (hstart | ⟨fut, hfut⟩)
    · cases hpc.symm.trans hstart
    · cases hpc.symm.trans hfut

variable (call) in
/-- The body of the loop, up to its first stop. -/
theorem submit_step (env : Env) (hwriter : x.writer = false)
    (htries : ∀ t ∈ x.tries.drop 2, t.waited = true) (hnext : 2 ≤ x.tries.length → x.waited = true) :
    (x.submit call env).Waits ∧
      ((x.submit call env).Sends ↔ ∀ t ∈ x.tries, t.outcome.retryable = true) := by
  unfold submit
  dsimp only
  split
  · rename_i loop hsock
    constructor
    · exact ⟨htries, by rintro ⟨⟩, fun _ _ => hnext, fun _ => hwriter⟩
    · exact sends_going (by rintro e ⟨⟩) htries
  · -- no attempt was made; the call ends with the core's own error
    rename_i loop e hsock
    have hplain : e.isPlain = true := request_sendto_error hsock
    have hconcat := drop_two_concat (t := ⟨.raised e, x.waited⟩) htries hnext
    rw [caught_plain hplain]
    refine ⟨.ended rfl hconcat, ?_⟩
    rw [sends_ended (e := ⟨.raised e, false, x.writer⟩) rfl rfl hconcat]
    have hlast : (SendtoResult.raised e).retryable = false := by cases e <;> first | rfl | cases hplain
    simp only [hwriter, hlast, and_self, and_true, true_and]

variable (call) in
/-- The operation is over. -/
theorem resumed_step (fut : FutId) {outcome : SendtoResult} (hwriter : x.writer = false)
    (htries : ∀ t ∈ x.tries.drop 2, t.waited = true) (hnext : 2 ≤ x.tries.length → x.waited = true)
    (herror : ∀ e, outcome = .raised e → ∃ errno, e = .osError errno) :
    (x.resumed call fut outcome).Waits ∧ ((x.resumed call fut outcome).Sends ↔
      (∀ t ∈ x.tries, t.outcome.retryable = true) ∧ outcome.isReturned = true ∧
        x.entryOf call (some fut) = false) := by
  have hconcat := drop_two_concat (t := ⟨outcome, x.waited⟩) htries hnext
  cases outcome with
  | returned v =>
    refine ⟨.ended rfl hconcat, ?_⟩
    rw [resumed, sends_ended (e := ⟨.returned v, x.entryOf call (some fut), x.writer⟩) rfl rfl hconcat]
    have hlast : (SendtoResult.returned v).retryable = false := rfl
    simp only [hwriter, hlast, SendtoResult.isReturned, and_true, true_and]
    exact and_comm
  | raised e =>
    -- whichever errno it is, the `NameError` is what the caller gets
    obtain ⟨errno, rfl⟩ := herror e rfl
    rw [resumed, caught_osError]
    refine ⟨.ended rfl hconcat, iff_of_false ?_ ?_⟩
    · intro h
      cases ((sends_ended rfl rfl hconcat).mp h).2.2.2.2
    · rintro ⟨-, ⟨⟩, -⟩

variable (call) in
/-- The direct attempt ends the call. -/
theorem direct_ended (h : x.Waits) (hpc : x.pc = .start) (outcome : SendtoResult) :
    ((x.record outcome).finish call none outcome).Waits ∧
      (((x.record outcome).finish call none outcome).Sends ↔ outcome.retryable = false) := by
  have htries : (x.record outcome).tries = [⟨outcome, x.waited⟩] := by simp [record, h.start hpc]
  have hwaits : ∀ t ∈ (x.record outcome).tries.drop 2, t.waited = true := by
    rw [htries]
    rintro t ⟨⟩
  refine ⟨.ended rfl hwaits, ?_⟩
  have hwriter : (x.record outcome).writer = false := h.writer (.inl hpc)
  rw [sends_ended rfl (show ((x.record outcome).finish call none outcome).tries = [] ++ [_] from htries) hwaits]
  simp [hwriter]

/-- Before its direct attempt the call has gone right. -/
theorem Waits.sends_start (h : x.Waits) (hpc : x.pc = .start) : x.Sends := by
  refine (sends_going (by rw [hpc]; rintro e ⟨⟩) h.tries).mpr ?_
  rw [h.start hpc]
  rintro t ⟨⟩

theorem errno_retryable_iff {errno : Int}
    (hblocks : (PyErr.osError (some errno)).isBlockingIOError = true) :
    (SendtoResult.raised (.osError (some errno))).retryable = true ↔
      errno ≠ enobufs ∧ errno ≠ ealready ∧ errno ≠ einprogress := by
  simp only [PyErr.isBlockingIOError, SendtoResult.retryable, List.contains_iff_mem, List.mem_cons,
    List.not_mem_nil, or_false, eagain, ewouldblock, enobufs, ealready, einprogress] at hblocks ⊢
  omega

theorem errno_not_retryable_iff {errno : Int}
    (hblocks : ¬ (PyErr.osError (some errno)).isBlockingIOError = true) :
    (SendtoResult.raised (.osError (some errno))).retryable = false ↔
      errno ≠ enobufs ∧ errno ≠ ealready ∧ errno ≠ einprogress := by
  rw [← Bool.not_eq_true]
  simp only [PyErr.isBlockingIOError, SendtoResult.retryable, List.contains_iff_mem, List.mem_cons,
    List.not_mem_nil, or_false, eagain, ewouldblock, enobufs, ealready, einprogress] at hblocks ⊢
  omega

/-- What the future gives is a value or an `OSError`. -/
theorem awaited_osError {fut : FutId} {outcome : SendtoResult} (h : x.awaited? fut = some outcome)
    {e : PyErr} (he : outcome = .raised e) : ∃ errno, e = .osError errno := by
  unfold awaited? at h
  split at h
  · cases h
    cases he
  · cases h
    cases he
    exact ⟨_, rfl⟩
  · cases h

section
variable [DecidableEq K] [LE T] [DecidableLE T]

theorem step_resume : x.step call .resume = some y ↔ ∃ fut rest outcome, x.pc = .awaiting fut ∧
    x.loop.stack = [] ∧ x.loop.batch = .user call.wake :: rest ∧ x.awaited? fut = some outcome ∧
    { x with loop := { x.loop with batch := rest, stack := [.user] } }.resumed call fut outcome = y := by
  constructor
  · intro hstep
    simp only [step] at hstep
    split at hstep
    · rename_i fut k rest hpc hstack hbatch
      split at hstep
      · rename_i hk
        obtain ⟨outcome, houtcome, hy⟩ := Option.map_eq_some_iff.mp hstep
        exact ⟨fut, rest, outcome, hpc, hstack, hk ▸ hbatch, houtcome, hy⟩
      · cases hstep
    · cases hstep
  · rintro ⟨fut, rest, outcome, hpc, hstack, hbatch, houtcome, rfl⟩
    simp [step, hpc, hstack, hbatch, houtcome]

theorem sends_step (x : Sendto K T) (a : Act K T) (y : Sendto K T) (h : x.Waits)
    (hstep : x.step call a = some y) : y.Waits ∧ (y.Sends ↔ x.Sends ∧ x.KeepsSends call a) := by
  cases a with
  | loop a =>
    obtain ⟨loop, -, rfl⟩ := Option.map_eq_some_iff.mp hstep
    refine ⟨⟨h.tries, h.start, h.next, h.writer⟩, ?_⟩
    exact ⟨fun hs => ⟨⟨hs.waits, hs.retries, hs.ends⟩, trivial⟩,
      fun hs => ⟨hs.1.waits, hs.1.retries, hs.1.ends⟩⟩
  | directSent n =>
    obtain ⟨⟨hpc, -⟩, hy⟩ := Option.ite_none_right_eq_some.mp hstep
    obtain rfl := Option.some_inj.mp hy
    obtain ⟨hwaits, hiff⟩ := direct_ended call h hpc (.returned (.data (.int n)))
    exact ⟨hwaits, iff_of_true (hiff.mpr rfl) ⟨h.sends_start hpc, trivial⟩⟩
  | directFailed errno env =>
    obtain ⟨⟨hpc, -⟩, hy⟩ := Option.ite_none_right_eq_some.mp hstep
    obtain rfl := Option.some_inj.mp hy
    rw [and_iff_right (h.sends_start hpc)]
    -- an errno goes wrong on one side only: `ENOBUFS` is no `BlockingIOError`, and two are that are not to be
    -- retried
    split
    · -- the first operation is submitted
      rename_i hblocks
      have htries : (x.record (.raised (.osError (some errno)))).tries =
          [⟨.raised (.osError (some errno)), x.waited⟩] := by simp [record, h.start hpc]
      have hsubmit := submit_step call (x := x.record (.raised (.osError (some errno)))) env
        (h.writer (.inl hpc)) (by rw [htries]; rintro t ⟨⟩)
        (by rw [htries, List.length_singleton]; exact fun hlen => absurd hlen (by decide))
      refine ⟨hsubmit.1, hsubmit.2.trans ?_⟩
      rw [htries, List.forall_mem_singleton]
      exact errno_retryable_iff hblocks
    · rename_i hblocks
      obtain ⟨hwaits, hiff⟩ := direct_ended call h hpc (.raised (.osError (some errno)))
      exact ⟨hwaits, hiff.trans (errno_not_retryable_iff hblocks)⟩
  | resume =>
    obtain ⟨fut, rest, outcome, hpc, -, -, houtcome, rfl⟩ := step_resume.mp hstep
    have hresumed := resumed_step call fut
      (x := { x with loop := { x.loop with batch := rest, stack := [.user] } })
      (h.writer (.inr ⟨fut, hpc⟩)) h.tries (h.next fut hpc) fun _ => awaited_osError houtcome
    refine ⟨hresumed.1, hresumed.2.trans ?_⟩
    rw [sends_going (by rw [hpc]; rintro e ⟨⟩) h.tries, KeepsSends, hpc]
    simp only [SendtoAt.awaiting?, Option.mem_some_iff, forall_eq', houtcome, Option.any_some]
    rfl
  | writable env =>
    obtain ⟨⟨hpc, -⟩, hy⟩ := Option.ite_none_right_eq_some.mp hstep
    obtain rfl := Option.some_inj.mp hy
    have hsubmit := submit_step call (x := { x with writer := false, waited := true }) env rfl
      h.tries fun _ => rfl
    refine ⟨hsubmit.1, hsubmit.2.trans ?_⟩
    rw [sends_going (by rw [hpc]; rintro e ⟨⟩) h.tries]
    exact (and_iff_left trivial).symm

end

/-- Two bytes for port 53. -/
def twoBytes : SendtoCall Nat := ⟨7, [1, 2], .tuple2 (some 0x7F000001) (some 53), 1⟩

/-- `run_tick` gives the result of the operation to a receive that was submitted for the same
descriptor, so the handler resolves the call's own future. -/
def handledRun : List (Act Nat Nat) :=
  [.directFailed 11 ⟨0, .ok 1⟩, .loop (.call (.sockRecv 7 2) ⟨0, .ok 1⟩),
    .loop (.complete 0 (.count 2) false false), .loop (.startTick 0 (.ok 0)), .loop .runHandle,
    .loop (.ret (.value true) ⟨0, .ok 1⟩), .loop .handleCompletion, .loop (.startTick 0 (.ok 0)), .resume]

/-- The operation that is submitted when the direct attempt would block is told to try again too. -/
def againRun : List (Act Nat Nat) :=
  [.directFailed 11 ⟨0, .ok 1⟩, .loop (.complete 0 (.error 11) false false),
    .loop (.startTick 0 (.ok 0)), .resume]

end Sendto

end Uringcore
