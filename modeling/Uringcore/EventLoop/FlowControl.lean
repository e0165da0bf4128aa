import Uringcore.Core.Acceptance
import Uringcore.EventLoop.Issued
import Uringcore.Lib.Alternation
import Uringcore.Pipes

/-!
# Flow control of writes

A transport tells its protocol to pause when its buffer has grown to the high mark and to resume when
it has shrunk to the low one, but it does not remember what it has told. So the calls follow the
sizes: every write that leaves the buffer at the high mark or over it pauses, every send completion
that leaves it at the low mark or under it resumes, and the calls alternate only if the sizes go from
one mark to the other.
-/

namespace Uringcore

/-- The marks of a write buffer: `pause_writing` is for the high one, `resume_writing` for the low
one. -/
inductive WaterMark where
  | high | low
  deriving DecidableEq, Repr

/-- The mark that a call of `tr`'s protocol is for. -/
def TransportEvent.mark? (tr : TransportId) : TransportEvent → Option WaterMark
  | pauseWriting tr' => if tr' = tr then some .high else none
  | resumeWriting tr' => if tr' = tr then some .low else none
  | _ => none

/-- `n` bytes less leave the buffer at the low mark or under it. -/
def Transport.drains (n : Int) (t : Transport) : Bool :=
  0 ≤ n && t.writeBufferSize - n.toNat ≤ t.lowWater

/-- `n` bytes more leave the buffer at the high mark or over it. -/
def Transport.fills (n : Nat) (t : Transport) : Bool := t.highWater ≤ t.writeBufferSize + n

namespace EventLoop
variable {K T : Type}

/-- The flow control calls of the protocol of `tr`. -/
def flowCalls (s : EventLoop K T) (tr : TransportId) : List WaterMark := s.log.filterMap (·.mark? tr)

/-- The transport whose buffer reaches a mark in the step: by a write that the core accepts, by the
callback of a send, or by the handler of a send's completion. -/
def reaches? (s : EventLoop K T) : Act K T → Option (TransportId × WaterMark)
  | .call (.write tr data) env => (s.objs[tr]?).bind fun t =>
      if !t.closing && !data.isEmpty && s.core.AcceptsSend env.now env.enter data &&
          t.fills data.length then some (tr, .high) else none
  | .runHandle => match s.batch with
    | .onWriteComplete tr fut :: _ => (s.objs[tr]?).bind fun t => match s.futState fut with
      | some (.result (.data (.int n))) =>
          if !t.closing && t.drains n then some (tr, .low) else none
      | _ => none
    | _ => none
  | .handleCompletion => match s.results with
    | r :: _ =>
        if r.opType = "send" then (s.transports.lookup r.fd).bind fun tr => (s.objs[tr]?).bind fun t =>
          if t.drains r.result then some (tr, .low) else none
        else none
    | [] => none
  | _ => none

/-! ## What a step of the loop calls -/

/-- What is called for a mark that has been reached. -/
def marksOf (tr : TransportId) (reached : Option (TransportId × WaterMark)) : List WaterMark :=
  reached.toList.filterMap fun p => if p.1 = tr then some p.2 else none

section
variable {s₀ s t : EventLoop K T} {a : Act K T}

theorem flowCalls_of_log {es : List TransportEvent} (hlog : t.log = s.log ++ es) (tr : TransportId) :
    t.flowCalls tr = s.flowCalls tr ++ es.filterMap (·.mark? tr) := by
  rw [flowCalls, hlog, List.filterMap_append]
  rfl

theorem flowCalls_congr (hlog : t.log = s.log) (tr : TransportId) :
    t.flowCalls tr = s.flowCalls tr := by
  rw [flowCalls, hlog]
  rfl

theorem flowCalls_forceClose {cause : TransportEvent} (exc : Option Exc) {tr' : TransportId}
    (s : EventLoop K T) (hcause : cause.isForced tr') (tr : TransportId) :
    (s.forceClose cause exc tr').flowCalls tr = s.flowCalls tr := by
  have hnone : cause.mark? tr = none := by
    rcases TransportEvent.isForced_iff.mp hcause with rfl | rfl <;> rfl
  have hlost : (TransportEvent.lostScheduled tr').mark? tr = none := rfl
  cases ht : s.objs[tr']? with
  | none => rw [forceClose_none ht]
  | some t =>
    cases hclosed : t.closed with
    | true =>
      rw [forceClose_closed ht hclosed, flowCalls_of_log (s := s) rfl]
      simp [hnone]
    | false =>
      rw [forceClose_open ht hclosed, flowCalls_of_log (s := s) rfl]
      simp [hnone, hlost]

theorem flowCalls_errorReceived (tr' : TransportId) (exc : Exc) (s : EventLoop K T) (tr : TransportId) :
    (s.errorReceived tr' exc).flowCalls tr = s.flowCalls tr :=
  flowCalls_forceClose _ s (by simp [TransportEvent.isForced]) tr

/-- Only the steps that change how much is buffered make these calls. -/
theorem Move.flowCalls [LE T] [DecidableLE T] (h : Move s₀ a s t) (haccounts : ¬ s₀.Accounts a)
    (tr : TransportId) : t.flowCalls tr = s.flowCalls tr := by
  cases h with
  | lost hbatch ha =>
    refine (flowCalls_of_log (s := s) rfl tr).trans ?_
    simp [TransportEvent.mark?]
  | forced exc hcause => exact flowCalls_forceClose exc s hcause tr
  | disarmed tr' exc => exact flowCalls_errorReceived tr' exc _ tr
  | closed hcause ht =>
    rename_i tr' t₀ cause
    refine (flowCalls_of_log rfl tr).trans ?_
    rcases TransportEvent.isClose_iff.mp hcause with rfl | rfl <;> simp [TransportEvent.mark?]
  | data hruns ht hopen =>
    refine (flowCalls_of_log (s := s) rfl tr).trans ?_
    simp [TransportEvent.mark?]
  | eof handler h =>
    refine (flowCalls_of_log (s := s) rfl tr).trans ?_
    simp [TransportEvent.mark?]
  | flow frame he haccounts' => exact absurd haccounts' haccounts
  | made fd creator =>
    refine (flowCalls_of_log (s := s) rfl tr).trans ?_
    simp [TransportEvent.mark?]
  | armed env ht hidle => exact flowCalls_congr (by rw [submitNew_eq]; rfl) tr
  | wrote env ha ht hopen hdata => exact flowCalls_congr (by rw [submitNew_eq]) tr
  | submitted env fd kind? callbacks req hreq hkind hcallbacks hsend =>
    exact flowCalls_congr (by rw [submitNew_eq]) tr
  | cancelled fut huser => exact flowCalls_congr (by rw [setFuture_eq]) tr
  | ioSettled hr hs₀ hsettles hfut => exact flowCalls_congr (by rw [setFuture_eq]; rfl) tr
  | drained hticks hmidway hcq => exact flowCalls_congr (by rw [drainOne_eq]) tr
  | _ => rfl

/-- A completion of `n` bytes. -/
theorem flowCalls_sendCompleted (tr' : TransportId) (n : Int) (handler : Bool) (s : EventLoop K T)
    (tr : TransportId) : (s.sendCompleted tr' n handler).flowCalls tr = s.flowCalls tr ++
      marksOf tr ((s.objs[tr']?).bind fun t => if t.drains n then some (tr', .low) else none) := by
  unfold sendCompleted Transport.drains
  cases ht : s.objs[tr']? with
  | none => simp [marksOf]
  | some t =>
    by_cases hn : n < 0
    · simp [hn, marksOf, Int.not_le.mpr hn]
    · have hn' : 0 ≤ n := Int.not_lt.mp hn
      simp only [hn, if_false]
      by_cases hlow : t.writeBufferSize - n.toNat ≤ t.lowWater
      · rw [if_pos hlow]
        refine (flowCalls_of_log (s := s) rfl tr).trans ?_
        have hsum : t.writeBufferSize ≤ t.lowWater + n.toNat := by omega
        by_cases htr : tr' = tr <;> simp [marksOf, TransportEvent.mark?, hn', hsum, htr]
      · rw [if_neg hlow]
        refine (flowCalls_congr (s := s) rfl tr).trans ?_
        have hsum : ¬ t.writeBufferSize ≤ t.lowWater + n.toNat := by omega
        simp [marksOf, hsum]

theorem flowCalls_onWriteComplete (tr' : TransportId) (fut : FutId) (s : EventLoop K T)
    (tr : TransportId) :
    (s.onWriteComplete tr' fut).flowCalls tr = s.flowCalls tr ++
      marksOf tr ((s.objs[tr']?).bind fun t => match s.futState fut with
        | some (.result (.data (.int n))) =>
            if !t.closing && t.drains n then some (tr', .low) else none
        | _ => none) := by
  unfold onWriteComplete
  cases ht : s.objs[tr']? with
  | none => simp [marksOf]
  | some t =>
    have hdone := fun n => flowCalls_sendCompleted tr' n false s tr
    rw [← futState]
    simp only [ht, Option.bind_some] at hdone ⊢
    split
    · rename_i hclosing
      split <;> simp [marksOf, hclosing]
    · rename_i hopen
      rcases s.futState fut with _ | (_ | ((b | ⟨b, addr⟩ | n) | _) | errno | _) <;>
        simp [marksOf, flowCalls_errorReceived, hdone, hopen]

/-- What a write calls, by what the core answers. -/
theorem flowCalls_write (env : Env) (tr' : TransportId) (data : Bytes) (s : EventLoop K T)
    (tr : TransportId) :
    (s.write env tr' data).flowCalls tr = s.flowCalls tr ++
      marksOf tr (s.reaches? (.call (.write tr' data) env)) := by
  unfold write reaches?
  cases ht : s.objs[tr']? with
  | none => simp [ht, marksOf]
  | some t =>
    simp only [ht, Option.bind_some]
    split
    · -- a closing transport and empty data: nothing is submitted
      rename_i hignored
      rcases Bool.or_eq_true .. ▸ hignored with h | h <;> simp [marksOf, h]
    · rename_i hgiven
      simp only [Bool.or_eq_true, not_or, Bool.not_eq_true] at hgiven
      have haccepts : (s.core.submitSend env.now env.enter t.fd data s.futs.length).2 = .ok () ↔
          s.core.AcceptsSend env.now env.enter data := UringCore.submitSend_ok_iff ..
      have hlog : ((s.createFuture fun fut => [.onWriteComplete tr' fut]).request env t.fd
          (.send data s.futs.length)).1.log = s.log := rfl
      have hanswer : ((s.createFuture fun fut => [.onWriteComplete tr' fut]).request env t.fd
          (.send data s.futs.length)).2 =
          (s.core.submitSend env.now env.enter t.fd data s.futs.length).2 := rfl
      rw [← hanswer] at haccepts
      -- only the log and the answer matter from here on
      clear hanswer
      generalize (s.createFuture fun fut => [.onWriteComplete tr' fut]).request env t.fd
        (.send data s.futs.length) = answer at haccepts hlog
      rcases answer with ⟨u, (e | ok)⟩
      · have hrefused : ¬ s.core.AcceptsSend env.now env.enter data := by
          rw [← haccepts]
          simp
        have hkept : u.flowCalls tr = s.flowCalls tr := flowCalls_congr hlog tr
        cases e <;> simp [marksOf, hrefused, flowCalls_errorReceived, hkept]
      · have haccepted : s.core.AcceptsSend env.now env.enter data := haccepts.mp rfl
        simp only [hgiven, haccepted, Transport.fills]
        have hlog : u.log = s.log := hlog
        split
        · rename_i hfull
          have hcalled : ((u.modify tr' (.setWriteBufferSize (t.writeBufferSize + data.length))).callProtocol
              (.pauseWriting tr') (.pauseWriting tr')).log = s.log ++ [.pauseWriting tr'] := by
            rw [← hlog]
            rfl
          refine (flowCalls_of_log hcalled tr).trans ?_
          by_cases htr : tr' = tr <;> simp [marksOf, TransportEvent.mark?, hfull, htr]
        · rename_i hfull
          refine (flowCalls_congr (s := s) hlog tr).trans ?_
          simp [marksOf, hfull]

/-- The handler of a send settles a future first. -/
theorem flowCalls_handleSendCompletion (fd : Fd) (n : Int) (s : EventLoop K T) (tr : TransportId) :
    (s.handleSendCompletion fd n).flowCalls tr = s.flowCalls tr ++
      marksOf tr ((s.transports.lookup fd).bind fun tr' => (s.objs[tr']?).bind fun t =>
        if t.drains n then some (tr', .low) else none) := by
  have hsettled : (s.resolveIo fd .send (plainState n)).log = s.log ∧
      (s.resolveIo fd .send (plainState n)).objs = s.objs ∧
      (s.resolveIo fd .send (plainState n)).transports = s.transports := by
    unfold resolveIo
    split
    · rw [setFuture_eq]
      exact ⟨rfl, rfl, rfl⟩
    · exact ⟨rfl, rfl, rfl⟩
  obtain ⟨hlog, hobjs, htransports⟩ := hsettled
  unfold handleSendCompletion
  simp only [htransports]
  cases s.transports.lookup fd with
  | none => simp [marksOf, flowCalls_congr hlog]
  | some tr' =>
    simp only [Option.bind_some]
    rw [flowCalls_sendCompleted, flowCalls_congr hlog, hobjs]

section
variable [LE T] [DecidableLE T]

/-- The steps that change how much is buffered call what the sizes ask for. -/
theorem Accounts.flowCalls (haccounts : s.Accounts a) (h : s.step a = some t) (tr : TransportId) :
    t.flowCalls tr = s.flowCalls tr ++ marksOf tr (s.reaches? a) := by
  cases haccounts with
  | written tr' data env =>
    obtain ⟨-, rfl⟩ := step_call.mp h
    exact flowCalls_write env tr' data s tr
  | sent hbatch =>
    rename_i tr' fut rest
    simp only [step, hbatch] at h
    split at h
    · rename_i hrest
      cases hrest
      cases h
      simp only [reaches?, hbatch]
      exact flowCalls_onWriteComplete tr' fut { s with batch := rest } tr
    · cases h
  | handled hresults hop =>
    rename_i r rest
    simp only [step, hresults] at h
    split at h
    · rename_i hrest
      cases hrest
      cases h
      simp only [reaches?, hresults, hop, if_true, handle]
      exact flowCalls_handleSendCompletion r.fd r.result { s with results := rest } tr
    · cases h

omit [LE T] [DecidableLE T] in
/-- A step that does not change how much is buffered reaches no mark. -/
theorem reaches?_of_not_accounts (haccounts : ¬ s.Accounts a) : s.reaches? a = none := by
  unfold reaches?
  split
  · exact absurd (.written ..) haccounts
  · split
    · rename_i hbatch
      exact absurd (.sent hbatch) haccounts
    · rfl
  · split
    · rename_i hresults
      split
      · rename_i hop
        exact absurd (.handled hresults hop) haccounts
      · rfl
    · rfl
  · rfl

theorem flowCalls_step (h : s.step a = some t) (tr : TransportId) :
    t.flowCalls tr = s.flowCalls tr ++ marksOf tr (s.reaches? a) := by
  by_cases haccounts : s.Accounts a
  · exact haccounts.flowCalls h tr
  · have hkept : t.flowCalls tr = s.flowCalls tr :=
      (step_moves h).rule (fun u v hu hmove => (hmove.flowCalls haccounts tr).trans hu) rfl
    simp [hkept, marksOf, reaches?_of_not_accounts haccounts]

end

end

end EventLoop

/-! ## Pipes -/

def PipeEvent.mark? : PipeEvent → Option WaterMark
  | pauseWriting => some .high
  | resumeWriting => some .low
  | connectionLost _ => none

namespace WritePipe

def flowCalls (t : WritePipe) : List WaterMark := t.log.filterMap PipeEvent.mark?

/-- The mark that the buffer passes in the step: over the high one by a write, under the low one by
what the pipe takes. -/
def passes? (t : WritePipe) : Act → Option WaterMark
  | .write data refused =>
      if !t.closing && !data.isEmpty && !t.pipeClosed && !refused &&
          t.highWater < t.buffer.length + data.length then some .high else none
  | .writeReady (.wrote n) =>
      if !t.pipeClosed && !t.buffer.isEmpty && t.buffer.length - n < t.lowWater then some .low else none
  | _ => none

theorem flowCalls_callProtocol (e : PipeEvent) (t : WritePipe) :
    (t.callProtocol e).flowCalls = t.flowCalls ++ e.mark?.toList := by
  unfold flowCalls callProtocol
  rw [List.filterMap_append]
  cases h : e.mark? <;> simp [h]

theorem flowCalls_written (t : WritePipe) : t.written.flowCalls = t.flowCalls := by
  unfold written
  split
  · dsimp only
    split
    · rw [flowCalls_callProtocol]
      exact List.append_nil _
    · rfl
  · rfl

theorem flowCalls_write (refused : Bool) (data : Bytes) (t : WritePipe) :
    (t.write refused data).flowCalls = t.flowCalls ++ (t.passes? (.write data refused)).toList := by
  unfold WritePipe.write passes?
  by_cases hignored : t.closing || data.isEmpty
  · rcases Bool.or_eq_true .. ▸ hignored with h | h <;> simp [h]
  · have hgiven : t.closing = false ∧ data.isEmpty = false := by simpa using hignored
    rw [if_neg hignored]
    by_cases hclosed : t.pipeClosed
    · simp [hclosed, flowCalls]
    · by_cases hrefused : refused
      · simp [hclosed, hrefused, flowCalls]
      · simp only [hgiven, hclosed, hrefused, Bool.false_eq_true, if_false, List.length_append]
        by_cases hfull : t.highWater < t.buffer.length + data.length
        · rw [if_pos hfull, flowCalls_callProtocol]
          simp [hfull, PipeEvent.mark?, flowCalls]
        · rw [if_neg hfull]
          simp [hfull, flowCalls]

theorem flowCalls_step {t u : WritePipe} {a : Act} (h : t.step a = some u) :
    u.flowCalls = t.flowCalls ++ (t.passes? a).toList := by
  cases a with
  | write data refused =>
    cases h
    exact flowCalls_write refused data t
  | writeReady result =>
    simp only [step] at h
    split at h
    · cases h
      unfold WritePipe.writeReady
      cases hclosed : t.pipeClosed with
      | true => cases result <;> simp [passes?, hclosed]
      | false =>
        -- an idle writer is only removed: it calls nobody
        cases hempty : t.buffer.isEmpty with
        | true => cases result <;> simp [passes?, hempty, flowCalls]
        | false =>
          cases result with
          | wrote n =>
            simp only [Bool.false_eq_true, if_false, List.length_drop, passes?, hclosed, hempty]
            split
            · rename_i hlow
              rw [flowCalls_callProtocol]
              simp [hlow, PipeEvent.mark?, flowCalls]
            · rename_i hlow
              rw [flowCalls_written]
              simp [hlow, flowCalls]
          | wouldBlock => simp [passes?]
          | osError errno =>
            simp only [Bool.false_eq_true, if_false, flowCalls_callProtocol]
            simp [passes?, PipeEvent.mark?, flowCalls]
    · cases h
  | ret =>
    simp only [step] at h
    split at h
    · rename_i call rest hstack
      cases h
      cases call with
      | resumeWriting =>
        refine (flowCalls_written _).trans ?_
        simp [passes?, flowCalls]
      | pauseWriting => simp [resume, passes?, flowCalls]
      | connectionLost errno => simp [resume, passes?, flowCalls]
    · cases h
  | close =>
    cases h
    unfold WritePipe.close
    split
    · simp [passes?]
    · dsimp only
      split
      · rw [flowCalls_callProtocol]
        simp [passes?, PipeEvent.mark?, flowCalls]
      · simp [passes?, flowCalls]
  | abort =>
    cases h
    unfold WritePipe.abort
    dsimp only
    split
    · simp [passes?, flowCalls]
    · rw [flowCalls_callProtocol]
      simp [passes?, PipeEvent.mark?, flowCalls]
  | setWriteBufferLimits high low =>
    cases h
    simp [passes?, flowCalls, setWriteBufferLimits]

/-- The only channel is the pipe's own protocol. -/
def reaches? (t : WritePipe) (a : Act) : Option (Unit × WaterMark) := (t.passes? a).map fun mark => ((), mark)

end WritePipe

/-! ## Alternation -/

section
variable {K T : Type} [LE T] [DecidableLE T]

/-- **Flow control.** The calls to the protocol of every transport alternate, beginning with
`pause_writing`, if and only if its buffer goes from one mark to the other: no write leaves it at the
high mark again, and no completion at the low one, before it has been at the other. The same holds of
a pipe. -/
theorem flowCalls_alternate_iff {core : UringCore FutId (Handle K) T} {s : EventLoop K T}
    {acts : List (EventLoop.Act K T)} (hrun : EventLoop.machine.run (EventLoop.init core) acts = some s)
    {nonblocking : Bool} {t : WritePipe} {events : List WritePipe.Act}
    (hpipe : WritePipe.machine.run (WritePipe.new nonblocking) events = some t) :
    ((∀ tr, AlternatesFrom .low (s.flowCalls tr)) ↔
      (EventLoop.machine.ghost (Machine.lastCall EventLoop.reaches?)).Meets
        (Machine.NewCall EventLoop.reaches?) (EventLoop.init core, fun _ => .low) acts) ∧
    (AlternatesFrom .low t.flowCalls ↔
      (WritePipe.machine.ghost (Machine.lastCall WritePipe.reaches?)).Meets
        (Machine.NewCall WritePipe.reaches?) (WritePipe.new nonblocking, fun _ => .low) events) := by
  constructor
  · exact Machine.alternates_iff_meets (fun s a t h tr => EventLoop.flowCalls_step h tr) WaterMark.low
      (fun _ => rfl) hrun
  · have hstep (t : WritePipe) (a : WritePipe.Act) (u : WritePipe)
        (h : WritePipe.machine.step t a = some u) (i : Unit) : u.flowCalls = t.flowCalls ++
          (t.reaches? a).toList.filterMap fun p => if p.1 = i then some p.2 else none := by
      rw [WritePipe.flowCalls_step h]
      cases hmark : t.passes? a <;> simp [WritePipe.reaches?, hmark]
    have hchannel := Machine.alternates_iff_meets hstep WaterMark.low (fun _ => rfl) hpipe
    rwa [forall_const] at hchannel

end

/-- A write up to the high mark, and its completion down to the low one. -/
def markRun : List (EventLoop.Act Unit Nat) :=
  [.call (.newTransport 5) ⟨0, .ok 1⟩, .call (.setWriteBufferLimits 0 (some 2) (some 0)) ⟨0, .ok 1⟩,
    .call (.write 0 [1, 2]) ⟨0, .ok 1⟩, .ret (.value true) ⟨0, .ok 1⟩,
    .complete 0 (.count 2) false false, .startTick 0 (.ok 0), .runHandle,
    .ret (.value true) ⟨0, .ok 1⟩, .handleCompletion]

def markPipeRun : List WritePipe.Act :=
  [.setWriteBufferLimits (some 1) (some 1), .write [1, 2] false, .ret, .writeReady (.wrote 2), .ret]

theorem flowCalls_alternate_marks :
    ∃ core s t, UringCore.new Setup.plain 16 2 = .ok core ∧
      EventLoop.machine.run (EventLoop.init core) markRun = some s ∧
      WritePipe.machine.run (WritePipe.new true) markPipeRun = some t ∧
      (∀ tr, AlternatesFrom .low (s.flowCalls tr)) ∧ AlternatesFrom .low t.flowCalls ∧
      s.flowCalls 0 = [.high, .low] ∧ t.flowCalls = [.high, .low] := by
  obtain ⟨core, s, hnew, hrun, hmeets, hcalls⟩ : ∃ core s, UringCore.new Setup.plain 16 2 = .ok core ∧
      EventLoop.machine.run (EventLoop.init core) markRun = some s ∧
      (EventLoop.machine.ghost (Machine.lastCall EventLoop.reaches?)).Meets
        (Machine.NewCall EventLoop.reaches?) (EventLoop.init core, fun _ => .low) markRun ∧
      s.flowCalls 0 = [.high, .low] := ⟨_, _, rfl, rfl, by decide, rfl⟩
  obtain ⟨t, hpipe, hmeets', hcalls'⟩ : ∃ t,
      WritePipe.machine.run (WritePipe.new true) markPipeRun = some t ∧
      (WritePipe.machine.ghost (Machine.lastCall WritePipe.reaches?)).Meets
        (Machine.NewCall WritePipe.reaches?) (WritePipe.new true, fun _ => .low) markPipeRun ∧
      t.flowCalls = [.high, .low] := ⟨_, rfl, by decide, rfl⟩
  obtain ⟨hsocket, hpipes⟩ := flowCalls_alternate_iff hrun hpipe
  exact ⟨core, s, t, hnew, hrun, hpipe, hsocket.mpr hmeets, hpipes.mpr hmeets', hcalls, hcalls'⟩

/-- A connection sends a byte, far below the marks: the protocol is told twice to resume and was never
told to pause. A pipe takes a byte: it is told once. -/
theorem not_flowCalls_alternate :
    ∃ core s t, UringCore.new Setup.plain 16 2 = .ok core ∧
      EventLoop.machine.run (EventLoop.init core : EventLoop Unit Nat)
        [.call (.createConnection 5) ⟨0, .ok 1⟩, .ret (.value true) ⟨0, .ok 1⟩,
          .call (.write 0 [1]) ⟨0, .ok 1⟩, .complete 1 (.count 1) false false, .startTick 0 (.ok 0),
          .runHandle, .ret (.value true) ⟨0, .ok 1⟩, .handleCompletion] = some s ∧
      WritePipe.machine.run (WritePipe.new true) [.write [1] false, .writeReady (.wrote 1)] = some t ∧
      s.flowCalls 0 = [.low, .low] ∧ t.flowCalls = [.low] ∧
      ¬ AlternatesFrom .low (s.flowCalls 0) ∧ ¬ AlternatesFrom .low t.flowCalls :=
  ⟨_, _, _, rfl, rfl, rfl, rfl, rfl, by decide, by decide⟩

end Uringcore
