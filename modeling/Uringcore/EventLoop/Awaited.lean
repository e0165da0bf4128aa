import Uringcore.EventLoop.ReceivedOnce

/-!
# One future in one step

A future that somebody awaits is resolved in three ways: a tick has it stored for the descriptor of a
completion, the handler of a completion finds it in `_io_futures`, or it is cancelled. `startTick_rule`
goes through the completions of a tick, one at a time; `futState_step` is about every other step.
`turn_of_step` says whose turn it is: which completions a step leaves waiting for their handlers.
-/

namespace Uringcore

namespace EventLoop
variable {K T : Type}

section
variable [LE T] [DecidableLE T] {s t : EventLoop K T} {a : Act K T}

/-! ## A tick -/

omit [LE T] [DecidableLE T] in
/-- What the processing of one completion keeps, that of a list of them keeps. -/
theorem drainAll_rule {s₀ : EventLoop K T} {C : List Cqe → Cqe → Prop}
    {I : List Cqe → EventLoop K T → Prop}
    (hone : ∀ pre c cs u, s₀.Midway pre u → u.core.ring.cq = c :: cs → C pre c → I pre u →
      I (pre ++ [c]) (u.drainOne c cs))
    {pre cqes : List Cqe} (hmidway : s₀.Midway pre s) (hcq : s.core.ring.cq = cqes)
    (hturn : InTurn C pre cqes) (h : I pre s) : I (pre ++ cqes) (drainAll cqes s) := by
  -- over what is left of the completions; `pre` are those that are processed
  induction cqes generalizing s pre with
  | nil => rwa [List.append_nil]
  | cons c cs ih =>
    have hcs : (s.drainOne c cs).core.ring.cq = cs := by rw [drainOne_eq, UringCore.processNext_eq]
    rw [List.append_cons]
    exact ih (hmidway.next hcq) hcs hturn.2 (hone pre c cs s hmidway hcq hturn.1 h)

/-- The tick rule. A tick that gets to its completions ends in the state that their processing has
left, but for the ready queue, which becomes the batch. -/
theorem startTick_rule {C : List Cqe → Cqe → Prop} {I : List Cqe → EventLoop K T → Prop}
    (clock : T) {enter : Except String Nat} (hidle : s.idle = true) (hflushes : s.core.Flushes enter)
    (hturn : InTurn C [] s.core.ring.cq)
    (hstart : I [] { s with core := ((s.core.expireTimers clock).submit enter).1 })
    (hone : ∀ pre c cs u, s.Midway pre u → u.core.ring.cq = c :: cs → C pre c → I pre u →
      I (pre ++ [c]) (u.drainOne c cs)) :
    ∃ u, I s.core.ring.cq u ∧ s.startTick clock enter =
      { u with batch := u.core.scheduler, core := { u.core with scheduler := [] } } := by
  have hcq : (s.core.ring.submit enter).1.cq = s.core.ring.cq := Ring.cq_submit enter s.core.ring
  simp only [idle, Bool.and_eq_true, List.isEmpty_iff] at hidle
  cases hsubmit : (s.core.ring.submit enter).2 with
  | error e =>
    rw [UringCore.Flushes, hsubmit] at hflushes
    cases hflushes
  | ok n => exact ⟨_, drainAll_rule hone (.start clock enter) hcq hturn hstart,
      startTick_ok hsubmit hidle.2⟩

/-- A tick that is not flushed does nothing to a future. -/
theorem startTick_unflushed {clock : T} {enter : Except String Nat} (h : ¬ s.core.Flushes enter) :
    s.startTick clock enter = { s with core := ((s.core.expireTimers clock).submit enter).1 } := by
  cases hsubmit : (s.core.ring.submit enter).2 with
  | error e => exact startTick_error hsubmit
  | ok n => exact absurd (by rw [UringCore.Flushes, hsubmit]; rfl) h

/-! ## Any other step -/

/-- The future is resolved by a handler, or cancelled. -/
inductive SettledBy (s : EventLoop K T) (a : Act K T) (fut : FutId) : FutState → Prop where
  | handler {r : ResultTuple} {kind : IoKind} {state : FutState} (hr : s.Handles a r)
      (hsettles : r.settles = some (kind, state)) (hfut : s.ioLookup r.fd kind = some fut) :
      SettledBy s a fut state
  | cancelled {env : Env} (ha : a = .call (.cancel fut) env) : SettledBy s a fut .cancelled

omit [LE T] [DecidableLE T] in
theorem SettledBy.ne_pending {fut : FutId} {state : FutState} (h : s.SettledBy a fut state) :
    state ≠ .pending := by
  cases h with
  | handler hr hsettles hfut => exact settles_ne_pending hsettles
  | cancelled ha => rintro ⟨⟩

/-- The futures, the submissions and the processed completions only become more. -/
theorem histories_step (hs : s.CoreSound) (hstep : s.step a = some t) :
    s.futs.length ≤ t.futs.length ∧ s.issued <+: t.issued ∧ s.drained <+: t.drained := by
  have hend := (step_moves hstep).rule (I := fun u => u.CoreSound ∧ s.futs.length ≤ u.futs.length ∧
    s.issued <+: u.issued ∧ s.drained <+: u.drained) ?_
    ⟨hs, Nat.le_refl _, List.prefix_rfl, List.prefix_rfl⟩
  · exact hend.2
  rintro u v ⟨hu, hle, hissued, hdrained⟩ hmove
  refine ⟨hu.move hmove, hle.trans ?_, hissued.trans (hmove.issued_prefix hu),
    hdrained.trans (hmove.drained_prefix hu)⟩
  cases hmove.issue hu with
  | calm hcalm => exact hcalm.futs.ge
  | completed ha hcomplete ht => rw [ht]
  | new env fd kind? callbacks req objs hfuture hkind hsend ht =>
    rw [ht, submitNew_eq, List.length_append]
    exact Nat.le_add_right _ _
  | close env fd ht =>
    rw [ht]
    rfl
  | drained hticks hmidway hcq ht =>
    rw [ht]
    exact (drainOne_length _ _ _).ge

/-- A submission for a future that was there before was made before. -/
theorem issued_before (hs : s.CoreSound) (hstep : s.step a = some t) {x : Fd × Request FutId}
    (hx : x ∈ t.issued) {fut : FutId} (hfut : x.2.future? = some fut) (hlt : fut < s.futs.length) :
    x ∈ s.issued := by
  have hend := (step_moves hstep).rule (I := fun u => u.CoreSound ∧ s.futs.length ≤ u.futs.length ∧
    ∀ x ∈ u.issued, ∀ fut, x.2.future? = some fut → fut < s.futs.length → x ∈ s.issued) ?_
    ⟨hs, Nat.le_refl _, fun _ hx _ _ _ => hx⟩
  · exact hend.2.2 x hx fut hfut hlt
  rintro u v ⟨hu, hle, hissued⟩ hmove
  refine ⟨hu.move hmove, ?_⟩
  cases hmove.issue hu with
  | calm hcalm =>
    rw [hcalm.futs, hcalm.issued]
    exact ⟨hle, hissued⟩
  | completed ha hcomplete ht => exact ht ▸ ⟨hle, hissued⟩
  | new env fd kind? callbacks req objs hfuture hkind hsend ht =>
    rw [ht, submitNew_eq]
    refine ⟨?_, fun x hx fut hfut hlt => ?_⟩
    · rw [List.length_append]
      exact hle.trans (Nat.le_add_right _ _)
    · rcases List.mem_append.mp hx with hx | hx
      · exact hissued x hx fut hfut hlt
      · -- the new submission is for the new future
        split at hx
        · cases hx
        · rw [List.mem_singleton.mp hx, hfuture, Option.some_inj] at hfut
          exact absurd (hfut ▸ hlt) (Nat.not_lt.mpr hle)
  | close env fd ht =>
    rw [ht]
    refine ⟨hle, fun x hx fut hfut hlt => ?_⟩
    rcases List.mem_append.mp hx with hx | hx
    · exact hissued x hx fut hfut hlt
    · -- and a close has none
      split at hx
      · cases hx
      · rw [List.mem_singleton.mp hx] at hfut
        cases hfut
  | drained hticks hmidway hcq ht =>
    rw [ht, drainOne_length, drainOne_eq]
    exact ⟨hle, hissued⟩

/-- What a step that is no tick does to a future. -/
theorem futState_step (hs : s.CoreSound) (hstep : s.step a = some t) (hticks : ¬ s.Ticks a)
    {fut : FutId} (hlt : fut < s.futs.length) : t.futState fut = s.futState fut ∨
      s.Waits fut ∧ ∃ state, t.futState fut = some state ∧ s.SettledBy a fut state := by
  have hend := (step_moves hstep).rule (I := fun u => u.CoreSound ∧ fut < u.futs.length ∧
    (u.futState fut = s.futState fut ∨
      s.Waits fut ∧ ∃ state, u.futState fut = some state ∧ s.SettledBy a fut state)) ?_
    ⟨hs, hlt, .inl rfl⟩
  · exact hend.2.2
  rintro u v ⟨hu, hlt, hfut⟩ hmove
  have hsame (h : v.futState fut = u.futState fut) : v.futState fut = s.futState fut ∨
      s.Waits fut ∧ ∃ state, v.futState fut = some state ∧ s.SettledBy a fut state := by rwa [h]
  refine ⟨hu.move hmove, ?_⟩
  rcases hfut with hfut | ⟨hwaits, state, hstate, hsettled⟩
  · -- this move may be the one that resolves it
    cases hmove.issue hu with
    | calm hcalm =>
      refine ⟨hcalm.futs ▸ hlt, ?_⟩
      rcases hcalm.futState fut with h | ⟨hwaits, state, hstate, hsettles⟩
      · exact hsame h
      · refine .inr ⟨hfut.symm.trans hwaits, state, hstate, ?_⟩
        cases hsettles with
        | cancelled ha =>
          obtain ⟨env, ha⟩ := ha
          exact .cancelled ha
        | io hr hresults hsettles hio =>
          obtain ⟨results, rfl⟩ := hresults
          exact .handler hr hsettles hio
    | completed ha hcomplete ht =>
      subst ht
      exact ⟨hlt, hsame rfl⟩
    | new env fd kind? callbacks req objs hfuture hkind hsend ht =>
      subst ht
      refine ⟨?_, hsame (futState_submitNew env fd kind? callbacks req hlt)⟩
      rw [submitNew_eq, List.length_append]
      exact Nat.lt_of_lt_of_le hlt (Nat.le_add_right _ _)
    | close env fd ht =>
      subst ht
      exact ⟨hlt, hsame rfl⟩
    | drained hticks' hmidway hcq ht => exact absurd hticks' hticks
  · -- a future that is done stays as it is
    have hkept := hmove.futState_done hu hstate hsettled.ne_pending
    obtain ⟨f, hf, -⟩ := Option.map_eq_some_iff.mp hkept
    exact ⟨(List.getElem?_eq_some_iff.mp hf).1, .inr ⟨hwaits, state, hkept, hsettled⟩⟩

/-- What a future was resolved with, it keeps. -/
theorem futState_done (hs : s.CoreSound) (hstep : s.step a = some t) {fut : FutId} {state : FutState}
    (hstate : s.futState fut = some state) (hdone : state ≠ .pending) : t.futState fut = some state :=
  ((step_moves hstep).rule (I := fun u => u.CoreSound ∧ u.futState fut = some state)
    (fun _ _ hu hmove => ⟨hu.1.move hmove, hmove.futState_done hu.1 hu.2 hdone⟩) ⟨hs, hstate⟩).2

/-- A future that waits has waited before. -/
theorem waits_before (hs : s.CoreSound) (hstep : s.step a = some t) {fut : FutId}
    (hlt : fut < s.futs.length) (hwaits : t.Waits fut) : s.Waits fut := by
  have hstate : s.futState fut = some s.futs[fut].state := by
    rw [futState, List.getElem?_eq_getElem hlt]
    rfl
  by_contra hnot
  have hdone : s.futs[fut].state ≠ .pending := fun hpending => hnot (by rw [Waits, ← hpending]; exact hstate)
  have hkept := futState_done hs hstep hstate hdone
  exact hdone (Option.some_inj.mp (hkept.symm.trans hwaits))

/-! ## The completions -/

/-- What a step from `s` to `t` does to the completions that wait for their handlers. -/
inductive Turn (s : EventLoop K T) (a : Act K T) (t : EventLoop K T) : Prop where
  | ticked (hticks : s.Ticks a) (hwaiting : t.waiting = s.core.ring.cq)
      (hdrained : t.drained = s.drained ++ s.core.ring.cq)
  | handled {r : ResultTuple} {c : Cqe} (hr : s.Handles a r) (hc : s.handled? = some c)
      (hmem : c ∈ s.drained) (hseen : c.seen = (r.fd, r.opType, r.result))
      (hwaiting : s.waiting = c :: t.waiting) (hdrained : t.drained = s.drained)
  | kept (hticks : ¬ s.Ticks a) (hhandles : ∀ r, ¬ s.Handles a r)
      (hwaiting : t.waiting = s.waiting) (hdrained : t.drained = s.drained)
  | dropped (hticks : ¬ s.Ticks a) (hhandles : ∀ r, ¬ s.Handles a r) (hdrops : s.Drops a)
      (hresults : t.results = []) (hdrained : t.drained = s.drained)

theorem turn_of_step (hs : s.AcceptsSound) (hstep : s.step a = some t) : s.Turn a t := by
  cases ha : a.handles with
  | false =>
    obtain ⟨hplain, hrun⟩ := plain_of_handles s ha
    obtain ⟨-, hdrained⟩ := (step_moves hstep).rest_eq hs.core hplain.ticks hrun
    have hhandles (r : ResultTuple) : ¬ s.Handles a r := by
      rintro ⟨rfl, -⟩
      cases ha
    rcases results_cases hs hstep ha with hresults | ⟨hresults, hdrops⟩
    · exact .kept hplain.ticks hhandles (waiting_congr hresults hdrained) hdrained
    · exact .dropped hplain.ticks hhandles hdrops hresults hdrained
  | true =>
    cases a with
    | startTick clock enter =>
      obtain ⟨hidle, rfl⟩ := step_startTick.mp hstep
      obtain ⟨-, -, htick⟩ := startTick_accepts clock enter hidle
      split at htick
      · rename_i hflushes
        exact .ticked ⟨clock, enter, rfl, hflushes, hidle⟩ (waiting_ticked htick.1 htick.2) htick.1
      · -- the flush has failed, and nothing was processed
        rename_i hunflushed
        refine .kept ?_ (by rintro r ⟨⟨⟩, -⟩) (waiting_congr htick.2 htick.1) htick.1
        rintro ⟨clock', enter', heq, hflushes, -⟩
        cases heq
        exact hunflushed hflushes
    | runHandle =>
      have hsame := step_quiet hstep rfl
      exact .kept (by rintro ⟨_, _, ⟨⟩, -⟩) (by rintro r ⟨⟨⟩, -⟩)
        (waiting_congr hsame.results hsame.drained) hsame.drained
    | handleCompletion =>
      obtain ⟨r, rest, hr, -, hsame⟩ := step_handleCompletion hstep
      obtain ⟨c, hc, hmem, hseen, hwaiting⟩ := waiting_handled hs.tied hr
      refine .handled ⟨rfl, rest, hr⟩ hc hmem hseen ?_ hsame.drained
      rw [hwaiting, waiting_congr (s := { s with results := rest }) hsame.results hsame.drained]
    | _ => cases ha

omit [LE T] [DecidableLE T] in
theorem futState_setFuture_self {fut : FutId} (hwaits : s.Waits fut) (state : FutState) :
    (s.setFuture fut state).futState fut = some state := by
  obtain ⟨⟨state', callbacks⟩, hf, hpending⟩ := Option.map_eq_some_iff.mp hwaits
  cases hpending
  have hlt := (List.getElem?_eq_some_iff.mp hf).1
  rw [setFuture_eq, futState, settle, hf]
  show ((s.futs.set fut ⟨state, []⟩)[fut]?).map AsyncFuture.state = some state
  rw [List.getElem?_set_self hlt]
  rfl

omit [LE T] [DecidableLE T] in
theorem resolveIo_some {fd : Fd} {kind : IoKind} {fut : FutId} (h : s.ioLookup fd kind = some fut)
    (state : FutState) : s.resolveIo fd kind state = (s.popIo fd kind).setFuture fut state := by
  rw [resolveIo, h]

omit [LE T] [DecidableLE T] in
theorem handle_settles {r : ResultTuple} (hop : r.opType = "recv" ∨ r.opType = "recvmsg") {kind : IoKind}
    {state : FutState} (hsettles : r.settles = some (kind, state)) {fut : FutId}
    (hfut : s.ioLookup r.fd kind = some fut) : handle r s = (s.popIo r.fd kind).setFuture fut state := by
  rcases hop with hop | hop <;> simp only [ResultTuple.settles, hop, Option.some_inj] at hsettles
  · obtain ⟨rfl, rfl⟩ := Prod.mk.inj hsettles
    rw [handle, hop]
    exact handleRecvCompletion_some hfut r.result r.data
  · obtain ⟨rfl, rfl⟩ := Prod.mk.inj hsettles
    rw [handle, hop]
    exact resolveIo_some hfut _

/-- The handler of a receive resolves the waiting future that it finds. -/
theorem futState_handled (hstep : s.step a = some t) {r : ResultTuple} (hr : s.Handles a r)
    (hop : r.opType = "recv" ∨ r.opType = "recvmsg") {kind : IoKind} {state : FutState}
    (hsettles : r.settles = some (kind, state)) {fut : FutId} (hfut : s.ioLookup r.fd kind = some fut)
    (hwaits : s.Waits fut) : t.futState fut = some state := by
  obtain ⟨rfl, rest, hresults⟩ := hr
  obtain ⟨r', rest', -, -, hresults', rfl⟩ := step_handle.mp hstep
  obtain ⟨rfl, rfl⟩ := List.cons.inj (hresults.symm.trans hresults')
  rw [handle_settles (s := { s with results := rest }) hop hsettles hfut]
  exact futState_setFuture_self (s := ({ s with results := rest } : EventLoop K T).popIo r.fd kind)
    hwaits state

end

end EventLoop

end Uringcore
