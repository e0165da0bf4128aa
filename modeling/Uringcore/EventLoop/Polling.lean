import Uringcore.EventLoop.Interest

/-!
# What a poll is for

`_run_once` polls only when nothing is ready. `plainTick` is the iteration that would always poll:
the two do the same when the ready queue is empty, and with a task ready the first does what the
second does when nothing is reported (`fastPath`).

An event becomes calls in two places. `_run_once` queues handles of the loop's callbacks, and
`run_until_stopped` calls the core's at once; both go by the bits of the event, side by side.
`noneIgnored_iff` says for which events that reaches anybody.
-/

namespace Uringcore

/-- The handle is that of a descriptor's callback. -/
def IoHandle.isIo {C K : Type} : IoHandle C K → Bool
  | .io .. => true
  | .other _ => false

namespace ReaderLoop
variable {C K : Type}

/-- The handles of one event's callbacks, the reader's first. -/
def handlesOf (e : EpollEvent) (callbacks : Side → FdMap C) : List (IoHandle C K) :=
  let handles (side : Side) : List (IoHandle C K) :=
    if e.isFor side then (((callbacks side).lookup e.fd).map (.io side e.fd)).toList else []
  handles .reader ++ handles .writer

/-- What the events of one poll queue. -/
def polled (events : List EpollEvent) (s : ReaderLoop C K) : List (IoHandle C K) :=
  events.flatMap fun e => handlesOf e s.callbacks

/-- The iteration that always polls. -/
def plainTick (events : List EpollEvent) (pushed : List K) (s : ReaderLoop C K) : ReaderLoop C K :=
  { s with ready := [], batch := s.ready ++ s.polled events ++ pushed.map .other }

theorem queueEvents_eq (events : List EpollEvent) (s : ReaderLoop C K) :
    events.foldl (fun s e => s.queueEvent e) s = { s with ready := s.ready ++ s.polled events } := by
  induction events generalizing s with
  | nil => simp [polled]
  | cons e events ih =>
    rw [List.foldl_cons, ih]
    simp [queueEvent, polled, handlesOf]

/-! ## The fast path -/

theorem startTick_eq (events : List EpollEvent) (pushed : List K) (s : ReaderLoop C K) :
    s.startTick events pushed = s.plainTick (if s.ready = [] then events else []) pushed := by
  unfold startTick plainTick
  split
  · rename_i hready
    rw [queueEvents_eq]
  · simp [polled]

/-- A batch is executed to its end before the next iteration. -/
theorem run_batch (s : ReaderLoop C K) :
    loopMachine.run s (List.replicate s.batch.length .runHandle) = some { s with batch := [] } := by
  obtain ⟨callbacks, coreCallbacks, epoll, ready, batch⟩ := s
  induction batch with
  | nil => rfl
  | cons h batch ih =>
    rw [List.length_cons, List.replicate_succ]
    exact (loopMachine.run_cons_eq_some).mpr ⟨_, rfl, ih⟩

/-- Whenever an iteration starts, something is ready. -/
def Busy (s : ReaderLoop C K) : Act C K → Prop
  | .startTick .. => s.ready ≠ []
  | _ => True

instance [DecidableEq C] [DecidableEq K] (s : ReaderLoop C K) : ∀ a : Act C K, Decidable (Busy s a)
  | .startTick .. => inferInstanceAs (Decidable (s.ready ≠ []))
  | .add .. | .remove .. | .callSoon _ | .closeFd _ | .runHandle => .isTrue trivial

/-- No callback of a descriptor is queued. -/
def NoneIo (s : ReaderLoop C K) : Prop := ∀ h ∈ s.ready ++ s.batch, h.isIo = false

instance (s : ReaderLoop C K) : Decidable (NoneIo s) := List.decidableBAll _ _

theorem NoneIo.step {s t : ReaderLoop C K} {a : Act C K} (h : NoneIo s) (hbusy : Busy s a)
    (hstep : s.step a = some t) : NoneIo t := by
  have hkept (hready : t.ready = s.ready) (hbatch : t.batch <:+ s.batch) : NoneIo t := by
    intro x hx
    apply h x
    rw [hready] at hx
    rcases List.mem_append.mp hx with hx | hx
    · exact List.mem_append_left _ hx
    · exact List.mem_append_right _ (hbatch.subset hx)
  cases a with
  | add side refused fd callback =>
    cases hstep
    obtain ⟨hready, hbatch, -⟩ := add_spec side refused fd callback s
    exact hkept hready (hbatch ▸ List.suffix_refl _)
  | remove side fd =>
    cases hstep
    obtain ⟨-, hready, hbatch⟩ := remove_spec side fd s
    exact hkept hready (hbatch ▸ List.suffix_refl _)
  | callSoon k =>
    cases hstep
    intro x hx
    have hx : x ∈ (s.ready ++ [.other k]) ++ s.batch := hx
    simp only [List.append_assoc, List.mem_append, List.mem_singleton] at hx
    rcases hx with hx | rfl | hx
    · exact h x (List.mem_append_left _ hx)
    · rfl
    · exact h x (List.mem_append_right _ hx)
  | closeFd fd =>
    cases hstep
    exact hkept rfl (List.suffix_refl _)
  | startTick events pushed =>
    simp only [ReaderLoop.step, Option.ite_none_right_eq_some] at hstep
    obtain ⟨-, heq⟩ := hstep
    cases heq
    -- what is ready becomes the batch, and nothing is polled
    rw [startTick_eq, if_neg hbusy]
    intro x hx
    have hx : x ∈ [] ++ (s.ready ++ [] ++ pushed.map .other) := hx
    simp only [List.nil_append, List.append_nil, List.mem_append, List.mem_map] at hx
    rcases hx with hx | ⟨k, -, rfl⟩
    · exact h x (List.mem_append_left _ hx)
    · rfl
  | runHandle =>
    simp only [ReaderLoop.step] at hstep
    split at hstep
    · cases hstep
    · rename_i x rest hbatch
      cases hstep
      exact hkept rfl (hbatch ▸ List.suffix_cons _ _)

/-- With nothing ready an iteration is the plain one, with a task ready it is the plain one on no
events; either way what it has queued it executes. As long as every iteration starts with a task
ready, no callback of a descriptor is queued. -/
theorem fastPath (s : ReaderLoop C K) :
    (∀ events pushed,
      s.startTick events pushed = s.plainTick (if s.ready = [] then events else []) pushed ∧
        (s.startTick events pushed = s.plainTick events pushed ↔ s.ready = [] ∨ s.polled events = []) ∧
        loopMachine.run (s.startTick events pushed)
            (List.replicate (s.startTick events pushed).batch.length .runHandle) =
          some { s.startTick events pushed with batch := [] }) ∧
      ∀ acts t, loopMachine.Meets Busy s acts → loopMachine.run s acts = some t → NoneIo s →
        NoneIo t := by
  refine ⟨fun events pushed => ⟨startTick_eq events pushed s, ?_, run_batch _⟩, ?_⟩
  · rw [startTick_eq]
    by_cases hready : s.ready = []
    · simp [hready]
    · simp [hready, plainTick, polled]
  · intro acts t hbusy hrun hnone
    exact Machine.run_invariant (M := loopMachine) (fun _ _ _ hn hb hstep => hn.step hb hstep)
      hnone hbusy hrun

/-- A task that schedules itself again and again; descriptor 5 is readable all the time. -/
def chainRun : List (Act Nat Unit) :=
  [.startTick [⟨5, true, false, false, false⟩] [], .callSoon (), .runHandle,
    .startTick [⟨5, true, false, false, false⟩] [], .callSoon (), .runHandle]

theorem fastPath_chain :
    ∃ s t, loopMachine.run init [.add .reader false 5 1, .callSoon ()] = some s ∧
      loopMachine.run s chainRun = some t ∧ NoneIo t :=
  have hbusy : ∀ s, loopMachine.run init [.add .reader false 5 1, .callSoon ()] = some s →
      loopMachine.Meets Busy s chainRun ∧ NoneIo s := by
    rintro s ⟨⟩
    decide
  ⟨_, _, rfl, rfl, (fastPath _).2 chainRun _ (hbusy _ rfl).1 rfl (hbusy _ rfl).2⟩

/-- The plain iteration would have queued the reader's callback. -/
theorem not_fastPath :
    ∃ s, loopMachine.run (init : ReaderLoop Nat Unit) [.add .reader false 5 1, .callSoon ()] = some s ∧
      s.reports ⟨5, true, false, false, false⟩ = true ∧
      (s.startTick [⟨5, true, false, false, false⟩] []).batch = [.other ()] ∧
      (s.plainTick [⟨5, true, false, false, false⟩] []).batch = [.other (), .io .reader 5 1] :=
  ⟨_, rfl, rfl, rfl, rfl⟩

/-! ## The two dispatchers -/

/-- `run_until_stopped` looks for a callback of the core and calls it at once; `call` is what that
does to the loop. -/
def dispatchSide (call : IoHandle C K → ReaderLoop C K → ReaderLoop C K) (e : EpollEvent) (side : Side)
    (x : ReaderLoop C K × List (IoHandle C K)) : ReaderLoop C K × List (IoHandle C K) :=
  match if e.isFor side then (x.1.coreCallbacks side).lookup e.fd else none with
  | some callback => (call (.io side e.fd callback) x.1, x.2 ++ [.io side e.fd callback])
  | none => x

/-- The events of one `epoll_wait`, and the callbacks that were called for them. -/
def dispatch (call : IoHandle C K → ReaderLoop C K → ReaderLoop C K) (events : List EpollEvent)
    (s : ReaderLoop C K) : ReaderLoop C K × List (IoHandle C K) :=
  events.foldl (fun x e => dispatchSide call e .writer (dispatchSide call e .reader x)) (s, [])

/-- Every event reaches a callback, and the two dispatchers the same ones, as long as the callbacks
leave the registrations alone. -/
structure NoneIgnored (s : ReaderLoop C K) (events : List EpollEvent) : Prop where
  queued : ∀ pushed, ∀ e ∈ events, ∃ side callback, (s.callbacks side).lookup e.fd = some callback ∧
    .io side e.fd callback ∈ (s.startTick events pushed).batch
  same : ∀ call : IoHandle C K → ReaderLoop C K → ReaderLoop C K,
    (∀ h u, (call h u).coreCallbacks = u.coreCallbacks) → (dispatch call events s).2 = s.polled events

/-- What one `epoll_wait` can return: a descriptor once, and with a bit that is set. -/
structure Reported (s : ReaderLoop C K) (events : List EpollEvent) : Prop where
  once : (events.map (·.fd)).Nodup
  reports : ∀ e ∈ events, s.reports e = true
  bits : ∀ e ∈ events, (e.epollIn || e.epollOut || e.epollErr || e.epollHup) = true

section
variable {s : ReaderLoop C K} {events : List EpollEvent}

theorem mem_handlesOf {e : EpollEvent} {callbacks : Side → FdMap C} {h : IoHandle C K} :
    h ∈ handlesOf e callbacks ↔ ∃ side callback, e.isFor side = true ∧
      (callbacks side).lookup e.fd = some callback ∧ h = .io side e.fd callback := by
  have hside (side : Side) : (h ∈ if e.isFor side = true then
      (((callbacks side).lookup e.fd).map (IoHandle.io side e.fd)).toList else []) ↔
        ∃ callback, e.isFor side = true ∧ (callbacks side).lookup e.fd = some callback ∧
          h = .io side e.fd callback := by
    by_cases hfor : e.isFor side = true
    · rw [if_pos hfor, Option.mem_toList, Option.map_eq_some_iff]
      simp only [hfor, true_and, eq_comm]
    · simp [hfor]
  unfold handlesOf
  rw [List.mem_append, hside, hside]
  constructor
  · rintro (⟨callback, h⟩ | ⟨callback, h⟩)
    · exact ⟨.reader, callback, h⟩
    · exact ⟨.writer, callback, h⟩
  · rintro ⟨side, callback, h⟩
    cases side with
    | reader => exact .inl ⟨callback, h⟩
    | writer => exact .inr ⟨callback, h⟩

theorem mem_startTick (hready : s.ready = []) (pushed : List K) {side : Side} {fd : Fd} {callback : C} :
    .io side fd callback ∈ (s.startTick events pushed).batch ↔
      .io side fd callback ∈ s.polled events := by
  rw [startTick_eq, if_pos hready]
  simp [plainTick, hready]

/-- Called in the registrations of the poll, the core's callbacks are the loop's. -/
theorem dispatch_eq (hcore : s.coreCallbacks = s.callbacks)
    {call : IoHandle C K → ReaderLoop C K → ReaderLoop C K}
    (hcall : ∀ h u, (call h u).coreCallbacks = u.coreCallbacks) :
    (dispatch call events s).2 = s.polled events := by
  have hside (e : EpollEvent) (side : Side) (x : ReaderLoop C K × List (IoHandle C K)) :
      (dispatchSide call e side x).1.coreCallbacks = x.1.coreCallbacks ∧
        (dispatchSide call e side x).2 = x.2 ++ if e.isFor side = true then
          (((x.1.coreCallbacks side).lookup e.fd).map (IoHandle.io side e.fd)).toList else [] := by
    unfold dispatchSide
    by_cases hfor : e.isFor side = true
    · simp only [hfor, if_true]
      cases hlookup : (x.1.coreCallbacks side).lookup e.fd with
      | none => simp
      | some callback => exact ⟨hcall _ _, rfl⟩
    · simp [hfor]
  have hall (x : ReaderLoop C K × List (IoHandle C K)) :
      (events.foldl (fun x e => dispatchSide call e .writer (dispatchSide call e .reader x)) x).2 =
        x.2 ++ events.flatMap fun e => handlesOf e x.1.coreCallbacks := by
    induction events generalizing x with
    | nil => simp
    | cons e events ih =>
      obtain ⟨hreader, hreader'⟩ := hside e .reader x
      obtain ⟨hwriter, hwriter'⟩ := hside e .writer (dispatchSide call e .reader x)
      rw [List.foldl_cons, ih, hwriter', hwriter, hreader', hreader, List.flatMap_cons, handlesOf]
      simp only [List.append_assoc]
  rw [dispatch, hall, hcore]
  rfl

/-- An event is ignored if and only if it is for a descriptor with only a writer, and does not report
that writing is possible. -/
theorem noneIgnored_iff {acts : List (Act C K)} (hpollable : loopMachine.Meets Pollable init acts)
    (hrun : loopMachine.run init acts = some s) (hready : s.ready = [])
    (hreported : Reported s events) :
    NoneIgnored s events ↔ ∀ e ∈ events, e.epollOut = true ∨ s.has .reader e.fd = true := by
  have hsound := interestSound_run hpollable hrun
  constructor
  · intro h e he
    obtain ⟨side, callback, hlookup, hmem⟩ := h.queued [] e he
    rw [mem_startTick hready] at hmem
    obtain ⟨e', he', hhandle⟩ := List.mem_flatMap.mp hmem
    obtain ⟨side', callback', hfor, hlookup', heq⟩ := mem_handlesOf.mp hhandle
    injection heq with hside hfd hcallback
    -- no other event is for the descriptor
    have hself : e' = e := List.inj_on_of_nodup_map hreported.once he' he hfd.symm
    subst hself hside
    cases side with
    | reader =>
      right
      rw [has, hlookup]
      rfl
    | writer => exact .inl hfor
  · intro h
    refine ⟨fun pushed e he => ?_, fun call hcall => dispatch_eq hsound.core hcall⟩
    have hevent : ∃ side, e.isFor side = true ∧ s.has side e.fd = true := by
      have hmask := hreported.reports e he
      unfold reports at hmask
      rw [hsound.epoll, interest] at hmask
      have hwriter (hout : e.epollOut = true) : s.has .writer e.fd = true := by
        split at hmask
        · cases hmask
        · rename_i mask heq
          rw [Option.ite_none_right_eq_some] at heq
          obtain ⟨-, heq⟩ := heq
          cases heq
          simp only [EpollMask.of, hout, Bool.and_eq_true, decide_eq_true_eq] at hmask
          exact hmask.2 trivial
      rcases h e he with hout | hreader
      · exact ⟨.writer, hout, hwriter hout⟩
      · by_cases hfor : e.isFor .reader = true
        · exact ⟨.reader, hfor, hreader⟩
        · have hbits := hreported.bits e he
          have hout : e.epollOut = true := by
            simp only [EpollEvent.isFor, Bool.or_eq_true, not_or, Bool.not_eq_true] at hfor
            simpa [hfor.1.1, hfor.1.2, hfor.2] using hbits
          exact ⟨.writer, hout, hwriter hout⟩
    obtain ⟨side, hfor, hhas⟩ := hevent
    obtain ⟨callback, hlookup⟩ := Option.isSome_iff_exists.mp hhas
    refine ⟨side, callback, hlookup, (mem_startTick hready pushed).mpr ?_⟩
    exact List.mem_flatMap.mpr ⟨e, he, mem_handlesOf.mpr ⟨side, callback, hfor, hlookup, rfl⟩⟩

end

/-- A writer on 5, a reader and a writer on 6. -/
def hangupRun : List (Act Nat Unit) :=
  [.add .writer false 5 1, .add .reader false 6 2, .add .writer false 6 3]

theorem noneIgnored_hangup : ∃ s, loopMachine.run init hangupRun = some s ∧
    NoneIgnored s [⟨6, false, false, false, true⟩, ⟨5, false, true, true, true⟩] :=
  ⟨_, rfl, (noneIgnored_iff (show loopMachine.Meets Pollable _ hangupRun by decide) rfl rfl
    ⟨by decide, by decide, by decide⟩).mpr (by decide)⟩

/-- The other end is closed, and the writer is not told. -/
theorem not_noneIgnored : ∃ s, loopMachine.run init hangupRun = some s ∧
    s.reports ⟨5, false, false, true, false⟩ = true ∧
      ¬ NoneIgnored s [⟨5, false, false, true, false⟩] := by
  refine ⟨_, rfl, rfl, fun h => ?_⟩
  obtain ⟨side, callback, -, hmem⟩ := h.queued [] _ List.mem_cons_self
  cases hmem

end ReaderLoop

end Uringcore
