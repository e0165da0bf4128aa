import Uringcore.EventLoop.Interest

/-!
# The native loop

`run_until_stopped` is the loop of `_run_once` once more, inside the core. It goes through the events of a
poll one by one, looks a callback up in the core's maps when it comes to its event, and calls it at once;
`_run_once` makes handles of all callbacks of the batch first, and the tick executes them. While a callback
runs, it and every other thread may change what is registered; an add or a remove is one step here, so the
loop looks no callback up halfway through one.

* `native_agrees_iff`: the two make the same calls of a batch if and only if no registration changes before
  the loop comes to its event.
* `native_calls_registered`: so the native loop never calls what was removed.
* `native_stops`: it returns soon after a `stop`, and only after one that came after its start.
-/

namespace Uringcore

/-- What `epoll_wait` answers. -/
inductive EpollAnswer where
  | events (events : List EpollEvent)
  /-- `EINTR`. -/
  | interrupted
  | failed (message : String)

/-- The look-ups a batch leads to: for each event the reader and then the writer. The core's own eventfd is
only drained. -/
def EpollEvent.lookups (eventFd : Fd) (events : List EpollEvent) : List (EpollEvent × Side) :=
  (events.filter (·.fd ≠ eventFd)).flatMap fun e =>
    ([Side.reader, Side.writer].filter e.isFor).map (e, ·)

/-- Where `run_until_stopped` is. -/
inductive NativePhase where
  /-- It has not been called, or has returned. -/
  | idle
  | check
  | poll
  /-- What is left of a batch; after the last look-up comes the tick. -/
  | dispatch (lookups : List (EpollEvent × Side))
  deriving DecidableEq, Repr

structure NativeLoop (C K : Type) where
  loop : ReaderLoop C K
  stopping : Bool
  phase : NativePhase

namespace NativeLoop
variable {C K : Type}

def init : NativeLoop C K := ⟨.init, false, .idle⟩

/-- What a callback, a task or another thread does. -/
inductive Call (C K : Type) where
  | add (side : Side) (refused : Bool) (fd : Fd) (callback : C)
  | remove (side : Side) (fd : Fd)
  | callSoon (k : K)
  | closeFd (fd : Fd)
  | stop
  | clearStop

def perform (s : NativeLoop C K) : Call C K → NativeLoop C K
  | .add side refused fd callback => { s with loop := (s.loop.add side refused fd callback).1 }
  | .remove side fd => { s with loop := (s.loop.remove side fd).1 }
  | .callSoon k => { s with loop := { s.loop with ready := s.loop.ready ++ [.other k] } }
  | .closeFd fd => { s with loop := { s.loop with epoll := s.loop.epoll.erase fd } }
  | .stop => { s with stopping := true }
  | .clearStop => { s with stopping := false }

inductive Act (C K : Type) where
  | call (c : Call C K)
  /-- `run_until_stopped` is called. -/
  | start
  /-- The stopping flag is read. -/
  | check
  | poll (answer : EpollAnswer)
  /-- The next look-up, and the call of the callback if there is one. -/
  | lookup
  /-- `run_tick` returns; it has executed everything that was ready, or the flush has failed. -/
  | tick (result : Except String Unit)

/-- The events `epoll_wait` may report: no more than there is room for, and none twice. -/
def mayReport (eventFd : Fd) (s : NativeLoop C K) (events : List EpollEvent) : Bool :=
  events.length ≤ 64 && decide (events.map EpollEvent.fd).Nodup &&
    events.all fun e => e.fd = eventFd || s.loop.reports e

def step (eventFd : Fd) (s : NativeLoop C K) : Act C K → Option (NativeLoop C K)
  | .call c => some (s.perform c)
  | .start => match s.phase with
      | .idle => some { s with stopping := false, phase := .check }
      | .check | .poll | .dispatch _ => none
  | .check => match s.phase with
      | .check => some { s with phase := if s.stopping then .idle else .poll }
      | .idle | .poll | .dispatch _ => none
  | .poll answer => match s.phase, answer with
      | .poll, .events events =>
          if s.mayReport eventFd events then
            some { s with phase := .dispatch (EpollEvent.lookups eventFd events) }
          else none
      | .poll, .interrupted => some { s with phase := .check }
      | .poll, .failed _ => some { s with phase := .idle }
      | .idle, _ | .check, _ | .dispatch _, _ => none
  | .lookup => match s.phase with
      | .dispatch (_ :: rest) => some { s with phase := .dispatch rest }
      | .dispatch [] | .idle | .check | .poll => none
  | .tick result => match s.phase, result with
      | .dispatch [], .ok () => some { s with loop := { s.loop with ready := [] }, phase := .check }
      | .dispatch [], .error _ => some { s with phase := .idle }
      | .dispatch (_ :: _), _ | .idle, _ | .check, _ | .poll, _ => none

/-- A callback that was called, with what it was registered for. -/
abbrev Invocation (C : Type) := Side × Fd × C

/-- What a look-up finds in a dictionary. -/
def found (m : Side → FdMap C) (l : EpollEvent × Side) : Option (Invocation C) :=
  ((m l.2).lookup l.1.fd).map fun callback => (l.2, l.1.fd, callback)

/-- What the next look-up calls. -/
def invocation (s : NativeLoop C K) : Option (Invocation C) :=
  match s.phase with
  | .dispatch (l :: _) => found s.loop.coreCallbacks l
  | .dispatch [] | .idle | .check | .poll => none

/-- What has happened: the calls since the last poll, the callbacks that were removed and not replaced
since, and the `stop`s since the start. -/
structure History (C : Type) where
  invoked : List (Invocation C)
  removed : ReaderLoop.Removed C
  stops : Nat

namespace History

def init : History C := ⟨[], fun _ => ∅, 0⟩

def upd (s : NativeLoop C K) (a : Act C K) (_ : NativeLoop C K) (h : History C) : History C :=
  match a with
  | .call (.remove side fd) =>
      { h with removed := s.loop.removedUpd (.remove side fd) s.loop h.removed }
  | .call (.add side refused fd callback) =>
      { h with removed := s.loop.removedUpd (.add side refused fd callback) s.loop h.removed }
  | .call .stop => { h with stops := h.stops + 1 }
  | .call (.callSoon _) | .call (.closeFd _) | .call .clearStop => h
  | .start => { h with stops := 0 }
  | .poll _ => { h with invoked := [] }
  | .lookup => { h with invoked := h.invoked ++ s.invocation.toList }
  | .check | .tick _ => h

end History

def machine (eventFd : Fd) : Machine (NativeLoop C K × History C) (Act C K) :=
  (Machine.mk (step eventFd)).ghost History.upd

/-! ## The maps of the core -/

theorem perform_core {s : NativeLoop C K} (h : s.loop.coreCallbacks = s.loop.callbacks) (c : Call C K) :
    (s.perform c).loop.coreCallbacks = (s.perform c).loop.callbacks := by
  have hremove (side : Side) (fd : Fd) :
      (s.loop.remove side fd).1.coreCallbacks = (s.loop.remove side fd).1.callbacks := by
    rw [ReaderLoop.remove_eq]
    split
    · simp only [ReaderLoop.put, h]
    · exact h
  cases c with
  | add side refused fd callback =>
    show (s.loop.add side refused fd callback).1.coreCallbacks =
      (s.loop.add side refused fd callback).1.callbacks
    rw [ReaderLoop.add_eq]
    dsimp only
    split
    · simp only [ReaderLoop.put, hremove]
    · exact hremove side fd
    · exact hremove side fd
  | remove side fd => exact hremove side fd
  | callSoon k | closeFd fd | stop | clearStop => exact h

/-- A call touches no phase. -/
@[simp] theorem perform_phase (s : NativeLoop C K) (c : Call C K) : (s.perform c).phase = s.phase := by
  cases c <;> rfl

/-- All that a step which is not a call does to the loop. -/
theorem step_loop {eventFd : Fd} {s t : NativeLoop C K} {a : Act C K}
    (h : step eventFd s a = some t) :
    (∃ c, a = .call c ∧ t = s.perform c) ∨
      (∀ c, a ≠ .call c) ∧ t.loop.callbacks = s.loop.callbacks ∧
        t.loop.coreCallbacks = s.loop.coreCallbacks ∧
        (t.loop.ready = s.loop.ready ∨ t.loop.ready = []) ∧ t.loop.batch = s.loop.batch := by
  cases a with
  | call c =>
    cases h
    exact .inl ⟨c, rfl, rfl⟩
  | start | check | lookup =>
    refine .inr ⟨fun c => nofun, ?_⟩
    simp only [step] at h
    split at h
    all_goals cases h
    all_goals exact ⟨rfl, rfl, .inl rfl, rfl⟩
  | poll answer =>
    refine .inr ⟨fun c => nofun, ?_⟩
    simp only [step] at h
    split at h
    · simp only [Option.ite_none_right_eq_some, Option.some.injEq] at h
      obtain ⟨-, rfl⟩ := h
      exact ⟨rfl, rfl, .inl rfl, rfl⟩
    all_goals cases h
    all_goals exact ⟨rfl, rfl, .inl rfl, rfl⟩
  | tick result =>
    refine .inr ⟨fun c => nofun, ?_⟩
    simp only [step] at h
    split at h
    · cases h
      exact ⟨rfl, rfl, .inr rfl, rfl⟩
    all_goals cases h
    all_goals exact ⟨rfl, rfl, .inl rfl, rfl⟩

theorem step_core {eventFd : Fd} {s t : NativeLoop C K} {a : Act C K}
    (hcore : s.loop.coreCallbacks = s.loop.callbacks) (h : step eventFd s a = some t) :
    t.loop.coreCallbacks = t.loop.callbacks := by
  obtain ⟨c, -, rfl⟩ | ⟨-, hcallbacks, hcore', -⟩ := step_loop h
  · exact perform_core hcore c
  · rw [hcore', hcallbacks, hcore]

/-! ## Both loops of one batch -/

/-- The handle `_run_once` makes of a callback. -/
def handle (i : Invocation C) : IoHandle C K := .io i.1 i.2.1 i.2.2

theorem queueEvent_ready (e : EpollEvent) (s : ReaderLoop C K) : (s.queueEvent e).ready = s.ready ++
    ((([Side.reader, Side.writer].filter e.isFor).map (e, ·)).filterMap (found s.callbacks)).map handle := by
  unfold ReaderLoop.queueEvent found
  cases hreader : e.isFor .reader <;> cases hwriter : e.isFor .writer <;>
    cases hr : (s.callbacks .reader).lookup e.fd <;> cases hw : (s.callbacks .writer).lookup e.fd <;>
    simp [hreader, hwriter, hr, hw, handle]

/-- The handles `_run_once` makes of a batch; it polls when nothing is ready. -/
def queued (eventFd : Fd) (events : List EpollEvent) (s : ReaderLoop C K) : List (IoHandle C K) :=
  let start : ReaderLoop C K := { s with ready := [] }
  ((events.filter (·.fd ≠ eventFd)).foldl (fun s e => s.queueEvent e) start).ready

theorem queued_eq (eventFd : Fd) (events : List EpollEvent) (s : ReaderLoop C K) :
    queued eventFd events s =
      ((EpollEvent.lookups eventFd events).filterMap (found s.callbacks)).map handle := by
  have hready (es : List EpollEvent) (s : ReaderLoop C K) :
      (es.foldl (fun s e => s.queueEvent e) s).ready = s.ready ++ ((es.flatMap fun e =>
        ([Side.reader, Side.writer].filter e.isFor).map (e, ·)).filterMap (found s.callbacks)).map
          handle := by
    induction es generalizing s with
    | nil => simp
    | cons e es ih =>
      have hcallbacks : (s.queueEvent e).callbacks = s.callbacks := rfl
      rw [List.foldl_cons, ih, queueEvent_ready, hcallbacks, List.append_assoc, List.flatMap_cons,
        List.filterMap_append, List.map_append]
  rw [queued, hready]
  rfl

/-- What an invocation, and a look-up, is for. -/
def key (l : EpollEvent × Side) : Side × Fd := (l.2, l.1.fd)

theorem lookups_keys_nodup {eventFd : Fd} {events : List EpollEvent}
    (h : (events.map EpollEvent.fd).Nodup) : ((EpollEvent.lookups eventFd events).map key).Nodup := by
  unfold EpollEvent.lookups
  have hes : ((events.filter (·.fd ≠ eventFd)).map EpollEvent.fd).Nodup :=
    h.sublist (List.filter_sublist.map _)
  generalize events.filter (·.fd ≠ eventFd) = es at hes
  induction es with
  | nil => exact List.nodup_nil
  | cons e es ih =>
    rw [List.map_cons, List.nodup_cons] at hes
    rw [List.flatMap_cons, List.map_append, List.nodup_append]
    refine ⟨?_, ih hes.2, ?_⟩
    · cases hreader : e.isFor .reader <;> cases hwriter : e.isFor .writer <;>
        simp [hreader, hwriter, key]
    · intro k hk k' hk' heq
      simp only [List.mem_map, List.mem_flatMap, key] at hk hk'
      obtain ⟨l, ⟨side, -, rfl⟩, rfl⟩ := hk
      obtain ⟨l', ⟨e', he', side', -, rfl⟩, rfl⟩ := hk'
      have hfd : e.fd = e'.fd := congrArg Prod.snd heq
      exact hes.1 (hfd ▸ List.mem_map_of_mem he')

theorem found_key {m : Side → FdMap C} {l : EpollEvent × Side} {i : Invocation C}
    (h : found m l = some i) : (i.1, i.2.1) = key l := by
  obtain ⟨callback, -, rfl⟩ := Option.map_eq_some_iff.mp h
  rfl

/-- Two lists that may begin with something neither of the rests has. -/
theorem toList_append_inj {α : Type} {x y : Option α} {as bs : List α} (hx : ∀ a ∈ x, a ∉ bs)
    (hy : ∀ a ∈ y, a ∉ as) : x.toList ++ as = y.toList ++ bs ↔ x = y ∧ as = bs := by
  cases x with
  | none =>
    cases y with
    | none => simp
    | some b =>
      refine iff_of_false (fun h => hy b rfl ?_) (by simp)
      rw [Option.toList_none, List.nil_append] at h
      rw [h]
      exact List.mem_cons_self
  | some a =>
    cases y with
    | none =>
      refine iff_of_false (fun h => hx a rfl ?_) (by simp)
      rw [Option.toList_none, List.nil_append] at h
      rw [← h]
      exact List.mem_cons_self
    | some b => simp

/-- The steps of one batch. -/
def isDispatch : Act C K → Bool
  | .call _ | .lookup => true
  | .start | .check | .poll _ | .tick _ => false

/-- A look-up finds what `m` has. -/
def FindsIn (m : Side → FdMap C) (s : NativeLoop C K) : Act C K → Prop
  | .lookup => match s.phase with
      | .dispatch (l :: _) => s.invocation = found m l
      | .dispatch [] | .idle | .check | .poll => True
  | .call _ | .start | .check | .poll _ | .tick _ => True

instance [DecidableEq C] (m : Side → FdMap C) (s : NativeLoop C K) :
    ∀ a : Act C K, Decidable (FindsIn m s a)
  | .lookup => match h : s.phase with
      | .dispatch (l :: _) =>
        decidable_of_iff (s.invocation = found m l) (by simp only [FindsIn, h])
      | .dispatch [] | .idle | .check | .poll => .isTrue (by simp only [FindsIn, h])
  | .call _ | .start | .check | .poll _ | .tick _ => .isTrue trivial

/-- The calls of a batch are those of its look-ups, and are the ones that `m` has if and only if each
look-up finds what `m` has: no two look-ups are for the same, so none can make up for another. -/
theorem dispatch_run {eventFd : Fd} (m : Side → FdMap C) {acts : List (Act C K)}
    {s t : NativeLoop C K} {h h' : History C} {ls : List (EpollEvent × Side)}
    (hacts : ∀ a ∈ acts, isDispatch a) (hphase : s.phase = .dispatch ls) (hnodup : (ls.map key).Nodup)
    (hrun : (machine eventFd).run (s, h) acts = some (t, h')) (hend : t.phase = .dispatch []) :
    ∃ new, h'.invoked = h.invoked ++ new ∧ (∀ i ∈ new, (i.1, i.2.1) ∈ ls.map key) ∧
      (new = ls.filterMap (found m) ↔
        (machine eventFd).Meets (fun x a => FindsIn m x.1 a) (s, h) acts) := by
  induction acts generalizing s h ls with
  | nil =>
    cases hrun
    rw [hphase] at hend
    cases hend
    exact ⟨[], by simp, by simp, by simp⟩
  | cons a acts ih =>
    obtain ⟨⟨u, hu⟩, hstep, hrest⟩ := (machine eventFd).run_cons_eq_some.mp hrun
    rw [(machine eventFd).meets_cons acts hstep]
    obtain ⟨hcore, rfl⟩ := Machine.ghost_step_mk.mp hstep
    have hacts' : ∀ b ∈ acts, isDispatch b := fun b hb => hacts b (List.mem_cons_of_mem a hb)
    cases a with
    | call c =>
      cases hcore
      have hinvoked : (History.upd s (.call c) (s.perform c) h).invoked = h.invoked := by
        cases c <;> rfl
      obtain ⟨new, hnew, hkeys, hiff⟩ := ih hacts' ((perform_phase s c).trans hphase) hnodup hrest
      rw [hinvoked] at hnew
      refine ⟨new, hnew, hkeys, hiff.trans ?_⟩
      exact (and_iff_right trivial).symm
    | lookup =>
      cases ls with
      | nil => simp [step, hphase] at hcore
      | cons l ls =>
        simp only [step, hphase, Option.some.injEq] at hcore
        subst hcore
        rw [List.map_cons, List.nodup_cons] at hnodup
        have hinvocation : s.invocation = found s.loop.coreCallbacks l := by
          simp only [invocation, hphase]
        have hfinds : FindsIn m s .lookup ↔ s.invocation = found m l := by
          simp only [FindsIn, hphase]
        obtain ⟨new, hnew, hkeys, hiff⟩ := ih hacts' rfl hnodup.2 hrest
        refine ⟨s.invocation.toList ++ new, ?_, ?_, ?_⟩
        · rw [hnew]
          exact List.append_assoc ..
        · intro i hi
          rw [List.map_cons]
          obtain hi | hi := List.mem_append.mp hi
          · rw [hinvocation, Option.mem_toList] at hi
            exact List.mem_cons.mpr (.inl (found_key hi))
          · exact List.mem_cons_of_mem _ (hkeys i hi)
        · have hcons : (l :: ls).filterMap (found m) =
              (found m l).toList ++ ls.filterMap (found m) := by
            cases hl : found m l <;> simp [hl]
          rw [hcons, ← hiff, hfinds]
          refine toList_append_inj ?_ ?_
          · intro i hi hmem
            rw [hinvocation] at hi
            obtain ⟨l', hl', hi'⟩ := List.mem_filterMap.mp hmem
            exact hnodup.1 (found_key hi ▸ found_key hi' ▸ List.mem_map_of_mem hl')
          · intro i hi hmem
            exact hnodup.1 (found_key hi ▸ hkeys i hmem)
    | start | check | poll answer | tick result =>
      exact absurd (hacts _ List.mem_cons_self) (by simp [isDispatch])

/-- What a poll that reports something leads to. -/
theorem step_poll {eventFd : Fd} {s t : NativeLoop C K} {events : List EpollEvent}
    (h : step eventFd s (.poll (.events events)) = some t) :
    s.phase = .poll ∧ events.length ≤ 64 ∧ (events.map EpollEvent.fd).Nodup ∧
      t = { s with phase := .dispatch (EpollEvent.lookups eventFd events) } := by
  simp only [step] at h
  split at h
  · rename_i hphase hanswer
    cases hanswer
    simp only [mayReport, Bool.and_eq_true, decide_eq_true_eq, Option.ite_none_right_eq_some,
      Option.some.injEq] at h
    exact ⟨hphase, h.1.1.1, h.1.1.2, h.2.symm⟩
  all_goals cases h
  all_goals rename_i hanswer
  all_goals cases hanswer

/-- A poll that reports nothing leads back to the check, or ends the loop. -/
theorem step_poll_none {eventFd : Fd} {s t : NativeLoop C K} {answer : EpollAnswer}
    (hnone : ∀ events, answer ≠ .events events) (h : step eventFd s (.poll answer) = some t) :
    s.phase = .poll ∧ (t = { s with phase := .check } ∨ t = { s with phase := .idle }) := by
  cases hphase : s.phase with
  | poll =>
    cases answer with
    | events events => exact absurd rfl (hnone events)
    | interrupted =>
      simp only [step, hphase, Option.some.injEq] at h
      exact ⟨rfl, .inl h.symm⟩
    | failed message =>
      simp only [step, hphase, Option.some.injEq] at h
      exact ⟨rfl, .inr h.symm⟩
  | idle | check | dispatch lookups =>
    simp only [step, hphase] at h
    cases h

/-- **The native loop and `_run_once`.** In every run, whatever is called while a batch is gone through: the
native loop calls the callbacks that `_run_once` would have queued of the batch, in the same order, if and
only if every look-up still finds what was registered when the poll returned. -/
theorem native_agrees_iff {eventFd : Fd} {before acts : List (Act C K)} {events : List EpollEvent}
    {s t : NativeLoop C K} {h h' : History C}
    (hbefore : (machine eventFd).run (init, .init) (before ++ [.poll (.events events)]) = some (s, h))
    (hacts : ∀ a ∈ acts, isDispatch a) (hrun : (machine eventFd).run (s, h) acts = some (t, h'))
    (hend : t.phase = .dispatch []) :
    h'.invoked.map handle = queued eventFd events s.loop ↔
      (machine eventFd).Meets (fun x a => FindsIn s.loop.callbacks x.1 a) (s, h) acts := by
  rw [Machine.run_append, Option.bind_eq_some_iff] at hbefore
  obtain ⟨⟨r, g⟩, -, hpoll⟩ := hbefore
  obtain ⟨x, hpoll, hx⟩ := (machine eventFd).run_cons_eq_some.mp hpoll
  cases hx
  obtain ⟨hcore, rfl⟩ := Machine.ghost_step_mk.mp hpoll
  obtain ⟨-, -, hdistinct, hs⟩ := step_poll hcore
  have hphase : s.phase = .dispatch (EpollEvent.lookups eventFd events) := by rw [hs]
  obtain ⟨new, hnew, -, hiff⟩ :=
    dispatch_run s.loop.callbacks hacts hphase (lookups_keys_nodup hdistinct) hrun hend
  have hinvoked : h'.invoked = new := hnew
  have hinjective : Function.Injective (handle : Invocation C → IoHandle C K) := by
    intro i j hij
    obtain ⟨side, fd, callback⟩ := i
    obtain ⟨side', fd', callback'⟩ := j
    cases hij
    rfl
  rw [queued_eq, hinvoked, ← hiff]
  exact hinjective.list_map.eq_iff

/-! ## Removed callbacks -/

/-- The core has the loop's callbacks, none of them removed, and no handle of one is queued. -/
structure Sound (x : NativeLoop C K × History C) : Prop where
  core : x.1.loop.coreCallbacks = x.1.loop.callbacks
  fresh : ReaderLoop.Fresh (x.1.loop, x.2.removed)
  other : ∀ i ∈ x.1.loop.ready ++ x.1.loop.batch, ∃ k, i = .other k

theorem sound_init : Sound ((init, .init) : NativeLoop C K × History C) where
  core := rfl
  fresh side fd h := by
    simp [init, ReaderLoop.init] at h
  other i h := by
    simp [init, ReaderLoop.init] at h

/-- No call queues a handle of a callback. -/
theorem perform_other {s : NativeLoop C K} (h : ∀ i ∈ s.loop.ready ++ s.loop.batch, ∃ k, i = .other k)
    (c : Call C K) : ∀ i ∈ (s.perform c).loop.ready ++ (s.perform c).loop.batch, ∃ k, i = .other k := by
  cases c with
  | add side refused fd callback =>
    obtain ⟨hready, hbatch, -⟩ := ReaderLoop.add_spec side refused fd callback s.loop
    rw [perform, hready, hbatch]
    exact h
  | remove side fd =>
    obtain ⟨-, hready, hbatch⟩ := ReaderLoop.remove_spec side fd s.loop
    rw [perform, hready, hbatch]
    exact h
  | callSoon k =>
    intro i hi
    simp only [perform, List.append_assoc, List.mem_append, List.mem_singleton] at hi
    obtain hready | rfl | hbatch := hi
    · exact h i (List.mem_append_left _ hready)
    · exact ⟨k, rfl⟩
    · exact h i (List.mem_append_right _ hbatch)
  | closeFd fd | stop | clearStop => exact h

theorem Sound.step {eventFd : Fd} {x y : NativeLoop C K × History C} {a : Act C K} (h : Sound x)
    (hstep : (machine eventFd).step x a = some y) : Sound y := by
  obtain ⟨s, g⟩ := x
  obtain ⟨t, g'⟩ := y
  obtain ⟨hcore, rfl⟩ := Machine.ghost_step_mk.mp hstep
  refine ⟨step_core h.core hcore, ?_, ?_⟩
  · obtain ⟨c, rfl, rfl⟩ | ⟨hnot, hcallbacks, -⟩ := step_loop hcore
    · have := Classical.decEq C
      have hnone : ReaderLoop.NoneQueued (s.loop, g.removed) := by
        intro i hi
        obtain ⟨k, rfl⟩ := h.other i hi
        rfl
      cases c with
      | add side refused fd callback =>
        exact (ReaderLoop.noneQueued_add h.fresh hnone side refused fd callback rfl).1
      | remove side fd => exact (ReaderLoop.noneQueued_remove_iff h.fresh hnone side fd rfl).1
      | callSoon k | closeFd fd | stop | clearStop => exact h.fresh
    · intro side fd hsome
      have hremoved : (History.upd s a t g).removed = g.removed := by
        cases a with
        | call c => exact absurd rfl (hnot c)
        | start | check | poll answer | lookup | tick result => rfl
      show ((History.upd s a t g).removed side).lookup fd = none
      rw [hremoved]
      exact h.fresh side fd (by rwa [hcallbacks] at hsome)
  · obtain ⟨c, rfl, rfl⟩ | ⟨-, -, -, hready, hbatch⟩ := step_loop hcore
    · exact perform_other h.other c
    · intro i hi
      obtain hi | hi := List.mem_append.mp hi
      · obtain hready | hready := hready
        · exact h.other i (List.mem_append_left _ (hready ▸ hi))
        · rw [hready] at hi
          cases hi
      · exact h.other i (List.mem_append_right _ (hbatch ▸ hi))

/-- **Only what is registered is called.** In every run: whatever a look-up calls is registered at that
moment, with the loop and with the core, and so is not a callback that was removed and not replaced. -/
theorem native_calls_registered (eventFd : Fd) (acts : List (Act C K)) :
    (machine eventFd).Meets (fun x a => a = .lookup → ∀ i ∈ x.1.invocation,
      (x.1.loop.callbacks i.1).lookup i.2.1 = some i.2.2 ∧
        (x.1.loop.coreCallbacks i.1).lookup i.2.1 = some i.2.2 ∧
        (x.2.removed i.1).lookup i.2.1 = none) (init, .init) acts := by
  refine Machine.meets_of_invariant (I := Sound) (fun _ _ _ h => h.step) ?_ sound_init acts
  intro x a h _ i hi
  obtain ⟨s, g⟩ := x
  have hfound : (s.loop.coreCallbacks i.1).lookup i.2.1 = some i.2.2 := by
    unfold invocation at hi
    split at hi
    · obtain ⟨callback, hlookup, rfl⟩ := Option.map_eq_some_iff.mp hi
      exact hlookup
    all_goals cases hi
  have hcallbacks : (s.loop.callbacks i.1).lookup i.2.1 = some i.2.2 := by
    rw [← h.core]
    exact hfound
  exact ⟨hcallbacks, hfound, h.fresh i.1 i.2.1 (by rw [hcallbacks]; rfl)⟩

/-! ## Stopping -/

/-- The loop's own steps. -/
def isLoopStep : Act C K → Bool
  | .check | .poll _ | .lookup | .tick _ => true
  | .call _ | .start => false

def isPoll : Act C K → Bool
  | .poll _ => true
  | .call _ | .start | .check | .lookup | .tick _ => false

/-- The flag stays. -/
def KeepsStop : Act C K → Prop
  | .start | .call .clearStop => False
  | .call _ | .check | .poll _ | .lookup | .tick _ => True

/-- The steps left when the loop is stopping: those of one more batch, which has 64 events at most, its
tick, and the check. -/
def remaining : NativePhase → Nat
  | .idle => 0
  | .check => 1
  | .dispatch lookups => lookups.length + 2
  | .poll => 2 * 64 + 3

def pollsLeft : NativePhase → Nat
  | .poll => 1
  | .idle | .check | .dispatch _ => 0

theorem lookups_length_le (eventFd : Fd) (events : List EpollEvent) :
    (EpollEvent.lookups eventFd events).length ≤ 2 * events.length := by
  have hfilter : (events.filter (·.fd ≠ eventFd)).length ≤ events.length := List.length_filter_le ..
  unfold EpollEvent.lookups
  generalize events.filter (·.fd ≠ eventFd) = es at hfilter
  have hsides : (es.flatMap fun e => ([Side.reader, Side.writer].filter e.isFor).map (e, ·)).length ≤
      2 * es.length := by
    induction es with
    | nil => exact Nat.zero_le _
    | cons e es ih =>
      have ih := ih (by simp only [List.length_cons] at hfilter; omega)
      have hone : ([Side.reader, Side.writer].filter e.isFor).length ≤ 2 := List.length_filter_le ..
      simp only [List.flatMap_cons, List.length_append, List.length_map, List.length_cons] at ih ⊢
      omega
  omega

/-- A stopping loop goes on to return. -/
theorem step_stopping {eventFd : Fd} {s t : NativeLoop C K} {a : Act C K} (hstop : s.stopping = true)
    (hkeeps : KeepsStop a) (h : step eventFd s a = some t) : t.stopping = true ∧
      remaining t.phase + (if isLoopStep a then 1 else 0) ≤ remaining s.phase ∧
      pollsLeft t.phase + (if isPoll a then 1 else 0) ≤ pollsLeft s.phase := by
  cases a with
  | call c =>
    cases h
    refine ⟨?_, ?_, ?_⟩
    · cases c with
      | clearStop => exact hkeeps.elim
      | add | remove | callSoon | closeFd => exact hstop
      | stop => rfl
    · rw [perform_phase]
      exact Nat.le_refl _
    · rw [perform_phase]
      exact Nat.le_refl _
  | start => exact hkeeps.elim
  | check =>
    simp only [step] at h
    split at h
    · rename_i hphase
      cases h
      simp [hstop, hphase, remaining, pollsLeft, isLoopStep, isPoll]
    all_goals cases h
  | poll answer =>
    cases answer with
    | events events =>
      obtain ⟨hphase, hlen, -, rfl⟩ := step_poll h
      have hlookups := lookups_length_le eventFd events
      refine ⟨hstop, ?_, ?_⟩
      · simp only [hphase, remaining, isLoopStep, if_true]
        omega
      · simp [hphase, pollsLeft, isPoll]
    | interrupted | failed message =>
      obtain ⟨hphase, rfl | rfl⟩ := step_poll_none (fun _ hanswer => by cases hanswer) h
      · simp [hstop, hphase, remaining, pollsLeft, isLoopStep, isPoll]
      · simp [hstop, hphase, remaining, pollsLeft, isLoopStep, isPoll]
  | lookup =>
    simp only [step] at h
    split at h
    · rename_i hphase
      cases h
      refine ⟨hstop, ?_, ?_⟩
      · simp only [hphase, remaining, isLoopStep, if_true, List.length_cons]
        omega
      · simp [hphase, pollsLeft, isPoll]
    all_goals cases h
  | tick result =>
    simp only [step] at h
    split at h
    all_goals cases h
    all_goals rename_i hphase
    all_goals simp [hstop, hphase, remaining, pollsLeft, isLoopStep, isPoll]

/-- The loop can always go on. -/
theorem exists_loopStep {eventFd : Fd} {s : NativeLoop C K} (h : s.phase ≠ .idle) :
    ∃ a : Act C K, isLoopStep a ∧ (step eventFd s a).isSome := by
  cases hphase : s.phase with
  | idle => exact absurd hphase h
  | check => exact ⟨.check, rfl, by simp [step, hphase]⟩
  | poll => exact ⟨.poll .interrupted, rfl, by simp [step, hphase]⟩
  | dispatch lookups =>
    cases lookups with
    | nil => exact ⟨.tick (.ok ()), rfl, by simp [step, hphase]⟩
    | cons l rest => exact ⟨.lookup, rfl, by simp [step, hphase]⟩

/-- A step of the loop itself leaves the flag alone. -/
theorem loopStep_spec {eventFd : Fd} {s t : NativeLoop C K} {a : Act C K} (hloop : isLoopStep a)
    (h : step eventFd s a = some t) : s.phase ≠ .idle ∧ t.stopping = s.stopping := by
  cases a with
  | call c | start => cases hloop
  | poll answer =>
    cases answer with
    | events events =>
      obtain ⟨hphase, -, -, rfl⟩ := step_poll h
      exact ⟨by simp [hphase], rfl⟩
    | interrupted | failed message =>
      obtain ⟨hphase, rfl | rfl⟩ := step_poll_none (fun _ hanswer => by cases hanswer) h
      · exact ⟨by simp [hphase], rfl⟩
      · exact ⟨by simp [hphase], rfl⟩
  | check | lookup | tick result =>
    simp only [step] at h
    split at h
    all_goals cases h
    all_goals rename_i hphase
    all_goals exact ⟨by simp [hphase], rfl⟩

/-- A loop that runs and is stopping was stopped since its start. -/
def StoppedSince (x : NativeLoop C K × History C) : Prop :=
  x.1.phase ≠ .idle → x.1.stopping = true → 0 < x.2.stops

theorem StoppedSince.step {eventFd : Fd} {x y : NativeLoop C K × History C} {a : Act C K}
    (h : StoppedSince x) (hstep : (machine eventFd).step x a = some y) : StoppedSince y := by
  obtain ⟨s, g⟩ := x
  obtain ⟨t, g'⟩ := y
  obtain ⟨hcore, rfl⟩ := Machine.ghost_step_mk.mp hstep
  have hcore : NativeLoop.step eventFd s a = some t := hcore
  cases a with
  | call c =>
    cases hcore
    intro hphase hstop
    rw [perform_phase] at hphase
    cases c with
    | stop => exact Nat.succ_pos _
    | clearStop => cases hstop
    | add | remove | callSoon | closeFd => exact h hphase hstop
  | start =>
    simp only [NativeLoop.step] at hcore
    split at hcore
    all_goals cases hcore
    intro _ hstop
    cases hstop
  | check | poll answer | lookup | tick result =>
    obtain ⟨hphase, hstopping⟩ := loopStep_spec rfl hcore
    intro _ hstop
    exact h hphase (hstopping.symm.trans hstop)

/-- A batch has 64 events at most. -/
theorem remaining_step {eventFd : Fd} {s t : NativeLoop C K} {a : Act C K}
    (h : step eventFd s a = some t) (hle : remaining s.phase ≤ 131) : remaining t.phase ≤ 131 := by
  cases a with
  | call c =>
    cases h
    rwa [perform_phase]
  | poll answer =>
    cases answer with
    | events events =>
      obtain ⟨-, hlen, -, rfl⟩ := step_poll h
      have hlookups := lookups_length_le eventFd events
      simp only [remaining]
      omega
    | interrupted | failed message =>
      obtain ⟨-, rfl | rfl⟩ := step_poll_none (fun _ hanswer => by cases hanswer) h
      · simp [remaining]
      · simp [remaining]
  | check =>
    simp only [step] at h
    split at h
    · cases h
      show remaining (if s.stopping then .idle else .poll) ≤ 131
      split <;> simp [remaining]
    all_goals cases h
  | lookup =>
    simp only [step] at h
    split at h
    · rename_i hphase
      cases h
      simp only [hphase, remaining, List.length_cons] at hle ⊢
      omega
    all_goals cases h
  | start | tick result =>
    simp only [step] at h
    split at h
    all_goals cases h
    all_goals simp [remaining]

/-- **Stopping.** At the end of every run: a loop that is running and has its flag set was stopped since it
was started, a `stop` from before is forgotten. From then on, as long as the flag is not cleared, it polls at
most once more and takes no more than 131 steps, and until it has returned it can take one. -/
theorem native_stops {eventFd : Fd} {before acts : List (Act C K)} {s t : NativeLoop C K}
    {h h' : History C} (hbefore : (machine eventFd).run (init, .init) before = some (s, h))
    (hrun : (machine eventFd).run (s, h) acts = some (t, h')) (hkeeps : ∀ a ∈ acts, KeepsStop a) :
    (s.phase ≠ .idle → s.stopping = true → 0 < h.stops) ∧
    (s.stopping = true →
      acts.countP isLoopStep ≤ 131 ∧ acts.countP isPoll ≤ (if s.phase = .poll then 1 else 0) ∧
        (t.phase ≠ .idle → ∃ a, isLoopStep a ∧ (step eventFd t a).isSome)) := by
  have hsince : StoppedSince (s, h) := by
    apply Machine.run_invariant' (I := StoppedSince) (fun _ _ _ h hstep => h.step hstep) ?_ hbefore
    intro hphase
    exact absurd rfl hphase
  have hbound : remaining s.phase ≤ 131 := by
    refine Machine.run_invariant' (I := fun s : NativeLoop C K => remaining s.phase ≤ 131)
      (fun _ _ _ hle hstep => remaining_step hstep hle) ?_ (Machine.run_of_run_ghost hbefore)
    exact Nat.zero_le _
  refine ⟨hsince, fun hstop => ?_⟩
  have hcore : (Machine.mk (step eventFd)).run s acts = some t := Machine.run_of_run_ghost hrun
  have hsteps : remaining t.phase + acts.countP isLoopStep ≤ remaining s.phase := by
    apply Machine.countP_le_of_rank (P := KeepsStop) (I := fun s => s.stopping = true)
      (fun s => remaining s.phase) isLoopStep ?_ hstop hkeeps hcore
    intro u a v hu ha hstep
    exact ⟨(step_stopping hu ha hstep).1, (step_stopping hu ha hstep).2.1⟩
  have hpolls : pollsLeft t.phase + acts.countP isPoll ≤ pollsLeft s.phase := by
    apply Machine.countP_le_of_rank (P := KeepsStop) (I := fun s => s.stopping = true)
      (fun s => pollsLeft s.phase) isPoll ?_ hstop hkeeps hcore
    intro u a v hu ha hstep
    exact ⟨(step_stopping hu ha hstep).1, (step_stopping hu ha hstep).2.2⟩
  refine ⟨by omega, ?_, exists_loopStep⟩
  have hleft : pollsLeft s.phase = if s.phase = .poll then 1 else 0 := by
    cases s.phase <;> rfl
  omega

/-! ## Two runs -/

/-- Descriptor 5 has a reader, and 6 too. -/
def readersRun : List (Act Nat Unit) :=
  [.call (.add .reader false 5 1), .call (.add .reader false 6 2), .start, .check]

/-- Both can be read. -/
def bothReadable : List EpollEvent :=
  [⟨5, true, false, false, false⟩, ⟨6, true, false, false, false⟩]

/-- The first reader replaces the second. -/
def replacing : List (Act Nat Unit) :=
  [.lookup, .call (.add .reader false 6 3), .lookup]

theorem native_agrees_not_replaced :
    ∃ (s t : NativeLoop Nat Unit) (h h' : History Nat),
      (machine 9).run (init, .init) (readersRun ++ [.poll (.events bothReadable)]) = some (s, h) ∧
      (machine 9).run (s, h) replacing = some (t, h') ∧
      h'.invoked.map handle ≠ queued 9 bothReadable s.loop := by
  have hiff := native_agrees_iff
    (show (machine 9).run (init, .init) (readersRun ++ [.poll (.events bothReadable)]) = some (_, _) from rfl)
    (show ∀ a ∈ replacing, isDispatch a by decide)
    (show (machine 9).run (_, _) replacing = some (_, _) from rfl) rfl
  exact ⟨_, _, _, _, rfl, rfl, fun heq => absurd (hiff.mp heq) (by decide)⟩

/-- The loop is stopped while it polls, and interrupted. -/
theorem native_stops_interrupted :
    ∃ (s t : NativeLoop Nat Unit) (h h' : History Nat),
      (machine 9).run (init, .init) [.start, .check, .call .stop] = some (s, h) ∧
      (machine 9).run (s, h) [.poll .interrupted, .check] = some (t, h') ∧ t.phase = .idle ∧
      0 < h.stops := by
  have hstops := native_stops
    (show (machine 9).run (init, .init) [.start, .check, .call .stop] = some (_, _) from rfl)
    (show (machine 9).run (_, _) ([.poll .interrupted, .check] : List (Act Nat Unit)) = some (_, _)
      from rfl)
    (by simp [KeepsStop])
  exact ⟨_, _, _, _, rfl, rfl, rfl, hstops.1 (by simp) rfl⟩

end NativeLoop

end Uringcore
