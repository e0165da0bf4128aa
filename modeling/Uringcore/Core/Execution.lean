import Uringcore.Core.System

/-!
# Executing the ready queue

The second half of `run_tick`: the drained batch is executed handle by handle. Callbacks are Python
code, and all that the loop promises about them has to hold whatever they do. So they are a
parameter (`Python`): given the world they live in and the core, a callback comes back with the
*effects* it had on the loop, in order (it pushes handles and timers, cancels handles, calls the
core), and with the exception it raised, if any. The same parameter says what setting the result
of a future does.

`run_tick` prints what a callback raises and goes on with the next handle. Two exceptions never get
that far. A `PanicException` is a panic again as soon as PyO3 has taken it, so `run_tick` unwinds; and
printing `SystemExit` ends the process. Either way what is left of the batch, which is no longer in the
ready queue, is lost: `tickLaw_iff`.

`Loop.runTick` is one whole tick. What a run has done is kept in a `History` beside the state:
everything that entered the ready queue, everything that was pushed, every turn a handle had.
-/

namespace Uringcore

namespace UringCore
variable {F H T : Type}

def pushTask (handle : H) (core : UringCore F H T) : UringCore F H T :=
  { core with scheduler := core.scheduler.push handle }

def pushTimer [LE T] [DecidableLE T] (expiration : T) (handle : H) (core : UringCore F H T) :
    UringCore F H T :=
  { core with timers := core.timers.push expiration handle }

def Act.isTick : Act F H T → Bool
  | .runTick .. => true
  | .registerFd .. | .unregisterFd _ | .pauseReading _ | .resumeReading _ | .registerFile ..
  | .unregisterFile .. | .request .. | .submit _ | .consume _ | .complete .. => false

end UringCore

/-- One thing that happens to the loop while a callback runs. -/
inductive Effect (F H T : Type) where
  | pushTask (handle : H)
  | pushTimer (expiration : T) (handle : H)
  | cancel (handle : H)
  /-- Any other call of the core, or the kernel meanwhile. Ticks do not nest. -/
  | core (a : { a : UringCore.Act F H T // a.isTick = false })

/-- What ends a tick before its batch is through. -/
inductive Halt where
  /-- A `PanicException` unwinds `run_tick`. -/
  | panic
  /-- `SystemExit` ends the process when it is printed. -/
  | systemExit
  deriving DecidableEq, Repr

/-- How a call of Python code ends. -/
inductive Ending (α : Type) where
  | returned (value : α)
  | raised (exc : String)
  | halted (halt : Halt)
  deriving DecidableEq, Repr

def Ending.halt? {α : Type} : Ending α → Option Halt
  | halted halt => some halt
  | returned _ | raised _ => none

/-- The Python side of the loop, in the world `Ω`. -/
structure Python (Ω F H T : Type) where
  /-- Setting the result of a future, with the handles this pushes. What it raises is printed. -/
  settle : Ω → F → Outcome → Ω × List H
  /-- The handle is a `UringHandle`. -/
  native : H → Bool
  /-- The `cancelled` method of another object, given the core and the cancelled handles: its effects,
  and whether the answer is true. An object without the method raises. -/
  asks : Ω → UringCore F H T → List H → H → Ω × List (Effect F H T) × Ending Bool
  /-- The callback of a handle, in the same way. -/
  call : Ω → UringCore F H T → List H → H → Ω × List (Effect F H T) × Ending Unit

/-- A handle of a batch has had its turn, with these effects: it was skipped, or that is how it
ended. -/
structure Turn (F H T : Type) where
  handle : H
  effects : List (Effect F H T)
  ran : Option (Ending Unit)

structure Loop (Ω F H T : Type) where
  core : UringCore F H T
  world : Ω
  /-- The handles whose flag is set. -/
  cancelled : List H

/-- What a tick has done: the tuples it is to return, the handles pushed by setting results, the turns,
and what has ended it before it could return. -/
structure Executed (F H T : Type) where
  results : List ResultTuple
  settled : List H
  turns : List (Turn F H T)
  halt? : Option Halt

/-- The handles that setting these results pushes, in order. -/
def settlePushes {Ω F H : Type} (settle : Ω → F → Outcome → Ω × List H) :
    List (CompletionItem × Option F) → Ω → List H
  | [], _ => []
  | (_, none) :: items, ω => settlePushes settle items ω
  | (item, some fut) :: items, ω =>
      (settle ω fut item.outcome).2 ++ settlePushes settle items (settle ω fut item.outcome).1

namespace Effect
variable {F H T : Type}

/-- What goes to the ready queue. -/
def ready? : Effect F H T → Option H
  | pushTask handle => some handle
  | pushTimer .. | cancel _ | core _ => none

/-- What goes to the timer heap. -/
def timer? : Effect F H T → Option H
  | pushTimer _ handle => some handle
  | pushTask _ | cancel _ | core _ => none

end Effect

namespace Turn
variable {F H T : Type}

def halt? (turn : Turn F H T) : Option Halt := turn.ran.bind Ending.halt?

def ready (turn : Turn F H T) : List H := turn.effects.filterMap Effect.ready?

def timers (turn : Turn F H T) : List H := turn.effects.filterMap Effect.timer?

end Turn

namespace Loop
variable {Ω F H T : Type} [LE T] [DecidableLE T]

def perform (s : Loop Ω F H T) : Effect F H T → Loop Ω F H T
  | .pushTask handle => { s with core := s.core.pushTask handle }
  | .pushTimer expiration handle => { s with core := s.core.pushTimer expiration handle }
  | .cancel handle => { s with cancelled := handle :: s.cancelled }
  | .core a => { s with core := (UringCore.machine.step s.core a.1).getD s.core }

variable [DecidableEq H] (py : Python Ω F H T)

/-- The check before a handle runs: the flag of a `UringHandle`, or what `cancelled` answers. -/
def ask (handle : H) (s : Loop Ω F H T) : Loop Ω F H T × List (Effect F H T) × Ending Bool :=
  if py.native handle then (s, [], .returned (decide (handle ∈ s.cancelled)))
  else
    let r := py.asks s.world s.core s.cancelled handle
    (r.2.1.foldl perform { s with world := r.1 }, r.2)

/-- One handle of the batch: `UringHandle::execute`, or `_run` of another object. -/
def execute (handle : H) (s : Loop Ω F H T) : Loop Ω F H T × Turn F H T :=
  let q := s.ask py handle
  match q.2.2 with
  | .returned true => (q.1, ⟨handle, q.2.1, none⟩)
  | .halted .panic => (q.1, ⟨handle, q.2.1, some (.halted .panic)⟩)
  -- any other exception of `cancelled` counts as a no
  | .returned false | .raised _ | .halted .systemExit =>
      let r := py.call q.1.world q.1.core q.1.cancelled handle
      (r.2.1.foldl perform { q.1 with world := r.1 }, ⟨handle, q.2.1 ++ r.2.1, some r.2.2⟩)

/-- The loop over the batch. An exception is printed and forgotten, unless it ends the tick. -/
def executeAll : List H → Loop Ω F H T → Loop Ω F H T × List (Turn F H T) × Option Halt
  | [], s => (s, [], none)
  | handle :: handles, s =>
      let r := s.execute py handle
      match r.2.halt? with
      | some halt => (r.1, [r.2], some halt)
      | none =>
          let rs := executeAll handles r.1
          (rs.1, r.2 :: rs.2.1, rs.2.2)

/-- `run_tick`. -/
def runTick (clock : T) (enter : Except String Nat) (s : Loop Ω F H T) :
    Loop Ω F H T × Except PyErr (Executed F H T) :=
  match s.core.runTick py.settle clock enter s.world with
  | (core, world, .error e) => ({ s with core, world }, .error e)
  | (core, world, .ok out) =>
      let r := executeAll py out.batch { s with core, world }
      (r.1, .ok ⟨out.results, settlePushes py.settle out.resolved s.world, r.2.1, r.2.2⟩)

/-- A step of the loop: something happens between ticks, or a tick. -/
inductive Act (F H T : Type) where
  | effect (e : Effect F H T)
  | runTick (clock : T) (enter : Except String Nat)

/-- The process has ended. -/
def exits (r : Except PyErr (Executed F H T)) : Bool :=
  match r with
  | .ok out => out.halt? = some .systemExit
  | .error _ => false

def machine : Machine (Loop Ω F H T) (Act F H T) where
  step s
    | .effect e => some (s.perform e)
    | .runTick clock enter =>
        let r := s.runTick py clock enter
        if exits r.2 then none else some r.1

end Loop

/-- What a run has done: the handles that entered the ready queue and those that were pushed (to the
queue or to the timers), in order, and the turns handles had. -/
structure History (F H T : Type) where
  entered : List H
  pushed : List H
  turns : List (Turn F H T)

namespace History
variable {Ω F H T : Type} [LE T] [DecidableLE T] [DecidableEq H]

def init : History F H T := ⟨[], [], []⟩

def upd (py : Python Ω F H T) (s : Loop Ω F H T) (a : Loop.Act F H T) (past : History F H T) :
    History F H T :=
  match a with
  | .effect e => { past with
      entered := past.entered ++ e.ready?.toList
      pushed := past.pushed ++ e.ready?.toList ++ e.timer?.toList }
  | .runTick clock enter =>
      let expired := (s.core.timers.popExpired clock).2
      match (s.runTick py clock enter).2 with
      | .error _ => { past with entered := past.entered ++ expired }
      | .ok out => {
          entered := past.entered ++ expired ++ out.settled ++ out.turns.flatMap Turn.ready
          pushed := past.pushed ++ out.settled ++ out.turns.flatMap Turn.ready ++
            out.turns.flatMap Turn.timers
          turns := past.turns ++ out.turns }

end History

/-! ## The queues while the core works -/

namespace UringCore
variable {F H T : Type}

/-- A submission touches neither the ready queue nor the timers. -/
theorem Submission.queues {s t : UringCore F H T} {enter : Except String Nat} {fd : Fd}
    {req : Request F} (h : s.Submission enter fd req t) :
    t.scheduler = s.scheduler ∧ t.timers = s.timers := by
  cases h <;> exact ⟨rfl, rfl⟩

theorem processAll_queues (cqes : List CompletionEntry) (core : UringCore F H T) :
    (core.processAll cqes).1.scheduler = core.scheduler ∧
      (core.processAll cqes).1.timers = core.timers := by
  induction cqes generalizing core with
  | nil => exact ⟨rfl, rfl⟩
  | cons c cs ih =>
    obtain ⟨hscheduler, htimers⟩ := ih (core.process c).1
    refine ⟨hscheduler.trans ?_, htimers.trans ?_⟩ <;> rw [process, extract_eq]

/-- Setting results appends what they push. -/
theorem settleAll_eq {Ω : Type} (settle : Ω → F → Outcome → Ω × List H)
    (items : List (CompletionItem × Option F)) (ω : Ω) (queue : Scheduler H) :
    (settleAll settle items ω queue).2 = queue ++ settlePushes settle items ω := by
  induction items generalizing ω queue with
  | nil => exact (List.append_nil queue).symm
  | cons item items ih =>
    obtain ⟨item, fut | fut⟩ := item
    · exact ih ω queue
    · rw [settleAll, ih, Scheduler.foldl_push, settlePushes, List.append_assoc]

variable [LE T] [DecidableLE T]

/-- Nothing but a tick touches the queues. -/
theorem queues_step {s t : UringCore F H T} (hs : s.Sound) {a : Act F H T} (ha : a.isTick = false)
    (h : machine.step s a = some t) : t.scheduler = s.scheduler ∧ t.timers = s.timers := by
  have hpause (fd : Fd) (f : FDState → FDState) :
      (s.withFdStates (s.fdStates.withStateMut fd f)).1.scheduler = s.scheduler ∧
        (s.withFdStates (s.fdStates.withStateMut fd f)).1.timers = s.timers := by
    unfold withFdStates
    split <;> exact ⟨rfl, rfl⟩
  cases a with
  | runTick clock enter pushed => cases ha
  | unregisterFd fd =>
    cases h
    rw [unregisterFd_eq hs]
    exact ⟨rfl, rfl⟩
  | pauseReading fd =>
    cases h
    exact hpause fd _
  | resumeReading fd =>
    cases h
    exact hpause fd _
  | request now enter fd req =>
    cases h
    have hsub : s.Submission enter fd req (s.request now enter fd req).1 := request_spec hs now req
    exact hsub.queues
  | complete i payload select more =>
    have h : s.complete i payload select more = some t := h
    unfold complete at h
    split at h
    · cases h
    · split at h
      · cases h
        exact ⟨rfl, rfl⟩
      · cases h
  | _ =>
    cases h
    exact ⟨rfl, rfl⟩

theorem sound_runTick {Ω : Type} (settle : Ω → F → Outcome → Ω × List H) (clock : T)
    (enter : Except String Nat) (ω : Ω) {s : UringCore F H T} (hs : s.Sound) :
    (s.runTick settle clock enter ω).1.Sound :=
  tick_rule (fun _ _ h => Sound.of_same h) (fun _ _ _ hcq h => h.of_processNext hcq) settle clock
    enter ω hs

/-- The queues after a tick has drained them, and the batch it has drained. -/
theorem runTick_queues {Ω : Type} (settle : Ω → F → Outcome → Ω × List H) (clock : T)
    (enter : Except String Nat) (ω : Ω) (s : UringCore F H T) :
    (s.runTick settle clock enter ω).1.timers = (s.timers.popExpired clock).1 ∧
    match (s.runTick settle clock enter ω).2.2 with
    | .error _ => (s.runTick settle clock enter ω).1.scheduler =
        s.scheduler ++ (s.timers.popExpired clock).2
    | .ok out => (s.runTick settle clock enter ω).1.scheduler = [] ∧
        out.batch = s.scheduler ++ (s.timers.popExpired clock).2 ++
          settlePushes settle out.resolved ω := by
  have hring : (s.expireTimers clock).ring = s.ring := rfl
  have hscheduler : (s.expireTimers clock).scheduler =
      s.scheduler ++ (s.timers.popExpired clock).2 := Scheduler.foldl_push _ _
  unfold runTick
  simp only [hring]
  split
  · exact ⟨rfl, hscheduler⟩
  · rename_i ring n hsubmit
    simp only [processCompletions_eq]
    generalize hcore : ({ s.expireTimers clock with ring := ring.drainCompletions.1 } :
      UringCore F H T) = core
    obtain ⟨hqueue, htimers⟩ := processAll_queues ring.drainCompletions.2 core
    refine ⟨?_, rfl, ?_⟩
    · rw [htimers, ← hcore]
      rfl
    · show (settleAll settle _ ω _).2 = _
      rw [settleAll_eq, hqueue, ← hcore]
      exact congrArg (· ++ _) hscheduler

end UringCore

/-! ## The batch -/

namespace Loop
variable {Ω F H T : Type} [LE T] [DecidableLE T]

/-- From `s` to `t` these handles went to the back of the ready queue, and these to the timers. -/
structure Ran (s t : Loop Ω F H T) (ready timers : List H) : Prop where
  sound : t.core.Sound
  scheduler : t.core.scheduler = s.core.scheduler ++ ready
  timers : t.core.timers.handles.Perm (s.core.timers.handles ++ timers)

omit [LE T] [DecidableLE T] in
theorem Ran.refl {s : Loop Ω F H T} (hs : s.core.Sound) : Ran s s [] [] :=
  ⟨hs, (List.append_nil _).symm, by rw [List.append_nil]⟩

omit [LE T] [DecidableLE T] in
theorem Ran.trans {s t u : Loop Ω F H T} {ready ready' timers timers' : List H}
    (h : Ran s t ready timers) (h' : Ran t u ready' timers') :
    Ran s u (ready ++ ready') (timers ++ timers') where
  sound := h'.sound
  scheduler := by rw [h'.scheduler, h.scheduler, List.append_assoc]
  timers := by
    rw [← List.append_assoc]
    exact h'.timers.trans (h.timers.append_right _)

/-- What an effect says it pushes is what it pushes. -/
theorem ran_perform {s : Loop Ω F H T} (hs : s.core.Sound) (e : Effect F H T) :
    Ran s (s.perform e) e.ready?.toList e.timer?.toList := by
  cases e with
  | pushTask handle =>
    refine ⟨hs.of_states hs.ring rfl rfl fun _ _ h => .inl h, rfl, ?_⟩
    exact (Ran.refl hs).timers
  | pushTimer expiration handle =>
    refine ⟨hs.of_states hs.ring rfl rfl fun _ _ h => .inl h, (List.append_nil _).symm, ?_⟩
    exact (TimerHeap.push_handles expiration handle s.core.timers).trans
      (List.perm_append_singleton _ _).symm
  | cancel handle => exact ⟨hs, (Ran.refl hs).scheduler, (Ran.refl hs).timers⟩
  | core a =>
    obtain ⟨a, ha⟩ := a
    cases hstep : UringCore.machine.step s.core a with
    | none =>
      have hcore : s.perform (.core ⟨a, ha⟩) = s := by simp [perform, hstep]
      rw [hcore]
      exact Ran.refl hs
    | some t =>
      have hcore : s.perform (.core ⟨a, ha⟩) = { s with core := t } := by simp [perform, hstep]
      obtain ⟨hscheduler, htimers⟩ := UringCore.queues_step hs ha hstep
      rw [hcore]
      refine ⟨hs.step hstep, ?_, ?_⟩
      · simp [hscheduler, Effect.ready?]
      · simp [htimers, Effect.timer?]

theorem ran_effects {s : Loop Ω F H T} (hs : s.core.Sound) (effects : List (Effect F H T)) :
    Ran s (effects.foldl perform s) (effects.filterMap Effect.ready?)
      (effects.filterMap Effect.timer?) := by
  induction effects generalizing s with
  | nil => exact Ran.refl hs
  | cons e effects ih =>
    have h := ran_perform hs e
    have h' := h.trans (ih h.sound)
    have hcons (f : Effect F H T → Option H) :
        (e :: effects).filterMap f = (f e).toList ++ effects.filterMap f := by
      rw [List.filterMap_cons]
      cases f e <;> rfl
    rw [List.foldl_cons, hcons, hcons]
    exact h'

/-- The same, in another world. -/
theorem ran_in_world {s : Loop Ω F H T} (hs : s.core.Sound) (world : Ω)
    (effects : List (Effect F H T)) : Ran s (effects.foldl perform { s with world })
      (effects.filterMap Effect.ready?) (effects.filterMap Effect.timer?) := by
  have h := ran_effects (s := { s with world }) hs effects
  exact ⟨h.sound, h.scheduler, h.timers⟩

theorem mem_cancelled_perform {s : Loop Ω F H T} {e : Effect F H T} {handle : H} :
    handle ∈ (s.perform e).cancelled ↔ handle ∈ s.cancelled ∨ .cancel handle = e := by
  cases e with
  | cancel other => simp [perform, or_comm]
  | pushTask _ => simp [perform]
  | pushTimer _ _ => simp [perform]
  | core _ => simp [perform]

/-- The handles that are cancelled after these effects. -/
theorem mem_cancelled_effects {effects : List (Effect F H T)} {s : Loop Ω F H T} {handle : H} :
    handle ∈ (effects.foldl perform s).cancelled ↔
      handle ∈ s.cancelled ∨ .cancel handle ∈ effects := by
  induction effects generalizing s with
  | nil => simp
  | cons e effects ih =>
    rw [List.foldl_cons, ih, mem_cancelled_perform, List.mem_cons, or_assoc]

variable [DecidableEq H] (py : Python Ω F H T)

theorem ran_ask {s : Loop Ω F H T} (hs : s.core.Sound) (handle : H) :
    Ran s (s.ask py handle).1 ((s.ask py handle).2.1.filterMap Effect.ready?)
      ((s.ask py handle).2.1.filterMap Effect.timer?) := by
  unfold ask
  split
  · exact Ran.refl hs
  · exact ran_in_world hs _ _

/-- What a turn comes to. -/
inductive Executes (s : Loop Ω F H T) (handle : H) : Loop Ω F H T × Turn F H T → Prop
  | skipped (h : (s.ask py handle).2.2 = .returned true) :
      Executes s handle ((s.ask py handle).1, ⟨handle, (s.ask py handle).2.1, none⟩)
  | panicked (h : (s.ask py handle).2.2 = .halted .panic) :
      Executes s handle
        ((s.ask py handle).1, ⟨handle, (s.ask py handle).2.1, some (.halted .panic)⟩)
  | called (q : Loop Ω F H T) (r : Ω × List (Effect F H T) × Ending Unit)
      (hskip : (s.ask py handle).2.2 ≠ .returned true)
      (hpanic : (s.ask py handle).2.2 ≠ .halted .panic) (hq : (s.ask py handle).1 = q)
      (hcall : py.call q.world q.core q.cancelled handle = r) :
      Executes s handle (r.2.1.foldl perform { q with world := r.1 },
        ⟨handle, (s.ask py handle).2.1 ++ r.2.1, some r.2.2⟩)

theorem execute_cases (s : Loop Ω F H T) (handle : H) :
    Executes py s handle (s.execute py handle) := by
  have hcalled (hskip : (s.ask py handle).2.2 ≠ .returned true)
      (hpanic : (s.ask py handle).2.2 ≠ .halted .panic) := Executes.called _ _ hskip hpanic rfl rfl
  cases h : (s.ask py handle).2.2 with
  | returned cancelled =>
    cases cancelled with
    | true =>
      simp only [execute, h]
      exact .skipped h
    | false =>
      rw [h] at hcalled
      simp only [execute, h]
      exact hcalled (by rintro ⟨⟩) (by rintro ⟨⟩)
  | raised exc =>
    rw [h] at hcalled
    simp only [execute, h]
    exact hcalled (by rintro ⟨⟩) (by rintro ⟨⟩)
  | halted halt =>
    cases halt with
    | panic =>
      simp only [execute, h]
      exact .panicked h
    | systemExit =>
      rw [h] at hcalled
      simp only [execute, h]
      exact hcalled (by rintro ⟨⟩) (by rintro ⟨⟩)

theorem execute_handle (s : Loop Ω F H T) (handle : H) :
    (s.execute py handle).2.handle = handle := by
  have hcases := execute_cases py s handle
  generalize s.execute py handle = r at hcases ⊢
  cases hcases <;> rfl

theorem ran_execute {s : Loop Ω F H T} (hs : s.core.Sound) (handle : H) :
    Ran s (s.execute py handle).1 (s.execute py handle).2.ready (s.execute py handle).2.timers := by
  have hask := ran_ask py hs handle
  have hcases := execute_cases py s handle
  generalize s.execute py handle = r at hcases ⊢
  cases hcases with
  | skipped h => exact hask
  | panicked h => exact hask
  | called q r hskip hpanic hq hcall =>
    rw [hq] at hask
    have h := hask.trans (ran_in_world hask.sound r.1 r.2.1)
    rw [← List.filterMap_append, ← List.filterMap_append] at h
    exact h

/-- The handles that are cancelled after a turn. -/
theorem mem_cancelled_execute {s : Loop Ω F H T} {handle other : H} :
    other ∈ (s.execute py handle).1.cancelled ↔
      other ∈ s.cancelled ∨ .cancel other ∈ (s.execute py handle).2.effects := by
  have hask : other ∈ (s.ask py handle).1.cancelled ↔
      other ∈ s.cancelled ∨ .cancel other ∈ (s.ask py handle).2.1 := by
    unfold ask
    split
    · simp
    · exact mem_cancelled_effects
  have hcases := execute_cases py s handle
  generalize s.execute py handle = r at hcases ⊢
  cases hcases with
  | skipped h => exact hask
  | panicked h => exact hask
  | called q r hskip hpanic hq hcall =>
    rw [hq] at hask
    rw [mem_cancelled_effects, hask, List.mem_append, or_assoc]

/-- Neither asking the handle nor calling it ends the tick. -/
def Spares (s : Loop Ω F H T) (handle : H) : Prop :=
  let q := s.ask py handle
  q.2.2 ≠ .halted .panic ∧ (q.2.2 = .returned true ∨
    (py.call q.1.world q.1.core q.1.cancelled handle).2.2.halt? = none)

instance (s : Loop Ω F H T) (handle : H) : Decidable (Spares py s handle) :=
  inferInstanceAs (Decidable (_ ∧ (_ ∨ _)))

theorem execute_halt? (s : Loop Ω F H T) (handle : H) :
    (s.execute py handle).2.halt? = none ↔ s.Spares py handle := by
  unfold Spares
  have hcases := execute_cases py s handle
  generalize s.execute py handle = r at hcases ⊢
  cases hcases with
  | skipped h => simp [h, Turn.halt?]
  | panicked h => simp [h, Turn.halt?, Ending.halt?]
  | called q r hskip hpanic hq hcall => simp [hskip, hpanic, hq, hcall, Turn.halt?]

/-- No handle of the batch ends the tick when its turn comes. -/
def SparesAll : List H → Loop Ω F H T → Prop
  | [], _ => True
  | handle :: handles, s => s.Spares py handle ∧ SparesAll handles (s.execute py handle).1

instance decidableSparesAll : ∀ (batch : List H) (s : Loop Ω F H T), Decidable (s.SparesAll py batch)
  | [], _ => isTrue trivial
  | handle :: handles, s =>
      have := decidableSparesAll handles (s.execute py handle).1
      inferInstanceAs (Decidable (_ ∧ _))

theorem executeAll_halted {s : Loop Ω F H T} {handle : H} (handles : List H) {halt : Halt}
    (h : (s.execute py handle).2.halt? = some halt) : s.executeAll py (handle :: handles) =
      ((s.execute py handle).1, [(s.execute py handle).2], some halt) := by
  simp only [executeAll, h]

theorem executeAll_spared {s : Loop Ω F H T} {handle : H} (handles : List H)
    (h : (s.execute py handle).2.halt? = none) : s.executeAll py (handle :: handles) =
      (((s.execute py handle).1.executeAll py handles).1,
        (s.execute py handle).2 :: ((s.execute py handle).1.executeAll py handles).2.1,
        ((s.execute py handle).1.executeAll py handles).2.2) := by
  simp only [executeAll, h]

theorem executeAll_halt? (batch : List H) (s : Loop Ω F H T) :
    (s.executeAll py batch).2.2 = none ↔ s.SparesAll py batch := by
  induction batch generalizing s with
  | nil => simp [executeAll, SparesAll]
  | cons handle handles ih =>
    have hspares := execute_halt? py s handle
    cases hhalt : (s.execute py handle).2.halt? with
    | none =>
      rw [executeAll_spared py handles hhalt, ih, SparesAll, and_iff_right (hspares.mp hhalt)]
    | some halt =>
      rw [executeAll_halted py handles hhalt, SparesAll]
      rw [hhalt] at hspares
      exact iff_of_false (by rintro ⟨⟩) fun h => absurd (hspares.mpr h.1) (by rintro ⟨⟩)

/-- When nothing ends the tick, every handle of the batch has its turn, in order. -/
theorem executeAll_handles {batch : List H} {s : Loop Ω F H T} (h : s.SparesAll py batch) :
    (s.executeAll py batch).2.1.map Turn.handle = batch := by
  induction batch generalizing s with
  | nil => rfl
  | cons handle handles ih =>
    have hhalt := (execute_halt? py s handle).mpr h.1
    rw [executeAll_spared py handles hhalt, List.map_cons, execute_handle, ih h.2]

/-- The turn of a handle is what executing it does after the turns before it. -/
theorem executeAll_getElem? {batch : List H} {s : Loop Ω F H T} {i : Nat} {turn : Turn F H T}
    (h : (s.executeAll py batch).2.1[i]? = some turn) :
    turn = ((s.executeAll py (batch.take i)).1.execute py turn.handle).2 ∧
      (s.executeAll py (batch.take i)).2.1 = (s.executeAll py batch).2.1.take i := by
  induction batch generalizing s i with
  | nil => cases h
  | cons handle handles ih =>
    have hfirst {turn : Turn F H T} (hturn : (s.execute py handle).2 = turn) :
        turn = (s.execute py turn.handle).2 := by
      rw [← hturn, execute_handle]
    cases hhalt : (s.execute py handle).2.halt? with
    | some halt =>
      rw [executeAll_halted py handles hhalt] at h ⊢
      cases i with
      | zero => exact ⟨hfirst (Option.some.inj h), rfl⟩
      | succ i => cases h
    | none =>
      rw [executeAll_spared py handles hhalt] at h ⊢
      cases i with
      | zero => exact ⟨hfirst (Option.some.inj h), rfl⟩
      | succ i =>
        obtain ⟨hturn, htake⟩ := ih h
        rw [List.take_succ_cons, executeAll_spared py _ hhalt]
        exact ⟨hturn, congrArg (_ :: ·) htake⟩

theorem mem_cancelled_executeAll {batch : List H} {s : Loop Ω F H T} {other : H} :
    other ∈ (s.executeAll py batch).1.cancelled ↔ other ∈ s.cancelled ∨
      ∃ turn ∈ (s.executeAll py batch).2.1, .cancel other ∈ turn.effects := by
  induction batch generalizing s with
  | nil => simp [executeAll]
  | cons handle handles ih =>
    cases hhalt : (s.execute py handle).2.halt? with
    | some halt =>
      rw [executeAll_halted py handles hhalt, mem_cancelled_execute]
      simp
    | none =>
      rw [executeAll_spared py handles hhalt, ih, mem_cancelled_execute, or_assoc]
      simp

theorem ran_executeAll {s : Loop Ω F H T} (hs : s.core.Sound) (batch : List H) :
    Ran s (s.executeAll py batch).1 ((s.executeAll py batch).2.1.flatMap Turn.ready)
      ((s.executeAll py batch).2.1.flatMap Turn.timers) := by
  induction batch generalizing s with
  | nil => exact Ran.refl hs
  | cons handle handles ih =>
    have h := ran_execute py hs handle
    cases hhalt : (s.execute py handle).2.halt? with
    | some halt =>
      rw [executeAll_halted py handles hhalt, List.flatMap_singleton, List.flatMap_singleton]
      exact h
    | none =>
      rw [executeAll_spared py handles hhalt, List.flatMap_cons, List.flatMap_cons]
      exact h.trans (ih h.sound)

/-! ## One tick -/

/-- The loop when the batch has been drained and no handle has run yet. -/
def polled (clock : T) (enter : Except String Nat) (s : Loop Ω F H T) : Loop Ω F H T :=
  { s with
    core := (s.core.runTick py.settle clock enter s.world).1
    world := (s.core.runTick py.settle clock enter s.world).2.1 }

theorem runTick_error {clock : T} {enter : Except String Nat} {s : Loop Ω F H T} {e : PyErr}
    (h : (s.core.runTick py.settle clock enter s.world).2.2 = .error e) :
    s.runTick py clock enter = (s.polled py clock enter, .error e) := by
  have heq : s.core.runTick py.settle clock enter s.world =
      ((s.polled py clock enter).core, (s.polled py clock enter).world, .error e) := by
    rw [← h]
    rfl
  rw [runTick, heq]
  rfl

theorem runTick_ok {clock : T} {enter : Except String Nat} {s : Loop Ω F H T}
    {out : UringCore.TickOutput F H} (h : (s.core.runTick py.settle clock enter s.world).2.2 = .ok out) :
    s.runTick py clock enter =
      (((s.polled py clock enter).executeAll py out.batch).1, .ok ⟨out.results,
        settlePushes py.settle out.resolved s.world,
        ((s.polled py clock enter).executeAll py out.batch).2.1,
        ((s.polled py clock enter).executeAll py out.batch).2.2⟩) := by
  have heq : s.core.runTick py.settle clock enter s.world =
      ((s.polled py clock enter).core, (s.polled py clock enter).world, .ok out) := by
    rw [← h]
    rfl
  rw [runTick, heq]
  rfl

/-- The handle is cancelled: its flag is set, or another object says so. -/
def Cancelled (s : Loop Ω F H T) (handle : H) : Prop :=
  if py.native handle then handle ∈ s.cancelled
  else (py.asks s.world s.core s.cancelled handle).2.2 = .returned true

theorem cancelled_iff {s : Loop Ω F H T} {handle : H} :
    s.Cancelled py handle ↔ (s.ask py handle).2.2 = .returned true := by
  unfold Cancelled ask
  split <;> simp

/-- The law of one turn, `before` being the loop when it came. -/
structure TurnLaw (before : Loop Ω F H T) (turn : Turn F H T) : Prop where
  skipped : turn.ran = none ↔ before.Cancelled py turn.handle
  called : ∀ ending ∈ turn.ran,
    let q := before.ask py turn.handle
    let r := py.call q.1.world q.1.core q.1.cancelled turn.handle
    turn.effects = q.2.1 ++ r.2.1 ∧ ending = r.2.2

/-- The execution law of one tick. -/
structure TickLaw (clock : T) (enter : Except String Nat) (s : Loop Ω F H T)
    (out : Executed F H T) : Prop where
  ok : (s.runTick py clock enter).2 = .ok out
  /-- It returns, whatever the handles have raised. -/
  returns : out.halt? = none
  /-- Queued handles, expired timers, handles of resolved futures: each has one turn, in order. -/
  order : out.turns.map Turn.handle =
    s.core.scheduler ++ (s.core.timers.popExpired clock).2 ++ out.settled
  /-- The futures are resolved in the order of the completions: the first completion on a descriptor has
  the future that is stored for it. -/
  settled : ∃ resolved : List (CompletionItem × Option F),
    (resolved.map fun r => (r.1.fd, r.1.opType, r.1.result)) =
      (s.core.ring.cq.map fun c => (c.sqe.fd, c.sqe.op.opType, c.payload.result)) ∧
    (∀ i c, s.core.ring.cq[i]? = some c → (resolved[i]?).map Prod.snd =
      some (if c.sqe.fd ∈ (s.core.ring.cq.take i).map (·.sqe.fd) then none
        else s.core.futures.lookup c.sqe.fd)) ∧
    out.settled = settlePushes py.settle resolved s.world
  /-- A handle is skipped if it is cancelled by then, before the tick or in an earlier turn, and called
  otherwise. -/
  turn : ∀ i turn, out.turns[i]? = some turn →
    let before := ((s.polled py clock enter).executeAll py ((out.turns.map Turn.handle).take i)).1
    before.TurnLaw py turn ∧ ∀ handle, handle ∈ before.cancelled ↔
      handle ∈ s.cancelled ∨ ∃ earlier ∈ out.turns.take i, .cancel handle ∈ earlier.effects
  /-- What the turns push waits for the next tick, in order. -/
  queued : (s.runTick py clock enter).1.core.scheduler = out.turns.flatMap Turn.ready

/-- No handle of the tick's batch ends it. -/
def Spared (clock : T) (enter : Except String Nat) (s : Loop Ω F H T) : Prop :=
  ∀ out ∈ (s.core.runTick py.settle clock enter s.world).2.2.toOption,
    (s.polled py clock enter).SparesAll py out.batch

instance (clock : T) (enter : Except String Nat) (s : Loop Ω F H T) :
    Decidable (s.Spared py clock enter) := Option.decidableForallMem _

theorem spared_ok {clock : T} {enter : Except String Nat} {s : Loop Ω F H T}
    {out : UringCore.TickOutput F H} (h : (s.core.runTick py.settle clock enter s.world).2.2 = .ok out) :
    s.Spared py clock enter ↔ (s.polled py clock enter).SparesAll py out.batch := by
  simp [Spared, h, Except.toOption]

/-- A turn that does not end the tick obeys its law. -/
theorem turnLaw_execute {s : Loop Ω F H T} {handle : H}
    (h : (s.execute py handle).2.halt? = none) : s.TurnLaw py (s.execute py handle).2 := by
  have hhandle := execute_handle py s handle
  have hcases := execute_cases py s handle
  generalize s.execute py handle = r at hcases hhandle h ⊢
  cases hcases with
  | skipped hskip => exact ⟨iff_of_true rfl ((cancelled_iff py).mpr hskip), by rintro ending ⟨⟩⟩
  | panicked hpanic => cases h
  | called q r hskip hpanic hq hcall =>
    refine ⟨iff_of_false (by rintro ⟨⟩) fun hcancelled => hskip ((cancelled_iff py).mp hcancelled), ?_⟩
    intro ending hending
    obtain rfl := Option.some_inj.mp hending
    simp only [hq, hcall]
    exact ⟨trivial, trivial⟩

/-- Every turn of a batch obeys its law if none ends the tick. -/
theorem turnLaw_executeAll {batch : List H} {s : Loop Ω F H T} (h : s.SparesAll py batch) {i : Nat}
    {turn : Turn F H T} (hturn : (s.executeAll py batch).2.1[i]? = some turn) :
    (s.executeAll py (batch.take i)).1.TurnLaw py turn := by
  induction batch generalizing s i with
  | nil => cases hturn
  | cons handle handles ih =>
    have hhalt := (execute_halt? py s handle).mpr h.1
    rw [executeAll_spared py handles hhalt] at hturn
    cases i with
    | zero =>
      obtain rfl := Option.some_inj.mp hturn
      exact turnLaw_execute py hhalt
    | succ i =>
      rw [List.take_succ_cons, executeAll_spared py _ hhalt]
      exact ih h.2 hturn

/-- **One tick.** If its flush succeeds, a tick obeys the law if and only if no handle of its batch ends
it. -/
theorem tickLaw_iff {s : Loop Ω F H T} (hs : s.core.Sound) (clock : T) {enter : Except String Nat}
    {n : Nat} (hsubmit : (s.core.ring.submit enter).2 = .ok n) :
    (∃ out, s.TickLaw py clock enter out) ↔ s.Spared py clock enter := by
  obtain ⟨htimers, hqueues⟩ := UringCore.runTick_queues py.settle clock enter s.world s.core
  cases hout : (s.core.runTick py.settle clock enter s.world).2.2 with
  | error e =>
    have hring : (s.core.expireTimers clock).ring = s.core.ring := rfl
    -- only a flush that fails ends a poll with an error
    unfold UringCore.runTick at hout
    simp only [hring] at hout
    split at hout
    · rename_i hsubmit'
      rw [hsubmit'] at hsubmit
      cases hsubmit
    · cases hout
  | ok out =>
    rw [hout] at hqueues
    obtain ⟨hempty, hbatch⟩ := hqueues
    have htick := runTick_ok py hout
    rw [spared_ok py hout]
    constructor
    · rintro ⟨out', hok, hreturns, -⟩
      rw [htick] at hok
      cases hok
      exact (executeAll_halt? py out.batch _).mp hreturns
    intro hspares
    have hpolled : (s.polled py clock enter).core.Sound :=
      UringCore.sound_runTick py.settle clock enter s.world hs
    have hhandles := executeAll_handles py hspares
    refine ⟨_, by rw [htick], (executeAll_halt? py out.batch _).mpr hspares, ?_, ?_, ?_, ?_⟩
    · exact hhandles.trans hbatch
    · have hcq : (((s.core.expireTimers clock).submit enter).1).ring.cq = s.core.ring.cq :=
        Ring.cq_submit enter s.core.ring
      refine ⟨out.resolved, ?_, ?_, rfl⟩
      · rw [UringCore.runTick_resolved hout, UringCore.processAll_items, hcq]
      · intro i c hc
        rw [UringCore.runTick_resolved hout, hcq]
        exact UringCore.processAll_futures _ hc
    · intro i turn hturn before
      have hbefore : before = ((s.polled py clock enter).executeAll py (out.batch.take i)).1 := by
        simp only [before, hhandles]
      obtain ⟨-, htake⟩ := executeAll_getElem? py hturn
      rw [hbefore]
      refine ⟨turnLaw_executeAll py hspares hturn, fun handle => ?_⟩
      rw [mem_cancelled_executeAll, htake]
      rfl
    · rw [htick]
      have hran := (ran_executeAll py hpolled out.batch).scheduler
      rw [hran]
      show (s.core.runTick py.settle clock enter s.world).1.scheduler ++ _ = _
      rw [hempty]
      rfl

/-! ## Whole runs -/

/-- The machine with its history. -/
def historyMachine : Machine (Loop Ω F H T × History F H T) (Act F H T) :=
  (machine py).ghost fun s a _ past => past.upd py s a

/-- What has entered the ready queue has had its turn or is still queued, in order; what has been
pushed has had its turn, is queued or waits for its time. -/
structure Fifo (s : Loop Ω F H T) (past : History F H T) : Prop where
  sound : s.core.Sound
  entered : past.entered = past.turns.map Turn.handle ++ s.core.scheduler
  pushed : ∀ handle, past.pushed.count handle = (past.turns.map Turn.handle).count handle +
    s.core.scheduler.count handle + s.core.timers.handles.count handle

theorem Fifo.perform {s : Loop Ω F H T} {past : History F H T} (h : s.Fifo past)
    (e : Effect F H T) : (s.perform e).Fifo (past.upd py s (.effect e)) := by
  have hran := ran_perform h.sound e
  refine ⟨hran.sound, ?_, fun handle => ?_⟩
  · show past.entered ++ _ = past.turns.map Turn.handle ++ _
    rw [h.entered, hran.scheduler, List.append_assoc]
  · show (past.pushed ++ _ ++ _).count handle = (past.turns.map Turn.handle).count handle + _ + _
    have hpushed := h.pushed handle
    have htimers := hran.timers.count_eq handle
    rw [hran.scheduler]
    simp only [List.count_append] at htimers ⊢
    omega

theorem Fifo.runTick {s : Loop Ω F H T} {past : History F H T} (h : s.Fifo past) {clock : T}
    {enter : Except String Nat} (hspared : s.Spared py clock enter) :
    (s.runTick py clock enter).1.Fifo (past.upd py s (.runTick clock enter)) := by
  obtain ⟨htimers, hqueues⟩ := UringCore.runTick_queues py.settle clock enter s.world s.core
  have hexpired := TimerHeap.popExpired_handles clock s.core.timers
  have hsound : (s.polled py clock enter).core.Sound :=
    UringCore.sound_runTick py.settle clock enter s.world h.sound
  have htimers : (s.polled py clock enter).core.timers = (s.core.timers.popExpired clock).1 :=
    htimers
  cases hout : (s.core.runTick py.settle clock enter s.world).2.2 with
  | error e =>
    rw [hout] at hqueues
    -- the due timers have joined the queue, which is not drained
    have hqueues : (s.polled py clock enter).core.scheduler =
        s.core.scheduler ++ (s.core.timers.popExpired clock).2 := hqueues
    have htick := runTick_error py hout
    have hpast : past.upd py s (.runTick clock enter) =
        { past with entered := past.entered ++ (s.core.timers.popExpired clock).2 } := by
      simp only [History.upd, htick]
    rw [hpast, htick]
    refine ⟨hsound, ?_, fun handle => ?_⟩
    · show past.entered ++ _ = past.turns.map Turn.handle ++ _
      rw [h.entered, hqueues, List.append_assoc]
    · show past.pushed.count handle = _
      have hpushed := h.pushed handle
      have hcount := hexpired.count_eq handle
      rw [hqueues, htimers]
      simp only [List.count_append] at hcount ⊢
      omega
  | ok out =>
    rw [hout] at hqueues
    obtain ⟨hempty, hbatch⟩ := hqueues
    -- the whole queue is the batch, and what is queued afterwards came in during its turns
    have hempty : (s.polled py clock enter).core.scheduler = [] := hempty
    have hran := ran_executeAll py hsound out.batch
    have hhandles := executeAll_handles py ((spared_ok py hout).mp hspared)
    have htick := runTick_ok py hout
    generalize (s.polled py clock enter).executeAll py out.batch = r at hran htick hhandles
    generalize settlePushes py.settle out.resolved s.world = settled at htick hbatch
    have hpast : past.upd py s (.runTick clock enter) = {
        entered := past.entered ++ (s.core.timers.popExpired clock).2 ++ settled ++
          r.2.1.flatMap Turn.ready
        pushed := past.pushed ++ settled ++ r.2.1.flatMap Turn.ready ++ r.2.1.flatMap Turn.timers
        turns := past.turns ++ r.2.1 } := by
      simp only [History.upd, htick]
    have hscheduler : r.1.core.scheduler = r.2.1.flatMap Turn.ready := by
      rw [hran.scheduler, hempty, List.nil_append]
    rw [hpast, htick]
    refine ⟨hran.sound, ?_, fun handle => ?_⟩
    · show _ = (past.turns ++ r.2.1).map Turn.handle ++ r.1.core.scheduler
      rw [h.entered, hscheduler, List.map_append, hhandles, hbatch]
      simp only [List.append_assoc]
    · have hpushed := h.pushed handle
      have hcount := hexpired.count_eq handle
      have htimer := hran.timers.count_eq handle
      rw [htimers] at htimer
      show (past.pushed ++ settled ++ r.2.1.flatMap Turn.ready ++
        r.2.1.flatMap Turn.timers).count handle =
          ((past.turns ++ r.2.1).map Turn.handle).count handle + r.1.core.scheduler.count handle +
            r.1.core.timers.handles.count handle
      rw [hscheduler, List.map_append, hhandles, hbatch]
      simp only [List.count_append] at hcount htimer ⊢
      omega

/-- No tick is ended by a handle. -/
def CarriesOn (s : Loop Ω F H T) : Act F H T → Prop
  | .effect _ => True
  | .runTick clock enter => s.Spared py clock enter

instance (s : Loop Ω F H T) : ∀ a, Decidable (s.CarriesOn py a)
  | .effect _ => isTrue trivial
  | .runTick clock enter => inferInstanceAs (Decidable (s.Spared py clock enter))

/-- **The ready queue.** In every run whose ticks are ended by no handle, whatever else the callbacks do:
handles have their turns in the order in which they entered the queue, once for each push; and the next
tick obeys the execution law, if its flush succeeds, if and only if no handle ends it. -/
theorem ready_queue_law {setup : Setup} {bufferSize bufferCount : Nat} {core : UringCore F H T}
    {world : Ω} {cancelled : List H} {t : Loop Ω F H T} {past : History F H T}
    {acts : List (Act F H T)} (hnew : UringCore.new setup bufferSize bufferCount = .ok core)
    (hrun : (historyMachine py).run (⟨core, world, cancelled⟩, .init) acts = some (t, past))
    (hcarries : (historyMachine py).Meets (fun x => x.1.CarriesOn py)
      (⟨core, world, cancelled⟩, .init) acts) :
    past.entered = past.turns.map Turn.handle ++ t.core.scheduler ∧
    (∀ handle, past.pushed.count handle = (past.turns.map Turn.handle).count handle +
      t.core.scheduler.count handle + t.core.timers.handles.count handle) ∧
    ∀ clock enter n, (t.core.ring.submit enter).2 = .ok n →
      ((∃ out, t.TickLaw py clock enter out) ↔ t.Spared py clock enter) := by
  obtain h : t.Fifo past := by
    refine Machine.run_invariant (I := fun x : Loop Ω F H T × History F H T => x.1.Fifo x.2)
      ?_ ?_ hcarries hrun
    · rintro ⟨s, l⟩ a ⟨u, l'⟩ hs hcarry hstep
      obtain ⟨hloop, rfl⟩ := Machine.ghost_step_mk.mp hstep
      cases a with
      | effect e =>
        cases hloop
        exact hs.perform py e
      | runTick clock enter =>
        obtain ⟨-, hloop⟩ := Option.ite_none_left_eq_some.mp hloop
        obtain rfl := Option.some_inj.mp hloop
        exact hs.runTick py hcarry
    · have hsound := UringCore.sound_new hnew
      obtain ⟨entries, pool, hpool, rfl⟩ := UringCore.new_spec hnew
      exact ⟨hsound, rfl, fun _ => rfl⟩
  exact ⟨h.entered, h.pushed, fun clock enter n => tickLaw_iff py h.sound clock⟩

/-- Odd handles are `UringHandle`s, the others know whether they are cancelled. -/
def python (call : Nat → List (Effect Nat Nat Nat) × Ending Unit) : Python Unit Nat Nat Nat where
  settle ω _ _ := (ω, [])
  native handle := handle % 2 = 1
  asks ω _ cancelled handle := (ω, [], .returned (decide (handle ∈ cancelled)))
  call ω _ _ handle := (ω, call handle)

/-- Every callback pushes its own handle again and then raises. -/
def stubborn : Python Unit Nat Nat Nat := python fun handle => ([.pushTask handle], .raised "ValueError")

/-- Four handles are queued, two of them are cancelled, and two ticks run. -/
def stubbornRun : List (Act Nat Nat Nat) :=
  [.effect (.pushTask 1), .effect (.pushTask 3), .effect (.pushTask 4), .effect (.pushTask 2),
    .effect (.cancel 3), .effect (.cancel 4), .runTick 0 (.ok 0), .runTick 0 (.ok 0)]

theorem ready_queue_law_stubborn :
    ∃ (core : UringCore Nat Nat Nat) (t : Loop Unit Nat Nat Nat) (past : History Nat Nat Nat),
      UringCore.new Setup.plain 16 2 = .ok core ∧
      (historyMachine stubborn).run (⟨core, (), []⟩, .init) stubbornRun = some (t, past) ∧
      (past.turns.map fun turn => (turn.handle, turn.ran.isSome)) =
        [(1, true), (3, false), (4, false), (2, true), (1, true), (2, true)] ∧
      past.entered = past.turns.map Turn.handle ++ t.core.scheduler ∧ t.core.scheduler = [1, 2] :=
  ⟨_, _, _, rfl, rfl, rfl, (ready_queue_law stubborn
    (show UringCore.new Setup.plain 16 2 = .ok _ from rfl)
    (show (historyMachine stubborn).run (⟨_, (), []⟩, .init) stubbornRun = some (_, _)
      from rfl) (by decide)).1, rfl⟩

/-- The callback of the first handle panics, as `write` does with more than a buffer of data; that of
the second calls `sys.exit`. -/
def fragile : Python Unit Nat Nat Nat :=
  python fun handle => ([], .halted (if handle = 1 then .panic else .systemExit))

/-- The handle 3 was queued when the tick began; it has had no turn and is queued no more. A tick that
`SystemExit` ends does not obey the law either. -/
theorem not_ready_queue_law :
    ∃ (core : UringCore Nat Nat Nat) (s t u : Loop Unit Nat Nat Nat) (past : History Nat Nat Nat),
      UringCore.new Setup.plain 16 2 = .ok core ∧
      (machine fragile).run ⟨core, (), []⟩ [.effect (.pushTask 1), .effect (.pushTask 3)] = some s ∧
      (historyMachine fragile).run (⟨core, (), []⟩, .init) [.effect (.pushTask 1),
        .effect (.pushTask 3), .runTick 0 (.ok 0)] = some (t, past) ∧
      past.entered = [1, 3] ∧ past.turns.map Turn.handle = [1] ∧ t.core.scheduler = [] ∧
      (¬ ∃ out, s.TickLaw fragile 0 (.ok 0) out) ∧
      (machine fragile).run ⟨core, (), []⟩ [.effect (.pushTask 2), .effect (.pushTask 3)] = some u ∧
      ¬ ∃ out, u.TickLaw fragile 0 (.ok 0) out := by
  refine ⟨_, _, _, _, _, rfl, rfl, rfl, rfl, rfl, rfl, ?_, rfl, ?_⟩
  all_goals
    intro hlaw
    obtain ⟨out, hok, hreturns, -⟩ := hlaw
    obtain rfl := Except.ok.inj hok
    cases hreturns

end Loop

end Uringcore
