import Uringcore.Lib.Machine
import Uringcore.Lib.Threads
import Uringcore.Ring
import Uringcore.Scheduler

/-!
# Waking the loop

The loop's thread runs `_run_once` again and again: it reads the length of the ready queue, waits in
`epoll` if there is nothing to do, resets the eventfd's counter if `epoll` reported it, and runs a
tick, which drains the completion queue and later the ready queue. Meanwhile any number of
*producers* put something into one of the two queues and then add one to the counter: threads in
`call_soon_threadsafe`, and the kernel when it completes operations.

Every atomic step of the loop and of a producer is a step of the machine. A queued item carries a
`Mark`, which says how far its wakeup has got; the code has no such thing and never reads it.

An exception may end an iteration, and nothing keeps its caller from running the loop again.
-/

namespace Uringcore

inductive Mark where
  /-- Pushed by the loop's own thread. -/
  | own
  /-- Producer `i` has queued it and not added to the counter yet. -/
  | posted (i : Nat)
  | signalled
  /-- Signalled, but the iteration that consumed the signal ended with an exception. -/
  | abandoned
  deriving DecidableEq, Repr

namespace Mark

def signal (i : Nat) : Mark → Mark
  | posted j => if j = i then signalled else posted j
  | mark => mark

def abandon : Mark → Mark
  | signalled => abandoned
  | mark => mark

/-- One has been added to the counter for the item. -/
def wasSignalled : Mark → Bool
  | signalled | abandoned => true
  | own | posted _ => false

theorem signal_ne_abandoned {i : Nat} {mark : Mark} (h : mark ≠ .abandoned) :
    mark.signal i ≠ .abandoned := by
  unfold signal
  grind

theorem abandon_ne_signalled (mark : Mark) : mark.abandon ≠ .signalled := by
  cases mark <;> simp [abandon]

end Mark

/-- An item in one of the queues. -/
structure Posted (α : Type) where
  item : α
  mark : Mark
  deriving DecidableEq, Repr

namespace Posted
variable {α : Type}

def signal (i : Nat) (p : Posted α) : Posted α := { p with mark := p.mark.signal i }

def abandon (p : Posted α) : Posted α := { p with mark := p.mark.abandon }

end Posted

/-- What `epoll` reports: the eventfd, or a file with a reader or a writer. -/
inductive Polled where
  | eventFd
  | file (fd : Fd)
  deriving DecidableEq, Repr

/-- Where the loop's thread is. From `expireTimers` to `execute` it is in `run_tick`. -/
inductive LoopPc (H : Type) where
  /-- Before `_run_once` reads `ready_len`. -/
  | runOnce
  | calculateTimeout
  | waiting
  | handling (events : List Polled)
  | expireTimers
  | submit
  | drainCompletions
  | resolveFutures
  | drainReady
  | execute (batch : List (Posted H))
  | processCompletions
  /-- `run_forever` has returned, or raised. -/
  | left
  deriving DecidableEq, Repr

namespace LoopPc
variable {H : Type}

/-- The queue was empty, and the loop goes to sleep. -/
def isIdle : LoopPc H → Bool
  | calculateTimeout | waiting => true
  | _ => false

/-- Between a reset of the counter and the drain of the completion queue. -/
def mayHaveReset : LoopPc H → Bool
  | handling _ | expireTimers | submit | drainCompletions => true
  | _ => false

/-- Where handles are pushed by the loop's thread: for readers and writers, for expired timers, by
setting results, by callbacks and by the completion handlers. -/
def pushes : LoopPc H → Bool
  | handling _ | expireTimers | resolveFutures | execute _ | processCompletions => true
  | _ => false

/-- Where `run_forever` may end: `_stopping` is read between the iterations, exceptions come from
Python code (a signal handler's, when the loop was waiting) and from a submission that the kernel
refuses. -/
def mayLeave : LoopPc H → Bool
  | runOnce | calculateTimeout | waiting | handling _ | submit | processCompletions => true
  | _ => false

end LoopPc

structure Wakeup (H : Type) where
  /-- The eventfd's counter. -/
  counter : Nat
  ready : Scheduler (Posted H)
  cq : List (Posted CompletionEntry)
  loop : LoopPc H
  deriving DecidableEq, Repr

/-- What a producer does next. -/
inductive ProducerPc where
  | idle
  /-- `_write_to_self`. -/
  | writeToSelf
  /-- The kernel's signal for a completion. -/
  | signal
  deriving DecidableEq, Repr

/-- `write` of 1 to an eventfd: it is refused (`EAGAIN`, which `_write_to_self` ignores) when the
counter would go beyond `2 ^ 64 - 2`. -/
def eventfdWrite (counter : Nat) : Nat :=
  if counter < 2 ^ 64 - 2 then counter + 1 else counter

/-- The kernel's own signal stops at the top. -/
def eventfdSignal (counter : Nat) : Nat := min (counter + 1) (2 ^ 64 - 1)

namespace ProducerPc
variable {H : Type}

def next (i : Nat) (pc : ProducerPc) (s : Wakeup H) : Option (Wakeup H × ProducerPc) :=
  match pc with
  | idle => none
  | writeToSelf => some ({ s with
      counter := eventfdWrite s.counter
      ready := s.ready.map (Posted.signal i) }, idle)
  | signal => some ({ s with
      counter := eventfdSignal s.counter
      cq := s.cq.map (Posted.signal i) }, idle)

end ProducerPc

/-- What the loop's thread does next, where it has a choice. -/
inductive LoopAct (H : Type) where
  | advance
  | push (handle : H)
  /-- `epoll` returns; a timeout reports nothing. -/
  | wake (events : List Polled)
  | leave
  | runForever
  deriving DecidableEq, Repr

namespace Wakeup
variable {H : Type}

/-- The next step at a place where there is only one. -/
def advance (s : Wakeup H) : Option (Wakeup H) :=
  match s.loop with
  | .runOnce =>
      if s.ready.length = 0 then some { s with loop := .calculateTimeout }
      else some { s with loop := .expireTimers }
  | .calculateTimeout => some { s with loop := .waiting }
  | .handling [] => some { s with loop := .expireTimers }
  -- `drain_eventfd`: a read resets the counter
  | .handling (.eventFd :: events) => some { s with counter := 0, loop := .handling events }
  | .handling (.file _ :: events) => some { s with loop := .handling events }
  | .expireTimers => some { s with loop := .submit }
  | .submit => some { s with loop := .drainCompletions }
  | .drainCompletions => some { s with cq := [], loop := .resolveFutures }
  | .resolveFutures => some { s with loop := .drainReady }
  | .drainReady => some { s with ready := s.ready.drain.1, loop := .execute s.ready.drain.2 }
  | .execute [] => some { s with loop := .processCompletions }
  | .execute (_ :: batch) => some { s with loop := .execute batch }
  | .processCompletions => some { s with loop := .runOnce }
  | .waiting | .left => none

/-- `run_forever` ends. With the counter at zero nothing will report the completions again that have
been signalled and not been drained. -/
def leave (s : Wakeup H) : Wakeup H :=
  { s with
    cq := if s.counter = 0 then s.cq.map Posted.abandon else s.cq
    loop := .left }

def loopStep (s : Wakeup H) : LoopAct H → Option (Wakeup H)
  | .advance => s.advance
  | .push handle =>
      if s.loop.pushes then some { s with ready := s.ready.push ⟨handle, .own⟩ } else none
  | .wake events => match s.loop with
      | .waiting =>
          -- the eventfd is reported only while it can be read
          if Polled.eventFd ∈ events ∧ s.counter = 0 then none
          else some { s with loop := .handling events }
      | _ => none
  | .leave => if s.loop.mayLeave then some s.leave else none
  | .runForever => match s.loop with
      | .left => some { s with loop := .runOnce }
      | _ => none

inductive Act (H : Type) where
  /-- The first half of `call_soon_threadsafe`: the handle is pushed. -/
  | callSoonThreadsafe (i : Nat) (handle : H)
  /-- The kernel posts a completion. -/
  | post (i : Nat) (entry : CompletionEntry)
  /-- The second half: one is added to the counter. -/
  | signal (i : Nat)
  | loop (a : LoopAct H)
  deriving DecidableEq, Repr

def step (s : Threads (Wakeup H) ProducerPc) : Act H → Option (Threads (Wakeup H) ProducerPc)
  | .callSoonThreadsafe i handle => match s.locals[i]? with
      | some .idle => some ⟨{ s.shared with ready := s.shared.ready.push ⟨handle, .posted i⟩ },
          s.locals.set i .writeToSelf⟩
      | _ => none
  | .post i entry => match s.locals[i]? with
      | some .idle => some ⟨{ s.shared with cq := s.shared.cq ++ [⟨entry, .posted i⟩] },
          s.locals.set i .signal⟩
      | _ => none
  | .signal i => s.advance ProducerPc.next i
  | .loop a => (s.shared.loopStep a).map fun shared => { s with shared := shared }

def machine : Machine (Threads (Wakeup H) ProducerPc) (Act H) := ⟨step⟩

/-- A loop about to run, and `n` producers. -/
def start (n : Nat) : Threads (Wakeup H) ProducerPc :=
  ⟨⟨0, [], [], .runOnce⟩, List.replicate n .idle⟩

/-- An exception does not come between the reset of the counter and the drain of the completion
queue, unless the counter has been raised again. -/
def KeepsSignals (s : Threads (Wakeup H) ProducerPc) : Act H → Prop
  | .loop .leave => s.shared.counter = 0 → s.shared.loop.mayHaveReset = false
  | _ => True

instance (s : Threads (Wakeup H) ProducerPc) : (a : Act H) → Decidable (KeepsSignals s a)
  | .loop .leave =>
      inferInstanceAs (Decidable (s.shared.counter = 0 → s.shared.loop.mayHaveReset = false))
  | .loop .advance | .loop (.push _) | .loop (.wake _) | .loop .runForever
  | .callSoonThreadsafe .. | .post .. | .signal _ => inferInstanceAs (Decidable True)

/-! ## The invariant -/

/-- While nothing signals that there is work, a sleeping loop has no signalled handle, and the
completion queue no signalled completion except between a reset and the drain. -/
structure Covered (s : Wakeup H) : Prop where
  ready : s.loop.isIdle → s.counter = 0 → ∀ p ∈ s.ready, p.mark ≠ .signalled
  cq : s.loop.mayHaveReset = false → s.counter = 0 → ∀ p ∈ s.cq, p.mark ≠ .signalled
  handles : ∀ p ∈ s.ready, p.mark ≠ .abandoned

namespace Covered

theorem init (n : Nat) : Covered (start (H := H) n).shared where
  ready _ _ p hp := by cases hp
  cq _ _ p hp := by cases hp
  handles p hp := by cases hp

/-- Something is pushed whose wakeup is still to come. -/
theorem push {s : Wakeup H} (h : s.Covered) {p : Posted H}
    (hmark : p.mark ≠ .signalled ∧ p.mark ≠ .abandoned) :
    Covered { s with ready := s.ready.push p } where
  ready hidle hzero q hq := by
    rcases List.mem_append.mp hq with hq | hq
    · exact h.ready hidle hzero q hq
    · rw [List.mem_singleton.mp hq]
      exact hmark.1
  cq := h.cq
  handles q hq := by
    rcases List.mem_append.mp hq with hq | hq
    · exact h.handles q hq
    · rw [List.mem_singleton.mp hq]
      exact hmark.2

theorem post {s : Wakeup H} (h : s.Covered) {p : Posted CompletionEntry}
    (hmark : p.mark ≠ .signalled) : Covered { s with cq := s.cq ++ [p] } where
  ready := h.ready
  cq hreset hzero q hq := by
    rcases List.mem_append.mp hq with hq | hq
    · exact h.cq hreset hzero q hq
    · rw [List.mem_singleton.mp hq]
      exact hmark
  handles := h.handles

theorem eventfdWrite_pos (counter : Nat) : 0 < eventfdWrite counter := by
  unfold eventfdWrite
  split <;> omega

theorem eventfdSignal_pos (counter : Nat) : 0 < eventfdSignal counter := by
  unfold eventfdSignal
  omega

/-- A signal leaves the counter above zero, so it makes up for whatever it marks. -/
theorem signal {s s' : Wakeup H} (h : s.Covered) {i : Nat} {pc pc' : ProducerPc}
    (hnext : pc.next i s = some (s', pc')) : s'.Covered := by
  cases pc with
  | idle => cases hnext
  | writeToSelf =>
    cases hnext
    have hpos := eventfdWrite_pos s.counter
    refine ⟨fun _ hzero => absurd hzero (by simp only; omega),
      fun _ hzero => absurd hzero (by simp only; omega), ?_⟩
    intro p hp
    obtain ⟨q, hq, rfl⟩ := List.mem_map.mp hp
    exact Mark.signal_ne_abandoned (h.handles q hq)
  | signal =>
    cases hnext
    have hpos := eventfdSignal_pos s.counter
    exact ⟨fun _ hzero => absurd hzero (by simp only; omega),
      fun _ hzero => absurd hzero (by simp only; omega), h.handles⟩

/-- The loop goes on without touching a queue or the counter. -/
theorem goTo {s : Wakeup H} (h : s.Covered) {pc : LoopPc H} (hidle : pc.isIdle → s.loop.isIdle)
    (hreset : s.loop.mayHaveReset → pc.mayHaveReset) : Covered { s with loop := pc } where
  ready hpc := h.ready (hidle hpc)
  cq hpc := by
    refine h.cq ?_
    cases hloop : s.loop.mayHaveReset with
    | false => rfl
    | true => exact (hreset hloop).symm.trans hpc
  handles := h.handles

/-- The loop falls asleep only when it has seen the ready queue empty, and it leaves the stretch in
which the counter may have been reset only by draining the completion queue. -/
theorem advance {s t : Wakeup H} (h : s.Covered) (hstep : s.advance = some t) : t.Covered := by
  unfold Wakeup.advance at hstep
  cases hloop : s.loop with
  | runOnce =>
    simp only [hloop] at hstep
    split at hstep
    · rename_i hempty
      cases hstep
      refine ⟨fun _ _ p hp => ?_, fun _ => h.cq (by rw [hloop]; rfl), h.handles⟩
      rw [List.length_eq_zero_iff.mp hempty] at hp
      cases hp
    · cases hstep
      exact h.goTo (by simp [LoopPc.isIdle]) (by simp [LoopPc.mayHaveReset])
  | waiting | left =>
    simp only [hloop] at hstep
    cases hstep
  | handling events =>
    rcases events with _ | ⟨_ | fd, events⟩
    · simp only [hloop] at hstep
      cases hstep
      exact h.goTo (by simp [LoopPc.isIdle]) (by simp [LoopPc.mayHaveReset])
    · -- the reset: nothing is promised about the completion queue from here to the drain
      simp only [hloop] at hstep
      cases hstep
      exact ⟨fun hidle => (by cases hidle), fun hreset => (by cases hreset), h.handles⟩
    · simp only [hloop] at hstep
      cases hstep
      exact h.goTo (by simp [LoopPc.isIdle]) (by simp [LoopPc.mayHaveReset])
  | drainCompletions =>
    simp only [hloop] at hstep
    cases hstep
    exact ⟨fun hidle => (by cases hidle), fun _ _ p hp => (by cases hp), h.handles⟩
  | drainReady =>
    simp only [hloop] at hstep
    cases hstep
    exact ⟨fun hidle => (by cases hidle), fun _ => h.cq (by rw [hloop]; rfl),
      fun p hp => (by cases hp)⟩
  | execute batch =>
    cases batch <;> simp only [hloop] at hstep <;> cases hstep <;>
      exact h.goTo (by simp [LoopPc.isIdle]) (by simp [hloop, LoopPc.mayHaveReset])
  | calculateTimeout | expireTimers | submit | resolveFutures | processCompletions =>
    simp only [hloop] at hstep
    cases hstep
    exact h.goTo (by simp [hloop, LoopPc.isIdle]) (by simp [hloop, LoopPc.mayHaveReset])

/-- What `run_forever` leaves behind without a signal is abandoned. -/
theorem leave {s : Wakeup H} (h : s.Covered) : s.leave.Covered where
  ready hidle := by cases hidle
  cq _ hzero p hp := by
    have hzero : s.counter = 0 := hzero
    simp only [Wakeup.leave, hzero, if_true] at hp
    obtain ⟨q, -, rfl⟩ := List.mem_map.mp hp
    exact Mark.abandon_ne_signalled q.mark
  handles := h.handles

theorem loopStep {s t : Wakeup H} (h : s.Covered) {a : LoopAct H}
    (hstep : s.loopStep a = some t) : t.Covered := by
  cases a with
  | advance => exact h.advance hstep
  | push handle =>
    simp only [Wakeup.loopStep, Option.ite_none_right_eq_some] at hstep
    cases hstep.2
    exact h.push ⟨nofun, nofun⟩
  | wake events =>
    simp only [Wakeup.loopStep] at hstep
    split at hstep
    · split at hstep
      · cases hstep
      · cases hstep
        exact h.goTo (by simp [LoopPc.isIdle]) (by simp [LoopPc.mayHaveReset])
    · cases hstep
  | leave =>
    simp only [Wakeup.loopStep, Option.ite_none_right_eq_some] at hstep
    cases hstep.2
    exact h.leave
  | runForever =>
    simp only [Wakeup.loopStep] at hstep
    split at hstep
    · rename_i hloop
      cases hstep
      exact h.goTo (by simp [LoopPc.isIdle]) (by simp [hloop, LoopPc.mayHaveReset])
    · cases hstep

end Covered

/-- All that a step is: a producer queues something, a producer signals, or the loop moves. -/
theorem step_cases {s t : Threads (Wakeup H) ProducerPc} {a : Act H} (h : step s a = some t) :
    (∃ i handle, a = .callSoonThreadsafe i handle ∧
      t.shared = { s.shared with ready := s.shared.ready.push ⟨handle, .posted i⟩ }) ∨
    (∃ i entry, a = .post i entry ∧
      t.shared = { s.shared with cq := s.shared.cq ++ [⟨entry, .posted i⟩] }) ∨
    (∃ i, ∃ pc pc' : ProducerPc, a = .signal i ∧ pc.next i s.shared = some (t.shared, pc')) ∨
    ∃ b, a = .loop b ∧ s.shared.loopStep b = some t.shared := by
  cases a with
  | callSoonThreadsafe i handle =>
    simp only [step] at h
    split at h
    · cases h
      exact .inl ⟨i, handle, rfl, rfl⟩
    · cases h
  | post i entry =>
    simp only [step] at h
    split at h
    · cases h
      exact .inr (.inl ⟨i, entry, rfl, rfl⟩)
    · cases h
  | signal i =>
    obtain ⟨pc, shared, pc', -, hnext, rfl⟩ := Threads.advance_eq_some.mp h
    exact .inr (.inr (.inl ⟨i, pc, pc', rfl, hnext⟩))
  | loop b =>
    obtain ⟨shared, hshared, rfl⟩ := Option.map_eq_some_iff.mp h
    exact .inr (.inr (.inr ⟨b, rfl, hshared⟩))

theorem Covered.step {s t : Threads (Wakeup H) ProducerPc} {a : Act H} (h : s.shared.Covered)
    (hstep : step s a = some t) : t.shared.Covered := by
  obtain ⟨i, handle, rfl, heq⟩ | ⟨i, entry, rfl, heq⟩ | ⟨i, pc, pc', rfl, hnext⟩ |
    ⟨b, rfl, hloop⟩ := step_cases hstep
  · rw [heq]
    exact h.push ⟨nofun, nofun⟩
  · rw [heq]
    exact h.post nofun
  · exact h.signal hnext
  · exact h.loopStep hloop

/-! ## Nothing is abandoned while no exception comes in between -/

/-- No completion in the queue has lost its signal. -/
def Kept (s : Wakeup H) : Prop := ∀ p ∈ s.cq, p.mark ≠ .abandoned

/-- Only `leave` and a signal change what is in the completion queue, besides the drain. -/
theorem loopStep_cq {s t : Wakeup H} {a : LoopAct H} (h : s.loopStep a = some t) :
    t.cq = s.cq ∨ t.cq = [] ∨ a = .leave ∧ t = s.leave := by
  cases a with
  | advance =>
    simp only [loopStep, advance] at h
    grind
  | push handle =>
    simp only [loopStep, Option.ite_none_right_eq_some] at h
    cases h.2
    exact .inl rfl
  | leave =>
    simp only [loopStep, Option.ite_none_right_eq_some] at h
    exact .inr (.inr ⟨rfl, by cases h.2; rfl⟩)
  | wake events =>
    simp only [loopStep] at h
    grind
  | runForever =>
    simp only [loopStep] at h
    grind

theorem Kept.step {s t : Threads (Wakeup H) ProducerPc} {a : Act H} (hcovered : s.shared.Covered)
    (h : s.shared.Kept) (hkeeps : KeepsSignals s a) (hstep : step s a = some t) :
    t.shared.Kept := by
  obtain ⟨i, handle, rfl, heq⟩ | ⟨i, entry, rfl, heq⟩ | ⟨i, pc, pc', rfl, hnext⟩ |
    ⟨b, rfl, hloop⟩ := step_cases hstep
  · rw [heq]
    exact h
  · rw [heq]
    intro p hp
    rcases List.mem_append.mp hp with hp | hp
    · exact h p hp
    · rw [List.mem_singleton.mp hp]
      exact nofun
  · cases pc with
    | idle => cases hnext
    | writeToSelf =>
      obtain ⟨heq, -⟩ := Prod.mk.inj (Option.some.inj hnext)
      rw [← heq]
      exact h
    | signal =>
      obtain ⟨heq, -⟩ := Prod.mk.inj (Option.some.inj hnext)
      rw [← heq]
      intro p hp
      obtain ⟨q, hq, rfl⟩ := List.mem_map.mp hp
      exact Mark.signal_ne_abandoned (h q hq)
  · rcases loopStep_cq hloop with heq | heq | ⟨rfl, heq⟩
    · intro p hp
      exact h p (heq ▸ hp)
    · intro p hp
      rw [heq] at hp
      cases hp
    · rw [heq]
      intro p hp
      simp only [leave] at hp
      split at hp
      · -- the counter is zero outside an iteration: by the invariant nothing here was signalled
        rename_i hzero
        obtain ⟨q, hq, rfl⟩ := List.mem_map.mp hp
        have hsignalled := hcovered.cq (hkeeps hzero) hzero q hq
        have habandoned := h q hq
        simp only [Posted.abandon, Mark.abandon]
        grind
      · exact h p hp

/-! ## No lost wakeup -/

/-- **No lost wakeup.** In every run of any number of producers and the loop, whenever the loop is
blocked in the wait and the counter is zero, no handle in the ready queue has been signalled, and no
completion in the completion queue except those an exception made an iteration abandon. In a run in
which no exception comes between a reset and a drain there are none of these either. -/
theorem no_lost_wakeup {n : Nat} {t : Threads (Wakeup H) ProducerPc} {acts : List (Act H)}
    (hrun : machine.run (start n) acts = some t) (hwaiting : t.shared.loop = .waiting)
    (hzero : t.shared.counter = 0) :
    (∀ p ∈ t.shared.ready, p.mark.wasSignalled = false) ∧
    (∀ p ∈ t.shared.cq, p.mark.wasSignalled → p.mark = .abandoned) ∧
    (machine.Meets KeepsSignals (start n) acts →
      ∀ p ∈ t.shared.cq, p.mark.wasSignalled = false) := by
  have h : t.shared.Covered := Machine.run_invariant'
    (I := fun s : Threads (Wakeup H) ProducerPc => s.shared.Covered)
    (fun s a u hs hstep => hs.step hstep) (Covered.init n) hrun
  have hcq := h.cq (by rw [hwaiting]; rfl) hzero
  refine ⟨fun p hp => ?_, fun p hp hsignalled => ?_, fun hmeets p hp => ?_⟩
  · have hready := h.ready (by rw [hwaiting]; rfl) hzero p hp
    have hhandle := h.handles p hp
    cases hmark : p.mark with
    | own | posted i => rfl
    | signalled => exact absurd hmark hready
    | abandoned => exact absurd hmark hhandle
  · cases hmark : p.mark with
    | abandoned => rfl
    | signalled => exact absurd hmark (hcq p hp)
    | own | posted i =>
      rw [hmark] at hsignalled
      cases hsignalled
  · have hkept : t.shared.Covered ∧ t.shared.Kept := Machine.run_invariant
      (I := fun s : Threads (Wakeup H) ProducerPc => s.shared.Covered ∧ s.shared.Kept)
      (fun s a u hs hkeeps hstep => ⟨hs.1.step hstep, hs.2.step hs.1 hkeeps hstep⟩)
      ⟨Covered.init n, fun p hp => by cases hp⟩ hmeets hrun
    cases hmark : p.mark with
    | own | posted i => rfl
    | signalled => exact absurd hmark (hcq p hp)
    | abandoned => exact absurd hmark (hkept.2 p hp)

/-- A completion that no operation of interest is behind. -/
def someEntry : CompletionEntry := ⟨0, 0, 0, none⟩

/-- Thread 0 wakes the loop for handle 7; while the loop goes back to sleep the kernel has posted a
completion and not signalled it yet. -/
def wakeRun : List (Act Nat) :=
  [.loop .advance, .callSoonThreadsafe 0 7, .loop .advance, .signal 0, .loop (.wake [.eventFd])] ++
    List.replicate 10 (.loop .advance) ++ [.post 1 someEntry] ++
    List.replicate 2 (.loop .advance)

theorem no_lost_wakeup_wakeRun :
    ∃ t : Threads (Wakeup Nat) ProducerPc, machine.run (start 2) wakeRun = some t ∧
      t.shared.loop = .waiting ∧ t.shared.counter = 0 ∧ t.shared.cq.length = 1 ∧
      ∀ p ∈ t.shared.cq, p.mark.wasSignalled = false :=
  ⟨_, rfl, rfl, rfl, rfl,
    (no_lost_wakeup (show machine.run (start 2) wakeRun = some _ from rfl) rfl rfl).2.2 (by decide)⟩

/-- The kernel signals a completion; the loop wakes up and resets the counter, and the kernel refuses
the submission of the tick: `run_tick` raises before it has drained the queue. The loop is run
again. -/
def refusedRun : List (Act Nat) :=
  [.loop .advance, .loop .advance, .post 0 someEntry, .signal 0, .loop (.wake [.eventFd])] ++
    List.replicate 3 (.loop .advance) ++ [.loop .leave, .loop .runForever] ++
    List.replicate 2 (.loop .advance)

/-- The loop can be blocked with the counter at zero before a completion that has been signalled. -/
theorem signalled_and_blocked :
    ∃ t : Threads (Wakeup Nat) ProducerPc, machine.run (start 1) refusedRun = some t ∧
      t.shared.loop = .waiting ∧ t.shared.counter = 0 ∧
      ∃ p ∈ t.shared.cq, p.mark.wasSignalled :=
  ⟨_, rfl, rfl, rfl, _, List.mem_singleton.mpr rfl, rfl⟩

end Wakeup

end Uringcore
