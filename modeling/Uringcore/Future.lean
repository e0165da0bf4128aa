import Uringcore.Error
import Uringcore.Lib.Machine
import Uringcore.Lib.Threads

/-!
# The native future

`UringFuture` is a state and a list of done callbacks, each behind a lock of its own. A completing
call (`set_result`, `set_exception`, `cancel` and the two fast variants) checks and sets the state
under the state lock, gives the lock back, and only then takes the callbacks lock to drain the list.
`add_done_callback` takes the callbacks lock *and then* the state lock and holds both while it
decides. A registration can therefore fall between the setting of the state and the drain.
`remove_done_callback` drops what it removes inside the callbacks lock: the last reference to a context
may go there, and a finaliser is Python code that may do anything.

Any number of threads make calls. A thread's local state `Pc` names the next atomic step of its
call: taking a lock (which waits until the lock is free), the body of a section, giving a lock
back. A thread that waits for a lock keeps the GIL, without which no finaliser goes on. What has
happened is kept as a list of `Event`s beside the machine.
-/

namespace Uringcore

inductive FutureState (V : Type) where
  | pending
  | finished (result : V)
  | failed (exception : V)
  | cancelled
  deriving DecidableEq, Repr

def FutureState.isPending {V : Type} : FutureState V → Bool
  | pending => true
  | finished _ | failed _ | cancelled => false

theorem FutureState.isPending_iff {V : Type} {state : FutureState V} :
    state.isPending = true ↔ state = .pending := by
  cases state <;> simp [isPending]

/-- The calls that complete a future. -/
inductive Completing (V : Type) where
  | setResult (result : V)
  | setException (exception : V)
  | cancel
  | setResultFast (result : V)
  | setExceptionFast (exception : V)
  deriving DecidableEq, Repr

namespace Completing
variable {V : Type}

/-- The state the call sets. -/
def state : Completing V → FutureState V
  | setResult result | setResultFast result => .finished result
  | setException exception | setExceptionFast exception => .failed exception
  | cancel => .cancelled

theorem state_ne_pending (call : Completing V) : call.state ≠ .pending := by
  cases call <;> simp [state]

/-- What the call answers when the future is not pending. -/
def refusal : Completing V → Except PyErr Bool
  | setResult _ | setException _ | setResultFast _ | setExceptionFast _ =>
      .error (.valueError "Future is already done.")
  | cancel => .ok false

end Completing

/-- A done callback with its context. Two callbacks are the same if they are the same object. -/
abbrev Registration (C X : Type) := C × Option X

inductive FutureCall (V C X : Type) where
  | complete (call : Completing V)
  | addDoneCallback (entry : Registration C X)
  | removeDoneCallback (func : C)
  deriving DecidableEq, Repr

/-- A future and the threads that hold its locks. -/
structure UringFuture (V C X : Type) where
  state : FutureState V
  callbacks : List (Registration C X)
  stateLock : Option Nat
  callbacksLock : Option Nat
  deriving DecidableEq, Repr

/-- Where a thread is in its call: the step it takes next. -/
inductive Pc (V C X : Type) where
  | idle
  | lockState (call : Completing V)
  | checkState (call : Completing V)
  | unlockState
  /-- The drain of `_schedule_callbacks` and of `schedule_fast`. -/
  | lockCallbacks
  | drain
  | unlockCallbacks (drained : List (Registration C X))
  | schedule (drained : List (Registration C X))
  | addLockCallbacks (entry : Registration C X)
  | addLockState (entry : Registration C X)
  | addCheck (entry : Registration C X)
  /-- The future was done: `drop(callbacks_guard)`, `drop(state_guard)`. -/
  | addDropCallbacks (entry : Registration C X)
  | addDropState (entry : Registration C X)
  /-- The callback was pushed: the guards are dropped in reverse order of their declaration. -/
  | addUnlockState
  | addUnlockCallbacks
  | removeLock (func : C)
  | removeRetain (func : C)
  /-- `retain` drops the pairs it has removed, before the guard goes. -/
  | removeDrop (dropped : List (Registration C X))
  /-- Dropping a context has run a finaliser: it is in a call of this future, or in none. -/
  | finalizing (dropped : List (Registration C X)) (inner : Pc V C X)
  deriving DecidableEq, Repr

/-- What a step did that matters to a caller or to the loop. -/
inductive Event (V C X : Type) where
  /-- A completing call has begun. -/
  | called (call : Completing V)
  | completed (call : Completing V)
  | refused (call : Completing V) (answer : Except PyErr Bool)
  | added (entry : Registration C X)
  /-- `remove_done_callback` answers the number of these. -/
  | removed (entries : List (Registration C X))
  | scheduled (entry : Registration C X)

namespace Pc
variable {V C X : Type} [DecidableEq C]

def start : FutureCall V C X → Pc V C X
  | .complete call => lockState call
  | .addDoneCallback entry => addLockCallbacks entry
  | .removeDoneCallback func => removeLock func

/-- The next atomic step of thread `i`. Taking a lock that is held is not possible. -/
def next (i : Nat) (pc : Pc V C X) (fut : UringFuture V C X) :
    Option (UringFuture V C X × Pc V C X) :=
  match pc with
  | idle => none
  | lockState call =>
      if fut.stateLock = none then some ({ fut with stateLock := some i }, checkState call)
      else none
  | checkState call => match fut.state with
      | .pending => some ({ fut with state := call.state }, unlockState)
      | .finished _ | .failed _ | .cancelled => some ({ fut with stateLock := none }, idle)
  | unlockState => some ({ fut with stateLock := none }, lockCallbacks)
  | lockCallbacks =>
      if fut.callbacksLock = none then some ({ fut with callbacksLock := some i }, drain) else none
  | drain => some ({ fut with callbacks := [] }, unlockCallbacks fut.callbacks)
  | unlockCallbacks drained => some ({ fut with callbacksLock := none }, schedule drained)
  | schedule [] => some (fut, idle)
  | schedule (_ :: rest) => some (fut, schedule rest)
  | addLockCallbacks entry =>
      if fut.callbacksLock = none then
        some ({ fut with callbacksLock := some i }, addLockState entry)
      else none
  | addLockState entry =>
      if fut.stateLock = none then some ({ fut with stateLock := some i }, addCheck entry)
      else none
  | addCheck entry => match fut.state with
      | .pending => some ({ fut with callbacks := fut.callbacks ++ [entry] }, addUnlockState)
      | .finished _ | .failed _ | .cancelled => some (fut, addDropCallbacks entry)
  | addDropCallbacks entry => some ({ fut with callbacksLock := none }, addDropState entry)
  | addDropState entry => some ({ fut with stateLock := none }, schedule [entry])
  | addUnlockState => some ({ fut with stateLock := none }, addUnlockCallbacks)
  | addUnlockCallbacks => some ({ fut with callbacksLock := none }, idle)
  | removeLock func =>
      if fut.callbacksLock = none then
        some ({ fut with callbacksLock := some i }, removeRetain func)
      else none
  | removeRetain func =>
      some ({ fut with callbacks := fut.callbacks.filter (·.1 ≠ func) },
        removeDrop (fut.callbacks.filter (·.1 = func)))
  | removeDrop [] => some ({ fut with callbacksLock := none }, idle)
  | removeDrop (_ :: dropped) => some (fut, removeDrop dropped)
  | finalizing dropped idle => some (fut, removeDrop dropped)
  | finalizing dropped inner => (next i inner fut).map fun r => (r.1, finalizing dropped r.2)

/-- The event of the next step. -/
def event (pc : Pc V C X) (fut : UringFuture V C X) : List (Event V C X) :=
  match pc with
  | checkState call => match fut.state with
      | .pending => [.completed call]
      | .finished _ | .failed _ | .cancelled => [.refused call call.refusal]
  | schedule (entry :: _) => [.scheduled entry]
  | addCheck entry => [.added entry]
  | removeRetain func => [.removed (fut.callbacks.filter (·.1 = func))]
  | finalizing _ inner => inner.event fut
  | _ => []

/-- The registrations a thread has taken over and not scheduled yet. -/
def hands : Pc V C X → List (Registration C X)
  | unlockCallbacks drained => drained
  | schedule drained => drained
  | addDropCallbacks entry => [entry]
  | addDropState entry => [entry]
  | finalizing _ inner => inner.hands
  | _ => []

/-- The completing call that has not come to its check. -/
def undecided : Pc V C X → List (Completing V)
  | lockState call | checkState call => [call]
  | finalizing _ inner => inner.undecided
  | _ => []

/-- Inside a section of the state lock. -/
def holdsState : Pc V C X → Bool
  | checkState _ | unlockState | addCheck _ | addDropCallbacks _ | addDropState _
  | addUnlockState => true
  | finalizing _ inner => inner.holdsState
  | _ => false

/-- Inside a section of the callbacks lock. -/
def holdsCallbacks : Pc V C X → Bool
  | drain | unlockCallbacks _ | addLockState _ | addCheck _ | addDropCallbacks _ | addUnlockState
  | addUnlockCallbacks | removeRetain _ | removeDrop _ | finalizing .. => true
  | _ => false

/-- The state is set and the drain of the callbacks is to come. -/
def willDrain : Pc V C X → Bool
  | unlockState | lockCallbacks | drain => true
  | finalizing _ inner => inner.willDrain
  | _ => false

/-- Python code is running, which may let another thread have the GIL. -/
def outside : Pc V C X → Bool
  | idle | schedule _ => true
  | _ => false

end Pc

namespace Event
variable {V C X : Type}

def called? : Event V C X → Option (Completing V)
  | called call => some call
  | completed _ | refused .. | added _ | removed _ | scheduled _ => none

def completed? : Event V C X → Option (Completing V)
  | completed call => some call
  | called _ | refused .. | added _ | removed _ | scheduled _ => none

def refused? : Event V C X → Option (Completing V)
  | refused call _ => some call
  | called _ | completed _ | added _ | removed _ | scheduled _ => none

/-- The call has answered that the future is done. -/
def Refusal : Event V C X → Prop
  | refused .cancel answer => answer = .ok false
  | refused _ answer => answer = .error (.valueError "Future is already done.")
  | called _ | completed _ | added _ | removed _ | scheduled _ => True

def added? : Event V C X → Option (Registration C X)
  | added entry => some entry
  | called _ | completed _ | refused .. | removed _ | scheduled _ => none

def removals : Event V C X → List (Registration C X)
  | removed entries => entries
  | called _ | completed _ | refused .. | added _ | scheduled _ => []

def scheduled? : Event V C X → Option (Registration C X)
  | scheduled entry => some entry
  | called _ | completed _ | refused .. | added _ | removed _ => none

/-- The beginning of a call is nothing else. -/
theorem projections_called {ev : List (Event V C X)} (h : ∀ e ∈ ev, e.called?.isSome) :
    ev.filterMap completed? = [] ∧ ev.filterMap refused? = [] ∧ ev.filterMap added? = [] ∧
      ev.flatMap removals = [] ∧ ev.filterMap scheduled? = [] := by
  refine ⟨?_, ?_, ?_, ?_, ?_⟩
  all_goals
    first | rw [List.filterMap_eq_nil_iff] | rw [List.flatMap_eq_nil_iff]
    intro e he
    have hcalled := h e he
    cases e with
    | called call => rfl
    | _ => cases hcalled

end Event

namespace UringFuture
variable {V C X : Type} [DecidableEq C]

/-- A thread begins a call, or goes on with the one it is in, or a context that it drops has a
finaliser. -/
inductive Act (V C X : Type) where
  | call (i : Nat) (c : FutureCall V C X)
  | advance (i : Nat)
  | finalize (i : Nat)

/-- The finaliser that thread `i` runs has the GIL: no other thread is inside a call with it. -/
def hasGil (i : Nat) (s : Threads (UringFuture V C X) (Pc V C X)) : Bool :=
  (s.locals.eraseIdx i).all Pc.outside

def step (s : Threads (UringFuture V C X) (Pc V C X)) :
    Act V C X → Option (Threads (UringFuture V C X) (Pc V C X))
  | .call i c => match s.locals[i]? with
      | some .idle => some { s with locals := s.locals.set i (.start c) }
      | some (.finalizing dropped .idle) =>
          if hasGil i s then
            some { s with locals := s.locals.set i (.finalizing dropped (.start c)) }
          else none
      | _ => none
  | .advance i => match s.locals[i]? with
      | some (.finalizing _ .idle) => if hasGil i s then s.advance Pc.next i else none
      | _ => s.advance Pc.next i
  -- the callback itself is the argument of the call, so only a context can go
  | .finalize i => match s.locals[i]? with
      | some (.removeDrop ((_, some _) :: dropped)) =>
          if hasGil i s then some { s with locals := s.locals.set i (.finalizing dropped .idle) }
          else none
      | _ => none

def events (s : Threads (UringFuture V C X) (Pc V C X)) : Act V C X → List (Event V C X)
  | .call _ (.complete call) => [.called call]
  | .call _ (.addDoneCallback _) | .call _ (.removeDoneCallback _) | .finalize _ => []
  | .advance i => match s.locals[i]? with
      | some pc => pc.event s.shared
      | none => []

/-- The machine, with the events so far. -/
def machine : Machine (Threads (UringFuture V C X) (Pc V C X) × List (Event V C X)) (Act V C X) :=
  (Machine.mk step).ghost fun s a _ past => past ++ events s a

/-- A new future and `n` threads. -/
def start (n : Nat) : Threads (UringFuture V C X) (Pc V C X) × List (Event V C X) :=
  (⟨⟨.pending, [], none, none⟩, List.replicate n .idle⟩, [])

end UringFuture

/-! ## What one step does -/

namespace Pc
variable {V C X : Type} [DecidableEq C]

/-- All that a step can do to the state, the callbacks and the thread's hands. -/
inductive Moves (pc pc' : Pc V C X) (fut fut' : UringFuture V C X) :
    List (Event V C X) → Prop where
  /-- A lock changes hands, or a call begins. -/
  | quiet {ev : List (Event V C X)} (hstate : fut'.state = fut.state)
      (hcallbacks : fut'.callbacks = fut.callbacks) (hhands : pc'.hands = pc.hands)
      (hdrain : pc'.willDrain = pc.willDrain) (hev : ∀ e ∈ ev, e.called?.isSome) :
      Moves pc pc' fut fut' ev
  | completes (call : Completing V) (hpending : fut.state = .pending)
      (hstate : fut'.state = call.state) (hcallbacks : fut'.callbacks = fut.callbacks)
      (hhands : pc.hands = [] ∧ pc'.hands = []) (hdrain : pc'.willDrain = true) :
      Moves pc pc' fut fut' [.completed call]
  | refuses (call : Completing V) (hdone : fut.state ≠ .pending) (hstate : fut'.state = fut.state)
      (hcallbacks : fut'.callbacks = fut.callbacks) (hhands : pc.hands = [] ∧ pc'.hands = [])
      (hdrain : pc.willDrain = false) :
      Moves pc pc' fut fut' [.refused call call.refusal]
  | drains (hstate : fut'.state = fut.state) (hcallbacks : fut'.callbacks = [])
      (hhands : pc.hands = [] ∧ pc'.hands = fut.callbacks) (hdrain : pc.willDrain = true) :
      Moves pc pc' fut fut' []
  | schedules (entry : Registration C X) (hstate : fut'.state = fut.state)
      (hcallbacks : fut'.callbacks = fut.callbacks) (hhands : pc.hands = entry :: pc'.hands)
      (hdrain : pc.willDrain = false) : Moves pc pc' fut fut' [.scheduled entry]
  | adds (entry : Registration C X) (hpending : fut.state = .pending)
      (hstate : fut'.state = fut.state) (hcallbacks : fut'.callbacks = fut.callbacks ++ [entry])
      (hhands : pc.hands = [] ∧ pc'.hands = []) (hdrain : pc'.willDrain = false) :
      Moves pc pc' fut fut' [.added entry]
  /-- The future is done: the thread will schedule the callback itself. -/
  | takes (entry : Registration C X) (hdone : fut.state ≠ .pending)
      (hstate : fut'.state = fut.state) (hcallbacks : fut'.callbacks = fut.callbacks)
      (hhands : pc.hands = [] ∧ pc'.hands = [entry]) (hdrain : pc.willDrain = false) :
      Moves pc pc' fut fut' [.added entry]
  | removes (func : C) (hstate : fut'.state = fut.state)
      (hcallbacks : fut'.callbacks = fut.callbacks.filter (·.1 ≠ func))
      (hhands : pc.hands = [] ∧ pc'.hands = [])
      (hdrain : pc'.willDrain = false ∧ pc.willDrain = false) :
      Moves pc pc' fut fut' [.removed (fut.callbacks.filter (·.1 = func))]

/-- What a call does in a finaliser it does. -/
theorem Moves.finalizing {pc pc' : Pc V C X} {fut fut' : UringFuture V C X}
    {ev : List (Event V C X)} (h : Moves pc pc' fut fut' ev) (dropped : List (Registration C X)) :
    Moves (finalizing dropped pc) (finalizing dropped pc') fut fut' ev := by
  cases h with
  | quiet hstate hcallbacks hhands hdrain hev => exact .quiet hstate hcallbacks hhands hdrain hev
  | completes call hpending hstate hcallbacks hhands hdrain =>
    exact .completes call hpending hstate hcallbacks hhands hdrain
  | refuses call hdone hstate hcallbacks hhands hdrain =>
    exact .refuses call hdone hstate hcallbacks hhands hdrain
  | drains hstate hcallbacks hhands hdrain => exact .drains hstate hcallbacks hhands hdrain
  | schedules entry hstate hcallbacks hhands hdrain =>
    exact .schedules entry hstate hcallbacks hhands hdrain
  | adds entry hpending hstate hcallbacks hhands hdrain =>
    exact .adds entry hpending hstate hcallbacks hhands hdrain
  | takes entry hdone hstate hcallbacks hhands hdrain =>
    exact .takes entry hdone hstate hcallbacks hhands hdrain
  | removes func hstate hcallbacks hhands hdrain =>
    exact .removes func hstate hcallbacks hhands hdrain

/-- A finaliser is in no call, and returns, or takes a step of the call it is in. -/
theorem next_finalizing {i : Nat} {dropped : List (Registration C X)} {inner pc' : Pc V C X}
    {fut fut' : UringFuture V C X} (h : next i (finalizing dropped inner) fut = some (fut', pc')) :
    inner = .idle ∧ fut' = fut ∧ pc' = removeDrop dropped ∨
      ∃ inner', next i inner fut = some (fut', inner') ∧ pc' = finalizing dropped inner' := by
  by_cases hidle : inner = .idle
  · subst hidle
    cases h
    exact .inl ⟨rfl, rfl, rfl⟩
  · rw [next] at h
    · obtain ⟨r, hr, heq⟩ := Option.map_eq_some_iff.mp h
      cases heq
      exact .inr ⟨r.2, hr, rfl⟩
    · exact hidle

theorem next_moves {i : Nat} {pc pc' : Pc V C X} {fut fut' : UringFuture V C X}
    (h : next i pc fut = some (fut', pc')) : Moves pc pc' fut fut' (pc.event fut) := by
  have hnone : ∀ e ∈ ([] : List (Event V C X)), e.called?.isSome := by simp
  induction pc generalizing pc' with
  | idle => cases h
  | finalizing dropped inner ih =>
    obtain ⟨rfl, rfl, rfl⟩ | ⟨inner', hinner, rfl⟩ := next_finalizing h
    · exact .quiet rfl rfl rfl rfl hnone
    · exact (ih hinner).finalizing dropped
  | lockState | lockCallbacks | addLockCallbacks | addLockState | removeLock =>
    simp only [next, Option.ite_none_right_eq_some] at h
    cases h.2
    exact .quiet rfl rfl rfl rfl hnone
  | removeDrop dropped =>
    cases dropped <;> cases h <;> exact .quiet rfl rfl rfl rfl hnone
  | checkState call =>
    cases hstate : fut.state with
    | pending =>
      simp only [next, hstate] at h
      cases h
      simp only [event, hstate]
      exact .completes call hstate rfl rfl ⟨rfl, rfl⟩ rfl
    | finished | failed | cancelled =>
      simp only [next, hstate] at h
      cases h
      simp only [event, hstate]
      exact .refuses call (by simp [hstate]) hstate.symm rfl ⟨rfl, rfl⟩ rfl
  | drain =>
    cases h
    exact .drains rfl rfl ⟨rfl, rfl⟩ rfl
  | schedule drained =>
    cases drained with
    | nil =>
      cases h
      exact .quiet rfl rfl rfl rfl hnone
    | cons entry rest =>
      cases h
      exact .schedules entry rfl rfl rfl rfl
  | addCheck entry =>
    cases hstate : fut.state with
    | pending =>
      simp only [next, hstate] at h
      cases h
      exact .adds entry hstate hstate.symm rfl ⟨rfl, rfl⟩ rfl
    | finished | failed | cancelled =>
      simp only [next, hstate] at h
      cases h
      exact .takes entry (by simp [hstate]) rfl rfl ⟨rfl, rfl⟩ rfl
  | removeRetain func =>
    cases h
    exact .removes func rfl rfl ⟨rfl, rfl⟩ ⟨rfl, rfl⟩
  | _ =>
    cases h
    exact .quiet rfl rfl rfl rfl hnone

/-- A step moves registrations between the list, the thread's hands and what is done with them. -/
theorem Moves.account [DecidableEq X] {pc pc' : Pc V C X} {fut fut' : UringFuture V C X}
    {ev : List (Event V C X)} (h : Moves pc pc' fut fut' ev) (e : Registration C X) :
    (ev.filterMap Event.added?).count e + fut.callbacks.count e + pc.hands.count e =
      fut'.callbacks.count e + (ev.flatMap Event.removals).count e +
        (ev.filterMap Event.scheduled?).count e + pc'.hands.count e := by
  cases h with
  | quiet hstate hcallbacks hhands hdrain hev =>
    obtain ⟨-, -, hadded, hremovals, hscheduled⟩ := Event.projections_called hev
    rw [hcallbacks, hhands, hadded, hremovals, hscheduled]
    show 0 + _ + _ = _ + 0 + 0 + _
    omega
  | completes call hpending hstate hcallbacks hhands =>
    rw [hcallbacks, hhands.1, hhands.2]
    show 0 + _ + 0 = _ + 0 + 0 + 0
    omega
  | refuses call hdone hstate hcallbacks hhands =>
    rw [hcallbacks, hhands.1, hhands.2]
    show 0 + _ + 0 = _ + 0 + 0 + 0
    omega
  | drains hstate hcallbacks hhands =>
    rw [hcallbacks, hhands.1, hhands.2]
    show 0 + _ + 0 = 0 + 0 + 0 + _
    omega
  | schedules entry hstate hcallbacks hhands =>
    rw [hcallbacks, hhands]
    show 0 + _ + (entry :: pc'.hands).count e = _ + 0 + [entry].count e + _
    rw [← List.singleton_append, List.count_append]
    omega
  | adds entry hpending hstate hcallbacks hhands =>
    rw [hcallbacks, hhands.1, hhands.2, List.count_append]
    show [entry].count e + _ + 0 = _ + [entry].count e + 0 + 0 + 0
    omega
  | takes entry hdone hstate hcallbacks hhands =>
    rw [hcallbacks, hhands.1, hhands.2]
    show [entry].count e + _ + 0 = _ + 0 + 0 + [entry].count e
    omega
  | removes func hstate hcallbacks hhands =>
    have hsplit := (List.filter_append_perm (·.1 = func) fut.callbacks).count_eq e
    rw [List.count_append] at hsplit
    have hrest : fut.callbacks.filter (fun x => decide (x.1 ≠ func)) =
        fut.callbacks.filter fun x => !decide (x.1 = func) :=
      List.filter_congr fun x _ => decide_not ..
    rw [hcallbacks, hhands.1, hhands.2, hrest, List.flatMap_singleton, ← hsplit]
    show 0 + (_ + _) + 0 = _ + _ + 0 + 0
    simp only [Event.removals]
    omega

/-- Only a completion changes the state, and only of a pending future. -/
theorem Moves.completed {pc pc' : Pc V C X} {fut fut' : UringFuture V C X}
    {ev : List (Event V C X)} (h : Moves pc pc' fut fut' ev) :
    ev.filterMap Event.completed? = [] ∧ fut'.state = fut.state ∨
      ∃ call, ev = [.completed call] ∧ fut.state = .pending ∧ fut'.state = call.state := by
  cases h with
  | completes call hpending hstate => exact .inr ⟨call, rfl, hpending, hstate⟩
  | quiet hstate _ _ _ hev => exact .inl ⟨(Event.projections_called hev).1, hstate⟩
  | refuses _ _ hstate | drains hstate | schedules _ hstate | adds _ _ hstate
  | takes _ _ hstate | removes _ hstate => exact .inl ⟨rfl, hstate⟩

theorem Moves.refused {pc pc' : Pc V C X} {fut fut' : UringFuture V C X}
    {ev : List (Event V C X)} (h : Moves pc pc' fut fut' ev)
    (hev : ev.filterMap Event.refused? ≠ []) : fut.state ≠ .pending := by
  cases h with
  | refuses call hdone => exact hdone
  | quiet _ _ _ _ hcalled => exact absurd (Event.projections_called hcalled).2.1 hev
  | _ => exact absurd rfl hev

/-- A future that stays pending gives a thread that has nothing to do nothing to do. -/
theorem Moves.quiet_of_pending {pc pc' : Pc V C X} {fut fut' : UringFuture V C X}
    {ev : List (Event V C X)} (h : Moves pc pc' fut fut' ev) (hbefore : fut.state = .pending)
    (hafter : fut'.state = .pending) (hpc : pc.hands = [] ∧ pc.willDrain = false) :
    ev.filterMap Event.scheduled? = [] ∧ pc'.hands = [] ∧ pc'.willDrain = false := by
  cases h with
  | quiet _ _ hhands hdrain hev =>
    exact ⟨(Event.projections_called hev).2.2.2.2, hhands.trans hpc.1, hdrain.trans hpc.2⟩
  | completes call _ hstate =>
    exact absurd (hstate.symm.trans hafter) call.state_ne_pending
  | refuses _ hdone => exact absurd hbefore hdone
  | drains _ _ _ hdrain =>
    rw [hpc.2] at hdrain
    cases hdrain
  | schedules _ _ _ hhands =>
    rw [hpc.1] at hhands
    cases hhands
  | adds _ _ _ _ hhands hdrain => exact ⟨rfl, hhands.2, hdrain⟩
  | takes _ hdone => exact absurd hbefore hdone
  | removes _ _ _ hhands hdrain => exact ⟨rfl, hhands.2, hdrain.1⟩

/-- A call that a finaliser makes does not get into the section that its thread is in. -/
def Nested : Pc V C X → Prop
  | finalizing _ inner => inner.holdsCallbacks = false
  | _ => True

/-- The state lock is taken when it is free, given back by the thread inside, or left alone. -/
theorem next_stateLock {i : Nat} {pc pc' : Pc V C X} {fut fut' : UringFuture V C X}
    (h : next i pc fut = some (fut', pc')) (hstate : Threads.Owns fut.stateLock i pc.holdsState) :
    Threads.Owns fut'.stateLock i pc'.holdsState ∧
      (fut'.stateLock = fut.stateLock ∨ fut.stateLock = none ∧ fut'.stateLock = some i ∨
        fut.stateLock = some i ∧ fut'.stateLock = none) := by
  induction pc generalizing pc' with
  | idle => cases h
  | finalizing dropped inner ih =>
    obtain ⟨rfl, rfl, rfl⟩ | ⟨inner', hinner, rfl⟩ := next_finalizing h
    · exact ⟨hstate, .inl rfl⟩
    · have hinner' := ih hinner hstate
      exact hinner'
  | lockState | lockCallbacks | addLockCallbacks | addLockState | removeLock =>
    simp only [next, Option.ite_none_right_eq_some] at h
    obtain ⟨hfree, heq⟩ := h
    cases heq
    simp_all [Threads.Owns, holdsState]
  | checkState call | addCheck entry =>
    cases hset : fut.state <;> simp only [next, hset] at h <;> cases h <;>
      simp_all [Threads.Owns, holdsState]
  | schedule list | removeDrop list =>
    cases list <;> cases h <;> simp_all [Threads.Owns, holdsState]
  | _ =>
    cases h
    simp_all [Threads.Owns, holdsState]

/-- A call in a finaliser waits for the lock that its thread has, or does without. -/
theorem next_nested {i : Nat} {inner inner' : Pc V C X} {fut fut' : UringFuture V C X}
    (h : next i inner fut = some (fut', inner')) (howned : fut.callbacksLock = some i)
    (hnested : inner.holdsCallbacks = false) :
    fut'.callbacksLock = fut.callbacksLock ∧ inner'.holdsCallbacks = false := by
  cases inner with
  | idle => cases h
  | lockCallbacks | addLockCallbacks | removeLock =>
    simp only [next, Option.ite_none_right_eq_some] at h
    rw [howned] at h
    cases h.1
  | lockState =>
    simp only [next, Option.ite_none_right_eq_some] at h
    cases h.2
    exact ⟨rfl, rfl⟩
  | checkState call =>
    cases hset : fut.state <;> simp only [next, hset] at h <;> cases h <;> exact ⟨rfl, rfl⟩
  | schedule list => cases list <;> cases h <;> exact ⟨rfl, rfl⟩
  | unlockState | addDropState entry =>
    cases h
    exact ⟨rfl, rfl⟩
  | _ => cases hnested

/-- The callbacks lock in the same way. -/
theorem next_callbacksLock {i : Nat} {pc pc' : Pc V C X} {fut fut' : UringFuture V C X}
    (h : next i pc fut = some (fut', pc')) (hnested : pc.Nested)
    (hcallbacks : Threads.Owns fut.callbacksLock i pc.holdsCallbacks) :
    pc'.Nested ∧ Threads.Owns fut'.callbacksLock i pc'.holdsCallbacks ∧
      (fut'.callbacksLock = fut.callbacksLock ∨
        fut.callbacksLock = none ∧ fut'.callbacksLock = some i ∨
        fut.callbacksLock = some i ∧ fut'.callbacksLock = none) := by
  cases pc with
  | idle => cases h
  | finalizing dropped inner =>
    obtain ⟨rfl, rfl, rfl⟩ | ⟨inner', hinner, rfl⟩ := next_finalizing h
    · exact ⟨trivial, hcallbacks, .inl rfl⟩
    · obtain ⟨hsame, hnested'⟩ := next_nested hinner (hcallbacks.mp rfl) hnested
      exact ⟨hnested', hsame ▸ hcallbacks, .inl hsame⟩
  | lockState | lockCallbacks | addLockCallbacks | addLockState | removeLock =>
    simp only [next, Option.ite_none_right_eq_some] at h
    obtain ⟨hfree, heq⟩ := h
    cases heq
    simp_all [Threads.Owns, holdsCallbacks, Nested]
  | checkState call | addCheck entry =>
    cases hset : fut.state <;> simp only [next, hset] at h <;> cases h <;>
      simp_all [Threads.Owns, holdsCallbacks, Nested]
  | schedule list | removeDrop list =>
    cases list <;> cases h <;> simp_all [Threads.Owns, holdsCallbacks, Nested]
  | _ =>
    cases h
    simp_all [Threads.Owns, holdsCallbacks, Nested]

/-- A completing call that comes to its check wins or is refused there. -/
theorem next_decides {i : Nat} {pc pc' : Pc V C X} {fut fut' : UringFuture V C X}
    (h : next i pc fut = some (fut', pc')) :
    (pc.event fut).filterMap Event.called? ++ pc.undecided =
      (pc.event fut).filterMap Event.completed? ++ (pc.event fut).filterMap Event.refused? ++
        pc'.undecided := by
  induction pc generalizing pc' with
  | idle => cases h
  | finalizing dropped inner ih =>
    obtain ⟨rfl, rfl, rfl⟩ | ⟨inner', hinner, rfl⟩ := next_finalizing h
    · rfl
    · have hinner' := ih hinner
      exact hinner'
  | lockState | lockCallbacks | addLockCallbacks | addLockState | removeLock =>
    simp only [next, Option.ite_none_right_eq_some] at h
    cases h.2
    rfl
  | checkState call | addCheck entry =>
    cases hset : fut.state <;> simp only [next, hset] at h <;> cases h <;>
      simp only [event, hset] <;> rfl
  | schedule list | removeDrop list => cases list <;> cases h <;> rfl
  | _ =>
    cases h
    rfl

theorem refusal_event (pc : Pc V C X) (fut : UringFuture V C X) :
    ∀ e ∈ pc.event fut, e.Refusal := by
  induction pc with
  | finalizing dropped inner ih => exact ih
  | checkState call =>
    cases hset : fut.state <;> cases call <;> simp [event, hset, Event.Refusal, Completing.refusal]
  | schedule list => cases list <;> simp [event, Event.Refusal]
  | _ => simp [event, Event.Refusal]

end Pc

/-! ## The invariant -/

namespace UringFuture
variable {V C X : Type} [DecidableEq C]

structure Consistent (s : Threads (UringFuture V C X) (Pc V C X)) (past : List (Event V C X)) :
    Prop where
  locks : s.Asserts fun i pc fut => pc.Nested ∧ Threads.Owns fut.stateLock i pc.holdsState ∧
    Threads.Owns fut.callbacksLock i pc.holdsCallbacks
  /-- The locks name threads there are. -/
  holders : ∀ i, s.shared.stateLock = some i ∨ s.shared.callbacksLock = some i →
    i < s.locals.length
  winner : s.shared.state = .pending ∧ past.filterMap Event.completed? = [] ∨
    ∃ call, past.filterMap Event.completed? = [call] ∧ s.shared.state = call.state
  refused : past.filterMap Event.refused? ≠ [] → s.shared.state ≠ .pending
  refusals : ∀ e ∈ past, e.Refusal
  /-- Every completing call has won, was refused or has not come to its check. -/
  decided : (past.filterMap Event.called?).Perm (past.filterMap Event.completed? ++
    past.filterMap Event.refused? ++ s.locals.flatMap Pc.undecided)
  /-- Every registration is in one place: in the list, removed, scheduled or in a thread's hands. -/
  kept : (past.filterMap Event.added?).Perm (s.shared.callbacks ++ past.flatMap Event.removals ++
    past.filterMap Event.scheduled? ++ s.locals.flatMap Pc.hands)
  quiet : s.shared.state = .pending → past.filterMap Event.scheduled? = [] ∧
    ∀ pc ∈ s.locals, pc.hands = [] ∧ pc.willDrain = false
  /-- What a done future still lists, a thread is about to drain. -/
  drained : s.shared.state ≠ .pending →
    s.shared.callbacks = [] ∨ ∃ pc ∈ s.locals, pc.willDrain

namespace Consistent
variable {s : Threads (UringFuture V C X) (Pc V C X)} {past : List (Event V C X)}

omit [DecidableEq C] in
theorem init (n : Nat) :
    Consistent (UringFuture.start (V := V) (C := C) (X := X) n).1 [] := by
  have hidle : ∀ pc ∈ List.replicate n (Pc.idle : Pc V C X), pc = .idle :=
    fun pc hpc => (List.mem_replicate.mp hpc).2
  have hnothing {β : Type} (f : Pc V C X → List β) (hf : f .idle = []) :
      (List.replicate n (Pc.idle : Pc V C X)).flatMap f = [] := by
    rw [List.flatMap_eq_nil_iff]
    intro pc hpc
    rw [hidle pc hpc, hf]
  refine ⟨?_, by simp [UringFuture.start], .inl ⟨rfl, rfl⟩, by simp, by simp, ?_, ?_, ?_,
    by simp [UringFuture.start]⟩
  · intro i pc hi
    rw [hidle pc (List.mem_of_getElem? hi)]
    simp [Threads.Owns, Pc.Nested, Pc.holdsState, Pc.holdsCallbacks, UringFuture.start]
  · simp only [UringFuture.start, hnothing Pc.undecided rfl]
    exact List.Perm.refl _
  · simp only [UringFuture.start, hnothing Pc.hands rfl]
    exact List.Perm.refl _
  · intro _
    refine ⟨rfl, fun pc hpc => ?_⟩
    rw [hidle pc hpc]
    exact ⟨rfl, rfl⟩

/-! ### One thread moves -/

section Move
variable {i : Nat} {pc pc' : Pc V C X} {fut' : UringFuture V C X} {ev : List (Event V C X)}

theorem winner_move (h : Consistent s past) (hmoves : Pc.Moves pc pc' s.shared fut' ev) :
    fut'.state = .pending ∧ (past ++ ev).filterMap Event.completed? = [] ∨
      ∃ call, (past ++ ev).filterMap Event.completed? = [call] ∧ fut'.state = call.state := by
  rw [List.filterMap_append]
  obtain ⟨hnone, hsame⟩ | ⟨call, rfl, hpending, hset⟩ := hmoves.completed
  · rw [hnone, List.append_nil, hsame]
    exact h.winner
  · obtain ⟨-, hnil⟩ | ⟨call', -, hset'⟩ := h.winner
    · exact .inr ⟨call, by rw [hnil]; rfl, hset⟩
    · rw [hpending] at hset'
      exact absurd hset'.symm call'.state_ne_pending

theorem refused_move (h : Consistent s past) (hmoves : Pc.Moves pc pc' s.shared fut' ev)
    (hne : (past ++ ev).filterMap Event.refused? ≠ []) : fut'.state ≠ .pending := by
  obtain ⟨-, hsame⟩ | ⟨call, -, -, hset⟩ := hmoves.completed
  · rw [hsame]
    by_cases hev : ev.filterMap Event.refused? = []
    · rw [List.filterMap_append, hev, List.append_nil] at hne
      exact h.refused hne
    · exact hmoves.refused hev
  · rw [hset]
    exact call.state_ne_pending

omit [DecidableEq C] in
theorem decided_move (h : Consistent s past) (hi : s.locals[i]? = some pc)
    (hdecides : ev.filterMap Event.called? ++ pc.undecided =
      ev.filterMap Event.completed? ++ ev.filterMap Event.refused? ++ pc'.undecided) :
    ((past ++ ev).filterMap Event.called?).Perm ((past ++ ev).filterMap Event.completed? ++
      (past ++ ev).filterMap Event.refused? ++ (s.locals.set i pc').flatMap Pc.undecided) := by
  classical
  refine List.perm_iff_count.mpr fun call => ?_
  have hdecided := h.decided.count_eq call
  have hlocals := (Threads.flatMap_set_perm hi pc' Pc.undecided).count_eq call
  have hcount := congrArg (List.count call) hdecides
  simp only [List.count_append, List.filterMap_append] at hdecided hlocals hcount ⊢
  omega

theorem kept_move (h : Consistent s past) (hi : s.locals[i]? = some pc)
    (hmoves : Pc.Moves pc pc' s.shared fut' ev) :
    ((past ++ ev).filterMap Event.added?).Perm (fut'.callbacks ++
      (past ++ ev).flatMap Event.removals ++ (past ++ ev).filterMap Event.scheduled? ++
      (s.locals.set i pc').flatMap Pc.hands) := by
  classical
  refine List.perm_iff_count.mpr fun e => ?_
  have hkept := h.kept.count_eq e
  have hhands := (Threads.flatMap_set_perm hi pc' Pc.hands).count_eq e
  have haccount := hmoves.account e
  simp only [List.count_append, List.filterMap_append, List.flatMap_append] at hkept hhands ⊢
  omega

theorem quiet_move (h : Consistent s past) (hi : s.locals[i]? = some pc)
    (hmoves : Pc.Moves pc pc' s.shared fut' ev) (hpending : fut'.state = .pending) :
    (past ++ ev).filterMap Event.scheduled? = [] ∧
      ∀ pc ∈ s.locals.set i pc', pc.hands = [] ∧ pc.willDrain = false := by
  -- the future was pending before, so nobody had anything to schedule or to drain
  have hbefore : s.shared.state = .pending := by
    obtain ⟨-, hsame⟩ | ⟨call, -, -, hset⟩ := hmoves.completed
    · exact hsame.symm.trans hpending
    · exact absurd (hset.symm.trans hpending) call.state_ne_pending
  obtain ⟨hnone, hquiet⟩ := h.quiet hbefore
  obtain ⟨hev, hpc'⟩ :=
    hmoves.quiet_of_pending hbefore hpending (hquiet pc (List.mem_of_getElem? hi))
  refine ⟨by rw [List.filterMap_append, hnone, hev]; rfl, fun a ha => ?_⟩
  obtain ha | rfl := List.mem_or_eq_of_mem_set ha
  · exact hquiet a ha
  · exact hpc'

theorem drained_move (h : Consistent s past) (hi : s.locals[i]? = some pc)
    (hmoves : Pc.Moves pc pc' s.shared fut' ev) (hdone : fut'.state ≠ .pending) :
    fut'.callbacks = [] ∨ ∃ pc ∈ s.locals.set i pc', pc.willDrain := by
  have hpc' : pc' ∈ s.locals.set i pc' := List.mem_set (List.getElem?_eq_some_iff.mp hi).1 _
  -- a thread about to drain stays so unless it is the one that moves
  have hstays (hnot : pc.willDrain = false) (hex : ∃ a ∈ s.locals, a.willDrain) :
      ∃ a ∈ s.locals.set i pc', a.willDrain :=
    Threads.exists_set hi (by rw [hnot]; exact Bool.false_ne_true) pc' hex
  cases hmoves with
  | completes call _ _ _ _ hdrain => exact .inr ⟨pc', hpc', hdrain⟩
  | drains _ hcallbacks => exact .inl hcallbacks
  | adds _ hpending hstate => exact absurd (hstate.trans hpending) hdone
  | quiet hstate hcallbacks _ hdrain _ =>
    rw [hcallbacks]
    rw [hstate] at hdone
    refine (h.drained hdone).imp_right fun hex => ?_
    cases hwill : pc.willDrain with
    | true => exact ⟨pc', hpc', hdrain.trans hwill⟩
    | false => exact hstays hwill hex
  | refuses _ _ hstate hcallbacks _ hdrain | schedules _ hstate hcallbacks _ hdrain
  | takes _ _ hstate hcallbacks _ hdrain =>
    rw [hcallbacks]
    rw [hstate] at hdone
    exact (h.drained hdone).imp_right (hstays hdrain)
  | removes func hstate hcallbacks _ hdrain =>
    rw [hcallbacks]
    rw [hstate] at hdone
    refine (h.drained hdone).imp (fun hnil => ?_) (hstays hdrain.2)
    rw [hnil]
    rfl

theorem move (h : Consistent s past) (hi : s.locals[i]? = some pc)
    (hmoves : Pc.Moves pc pc' s.shared fut' ev) (hrefusals : ∀ e ∈ ev, e.Refusal)
    (hdecides : ev.filterMap Event.called? ++ pc.undecided =
      ev.filterMap Event.completed? ++ ev.filterMap Event.refused? ++ pc'.undecided)
    (hnested : pc'.Nested)
    (hlocks : (Threads.Owns fut'.stateLock i pc'.holdsState ∧
        (fut'.stateLock = s.shared.stateLock ∨
          s.shared.stateLock = none ∧ fut'.stateLock = some i ∨
          s.shared.stateLock = some i ∧ fut'.stateLock = none)) ∧
      (Threads.Owns fut'.callbacksLock i pc'.holdsCallbacks ∧
        (fut'.callbacksLock = s.shared.callbacksLock ∨
          s.shared.callbacksLock = none ∧ fut'.callbacksLock = some i ∨
          s.shared.callbacksLock = some i ∧ fut'.callbacksLock = none))) :
    Consistent ⟨fut', s.locals.set i pc'⟩ (past ++ ev) := by
  obtain ⟨⟨hself, hstep⟩, hself', hstep'⟩ := hlocks
  have hlt : i < s.locals.length := (List.getElem?_eq_some_iff.mp hi).1
  have hlocks : (Threads.mk fut' (s.locals.set i pc')).Asserts fun i pc fut =>
      pc.Nested ∧ Threads.Owns fut.stateLock i pc.holdsState ∧
        Threads.Owns fut.callbacksLock i pc.holdsCallbacks :=
    h.locks.set ⟨hnested, hself, hself'⟩ fun j l hj hA =>
      ⟨hA.1, hA.2.1.others hj hstep, hA.2.2.others hj hstep'⟩
  have hall : ∀ e ∈ past ++ ev, e.Refusal := fun e he =>
    (List.mem_append.mp he).elim (h.refusals e) (hrefusals e)
  refine ⟨hlocks, fun k hk => ?_, h.winner_move hmoves, h.refused_move hmoves, hall,
    h.decided_move hi hdecides, h.kept_move hi hmoves, h.quiet_move hi hmoves,
    h.drained_move hi hmoves⟩
  rw [List.length_set]
  exact hk.elim (Threads.holder_lt hlt (fun k hk => h.holders k (.inl hk)) hstep)
    (Threads.holder_lt hlt (fun k hk => h.holders k (.inr hk)) hstep')

end Move

end Consistent

/-- A thread begins a call: it has been in none, or a finaliser that it runs has. -/
inductive Begins (s : Threads (UringFuture V C X) (Pc V C X)) (i : Nat) (c : FutureCall V C X) :
    Pc V C X → Pc V C X → Prop
  | plain : Begins s i c .idle (.start c)
  | nested (dropped : List (Registration C X)) (hgil : hasGil i s = true) :
      Begins s i c (.finalizing dropped .idle) (.finalizing dropped (.start c))

/-- The three kinds of steps. -/
inductive Steps (s : Threads (UringFuture V C X) (Pc V C X)) :
    Act V C X → Threads (UringFuture V C X) (Pc V C X) → Prop
  | call {i : Nat} {c : FutureCall V C X} {pc pc' : Pc V C X} (hi : s.locals[i]? = some pc)
      (hbegins : Begins s i c pc pc') : Steps s (.call i c) ⟨s.shared, s.locals.set i pc'⟩
  | advance {i : Nat} {pc pc' : Pc V C X} {fut' : UringFuture V C X} (hi : s.locals[i]? = some pc)
      (hnext : pc.next i s.shared = some (fut', pc'))
      (hgil : ∀ dropped, pc = .finalizing dropped .idle → hasGil i s = true) :
      Steps s (.advance i) ⟨fut', s.locals.set i pc'⟩
  | finalize {i : Nat} {func : C} {context : X} {dropped : List (Registration C X)}
      (hi : s.locals[i]? = some (.removeDrop ((func, some context) :: dropped)))
      (hgil : hasGil i s = true) :
      Steps s (.finalize i) ⟨s.shared, s.locals.set i (.finalizing dropped .idle)⟩

theorem step_cases {s t : Threads (UringFuture V C X) (Pc V C X)} {a : Act V C X}
    (h : step s a = some t) : Steps s a t := by
  cases a with
  | call i c =>
    simp only [step] at h
    split at h
    · rename_i hi
      cases h
      exact .call hi .plain
    · rename_i dropped hi
      obtain ⟨hgil, heq⟩ := Option.ite_none_right_eq_some.mp h
      obtain rfl := Option.some_inj.mp heq
      exact .call hi (.nested dropped hgil)
    · cases h
  | advance i =>
    simp only [step] at h
    split at h
    · rename_i dropped hi
      obtain ⟨hgil, heq⟩ := Option.ite_none_right_eq_some.mp h
      obtain ⟨pc, fut', pc', hi, hnext, rfl⟩ := Threads.advance_eq_some.mp heq
      exact .advance hi hnext fun _ _ => hgil
    · rename_i hnot
      obtain ⟨pc, fut', pc', hi, hnext, rfl⟩ := Threads.advance_eq_some.mp h
      exact .advance hi hnext fun dropped hpc => absurd (hpc ▸ hi) (hnot dropped)
  | finalize i =>
    simp only [step] at h
    split at h
    · rename_i hi
      obtain ⟨hgil, heq⟩ := Option.ite_none_right_eq_some.mp h
      obtain rfl := Option.some_inj.mp heq
      exact .finalize hi hgil
    · cases h

omit [DecidableEq C] in
/-- A call begins outside all sections, with nothing in its hands. -/
theorem start_fresh (c : FutureCall V C X) : (Pc.start c).hands = [] ∧
    (Pc.start c).willDrain = false ∧ (Pc.start c).holdsState = false ∧
      (Pc.start c).holdsCallbacks = false ∧ (Pc.start c).Nested := by
  cases c <;> exact ⟨rfl, rfl, rfl, rfl, trivial⟩

theorem Consistent.call {s : Threads (UringFuture V C X) (Pc V C X)} {past : List (Event V C X)}
    {i : Nat} {c : FutureCall V C X} {pc pc' : Pc V C X} (h : Consistent s past)
    (hi : s.locals[i]? = some pc) (hbegins : Begins s i c pc pc') :
    Consistent ⟨s.shared, s.locals.set i pc'⟩ (past ++ events s (.call i c)) := by
  obtain ⟨hhands, hdrain, hstate, hcallbacks, hnested⟩ := start_fresh c
  obtain ⟨-, hown, hown'⟩ := h.locks i pc hi
  have hev : ∀ e ∈ events s (.call i c), e.called?.isSome ∧ e.Refusal := by
    cases c <;> simp [events, Event.called?, Event.Refusal]
  have hdecides : (events s (.call i c)).filterMap Event.called? ++ ([] : List (Completing V)) =
      (events s (.call i c)).filterMap Event.completed? ++
        (events s (.call i c)).filterMap Event.refused? ++ (Pc.start c).undecided := by
    cases c <;> rfl
  cases hbegins with
  | plain =>
    refine h.move hi (.quiet rfl rfl hhands hdrain fun e he => (hev e he).1)
      (fun e he => (hev e he).2) hdecides hnested ⟨⟨?_, .inl rfl⟩, ?_, .inl rfl⟩
    · rw [hstate]
      exact hown
    · rw [hcallbacks]
      exact hown'
  | nested dropped hgil =>
    refine h.move hi (.quiet rfl rfl hhands hdrain fun e he => (hev e he).1)
      (fun e he => (hev e he).2) hdecides hcallbacks ⟨⟨?_, .inl rfl⟩, hown', .inl rfl⟩
    show Threads.Owns s.shared.stateLock i (Pc.start c).holdsState
    rw [hstate]
    exact hown

theorem Consistent.step {s t : Threads (UringFuture V C X) (Pc V C X)}
    {past : List (Event V C X)} {a : Act V C X} (h : Consistent s past)
    (hstep : step s a = some t) : Consistent t (past ++ events s a) := by
  cases step_cases hstep with
  | call hi hbegins => exact h.call hi hbegins
  | @advance i pc pc' fut' hi hnext hgil =>
    have hevents : events s (.advance i) = pc.event s.shared := by
      simp only [events, hi]
    obtain ⟨hnested, hstate, hcallbacks⟩ := h.locks i pc hi
    obtain ⟨hnested', hcallbacks'⟩ := Pc.next_callbacksLock hnext hnested hcallbacks
    rw [hevents]
    exact h.move hi (Pc.next_moves hnext) (Pc.refusal_event pc s.shared) (Pc.next_decides hnext)
      hnested' ⟨Pc.next_stateLock hnext hstate, hcallbacks'⟩
  | finalize hi hgil =>
    obtain ⟨-, hstate, hcallbacks⟩ := h.locks _ _ hi
    exact h.move hi (.quiet rfl rfl rfl rfl (by simp [events])) (by simp [events]) rfl rfl
      ⟨⟨hstate, .inl rfl⟩, hcallbacks, .inl rfl⟩

theorem Consistent.of_run {n : Nat} {t : Threads (UringFuture V C X) (Pc V C X)}
    {past : List (Event V C X)} {acts : List (Act V C X)}
    (hrun : machine.run (UringFuture.start n) acts = some (t, past)) : Consistent t past := by
  refine Machine.run_invariant'
    (I := fun x : Threads (UringFuture V C X) (Pc V C X) × List (Event V C X) =>
      Consistent x.1 x.2) ?_ (Consistent.init n) hrun
  rintro ⟨s, past⟩ a ⟨u, past'⟩ h hstep
  obtain ⟨hcore, rfl⟩ := Machine.ghost_step_mk.mp hstep
  exact h.step hcore

/-- A done future is not set again. -/
theorem state_stays {s t : Threads (UringFuture V C X) (Pc V C X)} {a : Act V C X}
    (hstep : step s a = some t) (hdone : s.shared.state ≠ .pending) :
    t.shared.state = s.shared.state := by
  cases step_cases hstep with
  | call hi hbegins => rfl
  | finalize hi hgil => rfl
  | advance hi hnext hgil =>
    obtain ⟨-, hstate⟩ | ⟨-, -, hpending, -⟩ := (Pc.next_moves hnext).completed
    · exact hstate
    · exact absurd hpending hdone

end UringFuture

end Uringcore
