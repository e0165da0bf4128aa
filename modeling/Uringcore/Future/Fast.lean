import Uringcore.Future
import Uringcore.Scheduler

/-!
# The fast completion path

`run_tick` completes a `UringFuture` with `set_result_fast` or `set_exception_fast`: the handles of the
done callbacks are built in Rust and pushed to the scheduler it was given. `set_result` and
`set_exception` go back to Python for each callback, where `call_soon` builds the handle and pushes it to
the scheduler of the loop's core. A loop that is closed or in debug mode refuses that; on any other the
two paths do the same (`fast_eq_slow`).

Here the calls are made by one thread at a time; `Future` has what the locks do when there are more.
-/

namespace Uringcore

variable {V C X O L : Type}

/-- `UringHandle`: `O` are the objects that callbacks are called with, `L` the loops. -/
structure UringHandle (C X O L : Type) where
  callback : C
  args : List O
  loop : L
  context : Option X
  cancelled : Bool
  deriving DecidableEq, Repr

namespace UringHandle

/-- The constructor Python calls. -/
def new (callback : C) (args : List O) (loop : L) (context : Option X) : UringHandle C X O L where
  callback := callback
  args := args
  loop := loop
  context := context
  cancelled := false

def newNative (callback : C) (args : List O) (loop : L) (context : Option X) :
    UringHandle C X O L where
  callback := callback
  args := args
  loop := loop
  context := context
  cancelled := false

/-- `execute`: the callback that is called, with what and in which context. -/
def execute (handle : UringHandle C X O L) : Option (C × List O × Option X) :=
  if handle.cancelled then none else some (handle.callback, handle.args, handle.context)

end UringHandle

/-- What `call_soon` uses of a `UringEventLoop`: `ready` is the scheduler of its core. -/
structure UringEventLoop (C X O L : Type) where
  self : L
  closed : Bool
  debug : Bool
  ready : Scheduler (UringHandle C X O L)
  deriving DecidableEq, Repr

/-- `call_soon`. In debug mode it calls a method that the class does not have. -/
def UringEventLoop.callSoon (callback : C) (args : List O) (context : Option X)
    (loop : UringEventLoop C X O L) : UringEventLoop C X O L × Except PyErr (UringHandle C X O L) :=
  if loop.closed then (loop, .error (.runtimeError "Event loop is closed"))
  else if loop.debug then
    (loop, .error (.attributeError "'UringEventLoop' object has no attribute '_check_callback'"))
  else
    let handle := UringHandle.new callback args loop.self context
    ({ loop with ready := loop.ready.push handle }, .ok handle)

/-- A future, as the object `self`, and the loop it is attached to. -/
structure Attached (V C X O L : Type) where
  future : UringFuture V C X
  self : O
  loop : UringEventLoop C X O L
  deriving DecidableEq, Repr

/-! ## The slow path -/

namespace Attached

/-- `_schedule_single`. -/
def scheduleSingle (entry : Registration C X) (w : Attached V C X O L) :
    Attached V C X O L × Except PyErr Unit :=
  let r := match entry.2 with
    | some context => w.loop.callSoon entry.1 [w.self] (some context)
    | none => w.loop.callSoon entry.1 [w.self] none
  ({ w with loop := r.1 }, r.2.map fun _ => ())

/-- The first callback that is refused ends it. -/
def scheduleEach : List (Registration C X) → Attached V C X O L →
    Attached V C X O L × Except PyErr Unit
  | [], w => (w, .ok ())
  | entry :: drained, w => match w.scheduleSingle entry with
    | (w, .ok ()) => scheduleEach drained w
    | (w, .error e) => (w, .error e)

/-- `_schedule_callbacks`. -/
def scheduleCallbacks (w : Attached V C X O L) : Attached V C X O L × Except PyErr Unit :=
  scheduleEach w.future.callbacks { w with future := { w.future with callbacks := [] } }

def complete (state : FutureState V) (w : Attached V C X O L) :
    Attached V C X O L × Except PyErr Unit :=
  match w.future.state with
  | .pending => scheduleCallbacks { w with future := { w.future with state } }
  | .finished _ | .failed _ | .cancelled => (w, .error (.valueError "Future is already done."))

def setResult (result : V) (w : Attached V C X O L) : Attached V C X O L × Except PyErr Unit :=
  w.complete (.finished result)

def setException (exception : V) (w : Attached V C X O L) : Attached V C X O L × Except PyErr Unit :=
  w.complete (.failed exception)

end Attached

/-! ## The fast path -/

namespace UringFuture

/-- `schedule_fast`: `loop` is the future's own. -/
def scheduleFast (loop : L) (scheduler : Scheduler (UringHandle C X O L)) (futureObj : O)
    (future : UringFuture V C X) : UringFuture V C X × Scheduler (UringHandle C X O L) :=
  ({ future with callbacks := [] },
    future.callbacks.foldl
      (fun q entry => q.push (.newNative entry.1 [futureObj] loop entry.2)) scheduler)

def completeFast (state : FutureState V) (loop : L) (scheduler : Scheduler (UringHandle C X O L))
    (futureObj : O) (future : UringFuture V C X) :
    UringFuture V C X × Scheduler (UringHandle C X O L) × Except PyErr Unit :=
  match future.state with
  | .pending =>
      let r := scheduleFast loop scheduler futureObj { future with state }
      (r.1, r.2, .ok ())
  | .finished _ | .failed _ | .cancelled =>
      (future, scheduler, .error (.valueError "Future is already done."))

def setResultFast (result : V) (loop : L) (scheduler : Scheduler (UringHandle C X O L)) (futureObj : O)
    (future : UringFuture V C X) :
    UringFuture V C X × Scheduler (UringHandle C X O L) × Except PyErr Unit :=
  future.completeFast (.finished result) loop scheduler futureObj

def setExceptionFast (exception : V) (loop : L) (scheduler : Scheduler (UringHandle C X O L))
    (futureObj : O) (future : UringFuture V C X) :
    UringFuture V C X × Scheduler (UringHandle C X O L) × Except PyErr Unit :=
  future.completeFast (.failed exception) loop scheduler futureObj

end UringFuture

namespace Attached

/-- The future and the scheduler as a fast call leaves them. -/
def put (w : Attached V C X O L)
    (r : UringFuture V C X × Scheduler (UringHandle C X O L) × Except PyErr Unit) :
    Attached V C X O L × Except PyErr Unit :=
  ({ w with future := r.1, loop := { w.loop with ready := r.2.1 } }, r.2.2)

/-- What the callbacks of a future are pushed as. -/
def handle (w : Attached V C X O L) (entry : Registration C X) : UringHandle C X O L :=
  .new entry.1 [w.self] w.loop.self entry.2

/-! ## Both do the same -/

/-- The loop takes callbacks. -/
structure Accepts (w : Attached V C X O L) : Prop where
  opened : w.loop.closed = false
  plain : w.loop.debug = false

theorem scheduleSingle_eq {w : Attached V C X O L} (h : w.Accepts) (entry : Registration C X) :
    w.scheduleSingle entry =
      ({ w with loop := { w.loop with ready := w.loop.ready ++ [w.handle entry] } }, .ok ()) := by
  have hsoon (context : Option X) : w.loop.callSoon entry.1 [w.self] context =
      ({ w.loop with ready := w.loop.ready ++ [.new entry.1 [w.self] w.loop.self context] },
        .ok (.new entry.1 [w.self] w.loop.self context)) := by
    simp only [UringEventLoop.callSoon, h.opened, h.plain, Bool.false_eq_true, if_false, Scheduler.push]
  obtain ⟨callback, context⟩ := entry
  cases context <;> simp only [scheduleSingle, hsoon, handle, Except.map]

theorem scheduleEach_eq {w : Attached V C X O L} (h : w.Accepts) (drained : List (Registration C X)) :
    scheduleEach drained w =
      ({ w with loop := { w.loop with ready := w.loop.ready ++ drained.map w.handle } }, .ok ()) := by
  induction drained generalizing w with
  | nil => simp [scheduleEach]
  | cons entry drained ih =>
    -- pushing a handle leaves the loop open and plain, so the rest goes the same way
    have hrest := ih (w := { w with loop := { w.loop with ready := w.loop.ready ++ [w.handle entry] } })
      ⟨h.opened, h.plain⟩
    have hlist : w.loop.ready ++ (entry :: drained).map w.handle =
        w.loop.ready ++ [w.handle entry] ++ drained.map w.handle := by simp
    rw [scheduleEach, scheduleSingle_eq h, hlist]
    exact hrest

theorem scheduleFast_eq (loop : L) (scheduler : Scheduler (UringHandle C X O L)) (futureObj : O)
    (future : UringFuture V C X) : future.scheduleFast loop scheduler futureObj =
      ({ future with callbacks := [] },
        scheduler ++ future.callbacks.map fun entry => .new entry.1 [futureObj] loop entry.2) := by
  rw [UringFuture.scheduleFast, ← Scheduler.foldl_push, List.foldl_map]
  rfl

/-- The state is set and the callbacks are pushed, in their order. -/
theorem complete_pending {w : Attached V C X O L} (h : w.Accepts) (hpending : w.future.state = .pending)
    (state : FutureState V) : w.complete state = ({ w with
      future := { w.future with state, callbacks := [] }
      loop := { w.loop with ready := w.loop.ready ++ w.future.callbacks.map w.handle } }, .ok ()) := by
  have heach := scheduleEach_eq (w := { w with future := { w.future with state, callbacks := [] } })
    ⟨h.opened, h.plain⟩ w.future.callbacks
  rw [complete, hpending]
  exact heach

/-- One completing call on the two paths. -/
theorem completeFast_eq {w : Attached V C X O L} (h : w.Accepts) (state : FutureState V) :
    w.put (w.future.completeFast state w.loop.self w.loop.ready w.self) = w.complete state := by
  cases hstate : w.future.state with
  | pending =>
    rw [complete_pending h hstate, UringFuture.completeFast, hstate]
    dsimp only
    rw [scheduleFast_eq]
    rfl
  | finished | failed | cancelled => rw [complete, UringFuture.completeFast, hstate]; rfl

/-- From `w` to `t` the callbacks have become handles: what these will call is each callback, with the
future, in its context and in the order of registration. -/
def Pushes (w t : Attached V C X O L) : Prop :=
  t.future.callbacks = [] ∧ ∃ handles, t.loop.ready = w.loop.ready ++ handles ∧
    handles.map UringHandle.execute = w.future.callbacks.map fun entry => some (entry.1, [w.self], entry.2)

theorem complete_pushes {w : Attached V C X O L} (h : w.Accepts) (hpending : w.future.state = .pending)
    (state : FutureState V) : w.Pushes (w.complete state).1 := by
  rw [complete_pending h hpending]
  refine ⟨rfl, _, rfl, ?_⟩
  rw [List.map_map]
  rfl

/-- **The fast path equals the slow one**, on a loop that is open and not in debug mode, for the
scheduler of its core: the same answer, the same future, the same handles in the ready queue. -/
theorem fast_eq_slow {w : Attached V C X O L} (hopen : w.loop.closed = false)
    (hplain : w.loop.debug = false) :
    (∀ result, w.put (w.future.setResultFast result w.loop.self w.loop.ready w.self) =
      w.setResult result) ∧
    (∀ exception, w.put (w.future.setExceptionFast exception w.loop.self w.loop.ready w.self) =
      w.setException exception) ∧
    (w.future.state = .pending →
      ∀ v, w.Pushes (w.setResult v).1 ∧ w.Pushes (w.setException v).1) :=
  have h : w.Accepts := ⟨hopen, hplain⟩
  ⟨fun result => completeFast_eq h (.finished result),
    fun exception => completeFast_eq h (.failed exception),
    fun hpending v => ⟨complete_pushes h hpending (.finished v), complete_pushes h hpending (.failed v)⟩⟩

/-- Two callbacks, one with a context, and a handle that waits already. -/
def twoCallbacks : Attached Nat Nat Nat Nat Nat where
  future := ⟨.pending, [(1, none), (2, some 9)], none, none⟩
  self := 5
  loop := ⟨0, false, false, [.new 7 [] 0 none]⟩

theorem fast_eq_slow_two :
    twoCallbacks.put (twoCallbacks.future.setResultFast 42 0 twoCallbacks.loop.ready 5) =
      twoCallbacks.setResult 42 ∧
    (twoCallbacks.setResult 42).1.loop.ready.map UringHandle.execute =
      [some (7, [], none), some (1, [5], none), some (2, [5], some 9)] :=
  ⟨(fast_eq_slow (w := twoCallbacks) rfl rfl).1 42, by decide⟩

end Attached

end Uringcore
