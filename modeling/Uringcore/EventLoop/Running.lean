import Uringcore.Future
import Uringcore.Lib.History

/-!
# Running the loop

`run_forever`, `run_until_complete` and `stop`, run after run. An iteration is many steps: the poll,
`run_tick`'s draining of the ready queue, the handles one by one, and the handlers of completions.
The exceptions of handles are printed where they occur, so an exception leaves an iteration before
the queue is drained or after the last handle. Futures are settled, callbacks added and handles
pushed at any moment. `ends` is a history of the runs that are over, `userStop` one of the calls of
`stop` since.

`run_until_complete` adds a callback to its future that stops the loop, and nothing takes it away
when the run ends before the future is done: `runsRight_iff` says what that does to a later run.
-/

namespace Uringcore

/-- A handle of the ready queue. `stop` is the callback of `run_until_complete`. -/
inductive RunHandle (K : Type) where
  | stop
  | user (k : K)
  deriving DecidableEq, Repr

structure RunFuture (V K : Type) where
  /-- `cancel` of a task only asks the coroutine to end. -/
  task : Bool
  state : FutureState V
  callbacks : List (RunHandle K)
  deriving DecidableEq, Repr

/-- How `run_forever` or `run_until_complete` ends. -/
inductive RunOutcome (V : Type) where
  | returned (v : V)
  | raised (e : V)
  | cancelled
  /-- `RuntimeError("Event loop stopped before Future completed")`. -/
  | stoppedEarly
  /-- `run_forever` was stopped. -/
  | stopped
  /-- An exception has left an iteration. -/
  | escaped
  deriving DecidableEq, Repr

/-- What `run_until_complete` makes of its future. -/
def FutureState.outcome {V : Type} : FutureState V → RunOutcome V
  | .pending => .stoppedEarly
  | .finished result => .returned result
  | .failed exception => .raised exception
  | .cancelled => .cancelled

/-- A run that is over, with the state its future was in. -/
structure RunEnd (V : Type) where
  state : Option (FutureState V)
  userStop : Bool
  outcome : RunOutcome V
  deriving DecidableEq, Repr

/-- A run of `run_until_complete` that nobody stopped and no exception left gives its future's
result. -/
def RunEnd.Right {V : Type} (e : RunEnd V) : Prop :=
  e.userStop = false → e.outcome ≠ .escaped →
    ∃ state, e.state = some state ∧ state.isPending = false ∧ e.outcome = state.outcome

inductive RunPhase where
  | between
  | polling
  | executing
  deriving DecidableEq, Repr

structure RunLoop (V K : Type) where
  futs : List (RunFuture V K)
  ready : List (RunHandle K)
  /-- What is left of the batch `run_tick` executes. -/
  batch : List (RunHandle K)
  phase : RunPhase
  running : Bool
  stopping : Bool
  closed : Bool
  /-- The future of the `run_until_complete` that is running. -/
  target : Option Nat
  userStop : Bool
  ends : List (RunEnd V)

namespace RunLoop
variable {V K : Type}

def init : RunLoop V K where
  futs := []
  ready := []
  batch := []
  phase := .between
  running := false
  stopping := false
  closed := false
  target := none
  userStop := false
  ends := []

def push (handles : List (RunHandle K)) (x : RunLoop V K) : RunLoop V K :=
  { x with ready := x.ready ++ handles }

/-- `set_result`, `set_exception`, `cancel`; a future that is done stays as it is. -/
def settle (f : Nat) (state : FutureState V) (x : RunLoop V K) : RunLoop V K :=
  match x.futs[f]? with
  | some fut =>
      if fut.state.isPending then
        { x with futs := x.futs.set f { fut with state, callbacks := [] } }.push fut.callbacks
      else x
  | none => x

def addDoneCallback (f : Nat) (h : RunHandle K) (x : RunLoop V K) : RunLoop V K :=
  match x.futs[f]? with
  | some fut =>
      if fut.state.isPending then
        { x with futs := x.futs.set f { fut with callbacks := fut.callbacks ++ [h] } }
      else x.push [h]
  | none => x

/-- `future.cancel()`. -/
def cancel (f : Nat) (x : RunLoop V K) : RunLoop V K :=
  match x.futs[f]? with
  | some fut => if fut.task then x else x.settle f .cancelled
  | none => x

def stateOf (f : Nat) (x : RunLoop V K) : Option (FutureState V) := (x.futs[f]?).map RunFuture.state

/-- The `finally` of `run_forever`. -/
def endRun (outcome : RunOutcome V) (x : RunLoop V K) : RunLoop V K :=
  { x with
    phase := .between
    running := false
    stopping := false
    target := none
    userStop := false
    ends := x.ends ++ [⟨x.target.bind x.stateOf, x.userStop, outcome⟩] }

/-- What comes of it when the loop of `run_forever` is left because of `_stopping`. -/
def outcome (x : RunLoop V K) : RunOutcome V :=
  match x.target.bind x.stateOf with
  | some state => state.outcome
  | none => .stopped

def finish (x : RunLoop V K) : RunLoop V K := x.endRun x.outcome

/-- An exception leaves `_run_once`; `except Exception` does not catch every one. -/
def escape (isException : Bool) (x : RunLoop V K) : RunLoop V K :=
  match x.target with
  | some f => if isException then (x.endRun .escaped).cancel f else x.endRun .escaped
  | none => x.endRun .escaped

def execute (h : RunHandle K) (x : RunLoop V K) : RunLoop V K :=
  match h with
  | .stop => { x with stopping := true }
  | .user _ => x

inductive Act (V K : Type) where
  | runForever
  | runUntilComplete (f : Nat)
  /-- `_run_once` is called. -/
  | beginTick
  /-- `run_tick` takes the ready queue. -/
  | drain
  | runHandle
  | endTick
  | escape (isException : Bool)
  | finish
  /-- The program calls `stop`. -/
  | stop
  | callSoon (k : K)
  | newFuture (task : Bool)
  | settle (f : Nat) (state : FutureState V)
  | addDoneCallback (f : Nat) (k : K)
  | close

/-- `_check_closed` and `_check_running` let the call through. -/
def mayRun (x : RunLoop V K) : Bool := !x.running && !x.closed

/-- `none` for a call that is refused. -/
def runUntilComplete (f : Nat) (x : RunLoop V K) : Option (RunLoop V K) :=
  if x.mayRun ∧ (x.futs[f]?).isSome then
    some { x.addDoneCallback f .stop with running := true, target := some f }
  else none

def step (x : RunLoop V K) : Act V K → Option (RunLoop V K)
  | .runForever => if x.mayRun then some { x with running := true, target := none } else none
  | .runUntilComplete f => x.runUntilComplete f
  | .beginTick => if x.running ∧ x.phase = .between ∧ !x.stopping then
      some { x with phase := .polling } else none
  | .drain => if x.phase = .polling then
      some { x with phase := .executing, batch := x.ready, ready := [] } else none
  | .runHandle => match x.batch with
      | h :: rest => some (execute h { x with batch := rest })
      | [] => none
  | .endTick => if x.phase = .executing ∧ x.batch.isEmpty then some { x with phase := .between } else none
  | .escape isException => if x.phase ≠ .between ∧ x.batch.isEmpty then some (x.escape isException)
      else none
  | .finish => if x.running ∧ x.phase = .between ∧ x.stopping then some x.finish else none
  | .stop => some { x with stopping := true, userStop := true }
  | .callSoon k => some (x.push [.user k])
  | .newFuture task => some { x with futs := x.futs ++ [⟨task, .pending, []⟩] }
  | .settle f state => if state.isPending then none else some (x.settle f state)
  | .addDoneCallback f k => some (x.addDoneCallback f (.user k))
  | .close => if x.running then none else some { x with closed := true }

def machine : Machine (RunLoop V K) (Act V K) := ⟨step⟩

def IsDone (x : RunLoop V K) (f : Nat) : Prop :=
  ∃ fut : RunFuture V K, x.futs[f]? = some fut ∧ fut.state.isPending = false

/-- However the loop goes on after the call, the run of `run_until_complete` ends right. -/
def RunsRight (x : RunLoop V K) (f : Nat) : Prop :=
  ∀ y, x.runUntilComplete f = some y → ∀ acts z, machine.run y acts = some z →
    ∀ e, z.ends[x.ends.length]? = some e → e.Right

/-- No earlier run has left its callback behind: not in the ready queue, nor on a future that is
still to be done. A run whose future is done already, or that was stopped before it began, does not
care. -/
def NoLeftover (x : RunLoop V K) (f : Nat) : Prop :=
  x.userStop = true ∨ x.IsDone f ∨
    .stop ∉ x.ready ∧
      ∀ (g : Nat) (fut : RunFuture V K), x.futs[g]? = some fut → g ≠ f → .stop ∉ fut.callbacks

/-! ## What is done to futures -/

variable {x y : RunLoop V K} {f g : Nat}

/-- A future that is done has given its callbacks away. -/
def Emptied (futs : List (RunFuture V K)) : Prop :=
  ∀ (g : Nat) (fut : RunFuture V K), futs[g]? = some fut → fut.state.isPending = false →
    fut.callbacks = []

/-- From `x` to `y` futures have been made and settled, callbacks and handles added, of which only
those for `own` stop the loop. -/
structure Touches (own : Option Nat) (x y : RunLoop V K) : Prop where
  same : y = { x with futs := y.futs, ready := y.ready }
  done : ∀ g, x.IsDone g → y.IsDone g
  emptied : Emptied x.futs → Emptied y.futs
  ready : .stop ∈ y.ready → .stop ∈ x.ready ∨ (∃ f ∈ own, x.IsDone f) ∨
    ∃ (g : Nat) (fut : RunFuture V K), x.futs[g]? = some fut ∧ .stop ∈ fut.callbacks ∧ y.IsDone g
  callbacks : ∀ (g : Nat) (fut : RunFuture V K), y.futs[g]? = some fut → .stop ∈ fut.callbacks →
    own = some g ∨ ∃ fut' : RunFuture V K, x.futs[g]? = some fut' ∧ .stop ∈ fut'.callbacks

theorem Touches.ends {own : Option Nat} (h : Touches own x y) : y.ends = x.ends := by rw [h.same]

theorem Touches.refl (own : Option Nat) (x : RunLoop V K) : Touches own x x where
  same := rfl
  done _ h := h
  emptied h := h
  ready h := .inl h
  callbacks _ fut hfut hstop := .inr ⟨fut, hfut, hstop⟩

theorem touches_push {handles : List (RunHandle K)} (own : Option Nat) (x : RunLoop V K)
    (h : .stop ∈ handles → ∃ f ∈ own, x.IsDone f) : Touches own x (x.push handles) where
  same := rfl
  done _ h := h
  emptied h := h
  ready hstop := (List.mem_append.mp hstop).imp_right fun hmem => .inl (h hmem)
  callbacks _ fut hfut hstop := .inr ⟨fut, hfut, hstop⟩

theorem touches_newFuture (task : Bool) (x : RunLoop V K) :
    Touches none x { x with futs := x.futs ++ [⟨task, .pending, []⟩] } := by
  have hnew {g : Nat} {fut : RunFuture V K}
      (hfut : (x.futs ++ [⟨task, .pending, []⟩])[g]? = some fut) :
      x.futs[g]? = some fut ∨ fut = ⟨task, .pending, []⟩ :=
    (History.concat_eq_some.mp hfut).imp_right And.right
  constructor
  case same => rfl
  case done =>
    rintro g ⟨fut, hfut, hdone⟩
    exact ⟨fut, History.getElem?_append_of_some hfut _, hdone⟩
  case emptied =>
    intro h
    show Emptied (x.futs ++ _)
    intro g fut hfut hdone
    rcases hnew hfut with hold | rfl
    · exact h g fut hold hdone
    · rfl
  case ready => exact fun hstop => .inl hstop
  case callbacks =>
    intro g fut hfut hstop
    rcases hnew hfut with hold | rfl
    · exact .inr ⟨fut, hold, hstop⟩
    · cases hstop

/-- A future that is still to be done is replaced. -/
theorem touches_set {own : Option Nat} {fut fut' : RunFuture V K} {ready : List (RunHandle K)}
    (hfut : x.futs[f]? = some fut) (hpending : fut.state.isPending = true)
    (hempty : fut'.state.isPending = false → fut'.callbacks = [])
    (hready : .stop ∈ ready → .stop ∈ x.ready ∨ .stop ∈ fut.callbacks ∧ fut'.state.isPending = false)
    (hcallbacks : .stop ∈ fut'.callbacks → own = some f ∨ .stop ∈ fut.callbacks) :
    Touches own x { x with futs := x.futs.set f fut', ready } := by
  have hf : (x.futs.set f fut')[f]? = some fut' :=
    List.getElem?_set_self (List.getElem?_eq_some_iff.mp hfut).1
  have hg {g : Nat} (hne : f ≠ g) : (x.futs.set f fut')[g]? = x.futs[g]? := List.getElem?_set_ne hne
  constructor
  case same => rfl
  case done =>
    rintro g ⟨fut₀, hfut₀, hdone⟩
    have hne : f ≠ g := by
      rintro rfl
      cases hfut.symm.trans hfut₀
      rw [hpending] at hdone
      cases hdone
    exact ⟨fut₀, (hg hne).trans hfut₀, hdone⟩
  case emptied =>
    intro h g fut₀ hfut₀ hdone
    by_cases hne : f = g
    · subst hne
      cases hf.symm.trans hfut₀
      exact hempty hdone
    · exact h g fut₀ ((hg hne).symm.trans hfut₀) hdone
  case ready =>
    intro hstop
    rcases hready hstop with hmem | ⟨hmem, hdone⟩
    · exact .inl hmem
    · exact .inr (.inr ⟨f, fut, hfut, hmem, fut', hf, hdone⟩)
  case callbacks =>
    intro g fut₀ hfut₀ hstop
    by_cases hne : f = g
    · subst hne
      cases hf.symm.trans hfut₀
      exact (hcallbacks hstop).imp_right fun hmem => ⟨fut, hfut, hmem⟩
    · exact .inr ⟨fut₀, (hg hne).symm.trans hfut₀, hstop⟩

theorem touches_settle (f : Nat) {state : FutureState V} (hstate : state.isPending = false)
    (x : RunLoop V K) : Touches none x (x.settle f state) := by
  unfold settle
  split
  · rename_i fut hfut
    split
    · rename_i hpending
      apply touches_set hfut hpending
      · exact fun _ => rfl
      · -- its callbacks are pushed
        exact fun hstop => (List.mem_append.mp hstop).imp_right fun hmem => ⟨hmem, hstate⟩
      · intro hstop
        cases hstop
    · exact .refl _ x
  · exact .refl _ x

theorem touches_addDoneCallback (f : Nat) {h : RunHandle K} {own : Option Nat}
    (hown : h = .stop → own = some f) (x : RunLoop V K) :
    Touches own x (x.addDoneCallback f h) := by
  unfold addDoneCallback
  split
  · rename_i fut hfut
    split
    · rename_i hpending
      apply touches_set hfut hpending
      · intro hdone
        rw [show fut.state.isPending = false from hdone] at hpending
        cases hpending
      · exact .inl
      · intro hstop
        rcases List.mem_append.mp hstop with hmem | hmem
        · exact .inr hmem
        · exact .inl (hown (List.mem_singleton.mp hmem).symm)
    · -- the callback of a future that is done is pushed at once
      rename_i hdone
      apply touches_push
      intro hmem
      exact ⟨f, hown (List.mem_singleton.mp hmem).symm, fut, hfut, Bool.eq_false_of_not_eq_true hdone⟩
  · exact .refl _ x

theorem touches_cancel (f : Nat) (x : RunLoop V K) : Touches none x (x.cancel f) := by
  unfold cancel
  split
  · split
    · exact .refl _ x
    · exact touches_settle f rfl x
  · exact .refl _ x

/-! ## What a step can do -/

inductive Moves (x : RunLoop V K) : RunLoop V K → Prop where
  | touch {y : RunLoop V K} (ht : Touches none x y) : Moves x y
  | start {own : Option Nat} {y : RunLoop V K} (hidle : x.running = false) (ht : Touches own x y) :
      Moves x { y with running := true, target := own }
  | poll (hrunning : x.running = true) (hphase : x.phase = .between) :
      Moves x { x with phase := .polling }
  | drain (hphase : x.phase = .polling) :
      Moves x { x with phase := .executing, batch := x.ready, ready := [] }
  | handle {h : RunHandle K} {rest : List (RunHandle K)} (hbatch : x.batch = h :: rest) :
      Moves x (execute h { x with batch := rest })
  | ticked (hbatch : x.batch = []) : Moves x { x with phase := .between }
  | ended {outcome : RunOutcome V} {y : RunLoop V K} (hbatch : x.phase = .between ∨ x.batch = [])
      (houtcome : outcome = .escaped ∨ x.stopping = true ∧ outcome = x.outcome)
      (ht : Touches none (x.endRun outcome) y) : Moves x y
  | stop : Moves x { x with stopping := true, userStop := true }
  | close : Moves x { x with closed := true }

theorem moves_step {a : Act V K} (hstep : x.step a = some y) : Moves x y := by
  cases a with
  | runForever =>
    obtain ⟨hmay, hy⟩ := Option.ite_none_right_eq_some.mp hstep
    cases hy
    simp only [mayRun, Bool.and_eq_true, Bool.not_eq_true'] at hmay
    exact .start hmay.1 (.refl none x)
  | runUntilComplete f =>
    obtain ⟨⟨hmay, -⟩, hy⟩ := Option.ite_none_right_eq_some.mp hstep
    cases hy
    simp only [mayRun, Bool.and_eq_true, Bool.not_eq_true'] at hmay
    exact .start hmay.1 (touches_addDoneCallback f (fun _ => rfl) x)
  | beginTick =>
    obtain ⟨⟨hrunning, hphase, -⟩, hy⟩ := Option.ite_none_right_eq_some.mp hstep
    cases hy
    exact .poll hrunning hphase
  | drain =>
    obtain ⟨hphase, hy⟩ := Option.ite_none_right_eq_some.mp hstep
    cases hy
    exact .drain hphase
  | runHandle =>
    simp only [step] at hstep
    split at hstep
    · rename_i h rest hbatch
      cases hstep
      exact .handle hbatch
    · cases hstep
  | endTick =>
    obtain ⟨⟨-, hbatch⟩, hy⟩ := Option.ite_none_right_eq_some.mp hstep
    cases hy
    exact .ticked (List.isEmpty_iff.mp hbatch)
  | escape isException =>
    obtain ⟨⟨-, hbatch⟩, hy⟩ := Option.ite_none_right_eq_some.mp hstep
    cases hy
    apply Moves.ended (.inr (List.isEmpty_iff.mp hbatch)) (.inl rfl)
    unfold escape
    split
    · split
      · exact touches_cancel ..
      · exact .refl none _
    · exact .refl none _
  | finish =>
    obtain ⟨⟨-, hphase, hstopping⟩, hy⟩ := Option.ite_none_right_eq_some.mp hstep
    cases hy
    exact .ended (.inl hphase) (.inr ⟨hstopping, rfl⟩) (.refl none _)
  | stop =>
    cases hstep
    exact .stop
  | callSoon k =>
    cases hstep
    exact .touch (touches_push none x (by rintro (_ | ⟨_, ⟨⟩⟩)))
  | newFuture task =>
    cases hstep
    exact .touch (touches_newFuture task x)
  | settle f state =>
    obtain ⟨hstate, hy⟩ := Option.ite_none_left_eq_some.mp hstep
    cases hy
    exact .touch (touches_settle f (Bool.eq_false_of_not_eq_true hstate) x)
  | addDoneCallback f k =>
    cases hstep
    exact .touch (touches_addDoneCallback f (by rintro ⟨⟩) x)
  | close =>
    obtain ⟨-, hy⟩ := Option.ite_none_left_eq_some.mp hstep
    cases hy
    exact .close

/-! ## What is true of every state -/

structure Coherent (x : RunLoop V K) : Prop where
  emptied : Emptied x.futs
  batch : x.phase ≠ .executing → x.batch = []
  phase : x.running = false → x.phase = .between
  stopping : x.running = false → x.stopping = true → x.userStop = true

theorem Coherent.touches {own : Option Nat} (h : x.Coherent) (ht : Touches own x y) : y.Coherent := by
  have hemptied := ht.emptied h.emptied
  rw [ht.same] at hemptied ⊢
  exact ⟨hemptied, h.batch, h.phase, h.stopping⟩

theorem Coherent.moves (h : x.Coherent) (hmoves : Moves x y) : y.Coherent := by
  cases hmoves with
  | touch ht => exact h.touches ht
  | start hidle ht =>
    have hadd := h.touches ht
    exact ⟨hadd.emptied, hadd.batch, by rintro ⟨⟩, by rintro ⟨⟩⟩
  | poll hrunning hphase =>
    have hbatch : x.batch = [] := h.batch (by rw [hphase]; rintro ⟨⟩)
    exact ⟨h.emptied, fun _ => hbatch, fun hidle => absurd (hrunning.symm.trans hidle) (by decide),
      h.stopping⟩
  | drain hphase =>
    refine ⟨h.emptied, fun hne => absurd rfl hne, fun hidle => ?_, h.stopping⟩
    cases hphase.symm.trans (h.phase hidle)
  | @handle handle rest hbatch =>
    have hexecuting : x.phase = .executing := by
      by_contra hne
      cases hbatch.symm.trans (h.batch hne)
    have hrunning : x.running ≠ false := fun hidle => by cases hexecuting.symm.trans (h.phase hidle)
    cases handle with
    | stop => exact ⟨h.emptied, fun hne => absurd hexecuting hne, h.phase,
        fun hidle => absurd hidle hrunning⟩
    | user k => exact ⟨h.emptied, fun hne => absurd hexecuting hne, h.phase, h.stopping⟩
  | ticked hbatch => exact ⟨h.emptied, fun _ => hbatch, fun _ => rfl, h.stopping⟩
  | @ended outcome _ hbatch houtcome ht =>
    have hnil : x.batch = [] := hbatch.elim (fun hphase => h.batch (by rw [hphase]; rintro ⟨⟩)) id
    have hend : (x.endRun outcome).Coherent :=
      ⟨h.emptied, fun _ => hnil, fun _ => rfl, by rintro - ⟨⟩⟩
    exact hend.touches ht
  | stop => exact ⟨h.emptied, h.batch, h.phase, fun _ _ => rfl⟩
  | close => exact ⟨h.emptied, h.batch, h.phase, h.stopping⟩

theorem coherent_init : (init : RunLoop V K).Coherent where
  emptied := by rintro g fut ⟨⟩
  batch _ := rfl
  phase _ := rfl
  stopping := by rintro - ⟨⟩

theorem coherent_run {acts : List (Act V K)} (hrun : machine.run init acts = some x) : x.Coherent :=
  Machine.run_invariant' (fun _ _ _ h hstep => h.moves (moves_step hstep)) coherent_init hrun

/-- An end that is recorded stays. -/
theorem ends_prefix (hmoves : Moves x y) : x.ends <+: y.ends := by
  cases hmoves with
  | touch ht => exact ht.ends ▸ List.prefix_refl _
  | @start own y _ ht =>
    have hends : y.ends = x.ends := ht.ends
    exact hends ▸ List.prefix_refl _
  | @handle h rest _ => cases h <;> exact List.prefix_refl _
  | ended _ _ ht => exact ht.ends ▸ List.prefix_append _ _
  | poll | drain | ticked | stop | close => exact List.prefix_refl _

/-! ## A run without leftovers -/

/-- Nothing is about to stop the loop, and only the future `f` has a callback that will. -/
structure Quiet (x : RunLoop V K) (f : Nat) : Prop where
  stopping : x.stopping = false
  ready : .stop ∉ x.ready
  batch : .stop ∉ x.batch
  callbacks : ∀ (g : Nat) (fut : RunFuture V K), x.futs[g]? = some fut → g ≠ f →
    .stop ∉ fut.callbacks

/-- The run of `run_until_complete(f)` that will be the `n`-th to end. -/
structure InRun (n : Nat) (f : Nat) (x : RunLoop V K) : Prop where
  ends : x.ends.length = n
  running : x.running = true
  target : x.target = some f
  quiet : x.userStop = true ∨ x.IsDone f ∨ x.Quiet f

theorem Quiet.touches {own : Option Nat} (h : x.Quiet f) (hown : ∀ g ∈ own, g = f)
    (ht : Touches own x y) : y.IsDone f ∨ y.Quiet f := by
  by_cases hdone : y.IsDone f
  · exact .inl hdone
  · refine .inr ⟨?_, ?_, ?_, ?_⟩
    · rw [ht.same]
      exact h.stopping
    · -- a callback that stops the loop is pushed when its future is done, and that future is `f`
      intro hstop
      rcases ht.ready hstop with hmem | ⟨g, hg, hgdone⟩ | ⟨g, fut, hfut, hmem, hgdone⟩
      · exact h.ready hmem
      · exact hdone (hown g hg ▸ ht.done g hgdone)
      · by_cases hne : g = f
        · exact hdone (hne ▸ hgdone)
        · exact h.callbacks g fut hfut hne hmem
    · rw [ht.same]
      exact h.batch
    · intro g fut hfut hne hstop
      rcases ht.callbacks g fut hfut hstop with hg | ⟨fut', hfut', hmem⟩
      · exact hne (hown g hg)
      · exact h.callbacks g fut' hfut' hne hmem

/-- The run ends with its future done, if nobody stops it and no exception leaves it. -/
theorem InRun.right {n : Nat} {outcome : RunOutcome V} (h : x.InRun n f)
    (houtcome : outcome = .escaped ∨ x.stopping = true ∧ outcome = x.outcome) :
    RunEnd.Right ⟨x.target.bind x.stateOf, x.userStop, outcome⟩ := by
  intro hstop hne
  obtain ⟨hstopping, houtcome⟩ := houtcome.resolve_left hne
  rcases h.quiet with huser | ⟨fut, hfut, hdone⟩ | hquiet
  · cases huser.symm.trans hstop
  · -- `run_until_complete` asks the future, which is done
    have hstate : x.target.bind x.stateOf = some fut.state := by
      rw [h.target]
      simp only [Option.bind_some, stateOf, hfut, Option.map_some]
    refine ⟨fut.state, hstate, hdone, ?_⟩
    show outcome = _
    rw [houtcome, RunLoop.outcome, hstate]
  · cases hquiet.stopping.symm.trans hstopping

theorem InRun.moves {n : Nat} (h : x.InRun n f) (hmoves : Moves x y) :
    y.InRun n f ∨ ∃ e, y.ends[n]? = some e ∧ e.Right := by
  cases hmoves with
  | touch ht =>
    left
    have hquiet : y.userStop = true ∨ y.IsDone f ∨ y.Quiet f := by
      rcases h.quiet with hstop | hdone | hquiet
      · left
        rw [ht.same]
        exact hstop
      · exact .inr (.inl (ht.done f hdone))
      · exact .inr (hquiet.touches (by rintro g ⟨⟩) ht)
    have hsame := ht.same
    refine ⟨?_, ?_, ?_, hquiet⟩ <;> rw [hsame]
    · exact h.ends
    · exact h.running
    · exact h.target
  | start hidle _ => cases h.running.symm.trans hidle
  | poll | ticked =>
    refine .inl ⟨h.ends, h.running, h.target, h.quiet.imp_right (Or.imp_right fun hquiet => ?_)⟩
    exact ⟨hquiet.stopping, hquiet.ready, hquiet.batch, hquiet.callbacks⟩
  | drain =>
    refine .inl ⟨h.ends, h.running, h.target, h.quiet.imp_right (Or.imp_right fun hquiet => ?_)⟩
    exact ⟨hquiet.stopping, List.not_mem_nil, hquiet.ready, hquiet.callbacks⟩
  | @handle handle rest hbatch =>
    cases handle with
    | stop =>
      -- only a callback of `f` can be executed, and then `f` is done
      refine .inl ⟨h.ends, h.running, h.target, h.quiet.imp_right (Or.imp_right fun hquiet => ?_)⟩
      exact absurd (hbatch ▸ List.mem_cons_self) hquiet.batch
    | user k =>
      refine .inl ⟨h.ends, h.running, h.target, h.quiet.imp_right (Or.imp_right fun hquiet => ?_)⟩
      exact ⟨hquiet.stopping, hquiet.ready,
        fun hmem => hquiet.batch (hbatch ▸ List.mem_cons_of_mem _ hmem), hquiet.callbacks⟩
  | ended _ houtcome ht =>
    right
    refine ⟨_, ?_, h.right houtcome⟩
    rw [ht.same]
    show (x.ends ++ [_])[n]? = _
    rw [← h.ends, List.getElem?_concat_length]
  | stop => exact .inl ⟨h.ends, h.running, h.target, .inl rfl⟩
  | close =>
    refine .inl ⟨h.ends, h.running, h.target, h.quiet.imp_right (Or.imp_right fun hquiet => ?_)⟩
    exact ⟨hquiet.stopping, hquiet.ready, hquiet.batch, hquiet.callbacks⟩

theorem NoLeftover.runsRight (h : x.NoLeftover f) (hx : x.Coherent) : x.RunsRight f := by
  intro y hcall acts z hrun e he
  obtain ⟨⟨hmay, -⟩, hy⟩ := Option.ite_none_right_eq_some.mp hcall
  simp only [mayRun, Bool.and_eq_true, Bool.not_eq_true'] at hmay
  have ht := touches_addDoneCallback f (show RunHandle.stop = .stop → some f = some f from fun _ => rfl) x
  have hquiet : y.userStop = true ∨ y.IsDone f ∨ y.Quiet f := by
    cases hy
    by_cases hstop : x.userStop = true
    · left
      show RunLoop.userStop (x.addDoneCallback f .stop) = true
      rw [ht.same]
      exact hstop
    · rcases h.resolve_left hstop with hdone | ⟨hready, hcallbacks⟩
      · exact .inr (.inl (ht.done f hdone))
      · have hstopping : x.stopping = false := by
          by_contra hne
          exact hstop (hx.stopping hmay.1 (Bool.eq_true_of_not_eq_false hne))
        have hbatch : x.batch = [] := hx.batch (by rw [hx.phase hmay.1]; rintro ⟨⟩)
        have hq : x.Quiet f := ⟨hstopping, hready, by rw [hbatch]; exact List.not_mem_nil, hcallbacks⟩
        refine .inr ((hq.touches (by rintro g ⟨⟩; rfl) ht).imp_right fun hq' => ?_)
        exact ⟨hq'.stopping, hq'.ready, hq'.batch, hq'.callbacks⟩
  have hstart : y.InRun x.ends.length f := by
    cases hy
    refine ⟨?_, rfl, rfl, hquiet⟩
    show (x.addDoneCallback f .stop).ends.length = _
    rw [ht.same]
  -- the run is going on, or its end is recorded and right
  have hend := Machine.run_invariant' (M := machine)
    (I := fun z : RunLoop V K => z.InRun x.ends.length f ∨
      ∃ e, z.ends[x.ends.length]? = some e ∧ e.Right) ?_ (.inl hstart) hrun
  · rcases hend with hin | ⟨e', he', hright⟩
    · rw [List.getElem?_eq_none hin.ends.le] at he
      cases he
    · cases he.symm.trans he'
      exact hright
  · rintro s a t (hin | ⟨e', he', hright⟩) hstep
    · exact hin.moves (moves_step hstep)
    · have hends := ends_prefix (moves_step hstep)
      exact .inr ⟨e', History.getElem?_mono he' hends, hright⟩

/-! ## A run with one -/

/-- The batch of a tick, to its end. -/
theorem run_batch (batch : List (RunHandle K)) (x : RunLoop V K) (hbatch : x.batch = batch) :
    ∃ stopping, machine.run x (List.replicate batch.length .runHandle) =
      some { x with batch := [], stopping } ∧ (x.stopping = true ∨ .stop ∈ batch → stopping = true) := by
  induction batch generalizing x with
  | nil =>
    refine ⟨x.stopping, ?_, fun h => h.resolve_right List.not_mem_nil⟩
    show some x = some { x with batch := [] }
    rw [← hbatch]
  | cons h rest ih =>
    obtain ⟨stopping, hrun, hstop⟩ := ih (execute h { x with batch := rest }) (by cases h <;> rfl)
    refine ⟨stopping, ?_, ?_⟩
    · have hstep : machine.step x .runHandle = some (execute h { x with batch := rest }) := by
        simp only [machine, step, hbatch]
      rw [List.length_cons, List.replicate_succ, Machine.run_cons, hstep, Option.bind_some, hrun]
      cases h <;> rfl
    · intro hor
      apply hstop
      cases h with
      | stop => exact .inl rfl
      | user k => exact hor.imp_right fun hmem => (List.mem_cons.mp hmem).resolve_left (by rintro ⟨⟩)

/-- A handle in the queue that stops the loop ends the run with the next tick. -/
theorem tick_ends (hrunning : x.running = true) (hphase : x.phase = .between)
    (hstopping : x.stopping = false) (hready : .stop ∈ x.ready) :
    ∃ acts z, machine.run x acts = some z ∧
      z.ends = x.ends ++ [⟨x.target.bind x.stateOf, x.userStop, x.outcome⟩] := by
  obtain ⟨stopping, hrun, hstop⟩ :=
    run_batch x.ready { x with phase := .executing, batch := x.ready, ready := [] } rfl
  obtain rfl : stopping = true := hstop (.inr hready)
  refine ⟨[.beginTick, .drain] ++ (List.replicate x.ready.length .runHandle ++ [.endTick, .finish]),
    RunLoop.finish { x with phase := .between, batch := [], ready := [], stopping := true }, ?_, rfl⟩
  have hbegin : machine.run x [.beginTick, .drain] =
      some { x with phase := .executing, batch := x.ready, ready := [] } := by
    simp [Machine.run_cons, machine, step, hrunning, hphase, hstopping]
  rw [Machine.run_append, hbegin, Option.bind_some, Machine.run_append, hrun, Option.bind_some]
  simp only [Machine.run_cons, machine, step, hrunning]
  rfl

/-- A run that is stopped while its future is pending does not end right. -/
theorem not_right_pending (htarget : x.target = some f) (hstop : x.userStop = false)
    (hpending : x.stateOf f = some .pending) :
    ¬ RunEnd.Right ⟨x.target.bind x.stateOf, x.userStop, x.outcome⟩ := by
  have hstate : x.target.bind x.stateOf = some .pending := by
    rw [htarget]
    exact hpending
  have houtcome : x.outcome = .stoppedEarly := by
    rw [outcome, hstate]
    rfl
  intro h
  obtain ⟨state, hstate', hdone, -⟩ := h hstop (by rw [houtcome]; rintro ⟨⟩)
  cases hstate.symm.trans hstate'
  cases hdone

/-- The call of `run_until_complete` with a pending future. -/
theorem runUntilComplete_pending {fut : RunFuture V K} (hfut : x.futs[f]? = some fut)
    (hpending : fut.state.isPending = true) (hcall : x.runUntilComplete f = some y) :
    y = { x with
      futs := x.futs.set f { fut with callbacks := fut.callbacks ++ [.stop] }
      running := true
      target := some f } := by
  obtain ⟨-, hy⟩ := Option.ite_none_right_eq_some.mp hcall
  cases hy
  simp only [addDoneCallback, hfut, hpending, if_true]

/-- A leftover callback comes into the ready queue of the run, while the run's future is pending. -/
theorem leftover_ready (hx : x.Coherent) {fut : RunFuture V K} (hfut : x.futs[f]? = some fut)
    (hpending : fut.state.isPending = true)
    (hleft : .stop ∈ x.ready ∨ ∃ g fut', x.futs[g]? = some fut' ∧ g ≠ f ∧ .stop ∈ fut'.callbacks)
    (hcall : x.runUntilComplete f = some y) : ∃ acts w, machine.run y acts = some w ∧
      w = { x with futs := w.futs, ready := w.ready, running := true, target := some f } ∧
      w.stateOf f = some .pending ∧ .stop ∈ w.ready := by
  have hy := runUntilComplete_pending hfut hpending hcall
  have hstate : some fut.state = some FutureState.pending :=
    congrArg some (FutureState.isPending_iff.mp hpending)
  have hf : (x.futs.set f { fut with callbacks := fut.callbacks ++ [.stop] })[f]? =
      some { fut with callbacks := fut.callbacks ++ [.stop] } :=
    List.getElem?_set_self (List.getElem?_eq_some_iff.mp hfut).1
  rcases hleft with hmem | ⟨g, fut', hfut', hne, hmem⟩
  · refine ⟨[], y, rfl, ?_⟩
    rw [hy]
    refine ⟨rfl, ?_, hmem⟩
    show Option.map RunFuture.state _ = _
    rw [hf]
    exact hstate
  · -- the other future is cancelled, and pushes its callbacks
    have hpending' : fut'.state.isPending = true := by
      by_contra hdone'
      rw [hx.emptied g fut' hfut' (Bool.eq_false_of_not_eq_true hdone')] at hmem
      cases hmem
    have hg : y.futs[g]? = some fut' := by
      rw [hy]
      exact (List.getElem?_set_ne hne.symm).trans hfut'
    refine ⟨[.settle g .cancelled], y.settle g .cancelled, rfl, ?_⟩
    have hsettle : y.settle g .cancelled = { y with
        futs := y.futs.set g { fut' with state := .cancelled, callbacks := [] }
        ready := y.ready ++ fut'.callbacks } := by
      simp only [settle, hg, hpending', if_true, push]
    rw [hsettle, hy]
    refine ⟨rfl, ?_, List.mem_append_right _ hmem⟩
    show Option.map RunFuture.state (List.set _ _ _)[f]? = _
    rw [List.getElem?_set_ne hne, hf]
    exact hstate

theorem RunsRight.noLeftover (h : x.RunsRight f) (hx : x.Coherent)
    (hcall : x.runUntilComplete f = some y) : x.NoLeftover f := by
  obtain ⟨⟨hmay, hsome⟩, -⟩ := Option.ite_none_right_eq_some.mp hcall
  simp only [mayRun, Bool.and_eq_true, Bool.not_eq_true'] at hmay
  obtain ⟨fut, hfut⟩ := Option.isSome_iff_exists.mp hsome
  by_contra hnot
  simp only [NoLeftover, not_or, Bool.not_eq_true] at hnot
  obtain ⟨hstop, hdone, hnone⟩ := hnot
  have hpending : fut.state.isPending = true := by
    by_contra hne
    exact hdone ⟨fut, hfut, Bool.eq_false_of_not_eq_true hne⟩
  have hstopping : x.stopping = false := by
    by_contra hne
    cases hstop.symm.trans (hx.stopping hmay.1 (Bool.eq_true_of_not_eq_false hne))
  have hleft : .stop ∈ x.ready ∨
      ∃ g fut', x.futs[g]? = some fut' ∧ g ≠ f ∧ .stop ∈ fut'.callbacks := by
    by_contra hneither
    simp only [not_or] at hneither
    exact hnone ⟨hneither.1, fun g fut' hfut' hne hmem => hneither.2 ⟨g, fut', hfut', hne, hmem⟩⟩
  -- the run in which the leftover callback is all that happens
  obtain ⟨acts, w, hrun, hw, hstate, hready⟩ := leftover_ready hx hfut hpending hleft hcall
  have hends : w.ends = x.ends := by rw [hw]
  have hphase : w.phase = .between := by rw [hw]; exact hx.phase hmay.1
  obtain ⟨acts', z, hrun', hends'⟩ :=
    tick_ends (by rw [hw]) hphase (by rw [hw]; exact hstopping) hready
  refine not_right_pending (by rw [hw]) (by rw [hw]; exact hstop) hstate
    (h y hcall (acts ++ acts') z ?_ _ ?_)
  · rw [Machine.run_append, hrun, Option.bind_some, hrun']
  · rw [hends', hends, List.getElem?_concat_length]

/-- **Which runs of `run_until_complete` are on their own.** In every state that is reached, a run is
sure to end with its future's result, if nobody stops it and no exception leaves it, if and only if
no earlier run has left a callback behind. -/
theorem runsRight_iff {acts : List (Act V K)} (hrun : machine.run init acts = some x)
    (hcall : x.runUntilComplete f = some y) : x.RunsRight f ↔ x.NoLeftover f :=
  ⟨fun h => h.noLeftover (coherent_run hrun) hcall, fun h => h.runsRight (coherent_run hrun)⟩

/-- A run to the end and a new future. -/
def completedRun : List (Act Nat Nat) :=
  [.newFuture false, .runUntilComplete 0, .settle 0 (.finished 7), .beginTick, .drain, .runHandle,
    .endTick, .finish, .newFuture false]

/-- A run that an exception leaves, and a new future. -/
def abortedRun : List (Act Nat Nat) :=
  [.newFuture false, .runUntilComplete 0, .beginTick, .escape true, .newFuture false]

theorem runsRight_completed : ∃ x y : RunLoop Nat Nat, machine.run init completedRun = some x ∧
    x.runUntilComplete 1 = some y ∧ x.RunsRight 1 :=
  ⟨_, _, rfl, rfl, (runsRight_iff (show machine.run init completedRun = some _ from rfl) rfl).mpr
    (.inr (.inr ⟨by decide, by
      intro g fut hfut hne
      match g with
      | 0 =>
        cases hfut
        decide
      | 1 => exact absurd rfl hne
      | _ + 2 => cases hfut⟩))⟩

/-- The callback of the first run, pushed when its future was cancelled, stops the second. -/
theorem not_runsRight : ∃ x y z : RunLoop Nat Nat, machine.run init abortedRun = some x ∧
    x.runUntilComplete 1 = some y ∧
    machine.run y [.beginTick, .drain, .runHandle, .endTick, .finish] = some z ∧
    z.ends = [⟨some .pending, false, .escaped⟩, ⟨some .pending, false, .stoppedEarly⟩] ∧
    ¬ x.RunsRight 1 := by
  refine ⟨_, _, _, rfl, rfl, rfl, rfl, fun h => ?_⟩
  obtain ⟨state, hstate, hdone, -⟩ := h _ rfl [.beginTick, .drain, .runHandle, .endTick, .finish] _ rfl _
    rfl rfl (by rintro ⟨⟩)
  cases hstate
  cases hdone

end RunLoop

end Uringcore
