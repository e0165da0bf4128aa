import Uringcore.Lib.Machine
import Uringcore.Lib.History

/-!
# Jobs for other threads

`run_in_executor` submits a function to an executor and gives back a future of the loop. When the job has
ended, in whatever thread that is, `on_done` schedules the call that settles the future with
`call_soon_threadsafe`. The steps of `on_done` are separate steps here: while it runs, the loop may be
closed, the debug mode changed and the future cancelled or set by the program, which has it as well.

`call_soon_threadsafe` refuses on a closed loop, and in debug mode: `_check_callback`, which it then
calls, does not exist. A job may end with an exception that `on_done` does not catch, or with one that
no future takes: `takes` says what `set_exception` makes of an exception, and `none` is its `TypeError`
(a `StopIteration` is refused, or wrapped in another exception by later versions).

* `outcome_or_debug` — `on_done` gives a future the outcome of its own job, or the error of the debug
  mode; the error of a closed loop never. It schedules at most one call.
* `delivered_iff` — the exact condition on the steps under which it gets the outcome.
* `all_shutdown_iff` — which executors are shut down when the loop is closed.
-/

namespace Uringcore

namespace Executor

/-- How a job ends. -/
inductive Outcome (V E : Type) where
  | result (v : V)
  /-- An `Exception`; also the error of a job that was cancelled before it began. -/
  | exception (e : E)
  /-- `SystemExit` and the like, which `except Exception` lets through. -/
  | baseException

/-- An exception for the future. -/
inductive Exc (E : Type) where
  | job (e : E)
  /-- "Event loop is closed". -/
  | closed
  /-- There is no `_check_callback`. -/
  | noCheckCallback

/-- The call that is scheduled for the future. -/
inductive Op (V E : Type) where
  | setResult (v : V)
  | setException (e : Exc E)

inductive FutState (V E : Type) where
  | pending
  /-- The scheduled call has set its result. -/
  | finished (v : V)
  /-- The scheduled call has set its exception. -/
  | failed (e : Exc E)
  | cancelled
  /-- The program has set its result or its exception. -/
  | set (outcome : Except E V)

/-- What the program can do to the future that it was given. -/
inductive ProgramCall (V E : Type) where
  | cancel
  | setResult (v : V)
  | setException (e : E)

variable {V E : Type} (takes : E → Option E)

/-- A call on a future that is done raises, and so does `set_exception` with an exception that it does
not take. -/
def Op.call (op : Op V E) (future : FutState V E) : FutState V E :=
  match future, op with
  | .pending, .setResult v => .finished v
  | .pending, .setException (.job e) => match takes e with
      | some e' => .failed (.job e')
      | none => .pending
  | .pending, .setException e => .failed e
  | future, _ => future

/-- The same for the program: what it calls on a future that is done raises, or answers `False`. -/
def ProgramCall.call (c : ProgramCall V E) (future : FutState V E) : FutState V E :=
  match future, c with
  | .pending, .cancel => .cancelled
  | .pending, .setResult v => .set (.ok v)
  | .pending, .setException e => match takes e with
      | some e' => .set (.error e')
      | none => .pending
  | future, _ => future

/-- Whether a pending future is done after it. -/
def ProgramCall.settles : ProgramCall V E → Bool
  | .cancel | .setResult _ => true
  | .setException e => (takes e).isSome

/-- Where `on_done` stands. -/
inductive Pc (V E : Type) where
  | notCalled
  /-- Before the `_check_closed` of `call_soon_threadsafe`. -/
  | checkClosed (op : Op V E)
  | checkDebug (op : Op V E)
  | push (op : Op V E)
  | ended

structure Job (V E : Type) where
  outcome : Option (Outcome V E)
  /-- `add_done_callback` has been called. -/
  registered : Bool
  pc : Pc V E
  future : FutState V E

def Job.new : Job V E := ⟨none, false, .notCalled, .pending⟩

structure Sys (V E : Type) where
  closed : Bool
  debug : Bool
  /-- The handles of `on_done` in the ready queue. -/
  ready : List (Nat × Op V E)
  jobs : List (Job V E)

def Sys.new : Sys V E := ⟨false, false, [], []⟩

inductive Act (V E : Type) where
  /-- `run_in_executor`, up to its future. -/
  | submit
  /-- `add_done_callback`. -/
  | register (j : Nat)
  | finish (j : Nat) (outcome : Outcome V E)
  /-- `on_done` is called: by the worker, or by `add_done_callback` when the job has ended. -/
  | onDone (j : Nat)
  /-- The next step of `on_done`. -/
  | advance (j : Nat)
  /-- The loop executes the next handle. -/
  | execute
  /-- The program cancels or sets the future. -/
  | program (j : Nat) (c : ProgramCall V E)
  | setDebug (enabled : Bool)
  | close

/-- A refusal of the first call is what the second reports; a refusal of the second is left at that. -/
def Op.refused (op : Op V E) (e : Exc E) : Pc V E :=
  match op with
  | .setResult _ => .checkClosed (.setException e)
  | .setException _ => .ended

/-- `on_done` as far as its first call: nothing on a closed loop, and nothing for an exception that it
does not catch. -/
def Outcome.onDone (outcome : Outcome V E) (closed : Bool) : Pc V E :=
  if closed then .ended
  else match outcome with
    | .result v => .checkClosed (.setResult v)
    | .exception e => .checkClosed (.setException (.job e))
    | .baseException => .ended

namespace Sys

def setJob (j : Nat) (job : Job V E) (s : Sys V E) : Sys V E := { s with jobs := s.jobs.set j job }

/-- One step of `call_soon_threadsafe`. -/
def advance (j : Nat) (job : Job V E) (s : Sys V E) : Option (Sys V E) :=
  match job.pc with
  | .notCalled | .ended => none
  | .checkClosed op =>
      some (s.setJob j { job with pc := if s.closed then op.refused .closed else .checkDebug op })
  | .checkDebug op =>
      some (s.setJob j { job with pc := if s.debug then op.refused .noCheckCallback else .push op })
  | .push op => some { s.setJob j { job with pc := .ended } with ready := s.ready ++ [(j, op)] }

def step (s : Sys V E) : Act V E → Option (Sys V E)
  | .submit => if s.closed then none else some { s with jobs := s.jobs ++ [.new] }
  | .register j => s.jobs[j]?.bind fun job =>
      if job.registered then none else some (s.setJob j { job with registered := true })
  | .finish j outcome => s.jobs[j]?.bind fun job =>
      match job.outcome with
      | some _ => none
      | none => some (s.setJob j { job with outcome := some outcome })
  | .onDone j => s.jobs[j]?.bind fun job =>
      match job.registered, job.outcome, job.pc with
      | true, some outcome, .notCalled => some (s.setJob j { job with pc := outcome.onDone s.closed })
      | _, _, _ => none
  | .advance j => s.jobs[j]?.bind fun job => s.advance j job
  | .execute =>
      if s.closed then none
      else match s.ready with
        | [] => none
        | (j, op) :: rest => s.jobs[j]?.map fun job =>
            { s.setJob j { job with future := op.call takes job.future } with ready := rest }
  | .program j c => s.jobs[j]?.map fun job =>
      s.setJob j { job with future := c.call takes job.future }
  | .setDebug enabled => some { s with debug := enabled }
  | .close => some { s with closed := true }

/-- What is scheduled for the future of a job. -/
def scheduled (j : Nat) (s : Sys V E) : List (Op V E) :=
  (s.ready.filter (·.1 = j)).map Prod.snd

end Sys

def machine : Machine (Sys V E) (Act V E) := ⟨Sys.step takes⟩

/-- The call that a step schedules, with its job. -/
def Sys.pushes (s : Sys V E) : Act V E → List (Nat × Op V E)
  | .advance j => match s.jobs[j]?.map Job.pc with
      | some (.push op) => [(j, op)]
      | _ => []
  | .submit | .register _ | .finish .. | .onDone _ | .execute | .program .. | .setDebug _ | .close => []

/-- The machine with all calls that were ever scheduled. -/
def historyMachine : Machine (Sys V E × List (Nat × Op V E)) (Act V E) :=
  (machine takes).ghost fun s a _ past => past ++ s.pushes a

/-! ## What a step does to the handles -/

namespace Sys

variable {s : Sys V E} {i j : Nat} {job job' : Job V E}

theorem scheduled_append (j : Nat) (op : Op V E) (s : Sys V E) (i : Nat) :
    ({ s with ready := s.ready ++ [(i, op)] } : Sys V E).scheduled j =
      s.scheduled j ++ if i = j then [op] else [] := by
  unfold scheduled
  rw [List.filter_append, List.map_append]
  by_cases hij : i = j <;> simp [hij]

theorem scheduled_cons {op : Op V E} {rest : List (Nat × Op V E)} (hready : s.ready = (i, op) :: rest)
    (j : Nat) :
    s.scheduled j = (if i = j then [op] else []) ++ ({ s with ready := rest } : Sys V E).scheduled j := by
  unfold scheduled
  rw [hready]
  by_cases hij : i = j <;> simp [hij]

/-- A job of the changed list is the changed one, or as it was. -/
theorem getElem?_setJob (h : (s.setJob i job').jobs[j]? = some job) :
    j = i ∧ job = job' ∨ j ≠ i ∧ s.jobs[j]? = some job := by
  unfold setJob at h
  rw [List.getElem?_set] at h
  split at h
  · rename_i hij
    split at h
    · cases h
      exact .inl ⟨hij.symm, rfl⟩
    · cases h
  · rename_i hij
    exact .inr ⟨fun hji => hij hji.symm, h⟩

theorem getElem?_setJob_self (h : s.jobs[i]? = some job) (job' : Job V E) :
    (s.setJob i job').jobs[i]? = some job' := by
  have hlt := (List.getElem?_eq_some_iff.mp h).1
  rw [setJob, List.getElem?_set_self hlt]

theorem getElem?_setJob_ne (h : j ≠ i) (s : Sys V E) (job' : Job V E) :
    (s.setJob i job').jobs[j]? = s.jobs[j]? :=
  List.getElem?_set_ne (Ne.symm h)

end Sys

/-! ## Whose outcome it is -/

/-- The program alone has been at the future. -/
def FutState.Untouched : FutState V E → Prop
  | .pending | .cancelled | .set _ => True
  | .finished _ | .failed _ => False

/-- What the call makes of a pending future. -/
def Op.settled (op : Op V E) : FutState V E := op.call takes .pending

/-- The call reports how the job ended, or the error of the debug mode in place of its result. -/
def Op.Reports (op : Op V E) (outcome : Option (Outcome V E)) : Prop :=
  match op with
  | .setResult v => outcome = some (.result v)
  | .setException (.job e) => outcome = some (.exception e)
  | .setException .noCheckCallback => ∃ v, outcome = some (.result v)
  | .setException .closed => False

/-- A job and what is scheduled for its future. -/
def Job.Right (job : Job V E) (scheduled : List (Op V E)) (closed : Bool) : Prop :=
  (job.outcome = none → job.pc = .notCalled) ∧
  match job.pc with
  | .notCalled => scheduled = [] ∧ job.future.Untouched
  -- the error of a closed loop is not reported: the loop is still closed
  | .checkClosed op => scheduled = [] ∧ job.future.Untouched ∧
      (op.Reports job.outcome ∨ op = .setException .closed ∧ closed = true)
  | .checkDebug op | .push op => scheduled = [] ∧ job.future.Untouched ∧ op.Reports job.outcome
  | .ended => (scheduled = [] ∧ (job.future.Untouched ∨
        ∃ op : Op V E, op.Reports job.outcome ∧ job.future = op.settled takes)) ∨
      ∃ op : Op V E, scheduled = [op] ∧ job.future.Untouched ∧ op.Reports job.outcome

structure Sys.Right (s : Sys V E) : Prop where
  jobs : ∀ (j : Nat) (job : Job V E), s.jobs[j]? = some job → job.Right takes (s.scheduled j) s.closed
  ready : ∀ p ∈ s.ready, p.1 < s.jobs.length

/-- A step of one job. -/
theorem Sys.Right.setJob {s : Sys V E} (h : s.Right takes) {i : Nat} {job' : Job V E}
    (hright : job'.Right takes (s.scheduled i) s.closed) : (s.setJob i job').Right takes where
  jobs j job hjob := by
    obtain ⟨rfl, rfl⟩ | ⟨-, hold⟩ := Sys.getElem?_setJob hjob
    · exact hright
    · exact h.jobs j job hold
  ready p hp := by
    rw [Sys.setJob, List.length_set]
    exact h.ready p hp

/-- A call leaves a future alone that the program has settled. -/
theorem Op.call_of_ne (op : Op V E) {future : FutState V E} (h : future ≠ .pending) :
    op.call takes future = future := by
  cases future with
  | pending => exact absurd rfl h
  | finished v => rfl
  | failed e => rfl
  | cancelled => rfl
  | set outcome => rfl

theorem Op.call_untouched (op : Op V E) {future : FutState V E} (h : future.Untouched) :
    (op.call takes future).Untouched ∨ op.call takes future = op.settled takes := by
  by_cases hpending : future = .pending
  · rw [hpending]
    exact .inr rfl
  · rw [op.call_of_ne takes hpending]
    exact .inl h

theorem ProgramCall.call_of_ne (c : ProgramCall V E) {future : FutState V E} (h : future ≠ .pending) :
    c.call takes future = future := by
  cases future with
  | pending => exact absurd rfl h
  | finished v => rfl
  | failed e => rfl
  | cancelled => rfl
  | set outcome => rfl

theorem ProgramCall.call_pending (c : ProgramCall V E) :
    (c.call takes .pending).Untouched ∧ (c.call takes .pending = .pending ↔ c.settles takes = false) := by
  cases c with
  | cancel => simp [call, settles, FutState.Untouched]
  | setResult v => simp [call, settles, FutState.Untouched]
  | setException e => cases htakes : takes e <;> simp [call, settles, FutState.Untouched, htakes]

theorem ProgramCall.call_untouched (c : ProgramCall V E) {future : FutState V E}
    (h : future.Untouched) : (c.call takes future).Untouched := by
  by_cases hpending : future = .pending
  · rw [hpending]
    exact (c.call_pending takes).1
  · rw [c.call_of_ne takes hpending]
    exact h

/-- The loop executes the handle of a job. -/
theorem Job.Right.execute {job : Job V E} {op : Op V E} {rest : List (Op V E)} {closed : Bool}
    (h : job.Right takes (op :: rest) closed) :
    rest = [] ∧ ({ job with future := op.call takes job.future } : Job V E).Right takes rest closed := by
  obtain ⟨outcome, registered, pc, future⟩ := job
  obtain ⟨hnone, hpc⟩ := h
  cases pc with
  | notCalled => cases hpc.1
  | checkClosed op' => cases hpc.1
  | checkDebug op' => cases hpc.1
  | push op' => cases hpc.1
  | ended =>
    obtain ⟨hempty, -⟩ | ⟨op', hop, huntouched, hreports⟩ := hpc
    · cases hempty
    · cases hop
      refine ⟨rfl, hnone, .inl ⟨rfl, ?_⟩⟩
      obtain hstill | hsettled := op.call_untouched takes huntouched
      · exact .inl hstill
      · exact .inr ⟨op, hreports, hsettled⟩

/-- The program cancels or sets the future. -/
theorem Job.Right.program {job : Job V E} {scheduled : List (Op V E)} {closed : Bool}
    (h : job.Right takes scheduled closed) (c : ProgramCall V E) :
    ({ job with future := c.call takes job.future } : Job V E).Right takes scheduled closed := by
  by_cases hpending : job.future = .pending
  · obtain ⟨outcome, registered, pc, future⟩ := job
    obtain ⟨hnone, hpc⟩ := h
    rw [hpending]
    have huntouched := (c.call_pending takes).1
    refine ⟨hnone, ?_⟩
    cases pc with
    | notCalled => exact ⟨hpc.1, huntouched⟩
    | checkClosed op => exact ⟨hpc.1, huntouched, hpc.2.2⟩
    | checkDebug op => exact ⟨hpc.1, huntouched, hpc.2.2⟩
    | push op => exact ⟨hpc.1, huntouched, hpc.2.2⟩
    | ended =>
      obtain ⟨hempty, -⟩ | ⟨op, hop, -, hreports⟩ := hpc
      · exact .inl ⟨hempty, .inl huntouched⟩
      · exact .inr ⟨op, hop, huntouched, hreports⟩
  · rw [c.call_of_ne takes hpending]
    exact h

/-- The loop is closed. -/
theorem Job.Right.close {job : Job V E} {scheduled : List (Op V E)} {closed : Bool}
    (h : job.Right takes scheduled closed) : job.Right takes scheduled true := by
  obtain ⟨outcome, registered, pc, future⟩ := job
  obtain ⟨hnone, hpc⟩ := h
  refine ⟨hnone, ?_⟩
  cases pc with
  | checkClosed op =>
    obtain ⟨hempty, huntouched, hreports⟩ := hpc
    exact ⟨hempty, huntouched, hreports.imp_right fun hclosed => ⟨hclosed.1, rfl⟩⟩
  | notCalled => exact hpc
  | checkDebug op => exact hpc
  | push op => exact hpc
  | ended => exact hpc

/-- `on_done` begins. -/
theorem Job.Right.onDone {job : Job V E} {scheduled : List (Op V E)} {closed : Bool}
    {outcome : Outcome V E} (h : job.Right takes scheduled closed) (houtcome : job.outcome = some outcome)
    (hpc : job.pc = .notCalled) :
    ({ job with pc := outcome.onDone closed } : Job V E).Right takes scheduled closed := by
  obtain ⟨-, hrest⟩ := h
  rw [hpc] at hrest
  refine ⟨fun hnone => by simp [houtcome] at hnone, ?_⟩
  unfold Outcome.onDone
  cases closed with
  | true => exact .inl ⟨hrest.1, .inl hrest.2⟩
  | false =>
    cases outcome with
    | result v => exact ⟨hrest.1, hrest.2, .inl houtcome⟩
    | exception e => exact ⟨hrest.1, hrest.2, .inl houtcome⟩
    | baseException => exact .inl ⟨hrest.1, .inl hrest.2⟩

/-- A call is refused. -/
theorem Job.Right.refused {job : Job V E} {scheduled : List (Op V E)} {closed : Bool} {op : Op V E}
    {e : Exc E} (houtcome : job.outcome ≠ none) (hempty : scheduled = [])
    (huntouched : job.future.Untouched)
    (hfirst : ∀ v, op = .setResult v →
      (Op.setException e : Op V E).Reports job.outcome ∨ e = .closed ∧ closed = true) :
    ({ job with pc := op.refused e } : Job V E).Right takes scheduled closed := by
  refine ⟨fun hnone => absurd hnone houtcome, ?_⟩
  cases op with
  | setResult v =>
    refine ⟨hempty, huntouched, ?_⟩
    obtain hreports | ⟨rfl, hclosed⟩ := hfirst v rfl
    · exact .inl hreports
    · exact .inr ⟨rfl, hclosed⟩
  | setException e' => exact .inl ⟨hempty, .inl huntouched⟩

/-- `on_done` takes its next step. -/
theorem Sys.Right.advance {s t : Sys V E} {i : Nat} {job : Job V E} (h : s.Right takes)
    (hjob : s.jobs[i]? = some job) (hstep : s.advance i job = some t) : t.Right takes := by
  obtain ⟨hnone, hpc⟩ := h.jobs i job hjob
  unfold Sys.advance at hstep
  split at hstep
  · cases hstep
  · cases hstep
  · rename_i op hat
    rw [hat] at hpc hnone
    obtain ⟨hempty, huntouched, hreports⟩ := hpc
    have houtcome : job.outcome ≠ none := fun hno => by cases hnone hno
    cases hstep
    apply h.setJob takes
    cases hclosed : s.closed with
    | true =>
      apply Job.Right.refused takes houtcome hempty huntouched
      intro v _
      exact .inr ⟨rfl, rfl⟩
    | false =>
      rw [hclosed] at hreports
      obtain hreports | ⟨-, hno⟩ := hreports
      · exact ⟨fun hno => absurd hno houtcome, hempty, huntouched, hreports⟩
      · cases hno
  · rename_i op hat
    rw [hat] at hpc hnone
    obtain ⟨hempty, huntouched, hreports⟩ := hpc
    have houtcome : job.outcome ≠ none := fun hno => by cases hnone hno
    cases hstep
    apply h.setJob takes
    cases hdebug : s.debug with
    | true =>
      apply Job.Right.refused takes houtcome hempty huntouched
      intro v heq
      obtain rfl := heq
      exact .inl ⟨v, hreports⟩
    | false => exact ⟨fun hno => absurd hno houtcome, hempty, huntouched, hreports⟩
  · rename_i op hat
    rw [hat] at hpc hnone
    obtain ⟨hempty, huntouched, hreports⟩ := hpc
    have houtcome : job.outcome ≠ none := fun hno => by cases hnone hno
    cases hstep
    constructor
    · intro j job' hjob'
      show job'.Right takes (Sys.scheduled j { s with ready := s.ready ++ [(i, op)] }) s.closed
      rw [Sys.scheduled_append]
      obtain ⟨rfl, rfl⟩ | ⟨hne, hold⟩ := Sys.getElem?_setJob hjob'
      · rw [if_pos rfl]
        refine ⟨fun hno => absurd hno houtcome, .inr ⟨op, ?_, huntouched, hreports⟩⟩
        show s.scheduled j ++ [op] = [op]
        rw [hempty, List.nil_append]
      · rw [if_neg (Ne.symm hne), List.append_nil]
        exact h.jobs j job' hold
    · intro p hp
      rw [List.mem_append, List.mem_singleton] at hp
      show p.1 < (s.jobs.set i _).length
      rw [List.length_set]
      obtain hold | rfl := hp
      · exact h.ready p hold
      · exact (List.getElem?_eq_some_iff.mp hjob).1

theorem Sys.right_new : (Sys.new : Sys V E).Right takes := ⟨by simp [Sys.new], by simp [Sys.new]⟩

theorem step_right {s t : Sys V E} {a : Act V E} (h : s.Right takes) (hstep : s.step takes a = some t) :
    t.Right takes := by
  cases a with
  | submit =>
    simp only [Sys.step, Option.ite_none_left_eq_some] at hstep
    cases hstep.2
    constructor
    · intro j job hjob
      obtain hold | ⟨rfl, rfl⟩ := History.concat_eq_some.mp hjob
      · exact h.jobs j job hold
      · refine ⟨fun _ => rfl, ?_, trivial⟩
        rw [Sys.scheduled, List.map_eq_nil_iff, List.filter_eq_nil_iff]
        intro p hp hlast
        have hlt := h.ready p hp
        rw [of_decide_eq_true hlast] at hlt
        exact Nat.lt_irrefl _ hlt
    · intro p hp
      rw [List.length_append]
      exact Nat.lt_add_right _ (h.ready p hp)
  | register i =>
    simp only [Sys.step, Option.bind_eq_some_iff] at hstep
    obtain ⟨job, hjob, hstep⟩ := hstep
    rw [Option.ite_none_left_eq_some] at hstep
    cases hstep.2
    exact h.setJob takes (h.jobs i job hjob)
  | finish i outcome =>
    simp only [Sys.step, Option.bind_eq_some_iff] at hstep
    obtain ⟨job, hjob, hstep⟩ := hstep
    split at hstep
    · cases hstep
    · rename_i hrunning
      cases hstep
      apply h.setJob takes
      obtain ⟨hnone, hpc⟩ := h.jobs i job hjob
      rw [hnone hrunning] at hpc
      refine ⟨fun hno => absurd hno (by simp), ?_⟩
      rw [hnone hrunning]
      exact hpc
  | onDone i =>
    simp only [Sys.step, Option.bind_eq_some_iff] at hstep
    obtain ⟨job, hjob, hstep⟩ := hstep
    split at hstep
    · rename_i outcome hregistered houtcome hpc
      cases hstep
      exact h.setJob takes ((h.jobs i job hjob).onDone takes houtcome hpc)
    · cases hstep
  | advance i =>
    simp only [Sys.step, Option.bind_eq_some_iff] at hstep
    obtain ⟨job, hjob, hstep⟩ := hstep
    exact h.advance takes hjob hstep
  | execute =>
    simp only [Sys.step, Option.ite_none_left_eq_some] at hstep
    obtain ⟨-, hstep⟩ := hstep
    split at hstep
    · cases hstep
    · rename_i i op rest hready
      obtain ⟨job, hjob, rfl⟩ := Option.map_eq_some_iff.mp hstep
      have hsched := Sys.scheduled_cons hready
      constructor
      · intro j job' hjob'
        obtain ⟨rfl, rfl⟩ | ⟨hne, hold⟩ := Sys.getElem?_setJob hjob'
        · have hbefore := h.jobs j job hjob
          rw [hsched j, if_pos rfl] at hbefore
          exact (hbefore.execute takes).2
        · have hbefore := h.jobs j job' hold
          rw [hsched j, if_neg (Ne.symm hne)] at hbefore
          exact hbefore
      · intro p hp
        show p.1 < (s.jobs.set i _).length
        rw [List.length_set]
        apply h.ready
        rw [hready]
        exact List.mem_cons_of_mem _ hp
  | program i c =>
    obtain ⟨job, hjob, rfl⟩ := Option.map_eq_some_iff.mp hstep
    exact h.setJob takes ((h.jobs i job hjob).program takes c)
  | setDebug enabled =>
    cases hstep
    exact ⟨h.jobs, h.ready⟩
  | close =>
    cases hstep
    constructor
    · intro j job hjob
      exact (h.jobs j job hjob).close takes
    · exact h.ready

theorem run_right {acts : List (Act V E)} {s : Sys V E}
    (h : (machine takes).run Sys.new acts = some s) : s.Right takes := by
  apply Machine.run_invariant' (I := Sys.Right takes) _ (Sys.right_new takes) h
  intro s a t hright hstep
  exact step_right takes hright hstep

/-- Seen from outside: only the call settles, and it is scheduled no longer then. -/
theorem Job.Right.seen {job : Job V E} {scheduled : List (Op V E)} {closed : Bool}
    (h : job.Right takes scheduled closed) :
    job.future.Untouched ∨
      scheduled = [] ∧ ∃ op : Op V E, op.Reports job.outcome ∧ job.future = op.settled takes := by
  obtain ⟨outcome, registered, pc, future⟩ := job
  obtain ⟨-, hpc⟩ := h
  cases pc with
  | notCalled => exact .inl hpc.2
  | checkClosed op => exact .inl hpc.2.1
  | checkDebug op => exact .inl hpc.2.1
  | push op => exact .inl hpc.2.1
  | ended =>
    obtain ⟨hempty, huntouched | hsettled⟩ | ⟨op, -, huntouched, -⟩ := hpc
    · exact .inl huntouched
    · exact .inr ⟨hempty, hsettled⟩
    · exact .inl huntouched

/-- What settled a future, seen from its job: the program, or how the job ended. -/
def FutState.ComesFrom (future : FutState V E) (outcome : Option (Outcome V E)) : Prop :=
  match future with
  | .pending | .cancelled | .set _ => True
  | .finished v => outcome = some (.result v)
  | .failed (.job e') => ∃ e, outcome = some (.exception e) ∧ takes e = some e'
  | .failed .noCheckCallback => ∃ v, outcome = some (.result v)
  | .failed .closed => False

theorem FutState.Untouched.comesFrom {future : FutState V E} (h : future.Untouched)
    (outcome : Option (Outcome V E)) : future.ComesFrom takes outcome := by
  cases future with
  | pending => trivial
  | cancelled => trivial
  | set result => trivial
  | finished v => exact h.elim
  | failed e => exact h.elim

/-- The call reports how the job ended, and so does the future that it settles. -/
theorem Op.Reports.comesFrom {op : Op V E} {outcome : Option (Outcome V E)} (h : op.Reports outcome) :
    (op.settled takes).ComesFrom takes outcome := by
  cases op with
  | setResult v => exact h
  | setException e =>
    cases e with
    | job e =>
      cases htakes : takes e with
      | none => simp [Op.settled, Op.call, htakes, FutState.ComesFrom]
      | some e' =>
        simp only [Op.settled, Op.call, htakes]
        exact ⟨e, h, htakes⟩
    | closed => exact h
    | noCheckCallback => exact h

/-! ## What was ever scheduled -/

/-- The calls that were ever scheduled for the future of a job. -/
def pushed (j : Nat) (past : List (Nat × Op V E)) : List (Nat × Op V E) := past.filter (·.1 = j)

theorem pushed_append (j : Nat) (past new : List (Nat × Op V E)) :
    pushed j (past ++ new) = pushed j past ++ pushed j new :=
  List.filter_append ..

/-- `on_done` schedules one call at its end, and none before. -/
structure Sys.Once (s : Sys V E) (past : List (Nat × Op V E)) : Prop where
  jobs : ∀ (j : Nat) (job : Job V E), s.jobs[j]? = some job →
    (pushed j past).length ≤ 1 ∧ (job.pc ≠ .ended → pushed j past = [])
  past : ∀ p ∈ past, p.1 < s.jobs.length

theorem Sys.Once.pushed_new {s : Sys V E} {past : List (Nat × Op V E)} (h : s.Once past) :
    pushed s.jobs.length past = [] := by
  unfold pushed
  rw [List.filter_eq_nil_iff]
  intro p hp hlast
  exact Nat.ne_of_lt (h.past p hp) (of_decide_eq_true hlast)

/-- How a step changes a job: it schedules nothing, or takes `on_done` to its end with one call. -/
def Job.Goes (i : Nat) (job job' : Job V E) (new : List (Nat × Op V E)) : Prop :=
  new = [] ∧ (job'.pc ≠ .ended → job.pc ≠ .ended) ∨
    (∃ op, new = [(i, op)]) ∧ job.pc ≠ .ended ∧ job'.pc = .ended

/-- What a step does to the jobs: it adds one, changes one or leaves them alone. -/
def Sys.Goes (s t : Sys V E) (new : List (Nat × Op V E)) : Prop :=
  new = [] ∧ (t.jobs = s.jobs ∨ t.jobs = s.jobs ++ [.new]) ∨
    ∃ i job job', s.jobs[i]? = some job ∧ t.jobs = s.jobs.set i job' ∧ job.Goes i job' new

/-- The next step of `on_done`. -/
theorem Sys.advance_goes {s t : Sys V E} {i : Nat} {job : Job V E} (hjob : s.jobs[i]? = some job)
    (hstep : s.advance i job = some t) : s.Goes t (s.pushes (.advance i)) := by
  unfold Sys.advance at hstep
  simp only [Sys.pushes, hjob, Option.map_some]
  split at hstep
  · cases hstep
  · cases hstep
  · rename_i op hat
    cases hstep
    rw [hat]
    exact .inr ⟨i, job, _, hjob, rfl, .inl ⟨rfl, fun _ => by simp [hat]⟩⟩
  · rename_i op hat
    cases hstep
    rw [hat]
    exact .inr ⟨i, job, _, hjob, rfl, .inl ⟨rfl, fun _ => by simp [hat]⟩⟩
  · rename_i op hat
    cases hstep
    rw [hat]
    exact .inr ⟨i, job, _, hjob, rfl, .inr ⟨⟨op, rfl⟩, by simp [hat], rfl⟩⟩

theorem step_goes {s t : Sys V E} {a : Act V E} (hstep : s.step takes a = some t) :
    s.Goes t (s.pushes a) := by
  cases a with
  | submit =>
    simp only [Sys.step, Option.ite_none_left_eq_some] at hstep
    cases hstep.2
    exact .inl ⟨rfl, .inr rfl⟩
  | register i =>
    simp only [Sys.step, Option.bind_eq_some_iff] at hstep
    obtain ⟨job, hjob, hstep⟩ := hstep
    rw [Option.ite_none_left_eq_some] at hstep
    cases hstep.2
    exact .inr ⟨i, job, _, hjob, rfl, .inl ⟨rfl, id⟩⟩
  | finish i outcome =>
    simp only [Sys.step, Option.bind_eq_some_iff] at hstep
    obtain ⟨job, hjob, hstep⟩ := hstep
    split at hstep
    · cases hstep
    · cases hstep
      exact .inr ⟨i, job, _, hjob, rfl, .inl ⟨rfl, id⟩⟩
  | onDone i =>
    simp only [Sys.step, Option.bind_eq_some_iff] at hstep
    obtain ⟨job, hjob, hstep⟩ := hstep
    split at hstep
    · rename_i hpc
      cases hstep
      exact .inr ⟨i, job, _, hjob, rfl, .inl ⟨rfl, fun _ => by simp [hpc]⟩⟩
    · cases hstep
  | advance i =>
    simp only [Sys.step, Option.bind_eq_some_iff] at hstep
    obtain ⟨job, hjob, hstep⟩ := hstep
    exact Sys.advance_goes hjob hstep
  | execute =>
    simp only [Sys.step, Option.ite_none_left_eq_some] at hstep
    obtain ⟨-, hstep⟩ := hstep
    split at hstep
    · cases hstep
    · rename_i i op rest hready
      obtain ⟨job, hjob, rfl⟩ := Option.map_eq_some_iff.mp hstep
      exact .inr ⟨i, job, _, hjob, rfl, .inl ⟨rfl, id⟩⟩
  | program i c =>
    obtain ⟨job, hjob, rfl⟩ := Option.map_eq_some_iff.mp hstep
    exact .inr ⟨i, job, _, hjob, rfl, .inl ⟨rfl, id⟩⟩
  | setDebug enabled =>
    cases hstep
    exact .inl ⟨rfl, .inl rfl⟩
  | close =>
    cases hstep
    exact .inl ⟨rfl, .inl rfl⟩

/-- What holds of job `i` after a step that changes it. -/
theorem Job.Goes.once {job job' : Job V E} {i : Nat} {past new : List (Nat × Op V E)}
    (h : job.Goes i job' new)
    (hjob : (pushed i past).length ≤ 1 ∧ (job.pc ≠ .ended → pushed i past = [])) :
    (pushed i (past ++ new)).length ≤ 1 ∧ (job'.pc ≠ .ended → pushed i (past ++ new) = []) := by
  obtain ⟨hlength, hbefore⟩ := hjob
  rw [pushed_append]
  obtain ⟨rfl, hpc⟩ | ⟨hnew, hpc, hpc'⟩ := h
  · rw [show pushed i ([] : List (Nat × Op V E)) = [] from rfl, List.append_nil]
    exact ⟨hlength, fun hnot => hbefore (hpc hnot)⟩
  · obtain ⟨op, rfl⟩ := hnew
    rw [hbefore hpc]
    exact ⟨by simp [pushed], fun hnot => absurd hpc' hnot⟩

/-- A step of job `i` schedules nothing for the others. -/
theorem Job.Goes.other {job job' : Job V E} {i j : Nat} {new : List (Nat × Op V E)}
    (h : job.Goes i job' new) (hji : j ≠ i) (past : List (Nat × Op V E)) :
    pushed j (past ++ new) = pushed j past := by
  rw [pushed_append, List.append_right_eq_self]
  obtain ⟨rfl, -⟩ | ⟨hnew, -⟩ := h
  · rfl
  · obtain ⟨op, rfl⟩ := hnew
    simp [pushed, Ne.symm hji]

theorem Sys.Goes.once {s t : Sys V E} {past new : List (Nat × Op V E)} (hgoes : s.Goes t new)
    (h : s.Once past) : t.Once (past ++ new) := by
  obtain ⟨rfl, hjobs | hjobs⟩ | ⟨i, job, job', hjob, hjobs, hgoes⟩ := hgoes
  · rw [List.append_nil]
    exact ⟨fun j job hjob => h.jobs j job (hjobs ▸ hjob), hjobs ▸ h.past⟩
  · rw [List.append_nil]
    constructor
    · intro j job hjob
      rw [hjobs] at hjob
      obtain hold | ⟨rfl, -⟩ := History.concat_eq_some.mp hjob
      · exact h.jobs j job hold
      · rw [h.pushed_new]
        exact ⟨Nat.zero_le 1, fun _ => rfl⟩
    · intro p hp
      rw [hjobs, List.length_append]
      exact Nat.lt_add_right _ (h.past p hp)
  · constructor
    · intro j jobj hjobj
      rw [hjobs] at hjobj
      obtain ⟨rfl, rfl⟩ | ⟨hne, hold⟩ := Sys.getElem?_setJob (s := s) hjobj
      · exact hgoes.once (h.jobs j job hjob)
      · rw [hgoes.other hne]
        exact h.jobs j jobj hold
    · intro p hp
      rw [hjobs, List.length_set]
      obtain hold | hnew := List.mem_append.mp hp
      · exact h.past p hold
      · obtain ⟨rfl, -⟩ | ⟨hnew', -⟩ := hgoes
        · cases hnew
        · obtain ⟨op, rfl⟩ := hnew'
          rw [List.mem_singleton.mp hnew]
          exact (List.getElem?_eq_some_iff.mp hjob).1

theorem run_once {acts : List (Act V E)} {x : Sys V E × List (Nat × Op V E)}
    (h : (historyMachine takes).run (Sys.new, []) acts = some x) : x.1.Once x.2 := by
  apply Machine.run_invariant' (I := fun x => x.1.Once x.2) _ _ h
  · intro x a y honce hstep
    obtain ⟨hstep, hpast⟩ := Machine.ghost_step_eq_some.mp hstep
    rw [hpast]
    exact (step_goes takes hstep).once honce
  · exact ⟨by simp [Sys.new], by simp⟩

/-- **A future and its job.** However jobs end and `on_done` is interleaved with the loop and with the
program: a future that is done was cancelled or set by the program, or has the outcome of its own job, or
the error of the debug mode in place of the result. At most one call is ever scheduled for it, and it
waits no longer when it has settled the future. -/
theorem outcome_or_debug {acts : List (Act V E)} {x : Sys V E × List (Nat × Op V E)} {j : Nat}
    {job : Job V E} (h : (historyMachine takes).run (Sys.new, []) acts = some x)
    (hjob : x.1.jobs[j]? = some job) :
    (pushed j x.2).length ≤ 1 ∧ (job.future.Untouched ∨ x.1.scheduled j = []) ∧
      job.future.ComesFrom takes job.outcome := by
  refine ⟨((run_once takes h).jobs j job hjob).1, ?_⟩
  have hright := (run_right takes (Machine.run_of_run_ghost h)).jobs j job hjob
  obtain huntouched | ⟨hempty, op, hreports, hsettled⟩ := hright.seen
  · exact ⟨.inl huntouched, huntouched.comesFrom takes _⟩
  · rw [hsettled]
    exact ⟨.inr hempty, hreports.comesFrom takes⟩

/-- A job that ends while the debug mode is switched on: `on_done` reports what went wrong with its own
call, when the mode has been switched off again. The program that tries to set the future itself comes
too late. -/
theorem outcome_or_debug_switched :
    (FutState.failed .noCheckCallback : FutState Nat Nat).ComesFrom some (some (.result 7)) :=
  (outcome_or_debug some
    (show (historyMachine some).run (Sys.new, []) [.submit, .register 0, .setDebug true,
      .finish 0 (.result 7), .onDone 0, .advance 0, .advance 0, .setDebug false, .advance 0, .advance 0,
      .advance 0, .execute, .program 0 (.setResult 8)] =
        some (⟨false, false, [], [⟨some (.result 7), true, .ended, .failed .noCheckCallback⟩]⟩,
          [(0, .setException .noCheckCallback)]) from rfl)
    (j := 0) rfl).2.2

/-! ## Who gets the outcome -/

/-- What the future should become. -/
def Outcome.op? : Outcome V E → Option (Op V E)
  | .result v => some (.setResult v)
  | .exception e => if (takes e).isSome then some (.setException (.job e)) else none
  | .baseException => none

def Job.op? (job : Job V E) : Option (Op V E) := job.outcome.bind (Outcome.op? takes)

/-- What keeps the outcome of job `j` from its future: that it is no outcome for a future, that the loop
is closed where `on_done` looks, that the debug mode is on where it looks, that the program cancels or
sets the future while it is pending. -/
def Sys.hinders (j : Nat) (s : Sys V E) : Act V E → Bool
  | .finish i outcome => i == j && (outcome.op? takes).isNone
  | .onDone i => i == j && s.closed
  | .advance i => i == j && match s.jobs[i]?.map Job.pc with
      | some (.checkClosed _) => s.closed
      | some (.checkDebug _) => s.debug
      | _ => false
  | .program i c => i == j && match s.jobs[i]?.map Job.future with
      | some .pending => c.settles takes
      | _ => false
  | .submit | .register _ | .execute | .setDebug _ | .close => false

/-- The outcome is on its way, or has come. -/
def Job.Intact (job : Job V E) (scheduled : List (Op V E)) : Prop :=
  (job.outcome.isSome → (job.op? takes).isSome) ∧
  match job.pc with
  | .notCalled => job.future = .pending
  | .checkClosed op | .checkDebug op | .push op => job.op? takes = some op ∧ job.future = .pending
  | .ended => ∃ op, job.op? takes = some op ∧
      (scheduled = [op] ∧ job.future = .pending ∨ scheduled = [] ∧ job.future = op.settled takes)

/-- Job `j`, if there is one, is intact. -/
def Sys.Intact (j : Nat) (s : Sys V E) : Prop :=
  ∀ job, s.jobs[j]? = some job → job.Intact takes (s.scheduled j)

theorem intact_iff {s : Sys V E} {j : Nat} {job : Job V E} (hjob : s.jobs[j]? = some job) :
    s.Intact takes j ↔ job.Intact takes (s.scheduled j) := by
  unfold Sys.Intact
  rw [hjob]
  simp

/-- A step of another job, or one that leaves jobs and handles alone. -/
theorem intact_congr {s t : Sys V E} {j : Nat} (hjobs : t.jobs[j]? = s.jobs[j]?)
    (hsched : t.scheduled j = s.scheduled j) : t.Intact takes j ↔ s.Intact takes j := by
  unfold Sys.Intact
  rw [hjobs, hsched]

/-- A step of job `i` is in the way of no other. -/
theorem intact_other {s t : Sys V E} {i j : Nat} {b : Bool} (hij : j ≠ i)
    (hjobs : t.jobs[j]? = s.jobs[j]?) (hsched : t.scheduled j = s.scheduled j) :
    t.Intact takes j ↔ s.Intact takes j ∧ (i == j && b) = false := by
  rw [beq_eq_false_iff_ne.mpr (Ne.symm hij), Bool.false_and, and_iff_left rfl]
  exact intact_congr takes hjobs hsched

/-- A step of job `j` itself. -/
theorem intact_setJob {s : Sys V E} {j : Nat} {job job' : Job V E} (hjob : s.jobs[j]? = some job)
    {C : Prop}
    (h : job'.Intact takes (s.scheduled j) ↔ job.Intact takes (s.scheduled j) ∧ C) :
    (s.setJob j job').Intact takes j ↔ s.Intact takes j ∧ C := by
  rw [intact_iff takes (Sys.getElem?_setJob_self hjob job'), intact_iff takes hjob]
  exact h

theorem Job.intact_finish {job : Job V E} {scheduled : List (Op V E)} {closed : Bool}
    (h : job.Right takes scheduled closed) (hrunning : job.outcome = none) (outcome : Outcome V E) :
    ({ job with outcome := some outcome } : Job V E).Intact takes scheduled ↔
      job.Intact takes scheduled ∧ (outcome.op? takes).isSome := by
  have hpc := h.1 hrunning
  simp only [Intact, op?, hpc, hrunning, Option.bind_some, Option.isSome_some, forall_const,
    Option.isSome_none, Bool.false_eq_true, false_implies, true_and]
  exact and_comm

/-- What the outcome asks for leaves no future that only the program has been at. -/
theorem Job.op?_settled {job : Job V E} {op : Op V E} (hop : job.op? takes = some op) :
    ¬ (op.settled takes).Untouched := by
  unfold op? at hop
  obtain ⟨outcome, -, hop⟩ := Option.bind_eq_some_iff.mp hop
  cases outcome with
  | result v =>
    cases hop
    exact id
  | exception e =>
    simp only [Outcome.op?, Option.ite_none_right_eq_some] at hop
    obtain ⟨hsome, heq⟩ := hop
    cases heq
    obtain ⟨e', he'⟩ := Option.isSome_iff_exists.mp hsome
    simp only [Op.settled, Op.call, he']
    exact id
  | baseException => cases hop

theorem Job.intact_program {job : Job V E} {scheduled : List (Op V E)} (c : ProgramCall V E) :
    ({ job with future := c.call takes job.future } : Job V E).Intact takes scheduled ↔
      job.Intact takes scheduled ∧ (job.future = .pending → c.settles takes = false) := by
  by_cases hpending : job.future = .pending
  · obtain ⟨outcome, registered, pc, future⟩ := job
    obtain rfl := hpending
    obtain ⟨huntouched, hstill⟩ := c.call_pending takes
    cases hsettles : c.settles takes with
    | false =>
      rw [hstill.mpr hsettles]
      simp
    | true =>
      have hno : c.call takes .pending ≠ .pending := by
        rw [Ne, hstill, hsettles]
        exact Bool.noConfusion
      simp only [Bool.true_eq_false, imp_false, not_true_eq_false, and_false, iff_false]
      intro hboth
      obtain ⟨-, hpc⟩ := hboth
      cases pc with
      | notCalled => exact hno hpc
      | checkClosed op => exact hno hpc.2
      | checkDebug op => exact hno hpc.2
      | push op => exact hno hpc.2
      | ended =>
        obtain ⟨op, hop, ⟨-, hpending⟩ | ⟨-, hsettled⟩⟩ := hpc
        · exact hno hpending
        · exact Job.op?_settled takes hop (hsettled ▸ huntouched)
  · rw [c.call_of_ne takes hpending]
    simp [hpending]

/-- Where nothing is scheduled any more, a future that only the program has been at is not intact. -/
theorem Job.not_intact_over {job : Job V E} (huntouched : job.future.Untouched) :
    ¬ ({ job with pc := .ended } : Job V E).Intact takes [] := by
  intro hex
  obtain ⟨-, op, hop, ⟨hno, -⟩ | ⟨-, hsettled⟩⟩ := hex
  · cases hno
  · rw [show job.future = op.settled takes from hsettled] at huntouched
    exact Job.op?_settled takes hop huntouched

theorem Job.intact_onDone {job : Job V E} {scheduled : List (Op V E)} {closed : Bool}
    {outcome : Outcome V E} (h : job.Right takes scheduled closed) (houtcome : job.outcome = some outcome)
    (hpc : job.pc = .notCalled) :
    ({ job with pc := outcome.onDone closed } : Job V E).Intact takes scheduled ↔
      job.Intact takes scheduled ∧ closed = false := by
  obtain ⟨-, hright⟩ := h
  rw [hpc] at hright
  obtain ⟨rfl, huntouched⟩ := hright
  cases closed with
  | true =>
    simp only [Outcome.onDone, if_true, Bool.true_eq_false, and_false, iff_false]
    exact Job.not_intact_over takes huntouched
  | false =>
    simp only [Outcome.onDone, Bool.false_eq_true, if_false, and_true]
    cases outcome with
    | result v => simp [Intact, op?, houtcome, hpc, Outcome.op?]
    | exception e => cases haccepts : takes e <;> simp [Intact, op?, houtcome, hpc, Outcome.op?, haccepts]
    | baseException =>
      -- it has no outcome for a future to begin with
      have hno (p : Job V E) (h : p.outcome = some .baseException) :
          ¬ (p.outcome.isSome → (p.op? takes).isSome) := by
        simp [Job.op?, h, Outcome.op?]
      exact iff_of_false (fun hintact => hno _ houtcome hintact.1)
        (fun hintact => hno _ houtcome hintact.1)

theorem Job.intact_refused {job : Job V E} {op : Op V E} {e : Exc E}
    (huntouched : job.future.Untouched) (he : ∀ e', e ≠ .job e') :
    ¬ ({ job with pc := op.refused e } : Job V E).Intact takes [] := by
  cases op with
  | setException e' => exact Job.not_intact_over takes huntouched
  | setResult v =>
    intro hboth
    obtain ⟨-, hop, -⟩ := hboth
    -- the call that the outcome asks for never reports an error of the loop
    simp only [op?, Option.bind_eq_some_iff] at hop
    obtain ⟨outcome, -, hop⟩ := hop
    cases outcome with
    | result v => cases hop
    | baseException => cases hop
    | exception e' =>
      simp only [Outcome.op?, Option.ite_none_right_eq_some] at hop
      cases hop.2
      exact he e' rfl

/-- The next step of `on_done`. -/
theorem intact_advance {s t : Sys V E} {j : Nat} {job : Job V E} (h : s.Right takes)
    (hjob : s.jobs[j]? = some job) (hstep : s.advance j job = some t) :
    t.Intact takes j ↔ s.Intact takes j ∧ s.hinders takes j (.advance j) = false := by
  obtain ⟨hnone, hpc⟩ := h.jobs j job hjob
  simp only [Sys.hinders, beq_self_eq_true, Bool.true_and, hjob, Option.map_some]
  unfold Sys.advance at hstep
  split at hstep
  · cases hstep
  · cases hstep
  · rename_i op hat
    rw [hat] at hpc
    obtain ⟨hempty, huntouched, -⟩ := hpc
    cases hstep
    apply intact_setJob takes hjob
    rw [hempty, hat]
    cases s.closed with
    | true =>
      simp only [if_true, Bool.true_eq_false, and_false, iff_false]
      apply Job.intact_refused takes huntouched
      intro e' he
      cases he
    | false => simp [Job.Intact, Job.op?, hat]
  · rename_i op hat
    rw [hat] at hpc
    obtain ⟨hempty, huntouched, -⟩ := hpc
    cases hstep
    apply intact_setJob takes hjob
    rw [hempty, hat]
    cases s.debug with
    | true =>
      simp only [if_true, Bool.true_eq_false, and_false, iff_false]
      apply Job.intact_refused takes huntouched
      intro e' he
      cases he
    | false => simp [Job.Intact, Job.op?, hat]
  · rename_i op hat
    rw [hat] at hpc
    obtain ⟨hempty, -⟩ := hpc
    cases hstep
    have hjob' := Sys.getElem?_setJob_self hjob { job with pc := .ended }
    have hsched : Sys.scheduled j { s with ready := s.ready ++ [(j, op)] } = [op] := by
      rw [Sys.scheduled_append, if_pos rfl, hempty, List.nil_append]
    have hiff := intact_iff takes (s := { s.setJob j { job with pc := .ended } with
      ready := s.ready ++ [(j, op)] }) hjob'
    rw [intact_iff takes hjob, hempty, hat]
    refine hiff.trans ?_
    show Job.Intact takes _ (Sys.scheduled j { s with ready := s.ready ++ [(j, op)] }) ↔ _
    rw [hsched]
    simp only [Job.Intact, Job.op?, hat, List.cons.injEq, and_true, List.cons_ne_nil, false_and, or_false]
    apply and_congr_right
    intro _
    constructor
    · intro hex
      obtain ⟨op', hop, rfl, hpending⟩ := hex
      exact ⟨hop, hpending⟩
    · intro hboth
      obtain ⟨hop, hpending⟩ := hboth
      exact ⟨op, hop, rfl, hpending⟩

/-- A call settles a future with the outcome if it is the call that the outcome asks for, and the program
has not been first. -/
theorem Op.call_eq_settled_iff {job : Job V E} {op : Op V E} (huntouched : job.future.Untouched)
    (hreports : op.Reports job.outcome) :
    (∃ op', job.op? takes = some op' ∧ op.call takes job.future = op'.settled takes) ↔
      job.op? takes = some op ∧ job.future = .pending := by
  by_cases hpending : job.future = .pending
  · rw [hpending]
    cases op with
    | setResult v =>
      have houtcome : job.outcome = some (.result v) := hreports
      simp [Job.op?, houtcome, Outcome.op?, Op.settled]
    | setException e =>
      cases e with
      | job e =>
        have houtcome : job.outcome = some (.exception e) := hreports
        cases htakes : takes e <;> simp [Job.op?, houtcome, Outcome.op?, Op.settled, htakes]
      | closed => exact hreports.elim
      | noCheckCallback =>
        obtain ⟨v, houtcome⟩ := hreports
        simp [Job.op?, houtcome, Outcome.op?, Op.call, Op.settled]
  · rw [op.call_of_ne takes hpending]
    simp only [hpending, and_false, iff_false]
    intro hex
    obtain ⟨op', hop', hsettled⟩ := hex
    rw [hsettled] at huntouched
    exact Job.op?_settled takes hop' huntouched

/-- The loop executes the handle of the job. -/
theorem Job.intact_execute {job : Job V E} {op : Op V E} {closed : Bool}
    (h : job.Right takes [op] closed) :
    ({ job with future := op.call takes job.future } : Job V E).Intact takes [] ↔
      job.Intact takes [op] := by
  obtain ⟨-, hpc⟩ := h
  cases hat : job.pc with
  | notCalled => rw [hat] at hpc; cases hpc.1
  | checkClosed op' => rw [hat] at hpc; cases hpc.1
  | checkDebug op' => rw [hat] at hpc; cases hpc.1
  | push op' => rw [hat] at hpc; cases hpc.1
  | ended =>
    rw [hat] at hpc
    obtain ⟨hempty, -⟩ | ⟨op', hop, huntouched, hreports⟩ := hpc
    · cases hempty
    · cases hop
      have hsettled := Op.call_eq_settled_iff takes huntouched hreports
      unfold op? at hsettled
      simp only [Intact, op?, hat, hsettled, List.cons.injEq, and_true, List.cons_ne_nil, reduceCtorEq,
        false_and, or_false, false_or, true_and]
      apply and_congr_right
      intro _
      constructor
      · intro hboth
        obtain ⟨hown, hpending⟩ := hboth
        exact ⟨op, hown, rfl, hpending⟩
      · intro hex
        obtain ⟨op', hown, rfl, hpending⟩ := hex
        exact ⟨hown, hpending⟩

theorem Sys.advance_other {s t : Sys V E} {i j : Nat} {job : Job V E} (hij : j ≠ i)
    (hstep : s.advance i job = some t) :
    t.jobs[j]? = s.jobs[j]? ∧ t.scheduled j = s.scheduled j := by
  unfold Sys.advance at hstep
  split at hstep
  · cases hstep
  · cases hstep
  · cases hstep
    exact ⟨Sys.getElem?_setJob_ne hij s _, rfl⟩
  · cases hstep
    exact ⟨Sys.getElem?_setJob_ne hij s _, rfl⟩
  · rename_i op hat
    cases hstep
    refine ⟨Sys.getElem?_setJob_ne hij s _, (Sys.scheduled_append j op s i).trans ?_⟩
    rw [if_neg (Ne.symm hij), List.append_nil]

theorem step_intact {s t : Sys V E} {a : Act V E} (j : Nat) (h : s.Right takes)
    (hstep : s.step takes a = some t) :
    t.Intact takes j ↔ s.Intact takes j ∧ s.hinders takes j a = false := by
  cases a with
  | submit =>
    simp only [Sys.step, Option.ite_none_left_eq_some] at hstep
    cases hstep.2
    simp only [Sys.hinders, and_true]
    constructor
    · intro hintact job hjob
      exact hintact job (History.getElem?_append_of_some hjob _)
    · intro hintact job hjob
      obtain hold | ⟨-, rfl⟩ := History.concat_eq_some.mp hjob
      · exact hintact job hold
      · exact ⟨nofun, rfl⟩
  | register i =>
    simp only [Sys.step, Option.bind_eq_some_iff] at hstep
    obtain ⟨job, hjob, hstep⟩ := hstep
    rw [Option.ite_none_left_eq_some] at hstep
    cases hstep.2
    by_cases hij : j = i
    · subst hij
      apply intact_setJob takes hjob
      simp [Sys.hinders, Job.Intact, Job.op?]
    · simp only [Sys.hinders, and_true]
      exact intact_congr takes (Sys.getElem?_setJob_ne hij s _) rfl
  | finish i outcome =>
    simp only [Sys.step, Option.bind_eq_some_iff] at hstep
    obtain ⟨job, hjob, hstep⟩ := hstep
    split at hstep
    · cases hstep
    · rename_i hrunning
      cases hstep
      by_cases hij : j = i
      · subst hij
        apply intact_setJob takes hjob
        rw [Job.intact_finish takes (h.jobs j job hjob) hrunning outcome]
        simp [Sys.hinders]
      · exact intact_other takes hij (Sys.getElem?_setJob_ne hij s _) rfl
  | onDone i =>
    simp only [Sys.step, Option.bind_eq_some_iff] at hstep
    obtain ⟨job, hjob, hstep⟩ := hstep
    split at hstep
    · rename_i outcome hregistered houtcome hpc
      cases hstep
      by_cases hij : j = i
      · subst hij
        apply intact_setJob takes hjob
        rw [Job.intact_onDone takes (h.jobs j job hjob) houtcome hpc]
        simp [Sys.hinders]
      · exact intact_other takes hij (Sys.getElem?_setJob_ne hij s _) rfl
    · cases hstep
  | advance i =>
    simp only [Sys.step, Option.bind_eq_some_iff] at hstep
    obtain ⟨job, hjob, hstep⟩ := hstep
    by_cases hij : j = i
    · subst hij
      exact intact_advance takes h hjob hstep
    · obtain ⟨hjobs, hsched⟩ := Sys.advance_other hij hstep
      exact intact_other takes hij hjobs hsched
  | execute =>
    simp only [Sys.step, Option.ite_none_left_eq_some] at hstep
    obtain ⟨-, hstep⟩ := hstep
    split at hstep
    · cases hstep
    · rename_i i op rest hready
      obtain ⟨job, hjob, rfl⟩ := Option.map_eq_some_iff.mp hstep
      have hsched := Sys.scheduled_cons hready j
      simp only [Sys.hinders, and_true]
      by_cases hij : j = i
      · subst hij
        have hright := h.jobs j job hjob
        replace hsched : s.scheduled j = op :: Sys.scheduled j { s with ready := rest } := by
          rw [hsched, if_pos rfl, List.singleton_append]
        rw [hsched] at hright
        have hrest := (hright.execute takes).1
        rw [hrest] at hright hsched
        rw [intact_iff takes hjob, hsched, ← Job.intact_execute takes hright, ← hrest]
        exact intact_iff takes (Sys.getElem?_setJob_self hjob _)
      · rw [if_neg (Ne.symm hij)] at hsched
        exact intact_congr takes (Sys.getElem?_setJob_ne hij s _) hsched.symm
  | program i c =>
    obtain ⟨job, hjob, rfl⟩ := Option.map_eq_some_iff.mp hstep
    by_cases hij : j = i
    · subst hij
      apply intact_setJob takes hjob
      rw [Job.intact_program]
      cases hfuture : job.future <;> simp [Sys.hinders, hjob, hfuture]
    · exact intact_other takes hij (Sys.getElem?_setJob_ne hij s _) rfl
  | setDebug enabled =>
    cases hstep
    simp only [Sys.hinders, and_true]
    exact intact_congr takes rfl rfl
  | close =>
    cases hstep
    simp only [Sys.hinders, and_true]
    exact intact_congr takes rfl rfl

/-- Made by the loop, or given by the program. -/
inductive Pool where
  | own (n : Nat)
  | given (n : Nat)
  deriving DecidableEq

structure Defaults where
  closed : Bool
  /-- `_default_executor`. -/
  current : Option Pool
  /-- How many the loop has made. -/
  made : Nat
  shut : List Pool
  deriving DecidableEq

namespace Defaults

def new : Defaults := ⟨false, none, 0, []⟩

inductive Act where
  /-- `run_in_executor` without an executor. -/
  | runInDefault
  | setDefault (n : Option Nat)
  | shutdownDefault
  | close

/-- `getDefault` is the second of the two definitions of `_get_default_executor`, the one in force. -/
def getDefault (s : Defaults) : Defaults :=
  match s.current with
  | some _ => s
  | none => { s with current := some (.own s.made), made := s.made + 1 }

def shutdownDefault (s : Defaults) : Defaults :=
  { s with current := none, shut := s.shut ++ s.current.toList }

def step (s : Defaults) : Act → Option Defaults
  | .runInDefault => if s.closed then none else some s.getDefault
  | .setDefault n => some { s with current := n.map .given }
  | .shutdownDefault => some s.shutdownDefault
  | .close => if s.closed then some s else some { s.shutdownDefault with closed := true }

def machine : Machine Defaults Act := ⟨step⟩

/-- `set_default_executor` shuts nothing down: it drops an executor of the loop's own. -/
def drops (s : Defaults) : Act → Bool
  | .setDefault _ => match s.current with
      | some (.own _) => true
      | _ => false
  | .runInDefault | .shutdownDefault | .close => false

/-- An executor of the loop's own that is in use has not been shut down, and the loop is open. -/
structure Sound (s : Defaults) : Prop where
  inUse : ∀ n, s.current = some (.own n) → n < s.made ∧ s.closed = false ∧ .own n ∉ s.shut
  shut : ∀ n, .own n ∈ s.shut → n < s.made

/-- Every executor that the loop made is in use or shut down. -/
def NoneDropped (s : Defaults) : Prop :=
  ∀ n < s.made, s.current = some (.own n) ∨ .own n ∈ s.shut

theorem Sound.shutdownDefault {s : Defaults} (h : s.Sound) : s.shutdownDefault.Sound where
  inUse n hn := by cases hn
  shut n hn := by
    simp only [Defaults.shutdownDefault, List.mem_append, Option.mem_toList] at hn
    obtain hold | hcurrent := hn
    · exact h.shut n hold
    · exact (h.inUse n hcurrent).1

theorem noneDropped_shutdownDefault (s : Defaults) : s.shutdownDefault.NoneDropped ↔ s.NoneDropped := by
  simp [NoneDropped, shutdownDefault, or_comm]

theorem step_sound {s t : Defaults} {a : Act} (h : s.Sound) (hstep : s.step a = some t) : t.Sound := by
  cases a with
  | runInDefault =>
    simp only [step, Option.ite_none_left_eq_some, Bool.not_eq_true] at hstep
    obtain ⟨hopen, hsome⟩ := hstep
    cases hsome
    unfold getDefault
    split
    · exact h
    · constructor
      · intro n hn
        cases hn
        refine ⟨Nat.lt_succ_self _, hopen, fun hshut => ?_⟩
        exact Nat.lt_irrefl _ (h.shut s.made hshut)
      · intro n hn
        exact Nat.lt_succ_of_lt (h.shut n hn)
  | setDefault n =>
    cases hstep
    refine ⟨fun m hm => ?_, h.shut⟩
    cases n <;> cases hm
  | shutdownDefault =>
    cases hstep
    exact h.shutdownDefault
  | close =>
    simp only [step] at hstep
    split at hstep
    · cases hstep
      exact h
    · cases hstep
      exact ⟨nofun, h.shutdownDefault.shut⟩

theorem step_noneDropped {s t : Defaults} {a : Act} (h : s.Sound) (hstep : s.step a = some t) :
    t.NoneDropped ↔ s.NoneDropped ∧ s.drops a = false := by
  cases a with
  | runInDefault =>
    simp only [step, Option.ite_none_left_eq_some] at hstep
    cases hstep.2
    simp only [drops, and_true]
    unfold getDefault
    split
    · exact Iff.rfl
    · rename_i hnone
      simp only [NoneDropped, hnone, Option.some.injEq, Pool.own.injEq, reduceCtorEq, false_or]
      constructor
      · intro hall n hn
        obtain rfl | hshut := hall n (Nat.lt_succ_of_lt hn)
        · exact absurd hn (Nat.lt_irrefl _)
        · exact hshut
      · intro hall n hn
        obtain hlt | rfl := Nat.lt_succ_iff_lt_or_eq.mp hn
        · exact .inr (hall n hlt)
        · exact .inl rfl
  | setDefault n =>
    cases hstep
    have hgiven (m : Nat) : n.map Pool.given ≠ some (.own m) := by cases n <;> simp
    simp only [NoneDropped, hgiven, false_or, drops]
    cases hcurrent : s.current with
    | none => simp
    | some pool =>
      cases pool with
      | given m => simp
      | own m =>
        -- the executor that is dropped has not been shut down
        obtain ⟨hlt, -, hshut⟩ := h.inUse m hcurrent
        simp only [Bool.true_eq_false, and_false, iff_false]
        intro hall
        exact hshut (hall m hlt)
  | shutdownDefault =>
    cases hstep
    simp only [drops, and_true]
    exact noneDropped_shutdownDefault s
  | close =>
    simp only [drops, and_true]
    simp only [step] at hstep
    split at hstep
    · cases hstep
      exact Iff.rfl
    · cases hstep
      exact noneDropped_shutdownDefault s

/-- **The executors of a closed loop.** When the loop has been closed, all executors that it made for
itself are shut down if and only if `set_default_executor` was never called while one of them was in use. -/
theorem all_shutdown_iff {acts : List Act} {s : Defaults} (h : machine.run new acts = some s)
    (hclosed : s.closed = true) :
    (∀ n < s.made, .own n ∈ s.shut) ↔ machine.Meets (fun s a => s.drops a = false) new acts := by
  have hnew : new.Sound := ⟨nofun, nofun⟩
  have hend : s.Sound := by
    apply Machine.run_invariant' (I := Sound) _ hnew h
    intro s a t hs hstep
    exact step_sound hs hstep
  have hrun := Machine.holds_iff_meets (P := NoneDropped) (C := fun s a => s.drops a = false)
    (fun s a t hs hstep => ⟨step_sound hs hstep, step_noneDropped hs hstep⟩) hnew h
  have hnone : new.NoneDropped := fun n hn => absurd hn (Nat.not_lt_zero n)
  rw [and_iff_right hnone] at hrun
  rw [← hrun]
  constructor
  · intro hall n hn
    exact .inr (hall n hn)
  · intro hall n hn
    obtain hcurrent | hshut := hall n hn
    · have hopen := (hend.inUse n hcurrent).2.1
      rw [hclosed] at hopen
      cases hopen
    · exact hshut

/-- Two executors, one after the other. -/
theorem all_shutdown_twice : ∃ s,
    machine.run new [.runInDefault, .shutdownDefault, .runInDefault, .close] = some s ∧ s.closed = true ∧
      s.made = 2 ∧ ∀ n < s.made, .own n ∈ s.shut :=
  ⟨_, rfl, rfl, rfl, (all_shutdown_iff (show machine.run new
    [.runInDefault, .shutdownDefault, .runInDefault, .close] = some _ from rfl) rfl).mpr (by decide)⟩

end Defaults

end Executor

end Uringcore
