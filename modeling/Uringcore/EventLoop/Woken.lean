import Uringcore.EventLoop.Awaited

/-!
# The task that awaits a future

A `sock_*` call that awaits a future leaves the wakeup of its task among the future's callbacks. When the
future is done they are pushed, and the task goes on when its handle has had its turn. Only a `run_tick`
that unwinds loses handles. Where none does over such a handle, every task whose future is done has been
resumed or is still in the queue (`Woken.step`, `Woken.resumes`).
-/

namespace Uringcore

/-- What wakes the task of a call that awaits a future. -/
def Call.wake? {K : Type} : Call K → Option K
  | .sockRecv _ k | .sockSendall _ _ k | .sockAccept _ k | .sockRecvfrom _ k | .sockSendto _ _ _ k
  | .recvMultishot _ k => some k
  | .write .. | .close _ | .abort _ | .pauseReading _ | .resumeReading _ | .setWriteBufferLimits ..
  | .createConnection _ | .createUnixConnection _ | .newTransport _ | .createServer .. | .closeServer _
  | .sendtoFailed _ | .closeSock _ | .cancel _ => none

namespace EventLoop
variable {K T : Type}

/-- A history of the tasks that await futures. -/
structure Wakes (K : Type) where
  /-- The futures that calls have made, with what wakes the task. -/
  awaits : List (FutId × K)
  /-- The handles of the program that have had their turn. -/
  ran : List K

namespace Wakes

def init : Wakes K := ⟨[], []⟩

/-- The future that a call has made. -/
def made (s : EventLoop K T) (a : Act K T) (t : EventLoop K T) : List (FutId × K) :=
  match a with
  | .call c _ => if s.futs.length < t.futs.length then (c.wake?.map (s.futs.length, ·)).toList else []
  | _ => []

/-- The handle of the program whose turn it is. -/
def turn (s : EventLoop K T) (a : Act K T) : List K :=
  match a, s.batch with
  | .runHandle, .user k :: _ => [k]
  | _, _ => []

def upd (s : EventLoop K T) (a : Act K T) (t : EventLoop K T) (g : Wakes K) : Wakes K :=
  ⟨g.awaits ++ made s a t, g.ran ++ turn s a⟩

end Wakes

/-- A `run_tick` that unwinds loses no handle that wakes a task. -/
def KeepsWakes (x : EventLoop K T × Wakes K) (a : Act K T) : Prop :=
  x.1.Unwinds a → ∀ p ∈ x.2.awaits, .user p.2 ∉ x.1.batch

instance [DecidableEq K] (x : EventLoop K T × Wakes K) (a : Act K T) : Decidable (KeepsWakes x a) :=
  inferInstanceAs (Decidable (_ → _))

/-- The handle is to be pushed when the future is done. -/
def Notifies (s : EventLoop K T) (fut : FutId) (h : Handle K) : Prop :=
  ∃ f, s.futs[fut]? = some f ∧ h ∈ f.callbacks

/-! ## What a step does to the callbacks -/

/-- What happens to the futures and the ready queue at once. -/
inductive Queues (ticks : Prop) (s t : EventLoop K T) : Prop where
  | kept (hfuts : t.futs = s.futs) (hscheduler : s.core.scheduler <+: t.core.scheduler)
  | made (callbacks : List (Handle K)) (hfuts : t.futs = s.futs ++ [⟨.pending, callbacks⟩])
      (hscheduler : t.core.scheduler = s.core.scheduler)
  | settled (fut : FutId) (state : FutState) (hfuts : t.futs = (settle s.futs fut state).1)
      (hscheduler : t.core.scheduler = s.core.scheduler ++ (settle s.futs fut state).2)
  | batched (hticks : ticks) (hfuts : t.futs = s.futs) (hbatch : t.batch = s.core.scheduler)

theorem Queues.of_setFuture {ticks : Prop} {s u : EventLoop K T} (fut : FutId) (state : FutState)
    (hfuts : u.futs = s.futs) (hscheduler : u.core.scheduler = s.core.scheduler) :
    Queues ticks s (u.setFuture fut state) := by
  rw [setFuture_eq]
  apply Queues.settled fut state
  · rw [hfuts]
  · rw [hfuts, hscheduler]

theorem Queues.of_forceClose {ticks : Prop} {s u : EventLoop K T} (cause : TransportEvent) (exc : Option Exc)
    (tr : TransportId) (hfuts : u.futs = s.futs) (hscheduler : u.core.scheduler = s.core.scheduler) :
    Queues ticks s (u.forceClose cause exc tr) := by
  cases ht : u.objs[tr]? with
  | none =>
    rw [forceClose_none ht]
    exact .kept hfuts (hscheduler ▸ List.prefix_rfl)
  | some t =>
    cases hclosed : t.closed with
    | true =>
      rw [forceClose_closed ht hclosed]
      exact .kept hfuts (hscheduler ▸ List.prefix_rfl)
    | false =>
      rw [forceClose_open ht hclosed]
      exact .kept hfuts (hscheduler ▸ List.prefix_append _ _)

section
variable [LE T] [DecidableLE T] {s₀ s t : EventLoop K T} {a : Act K T}

theorem Move.queues (hs : s.CoreSound) (h : Move s₀ a s t) : Queues (s₀.Ticks a) s t := by
  have hstep {u : EventLoop K T} (act : UringCore.Act FutId (Handle K) T) (hact : act.isTick = false)
      (hcore : UringCore.machine.step s.core act = some u.core) (hfuts : u.futs = s.futs) :
      Queues (s₀.Ticks a) s u :=
    .kept hfuts ((UringCore.queues_step hs.sound hact hcore).1 ▸ List.prefix_rfl)
  have hnew (env : Env) {u : EventLoop K T} {fd : Fd} {kind? : Option IoKind}
      {callbacks : FutId → List (Handle K)} {req : FutId → Request FutId} (hfuts : u.futs = s.futs)
      (hcore : u.core = s.core) : Queues (s₀.Ticks a) s (u.submitNew env fd kind? callbacks req).1 := by
    rw [submitNew_eq]
    refine .made (callbacks s.futs.length) (by rw [hfuts]) ?_
    rw [hcore, hfuts]
    exact scheduler_request hs env fd (req s.futs.length)
  cases h with
  | control stack hbatch hresults hruns => exact .kept rfl List.prefix_rfl
  | unwound hunwinds => exact .kept rfl List.prefix_rfl
  | lost hbatch ha => exact .kept rfl List.prefix_rfl
  | forced exc hcause => exact .of_forceClose _ _ _ rfl rfl
  | closed hcause ht => exact .kept rfl List.prefix_rfl
  | flagged tr hf hpaused hsize => exact .kept rfl List.prefix_rfl
  | received hruns hbatch => exact .kept rfl List.prefix_rfl
  | data hruns ht hopen => exact .kept rfl List.prefix_rfl
  | eof handler h => exact .kept rfl List.prefix_rfl
  | flow frame he haccounts => exact .kept rfl List.prefix_rfl
  | made fd creator hmakes => exact .kept rfl List.prefix_rfl
  | constructed fd => exact .kept rfl List.prefix_rfl
  | armed env ht hidle => exact hnew env rfl rfl
  | disarmed tr exc => exact .of_forceClose _ _ _ rfl rfl
  | wrote env ha ht hopen hdata => exact hnew env rfl rfl
  | submitted env fd kind? callbacks req hreq hkind hcallbacks hsend => exact hnew env rfl rfl
  | closeSubmitted env ht hsock => exact hstep (.request env.now env.enter _ .close) rfl rfl rfl
  | cancelled fut huser => exact .of_setFuture _ _ rfl rfl
  | ioSettled hr hs₀ hsettles hfut => exact .of_setFuture _ _ rfl rfl
  | ioPopped fd => exact .kept rfl List.prefix_rfl
  | closeHandled hr hop => exact hstep (.unregisterFd _) rfl rfl rfl
  | servers servers => exact .kept rfl List.prefix_rfl
  | registered fd socketType => exact hstep (.registerFd fd socketType) rfl rfl rfl
  | unregistered fd => exact hstep (.unregisterFd fd) rfl rfl rfl
  | paused fd => exact hstep (.pauseReading fd) rfl rfl rfl
  | resumed fd => exact hstep (.resumeReading fd) rfl rfl rfl
  | pushed k => exact .kept rfl (List.prefix_append _ _)
  | consumed n => exact hstep (.consume n) rfl rfl rfl
  | completed ha h => exact hstep (.complete _ _ _ _) rfl h rfl
  | flushed clock enter =>
    refine .kept rfl ?_
    show s.core.scheduler <+: (s.core.timers.popExpired clock).2.foldl _ s.core.scheduler
    rw [hs.timers]
    exact List.prefix_rfl
  | drained hticks hmidway hcq =>
    unfold drainOne
    dsimp only
    have hscheduler (c : Cqe) (cs : List Cqe) :
        (s.core.processNext c cs).scheduler = s.core.scheduler := by
      rw [UringCore.processNext_eq]
    split
    · exact .of_setFuture _ _ rfl (hscheduler _ _)
    · exact .kept rfl (hscheduler _ _ ▸ List.prefix_rfl)
  | batched hticks hbatch => exact .batched hticks rfl rfl

end

section
variable {ticks : Prop} {s t : EventLoop K T}

/-- A future that is done has no callbacks any more. -/
def DoneQuiet (s : EventLoop K T) : Prop := ∀ f ∈ s.futs, f.callbacks ≠ [] → f.state = .pending

theorem Queues.doneQuiet (h : Queues ticks s t) (hs : s.DoneQuiet) : t.DoneQuiet := by
  unfold DoneQuiet
  cases h with
  | kept hfuts hscheduler => rwa [hfuts]
  | made callbacks hfuts hscheduler =>
    rw [hfuts]
    intro f hf hcallbacks
    obtain hold | hnew := List.mem_append.mp hf
    · exact hs f hold hcallbacks
    · rw [List.mem_singleton.mp hnew]
  | settled fut state hfuts hscheduler =>
    rw [hfuts]
    unfold settle
    split
    · intro f hf hcallbacks
      obtain hold | rfl := List.mem_or_eq_of_mem_set hf
      · exact hs f hold hcallbacks
      · exact absurd rfl hcallbacks
    · exact hs
  | batched hticks hfuts hbatch => rwa [hfuts]

/-- A callback stays where it is, or is pushed, or goes into the batch of a tick. -/
theorem Queues.due (h : Queues ticks s t) {fut : FutId} {x : Handle K}
    (hdue : s.Notifies fut x ∨ x ∈ s.core.scheduler) :
    t.Notifies fut x ∨ x ∈ t.core.scheduler ∨ ticks ∧ x ∈ t.batch := by
  unfold Notifies at hdue ⊢
  cases h with
  | kept hfuts hscheduler =>
    rw [hfuts]
    exact hdue.imp_right fun hx => .inl (hscheduler.subset hx)
  | made callbacks hfuts hscheduler =>
    rw [hfuts, hscheduler]
    obtain ⟨f, hf, hx⟩ | hx := hdue
    · exact .inl ⟨f, History.getElem?_append_of_some hf _, hx⟩
    · exact .inr (.inl hx)
  | settled fut' state hfuts hscheduler =>
    rw [hfuts, hscheduler, List.mem_append]
    obtain ⟨f, hf, hx⟩ | hx := hdue
    · unfold settle
      split
      · rename_i callbacks hfut'
        by_cases heq : fut' = fut
        · subst heq
          cases hf.symm.trans hfut'
          exact .inr (.inl (.inr hx))
        · exact .inl ⟨f, (List.getElem?_set_ne heq).trans hf, hx⟩
      · exact .inl ⟨f, hf, hx⟩
    · exact .inr (.inl (.inl hx))
  | batched hticks hfuts hbatch =>
    rw [hfuts, hbatch]
    exact hdue.imp_right fun hx => .inr ⟨hticks, hx⟩

end

section
variable [LE T] [DecidableLE T] {s t : EventLoop K T} {a : Act K T} {fut : FutId} {x : Handle K}

/-- A step that does not tick. -/
theorem step_kept (hs : s.CoreSound) (hstep : s.step a = some t) (hticks : ¬ s.Ticks a)
    (hdue : s.Notifies fut x ∨ x ∈ s.core.scheduler) : t.Notifies fut x ∨ x ∈ t.core.scheduler := by
  refine ((step_moves hstep).rule
    (I := fun u => u.CoreSound ∧ (u.Notifies fut x ∨ x ∈ u.core.scheduler)) ?_ ⟨hs, hdue⟩).2
  intro u v hu hmove
  refine ⟨hu.1.move hmove, ?_⟩
  obtain hnotifies | hscheduler | ⟨hticks', -⟩ := (hmove.queues hu.1).due hu.2
  · exact .inl hnotifies
  · exact .inr hscheduler
  · exact absurd hticks' hticks

/-- A step that takes no handle from the batch. -/
theorem step_queued (hs : s.CoreSound) (hstep : s.step a = some t) (hrun : a ≠ .runHandle)
    (hunwinds : ¬ s.Unwinds a) (hdue : s.Notifies fut x ∨ x ∈ s.queued) :
    t.Notifies fut x ∨ x ∈ t.queued := by
  refine ((step_moves hstep).rule
    (I := fun u => u.CoreSound ∧ (u.Notifies fut x ∨ x ∈ u.queued)) ?_ ⟨hs, hdue⟩).2
  intro u v hu hmove
  refine ⟨hu.1.move hmove, ?_⟩
  have hqueue (hdue : u.Notifies fut x ∨ x ∈ u.core.scheduler) : v.Notifies fut x ∨ x ∈ v.queued := by
    obtain hnotifies | hscheduler | ⟨-, hbatch⟩ := (hmove.queues hu.1).due hdue
    · exact .inl hnotifies
    · exact .inr (List.mem_append_left _ hscheduler)
    · exact .inr (List.mem_append_right _ hbatch)
  obtain hnotifies | hqueued := hu.2
  · exact hqueue (.inl hnotifies)
  · obtain hscheduler | hbatch := List.mem_append.mp hqueued
    · exact hqueue (.inr hscheduler)
    · obtain hsame | ⟨-, hempty⟩ := hmove.batch_cases hrun hunwinds
      · exact .inr (List.mem_append_right _ (hsame ▸ hbatch))
      · rw [hempty] at hbatch
        cases hbatch

end

/-! ## Runs -/

/-- Who awaits a future that is done has been resumed, or its handle is in the queue. -/
structure Woken (s : EventLoop K T) (g : Wakes K) : Prop where
  quiet : s.DoneQuiet
  woken : ∀ p ∈ g.awaits, s.Notifies p.1 (.user p.2) ∨ .user p.2 ∈ s.queued ∨ p.2 ∈ g.ran

/-- Seen from outside. -/
def TasksResumed (s : EventLoop K T) (g : Wakes K) : Prop :=
  ∀ p ∈ g.awaits, ¬ s.Waits p.1 → .user p.2 ∈ s.queued ∨ p.2 ∈ g.ran

theorem Woken.resumes {s : EventLoop K T} {g : Wakes K} (h : s.Woken g) : s.TasksResumed g := by
  intro p hp hdone
  obtain ⟨f, hf, hmem⟩ | hwoken := h.woken p hp
  · have hpending := h.quiet f (List.mem_of_getElem? hf) (List.ne_nil_of_mem hmem)
    exact absurd (by rw [Waits, hf, Option.map_some, hpending]) hdone
  · exact hwoken

theorem futs_sockOp (env : Env) (socketType : Option String) (kind : IoKind) (k : K)
    (req : FutId → Request FutId) (fd : Fd) (s : EventLoop K T) :
    (s.sockOp env socketType kind k req fd).1.futs = s.futs ++ [⟨.pending, [.user k]⟩] := by
  cases socketType <;> rfl

/-- A call that awaits makes one future at most, and that wakes its task. -/
theorem call_wakes {c : Call K} {k : K} (hwake : c.wake? = some k) (env : Env) (s : EventLoop K T) :
    (s.call env c).futs = s.futs ∨ (s.call env c).futs = s.futs ++ [⟨.pending, [.user k]⟩] := by
  cases c with
  | sockRecv fd k' | sockAccept fd k' | sockRecvfrom fd k' | recvMultishot fd k' =>
    cases hwake
    exact .inr rfl
  | sockSendall fd data k' =>
    cases hwake
    show (s.sockSendall env data k fd).futs = _ ∨ (s.sockSendall env data k fd).futs = _
    unfold sockSendall
    split
    · exact .inl rfl
    · exact .inr rfl
  | sockSendto fd data addr k' =>
    cases hwake
    have hfuts := futs_sockOp env none .sendmsg k (.sendto data addr) fd s
    refine .inr ?_
    show (s.sockSendto env data addr k fd).futs = _
    unfold sockSendto
    split
    · rename_i hcall
      rwa [hcall] at hfuts
    · rename_i hcall
      rw [hcall] at hfuts
      exact hfuts
  | _ => cases hwake

section
variable [LE T] [DecidableLE T] {s t : EventLoop K T} {a : Act K T} {g : Wakes K}

/-- The future of a new pair wakes its task. -/
theorem notifies_made (hstep : s.step a = some t) {p : FutId × K} (hp : p ∈ Wakes.made s a t) :
    t.Notifies p.1 (.user p.2) := by
  unfold Wakes.made at hp
  split at hp
  · rename_i c env
    obtain ⟨-, rfl⟩ := step_call.mp hstep
    split at hp
    · rename_i hlt
      obtain ⟨k, hwake, rfl⟩ := Option.map_eq_some_iff.mp (Option.mem_toList.mp hp)
      obtain hsame | hnew := call_wakes hwake env s
      · rw [hsame] at hlt
        exact absurd hlt (Nat.lt_irrefl _)
      · exact ⟨_, by rw [hnew, List.getElem?_concat_length], List.mem_singleton_self _⟩
    · cases hp
  · cases hp

/-- What becomes of one waiting task. -/
theorem woken_step (hs : s.CoreSound) (hstep : s.step a = some t) (hkeeps : KeepsWakes (s, g) a)
    {p : FutId × K} (hp : p ∈ g.awaits)
    (hdue : s.Notifies p.1 (.user p.2) ∨ .user p.2 ∈ s.queued) :
    t.Notifies p.1 (.user p.2) ∨ .user p.2 ∈ t.queued ∨ p.2 ∈ Wakes.turn s a := by
  by_cases hrun : a = .runHandle
  · subst hrun
    have hticks : ¬ s.Ticks (.runHandle : Act K T) := fun hticks => by
      obtain ⟨clock, enter, ha, -⟩ := hticks
      cases ha
    obtain ⟨handle, rest, hstack, hbatch, ht⟩ := step_runHandle.mp hstep
    have hrest : t.batch = rest := by rw [← ht, execute_batch]
    have hqueue (hdue : s.Notifies p.1 (.user p.2) ∨ .user p.2 ∈ s.core.scheduler) :
        t.Notifies p.1 (.user p.2) ∨ .user p.2 ∈ t.queued :=
      (step_kept hs hstep hticks hdue).imp_right (List.mem_append_left _)
    obtain hnotifies | hqueued := hdue
    · exact (hqueue (.inl hnotifies)).imp_right .inl
    · obtain hscheduler | hmem := List.mem_append.mp hqueued
      · exact (hqueue (.inr hscheduler)).imp_right .inl
      · rw [hbatch, List.mem_cons] at hmem
        obtain rfl | hmem := hmem
        · refine .inr (.inr ?_)
          unfold Wakes.turn
          rw [hbatch]
          exact List.mem_singleton_self _
        · exact .inr (.inl (List.mem_append_right _ (hrest ▸ hmem)))
  · by_cases hunwinds : s.Unwinds a
    · have hticks : ¬ s.Ticks a := fun hticks => by
        obtain ⟨clock, enter, rfl, -⟩ := hticks
        exact hunwinds
      have hscheduler : s.Notifies p.1 (.user p.2) ∨ .user p.2 ∈ s.core.scheduler := by
        refine hdue.imp_right fun hqueued => ?_
        exact (List.mem_append.mp hqueued).resolve_right (hkeeps hunwinds p hp)
      exact (step_kept hs hstep hticks hscheduler).imp_right fun h => .inl (List.mem_append_left _ h)
    · exact (step_queued hs hstep hrun hunwinds hdue).imp_right .inl

theorem Woken.step (h : s.Woken g) (hs : s.CoreSound) (hstep : s.step a = some t)
    (hkeeps : KeepsWakes (s, g) a) : t.Woken (Wakes.upd s a t g) := by
  constructor
  · refine ((step_moves hstep).rule (I := fun u => u.CoreSound ∧ u.DoneQuiet) ?_ ⟨hs, h.quiet⟩).2
    intro u v hu hmove
    exact ⟨hu.1.move hmove, (hmove.queues hu.1).doneQuiet hu.2⟩
  · intro p hp
    obtain hold | hnew := List.mem_append.mp hp
    · have hran : p.2 ∈ (Wakes.upd s a t g).ran ↔ p.2 ∈ g.ran ∨ p.2 ∈ Wakes.turn s a := List.mem_append
      rw [hran]
      obtain hnotifies | hqueued | hdone := h.woken p hold
      · exact (woken_step hs hstep hkeeps hold (.inl hnotifies)).imp_right (.imp_right .inr)
      · exact (woken_step hs hstep hkeeps hold (.inr hqueued)).imp_right (.imp_right .inr)
      · exact .inr (.inr (.inl hdone))
    · exact .inl (notifies_made hstep hnew)

omit [LE T] [DecidableLE T] in
theorem Woken.init (core : UringCore FutId (Handle K) T) : (init core).Woken Wakes.init :=
  ⟨nofun, nofun⟩

end

end EventLoop

end Uringcore
