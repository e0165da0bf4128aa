import Uringcore.EventLoop.Moves

/-!
# What a transport leaves behind

The entries of a descriptor in the loop's and the core's tables are dropped in one place, the handler
of a ring close's completion. A ring close is submitted by `close` of a transport that has no socket
object, and every transport the loop creates has one. So a connection's entry in `_transports`
stays when the connection is over, until a later connection with the same descriptor writes over it
(`cleaned_iff`).
-/

namespace Uringcore

theorem OpType.asStr_close {op : OpType} (h : op.asStr = "close") : op = .close := by
  cases op <;> first | rfl | exact absurd h (by decide)

namespace EventLoop
variable {K T : Type}

/-- The descriptor of each transport object, and whether a socket object goes with it. -/
def sockets (s : EventLoop K T) : List (Fd × Bool) := s.objs.map fun t => (t.fd, t.hasSock)

/-- Nothing of the loop is under way, and no operation on `fd`. -/
def Processed (s : EventLoop K T) (fd : Fd) : Prop :=
  s.idle = true ∧ ∀ e ∈ s.core.live, e.fd ≠ fd

instance (s : EventLoop K T) (fd : Fd) : Decidable (s.Processed fd) :=
  inferInstanceAs (Decidable (_ ∧ ∀ e ∈ _, _))

/-- No table has an entry for `fd`. -/
structure Clean (s : EventLoop K T) (fd : Fd) : Prop where
  transports : s.transports.lookup fd = none
  ioFutures : ∀ kind, s.ioLookup fd kind = none
  fdStates : s.core.fdStates.states.lookup fd = none
  futures : s.core.futures.lookup fd = none
  inflightRecvBuffers : s.core.inflightRecvBuffers.lookup fd = none

/-! ## What the moves do to it -/

theorem sockets_modify (s : EventLoop K T) (tr : TransportId) {f : Transport → Transport}
    (hfd : ∀ t, (f t).fd = t.fd) (hsock : ∀ t, (f t).hasSock = t.hasSock) :
    (s.modify tr f).sockets = s.sockets := by
  show (s.objs.modify tr f).map _ = s.objs.map _
  apply List.ext_getElem?
  intro i
  rw [List.getElem?_map, List.getElem?_map, List.getElem?_modify]
  cases s.objs[i]? with
  | none => rfl
  | some t => by_cases hi : tr = i <;> simp [hi, hfd, hsock]

theorem sockets_forceClose (s : EventLoop K T) (cause : TransportEvent) (exc : Option Exc)
    (tr : TransportId) : (s.forceClose cause exc tr).sockets = s.sockets ∧
      (s.forceClose cause exc tr).transports = s.transports ∧
      (s.forceClose cause exc tr).results = s.results := by
  unfold forceClose
  split
  · exact ⟨rfl, rfl, rfl⟩
  · split
    · exact ⟨rfl, rfl, rfl⟩
    · exact ⟨sockets_modify s tr (fun _ => rfl) fun _ => rfl, rfl, rfl⟩

section
variable [LE T] [DecidableLE T] {s₀ s t : EventLoop K T} {a : Act K T}

/-- Transports are only ever added, and one with a socket object is entered in the table at once. -/
theorem Move.sockets (h : Move s₀ a s t) : ∃ new, t.sockets = s.sockets ++ new ∧
    ∀ fd, (fd, true) ∈ new → (t.transports.lookup fd).isSome := by
  have hsame (hobjs : t.sockets = s.sockets) : ∃ new, t.sockets = s.sockets ++ new ∧
      ∀ fd, (fd, true) ∈ new → (t.transports.lookup fd).isSome :=
    ⟨[], by rw [hobjs, List.append_nil], by simp⟩
  have hmodify (u : EventLoop K T) (tr : TransportId) (b : Bool) :
      (u.modify tr (.setRecvPending b)).sockets = u.sockets :=
    sockets_modify u tr (fun _ => rfl) fun _ => rfl
  cases h with
  | forced exc hcause => exact hsame (sockets_forceClose s _ _ _).1
  | disarmed tr exc =>
    exact hsame ((sockets_forceClose _ _ _ _).1.trans (hmodify s tr false))
  | closed hcause ht => exact hsame (sockets_modify s _ (fun _ => rfl) fun _ => rfl)
  | flagged tr hf hpaused hsize => exact hsame (sockets_modify s tr hf.fd hf.hasSock)
  | received hruns hbatch => exact hsame (hmodify _ _ false)
  | armed env ht hidle => exact hsame (by rw [submitNew_eq]; exact hmodify s _ true)
  | wrote env ha ht hopen hdata => exact hsame (by rw [submitNew_eq]; rfl)
  | submitted env fd kind? callbacks req hreq hkind hcallbacks hsend =>
    exact hsame (by rw [submitNew_eq]; rfl)
  | made fd creator =>
    refine ⟨[(fd, true)], List.map_append, ?_⟩
    intro fd' hfd
    simp only [List.mem_singleton, Prod.mk.injEq, and_true] at hfd
    subst hfd
    simp [makeConnection, callProtocol]
  | constructed fd => exact ⟨[(fd, false)], List.map_append, by simp⟩
  | cancelled fut huser => exact hsame (by rw [setFuture_eq]; rfl)
  | ioSettled hr hs₀ hsettles hfut => exact hsame (by rw [setFuture_eq]; rfl)
  | drained hticks hmidway hcq => exact hsame (by rw [drainOne_eq]; rfl)
  | _ => exact hsame rfl

/-- Only the handler of a ring close drops an entry of `_transports`. -/
theorem Move.transports (h : Move s₀ a s t) {fd : Fd}
    (hfd : ∀ r, s₀.Handles a r → r.opType = "close" → r.fd ≠ fd)
    (hkept : (s.transports.lookup fd).isSome) : (t.transports.lookup fd).isSome := by
  cases h with
  | forced exc hcause => rwa [(sockets_forceClose s _ _ _).2.1]
  | disarmed tr exc =>
    show (AList.lookup fd (EventLoop.transports (forceClose ..))).isSome
    rwa [(sockets_forceClose _ _ _ _).2.1]
  | armed env ht hidle => rwa [submitNew_eq]
  | wrote env ha ht hopen hdata => rwa [submitNew_eq]
  | submitted env fd kind? callbacks req hreq hkind hcallbacks hsend => rwa [submitNew_eq]
  | made fd' creator =>
    show ((s.transports.insert fd' s.objs.length).lookup fd).isSome
    by_cases heq : fd = fd'
    · subst heq
      simp
    · rwa [AList.lookup_insert_ne heq]
  | closeHandled hr hop =>
    rename_i r
    show ((s.transports.erase r.fd).lookup fd).isSome
    rwa [AList.lookup_erase_ne (hfd r hr hop).symm]
  | cancelled fut huser => rwa [setFuture_eq]
  | ioSettled hr hs₀ hsettles hfut => rwa [setFuture_eq]
  | drained hticks hmidway hcq => rwa [drainOne_eq]
  | _ => exact hkept

/-- The completions Python goes through are those the ring had. -/
theorem Move.results (h : Move s₀ a s t) {r : ResultTuple} (hr : r ∈ t.results) :
    r ∈ s.results ∨ ∃ c ∈ s.core.ring.cq, r.fd = c.sqe.fd ∧ r.opType = c.sqe.op.opType.asStr := by
  cases h with
  | control stack hbatch hresults hruns => exact .inl (hresults.subset hr)
  | unwound hunwinds => cases hr
  | forced exc hcause =>
    rw [(sockets_forceClose s _ _ _).2.2] at hr
    exact .inl hr
  | disarmed tr exc =>
    rw [errorReceived, (sockets_forceClose _ _ _ _).2.2] at hr
    exact .inl hr
  | armed env ht hidle =>
    rw [submitNew_eq] at hr
    exact .inl hr
  | wrote env ha ht hopen hdata =>
    rw [submitNew_eq] at hr
    exact .inl hr
  | submitted env fd kind? callbacks req hreq hkind hcallbacks hsend =>
    rw [submitNew_eq] at hr
    exact .inl hr
  | cancelled fut huser =>
    rw [setFuture_eq] at hr
    exact .inl hr
  | ioSettled hr' hs₀ hsettles hfut =>
    rw [setFuture_eq] at hr
    exact .inl hr
  | drained hticks hmidway hcq =>
    rename_i pre c cs
    rw [drainOne_eq] at hr
    rcases List.mem_append.mp hr with hr | hr
    · exact .inl hr
    · refine .inr ⟨c, by rw [hcq]; exact List.mem_cons_self, ?_⟩
      rcases UringCore.extract_item c.entry s.core with ⟨data, hitem⟩
      rw [List.mem_singleton.mp hr, UringCore.process, hitem, CompletionItem.tuple, Cqe.entry_fd,
        Cqe.entry_opType]
      exact ⟨rfl, rfl⟩
  | _ => exact .inl hr

/-! ## The entry stays -/

/-- Nobody closes `fd` through the ring, and its transports are in the table. -/
structure Unclosed (s : EventLoop K T) (fd : Fd) : Prop where
  live : ∀ e ∈ s.core.live, e.fd = fd → e.op.opType ≠ .close
  results : ∀ r ∈ s.results, r.fd = fd → r.opType ≠ "close"
  kept : (fd, true) ∈ s.sockets → (s.transports.lookup fd).isSome

/-- As long as all transports on `fd` have a socket object, it stays unclosed. -/
theorem Unclosed.move {fd : Fd} (hs : s.CoreSound) (hs₀ : s₀.Unclosed fd)
    (hsock : (fd, false) ∉ s.sockets) (hu : s.Unclosed fd) (h : Move s₀ a s t) : t.Unclosed fd where
  live e he hfd := by
    rcases h.live hs he with he | ⟨-, hclose⟩
    · exact hu.live e he hfd
    · intro hop
      rcases hclose hop with ⟨t', ht', htfd, hnosock⟩
      apply hsock
      exact List.mem_map.mpr ⟨t', ht', by rw [htfd, hfd, hnosock]⟩
  results r hr hfd := by
    rcases h.results hr with hr | ⟨c, hc, hcfd, hop⟩
    · exact hu.results r hr hfd
    · intro hclose
      rw [hop] at hclose
      exact hu.live c.sqe (UringCore.mem_live.mpr (.inr ⟨c, hc, rfl⟩)) (hcfd.symm.trans hfd)
        (OpType.asStr_close hclose)
  kept hmem := by
    rcases h.sockets with ⟨new, hnew, hentered⟩
    rw [hnew] at hmem
    rcases List.mem_append.mp hmem with hmem | hmem
    · refine h.transports ?_ (hu.kept hmem)
      -- the handler of a close has found a completion that no one can have caused
      rintro r ⟨-, rest, hr⟩ hop hfd
      exact hs₀.results r (by rw [hr]; exact List.mem_cons_self) hfd hop
    · exact hentered fd hmem

/-- The invariant of a run. -/
def StaysUnclosed (s : EventLoop K T) (fd : Fd) : Prop :=
  s.CoreSound ∧ ((fd, false) ∉ s.sockets → s.Unclosed fd)

theorem StaysUnclosed.step {fd : Fd} (hs : s.StaysUnclosed fd) (hstep : s.step a = some t) :
    t.StaysUnclosed fd := by
  have hrule := (step_moves hstep).rule (I := fun u => u.StaysUnclosed fd ∧
    ((fd, false) ∉ u.sockets → (fd, false) ∉ s.sockets)) ?_ ⟨hs, id⟩
  · exact hrule.1
  · rintro u v ⟨⟨hu, hunclosed⟩, hmono⟩ hmove
    rcases hmove.sockets with ⟨new, hnew, -⟩
    have hback : (fd, false) ∉ v.sockets → (fd, false) ∉ u.sockets := by
      rw [hnew]
      exact mt (List.mem_append_left _)
    refine ⟨⟨hu.move hmove, fun hv => ?_⟩, fun hv => hmono (hback hv)⟩
    have hu' := hback hv
    exact Unclosed.move hu (hs.2 (hmono hu')) hu' (hunclosed hu') hmove

omit [LE T] [DecidableLE T] in
theorem staysUnclosed_init {setup : Setup} {bufferSize bufferCount : Nat}
    {core : UringCore FutId (Handle K) T}
    (hnew : UringCore.new setup bufferSize bufferCount = .ok core) (fd : Fd) :
    (init core).StaysUnclosed fd := by
  refine ⟨coreSound_init hnew, fun _ => ?_⟩
  rcases UringCore.new_spec hnew with ⟨entries, pool, -, rfl⟩
  exact ⟨by simp [init, UringCore.live, Ring.inFlight, Ring.new], by simp [init],
    by simp [init, EventLoop.sockets]⟩

/-- **Nothing is cleaned up.** When every transport on its descriptor has come with its socket, what
the code promises of a transport, that nothing is left of it once it is closed and everything on its
descriptor is processed, holds for want of the premise only. -/
theorem cleaned_iff {setup : Setup} {bufferSize bufferCount : Nat}
    {core : UringCore FutId (Handle K) T} (hnew : UringCore.new setup bufferSize bufferCount = .ok core)
    {acts : List (Act K T)} {s : EventLoop K T} (hrun : machine.run (init core) acts = some s)
    {tr : TransportId} {t : Transport} (ht : s.objs[tr]? = some t)
    (hsock : ∀ t' ∈ s.objs, t'.fd = t.fd → t'.hasSock = true) :
    (t.closing = true → s.Processed t.fd → s.Clean t.fd) ↔
      ¬ (t.closing = true ∧ s.Processed t.fd) := by
  have hstays : s.StaysUnclosed t.fd :=
    Machine.run_invariant' (M := machine) (I := fun s => s.StaysUnclosed t.fd)
      (fun s a t hs hstep => hs.step hstep) (staysUnclosed_init hnew t.fd) hrun
  have hmem : t ∈ s.objs := List.mem_of_getElem? ht
  have hnone : (t.fd, false) ∉ s.sockets := by
    intro h
    rcases List.mem_map.mp h with ⟨t', ht', heq⟩
    simp only [Prod.mk.injEq] at heq
    rw [hsock t' ht' heq.1] at heq
    cases heq.2
  have hentry : (s.transports.lookup t.fd).isSome := by
    refine (hstays.2 hnone).kept (List.mem_map.mpr ⟨t, hmem, ?_⟩)
    rw [hsock t hmem rfl]
  constructor
  · rintro hclean ⟨hclosing, hprocessed⟩
    rw [(hclean hclosing hprocessed).transports] at hentry
    cases hentry
  · intro hnot hclosing hprocessed
    exact absurd ⟨hclosing, hprocessed⟩ hnot

end

/-- A connection is made, reads nothing and is closed; its receive completes with the EOF. -/
def closedRun : List (Act Unit Nat) :=
  [.call (.createConnection 5) ⟨0, .ok 1⟩, .ret (.value true) ⟨0, .ok 1⟩, .call (.close 0) ⟨0, .ok 1⟩,
    .complete 0 (.data []) false false, .startTick 0 (.ok 0), .runHandle, .handleCompletion]

theorem cleaned_closed :
    ∃ core s t, UringCore.new Setup.plain 16 2 = .ok core ∧
      machine.run (init core) closedRun = some s ∧ s.objs[0]? = some t ∧
      ((t.closing = true → s.Processed t.fd → s.Clean t.fd) ↔
        ¬ (t.closing = true ∧ s.Processed t.fd)) :=
  ⟨_, _, _, rfl, rfl, rfl, cleaned_iff (show UringCore.new Setup.plain 16 2 = .ok _ from rfl)
    (show machine.run _ closedRun = some _ from rfl)
    (show (_ : List Transport)[0]? = some _ from rfl) (by decide)⟩

/-- Everything is over, and two of the tables still know the descriptor. -/
theorem not_clean_closed :
    ∃ core s t, UringCore.new Setup.plain 16 2 = .ok core ∧
      machine.run (init core) closedRun = some s ∧ s.objs[0]? = some t ∧ t.fd = 5 ∧
      t.closing = true ∧ s.Processed 5 ∧ s.transports.lookup 5 = some 0 ∧
      (s.core.fdStates.states.lookup 5).isSome = true :=
  ⟨_, _, _, rfl, rfl, rfl, rfl, rfl, by decide, rfl, rfl⟩

end EventLoop

end Uringcore
