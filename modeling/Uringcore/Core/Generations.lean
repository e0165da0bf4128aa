import Uringcore.Core.Drain

/-!
# Completions of another generation

A completion comes back with the generation its submission was made under. A completion that is not of
the ring's generation is *stale* and is to be dropped: a batch is to be processed as if it had only
its `current` completions.

Neither processor reads the generation. Of a completion they read the descriptor, the operation, the
result and the buffer (`CompletionEntry.read`), and two batches that agree in those are processed
alike, whatever their generations. As every completion processed leaves a tuple, a batch with a stale
one is never processed as if it were absent.
-/

namespace Uringcore

namespace CompletionEntry

/-- What the processors read of a completion. -/
def read (c : CompletionEntry) : Fd × OpType × Int × Option UInt16 :=
  (c.fd, c.opType, c.result, c.bufferIndex)

/-- The completion as it would be under another generation. -/
def withGeneration (c : CompletionEntry) (generation : UInt16) : CompletionEntry :=
  { c with userData := encodeUserData c.fd c.opType generation }

@[simp] theorem read_withGeneration (c : CompletionEntry) (generation : UInt16) :
    (c.withGeneration generation).read = c.read := by
  have hfd : (c.withGeneration generation).fd = c.fd := UserData.fd_encode ..
  have hop : (c.withGeneration generation).opType = c.opType := UserData.opType_encode ..
  rw [read, hfd, hop]
  rfl

@[simp] theorem generation_withGeneration (c : CompletionEntry) (generation : UInt16) :
    (c.withGeneration generation).generation = generation :=
  UserData.generation_encode ..

end CompletionEntry

namespace UringCore
variable {F H T : Type}

/-- The completions of the ring's generation. -/
def current (core : UringCore F H T) (cqes : List CompletionEntry) : List CompletionEntry :=
  cqes.filter fun c => c.generation = core.ring.generationU16

/-- No completion is of another generation. -/
def NoneStale (core : UringCore F H T) (cqes : List CompletionEntry) : Prop :=
  ∀ c ∈ cqes, c.generation = core.ring.generationU16

/-- `run_tick` from the completions it has drained to the execution of the batch of handles. -/
def tickBatch {Ω : Type} (settle : Ω → F → Outcome → Ω × List H) (cqes : List CompletionEntry)
    (ω : Ω) (core : UringCore F H T) : UringCore F H T × Ω × TickOutput F H :=
  let r := processCompletions cqes core
  let settled := settleAll settle r.2 ω r.1.scheduler
  let ready := settled.2.drain
  ({ r.1 with scheduler := ready.1 }, settled.1, ⟨r.2, ready.2, r.2.map (·.1.tuple)⟩)

/-- A tick whose flush succeeds is `tickBatch` on what the ring has drained. -/
theorem runTick_eq_tickBatch [LE T] [DecidableLE T] {Ω : Type}
    (settle : Ω → F → Outcome → Ω × List H) (clock : T) {enter : Except String Nat} (ω : Ω)
    {core : UringCore F H T} {ring : Ring} {n : Nat}
    (hsubmit : (core.expireTimers clock).ring.submit enter = (ring, .ok n)) :
    core.runTick settle clock enter ω =
      let drained := ring.drainCompletions
      let r := tickBatch settle drained.2 ω { core.expireTimers clock with ring := drained.1 }
      (r.1, r.2.1, .ok r.2.2) := by
  rw [runTick]
  simp only [hsubmit]
  rfl

/-! ## The generation is not read -/

section
variable {c c' : CompletionEntry} {cqes cqes' : List CompletionEntry}

/-- What is read agrees, one by one. -/
theorem read_eq_iff : c.read = c'.read ↔ c.fd = c'.fd ∧ c.opType = c'.opType ∧
    c.result = c'.result ∧ c.bufferIndex = c'.bufferIndex := by
  simp [CompletionEntry.read]

theorem takeRecvMsgState_congr (h : c.read = c'.read) (core : UringCore F H T) :
    core.takeRecvMsgState c = core.takeRecvMsgState c' := by
  obtain ⟨hfd, -, hresult, -⟩ := read_eq_iff.mp h
  unfold takeRecvMsgState
  rw [hfd, hresult]

theorem extractRecv_congr (h : c.read = c'.read) (core : UringCore F H T) :
    core.extractRecv c = core.extractRecv c' := by
  obtain ⟨hfd, hop, hresult, -⟩ := read_eq_iff.mp h
  unfold extractRecv
  simp only [takeRecvMsgState_congr h]
  rw [hfd, hop, hresult]

theorem extract_congr (h : c.read = c'.read) (core : UringCore F H T) :
    core.extract c = core.extract c' := by
  obtain ⟨hfd, hop, hresult, hbuf⟩ := read_eq_iff.mp h
  unfold extract
  rw [hop, extractRecv_congr h, hfd, hresult, hbuf]

theorem process_congr (h : c.read = c'.read) (core : UringCore F H T) :
    core.process c = core.process c' := by
  have hfd : c.fd = c'.fd := congrArg Prod.fst h
  rw [process, process, extract_congr h, hfd]

theorem drainOne_congr (h : c.read = c'.read) (core : UringCore F H T) :
    core.drainOne c = core.drainOne c' := by
  obtain ⟨hfd, hop, hresult, hbuf⟩ := read_eq_iff.mp h
  unfold drainOne sliceOf
  rw [hfd, hop, hresult, hbuf]

theorem processAll_congr (h : cqes.map (·.read) = cqes'.map (·.read)) (core : UringCore F H T) :
    core.processAll cqes = core.processAll cqes' := by
  induction cqes generalizing cqes' core with
  | nil =>
    cases cqes' with
    | nil => rfl
    | cons c' cqes' => cases h
  | cons c cqes ih =>
    cases cqes' with
    | nil => cases h
    | cons c' cqes' =>
      obtain ⟨hread, htail⟩ := List.cons.inj h
      rw [processAll, processAll, process_congr hread, ih htail]

theorem drainAll_congr (h : cqes.map (·.read) = cqes'.map (·.read)) (core : UringCore F H T) :
    core.drainAll cqes = core.drainAll cqes' := by
  induction cqes generalizing cqes' core with
  | nil =>
    cases cqes' with
    | nil => rfl
    | cons c' cqes' => cases h
  | cons c cqes ih =>
    cases cqes' with
    | nil => cases h
    | cons c' cqes' =>
      obtain ⟨hread, htail⟩ := List.cons.inj h
      rw [drainAll, drainAll, drainOne_congr hread, ih htail]

/-- **Whatever the generations.** A batch is processed alike when every completion has another
generation. -/
theorem batch_regenerated {Ω : Type} (settle : Ω → F → Outcome → Ω × List H) (ω : Ω)
    (cqes : List CompletionEntry) (generation : CompletionEntry → UInt16) (core : UringCore F H T) :
    core.tickBatch settle (cqes.map fun c => c.withGeneration (generation c)) ω =
        core.tickBatch settle cqes ω ∧
      core.drainBatch (cqes.map fun c => c.withGeneration (generation c)) =
        core.drainBatch cqes := by
  have hread : (cqes.map fun c => c.withGeneration (generation c)).map (·.read) =
      cqes.map (·.read) := by
    rw [List.map_map]
    exact List.map_congr_left fun c _ => c.read_withGeneration (generation c)
  constructor
  · rw [tickBatch, tickBatch, processCompletions_eq, processCompletions_eq, processAll_congr hread]
  · rw [drainBatch, drainBatch, drainAll_congr hread]

/-! ## One tuple for each -/

theorem processAll_length (cqes : List CompletionEntry) (core : UringCore F H T) :
    (core.processAll cqes).2.length = cqes.length := by
  induction cqes generalizing core with
  | nil => rfl
  | cons c cqes ih => rw [processAll, List.length_cons, List.length_cons, ih]

theorem tickBatch_length {Ω : Type} (settle : Ω → F → Outcome → Ω × List H)
    (cqes : List CompletionEntry) (ω : Ω) (core : UringCore F H T) :
    (core.tickBatch settle cqes ω).2.2.results.length = cqes.length := by
  show (List.map _ (processCompletions cqes core).2).length = _
  rw [List.length_map, processCompletions_eq, processAll_length]

theorem drainBatch_length (cqes : List CompletionEntry) (core : UringCore F H T) :
    (core.drainBatch cqes).2.length = cqes.length := by
  show (core.drainAll cqes).2.1.length = _
  induction cqes generalizing core with
  | nil => rfl
  | cons c cqes ih => rw [drainAll, List.length_cons, List.length_cons, ih]

/-! ## Dropping the stale ones -/

/-- A tick goes as if the stale completions were absent: the same core, the same futures resolved in
the same world, the same tuples. -/
def TickDropsStale {Ω : Type} (settle : Ω → F → Outcome → Ω × List H) (cqes : List CompletionEntry)
    (ω : Ω) (core : UringCore F H T) : Prop :=
  core.tickBatch settle cqes ω = core.tickBatch settle (core.current cqes) ω

def DrainDropsStale (cqes : List CompletionEntry) (core : UringCore F H T) : Prop :=
  core.drainBatch cqes = core.drainBatch (core.current cqes)

theorem current_length_iff (core : UringCore F H T) :
    (core.current cqes).length = cqes.length ↔ core.NoneStale cqes := by
  rw [current, List.length_filter_eq_length_iff]
  simp [NoneStale]

theorem NoneStale.current_eq {core : UringCore F H T} (h : core.NoneStale cqes) :
    core.current cqes = cqes :=
  List.filter_eq_self.mpr fun c hc => decide_eq_true (h c hc)

/-- What would have been dropped has left its tuple. -/
theorem TickDropsStale.noneStale {Ω : Type} {settle : Ω → F → Outcome → Ω × List H} {ω : Ω}
    {core : UringCore F H T} (h : core.TickDropsStale settle cqes ω) : core.NoneStale cqes := by
  have hlength := congrArg (fun r => r.2.2.results.length) h
  simp only [tickBatch_length] at hlength
  exact core.current_length_iff.mp hlength.symm

theorem DrainDropsStale.noneStale {core : UringCore F H T} (h : core.DrainDropsStale cqes) :
    core.NoneStale cqes := by
  have hlength := congrArg (fun r => r.2.length) h
  simp only [drainBatch_length] at hlength
  exact core.current_length_iff.mp hlength.symm

/-- **The generation check.** Each processor drops the stale completions of a batch if and only if
there are none. -/
theorem dropsStale_iff {Ω : Type} (settle : Ω → F → Outcome → Ω × List H)
    (cqes : List CompletionEntry) (ω : Ω) (core : UringCore F H T) :
    (core.TickDropsStale settle cqes ω ↔ core.NoneStale cqes) ∧
      (core.DrainDropsStale cqes ↔ core.NoneStale cqes) := by
  refine ⟨⟨TickDropsStale.noneStale, fun h => ?_⟩, DrainDropsStale.noneStale, fun h => ?_⟩
  · rw [TickDropsStale, h.current_eq]
  · rw [DrainDropsStale, h.current_eq]

end

/-- An end of file for a receive on 5 that was submitted under generation 2. -/
def staleEof : CompletionEntry :=
  { userData := encodeUserData 5 .recv 2, result := 0, flags := 0, bufferIndex := none }

/-- A ring of generation 1 with a receive of its own on 5: the stale completion takes that receive's
buffer and future, and leaves a tuple. -/
theorem stale_resolves :
    ∃ core s : UringCore Nat Nat Nat, UringCore.new Setup.plain 16 2 = .ok core ∧
      s = ((core.registerFd 5 "tcp").submitRecv 0 (.ok 1) 5 7).1 ∧
      s.ring.generationU16 = 1 ∧ staleEof.generation = 2 ∧
      s.inflightRecvBuffers.lookup 5 = some 0 ∧ s.futures.lookup 5 = some 7 ∧
      (tickBatch (fun ω _ _ => (ω, [])) [staleEof] () s).1.inflightRecvBuffers.lookup 5 = none ∧
      (tickBatch (fun ω _ _ => (ω, [])) [staleEof] () s).2.2.resolved.map Prod.snd = [some 7] ∧
      ¬ s.TickDropsStale (fun ω _ _ => (ω, [])) [staleEof] () ∧
      ¬ s.DrainDropsStale [staleEof] := by
  have hstale (core : UringCore Nat Nat Nat) (h : core.ring.generationU16 = 1) :
      ¬ core.NoneStale [staleEof] := by
    intro hnone
    have hsame := hnone staleEof (List.mem_singleton.mpr rfl)
    rw [h] at hsame
    cases hsame
  exact ⟨_, _, rfl, rfl, rfl, rfl, rfl, rfl, rfl, rfl, fun h => hstale _ rfl h.noneStale,
    fun h => hstale _ rfl h.noneStale⟩

end UringCore

end Uringcore
