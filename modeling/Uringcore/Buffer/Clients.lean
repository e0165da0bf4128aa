import Mathlib.Data.List.Nodup
import Uringcore.Buffer
import Uringcore.Lib.Machine
import Uringcore.Lib.Threads

/-!
# The pool and its clients

The pool has no lock: `acquire` and `release` are made of single operations on the two queues and on
the generation, and those of several threads come in any order. `Pc` says at which of them a thread
is. What clients hold is no part of the pool; the machine keeps it to say what clients may do: give
back an index only while they hold it, and once. The generation they name may be any.

An index is in one place at a time: in the free list, with a client or with a call, or lost, since
`release` drops it when its generation is stale (`Conserves`). The quarantine stays empty, so the
loop of `reclaim_quarantined` never finds anything.
-/

namespace Uringcore.BufferPool

/-- The next operation of a thread. -/
inductive Pc where
  | idle
  /-- The head of the loop of `reclaim_quarantined`, which read the clock once. -/
  | reclaim (now : Nat)
  | reclaimPush (now : Nat) (index : UInt16)
  /-- An entry that is not ready goes back, and the loop ends. -/
  | putBack (entry : QuarantineEntry)
  | pop
  | checkGeneration (index : UInt16) (generationId : UInt64)
  | push (index : UInt16)
  deriving DecidableEq, Repr

/-- The pool, with the indices that clients hold and those that `release` dropped. -/
structure Shared where
  pool : BufferPool
  held : List UInt16
  dropped : List UInt16

namespace Pc

/-- One operation. -/
def next (_ : Nat) (pc : Pc) (s : Shared) : Option (Shared × Pc) :=
  match pc with
  | idle => none
  | reclaim now => match s.pool.quarantine with
      | [] => some (s, pop)
      | e :: rest =>
          some ({ s with pool := { s.pool with quarantine := rest } },
            if quarantineDuration ≤ now - e.releaseTime then reclaimPush now e.index
            else putBack e)
  | reclaimPush now index =>
      some ({ s with pool := { s.pool with freeList := s.pool.freeList ++ [index] } }, reclaim now)
  | putBack e =>
      some ({ s with pool := { s.pool with quarantine := s.pool.quarantine ++ [e] } }, pop)
  | pop => match s.pool.freeList with
      | [] => some (s, idle)
      | i :: rest =>
          some ({ s with pool := { s.pool with freeList := rest }, held := s.held ++ [i] }, idle)
  | checkGeneration index generationId =>
      if generationId ≠ s.pool.generationId then
        some ({ s with dropped := s.dropped ++ [index] }, idle)
      else some (s, push index)
  | push index =>
      some ({ s with pool := { s.pool with freeList := s.pool.freeList ++ [index] } }, idle)

/-- The index a call has in its hands. -/
def hands : Pc → List UInt16
  | reclaimPush _ index => [index]
  | putBack e => [e.index]
  | checkGeneration index _ => [index]
  | push index => [index]
  | idle | reclaim _ | pop => []

/-- In the body of the loop of `reclaim_quarantined`. -/
def reclaims : Pc → Bool
  | reclaimPush .. | putBack _ => true
  | _ => false

end Pc

/-- A thread begins a call or goes on with the one it is in. -/
inductive Act where
  | acquire (i : Nat) (now : Nat)
  | release (i : Nat) (index : UInt16) (generationId : UInt64)
  | incrementGeneration
  | advance (i : Nat)

def step (s : Threads Shared Pc) : Act → Option (Threads Shared Pc)
  | .acquire i now =>
      if s.locals[i]? = some .idle then some { s with locals := s.locals.set i (.reclaim now) }
      else none
  | .release i index generationId =>
      if s.locals[i]? = some .idle ∧ index ∈ s.shared.held then
        some ⟨{ s.shared with held := s.shared.held.erase index },
          s.locals.set i (.checkGeneration index generationId)⟩
      else none
  | .incrementGeneration =>
      some { s with shared := { s.shared with pool := s.shared.pool.incrementGeneration.1 } }
  | .advance i => s.advance Pc.next i

def machine : Machine (Threads Shared Pc) Act := ⟨step⟩

/-- A new pool that nobody has used, and `n` threads. -/
def start (pool : BufferPool) (n : Nat) : Threads Shared Pc := ⟨⟨pool, [], []⟩, List.replicate n .idle⟩

/-- What clients hold, an index being given back included until the call has done with it. -/
def heldIndices (s : Threads Shared Pc) : List UInt16 := s.shared.held ++ s.locals.flatMap Pc.hands

def indices (bufferCount : Nat) : List UInt16 := (List.range bufferCount).map UInt16.ofNat

/-- Where every index is. -/
structure Conserves (bufferCount : Nat) (s : Threads Shared Pc) : Prop where
  count : s.shared.pool.bufferCount = bufferCount
  quarantine : s.shared.pool.quarantine = []
  loop : s.Asserts fun _ pc _ => pc.reclaims = false
  perm : (s.shared.pool.freeList ++ heldIndices s ++ s.shared.dropped).Perm (indices bufferCount)

theorem indices_nodup {bufferCount : Nat} (h : bufferCount < 2 ^ 16) : (indices bufferCount).Nodup := by
  refine List.Nodup.map_on ?_ List.nodup_range
  intro i hi j hj heq
  have hnat := congrArg UInt16.toNat heq
  rw [List.mem_range] at hi hj
  rwa [UInt16.toNat_ofNat_of_lt' (Nat.lt_trans hi h), UInt16.toNat_ofNat_of_lt' (Nat.lt_trans hj h)]
    at hnat

/-! ## A call without a pause -/

theorem step_advance {g g' : Shared} {locals : List Pc} {i : Nat} {pc pc' : Pc}
    (hpc : locals[i]? = some pc) (hnext : pc.next i g = some (g', pc')) :
    machine.step ⟨g, locals⟩ (.advance i) = some ⟨g', locals.set i pc'⟩ :=
  Threads.advance_eq_some.mpr ⟨pc, g', pc', hpc, hnext, rfl⟩

/-- `n` more operations of a thread after its first. -/
theorem run_advance {s t u : Threads Shared Pc} {i n : Nat} (hstep : machine.step s (.advance i) = some t)
    (hrun : machine.run t (List.replicate n (.advance i)) = some u) :
    machine.run s (List.replicate (n + 1) (.advance i)) = some u := by
  rw [List.replicate_succ]
  exact machine.run_cons_eq_some.mpr ⟨t, hstep, hrun⟩

/-- The operations of the loop come to what `reclaim_quarantined` does. -/
theorem reclaim_run (i now : Nat) (quarantine : List QuarantineEntry) (g : Shared) (locals : List Pc)
    (hquarantine : g.pool.quarantine = quarantine) (hpc : locals[i]? = some (.reclaim now)) :
    ∃ n, machine.run ⟨g, locals⟩ (List.replicate n (.advance i)) =
      some ⟨{ g with pool := g.pool.reclaimQuarantined now }, locals.set i .pop⟩ := by
  have hlt : i < locals.length := (List.getElem?_eq_some_iff.mp hpc).1
  induction quarantine generalizing g locals with
  | nil =>
    have hsame : g.pool.reclaimQuarantined now = g.pool := by
      rw [reclaimQuarantined, hquarantine, reclaim, ← hquarantine]
    refine ⟨1, run_advance (step_advance hpc ?_) rfl⟩
    rw [Pc.next, hquarantine, hsame]
  | cons e rest ih =>
    -- the entry leaves the quarantine
    have htaken : (Pc.reclaim now).next i g = some ({ g with pool := { g.pool with quarantine := rest } },
        if quarantineDuration ≤ now - e.releaseTime then .reclaimPush now e.index else .putBack e) := by
      rw [Pc.next, hquarantine]
    have hself (pc : Pc) : (locals.set i pc)[i]? = some pc := List.getElem?_set_self hlt
    by_cases hexpired : quarantineDuration ≤ now - e.releaseTime
    · rw [if_pos hexpired] at htaken
      have hpushed : (Pc.reclaimPush now e.index).next i { g with pool := { g.pool with quarantine := rest } } =
          some ({ g with pool := { g.pool with
            quarantine := rest, freeList := g.pool.freeList ++ [e.index] } }, .reclaim now) := rfl
      have hpool : g.pool.reclaimQuarantined now = BufferPool.reclaimQuarantined now
          { g.pool with quarantine := rest, freeList := g.pool.freeList ++ [e.index] } := by
        simp only [reclaimQuarantined, hquarantine, reclaim, if_pos hexpired]
      have hlocals : (locals.set i (.reclaimPush now e.index)).set i (.reclaim now) =
          locals.set i (.reclaim now) := List.set_set ..
      obtain ⟨n, hn⟩ := ih { g with pool := { g.pool with
          quarantine := rest, freeList := g.pool.freeList ++ [e.index] } } (locals.set i (.reclaim now)) rfl
        (hself _) (by rwa [List.length_set])
      refine ⟨n + 1 + 1, run_advance (step_advance hpc htaken)
        (run_advance (step_advance (hself _) hpushed) ?_)⟩
      rw [hlocals, hn, hpool, List.set_set]
    · rw [if_neg hexpired] at htaken
      have hback : (Pc.putBack e).next i { g with pool := { g.pool with quarantine := rest } } =
          some ({ g with pool := { g.pool with quarantine := rest ++ [e] } }, .pop) := rfl
      have hpool : g.pool.reclaimQuarantined now = { g.pool with quarantine := rest ++ [e] } := by
        simp only [reclaimQuarantined, hquarantine, reclaim, if_neg hexpired]
      refine ⟨0 + 1 + 1, run_advance (step_advance hpc htaken)
        (run_advance (step_advance (hself _) hback) ?_)⟩
      rw [List.replicate_zero, Machine.run_nil, List.set_set, hpool]

/-- Uninterrupted, the operations of an acquire come to `acquire`. -/
theorem acquire_run (i now : Nat) (g : Shared) (locals : List Pc)
    (hpc : locals[i]? = some (.reclaim now)) :
    ∃ n, machine.run ⟨g, locals⟩ (List.replicate n (.advance i)) =
      some ⟨{ g with
        pool := (g.pool.acquire now).1
        held := g.held ++ (g.pool.acquire now).2.toList }, locals.set i .idle⟩ := by
  have hlt : i < locals.length := (List.getElem?_eq_some_iff.mp hpc).1
  obtain ⟨n, hn⟩ := reclaim_run i now _ g locals rfl hpc
  have hpop : Pc.pop.next i { g with pool := g.pool.reclaimQuarantined now } = some ({ g with
      pool := (g.pool.acquire now).1
      held := g.held ++ (g.pool.acquire now).2.toList }, .idle) := by
    unfold Pc.next acquire
    cases hfree : (g.pool.reclaimQuarantined now).freeList <;> simp [hfree]
  have hlast := step_advance (List.getElem?_set_self hlt) hpop
  refine ⟨n + 1, ?_⟩
  rw [List.replicate_succ', Machine.run_append, hn, Option.bind_some, Machine.run_cons, hlast,
    List.set_set]
  rfl

/-! ## The places of an index -/

/-- What the operation of one thread does to the places of the indices. -/
inductive Moves (pc pc' : Pc) (s t : Shared) : Prop where
  | same (hfree : t.pool.freeList = s.pool.freeList) (hheld : t.held = s.held)
      (hdropped : t.dropped = s.dropped) (hhands : pc'.hands = pc.hands)
  | popped (i : UInt16) (hfree : s.pool.freeList = i :: t.pool.freeList)
      (hheld : t.held = s.held ++ [i]) (hdropped : t.dropped = s.dropped)
      (hhands : pc'.hands = pc.hands)
  | pushed (i : UInt16) (hfree : t.pool.freeList = s.pool.freeList ++ [i]) (hheld : t.held = s.held)
      (hdropped : t.dropped = s.dropped) (hhands : pc.hands = i :: pc'.hands)
  | dropped (i : UInt16) (hfree : t.pool.freeList = s.pool.freeList) (hheld : t.held = s.held)
      (hdropped : t.dropped = s.dropped ++ [i]) (hhands : pc.hands = i :: pc'.hands)

theorem Pc.next_spec {i : Nat} {pc pc' : Pc} {s t : Shared} (hloop : pc.reclaims = false)
    (hquarantine : s.pool.quarantine = []) (h : pc.next i s = some (t, pc')) :
    Moves pc pc' s t ∧ pc'.reclaims = false ∧ t.pool.quarantine = [] ∧
      t.pool.bufferCount = s.pool.bufferCount := by
  cases pc with
  | idle => cases h
  | reclaim now =>
    rw [Pc.next, hquarantine] at h
    cases h
    exact ⟨.same rfl rfl rfl rfl, rfl, hquarantine, rfl⟩
  | reclaimPush now index => cases hloop
  | putBack e => cases hloop
  | pop =>
    rw [Pc.next] at h
    cases hfree : s.pool.freeList with
    | nil =>
      rw [hfree] at h
      cases h
      exact ⟨.same rfl rfl rfl rfl, rfl, hquarantine, rfl⟩
    | cons j rest =>
      rw [hfree] at h
      cases h
      exact ⟨.popped j hfree rfl rfl rfl, rfl, hquarantine, rfl⟩
  | checkGeneration index generationId =>
    rw [Pc.next] at h
    split at h
    · cases h
      exact ⟨.dropped index rfl rfl rfl rfl, rfl, hquarantine, rfl⟩
    · cases h
      exact ⟨.same rfl rfl rfl rfl, rfl, hquarantine, rfl⟩
  | push index =>
    cases h
    exact ⟨.pushed index rfl rfl rfl rfl, rfl, hquarantine, rfl⟩

namespace Conserves
variable {bufferCount : Nat} {s t : Threads Shared Pc}

theorem init {mmap : Nat → Option Nat} {bufferSize : Nat} {pool : BufferPool}
    (hcount : bufferCount < 2 ^ 16) (hnew : BufferPool.new mmap bufferSize bufferCount = .ok pool)
    (n : Nat) : Conserves bufferCount (start pool n) := by
  obtain ⟨base, rfl⟩ := new_ok hnew
  have hhands : (List.replicate n Pc.idle).flatMap Pc.hands = [] := by
    rw [List.flatMap_eq_nil_iff]
    intro pc hpc
    rw [List.eq_of_mem_replicate hpc]
    rfl
  refine ⟨rfl, rfl, fun i pc hpc => ?_, ?_⟩
  · rw [List.eq_of_mem_replicate (List.mem_of_getElem? hpc)]
    rfl
  · simp only [start, heldIndices, hhands, List.append_nil, Nat.mod_eq_of_lt hcount]
    apply List.Perm.refl

/-- One operation of one thread. -/
theorem advance (h : Conserves bufferCount s) {i : Nat} (hstep : s.advance Pc.next i = some t) :
    Conserves bufferCount t := by
  obtain ⟨pc, g, pc', hpc, hnext, rfl⟩ := Threads.advance_eq_some.mp hstep
  obtain ⟨hmoves, hloop, hquarantine, hcount⟩ :=
    Pc.next_spec (h.loop i pc hpc) h.quarantine hnext
  refine ⟨hcount.trans h.count, hquarantine, h.loop.set hloop fun _ _ _ h => h, ?_⟩
  apply List.Perm.trans _ h.perm
  have hhands := Threads.flatMap_set_perm hpc pc' Pc.hands
  rw [List.perm_iff_count] at hhands ⊢
  intro a
  have hhands := hhands a
  simp only [heldIndices, List.count_append] at hhands ⊢
  cases hmoves with
  | same hfree hheld hdropped heq =>
    rw [heq] at hhands
    rw [hfree, hheld, hdropped]
    omega
  | popped j hfree hheld hdropped heq =>
    rw [heq] at hhands
    rw [hfree, hheld, hdropped]
    simp only [List.count_append, List.count_cons, List.count_nil]
    omega
  | pushed j hfree hheld hdropped heq =>
    rw [heq, List.count_cons] at hhands
    rw [hfree, hheld, hdropped]
    simp only [List.count_append, List.count_cons, List.count_nil]
    omega
  | dropped j hfree hheld hdropped heq =>
    rw [heq, List.count_cons] at hhands
    rw [hfree, hheld, hdropped]
    simp only [List.count_append, List.count_cons, List.count_nil]
    omega

theorem step (h : Conserves bufferCount s) {a : Act} (hstep : machine.step s a = some t) :
    Conserves bufferCount t := by
  cases a with
  | acquire i now =>
    simp only [machine, BufferPool.step, Option.ite_none_right_eq_some] at hstep
    obtain ⟨hidle, heq⟩ := hstep
    cases heq
    refine ⟨h.count, h.quarantine, h.loop.set rfl fun _ _ _ h => h, ?_⟩
    apply List.Perm.trans _ h.perm
    have hhands := Threads.flatMap_set_perm hidle (.reclaim now) Pc.hands
    exact ((hhands.append_left _).append_left _).append_right _
  | release i index generationId =>
    simp only [machine, BufferPool.step, Option.ite_none_right_eq_some] at hstep
    obtain ⟨⟨hidle, hheld⟩, heq⟩ := hstep
    cases heq
    refine ⟨h.count, h.quarantine, h.loop.set rfl fun _ _ _ h => h, ?_⟩
    apply List.Perm.trans _ h.perm
    -- the index goes from the client to the call
    have hhands := Threads.flatMap_set_perm hidle (.checkGeneration index generationId) Pc.hands
    have herase := List.perm_cons_erase hheld
    rw [List.perm_iff_count] at hhands herase ⊢
    intro a
    have hhands := hhands a
    have herase := herase a
    simp only [heldIndices, Pc.hands, List.count_append, List.count_cons, List.count_nil]
      at hhands herase ⊢
    omega
  | incrementGeneration =>
    cases hstep
    exact ⟨h.count, h.quarantine, h.loop, h.perm⟩
  | advance i => exact h.advance hstep

theorem run (h : Conserves bufferCount s) {acts : List Act} (hrun : machine.run s acts = some t) :
    Conserves bufferCount t :=
  Machine.run_invariant' (I := Conserves bufferCount) (fun _ _ _ h hstep => h.step hstep) h hrun

theorem nodup (h : Conserves bufferCount s) (hcount : bufferCount < 2 ^ 16) :
    (s.shared.pool.freeList ++ heldIndices s ++ s.shared.dropped).Nodup :=
  h.perm.nodup_iff.mpr (indices_nodup hcount)

theorem length_eq (h : Conserves bufferCount s) :
    s.shared.pool.freeList.length + ((heldIndices s).length + s.shared.dropped.length) = bufferCount := by
  have hlength := h.perm.length_eq
  simp only [indices, List.length_append, List.length_map, List.length_range] at hlength
  omega

/-- The front of the free list is nobody's. -/
theorem front_notMem (h : Conserves bufferCount s) (hcount : bufferCount < 2 ^ 16) {i : UInt16}
    {rest : List UInt16} (hfree : s.shared.pool.freeList = i :: rest) : i ∉ heldIndices s := by
  have hnodup := h.nodup hcount
  rw [hfree, List.append_assoc, List.cons_append, List.nodup_cons] at hnodup
  intro hheld
  apply hnodup.1
  exact List.mem_append_right _ (List.mem_append_left _ hheld)

/-- The statistics, when their second half is read in a later state `t`. -/
theorem stats_eq (h : Conserves bufferCount s) (ht : Conserves bufferCount t) :
    s.shared.pool.stats t.shared.pool = some {
      total := bufferCount
      free := s.shared.pool.freeList.length
      quarantined := 0
      inUse := (heldIndices s).length + s.shared.dropped.length } := by
  have hlength := h.length_eq
  rw [stats, h.count, ht.quarantine, if_pos ⟨by omega, Nat.zero_le _⟩, Option.some_inj]
  simp only [BufferPoolStats.mk.injEq, List.length_nil, true_and]
  omega

end Conserves

/-! ## Runs -/

/-- What clients can rely on in the state `s`. -/
structure Reliable (bufferCount : Nat) (s : Threads Shared Pc) : Prop where
  /-- The free list, the indices held and those dropped are all the indices, each in one place. -/
  perm : (s.shared.pool.freeList ++ heldIndices s ++ s.shared.dropped).Perm (indices bufferCount)
  nodup : (s.shared.pool.freeList ++ heldIndices s ++ s.shared.dropped).Nodup
  /-- `acquire`, if nothing comes between its operations. -/
  acquire_none : ∀ now, (s.shared.pool.acquire now).2 = none ↔ s.shared.pool.freeList = []
  acquire_some : ∀ now i, (s.shared.pool.acquire now).2 = some i → i ∉ heldIndices s
  /-- The operation that an `acquire` ends with, whatever came between. -/
  popped : ∀ i t, s.locals[i]? = some .pop → machine.step s (.advance i) = some t →
    s.shared.pool.freeList = [] ∧ t.shared.held = s.shared.held ∨
    ∃ j ∉ heldIndices s, s.shared.pool.freeList ≠ [] ∧ t.shared.held = s.shared.held ++ [j]

theorem Conserves.reliable {bufferCount : Nat} {s : Threads Shared Pc} (h : Conserves bufferCount s)
    (hcount : bufferCount < 2 ^ 16) : Reliable bufferCount s where
  perm := h.perm
  nodup := h.nodup hcount
  acquire_none now := by
    rw [acquire_of_quarantine_nil h.quarantine]
    cases hfree : s.shared.pool.freeList <;> simp
  acquire_some now i hi := by
    rw [acquire_of_quarantine_nil h.quarantine] at hi
    cases hfree : s.shared.pool.freeList with
    | nil =>
      rw [hfree] at hi
      cases hi
    | cons j rest =>
      rw [hfree] at hi
      cases hi
      exact h.front_notMem hcount hfree
  popped i t hpop hstep := by
    obtain ⟨pc, g, pc', hpc, hnext, rfl⟩ := Threads.advance_eq_some.mp hstep
    obtain rfl := Option.some_inj.mp (hpop.symm.trans hpc)
    rw [Pc.next] at hnext
    cases hfree : s.shared.pool.freeList with
    | nil =>
      rw [hfree] at hnext
      cases hnext
      exact .inl ⟨rfl, rfl⟩
    | cons j rest =>
      rw [hfree] at hnext
      cases hnext
      exact .inr ⟨j, h.front_notMem hcount hfree, by simp, rfl⟩

/-- One thread is about to push an index back while the other is given the next one; then the
generation changes, and the release of that one drops it. -/
def sharedRun : List Act :=
  [.acquire 0 0, .advance 0, .advance 0, .release 0 0 1, .advance 0, .acquire 1 0, .advance 1,
    .incrementGeneration, .advance 1, .advance 0, .release 1 1 1, .advance 1]

end Uringcore.BufferPool
