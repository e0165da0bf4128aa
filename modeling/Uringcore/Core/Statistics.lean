import Mathlib.Algebra.BigOperators.Group.List.Basic
import Uringcore.Core.Conservation
import Uringcore.Core.Credit
import Uringcore.Metrics

/-!
# What a monitor is told

`buffer_stats` and `fd_stats` add up what the pool and the descriptors hold, and `collect` makes one
`Metrics` of the eight numbers. None of them says what it counts: `in_use` is what is missing from the free
list, and `inflight` the sum of the credits taken.

`Balanced` is the account behind the first, `Accounted` the one behind the second. Both are kept by every
step, so `collect_exact` can say of every run what the eight numbers are the numbers of.
-/

namespace Uringcore

structure FDStateStats where
  fdCount : Nat
  totalInflight : Nat
  totalQueued : Nat
  pausedCount : Nat
  deriving DecidableEq, Repr

namespace FDStateManager

/-- The body of the loop of `stats`. -/
def countState (stats : FDStateStats) (st : FDState) : FDStateStats :=
  { stats with
    totalInflight := stats.totalInflight + st.inflightCount
    totalQueued := stats.totalQueued + st.bufferQueue.length
    pausedCount := if st.isPaused then stats.pausedCount + 1 else stats.pausedCount }

def stats (m : FDStateManager) : FDStateStats :=
  m.states.values.foldl countState ⟨m.states.keys.length, 0, 0, 0⟩

theorem foldl_countState (states : List FDState) (stats : FDStateStats) :
    states.foldl countState stats = {
      fdCount := stats.fdCount
      totalInflight := stats.totalInflight + (states.map (·.inflightCount)).sum
      totalQueued := stats.totalQueued + (states.map (·.bufferQueue.length)).sum
      pausedCount := stats.pausedCount + states.countP (·.isPaused) } := by
  induction states generalizing stats with
  | nil => rfl
  | cons st states ih =>
    rw [List.foldl_cons, ih]
    cases hpaused : st.isPaused <;>
      simp [countState, hpaused, Nat.add_assoc, Nat.add_comm, Nat.add_left_comm]

end FDStateManager

/-- Of the states of a map, what is known by the key. -/
theorem map_values_eq {V W : Type} {m : FdMap V} {f : V → W} {g : Fd → W}
    (h : ∀ fd v, m.lookup fd = some v → f v = g fd) : m.values.map f = m.keys.map g := by
  rw [AList.values, AList.keys, List.keys, List.map_map, List.map_map]
  refine List.map_congr_left ?_
  intro entry hmem
  obtain ⟨fd, v⟩ := entry
  exact h fd v (AList.mem_lookup_iff.mpr hmem)

namespace UringCore
variable {F H T : Type}

def bufferStats (core : UringCore F H T) : Option BufferPoolStats :=
  core.bufferPool.stats core.bufferPool

def fdStats (core : UringCore F H T) : FDStateStats := core.fdStates.stats

/-- `collect`, without the callbacks. `none` is an underflow in `buffer_stats`. -/
def collect (core : UringCore F H T) : Option Metrics :=
  core.bufferStats.map fun buffers => {
    buffersTotal := buffers.total
    buffersFree := buffers.free
    buffersQuarantined := buffers.quarantined
    buffersInUse := buffers.inUse
    fdCount := core.fdStats.fdCount
    fdInflight := core.fdStats.totalInflight
    fdQueued := core.fdStats.totalQueued
    fdPaused := core.fdStats.pausedCount }

/-! ## The account of the buffers -/

/-- Of the indices the pool began with, `taken` are held by nobody any more. -/
structure Balanced (core : UringCore F H T) (bufferCount taken : Nat) : Prop where
  count : core.bufferPool.bufferCount = bufferCount
  held : core.holdings.length + taken = bufferCount % 2 ^ 16

theorem balanced_new {setup : Setup} {bufferSize bufferCount : Nat} {core : UringCore F H T}
    (h : new setup bufferSize bufferCount = .ok core) : core.Balanced bufferCount 0 := by
  have hheld := (new_tracked h).2
  obtain ⟨entries, pool, hpool, rfl⟩ := new_spec h
  obtain ⟨base, rfl⟩ := BufferPool.new_ok hpool
  refine ⟨rfl, ?_⟩
  rw [hheld, List.length_map, List.length_range, Nat.add_zero]

theorem storeData_bufferCount (dest : Option UInt16) (payload : Payload) (pool : BufferPool) :
    (storeData dest payload pool).bufferCount = pool.bufferCount := by
  cases dest <;> rfl

section
variable [LE T] [DecidableLE T]

theorem bufferCount_step {s t : UringCore F H T} {a : Act F H T} (hs : s.Sound)
    (h : machine.step s a = some t) : t.bufferPool.bufferCount = s.bufferPool.bufferCount := by
  refine (step_rule (I := fun u => u.bufferPool.bufferCount = s.bufferPool.bufferCount)
    (C := fun _ _ => True) ?_ ?_ ?_ ?_ ?_ ?_ s a t ⟨hs, rfl⟩ trivial h).2
  · intro u v hsame hu
    rw [hsame.bufferPool]
    exact hu
  · intro u fd socketType _ _ hu
    exact hu
  · intro u fd _ hsound hu
    rw [unregisterFd_eq hsound]
    exact hu
  · intro u v now enter fd req _ _ hsub hu
    cases hsub <;> exact hu
  · intro u clock enter pushed _ _ hu
    refine tick_rule (I := fun v => v.bufferPool.bufferCount = s.bufferPool.bufferCount)
      ?_ ?_ _ _ _ _ hu
    · intro v w hsame hv
      rw [hsame.bufferPool]
      exact hv
    · intro v c cs _ hv
      rw [processNext_eq]
      exact hv
  · intro u v c i _ _ hc hu
    rw [hc.bufferPool, storeData_bufferCount]
    exact hu

theorem Balanced.step {s t : UringCore F H T} {bufferCount taken : Nat} {a : Act F H T}
    (hs : s.Sound) (h : s.Balanced bufferCount taken) (hstep : machine.step s a = some t) :
    t.Balanced bufferCount (if s.TakesForGood a then taken + 1 else taken) := by
  refine ⟨(bufferCount_step hs hstep).trans h.count, ?_⟩
  by_cases htakes : s.TakesForGood a
  · rw [if_pos htakes]
    cases a with
    | request now enter fd req =>
      cases hstep
      obtain ⟨b, hperm⟩ := holdings_takesForGood (request_spec hs now req) htakes
      have hlen := hperm.length_eq
      rw [List.length_cons] at hlen
      have hheld := h.held
      show (s.request now enter fd req).1.holdings.length + (taken + 1) = _
      omega
    | _ => exact htakes.elim
  · rw [if_neg htakes, (holdings_step hs hstep htakes).length_eq]
    exact h.held

end

/-- A balanced pool has figures to report, and `in_use` is all that is not free. -/
theorem Balanced.bufferStats {core : UringCore F H T} {bufferCount taken : Nat} (hs : core.Sound)
    (h : core.Balanced bufferCount taken) : core.bufferStats = some {
      total := bufferCount
      free := core.bufferPool.freeList.length
      quarantined := 0
      inUse := core.inflightRecvBuffers.values.length + taken +
        (bufferCount - bufferCount % 2 ^ 16) } := by
  have hheld := h.held
  have hmod := Nat.mod_le bufferCount (2 ^ 16)
  rw [holdings, List.length_append] at hheld
  rw [UringCore.bufferStats, BufferPool.stats, hs.quarantine, h.count]
  rw [if_pos ⟨by omega, by simp⟩]
  simp only [List.length_nil, Option.some.injEq, BufferPoolStats.mk.injEq, true_and]
  omega

/-! ## The figures of the descriptors -/

/-- In a sound core nothing is queued. -/
theorem Sound.totalQueued {core : UringCore F H T} (hs : core.Sound) :
    core.fdStats.totalQueued = 0 := by
  have hzero : core.fdStates.states.values.map (·.bufferQueue.length) =
      core.fdStates.states.keys.map fun _ => 0 :=
    map_values_eq fun fd st hst => by rw [hs.bufferQueue fd st hst, List.length_nil]
  rw [fdStats, FDStateManager.stats, FDStateManager.foldl_countState, hzero]
  simp

theorem Accounted.totalInflight {core : UringCore F H T} {log : CreditLog} (h : core.Accounted log) :
    core.fdStats.totalInflight =
      (core.fdStates.states.keys.map fun fd => core.pendingRecvs (log.since fd) fd).sum +
        (core.fdStates.states.keys.map fun fd => log.processed fd + log.refused fd).sum := by
  rw [fdStats, FDStateManager.stats, FDStateManager.foldl_countState, map_values_eq h.count]
  simp only [Nat.zero_add, Nat.add_assoc]
  exact List.sum_map_add

/-! ## Over a run -/

section
variable [LE T] [DecidableLE T]

/-- The machine with the log of the credits and the number of buffers taken for good. -/
def monitored : Machine (UringCore F H T × CreditLog × Nat) (Act F H T) :=
  machine.ghost fun s a t log =>
    (log.1.upd s a t, if s.TakesForGood a then log.2 + 1 else log.2)

/-- **What the figures are the figures of.** At the end of every run `collect` succeeds. The buffers in use
are those tracked for a receive, those that a send has taken for good and those past the first 2^16, which
the pool never hands out. The operations in flight are the receives outstanding on registered descriptors
together with those processed and refused there, so they are the outstanding ones if and only if there was
none of either. Nothing is ever in quarantine or queued. -/
theorem collect_exact {setup : Setup} {bufferSize bufferCount : Nat} {core t : UringCore F H T}
    {log : CreditLog} {taken : Nat} {acts : List (Act F H T)}
    (hnew : new setup bufferSize bufferCount = .ok core)
    (hrun : monitored.run (core, .init, 0) acts = some (t, log, taken)) :
    ∃ m, t.collect = some m ∧
      (m.buffersTotal = bufferCount ∧ m.buffersFree = t.bufferPool.freeList.length ∧
        m.buffersQuarantined = 0 ∧
        m.buffersInUse = t.inflightRecvBuffers.values.length + taken +
          (bufferCount - bufferCount % 2 ^ 16)) ∧
      (t.ring.outstanding = [] →
        m.buffersInUse = taken + (bufferCount - bufferCount % 2 ^ 16)) ∧
      m.fdCount = t.fdStates.states.keys.length ∧ m.fdQueued = 0 ∧
      m.fdInflight =
        (t.fdStates.states.keys.map fun fd => t.pendingRecvs (log.since fd) fd).sum +
          (t.fdStates.states.keys.map fun fd => log.processed fd + log.refused fd).sum ∧
      (m.fdInflight = (t.fdStates.states.keys.map fun fd => t.pendingRecvs (log.since fd) fd).sum ↔
        ∀ fd ∈ t.fdStates.states.keys, log.processed fd = 0 ∧ log.refused fd = 0) := by
  have hstart : core.Accounted .init := by
    obtain ⟨entries, pool, hpool, rfl⟩ := new_spec hnew
    refine ⟨fun _ => Nat.zero_le _, ?_⟩
    intro fd st h
    simp [FDStateManager.new] at h
  obtain ⟨hsound, htracked, hbalanced, hacc⟩ :
      t.Sound ∧ t.Tracked ∧ t.Balanced bufferCount taken ∧ t.Accounted log := by
    refine Machine.run_invariant' (I := fun x : UringCore F H T × CreditLog × Nat =>
      x.1.Sound ∧ x.1.Tracked ∧ x.1.Balanced bufferCount x.2.2 ∧ x.1.Accounted x.2.1) ?_
      ⟨sound_new hnew, (new_tracked hnew).1, balanced_new hnew, hstart⟩ hrun
    intro s a u hkept hstep
    obtain ⟨hs, ht, hb, ha⟩ := hkept
    obtain ⟨hcore, hlog⟩ := Machine.ghost_step_eq_some.mp hstep
    rw [hlog]
    exact ⟨hs.step hcore, ht.step hs hcore, hb.step hs hcore, ha.step hs hcore⟩
  refine ⟨_, by rw [collect, hbalanced.bufferStats hsound]; rfl, ⟨rfl, rfl, rfl, rfl⟩, ?_, ?_,
    hsound.totalQueued, hacc.totalInflight, ?_⟩
  · intro hidle
    simp [htracked.values_eq_nil hidle]
  · show t.fdStats.fdCount = _
    rw [fdStats, FDStateManager.stats, FDStateManager.foldl_countState]
  · show t.fdStats.totalInflight = _ ↔ _
    rw [hacc.totalInflight, Nat.add_eq_left, List.sum_eq_zero_iff_forall_eq_nat]
    simp

end

/-- After one receive and one send: a buffer is gone, and an operation counts as in flight that is not. -/
theorem collect_exact_after :
    ∃ (core t : UringCore Nat Unit Nat) (log : CreditLog) (taken : Nat) (m : Metrics),
      new Setup.plain 16 2 = .ok core ∧
      monitored.run (core, .init, 0) (recvRun ++ sendRun.tail) = some (t, log, taken) ∧
      t.collect = some m ∧ t.ring.outstanding = [] ∧ m.buffersInUse = 1 ∧ m.fdInflight = 1 := by
  obtain ⟨m, hm, ⟨-, -, -, huse⟩, hidle, -, -, hinflight, -⟩ :=
    collect_exact (show new Setup.plain 16 2 = .ok _ from rfl)
      (show monitored.run (_, .init, 0) (recvRun ++ sendRun.tail) = some (_, _, _) from rfl)
  exact ⟨_, _, _, _, m, rfl, rfl, hm, rfl, huse, hinflight⟩

end UringCore

end Uringcore
