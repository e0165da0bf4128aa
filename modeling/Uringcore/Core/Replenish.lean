import Uringcore.BufRing.Queue
import Uringcore.Core.Drain
import Uringcore.Core.Ownership

/-!
# Provided buffers that never come back

The kernel takes a buffer of the provided ring for each completion of a multishot receive.
`drain_completions` publishes the buffers of its batch again, `run_tick` copies the data out and
forgets the buffer. So every buffer is in one of three places: on offer, in a completion that has
not been processed, or lost to a tick (`Offers`), and nothing is lost exactly as long as no tick
processes a completion with a buffer (`replenished_iff`).
-/

namespace Uringcore

/-- What is on offer, by position. -/
theorem PBufRing.Holds.published_eq {r : PBufRing} {head : UInt16} {supplied : List IoUringBuf}
    {taken : Nat} (h : r.Holds head supplied taken) :
    r.published head = (supplied.drop taken).map (·.bid) := by
  have hle := h.le
  apply List.ext_getElem
  · simp [published, h.published_length]
  · intro i hi _
    have hlt : taken + i < supplied.length := by
      simp only [published, List.length_map, List.length_range, h.published_length] at hi
      omega
    have hentry := h.entry_eq (Nat.le_add_right taken i) hlt
    simp only [published, List.getElem_map, List.getElem_range, List.getElem_drop]
    rw [h.head, ← UInt16.ofNat_add, hentry]

namespace UringCore
variable {F H T : Type}

/-- The indices of the pool, as the provided ring names them. -/
def bufferIds (bufferCount : Nat) : List UInt16 := (List.range bufferCount).map UInt16.ofNat

/-- The buffers the kernel has taken for completions that are not processed. -/
def unprocessedBufs (core : UringCore F H T) : List UInt16 := core.ring.cq.filterMap (·.buf)

/-- Each buffer is on offer or in a completion not processed, and only once. -/
def Replenished (bufferCount : Nat) (core : UringCore F H T) : Prop :=
  (core.unprocessedBufs ++ core.provided).Perm (bufferIds bufferCount)

/-- So the kernel has all buffers but those of the completions not processed. -/
theorem Replenished.length {bufferCount : Nat} {core : UringCore F H T}
    (h : core.Replenished bufferCount) :
    core.provided.length = bufferCount - core.unprocessedBufs.length := by
  have hlength := h.length_eq
  simp only [List.length_append, bufferIds, List.length_map, List.length_range] at hlength
  omega

/-- A step of the core and the kernel, or a call of `drain_completions`. -/
inductive DrainAct (F H T : Type) where
  | act (a : Act F H T)
  | drainCompletions

section
variable [LE T] [DecidableLE T]

def drainMachine : Machine (UringCore F H T) (DrainAct F H T) where
  step core
    | .act a => machine.step core a
    | .drainCompletions => some core.drainCompletions.1

end

/-- No tick processes a completion with a selected buffer. -/
def KeepsProvided (core : UringCore F H T) : DrainAct F H T → Prop
  | .act (.runTick _ enter _) => core.Flushes enter → core.unprocessedBufs = []
  | _ => True

instance (core : UringCore F H T) : ∀ a : DrainAct F H T, Decidable (core.KeepsProvided a)
  | .act (.runTick _ enter _) =>
      inferInstanceAs (Decidable (core.Flushes enter → core.unprocessedBufs = []))
  | .drainCompletions | .act (.registerFd ..) | .act (.unregisterFd _) | .act (.pauseReading _)
  | .act (.resumeReading _) | .act (.registerFile ..) | .act (.unregisterFile ..)
  | .act (.request ..) | .act (.submit _) | .act (.consume _) | .act (.complete ..) => isTrue trivial

/-! ## The ring at the start -/

theorem exists_pow_nextPowerOfTwo (n : Nat) : ∃ k, nextPowerOfTwo n = 2 ^ k ∧ n ≤ 2 ^ k := by
  unfold nextPowerOfTwo
  split
  · exact ⟨0, rfl, by omega⟩
  · have hlt : n - 1 < 2 ^ (Nat.log2 (n - 1) + 1) := Nat.lt_log2_self
    exact ⟨_, rfl, by omega⟩

/-- A ring that is accepted has room for all buffers, and offers them. -/
theorem setupPbufRing_holds {setup : Setup} {pool : BufferPool} {r : PBufRing}
    (h : setupPbufRing setup pool = some r) :
    ∃ supplied, r.Holds 0 supplied 0 ∧ pool.bufferCount ≤ r.ringEntries.toNat ∧
      supplied.map (·.bid) = bufferIds pool.bufferCount := by
  unfold setupPbufRing at h
  dsimp only at h
  split at h
  · cases h
  · rename_i pr hpr
    split at h
    · cases h
      have hnew := PBufRing.Holds.new hpr
      have hentries : pr.ringEntries = UInt16.ofNat (nextPowerOfTwo pool.bufferCount) := by
        unfold PBufRing.new at hpr
        grind
      rcases exists_pow_nextPowerOfTwo pool.bufferCount with ⟨k, hk, hle⟩
      -- the cast of a larger power of two is 0, which `new` refuses
      have hk16 : k < 16 := by
        by_contra hge
        have hdvd : 2 ^ 16 ∣ 2 ^ k := Nat.pow_dvd_pow 2 (Nat.not_lt.mp hge)
        have hzero : pr.ringEntries.toNat = 0 := by
          rw [hentries, hk, UInt16.toNat_ofNat']
          exact Nat.mod_eq_zero_of_dvd hdvd
        exact absurd hnew.entries_pos (by omega)
      have hroom : pr.ringEntries.toNat = 2 ^ k := by
        rw [hentries, hk, UInt16.toNat_ofNat']
        exact Nat.mod_eq_of_lt (Nat.pow_lt_pow_right (by omega) hk16)
      have hcount : (UInt16.ofNat pool.bufferCount).toNat = pool.bufferCount := by
        have hlt : 2 ^ k < 2 ^ 16 := Nat.pow_lt_pow_right (by omega) hk16
        rw [UInt16.toNat_ofNat']
        exact Nat.mod_eq_of_lt (by omega)
      refine ⟨_, hnew.addBuffers ?_ _, ?_, ?_⟩
      · rw [hcount, hroom]
        simpa using hle
      · show pool.bufferCount ≤ pr.ringEntries.toNat
        rw [hroom]
        exact hle
      · rw [hcount, List.nil_append, List.map_map]
        rfl
    · cases h

/-! ## Draining keeps a core sound -/

theorem Sound.of_drainOne {s : UringCore F H T} (hs : s.Sound) (c : CompletionEntry) :
    (s.drainOne c).1.Sound ∧ (s.drainOne c).1.ring = s.ring ∧
      (s.drainOne c).1.pbufHead = s.pbufHead := by
  have hempty : (s.completionEmpty c.fd).Sound ∧ (s.completionEmpty c.fd).ring = s.ring ∧
      (s.completionEmpty c.fd).pbufHead = s.pbufHead := by
    unfold completionEmpty
    split
    · rename_i fdStates h
      rcases FDStateManager.withStateMut_ok h with ⟨st, hst, rfl⟩
      rcases hs.budget c.fd st hst with ⟨hbudget, hcount⟩
      refine ⟨hs.of_insert hs.ring rfl rfl ⟨hs.generation c.fd st hst, hs.bufferQueue c.fd st hst,
        hbudget, ?_⟩, rfl, rfl⟩
      exact Nat.le_trans (Nat.sub_le ..) hcount
    · exact ⟨hs, rfl, rfl⟩
  have hrelease (bufIdx : UInt16) (core : UringCore F H T) (h : core.Sound) :
      (core.releaseBuffer bufIdx).Sound :=
    h.of_states h.ring (by simp [releaseBuffer]) rfl fun _ _ hst => .inl hst
  unfold drainOne
  split
  · exact ⟨hrelease _ _ hs, rfl, rfl⟩
  · split
    · dsimp only
      split
      · refine ⟨hrelease _ _ ?_, hempty.2⟩
        exact hempty.1.of_states hempty.1.ring rfl rfl fun _ _ hst => .inl hst
      · exact hempty
    · exact ⟨hs, rfl, rfl⟩

theorem Sound.of_drainAll {s : UringCore F H T} (hs : s.Sound) (cqes : List CompletionEntry) :
    (s.drainAll cqes).1.Sound ∧ (s.drainAll cqes).1.ring = s.ring ∧
      (s.drainAll cqes).1.pbufHead = s.pbufHead := by
  induction cqes generalizing s with
  | nil => exact ⟨hs, rfl, rfl⟩
  | cons c cs ih =>
    rcases hs.of_drainOne c with ⟨hone, hring, hhead⟩
    rcases ih hone with ⟨hall, hring', hhead'⟩
    exact ⟨hall, hring'.trans hring, hhead'.trans hhead⟩

/-- The buffers of the multishot receives among the completions. -/
theorem drainAll_ids (cqes : List CompletionEntry) (s : UringCore F H T)
    (h : ∀ c ∈ cqes, c.bufferIndex.isSome → c.opType = .recvMulti) :
    (s.drainAll cqes).2.2 = cqes.filterMap CompletionEntry.bufferIndex := by
  induction cqes generalizing s with
  | nil => rfl
  | cons c cs ih =>
    have hone : (s.drainOne c).2.2 = c.bufferIndex.toList := by
      have hc := h c (List.mem_cons_self ..)
      unfold drainOne
      cases hindex : c.bufferIndex with
      | some bufIdx => simp [hc (by simp [hindex])]
      | none =>
        by_cases hop : c.opType = .recv
        · simp only [hop, if_true]
          split <;> rfl
        · simp only [hop, if_false]
          rfl
    rw [drainAll, hone, ih _ fun c hc => h c (List.mem_cons_of_mem _ hc)]
    cases hindex : c.bufferIndex <;> simp [hindex]

/-! ## Where the provided buffers are -/

/-- Each buffer is lost, in a completion not processed, or on offer. -/
structure Offers (bufferCount : Nat) (lost : List UInt16) (core : UringCore F H T) : Prop where
  sound : core.Sound
  holds : ∃ r supplied taken, core.pbufRing = some r ∧ r.Holds core.pbufHead supplied taken ∧
    bufferCount ≤ r.ringEntries.toNat
  perm : (lost ++ (core.unprocessedBufs ++ core.provided)).Perm (bufferIds bufferCount)
  /-- Only multishot receives select a buffer. -/
  multishot : ∀ c ∈ core.ring.cq, c.buf.isSome → c.sqe.op.opType = .recvMulti

namespace Offers

variable {bufferCount : Nat} {lost : List UInt16} {s t : UringCore F H T}

theorem of_same (h : s.Offers bufferCount lost) (ht : t.Sound) (hcq : t.ring.cq = s.ring.cq)
    (hring : t.pbufRing = s.pbufRing) (hhead : t.pbufHead = s.pbufHead) :
    t.Offers bufferCount lost where
  sound := ht
  holds := by
    rw [hring, hhead]
    exact h.holds
  perm := by
    have hperm := h.perm
    rw [unprocessedBufs, provided] at hperm ⊢
    rwa [hcq, hring, hhead]
  multishot := by
    rw [hcq]
    exact h.multishot

/-- A drained batch whose buffers nobody publishes again loses them. -/
theorem of_drained (h : s.Offers bufferCount lost) (ht : t.Sound) (hcq : t.ring.cq = [])
    (hring : t.pbufRing = s.pbufRing) (hhead : t.pbufHead = s.pbufHead) :
    t.Offers bufferCount (lost ++ s.unprocessedBufs) where
  sound := ht
  holds := by
    rw [hring, hhead]
    exact h.holds
  perm := by
    have hnone : t.unprocessedBufs = [] := by rw [unprocessedBufs, hcq, List.filterMap_nil]
    have hsame : t.provided = s.provided := by rw [provided, provided, hring, hhead]
    rw [hnone, hsame, List.nil_append, List.append_assoc]
    exact h.perm
  multishot := by
    rw [hcq]
    simp

/-- The kernel takes the buffer at its head for the completion it posts. -/
theorem of_completed {c : Cqe} (h : s.Offers bufferCount lost) (hc : s.Completed c t) :
    t.Offers bufferCount lost := by
  rcases h.holds with ⟨r, supplied, taken, hr, hholds, hfits⟩
  have hprovided : s.provided = (supplied.drop taken).map (·.bid) := by
    rw [provided, hr]
    exact hholds.published_eq
  have hmultishot : ∀ c' ∈ t.ring.cq, c'.buf.isSome → c'.sqe.op.opType = .recvMulti := by
    intro c' hc' hbuf
    rw [hc.cq] at hc'
    rcases List.mem_append.mp hc' with hc' | hc'
    · exact h.multishot c' hc' hbuf
    · rw [List.mem_singleton.mp hc'] at hbuf ⊢
      have hadmits := hc.admits
      cases hop : c.sqe.op <;> cases hp : c.payload <;> simp_all [SqeOp.admits, SqeOp.opType]
  have hsound := h.sound.of_completed hc
  cases hbuf : c.buf with
  | none =>
    have hhead : t.pbufHead = s.pbufHead := by rw [hc.pbufHead, hbuf]; rfl
    refine ⟨hsound, by rw [hc.pbufRing, hhead]; exact h.holds, ?_, hmultishot⟩
    have hunprocessed : t.unprocessedBufs = s.unprocessedBufs := by
      simp [unprocessedBufs, hc.cq, hbuf]
    have hsame : t.provided = s.provided := by rw [provided, provided, hc.pbufRing, hhead]
    rw [hunprocessed, hsame]
    exact h.perm
  | some b =>
    have hhead : t.pbufHead = s.pbufHead + 1 := by rw [hc.pbufHead, hbuf]; rfl
    have hfirst : (supplied.drop taken).map (·.bid) = b :: (supplied.drop (taken + 1)).map
        (·.bid) := by
      have hnext := hc.buf b hbuf
      rw [nextProvided, hr, Option.bind_some, hholds.published_eq] at hnext
      rw [← List.drop_drop, List.map_drop (l := supplied.drop taken)]
      cases htail : (supplied.drop taken).map (·.bid) with
      | nil => simp [htail] at hnext
      | cons b' rest => simp_all
    have hlt : taken + 1 ≤ supplied.length := by
      have hlength := congrArg List.length hfirst
      simp only [List.length_map, List.length_drop, List.length_cons] at hlength
      omega
    have hholds' := hholds.take (show taken + (1 : UInt16).toNat ≤ supplied.length from hlt)
    refine ⟨hsound, ⟨r, supplied, taken + 1, by rw [hc.pbufRing, hr], by rw [hhead]; exact hholds',
      hfits⟩, ?_, hmultishot⟩
    have hunprocessed : t.unprocessedBufs = s.unprocessedBufs ++ [b] := by
      simp [unprocessedBufs, hc.cq, hbuf]
    have hrest : t.provided = (supplied.drop (taken + 1)).map (·.bid) := by
      rw [provided, hc.pbufRing, hr, hhead]
      exact hholds'.published_eq
    have hperm := h.perm
    rw [hprovided, hfirst] at hperm
    rw [hunprocessed, hrest, List.append_assoc]
    exact hperm

/-- The loop variable of `add_buffers` runs over the collected ids. -/
theorem map_getD_range (ids : List UInt16) (h : ids.length ≤ 2 ^ 15) :
    (List.range ids.length).map (fun i => ids.getD (UInt16.ofNat i).toNat 0) = ids := by
  apply List.ext_getElem
  · rw [List.length_map, List.length_range]
  · intro i hi hlt
    have hmod : (UInt16.ofNat i).toNat = i := by
      rw [UInt16.toNat_ofNat']
      omega
    rw [List.getElem_map, List.getElem_range, hmod, List.getD_eq_getElem _ _ hlt]

/-- The buffers of a batch are published behind those on offer. -/
theorem of_replenished {d : UringCore F H T} (h : s.Offers bufferCount lost) (hsound : d.Sound)
    (hcq : d.ring.cq = []) (hpbuf : d.pbufRing = s.pbufRing) (hhead : d.pbufHead = s.pbufHead) :
    (d.replenish s.unprocessedBufs).Offers bufferCount lost := by
  rcases h.holds with ⟨r, supplied, taken, hr, hholds, hfits⟩
  unfold replenish
  by_cases hempty : s.unprocessedBufs.isEmpty
  · rw [if_pos hempty]
    have hd := h.of_drained hsound hcq hpbuf hhead
    rwa [List.isEmpty_iff.mp hempty, List.append_nil] at hd
  · rw [if_neg hempty, hpbuf, hr]
    have hprovided : s.provided = (supplied.drop taken).map (·.bid) := by
      rw [provided, hr]
      exact hholds.published_eq
    -- the ids to be published were on offer before, so they fit
    have hlength := h.perm.length_eq
    simp only [List.length_append, hprovided, List.length_map, List.length_drop, bufferIds,
      List.length_range] at hlength
    have hentries := hholds.entries_le
    have hle := hholds.le
    have hcount : (UInt16.ofNat s.unprocessedBufs.length).toNat = s.unprocessedBufs.length := by
      rw [UInt16.toNat_ofNat']
      omega
    have hadd := hholds.addBuffers (by rw [hcount]; omega) fun i =>
      let bid := s.unprocessedBufs.getD i.toNat 0
      (⟨d.bufferPool.getBufferPtr bid, d.bufLen, bid⟩ : IoUringBuf)
    have hnext := hadd.published_eq
    rw [List.drop_append_of_le_length hle, List.map_append, ← hprovided, List.map_map, hcount]
      at hnext
    have hpublished : List.map ((fun b : IoUringBuf => b.bid) ∘ fun i =>
        (⟨d.bufferPool.getBufferPtr (s.unprocessedBufs.getD (UInt16.ofNat i).toNat 0), d.bufLen,
          s.unprocessedBufs.getD (UInt16.ofNat i).toNat 0⟩ : IoUringBuf))
        (List.range s.unprocessedBufs.length) = s.unprocessedBufs :=
      map_getD_range _ (by omega)
    rw [hpublished] at hnext
    refine ⟨hsound.of_states hsound.ring rfl rfl fun _ _ hst => .inl hst, ?_, ?_, ?_⟩
    · exact ⟨_, _, taken, rfl, by rw [hhead]; exact hadd, hfits⟩
    · simp only [unprocessedBufs, provided, hcq, hhead, List.filterMap_nil, List.nil_append]
      rw [← unprocessedBufs, hnext]
      exact (List.perm_append_comm.append_left lost).trans h.perm
    · simp [hcq]

/-- `drain_completions` publishes the buffers of its batch. -/
theorem of_drainCompletions (h : s.Offers bufferCount lost) :
    s.drainCompletions.1.Offers bufferCount lost := by
  let s₀ : UringCore F H T := { s with ring := { s.ring with cq := [] } }
  have hout : s₀.ring.outstanding = s.ring.inFlight := by
    simp [s₀, Ring.outstanding, Ring.inFlight, Ring.finished]
  have hs₀ : s₀.Sound := by
    refine h.sound.of_states ⟨?_, ?_, by simp [s₀]⟩ rfl rfl fun _ _ hst => .inl hst
    · intro e he
      rw [hout] at he
      exact h.sound.ring.below e (List.mem_append_left _ he)
    · have hnodup := h.sound.ring.nodup
      rw [Ring.outstanding, List.map_append] at hnodup
      rw [hout]
      exact (List.nodup_append.mp hnodup).1
  rcases hs₀.of_drainAll (s.ring.cq.map Cqe.entry) with ⟨hsound, hring, hhead⟩
  have hpbuf := (drainAll_spec (s.ring.cq.map Cqe.entry) s₀).pbufRing
  have hids : (s₀.drainAll (s.ring.cq.map Cqe.entry)).2.2 = s.unprocessedBufs := by
    rw [drainAll_ids _ s₀, List.filterMap_map, Function.comp_def]
    · simp only [Cqe.entry_bufferIndex]
      rfl
    · intro _ hmem hbuf
      rcases List.mem_map.mp hmem with ⟨c, hc, rfl⟩
      rw [Cqe.entry_bufferIndex] at hbuf
      rw [Cqe.entry_opType]
      exact h.multishot c hc hbuf
  show (replenish (s₀.drainAll (s.ring.cq.map Cqe.entry)).2.2
    (s₀.drainAll (s.ring.cq.map Cqe.entry)).1).Offers bufferCount lost
  rw [hids]
  exact h.of_replenished hsound (by rw [hring]) hpbuf hhead

/-! ## When every buffer comes back -/

/-- What a step loses. -/
def lostBy (s : UringCore F H T) : DrainAct F H T → List UInt16
  | .act (.runTick _ enter _) => if s.Flushes enter then s.unprocessedBufs else []
  | _ => []

theorem lostBy_eq_nil_iff (s : UringCore F H T) (a : DrainAct F H T) :
    lostBy s a = [] ↔ s.KeepsProvided a := by
  cases a with
  | drainCompletions => simp [lostBy, KeepsProvided]
  | act a => cases a <;> simp [lostBy, KeepsProvided]

section
variable [LE T] [DecidableLE T]

theorem step {a : DrainAct F H T} (h : s.Offers bufferCount lost)
    (hstep : drainMachine.step s a = some t) : t.Offers bufferCount (lost ++ lostBy s a) := by
  cases a with
  | drainCompletions =>
    cases hstep
    simpa [lostBy] using h.of_drainCompletions
  | act a =>
    have hstep : machine.step s a = some t := hstep
    have hsound := h.sound.step hstep
    cases a with
    | runTick clock enter pushed =>
      cases hstep
      cases hsubmit : (s.ring.submit enter).2 with
      | error e =>
        have hlost : lostBy s (.act (.runTick clock enter pushed)) = [] :=
          if_neg (by simp [Flushes, hsubmit, Except.isOk, Except.toBool])
        rw [hlost, List.append_nil]
        have hsame := runTick_error scripted clock pushed hsubmit
        exact h.of_same hsound hsame.cq hsame.pbufRing hsame.pbufHead
      | ok n =>
        have hlost : lostBy s (.act (.runTick clock enter pushed)) = s.unprocessedBufs :=
          if_pos (by simp [Flushes, hsubmit, Except.isOk, Except.toBool])
        rw [hlost]
        refine h.of_drained hsound ?_ ?_ ?_
        · rw [(runTick_ring scripted clock pushed hsubmit).1]
        · exact tick_rule (I := fun core => core.pbufRing = s.pbufRing)
            (fun _ _ hst hI => hst.pbufRing.trans hI)
            (fun u c cs _ hI => by rw [processNext_eq]; exact hI) scripted clock enter pushed rfl
        · exact tick_rule (I := fun core => core.pbufHead = s.pbufHead)
            (fun _ _ hst hI => hst.pbufHead.trans hI)
            (fun u c cs _ hI => by rw [processNext_eq]; exact hI) scripted clock enter pushed rfl
    | complete i payload select more =>
      rcases complete_spec hstep with ⟨c, -, -, -, -, hc⟩
      simpa [lostBy] using h.of_completed hc
    | request now enter fd req =>
      cases hstep
      simp only [lostBy, List.append_nil]
      have hsub : s.Submission enter fd req _ := request_spec h.sound now req
      show (s.request now enter fd req).1.Offers bufferCount lost
      have hsound : (s.request now enter fd req).1.Sound := hsound
      generalize (s.request now enter fd req).1 = t at hsub hsound
      cases hsub with
      | recvIssued _ _ _ _ _ hissued _ => exact h.of_same hsound hissued.cq rfl rfl
      | sendIssued _ _ hissued => exact h.of_same hsound hissued.cq rfl rfl
      | sendtoIssued _ _ _ hissued _ => exact h.of_same hsound hissued.cq rfl rfl
      | plainIssued _ _ _ hissued => exact h.of_same hsound hissued.cq rfl rfl
      | _ => exact h.of_same hsound rfl rfl rfl
    | unregisterFd fd =>
      cases hstep
      have heq := unregisterFd_eq h.sound fd
      simp only [lostBy, List.append_nil]
      exact h.of_same hsound (by rw [heq]) (by rw [heq]) (by rw [heq])
    | registerFd fd socketType =>
      cases hstep
      simpa [lostBy] using h.of_same hsound rfl rfl rfl
    | pauseReading fd =>
      cases hstep
      have hsame := SameLedger.of_withFdStates s fd true
      simpa [lostBy] using h.of_same hsound hsame.cq hsame.pbufRing hsame.pbufHead
    | resumeReading fd =>
      cases hstep
      have hsame := SameLedger.of_withFdStates s fd false
      simpa [lostBy] using h.of_same hsound hsame.cq hsame.pbufRing hsame.pbufHead
    | registerFile init update fd =>
      cases hstep
      have hsame := registerFile_ledger init update fd s
      simpa [lostBy] using h.of_same hsound hsame.cq rfl rfl
    | unregisterFile update fd =>
      cases hstep
      have hsame := unregisterFile_ledger update fd s
      simpa [lostBy] using h.of_same hsound hsame.cq rfl rfl
    | submit enter =>
      cases hstep
      simpa [lostBy] using h.of_same hsound (SameLedger.of_submit enter s).cq rfl rfl
    | consume n =>
      cases hstep
      simpa [lostBy] using h.of_same hsound rfl rfl rfl

end

theorem of_new {setup : Setup} {bufferSize : Nat} {core : UringCore F H T}
    (h : new setup bufferSize bufferCount = .ok core) (hring : core.pbufRing.isSome) :
    core.Offers bufferCount [] := by
  have hsound := sound_new h
  rcases new_spec h with ⟨entries, pool, hpool, rfl⟩
  rcases BufferPool.new_ok hpool with ⟨base, hpool⟩
  rcases Option.isSome_iff_exists.mp hring with ⟨r, hr⟩
  have hr : setupPbufRing setup pool = some r := hr
  rcases setupPbufRing_holds hr with ⟨supplied, hholds, hfits, hids⟩
  have hcount : pool.bufferCount = bufferCount := by rw [hpool]
  rw [hcount] at hfits hids
  refine ⟨hsound, ⟨r, supplied, 0, hr, hholds, hfits⟩, ?_, by simp [Ring.new]⟩
  simp only [unprocessedBufs, Ring.new, List.filterMap_nil, List.nil_append, provided]
  rw [hr, ← hids]
  exact List.Perm.of_eq hholds.published_eq

end Offers

section
variable [LE T] [DecidableLE T]

/-- **Replenishment.** At the end of every run of a core with a provided ring, each buffer is on
offer or in a completion not processed if and only if no tick of the run has processed a completion
with a selected buffer. -/
theorem replenished_iff {setup : Setup} {bufferSize bufferCount : Nat} {core t : UringCore F H T}
    {acts : List (DrainAct F H T)} (hnew : new setup bufferSize bufferCount = .ok core)
    (hring : core.pbufRing.isSome) (hrun : drainMachine.run core acts = some t) :
    t.Replenished bufferCount ↔ drainMachine.Meets KeepsProvided core acts := by
  have hstart := Offers.of_new hnew hring
  let μ : UringCore F H T → Nat := fun s => (s.unprocessedBufs ++ s.provided).length
  have hμ {s : UringCore F H T} {lost : List UInt16} (h : s.Offers bufferCount lost) :
      lost.length + μ s = bufferCount := by
    have hlength := h.perm.length_eq
    rwa [List.length_append, bufferIds, List.length_map, List.length_range] at hlength
  constructor
  · intro h
    refine (Machine.meets_of_measure_eq (I := fun s => ∃ lost, s.Offers bufferCount lost) μ
      ?_ ⟨[], hstart⟩ hrun).2 ?_
    · rintro s a u ⟨lost, hs⟩ hstep
      have hu := hs.step hstep
      have hlost : (lost ++ Offers.lostBy s a).length = lost.length + (Offers.lostBy s a).length :=
        List.length_append
      refine ⟨⟨_, hu⟩, by have := hμ hs; have := hμ hu; omega, fun hloses => ?_⟩
      have hne : Offers.lostBy s a ≠ [] := fun hnil =>
        hloses ((Offers.lostBy_eq_nil_iff s a).mp hnil)
      have hpos := List.length_pos_iff.mpr hne
      have := hμ hs
      have := hμ hu
      omega
    · have hlength := h.length_eq
      rw [bufferIds, List.length_map, List.length_range] at hlength
      have hbefore := hμ hstart
      rw [List.length_nil, Nat.zero_add] at hbefore
      exact hlength.trans hbefore.symm
  · intro hmeets
    have hend : t.Offers bufferCount [] := by
      refine Machine.run_invariant (fun s a u hs hkeeps hstep => ?_) hstart hmeets hrun
      have hu := hs.step hstep
      rwa [(Offers.lostBy_eq_nil_iff s a).mpr hkeeps] at hu
    exact hend.perm

end

/-- A multishot receive takes the buffer 0 of two, and its completion is processed by `last`. -/
def multishotRun (last : DrainAct Nat Unit Nat) : List (DrainAct Nat Unit Nat) :=
  [.act (.registerFd 5 "tcp"), .act (.request 0 (.ok 1) 5 (.recvMultishot 7)),
    .act (.consume 1), .act (.complete 0 (.data [1, 2]) true true), last]

/-- `drain_completions` publishes the buffer again. -/
theorem replenished_drainCompletions :
    ∃ core t : UringCore Nat Unit Nat, new Setup.provided 16 2 = .ok core ∧
      core.pbufRing.isSome ∧ drainMachine.run core (multishotRun .drainCompletions) = some t ∧
      t.Replenished 2 :=
  ⟨_, _, rfl, rfl, rfl, (replenished_iff (show new Setup.provided 16 2 = .ok _ from rfl) rfl
    (show drainMachine.run _ (multishotRun .drainCompletions) = some _ from rfl)).mpr (by decide)⟩

/-- A tick does not: one of two buffers is left, and no completion. -/
theorem not_replenished_runTick :
    ∃ core t : UringCore Nat Unit Nat, new Setup.provided 16 2 = .ok core ∧
      core.pbufRing.isSome ∧
      drainMachine.run core (multishotRun (.act (.runTick 0 (.ok 0) []))) = some t ∧
      t.unprocessedBufs = [] ∧ t.provided = [1] :=
  ⟨_, _, rfl, rfl, rfl, rfl, rfl⟩

end UringCore

end Uringcore
