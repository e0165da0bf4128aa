import Mathlib.Data.Nat.SuccPred
import Mathlib.Data.Set.Lattice
import Mathlib.Order.CompletePartialOrder
import Mathlib.Order.SuccPred.IntervalSucc
import Uringcore.Buffer

/-!
# A new pool

`new` cuts what it has mapped into `buffer_count` buffers and puts all of them on the free list;
`as_iovecs` hands the same buffers to the kernel. An index has 16 bits and a count 64, and both
functions cast the one to the other: `new` casts the count, so that a multiple of 2¹⁶ is lost from the
free list, `as_iovecs` the position, so that it comes round. A new pool is what it is meant to be
(`Whole`) exactly when its count is a 16-bit number.
-/

namespace Uringcore

/-! ## Blocks -/

/-- The addresses of the `i`-th of the blocks of `size` addresses from `base` on. -/
def block (base size i : Nat) : Set Nat := Set.Ico (base + i * size) (base + (i + 1) * size)

theorem monotone_blockStart (base size : Nat) : Monotone fun i => base + i * size := by
  intro i j hij
  have := Nat.mul_le_mul_right size hij
  show base + i * size ≤ base + j * size
  omega

theorem disjoint_block (base size : Nat) {i j : Nat} (h : i ≠ j) :
    Disjoint (block base size i) (block base size j) :=
  (monotone_blockStart base size).pairwise_disjoint_on_Ico_succ h

/-- The first `count` blocks are the interval from the first to the last of their addresses. -/
theorem iUnion_block (base size count : Nat) :
    ⋃ i ∈ List.range count, block base size i = Set.Ico base (base + count * size) := by
  induction count with
  | zero => simp
  | succ count ih =>
    have hstart : base ≤ base + count * size := Nat.le_add_right _ _
    have hend : base + count * size ≤ base + (count + 1) * size :=
      monotone_blockStart base size (Nat.le_succ count)
    rw [List.range_succ]
    simp only [List.mem_append, List.mem_singleton, Set.iUnion_or, Set.iUnion_union_distrib,
      Set.iUnion_iUnion_eq_left]
    rw [ih, block, Set.Ico_union_Ico_eq_Ico hstart hend]

namespace BufferPool

/-- The addresses of an iovec. -/
def Iovec.region (v : Iovec) : Set Nat := Set.Ico v.iovBase (v.iovBase + v.iovLen)

/-- What a new pool is meant to be: every index below the count is free, once, and no other is; the
statistics say so; the iovecs are regions of the right size that do not overlap and are together
the mapped area. -/
structure Whole (base bufferSize bufferCount : Nat) (pool : BufferPool) : Prop where
  freeList : ∀ i, (pool.freeList.map UInt16.toNat).count i = if i < bufferCount then 1 else 0
  stats : pool.stats pool =
    some { total := bufferCount, free := bufferCount, quarantined := 0, inUse := 0 }
  iovecs : pool.asIovecs.length = bufferCount
  size : ∀ v ∈ pool.asIovecs, v.iovLen = bufferSize
  disjoint : pool.asIovecs.Pairwise fun v w => Disjoint v.region w.region
  covers : ⋃ v ∈ pool.asIovecs, v.region = Set.Ico base (base + bufferSize * bufferCount)

section
variable {mmap : Nat → Option Nat} {base bufferSize bufferCount : Nat} {pool : BufferPool}

theorem new_eq (hnew : new mmap bufferSize bufferCount = .ok pool)
    (hmap : mmap (bufferSize * bufferCount) = some base) : pool = {
      base, bufferSize, bufferCount
      freeList := (List.range (bufferCount % 2 ^ 16)).map UInt16.ofNat
      quarantine := []
      generationId := 1
      memory := fun _ => List.replicate bufferSize 0 } := by
  unfold new at hnew
  split at hnew
  · cases hnew
  · rw [hmap] at hnew
    cases hnew
    rfl

/-! ## The free list -/

/-- The cast of an index back and forth is the index, since the loop ends below 2¹⁶. -/
theorem freeList_toNat (hnew : new mmap bufferSize bufferCount = .ok pool)
    (hmap : mmap (bufferSize * bufferCount) = some base) :
    pool.freeList.map UInt16.toNat = List.range (bufferCount % 2 ^ 16) := by
  rw [new_eq hnew hmap, List.map_map]
  conv_rhs => rw [← List.map_id (List.range (bufferCount % 2 ^ 16))]
  apply List.map_congr_left
  intro i hi
  have hlt : i < bufferCount % 2 ^ 16 := List.mem_range.mp hi
  apply UInt16.toNat_ofNat_of_lt'
  show i < 2 ^ 16
  omega

theorem count_range (n i : Nat) : (List.range n).count i = if i < n then 1 else 0 := by
  simp only [List.nodup_range.count, List.mem_range]

/-- Every index is free once if and only if the count is not cut. -/
theorem freeList_count_iff (hnew : new mmap bufferSize bufferCount = .ok pool)
    (hmap : mmap (bufferSize * bufferCount) = some base) :
    (∀ i, (pool.freeList.map UInt16.toNat).count i = if i < bufferCount then 1 else 0) ↔
      bufferCount < 2 ^ 16 := by
  rw [freeList_toNat hnew hmap]
  constructor
  · intro h
    by_contra hge
    -- the first index that is missing
    have hmissing := h (bufferCount % 2 ^ 16)
    rw [count_range, if_neg (Nat.lt_irrefl _), if_pos (by omega)] at hmissing
    cases hmissing
  · intro hlt i
    rw [Nat.mod_eq_of_lt hlt, count_range]

/-! ## The regions -/

/-- With the position cut to 16 bits, the region at position `i` is block `i % 2 ^ 16`. -/
theorem region_asIovecs (hnew : new mmap bufferSize bufferCount = .ok pool)
    (hmap : mmap (bufferSize * bufferCount) = some base) :
    pool.asIovecs.map Iovec.region =
      (List.range bufferCount).map fun i => block base bufferSize (i % 2 ^ 16) := by
  rw [new_eq hnew hmap, asIovecs, List.map_map]
  apply List.map_congr_left
  intro i _
  have hcast : (UInt16.ofNat i).toNat = i % 2 ^ 16 := UInt16.toNat_ofNat'
  show Set.Ico _ _ = Set.Ico _ _
  simp only [getBufferPtr, hcast, Nat.succ_mul, Nat.add_assoc]

/-- The regions are apart if and only if no position comes round, or there is nothing in them. -/
theorem pairwise_disjoint_iff (hnew : new mmap bufferSize bufferCount = .ok pool)
    (hmap : mmap (bufferSize * bufferCount) = some base) :
    (pool.asIovecs.Pairwise fun v w => Disjoint v.region w.region) ↔
      bufferSize = 0 ∨ bufferCount ≤ 2 ^ 16 := by
  rw [← List.pairwise_map, region_asIovecs hnew hmap, List.pairwise_map]
  constructor
  · intro h
    by_contra hnot
    obtain ⟨hsize, hcount⟩ := not_or.mp hnot
    -- positions 0 and 2 ^ 16 are one block, and it is not empty
    have hpair := List.pairwise_iff_getElem.mp h 0 (2 ^ 16) (by simp; omega) (by simp; omega)
      (by decide)
    rw [List.getElem_range, List.getElem_range] at hpair
    have hmem : base ∈ block base bufferSize 0 := by
      simp only [block, Set.mem_Ico]
      omega
    exact Set.disjoint_left.mp hpair hmem hmem
  · rintro (hsize | hcount)
    · apply List.pairwise_of_forall
      intro i j
      rw [hsize]
      simp [block]
    · refine List.nodup_range.imp_of_mem fun {i j} hi hj hne => disjoint_block base bufferSize ?_
      rw [List.mem_range] at hi hj
      rwa [Nat.mod_eq_of_lt (by omega), Nat.mod_eq_of_lt (by omega)]

theorem iUnion_asIovecs (hnew : new mmap bufferSize bufferCount = .ok pool)
    (hmap : mmap (bufferSize * bufferCount) = some base) (hcount : bufferCount ≤ 2 ^ 16) :
    ⋃ v ∈ pool.asIovecs, v.region = Set.Ico base (base + bufferSize * bufferCount) := by
  have hmem : ∀ r, (∃ v ∈ pool.asIovecs, v.region = r) ↔
      ∃ i ∈ List.range bufferCount, block base bufferSize i = r := by
    intro r
    rw [← List.mem_map, region_asIovecs hnew hmap, List.mem_map]
    refine exists_congr fun i => and_congr_right fun hi => ?_
    rw [List.mem_range] at hi
    rw [Nat.mod_eq_of_lt (by omega)]
  rw [Nat.mul_comm, ← iUnion_block]
  ext a
  simp only [Set.mem_iUnion, exists_prop]
  constructor
  · rintro ⟨v, hv, ha⟩
    obtain ⟨i, hi, hblock⟩ := (hmem _).mp ⟨v, hv, rfl⟩
    exact ⟨i, hi, hblock ▸ ha⟩
  · rintro ⟨i, hi, ha⟩
    obtain ⟨v, hv, hregion⟩ := (hmem _).mpr ⟨i, hi, rfl⟩
    exact ⟨v, hv, hregion ▸ ha⟩

/-- A pool that `new` returns is whole if and only if its count fits the index. -/
theorem new_whole_iff (hnew : new mmap bufferSize bufferCount = .ok pool)
    (hmap : mmap (bufferSize * bufferCount) = some base) :
    Whole base bufferSize bufferCount pool ↔ bufferCount < 2 ^ 16 := by
  constructor
  · intro h
    exact (freeList_count_iff hnew hmap).mp h.freeList
  · intro hcount
    have hlength : pool.freeList.length = bufferCount := by
      rw [← List.length_map UInt16.toNat, freeList_toNat hnew hmap, List.length_range,
        Nat.mod_eq_of_lt hcount]
    exact {
      freeList := (freeList_count_iff hnew hmap).mpr hcount
      stats := by
        have hquarantine : pool.quarantine = [] := by rw [new_eq hnew hmap]
        have htotal : pool.bufferCount = bufferCount := by rw [new_eq hnew hmap]
        simp [BufferPool.stats, hlength, hquarantine, htotal]
      iovecs := by
        rw [new_eq hnew hmap]
        simp [asIovecs]
      size := by
        intro v hv
        rw [new_eq hnew hmap] at hv
        obtain ⟨i, -, rfl⟩ := List.mem_map.mp hv
        rfl
      disjoint := (pairwise_disjoint_iff hnew hmap).mpr (.inr (Nat.le_of_lt hcount))
      covers := iUnion_asIovecs hnew hmap (Nat.le_of_lt hcount) }

theorem new_whole_three : ∃ pool, new (fun _ => some 4096) 8 3 = .ok pool ∧
    (Whole 4096 8 3 pool ↔ 3 < 2 ^ 16) :=
  ⟨_, rfl, new_whole_iff (show new (fun _ => some 4096) 8 3 = .ok _ from rfl) rfl⟩

/-- 65536 buffers: the count is cast to zero, and nothing is free. -/
theorem new_whole_fails : ∃ pool, new (fun _ => some 4096) 8 65536 = .ok pool ∧
    pool.freeList = [] ∧ ¬ Whole 4096 8 65536 pool := by
  refine ⟨_, rfl, rfl, fun h => ?_⟩
  have hzero := h.freeList 0
  cases hzero

end

end BufferPool

end Uringcore
