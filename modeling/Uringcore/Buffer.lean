import Mathlib.Logic.Function.Basic
import Uringcore.Error

/-!
# The buffer pool

The pool is one mapped area cut into `bufferCount` buffers of `bufferSize` bytes. Two lock-free
queues hold indices: `freeList` (pushed at the back, popped at the front) and `quarantine`, which
`acquire` still drains although nothing has pushed to it since releases became immediate.

The contents of the area are part of the model (`memory`): what a receive delivers is what the
kernel last wrote into *the buffer the completion is matched with*, and whether that is the
operation's own buffer is the question the ownership results are about.
-/

namespace Uringcore

structure QuarantineEntry where
  index : UInt16
  /-- `Instant`, in nanoseconds. -/
  releaseTime : Nat
  deriving DecidableEq, Repr

structure BufferPool where
  /-- Address of the mapped area. -/
  base : Nat
  bufferSize : Nat
  bufferCount : Nat
  freeList : List UInt16
  quarantine : List QuarantineEntry
  generationId : UInt64
  memory : UInt16 → Bytes

structure BufferPoolStats where
  total : Nat
  free : Nat
  quarantined : Nat
  inUse : Nat
  deriving DecidableEq, Repr

namespace BufferPool

/-- `QUARANTINE_DURATION`, in nanoseconds. -/
def quarantineDuration : Nat := 1000

/-- `new`; `mmap` answers the mapping request with an address, or refuses it. The indices pushed are
`0..buffer_count as u16`: the cast keeps the low 16 bits of the count. -/
def new (mmap : Nat → Option Nat) (bufferSize bufferCount : Nat) : Except Error BufferPool :=
  if 2 ^ 64 ≤ bufferSize * bufferCount then .error (.bufferAllocation "size overflow")
  else match mmap (bufferSize * bufferCount) with
    | none => .error (.bufferAllocation "mmap failed")
    | some base => .ok {
        base, bufferSize, bufferCount
        freeList := (List.range (bufferCount % 2 ^ 16)).map UInt16.ofNat
        quarantine := []
        generationId := 1
        memory := fun _ => List.replicate bufferSize 0 }

/-- The `while let` loop of `reclaim_quarantined`: expired entries go to the free list, the first
one that is not expired goes to the back of the quarantine and ends the loop. -/
def reclaim (now : Nat) : List QuarantineEntry → List UInt16 → List UInt16 × List QuarantineEntry
  | [], free => (free, [])
  | e :: rest, free =>
      if quarantineDuration ≤ now - e.releaseTime then reclaim now rest (free ++ [e.index])
      else (free, rest ++ [e])

def reclaimQuarantined (now : Nat) (pool : BufferPool) : BufferPool :=
  let r := reclaim now pool.quarantine pool.freeList
  { pool with freeList := r.1, quarantine := r.2 }

/-- `acquire` at the instant `now`. -/
def acquire (now : Nat) (pool : BufferPool) : BufferPool × Option UInt16 :=
  let pool := pool.reclaimQuarantined now
  match pool.freeList with
  | [] => (pool, none)
  | i :: rest => ({ pool with freeList := rest }, some i)

/-- `release`: a stale generation drops the index, otherwise it goes to the back of the free list. -/
def release (index : UInt16) (generationId : UInt64) (pool : BufferPool) : BufferPool :=
  if generationId ≠ pool.generationId then pool
  else { pool with freeList := pool.freeList ++ [index] }

/-- `increment_generation`, with the new generation it returns. -/
def incrementGeneration (pool : BufferPool) : BufferPool × UInt64 :=
  ({ pool with generationId := pool.generationId + 1 }, pool.generationId + 1)

/-- `stats`, which reads the length of the free list first, and that of the quarantine from the pool
as it is `later`. `none` is an underflow of a subtraction. -/
def stats (pool later : BufferPool) : Option BufferPoolStats :=
  let freeCount := pool.freeList.length
  let quarantineCount := later.quarantine.length
  if freeCount ≤ pool.bufferCount ∧ quarantineCount ≤ pool.bufferCount - freeCount then
    some {
      total := pool.bufferCount
      free := freeCount
      quarantined := quarantineCount
      inUse := pool.bufferCount - freeCount - quarantineCount }
  else none

/-- `get_buffer_ptr` as an address. -/
def getBufferPtr (pool : BufferPool) (index : UInt16) : Nat :=
  pool.base + index.toNat * pool.bufferSize

structure Iovec where
  iovBase : Nat
  iovLen : Nat
  deriving DecidableEq, Repr

/-- `as_iovecs`, with the cast of the position to a `u16`. -/
def asIovecs (pool : BufferPool) : List Iovec :=
  (List.range pool.bufferCount).map fun i =>
    { iovBase := pool.getBufferPtr (UInt16.ofNat i), iovLen := pool.bufferSize }

/-- `get_buffer_slice`: the first `len` bytes of a buffer, never more than the buffer. -/
def getBufferSlice (pool : BufferPool) (index : UInt16) (len : Nat) : Bytes :=
  (pool.memory index).take (min len pool.bufferSize)

/-- Store `data` at the start of a buffer, as a copy into its slice or the kernel does. -/
def write (index : UInt16) (data : Bytes) (pool : BufferPool) : BufferPool :=
  { pool with memory :=
      Function.update pool.memory index (data ++ (pool.memory index).drop data.length) }

/-! ## What the operations change -/

theorem new_ok {mmap : Nat → Option Nat} {bufferSize bufferCount : Nat} {pool : BufferPool}
    (h : new mmap bufferSize bufferCount = .ok pool) : ∃ base, pool = {
      base, bufferSize, bufferCount
      freeList := (List.range (bufferCount % 2 ^ 16)).map UInt16.ofNat
      quarantine := []
      generationId := 1
      memory := fun _ => List.replicate bufferSize 0 } := by
  unfold new at h
  split at h
  · cases h
  · split at h
    · cases h
    · rename_i base _
      cases h
      exact ⟨base, rfl⟩

/-- With nothing in quarantine, `acquire` is the front of the free list. -/
theorem acquire_of_quarantine_nil {pool : BufferPool} (h : pool.quarantine = []) (now : Nat) :
    pool.acquire now = match pool.freeList with
      | [] => (pool, none)
      | i :: rest => ({ pool with freeList := rest }, some i) := by
  have hr : pool.reclaimQuarantined now = pool := by
    cases pool
    cases h
    rfl
  rw [acquire, hr]

@[simp] theorem release_own (index : UInt16) (pool : BufferPool) :
    pool.release index pool.generationId = { pool with freeList := pool.freeList ++ [index] } := by
  simp [release]

@[simp] theorem write_freeList (index : UInt16) (data : Bytes) (pool : BufferPool) :
    (pool.write index data).freeList = pool.freeList := rfl

@[simp] theorem write_quarantine (index : UInt16) (data : Bytes) (pool : BufferPool) :
    (pool.write index data).quarantine = pool.quarantine := rfl

@[simp] theorem write_generationId (index : UInt16) (data : Bytes) (pool : BufferPool) :
    (pool.write index data).generationId = pool.generationId := rfl

@[simp] theorem write_bufferSize (index : UInt16) (data : Bytes) (pool : BufferPool) :
    (pool.write index data).bufferSize = pool.bufferSize := rfl

theorem write_memory_ne {index j : UInt16} (h : j ≠ index) (data : Bytes) (pool : BufferPool) :
    (pool.write index data).memory j = pool.memory j :=
  Function.update_of_ne h _ _

/-- What was just written is what a slice of its length reads. -/
theorem getBufferSlice_write {pool : BufferPool} {data : Bytes} (h : data.length ≤ pool.bufferSize)
    (index : UInt16) : (pool.write index data).getBufferSlice index data.length = data := by
  simp [getBufferSlice, write, h]

end BufferPool

end Uringcore
