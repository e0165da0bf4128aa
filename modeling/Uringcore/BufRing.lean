import Mathlib.Logic.Function.Basic
import Uringcore.Error

/-!
# The provided buffer ring

A ring of `ringEntries` descriptors shared with the kernel. `addBuffers` writes entries from the
16-bit `tail` on, at `position & mask`, and then publishes them by advancing `tail`. The kernel
takes entries from its own `head`; `published` lists the buffer ids between the two, as the ring's
own entry array holds them.
-/

namespace Uringcore

structure IoUringBuf where
  addr : Nat
  len : Nat
  bid : UInt16
  deriving DecidableEq, Repr

structure PBufRing where
  ringEntries : UInt16
  mask : UInt16
  bgid : UInt16
  tail : UInt16
  bufs : Nat → IoUringBuf

namespace PBufRing

/-- `u16::is_power_of_two`. -/
def isPowerOfTwo (n : UInt16) : Bool := n ≠ 0 && n &&& (n - 1) = 0

/-- `new`; `alloc` says whether the allocator returned memory. -/
def new (alloc : Bool) (ringEntries bgid : UInt16) : Option PBufRing :=
  if !isPowerOfTwo ringEntries then none
  else if !alloc then none
  else some {
    ringEntries, bgid
    mask := ringEntries - 1
    tail := 0
    bufs := fun _ => ⟨0, 0, 0⟩ }

/-- `add_buffers`: the `i`-th buffer goes to `(tail + i) & mask`, then the tail moves by `count`. -/
def addBuffers (count : UInt16) (getBuf : UInt16 → IoUringBuf) (r : PBufRing) : PBufRing :=
  { r with
    bufs := (List.range count.toNat).foldl
      (fun bufs i => Function.update bufs ((r.tail + UInt16.ofNat i) &&& r.mask).toNat
        (getBuf (UInt16.ofNat i))) r.bufs
    tail := r.tail + count }

/-- The entry at a ring position. -/
def entry (r : PBufRing) (position : UInt16) : IoUringBuf := r.bufs (position &&& r.mask).toNat

/-- Buffer ids published and not yet taken by a consumer at `head`. -/
def published (r : PBufRing) (head : UInt16) : List UInt16 :=
  (List.range (r.tail - head).toNat).map fun i => (r.entry (head + UInt16.ofNat i)).bid

end PBufRing

end Uringcore
