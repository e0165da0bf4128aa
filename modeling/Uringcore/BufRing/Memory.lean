import Uringcore.BufRing.Queue
import Uringcore.Lib.ByteMemory
import Uringcore.Lib.Machine

/-!
# The ring in memory, and what the kernel reads there

`PBufMemory` is the allocation behind a `PBufRing`, byte by byte: a header of 16 bytes whose last
two are the tail, and behind it the entries of 16 bytes each. `toRing` reads it back as the code
means it, and `toRing_addBuffers` says that `add_buffers` does to the bytes what it should.

The kernel reads the same memory by its own layout. There is no header: entry `k` starts at byte
`16 * k`, and the tail lies over the unused last field of entry 0. So what the kernel takes for
entry `k + 1` is the code's entry `k`, and what it takes for entry 0 is the code's header.
-/

namespace Uringcore

/-- What `get_buf` returns: `(u64, u32, u16)`. -/
structure BufDesc where
  addr : UInt64
  len : UInt32
  bid : UInt16
  deriving DecidableEq, Repr

def BufDesc.toBuf (b : BufDesc) : IoUringBuf := ⟨b.addr.toNat, b.len.toNat, b.bid⟩

theorem BufDesc.toBuf_injective : Function.Injective BufDesc.toBuf := by
  rintro ⟨addr, len, bid⟩ ⟨addr', len', bid'⟩ h
  simp only [toBuf, IoUringBuf.mk.injEq, UInt64.toNat_inj, UInt32.toNat_inj] at h
  rw [h.1, h.2.1, h.2.2]

/-- The fields of `io_uring_buf`, at their offsets. -/
def storeBuf (a : Nat) (b : BufDesc) (m : ByteMemory) : ByteMemory :=
  ByteMemory.store (a + 12) 2 b.bid.toNat
    (ByteMemory.store (a + 8) 4 b.len.toNat (ByteMemory.store a 8 b.addr.toNat m))

def loadBuf (a : Nat) (m : ByteMemory) : BufDesc where
  addr := UInt64.ofNat (m.load a 8)
  len := UInt32.ofNat (m.load (a + 8) 4)
  bid := UInt16.ofNat (m.load (a + 12) 2)

structure PBufMemory where
  /-- `layout.size()`. -/
  size : Nat
  ringEntries : UInt16
  mask : UInt16
  bgid : UInt16
  /-- The bytes by their offset from `ptr`. -/
  bytes : ByteMemory

namespace PBufMemory

/-- `size_of::<io_uring_buf_ring_header>()`. -/
def headerSize : Nat := 16

/-- `size_of::<io_uring_buf>()`. -/
def bufSize : Nat := 16

/-- The offset of `tail` in the header. -/
def tailOffset : Nat := 14

def new (alloc : Bool) (ringEntries bgid : UInt16) : Option PBufMemory :=
  if !PBufRing.isPowerOfTwo ringEntries then none
  else if !alloc then none
  else some {
    size := headerSize + bufSize * ringEntries.toNat
    ringEntries, bgid
    mask := ringEntries - 1
    bytes := fun _ => 0 }

def tail (r : PBufMemory) : UInt16 := UInt16.ofNat (r.bytes.load tailOffset 2)

/-- Where `buf_base.add(idx)` points. -/
def bufOffset (idx : Nat) : Nat := headerSize + bufSize * idx

def addBuffers (count : UInt16) (getBuf : UInt16 → BufDesc) (r : PBufMemory) : PBufMemory :=
  { r with
    bytes := ByteMemory.store tailOffset 2 (r.tail + count).toNat
      ((List.range count.toNat).foldl
        (fun m i => storeBuf (bufOffset ((r.tail + UInt16.ofNat i) &&& r.mask).toNat)
          (getBuf (UInt16.ofNat i)) m) r.bytes) }

/-- Where the kernel reads the entry of a position. -/
def kernelOffset (r : PBufMemory) (position : UInt16) : Nat :=
  16 * (position &&& (r.ringEntries - 1)).toNat

def kernelEntry (r : PBufMemory) (position : UInt16) : BufDesc :=
  loadBuf (r.kernelOffset position) r.bytes

/-- The memory as the code means it. -/
def toRing (r : PBufMemory) : PBufRing where
  ringEntries := r.ringEntries
  mask := r.mask
  bgid := r.bgid
  tail := r.tail
  bufs idx := (loadBuf (bufOffset idx) r.bytes).toBuf

end PBufMemory

/-! ## Storing and loading an entry -/

theorem loadBuf_congr {a : Nat} {m m' : ByteMemory} (h : ∀ i, a ≤ i → i < a + 14 → m i = m' i) :
    loadBuf a m = loadBuf a m' := by
  have haddr : m.load a 8 = m'.load a 8 :=
    ByteMemory.load_congr fun i hi hlt => h i hi (by omega)
  have hlen : m.load (a + 8) 4 = m'.load (a + 8) 4 :=
    ByteMemory.load_congr fun i hi hlt => h i (by omega) (by omega)
  have hbid : m.load (a + 12) 2 = m'.load (a + 12) 2 :=
    ByteMemory.load_congr fun i hi hlt => h i (by omega) (by omega)
  rw [loadBuf, loadBuf, haddr, hlen, hbid]

theorem loadBuf_zero (a : Nat) : loadBuf a (fun _ => 0) = ⟨0, 0, 0⟩ := by
  rw [loadBuf, ByteMemory.load_zero, ByteMemory.load_zero, ByteMemory.load_zero]
  rfl

/-- An entry is stored in the first 14 of its 16 bytes. -/
theorem storeBuf_of_disjoint {a i : Nat} (b : BufDesc) (m : ByteMemory)
    (h : i < a ∨ a + 14 ≤ i) : storeBuf a b m i = m i := by
  unfold storeBuf
  rcases h with h | h
  · rw [ByteMemory.store_of_lt _ (by omega), ByteMemory.store_of_lt _ (by omega),
      ByteMemory.store_of_lt _ h]
  · rw [ByteMemory.store_of_le _ (by omega), ByteMemory.store_of_le _ (by omega),
      ByteMemory.store_of_le _ (by omega)]

theorem loadBuf_storeBuf (a : Nat) (b : BufDesc) (m : ByteMemory) :
    loadBuf a (storeBuf a b m) = b := by
  have haddr : (storeBuf a b m).load a 8 = b.addr.toNat := by
    rw [storeBuf, ByteMemory.load_store_of_disjoint _ _ (by omega),
      ByteMemory.load_store_of_disjoint _ _ (by omega)]
    exact ByteMemory.load_store_of_lt _ b.addr.toNat_lt
  have hlen : (storeBuf a b m).load (a + 8) 4 = b.len.toNat := by
    rw [storeBuf, ByteMemory.load_store_of_disjoint _ _ (by omega)]
    exact ByteMemory.load_store_of_lt _ b.len.toNat_lt
  have hbid : (storeBuf a b m).load (a + 12) 2 = b.bid.toNat :=
    ByteMemory.load_store_of_lt _ b.bid.toNat_lt
  rw [loadBuf, haddr, hlen, hbid, UInt64.ofNat_toNat, UInt32.ofNat_toNat, UInt16.ofNat_toNat]

/-- Entry after entry, a store changes one of them. -/
theorem loadBuf_storeBuf_slot (j k : Nat) (b : BufDesc) (m : ByteMemory) :
    loadBuf (PBufMemory.bufOffset k) (storeBuf (PBufMemory.bufOffset j) b m) =
      if k = j then b else loadBuf (PBufMemory.bufOffset k) m := by
  split
  · rename_i heq
    rw [heq]
    exact loadBuf_storeBuf _ b m
  · apply loadBuf_congr
    intro i hi hlt
    apply storeBuf_of_disjoint
    simp only [PBufMemory.bufOffset, PBufMemory.headerSize, PBufMemory.bufSize] at hi hlt ⊢
    omega

namespace PBufMemory

theorem toRing_new {alloc : Bool} {ringEntries bgid : UInt16} {r : PBufMemory}
    (h : new alloc ringEntries bgid = some r) :
    PBufRing.new alloc ringEntries bgid = some r.toRing := by
  unfold new at h
  unfold PBufRing.new
  split at h
  · cases h
  · rename_i hpow
    rw [if_neg hpow]
    split at h
    · cases h
    · rename_i halloc
      cases h
      rw [if_neg halloc, toRing]
      simp only [tail, ByteMemory.load_zero, loadBuf_zero]
      rfl

/-- The loop of `add_buffers` on the bytes is the loop on the entries. -/
theorem loadBuf_foldl (slot : Nat → Nat) (getBuf : Nat → BufDesc) (m : ByteMemory) (n : Nat) :
    (fun k => (loadBuf (bufOffset k) ((List.range n).foldl
      (fun m i => storeBuf (bufOffset (slot i)) (getBuf i) m) m)).toBuf) =
    (List.range n).foldl (fun bufs i => Function.update bufs (slot i) (getBuf i).toBuf)
      fun k => (loadBuf (bufOffset k) m).toBuf := by
  induction n with
  | zero => rfl
  | succ n ih =>
    rw [List.range_succ, List.foldl_append, List.foldl_append, ← ih]
    funext k
    simp only [List.foldl_cons, List.foldl_nil, loadBuf_storeBuf_slot, Function.update_apply]
    split <;> rfl

/-- **`add_buffers` on the bytes is `add_buffers` on the ring.** -/
theorem toRing_addBuffers (count : UInt16) (getBuf : UInt16 → BufDesc) (r : PBufMemory) :
    (r.addBuffers count getBuf).toRing =
      r.toRing.addBuffers count fun i => (getBuf i).toBuf := by
  have htail : (r.addBuffers count getBuf).tail = r.tail + count := by
    have hload : (r.addBuffers count getBuf).bytes.load tailOffset 2 = (r.tail + count).toNat :=
      ByteMemory.load_store_of_lt _ (r.tail + count).toNat_lt
    rw [tail, hload, UInt16.ofNat_toNat]
  have hbufs : (r.addBuffers count getBuf).toRing.bufs =
      (r.toRing.addBuffers count fun i => (getBuf i).toBuf).bufs := by
    have hfold := loadBuf_foldl (fun i => ((r.tail + UInt16.ofNat i) &&& r.mask).toNat)
      (fun i => getBuf (UInt16.ofNat i)) r.bytes count.toNat
    refine Eq.trans ?_ hfold
    funext k
    -- the tail lies before all entries
    have htail : ∀ m, loadBuf (bufOffset k)
        (ByteMemory.store tailOffset 2 (r.tail + count).toNat m) = loadBuf (bufOffset k) m := by
      intro m
      apply loadBuf_congr
      intro i hi _
      apply ByteMemory.store_of_le
      simp only [bufOffset, headerSize, tailOffset] at hi ⊢
      omega
    exact congrArg BufDesc.toBuf (htail _)
  have hring : (r.addBuffers count getBuf).toRing = { r.toRing with
      tail := (r.addBuffers count getBuf).tail
      bufs := (r.addBuffers count getBuf).toRing.bufs } := rfl
  rw [hring, htail, hbufs]
  rfl

/-- What is left of the header when the tail is taken away is never written. -/
def HeaderZero (r : PBufMemory) : Prop := ∀ i < tailOffset, r.bytes i = 0

theorem HeaderZero.addBuffers {r : PBufMemory} (h : r.HeaderZero) (count : UInt16)
    (getBuf : UInt16 → BufDesc) : (r.addBuffers count getBuf).HeaderZero := by
  intro i hi
  have hloop : ∀ n, (List.range n).foldl
      (fun m i => storeBuf (bufOffset ((r.tail + UInt16.ofNat i) &&& r.mask).toNat)
        (getBuf (UInt16.ofNat i)) m) r.bytes i = 0 := by
    intro n
    induction n with
    | zero => exact h i hi
    | succ n ih =>
      rw [List.range_succ, List.foldl_append, List.foldl_cons, List.foldl_nil,
        storeBuf_of_disjoint, ih]
      simp only [bufOffset, headerSize, tailOffset] at hi ⊢
      omega
  show ByteMemory.store tailOffset 2 _ _ i = 0
  rw [ByteMemory.store_of_lt _ hi]
  exact hloop _

/-- The kernel's entry 0 is the header, any other the entry before it. -/
theorem kernelEntry_eq {r : PBufMemory} (hpow : PBufRing.isPowerOfTwo r.ringEntries)
    (hzero : r.HeaderZero) (p : Nat) :
    r.kernelEntry (UInt16.ofNat p) = match p % r.ringEntries.toNat with
      | 0 => loadBuf 0 fun _ => 0
      | k + 1 => loadBuf (bufOffset k) r.bytes := by
  rw [kernelEntry, kernelOffset, PBufRing.slot_eq hpow]
  split
  · rename_i hslot
    rw [hslot]
    apply loadBuf_congr
    intro i _ hi
    apply hzero
    rw [tailOffset]
    omega
  · rename_i k hslot
    rw [hslot]
    congr 1
    rw [bufOffset, headerSize, bufSize]
    omega

/-! ## The kernel's view -/

/-- A ring and the position of the kernel in it. -/
structure Shared where
  ring : PBufMemory
  head : UInt16

inductive RingAct where
  | add (count : UInt16) (getBuf : UInt16 → BufDesc)
  /-- The kernel takes `count` buffers. -/
  | take (count : UInt16)

/-- The ring is never overfilled, and the kernel takes no more than there is. -/
def step (s : Shared) : RingAct → Option Shared
  | .add count getBuf =>
      if (s.ring.tail - s.head).toNat + count.toNat ≤ s.ring.ringEntries.toNat then
        some { s with ring := s.ring.addBuffers count getBuf }
      else none
  | .take count =>
      if count ≤ s.ring.tail - s.head then some { s with head := s.head + count } else none

/-- Everything supplied so far, and how much of it the kernel has taken. -/
structure Supply where
  supplied : List BufDesc
  taken : Nat

def Supply.upd (a : RingAct) (past : Supply) : Supply :=
  match a with
  | .add count getBuf => { past with
      supplied := past.supplied ++ (List.range count.toNat).map fun i => getBuf (UInt16.ofNat i) }
  | .take count => { past with taken := past.taken + count.toNat }

def ringMachine : Machine (Shared × Supply) RingAct :=
  (Machine.mk step).ghost fun _ a _ past => past.upd a

/-- The bytes hold what was supplied, as the code means them. -/
structure Filled (s : Shared) (past : Supply) : Prop where
  holds : s.ring.toRing.Holds s.head (past.supplied.map BufDesc.toBuf) past.taken
  header : s.ring.HeaderZero
  size : s.ring.size = bufOffset s.ring.ringEntries.toNat

theorem new_ok {alloc : Bool} {ringEntries bgid : UInt16} {r : PBufMemory}
    (h : PBufMemory.new alloc ringEntries bgid = some r) :
    r = { size := bufOffset ringEntries.toNat, ringEntries, bgid, mask := ringEntries - 1,
          bytes := fun _ => 0 } := by
  unfold PBufMemory.new at h
  split at h
  · cases h
  · split at h
    · cases h
    · cases h
      rfl

theorem Filled.new {alloc : Bool} {ringEntries bgid : UInt16} {r : PBufMemory}
    (h : PBufMemory.new alloc ringEntries bgid = some r) : Filled ⟨r, 0⟩ ⟨[], 0⟩ where
  holds := PBufRing.Holds.new (toRing_new h)
  header := by
    rw [new_ok h]
    exact fun _ _ => rfl
  size := by rw [new_ok h]

theorem Filled.step {s t : Shared} {past : Supply} {a : RingAct} (h : Filled s past)
    (hstep : step s a = some t) : Filled t (past.upd a) := by
  have hlength := h.holds.published_length
  cases a with
  | add count getBuf =>
    simp only [PBufMemory.step, Option.ite_none_right_eq_some] at hstep
    obtain ⟨hroom, heq⟩ := hstep
    cases heq
    refine ⟨?_, h.header.addBuffers count getBuf, h.size⟩
    have hle := h.holds.le
    have hroom : (s.ring.toRing.tail - s.head).toNat + count.toNat ≤
        s.ring.ringEntries.toNat := hroom
    have hfits : (past.supplied.map BufDesc.toBuf).length + count.toNat ≤
        past.taken + s.ring.toRing.ringEntries.toNat := by
      rw [hlength] at hroom
      show _ ≤ past.taken + s.ring.ringEntries.toNat
      omega
    have hadd := h.holds.addBuffers hfits fun i => (getBuf i).toBuf
    rw [← toRing_addBuffers] at hadd
    show (s.ring.addBuffers count getBuf).toRing.Holds s.head
      ((past.supplied ++ _).map BufDesc.toBuf) past.taken
    rw [List.map_append, List.map_map]
    exact hadd
  | take count =>
    simp only [PBufMemory.step, Option.ite_none_right_eq_some] at hstep
    obtain ⟨hcount, heq⟩ := hstep
    cases heq
    refine ⟨h.holds.take ?_, h.header, h.size⟩
    have hle := h.holds.le
    have hcount : count.toNat ≤ (s.ring.toRing.tail - s.head).toNat :=
      UInt16.le_iff_toNat_le.mp hcount
    omega

theorem Filled.of_run {alloc : Bool} {ringEntries bgid : UInt16} {r : PBufMemory} {s : Shared}
    {past : Supply} {acts : List RingAct} (hnew : PBufMemory.new alloc ringEntries bgid = some r)
    (hrun : ringMachine.run (⟨r, 0⟩, ⟨[], 0⟩) acts = some (s, past)) : Filled s past := by
  refine Machine.run_invariant' (I := fun x : Shared × Supply => Filled x.1 x.2) ?_
    (Filled.new hnew) hrun
  rintro ⟨t, past'⟩ a ⟨u, past''⟩ h hstep
  obtain ⟨hcore, rfl⟩ := Machine.ghost_step_mk.mp hstep
  exact h.step hcore

/-- The buffer in the slot before the one of position `p`, when the last of the supplied buffers
went to position `supplied.length - 1`; none when `p` has slot 0. -/
def slotBefore (n : Nat) (supplied : List BufDesc) (p : Nat) : BufDesc :=
  if p % n = 0 then ⟨0, 0, 0⟩
  else (supplied[if supplied.length = p + n then p + n - 1 else p - 1]?).getD ⟨0, 0, 0⟩

/-- What the kernel finds at a position on offer. -/
theorem Filled.kernelEntry {s : Shared} {past : Supply} (h : Filled s past) {p : Nat}
    (htaken : past.taken ≤ p) (hp : p < past.supplied.length) :
    s.ring.kernelEntry (UInt16.ofNat p) =
      slotBefore s.ring.ringEntries.toNat past.supplied p := by
  have hpow : PBufRing.isPowerOfTwo s.ring.ringEntries := h.holds.pow
  have hpos : 0 < s.ring.ringEntries.toNat := h.holds.entries_pos
  have hroom := h.holds.room
  rw [List.length_map] at hroom
  have hroom : past.supplied.length ≤ past.taken + s.ring.ringEntries.toNat := hroom
  rw [kernelEntry_eq hpow h.header, slotBefore]
  generalize hn : s.ring.ringEntries.toNat = n at *
  cases hslot : p % n with
  | zero => rfl
  | succ k =>
    -- the last position with slot `k`
    have hq : ∃ q, q % n = k ∧ past.supplied.length ≤ q + n ∧
        q = if past.supplied.length = p + n then p + n - 1 else p - 1 := by
      have hmod : (p - 1) % n = k := by
        have hdiv := Nat.div_add_mod p n
        have hlt := Nat.mod_lt p hpos
        have heq : p - 1 = k + n * (p / n) := by omega
        rw [heq, Nat.add_mul_mod_self_left]
        exact Nat.mod_eq_of_lt (by omega)
      have hp0 : p ≠ 0 := by
        intro h0
        rw [h0, Nat.zero_mod] at hslot
        cases hslot
      refine ⟨_, ?_, ?_, rfl⟩
      · split
        · have heq : p + n - 1 = p - 1 + n := by omega
          rw [heq, Nat.add_mod_right]
          exact hmod
        · exact hmod
      · split <;> omega
    obtain ⟨q, hqmod, hqroom, hqeq⟩ := hq
    have hqlt : q < past.supplied.length := by
      rw [hqeq]
      split <;> omega
    have hrecent := h.holds.recent q (past.supplied[q]).toBuf (by
      rw [List.getElem?_map, List.getElem?_eq_getElem hqlt]
      rfl) (by
      rw [List.length_map]
      show _ ≤ q + s.ring.ringEntries.toNat
      omega)
    simp only [toRing, hn, hqmod] at hrecent
    rw [if_neg (Nat.succ_ne_zero k), ← hqeq, List.getElem?_eq_getElem hqlt]
    exact BufDesc.toBuf_injective hrecent

/-- **The kernel's view.** After every run the entry the kernel reads at a position on offer is the
buffer supplied for that position exactly when the slot before it happens to hold the same buffer
(for slot 0, when that buffer is all zeros). It reads inside the allocation, and the tail is never
overwritten. -/
theorem kernel_view_iff {alloc : Bool} {ringEntries bgid : UInt16} {r : PBufMemory} {s : Shared}
    {past : Supply} {acts : List RingAct} (hnew : PBufMemory.new alloc ringEntries bgid = some r)
    (hrun : ringMachine.run (⟨r, 0⟩, ⟨[], 0⟩) acts = some (s, past)) :
    ((∀ p b, past.taken ≤ p → past.supplied[p]? = some b →
        s.ring.kernelEntry (UInt16.ofNat p) = b) ↔
      ∀ p b, past.taken ≤ p → past.supplied[p]? = some b →
        b = slotBefore s.ring.ringEntries.toNat past.supplied p) ∧
    (∀ position, s.ring.kernelOffset position + 16 ≤ s.ring.size) ∧
    s.ring.tail = UInt16.ofNat past.supplied.length ∧ s.head = UInt16.ofNat past.taken := by
  have h := Filled.of_run hnew hrun
  refine ⟨?_, ?_, ?_, h.holds.head⟩
  · have hentry : ∀ p b, past.taken ≤ p → past.supplied[p]? = some b →
        s.ring.kernelEntry (UInt16.ofNat p) =
          slotBefore s.ring.ringEntries.toNat past.supplied p := by
      intro p b htaken hb
      obtain ⟨hp, -⟩ := List.getElem?_eq_some_iff.mp hb
      exact h.kernelEntry htaken hp
    constructor
    · intro hview p b htaken hb
      rw [← hentry p b htaken hb]
      exact (hview p b htaken hb).symm
    · intro hslot p b htaken hb
      rw [hentry p b htaken hb]
      exact (hslot p b htaken hb).symm
  · intro position
    have hpos : 0 < s.ring.ringEntries.toNat := h.holds.entries_pos
    have hslot := PBufRing.slot_eq (n := s.ring.ringEntries) h.holds.pow position.toNat
    rw [UInt16.ofNat_toNat] at hslot
    have hlt := Nat.mod_lt position.toNat hpos
    rw [kernelOffset, hslot, h.size, bufOffset, headerSize, bufSize]
    omega
  · have htail := h.holds.tail
    rw [List.length_map] at htail
    exact htail

/-- Two buffers fill a ring of two, and the kernel takes both. -/
def takenRun : List RingAct := [.add 2 fun i => ⟨4096 + 16 * i.toUInt64, 16, i⟩, .take 2]

theorem kernel_view_taken :
    ∃ (r : PBufMemory) (s : Shared) (past : Supply), PBufMemory.new true 2 1 = some r ∧
      ringMachine.run (⟨r, 0⟩, ⟨[], 0⟩) takenRun = some (s, past) ∧ past.supplied.length = 2 ∧
      (∀ p b, past.taken ≤ p → past.supplied[p]? = some b →
        s.ring.kernelEntry (UInt16.ofNat p) = b) ∧ s.ring.tail = 2 := by
  refine ⟨_, _, _, rfl, rfl, rfl, ?_, rfl⟩
  refine (kernel_view_iff (show PBufMemory.new true 2 1 = some _ from rfl)
    (show ringMachine.run _ takenRun = some (_, _) from rfl)).1.mpr ?_
  intro p b htaken hb
  obtain ⟨hp, -⟩ := List.getElem?_eq_some_iff.mp hb
  exact absurd hp (Nat.not_lt.mpr htaken)

/-- One buffer is supplied to an empty ring, and the kernel finds the header in its place. -/
theorem kernel_reads_header :
    ∃ (r : PBufMemory) (s : Shared) (past : Supply), PBufMemory.new true 2 1 = some r ∧
      ringMachine.run (⟨r, 0⟩, ⟨[], 0⟩) [.add 1 fun _ => ⟨4096, 16, 5⟩] = some (s, past) ∧
      past.taken = 0 ∧ past.supplied[0]? = some ⟨4096, 16, 5⟩ ∧
      s.ring.kernelEntry (UInt16.ofNat 0) = ⟨0, 0, 0⟩ :=
  ⟨_, _, _, rfl, rfl, rfl, rfl, by decide⟩

end PBufMemory

end Uringcore
