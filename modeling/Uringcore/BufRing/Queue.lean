import Mathlib.Algebra.GroupWithZero.Nat
import Mathlib.Data.List.Nodup
import Uringcore.BufRing
import Uringcore.Lib.Circular
import Uringcore.Lib.Machine

/-!
# The ring as a queue

The 16-bit tail of a ring and the consumer's 16-bit head are positions in an endless sequence of
buffers, cut off at 16 bits. `Holds` says so: `supplied` is everything `addBuffers` was ever given,
`taken` how much of it the consumer has passed, and slot `p % ringEntries` of the entry array holds
the buffer of position `p` for the last `ringEntries` positions.
-/

namespace Uringcore.PBufRing

/-- The ring after `supplied`, with a consumer that is past the first `taken`. -/
structure Holds (r : PBufRing) (head : UInt16) (supplied : List IoUringBuf) (taken : Nat) :
    Prop where
  pow : isPowerOfTwo r.ringEntries
  mask : r.mask = r.ringEntries - 1
  tail : r.tail = UInt16.ofNat supplied.length
  head : head = UInt16.ofNat taken
  le : taken ≤ supplied.length
  room : supplied.length ≤ taken + r.ringEntries.toNat
  recent : Circular.Recent r.ringEntries.toNat r.bufs supplied

/-- A power of two among the 16-bit numbers. -/
theorem exists_pow_of_isPowerOfTwo {n : UInt16} (h : isPowerOfTwo n) :
    ∃ k < 16, n.toNat = 2 ^ k := by
  simp only [isPowerOfTwo, Bool.and_eq_true, decide_eq_true_eq] at h
  have hne : n.toNat ≠ 0 := fun h0 => h.1 (UInt16.toNat_inj.mp h0)
  have hone : (1 : UInt16) ≤ n := by
    rw [UInt16.le_iff_toNat_le]
    exact Nat.one_le_iff_ne_zero.mpr hne
  have hand : n.toNat &&& (n.toNat - 1) = 0 := by
    have hsub := UInt16.toNat_sub_of_le n 1 hone
    have h0 := congrArg UInt16.toNat h.2
    rw [UInt16.toNat_and, hsub] at h0
    exact h0
  obtain ⟨k, hk⟩ := (Nat.ne_zero_and_sub_one_eq_zero_iff_isPowerOfTwo).mp ⟨hne, hand⟩
  refine ⟨k, ?_, hk⟩
  have hlt := n.toNat_lt
  rw [hk] at hlt
  exact (Nat.pow_lt_pow_iff_right (by omega)).mp hlt

/-- Masking a position gives its slot. -/
theorem slot_eq {n : UInt16} (h : isPowerOfTwo n) (p : Nat) :
    (UInt16.ofNat p &&& (n - 1)).toNat = p % n.toNat := by
  obtain ⟨k, hk, hn⟩ := exists_pow_of_isPowerOfTwo h
  have hpos : 0 < 2 ^ k := Nat.two_pow_pos k
  have hone : (1 : UInt16) ≤ n := by
    rw [UInt16.le_iff_toNat_le, hn]
    exact hpos
  rw [UInt16.toNat_and, UInt16.toNat_sub_of_le n 1 hone, UInt16.toNat_ofNat', hn]
  show p % 2 ^ 16 &&& (2 ^ k - 1) = p % 2 ^ k
  rw [Nat.and_two_pow_sub_one_eq_mod]
  exact Nat.mod_mod_of_dvd p (Nat.pow_dvd_pow 2 (Nat.le_of_lt hk))

namespace Holds

variable {r : PBufRing} {head : UInt16} {supplied : List IoUringBuf} {taken : Nat}

theorem entries_pos (h : r.Holds head supplied taken) : 0 < r.ringEntries.toNat := by
  obtain ⟨k, -, hk⟩ := exists_pow_of_isPowerOfTwo h.pow
  rw [hk]
  exact Nat.two_pow_pos k

theorem entries_le (h : r.Holds head supplied taken) : r.ringEntries.toNat ≤ 2 ^ 15 := by
  obtain ⟨k, hk, hn⟩ := exists_pow_of_isPowerOfTwo h.pow
  rw [hn]
  exact Nat.pow_le_pow_right (by omega) (by omega)

/-- The 16-bit difference of tail and head is the number of buffers on offer. -/
theorem published_length (h : r.Holds head supplied taken) :
    (r.tail - head).toNat = supplied.length - taken := by
  have hle := h.le
  have hroom := h.room
  have hentries := h.entries_le
  rw [h.tail, h.head, UInt16.toNat_sub, UInt16.toNat_ofNat', UInt16.toNat_ofNat']
  omega

/-- The entry at a position on offer is the buffer supplied for it. -/
theorem entry_eq (h : r.Holds head supplied taken) {p : Nat} (htaken : taken ≤ p)
    (hp : p < supplied.length) : r.entry (UInt16.ofNat p) = supplied[p] := by
  have hroom := h.room
  rw [entry, h.mask, slot_eq h.pow]
  exact h.recent p _ (List.getElem?_eq_getElem hp) (by omega)

/-- **`add_buffers` appends.** -/
theorem addBuffers (h : r.Holds head supplied taken) {count : UInt16}
    (hroom : supplied.length + count.toNat ≤ taken + r.ringEntries.toNat)
    (getBuf : UInt16 → IoUringBuf) :
    (r.addBuffers count getBuf).Holds head
      (supplied ++ (List.range count.toNat).map fun i => getBuf (UInt16.ofNat i)) taken := by
  have htail : ∀ i, r.tail + UInt16.ofNat i = UInt16.ofNat (supplied.length + i) := by
    intro i
    rw [h.tail, UInt16.ofNat_add]
  have hslot : ∀ i, ((r.tail + UInt16.ofNat i) &&& r.mask).toNat =
      (supplied.length + i) % r.ringEntries.toNat := by
    intro i
    rw [htail, h.mask, slot_eq h.pow]
  have hrecent := h.recent.pushAll (fun i => getBuf (UInt16.ofNat i)) count.toNat
  simp only [← hslot] at hrecent
  exact {
    pow := h.pow
    mask := h.mask
    tail := by
      rw [List.length_append, List.length_map, List.length_range, ← htail]
      show r.tail + count = r.tail + UInt16.ofNat count.toNat
      rw [UInt16.ofNat_toNat]
    head := h.head
    le := by
      rw [List.length_append]
      exact Nat.le_trans h.le (Nat.le_add_right ..)
    room := by
      rw [List.length_append, List.length_map, List.length_range]
      exact hroom
    recent := hrecent }

/-- The consumer takes `count` buffers. -/
theorem take (h : r.Holds head supplied taken) {count : UInt16}
    (hcount : taken + count.toNat ≤ supplied.length) :
    r.Holds (head + count) supplied (taken + count.toNat) where
  pow := h.pow
  mask := h.mask
  tail := h.tail
  head := by
    rw [h.head, UInt16.ofNat_add, UInt16.ofNat_toNat]
  le := hcount
  room := Nat.le_trans h.room (by omega)
  recent := h.recent

/-- A new ring holds nothing. -/
theorem new {alloc : Bool} {ringEntries bgid : UInt16} {r : PBufRing}
    (h : PBufRing.new alloc ringEntries bgid = some r) : r.Holds 0 [] 0 := by
  unfold PBufRing.new at h
  split at h
  · cases h
  · rename_i hpow
    split at h
    · cases h
    · cases h
      exact ⟨by simpa using hpow, rfl, rfl, rfl, Nat.le_refl 0, Nat.zero_le _, Circular.Recent.nil⟩

end Holds

/-! ## Runs -/

/-- What happens to a ring: buffers are supplied, or the consumer goes on by `count`. -/
inductive Act where
  | add (count : UInt16) (getBuf : UInt16 → IoUringBuf)
  | take (count : UInt16)

namespace Act

/-- The buffers a call supplies, in order. -/
def supplied : Act → List IoUringBuf
  | add count getBuf => (List.range count.toNat).map fun i => getBuf (UInt16.ofNat i)
  | take _ => []

def taken : Act → Nat
  | add .. => 0
  | take count => count.toNat

end Act

/-- The ring with the consumer's head. No more is supplied than there is room for, and no more taken
than is on offer. -/
def machine : Machine (PBufRing × UInt16) Act where
  step
    | (r, head), .add count getBuf =>
        if (r.tail - head).toNat + count.toNat ≤ r.ringEntries.toNat then
          some (r.addBuffers count getBuf, head)
        else none
    | (r, head), .take count =>
        if count.toNat ≤ (r.tail - head).toNat then some (r, head + count) else none

/-- The entries at the positions from `head` up to the tail. -/
def onOffer (r : PBufRing) (head : UInt16) : List IoUringBuf :=
  (List.range (r.tail - head).toNat).map fun i => r.entry (head + UInt16.ofNat i)

/-- The slots that `add_buffers` writes. -/
def slotsWritten (r : PBufRing) (count : UInt16) : List Nat :=
  (List.range count.toNat).map fun i => ((r.tail + UInt16.ofNat i) &&& r.mask).toNat

/-- The ring offers `rest`. A call for which there is room writes different slots, none of them that
of an entry on offer. -/
structure Offers (r : PBufRing) (head : UInt16) (rest : List IoUringBuf) : Prop where
  onOffer : r.onOffer head = rest
  nodup : ∀ count : UInt16, (r.tail - head).toNat + count.toNat ≤ r.ringEntries.toNat →
    (r.slotsWritten count).Nodup
  apart : ∀ count : UInt16, (r.tail - head).toNat + count.toNat ≤ r.ringEntries.toNat →
    ∀ i < (r.tail - head).toNat,
      ((head + UInt16.ofNat i) &&& r.mask).toNat ∉ r.slotsWritten count

namespace Holds

variable {r r' : PBufRing} {head head' : UInt16} {supplied : List IoUringBuf} {taken : Nat}

/-- A ring whose consumer is at the tail: whatever is in the array, it counts as taken. -/
theorem start (hpow : isPowerOfTwo r.ringEntries) (hmask : r.mask = r.ringEntries - 1) :
    ∃ past, r.Holds r.tail past past.length := by
  have hlength : ((List.range r.tail.toNat).map fun p => r.bufs (p % r.ringEntries.toNat)).length =
      r.tail.toNat := by
    rw [List.length_map, List.length_range]
  have htail : r.tail = UInt16.ofNat r.tail.toNat := UInt16.ofNat_toNat.symm
  refine ⟨(List.range r.tail.toNat).map fun p => r.bufs (p % r.ringEntries.toNat), hpow, hmask,
    ?_, ?_, Nat.le_refl _, Nat.le_add_right .., ?_⟩
  · rwa [hlength]
  · rwa [hlength]
  · intro p a hp hlap
    rw [List.getElem?_map, Option.map_eq_some_iff] at hp
    obtain ⟨q, hq, rfl⟩ := hp
    obtain ⟨hlt, rfl⟩ := List.getElem?_eq_some_iff.mp hq
    rw [List.getElem_range]

/-- What a step adds to what was supplied, and what it takes. -/
theorem step (h : r.Holds head supplied taken) {a : Act}
    (hstep : machine.step (r, head) a = some (r', head')) :
    r'.Holds head' (supplied ++ a.supplied) (taken + a.taken) := by
  have hlength := h.published_length
  have hle := h.le
  cases a with
  | add count getBuf =>
    simp only [machine, Option.ite_none_right_eq_some] at hstep
    obtain ⟨hroom, heq⟩ := hstep
    cases heq
    exact h.addBuffers (by omega) getBuf
  | take count =>
    simp only [machine, Option.ite_none_right_eq_some] at hstep
    obtain ⟨hcount, heq⟩ := hstep
    cases heq
    rw [Act.supplied, List.append_nil]
    exact h.take (by omega)

theorem run (h : r.Holds head supplied taken) {acts : List Act}
    (hrun : machine.run (r, head) acts = some (r', head')) :
    r'.Holds head' (supplied ++ acts.flatMap Act.supplied) (taken + (acts.map Act.taken).sum) := by
  induction acts generalizing r head supplied taken with
  | nil =>
    cases hrun
    simpa using h
  | cons a acts ih =>
    obtain ⟨⟨r₁, head₁⟩, hstep, hrest⟩ := machine.run_cons_eq_some.mp hrun
    rw [List.flatMap_cons, List.map_cons, List.sum_cons, ← List.append_assoc, ← Nat.add_assoc]
    exact ih (h.step hstep) hrest

/-- The slot of a position that is not taken yet, or not supplied yet. -/
theorem slot_head (h : r.Holds head supplied taken) (i : Nat) :
    ((head + UInt16.ofNat i) &&& r.mask).toNat = (taken + i) % r.ringEntries.toNat := by
  rw [h.head, ← UInt16.ofNat_add, h.mask, slot_eq h.pow]

theorem slot_tail (h : r.Holds head supplied taken) (i : Nat) :
    ((r.tail + UInt16.ofNat i) &&& r.mask).toNat = (supplied.length + i) % r.ringEntries.toNat := by
  rw [h.tail, ← UInt16.ofNat_add, h.mask, slot_eq h.pow]

theorem onOffer_eq (h : r.Holds head supplied taken) : r.onOffer head = supplied.drop taken := by
  have hlength := h.published_length
  apply List.ext_getElem
  · rw [onOffer, List.length_map, List.length_range, List.length_drop, hlength]
  · intro i hi hi'
    rw [List.length_drop] at hi'
    have hentry := h.entry_eq (Nat.le_add_right taken i) (by omega)
    simp only [onOffer, List.getElem_map, List.getElem_range, List.getElem_drop]
    rwa [h.head, ← UInt16.ofNat_add]

theorem offers (h : r.Holds head supplied taken) : r.Offers head (supplied.drop taken) := by
  have hlength := h.published_length
  have hle := h.le
  refine ⟨h.onOffer_eq, fun count hcount => ?_, fun count hcount i hi hmem => ?_⟩
  · refine List.Nodup.map_on ?_ List.nodup_range
    intro i hi j hj heq
    rw [List.mem_range] at hi hj
    rw [h.slot_tail, h.slot_tail] at heq
    -- two different positions of one call are less than a lap apart
    rcases Nat.lt_trichotomy i j with hlt | hij | hgt
    · exact absurd heq (Circular.slot_ne (by omega) (by omega))
    · exact hij
    · exact absurd heq.symm (Circular.slot_ne (by omega) (by omega))
  · obtain ⟨j, hj, heq⟩ := List.mem_map.mp hmem
    rw [List.mem_range] at hj
    rw [h.slot_tail, h.slot_head] at heq
    exact absurd heq.symm (Circular.slot_ne (by omega) (by omega))

end Holds

/-- **The ring is a queue.** From any tail on, through any number of calls and wraps, the entries
between the consumer's head and the tail are the buffers supplied and not yet taken, in order. -/
theorem offers_run {r : PBufRing} (hpow : isPowerOfTwo r.ringEntries)
    (hmask : r.mask = r.ringEntries - 1) {acts : List Act} {r' : PBufRing} {head : UInt16}
    (hrun : machine.run (r, r.tail) acts = some (r', head)) :
    r'.Offers head ((acts.flatMap Act.supplied).drop (acts.map Act.taken).sum) := by
  obtain ⟨past, hstart⟩ := Holds.start hpow hmask
  have hoffers := (hstart.run hrun).offers
  rwa [List.drop_length_add_append] at hoffers

/-- A ring of two entries, its tail about to wrap. -/
def wrapping : PBufRing := ⟨2, 1, 0, 65535, fun _ => ⟨0, 0, 0⟩⟩

theorem offers_run_wrapping :
    ∃ r' head, machine.run (wrapping, wrapping.tail)
        [.add 2 fun i => ⟨0, 8, i⟩, .take 1, .add 1 fun _ => ⟨0, 8, 7⟩] = some (r', head) ∧
      r'.Offers head [⟨0, 8, 1⟩, ⟨0, 8, 7⟩] :=
  ⟨_, _, rfl, offers_run (r := wrapping) (by decide) (by decide)
    (show machine.run (wrapping, wrapping.tail)
      [.add 2 fun i => ⟨0, 8, i⟩, .take 1, .add 1 fun _ => ⟨0, 8, 7⟩] = some (_, _) from rfl)⟩

end Uringcore.PBufRing
