import Uringcore.Lib.AssocList
import Uringcore.State

/-!
# The registered-file table

The mirror the ring keeps of the kernel's registered files: `indexMap` says at which slot a
descriptor is registered, `files` what each slot holds (`-1` for none), and `freeIndices` is the
stack of unused slots, its top first. Every `prep_*` consults `getIndex`.
-/

namespace Uringcore

structure FixedFdTable where
  indexMap : FdMap UInt32
  files : List Fd
  freeIndices : List UInt32

namespace FixedFdTable

/-- `new`: every slot empty, slot 0 on top of the stack. -/
def new (capacity : UInt32) : FixedFdTable where
  indexMap := ∅
  files := List.replicate capacity.toNat (-1)
  freeIndices := (List.range capacity.toNat).map UInt32.ofNat

/-- The loop of `init_from_slice` at slot `e.2`. -/
def enter (capacity : UInt32) (m : FdMap UInt32) (e : Fd × Nat) : FdMap UInt32 :=
  if e.2 < capacity.toNat ∧ e.1 ≠ -1 then m.insert e.1 (UInt32.ofNat e.2) else m

/-- `init_from_slice`: slot `i` holds the `i`-th descriptor, and `-1` says that it is free. Of the
slots of a descriptor that occurs twice, the map has the last. -/
def initFromSlice (capacity : UInt32) (fds : List Fd) : FixedFdTable where
  indexMap := fds.zipIdx.foldl (enter capacity) ∅
  files := (List.range capacity.toNat).map fun i => fds[i]?.getD (-1)
  freeIndices := ((List.range capacity.toNat).filter fun i =>
    fds.length ≤ i ∨ fds[i]? = some (-1)).map UInt32.ofNat

/-- `insert`: a registered descriptor keeps its slot, another takes the top of the stack. -/
def insert (fd : Fd) (t : FixedFdTable) : FixedFdTable × Option UInt32 :=
  match t.indexMap.lookup fd with
  | some idx => (t, some idx)
  | none => match t.freeIndices with
    | [] => (t, none)
    | idx :: rest => ({
        indexMap := t.indexMap.insert fd idx
        files := t.files.set idx.toNat fd
        freeIndices := rest }, some idx)

/-- `remove`: the slot is emptied and goes back on the stack. -/
def remove (fd : Fd) (t : FixedFdTable) : FixedFdTable × Option UInt32 :=
  match t.indexMap.lookup fd with
  | none => (t, none)
  | some idx => ({
      indexMap := t.indexMap.erase fd
      files := t.files.set idx.toNat (-1)
      freeIndices := idx :: t.freeIndices }, some idx)

def getIndex (fd : Fd) (t : FixedFdTable) : Option UInt32 := t.indexMap.lookup fd

/-! ## No slot is given out twice -/

/-- Two descriptors never share a slot, and a slot in use is not on the stack. -/
structure Apart (t : FixedFdTable) : Prop where
  injective : ∀ fd fd' idx, t.getIndex fd = some idx → t.getIndex fd' = some idx → fd = fd'
  used : ∀ fd idx, t.getIndex fd = some idx → idx ∉ t.freeIndices
  nodup : t.freeIndices.Nodup

@[simp] theorem getIndex_new (capacity : UInt32) (fd : Fd) : (new capacity).getIndex fd = none :=
  AList.lookup_empty fd

theorem Apart.new {capacity : UInt32} : (new capacity).Apart where
  injective fd fd' idx h := by simp at h
  used fd idx h := by simp at h
  nodup := by
    have hcap := capacity.toNat_lt
    refine List.Nodup.map_on ?_ List.nodup_range
    intro i hi j hj heq
    have hnat := congrArg UInt32.toNat heq
    rw [List.mem_range] at hi hj
    rwa [UInt32.toNat_ofNat_of_lt' (Nat.lt_trans hi hcap),
      UInt32.toNat_ofNat_of_lt' (Nat.lt_trans hj hcap)] at hnat

/-- A registered descriptor keeps its slot. -/
theorem insert_of_getIndex {fd : Fd} {t : FixedFdTable} {idx : UInt32}
    (h : t.getIndex fd = some idx) : t.insert fd = (t, some idx) := by
  have h : t.indexMap.lookup fd = some idx := h
  unfold insert
  rw [h]

/-- All that inserting an unknown descriptor does. -/
theorem insert_spec {fd : Fd} {t : FixedFdTable} (hnew : t.getIndex fd = none) :
    (t.freeIndices = [] ∧ t.insert fd = (t, none)) ∨
    ∃ idx rest t', t.freeIndices = idx :: rest ∧ t.insert fd = (t', some idx) ∧
      t'.freeIndices = rest ∧
      ∀ fd', t'.getIndex fd' = if fd' = fd then some idx else t.getIndex fd' := by
  have hnew : t.indexMap.lookup fd = none := hnew
  unfold insert
  rw [hnew]
  cases hfree : t.freeIndices with
  | nil => exact .inl ⟨rfl, rfl⟩
  | cons idx rest =>
    refine .inr ⟨idx, rest, _, rfl, rfl, rfl, fun fd' => ?_⟩
    by_cases hfd : fd' = fd
    · rw [hfd, if_pos rfl]
      exact AList.lookup_insert ..
    · rw [if_neg hfd]
      exact AList.lookup_insert_ne hfd

/-- A descriptor that is inserted is at the slot that is answered, and the others stay. -/
theorem getIndex_insert {fd other : Fd} {t : FixedFdTable} {idx : UInt32}
    (h : (t.insert fd).2 = some idx) :
    (t.insert fd).1.getIndex other = if other = fd then some idx else t.getIndex other := by
  cases hidx : t.getIndex fd with
  | some idx' =>
    rw [insert_of_getIndex hidx] at h ⊢
    split
    · rename_i hfd
      rw [hfd, hidx]
      exact h
    · rfl
  | none =>
    rcases insert_spec hidx with ⟨-, heq⟩ | ⟨idx', rest, t', -, heq, -, hget⟩
    · rw [heq] at h
      cases h
    · rw [heq] at h ⊢
      cases h
      exact hget other

/-- All that removing does. -/
theorem remove_spec (fd : Fd) (t : FixedFdTable) :
    (t.getIndex fd = none ∧ t.remove fd = (t, none)) ∨
    ∃ idx t', t.getIndex fd = some idx ∧ t.remove fd = (t', some idx) ∧
      t'.freeIndices = idx :: t.freeIndices ∧
      ∀ fd', t'.getIndex fd' = if fd' = fd then none else t.getIndex fd' := by
  unfold remove getIndex
  cases hidx : t.indexMap.lookup fd with
  | none => exact .inl ⟨rfl, rfl⟩
  | some idx =>
    refine .inr ⟨idx, _, rfl, rfl, rfl, fun fd' => ?_⟩
    by_cases hfd : fd' = fd
    · rw [hfd, if_pos rfl]
      exact AList.lookup_erase ..
    · rw [if_neg hfd]
      exact AList.lookup_erase_ne hfd

theorem Apart.insert {fd : Fd} {t : FixedFdTable} (h : t.Apart) : (t.insert fd).1.Apart := by
  cases hidx : t.getIndex fd with
  | some idx =>
    rw [insert_of_getIndex hidx]
    exact h
  | none =>
    rcases insert_spec hidx with ⟨-, heq⟩ | ⟨idx, rest, t', hfree, heq, hrest, hget⟩
    · rw [heq]
      exact h
    · rw [heq]
      have hnodup := h.nodup
      rw [hfree, List.nodup_cons] at hnodup
      -- the slot from the stack was nobody's
      have hfresh : ∀ fd' idx', t.getIndex fd' = some idx' → idx' ≠ idx ∧ idx' ∉ rest := by
        intro fd' idx' hidx'
        have hnot := h.used fd' idx' hidx'
        rw [hfree, List.mem_cons, not_or] at hnot
        exact hnot
      refine ⟨fun fd₁ fd₂ i h₁ h₂ => ?_, fun fd₁ i h₁ => ?_, ?_⟩
      · rw [hget] at h₁ h₂
        split at h₁ <;> split at h₂
        · simp_all
        · cases h₁
          exact absurd rfl (hfresh fd₂ _ h₂).1
        · cases h₂
          exact absurd rfl (hfresh fd₁ _ h₁).1
        · exact h.injective fd₁ fd₂ i h₁ h₂
      · rw [hget] at h₁
        rw [hrest]
        split at h₁
        · cases h₁
          exact hnodup.1
        · exact (hfresh fd₁ i h₁).2
      · rw [hrest]
        exact hnodup.2

theorem Apart.remove {fd : Fd} {t : FixedFdTable} (h : t.Apart) : (t.remove fd).1.Apart := by
  rcases remove_spec fd t with ⟨-, heq⟩ | ⟨idx, t', hidx, heq, hfree, hget⟩
  · rw [heq]
    exact h
  · rw [heq]
    refine ⟨fun fd₁ fd₂ i h₁ h₂ => ?_, fun fd₁ i h₁ => ?_, ?_⟩
    · rw [hget] at h₁ h₂
      split at h₁
      · cases h₁
      · split at h₂
        · cases h₂
        · exact h.injective fd₁ fd₂ i h₁ h₂
    · rw [hget] at h₁
      rw [hfree, List.mem_cons, not_or]
      split at h₁
      · cases h₁
      · rename_i hne
        refine ⟨fun heq => hne ?_, h.used fd₁ i h₁⟩
        subst heq
        exact h.injective fd₁ fd i h₁ hidx
    · rw [hfree]
      exact List.nodup_cons.mpr ⟨h.used fd idx hidx, h.nodup⟩

/-! ## A table made from a slice -/

section
variable {capacity : UInt32} {fds : List Fd} {fd : Fd}

theorem lookup_enter (m : FdMap UInt32) (e : Fd × Nat) :
    (enter capacity m e).lookup fd =
      if fd = e.1 ∧ e.2 < capacity.toNat ∧ e.1 ≠ -1 then some (UInt32.ofNat e.2) else m.lookup fd := by
  unfold enter
  by_cases hentry : e.2 < capacity.toNat ∧ e.1 ≠ -1
  · rw [if_pos hentry]
    by_cases hfd : fd = e.1
    · rw [if_pos ⟨hfd, hentry⟩, hfd]
      exact AList.lookup_insert ..
    · rw [if_neg fun h => hfd h.1]
      exact AList.lookup_insert_ne hfd
  · rw [if_neg hentry, if_neg fun h => hentry h.2]

/-- The loop only makes entries for the slots it comes to. -/
theorem lookup_foldl_enter (entries : List (Fd × Nat)) (m : FdMap UInt32) {idx : UInt32}
    (h : (entries.foldl (enter capacity) m).lookup fd = some idx) :
    m.lookup fd = some idx ∨
      ∃ i, (fd, i) ∈ entries ∧ i < capacity.toNat ∧ fd ≠ -1 ∧ idx = UInt32.ofNat i := by
  induction entries generalizing m with
  | nil => exact .inl h
  | cons e entries ih =>
    rcases ih _ h with hlookup | ⟨i, hmem, hi⟩
    · rw [lookup_enter] at hlookup
      split at hlookup
      · rename_i hentry
        obtain ⟨rfl, hlt, hne⟩ := hentry
        exact .inr ⟨e.2, .head _, hlt, hne, (Option.some_inj.mp hlookup).symm⟩
      · exact .inl hlookup
    · exact .inr ⟨i, .tail _ hmem, hi⟩

/-- And it makes one for each of those. -/
theorem isSome_foldl_enter (entries : List (Fd × Nat)) (m : FdMap UInt32)
    (h : (m.lookup fd).isSome ∨ ∃ i, (fd, i) ∈ entries ∧ i < capacity.toNat ∧ fd ≠ -1) :
    ((entries.foldl (enter capacity) m).lookup fd).isSome := by
  induction entries generalizing m with
  | nil =>
    rcases h with h | ⟨i, hmem, -⟩
    · exact h
    · cases hmem
  | cons e entries ih =>
    apply ih
    rw [lookup_enter]
    rcases h with h | ⟨i, hmem, hi⟩
    · left
      split
      · rfl
      · exact h
    · rcases List.mem_cons.mp hmem with rfl | hmem
      · left
        rw [if_pos ⟨rfl, hi⟩]
        rfl
      · exact .inr ⟨i, hmem, hi⟩

theorem getIndex_initFromSlice {idx : UInt32}
    (h : (initFromSlice capacity fds).getIndex fd = some idx) :
    idx < capacity ∧ fds[idx.toNat]? = some fd ∧ fd ≠ -1 := by
  rcases lookup_foldl_enter _ _ h with hnone | ⟨i, hmem, hi, hfd, rfl⟩
  · rw [AList.lookup_empty] at hnone
    cases hnone
  · rw [UInt32.lt_iff_toNat_lt, UInt32.toNat_ofNat_of_lt' (Nat.lt_trans hi capacity.toNat_lt)]
    exact ⟨hi, List.mem_zipIdx_iff_getElem?.mp hmem, hfd⟩

theorem getIndex_initFromSlice_isSome {i : Nat} (hi : i < capacity.toNat) (hfd : fd ≠ -1)
    (h : fds[i]? = some fd) : ∃ idx, (initFromSlice capacity fds).getIndex fd = some idx :=
  Option.isSome_iff_exists.mp
    (isSome_foldl_enter _ _ (.inr ⟨i, List.mem_zipIdx_iff_getElem?.mpr h, hi, hfd⟩))

theorem Apart.initFromSlice : (initFromSlice capacity fds).Apart where
  injective fd fd' idx h h' := by
    have hfd := (getIndex_initFromSlice h).2.1
    rw [(getIndex_initFromSlice h').2.1] at hfd
    exact (Option.some_inj.mp hfd).symm
  used fd idx h hfree := by
    obtain ⟨-, hfd, hne⟩ := getIndex_initFromSlice h
    obtain ⟨i, hi, rfl⟩ := List.mem_map.mp hfree
    rw [List.mem_filter, List.mem_range, decide_eq_true_eq] at hi
    rw [UInt32.toNat_ofNat_of_lt' (Nat.lt_trans hi.1 capacity.toNat_lt)] at hfd
    rcases hi.2 with hge | hfree
    · rw [List.getElem?_eq_none hge] at hfd
      cases hfd
    · rw [hfree, Option.some_inj] at hfd
      exact hne hfd.symm
  nodup := by
    have hsub : (FixedFdTable.initFromSlice capacity fds).freeIndices.Sublist
        (FixedFdTable.new capacity).freeIndices := List.filter_sublist.map _
    exact hsub.nodup Apart.new.nodup

end

/-! ## The three parts mirror each other -/

inductive Act where
  | insert (fd : Fd)
  | remove (fd : Fd)

def perform (t : FixedFdTable) : Act → FixedFdTable
  | .insert fd => (t.insert fd).1
  | .remove fd => (t.remove fd).1

/-- No descriptor is at the slot. -/
def Unmapped (t : FixedFdTable) (idx : UInt32) : Prop := ∀ fd, t.getIndex fd ≠ some idx

/-- The map, the array and the stack say the same about every slot. -/
structure Mirrors (capacity : UInt32) (t : FixedFdTable) : Prop where
  injective : ∀ fd fd' idx, t.getIndex fd = some idx → t.getIndex fd' = some idx → fd = fd'
  mapped : ∀ fd idx, t.getIndex fd = some idx → idx < capacity ∧ t.files[idx.toNat]? = some fd
  unmapped : ∀ idx < capacity, t.Unmapped idx → t.files[idx.toNat]? = some (-1)
  nodup : t.freeIndices.Nodup
  free : ∀ idx, idx ∈ t.freeIndices ↔ idx < capacity ∧ t.Unmapped idx

/-- What `insert` answers and does. A map has each of its keys once. -/
structure Inserts (capacity : UInt32) (t : FixedFdTable) : Prop where
  full : ∀ fd, (t.insert fd).2 = none ↔
    t.getIndex fd = none ∧ t.indexMap.keys.length = capacity.toNat
  refused : ∀ fd, (t.insert fd).2 = none → (t.insert fd).1 = t
  present : ∀ fd idx, t.getIndex fd = some idx → t.insert fd = (t, some idx)
  /-- The descriptor is at the slot that is answered, and the others stay where they are. -/
  inserted : ∀ fd idx, (t.insert fd).2 = some idx →
    ∀ other, (t.insert fd).1.getIndex other = if other = fd then some idx else t.getIndex other
  /-- After a `remove` too the slot is nobody else's. -/
  apart : ∀ fd fd' other idx, ((t.remove fd).1.insert fd').2 = some idx →
    ((t.remove fd).1.insert fd').1.getIndex other = some idx → other = fd'

/-- What `remove` answers and does: the descriptor leaves its slot, and the others keep theirs. -/
structure Removes (t : FixedFdTable) : Prop where
  answer : ∀ fd, (t.remove fd).2 = t.getIndex fd
  removed : ∀ fd other,
    (t.remove fd).1.getIndex other = if other = fd then none else t.getIndex other

/-- Slots `0` to `capacity - 1`. -/
def slots (capacity : UInt32) : List UInt32 := (List.range capacity.toNat).map UInt32.ofNat

/-- The slots in the map and those on the stack are all the slots there are, each once. -/
structure Balanced (capacity : UInt32) (t : FixedFdTable) : Prop where
  perm : (t.indexMap.values ++ t.freeIndices).Perm (slots capacity)
  length : t.files.length = capacity.toNat
  mapped : ∀ fd idx, t.getIndex fd = some idx → t.files[idx.toNat]? = some fd
  free : ∀ idx ∈ t.freeIndices, t.files[idx.toNat]? = some (-1)

theorem slots_nodup (capacity : UInt32) : (slots capacity).Nodup := Apart.new.nodup

theorem mem_slots {capacity idx : UInt32} : idx ∈ slots capacity ↔ idx < capacity := by
  rw [slots, List.mem_map, UInt32.lt_iff_toNat_lt]
  constructor
  · rintro ⟨i, hi, rfl⟩
    rw [List.mem_range] at hi
    rwa [UInt32.toNat_ofNat_of_lt' (Nat.lt_trans hi capacity.toNat_lt)]
  · intro hlt
    exact ⟨idx.toNat, List.mem_range.mpr hlt, UInt32.ofNat_toNat⟩

theorem mem_values {t : FixedFdTable} {idx : UInt32} :
    idx ∈ t.indexMap.values ↔ ¬ t.Unmapped idx := by
  simp only [AList.mem_values, Unmapped, not_forall, not_not]
  rfl

namespace Balanced
variable {capacity : UInt32} {t : FixedFdTable}

theorem nodup (h : t.Balanced capacity) : (t.indexMap.values ++ t.freeIndices).Nodup :=
  h.perm.nodup_iff.mpr (slots_nodup capacity)

theorem mem_iff (h : t.Balanced capacity) (idx : UInt32) :
    idx ∈ t.indexMap.values ∨ idx ∈ t.freeIndices ↔ idx < capacity := by
  rw [← List.mem_append, h.perm.mem_iff, mem_slots]

/-- Another descriptor's slot is another slot. -/
theorem toNat_ne (h : t.Balanced capacity) {fd fd' : Fd} {idx idx' : UInt32}
    (hidx : t.getIndex fd = some idx) (hidx' : t.getIndex fd' = some idx') (hfd : fd ≠ fd') :
    idx.toNat ≠ idx'.toNat := by
  intro heq
  obtain rfl := UInt32.toNat_inj.mp heq
  have hvalues : t.indexMap.values.Nodup := (List.nodup_append.mp h.nodup).1
  exact hfd (AList.key_eq_of_values_nodup hvalues hidx hidx')

theorem new (capacity : UInt32) : (FixedFdTable.new capacity).Balanced capacity where
  perm := by
    apply List.Perm.refl
  length := List.length_replicate
  mapped fd idx h := by simp at h
  free idx h := by
    have hlt : idx < capacity := mem_slots.mp h
    rw [UInt32.lt_iff_toNat_lt] at hlt
    exact List.getElem?_replicate_of_lt hlt

theorem insert (h : t.Balanced capacity) (fd : Fd) : (t.insert fd).1.Balanced capacity := by
  cases hidx : t.getIndex fd with
  | some idx =>
    rw [insert_of_getIndex hidx]
    exact h
  | none =>
    have hlookup : t.indexMap.lookup fd = none := hidx
    unfold FixedFdTable.insert
    rw [hlookup]
    cases hfree : t.freeIndices with
    | nil => exact h
    | cons idx rest =>
      have hperm := h.perm
      have hnodup := h.nodup
      rw [hfree] at hperm hnodup
      have hmem : idx < capacity := (h.mem_iff idx).mp (.inr (hfree ▸ .head _))
      have hsize : idx.toNat < t.files.length := by
        rw [h.length]
        exact UInt32.lt_iff_toNat_lt.mp hmem
      have hhead := List.nodup_middle.mp hnodup
      rw [List.nodup_cons, List.mem_append, not_or] at hhead
      refine ⟨?_, ?_, fun fd' idx' hidx' => ?_, fun idx' hidx' => ?_⟩
      · -- the slot goes from the stack into the map
        show ((t.indexMap.insert fd idx).values ++ rest).Perm _
        rw [AList.values_insert_of_lookup_eq_none idx hlookup]
        exact List.perm_middle.symm.trans hperm
      · rw [List.length_set]
        exact h.length
      · by_cases hfd : fd' = fd
        · have hself : some idx = some idx' :=
            (AList.lookup_insert t.indexMap).symm.trans (hfd ▸ hidx')
          cases hself
          rw [List.getElem?_set_self hsize, hfd]
        · have hold : t.getIndex fd' = some idx' := (AList.lookup_insert_ne hfd).symm.trans hidx'
          have hne : idx ≠ idx' := by
            rintro rfl
            exact hhead.1.1 (AList.mem_values.mpr ⟨fd', hold⟩)
          rw [List.getElem?_set_ne fun heq => hne (UInt32.toNat_inj.mp heq)]
          exact h.mapped fd' idx' hold
      · have hne : idx ≠ idx' := by
          rintro rfl
          exact hhead.1.2 hidx'
        rw [List.getElem?_set_ne fun heq => hne (UInt32.toNat_inj.mp heq)]
        exact h.free idx' (hfree ▸ .tail _ hidx')

theorem remove (h : t.Balanced capacity) (fd : Fd) : (t.remove fd).1.Balanced capacity := by
  unfold FixedFdTable.remove
  cases hidx : t.indexMap.lookup fd with
  | none => exact h
  | some idx =>
    have hmem : idx < capacity := (h.mem_iff idx).mp (.inl (AList.mem_values.mpr ⟨fd, hidx⟩))
    have hsize : idx.toNat < t.files.length := by
      rw [h.length]
      exact UInt32.lt_iff_toNat_lt.mp hmem
    refine ⟨?_, ?_, fun fd' idx' hidx' => ?_, fun idx' hidx' => ?_⟩
    · -- and back from the map onto the stack
      show ((t.indexMap.erase fd).values ++ idx :: t.freeIndices).Perm _
      have hperm := (AList.values_perm_cons_erase hidx).append_right t.freeIndices
      exact List.perm_middle.trans (hperm.symm.trans h.perm)
    · rw [List.length_set]
      exact h.length
    · have hfd : fd' ≠ fd := by
        rintro rfl
        cases (AList.lookup_erase fd' t.indexMap).symm.trans hidx'
      have hold : t.getIndex fd' = some idx' := (AList.lookup_erase_ne hfd).symm.trans hidx'
      rw [List.getElem?_set_ne (h.toNat_ne hidx hold (Ne.symm hfd))]
      exact h.mapped fd' idx' hold
    · rcases List.mem_cons.mp hidx' with rfl | hold
      · exact List.getElem?_set_self hsize
      · have hne : idx ≠ idx' := by
          rintro rfl
          have hdisjoint := (List.nodup_append.mp h.nodup).2.2
          exact hdisjoint idx (AList.mem_values.mpr ⟨fd, hidx⟩) idx hold rfl
        rw [List.getElem?_set_ne fun heq => hne (UInt32.toNat_inj.mp heq)]
        exact h.free idx' hold

theorem perform (h : t.Balanced capacity) (a : Act) : (t.perform a).Balanced capacity := by
  cases a with
  | insert fd => exact h.insert fd
  | remove fd => exact h.remove fd

theorem run (h : t.Balanced capacity) (acts : List Act) :
    (acts.foldl FixedFdTable.perform t).Balanced capacity := by
  induction acts generalizing t with
  | nil => exact h
  | cons a acts ih => exact ih (h.perform a)

theorem mirrors (h : t.Balanced capacity) : t.Mirrors capacity := by
  rcases List.nodup_append.mp h.nodup with ⟨hvalues, hfree, hdisjoint⟩
  have hunmapped (idx : UInt32) : idx ∈ t.freeIndices ↔ idx < capacity ∧ t.Unmapped idx := by
    rw [← h.mem_iff, mem_values]
    constructor
    · intro hidx
      refine ⟨.inr hidx, fun fd hfd => ?_⟩
      exact hdisjoint idx (AList.mem_values.mpr ⟨fd, hfd⟩) idx hidx rfl
    · rintro ⟨hmapped | hidx, hnot⟩
      · exact absurd hnot hmapped
      · exact hidx
  refine ⟨fun fd fd' idx => AList.key_eq_of_values_nodup hvalues, fun fd idx hidx => ?_,
    fun idx hlt hnot => ?_, hfree, hunmapped⟩
  · exact ⟨(h.mem_iff idx).mp (.inl (AList.mem_values.mpr ⟨fd, hidx⟩)), h.mapped fd idx hidx⟩
  · exact h.free idx ((hunmapped idx).mpr ⟨hlt, hnot⟩)

/-- The stack is empty when every slot has its descriptor. -/
theorem freeIndices_eq_nil (h : t.Balanced capacity) :
    t.freeIndices = [] ↔ t.indexMap.keys.length = capacity.toNat := by
  have hlength := h.perm.length_eq
  have hkeys : t.indexMap.keys.length = t.indexMap.values.length := by
    simp [AList.keys, AList.values, List.keys]
  simp only [slots, List.length_append, List.length_map, List.length_range] at hlength
  rw [← List.length_eq_zero_iff, hkeys]
  omega

theorem inserts (h : t.Balanced capacity) : t.Inserts capacity where
  full fd := by
    rw [← h.freeIndices_eq_nil]
    cases hidx : t.getIndex fd with
    | some idx => simp [insert_of_getIndex hidx]
    | none =>
      rcases insert_spec hidx with ⟨hfree, heq⟩ | ⟨idx, rest, t', hfree, heq, -, -⟩
      · simp [hfree, heq]
      · simp [hfree, heq]
  refused fd hnone := by
    cases hidx : t.getIndex fd with
    | some idx =>
      rw [insert_of_getIndex hidx] at hnone
      cases hnone
    | none =>
      rcases insert_spec hidx with ⟨-, heq⟩ | ⟨idx, rest, t', -, heq, -, -⟩
      · rw [heq]
      · rw [heq] at hnone
        cases hnone
  present fd idx hidx := insert_of_getIndex hidx
  inserted fd idx hidx other := getIndex_insert hidx
  apart fd fd' other idx hidx hother := by
    have hafter := ((h.remove fd).insert fd').mirrors
    apply hafter.injective other fd' idx hother
    rw [getIndex_insert hidx, if_pos rfl]

end Balanced

theorem removes (t : FixedFdTable) : t.Removes where
  answer fd := by
    rcases remove_spec fd t with ⟨hnone, heq⟩ | ⟨idx, t', hidx, heq, -, -⟩
    · rw [heq, hnone]
    · rw [heq, hidx]
  removed fd other := by
    rcases remove_spec fd t with ⟨hnone, heq⟩ | ⟨idx, t', -, heq, -, hget⟩
    · rw [heq]
      split
      · rename_i hfd
        rw [hfd, hnone]
      · rfl
    · rw [heq, hget]

/-- **The table.** Whatever is inserted and removed, and in whatever order, the map, the array and
the stack agree about every slot, a slot is given out only if it is nobody's, and it is nobody's again
when its descriptor is removed. -/
theorem mirrors_run (capacity : UInt32) (acts : List Act) :
    (acts.foldl perform (new capacity)).Mirrors capacity ∧
      (acts.foldl perform (new capacity)).Inserts capacity ∧
      (acts.foldl perform (new capacity)).Removes := by
  have hbalanced := (Balanced.new capacity).run acts
  exact ⟨hbalanced.mirrors, hbalanced.inserts, removes _⟩

/-- Two slots, three descriptors: the third gets one when another leaves. -/
theorem mirrors_run_three : ∃ t, t = [Act.insert 5, .insert 6, .insert 7].foldl perform (new 2) ∧
    t.getIndex 5 = some 0 ∧ t.getIndex 6 = some 1 ∧ (t.insert 7).2 = none ∧
    (t.remove 5).2 = some 0 ∧ (t.remove 5).1.getIndex 5 = none ∧
    ∃ u, u = [Act.insert 5, .insert 6, .insert 7, .remove 5].foldl perform (new 2) ∧
      (u.insert 7).2 = some 0 ∧ (u.insert 7).1.getIndex 7 = some 0 ∧
      (u.insert 7).1.getIndex 6 = some 1 := by
  obtain ⟨-, hinserts, hremoves⟩ := mirrors_run 2 [.insert 5, .insert 6, .insert 7]
  obtain ⟨-, hinserts', -⟩ := mirrors_run 2 [.insert 5, .insert 6, .insert 7, .remove 5]
  refine ⟨_, rfl, rfl, rfl, (hinserts.full 7).mpr (by decide), hremoves.answer 5,
    hremoves.removed 5 5, _, rfl, rfl, ?_, ?_⟩
  · exact hinserts'.inserted 7 0 rfl 7
  · exact hinserts'.inserted 7 0 rfl 6

end FixedFdTable

end Uringcore
