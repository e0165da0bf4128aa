import Uringcore.Core.KernelFiles

/-!
# What `register_fds` builds

`init_from_slice` fills the three parts of the table in two passes: the first enters every descriptor
of the slice into the array and the map, the second collects the slots whose entry is `-1`. The map
has one slot for a descriptor, so of a descriptor that the slice has twice the first pass leaves one
slot without an entry, and the second does not call that slot free. Nothing gives it back: `remove`
frees the slot the map knows.

Without repetition the table is as sound as one grown by `insert` and `remove` (`Balanced`), which is
where the results about it come from.
-/

namespace Uringcore

namespace FixedFdTable

/-- The slot is empty and once on the stack. -/
def FreeAt (t : FixedFdTable) (idx : UInt32) : Prop :=
  t.files[idx.toNat]? = some (-1) ∧ t.freeIndices.count idx = 1

/-- The slot holds a descriptor, and exactly that one is mapped to it. -/
def MappedAt (t : FixedFdTable) (idx : UInt32) : Prop :=
  ∃ fd, fd ≠ -1 ∧ t.files[idx.toNat]? = some fd ∧ (∀ fd', t.getIndex fd' = some idx ↔ fd' = fd) ∧
    idx ∉ t.freeIndices

def removeAll (fds : List Fd) (t : FixedFdTable) : FixedFdTable :=
  fds.foldl (fun t fd => (t.remove fd).1) t

/-- Every slot is free or mapped, and removing all that is mapped frees every slot. -/
structure Built (capacity : UInt32) (t : FixedFdTable) : Prop where
  slot : ∀ idx < capacity, t.FreeAt idx ∧ t.Unmapped idx ∨ t.MappedAt idx
  emptied : ∀ fds, (∀ fd idx, t.getIndex fd = some idx → fd ∈ fds) →
    ∀ idx < capacity, (t.removeAll fds).FreeAt idx

section
variable {capacity : UInt32} {fds : List Fd} {t : FixedFdTable}

/-! ## Removing -/

theorem Balanced.removeAll (h : t.Balanced capacity) (fds : List Fd) :
    (t.removeAll fds).Balanced capacity := by
  induction fds generalizing t with
  | nil => exact h
  | cons fd fds ih => exact ih (h.remove fd)

theorem getIndex_remove (fd fd' : Fd) :
    (t.remove fd).1.getIndex fd' = if fd' = fd then none else t.getIndex fd' := by
  rcases remove_spec fd t with ⟨hnone, heq⟩ | ⟨idx, t', -, heq, -, hget⟩
  · rw [heq]
    split
    · rename_i hfd
      rw [hfd, hnone]
    · rfl
  · rw [heq]
    exact hget fd'

theorem getIndex_removeAll (fds : List Fd) (fd : Fd) :
    (t.removeAll fds).getIndex fd = if fd ∈ fds then none else t.getIndex fd := by
  induction fds generalizing t with
  | nil => simp [removeAll]
  | cons first fds ih =>
    show ((t.remove first).1.removeAll fds).getIndex fd = _
    rw [ih, getIndex_remove]
    by_cases hfd : fd = first
    · simp [hfd]
    · simp [hfd]

/-! ## A sound table -/

theorem Balanced.freeAt (h : t.Balanced capacity) {idx : UInt32} (hidx : idx ∈ t.freeIndices) :
    t.FreeAt idx := by
  refine ⟨h.free idx hidx, ?_⟩
  exact List.count_eq_one_of_mem h.mirrors.nodup hidx

/-- A sound table in which `-1` is no descriptor is built. -/
theorem Balanced.built (h : t.Balanced capacity) (hnone : t.getIndex (-1) = none) :
    t.Built capacity where
  slot idx hlt := by
    by_cases hunmapped : t.Unmapped idx
    · exact .inl ⟨h.freeAt ((h.mirrors.free idx).mpr ⟨hlt, hunmapped⟩), hunmapped⟩
    · obtain ⟨fd, hfd⟩ := not_forall_not.mp hunmapped
      refine .inr ⟨fd, ?_, h.mapped fd idx hfd, fun fd' => ⟨fun hfd' => ?_, ?_⟩, fun hfree => ?_⟩
      · rintro rfl
        rw [hnone] at hfd
        cases hfd
      · exact h.mirrors.injective fd' fd idx hfd' hfd
      · rintro rfl
        exact hfd
      · exact hunmapped ((h.mirrors.free idx).mp hfree).2
  emptied fds hfds idx hlt := by
    have hempty : (t.removeAll fds).Unmapped idx := by
      intro fd
      rw [getIndex_removeAll]
      split
      · exact (Option.some_ne_none idx).symm
      · rename_i hnot
        exact fun hfd => hnot (hfds fd idx hfd)
    have hafter := h.removeAll fds
    exact hafter.freeAt ((hafter.mirrors.free idx).mpr ⟨hlt, hempty⟩)

/-! ## A table made from a slice -/

theorem files_initFromSlice (capacity : UInt32) (fds : List Fd) {idx : UInt32}
    (hlt : idx < capacity) :
    (initFromSlice capacity fds).files[idx.toNat]? = some (fds[idx.toNat]?.getD (-1)) := by
  rw [UInt32.lt_iff_toNat_lt] at hlt
  show ((List.range capacity.toNat).map fun i => fds[i]?.getD (-1))[idx.toNat]? = _
  rw [List.getElem?_map, List.getElem?_range hlt]
  rfl

theorem mem_freeIndices_initFromSlice {idx : UInt32} :
    idx ∈ (initFromSlice capacity fds).freeIndices ↔
      idx < capacity ∧ (fds.length ≤ idx.toNat ∨ fds[idx.toNat]? = some (-1)) := by
  show idx ∈ ((List.range capacity.toNat).filter _).map UInt32.ofNat ↔ _
  rw [List.mem_map, UInt32.lt_iff_toNat_lt]
  constructor
  · rintro ⟨i, hi, rfl⟩
    rw [List.mem_filter, List.mem_range, decide_eq_true_eq] at hi
    rwa [UInt32.toNat_ofNat_of_lt' (Nat.lt_trans hi.1 capacity.toNat_lt)]
  · intro h
    refine ⟨idx.toNat, ?_, UInt32.ofNat_toNat⟩
    rw [List.mem_filter, List.mem_range, decide_eq_true_eq]
    exact h

/-- Position and entry determine each other, `-1` apart. -/
theorem position_eq (h : KernelFiles.Distinct fds) {i j : Nat} {fd : Fd} (hi : fds[i]? = some fd)
    (hj : fds[j]? = some fd) (hfd : fd ≠ -1) : i = j := by
  obtain ⟨hilt, hifd⟩ := List.getElem?_eq_some_iff.mp hi
  obtain ⟨hjlt, hjfd⟩ := List.getElem?_eq_some_iff.mp hj
  have hpairs := List.pairwise_iff_getElem.mp h
  rcases Nat.lt_trichotomy i j with hlt | heq | hlt
  · have hnone := hpairs i j hilt hjlt hlt (hifd.trans hjfd.symm)
    exact absurd (hifd.symm.trans hnone) hfd
  · exact heq
  · have hnone := hpairs j i hjlt hilt hlt (hjfd.trans hifd.symm)
    exact absurd (hjfd.symm.trans hnone) hfd

/-- A slice without repetition gives a sound table. -/
theorem Balanced.initFromSlice (h : KernelFiles.Distinct fds) :
    (initFromSlice capacity fds).Balanced capacity where
  perm := by
    have hapart : (FixedFdTable.initFromSlice capacity fds).Apart := Apart.initFromSlice
    have hnodup : ((FixedFdTable.initFromSlice capacity fds).indexMap.values ++
        (FixedFdTable.initFromSlice capacity fds).freeIndices).Nodup := by
      refine List.nodup_append.mpr ⟨AList.values_nodup hapart.injective, hapart.nodup, ?_⟩
      rintro idx hidx _ hfree rfl
      obtain ⟨fd, hfd⟩ := AList.mem_values.mp hidx
      exact hapart.used fd idx hfd hfree
    refine (List.perm_ext_iff_of_nodup hnodup (slots_nodup capacity)).mpr fun idx => ?_
    rw [List.mem_append, mem_slots, AList.mem_values, mem_freeIndices_initFromSlice]
    constructor
    · rintro (⟨fd, hfd⟩ | ⟨hlt, -⟩)
      · exact (getIndex_initFromSlice hfd).1
      · exact hlt
    · intro hlt
      -- the slot is past the slice, holds `-1`, or holds a descriptor that is nowhere else
      cases hslot : fds[idx.toNat]? with
      | none => exact .inr ⟨hlt, .inl (List.getElem?_eq_none_iff.mp hslot)⟩
      | some fd =>
        by_cases hfd : fd = -1
        · rw [hfd]
          exact .inr ⟨hlt, .inr rfl⟩
        · obtain ⟨idx', hidx'⟩ :=
            getIndex_initFromSlice_isSome (UInt32.lt_iff_toNat_lt.mp hlt) hfd hslot
          have hslot' := (getIndex_initFromSlice hidx').2.1
          have hsame : idx' = idx := UInt32.toNat_inj.mp (position_eq h hslot' hslot hfd)
          exact .inl ⟨fd, hsame ▸ hidx'⟩
  length := by
    show ((List.range capacity.toNat).map _).length = _
    rw [List.length_map, List.length_range]
  mapped fd idx hidx := by
    obtain ⟨hlt, hslot, -⟩ := getIndex_initFromSlice hidx
    rw [files_initFromSlice capacity fds hlt, hslot]
    rfl
  free idx hidx := by
    obtain ⟨hlt, hfree⟩ := mem_freeIndices_initFromSlice.mp hidx
    rw [files_initFromSlice capacity fds hlt]
    rcases hfree with hge | hslot
    · rw [List.getElem?_eq_none hge]
      rfl
    · rw [hslot]
      rfl

theorem built_of_distinct (h : KernelFiles.Distinct fds) :
    (initFromSlice capacity fds).Built capacity := by
  refine (Balanced.initFromSlice h).built ?_
  rw [Option.eq_none_iff_forall_ne_some]
  intro idx hidx
  exact (getIndex_initFromSlice hidx).2.2 rfl

/-- In a built table no two slots hold one descriptor, since it is mapped to one of them only. -/
theorem Built.distinct (h : (initFromSlice capacity fds).Built capacity)
    (hlen : fds.length ≤ capacity.toNat) : KernelFiles.Distinct fds := by
  have hmapped : ∀ i fd, fds[i]? = some fd → fd ≠ -1 →
      (initFromSlice capacity fds).getIndex fd = some (UInt32.ofNat i) := by
    intro i fd hi hfd
    have hlt : i < capacity.toNat := Nat.lt_of_lt_of_le (List.getElem?_eq_some_iff.mp hi).1 hlen
    have hidx : (UInt32.ofNat i).toNat = i :=
      UInt32.toNat_ofNat_of_lt' (Nat.lt_trans hlt capacity.toNat_lt)
    have hcapacity : UInt32.ofNat i < capacity := by rwa [UInt32.lt_iff_toNat_lt, hidx]
    have hslot := files_initFromSlice capacity fds hcapacity
    rw [hidx, hi] at hslot
    rcases h.slot _ hcapacity with ⟨⟨hempty, -⟩, -⟩ | ⟨fd', -, hslot', hget, -⟩
    · rw [hidx, hslot] at hempty
      exact absurd (Option.some_inj.mp hempty) hfd
    · rw [hidx, hslot] at hslot'
      exact (hget fd).mpr (Option.some_inj.mp hslot')
  refine List.pairwise_iff_getElem.mpr fun i j hi hj hlt heq => ?_
  by_contra hfd
  have hi' := hmapped i fds[i] (List.getElem?_eq_getElem hi) hfd
  have hj' := hmapped j fds[i] ((List.getElem?_eq_getElem hj).trans (congrArg some heq.symm)) hfd
  have hsame := congrArg UInt32.toNat (Option.some_inj.mp (hi'.symm.trans hj'))
  have hbound : ∀ k < fds.length, (UInt32.ofNat k).toNat = k := by
    intro k hk
    exact UInt32.toNat_ofNat_of_lt' (Nat.lt_of_lt_of_le hk (Nat.le_trans hlen
      (Nat.le_of_lt capacity.toNat_lt)))
  rw [hbound i hi, hbound j hj] at hsame
  omega

/-- **The slice.** The table has every slot free or mapped, and gives all of them back, if and only if
no descriptor occurs twice in the slice. -/
theorem built_initFromSlice_iff (hlen : fds.length ≤ capacity.toNat) :
    (initFromSlice capacity fds).Built capacity ↔ KernelFiles.Distinct fds := by
  constructor
  · intro h
    exact h.distinct hlen
  · intro h
    exact built_of_distinct h

theorem built_initFromSlice_holes :
    (initFromSlice 4 [5, -1, 6]).Built 4 ↔ KernelFiles.Distinct [5, -1, 6] :=
  built_initFromSlice_iff (by decide)

/-- Slot 0 holds the descriptor, the map has it at slot 1: slot 0 is neither free nor mapped. -/
theorem not_built_repeated : ¬ (initFromSlice 4 [7, 7]).Built 4 := by
  intro h
  rcases h.slot 0 (by decide) with ⟨⟨hempty, -⟩, -⟩ | ⟨fd, -, hslot, hget, -⟩
  · cases hempty
  · cases hslot
    cases (hget 7).mpr rfl

end

end FixedFdTable

/-- What the kernel accepts fits the table, so the table of the ring is built from just the slices
that keep it in step with the kernel. -/
theorem KernelFiles.registerFds_built {s : KernelFiles} {k : Slots} {refusal : Option String}
    {fds : List Fd} (h : s.slots.registerFiles refusal fds = .ok k) :
    ∃ table, (s.registerFds refusal fds).1.ring.registeredFds = some table ∧
      (table.Built (UInt32.ofNat (max fds.length 4096)) ↔ s.Keeps (.registerFds refusal fds)) := by
  obtain ⟨-, -, hlength, -⟩ := Slots.registerFiles_ok h
  have hfits : max fds.length 4096 < 2 ^ 32 :=
    Nat.lt_of_le_of_lt (Nat.max_le.mpr ⟨hlength, by decide⟩) (by decide : 2 ^ 20 < 2 ^ 32)
  have hkeeps : s.Keeps (.registerFds refusal fds) ↔ Distinct fds := by
    simp [Keeps, h, Except.isOk, Except.toBool]
  refine ⟨.initFromSlice (UInt32.ofNat (max fds.length 4096)) fds, ?_, ?_⟩
  · simp only [registerFds, Ring.registerFds, h]
    rfl
  · rw [hkeeps]
    refine ⟨fun hbuilt => hbuilt.distinct ?_, FixedFdTable.built_of_distinct⟩
    rw [UInt32.toNat_ofNat_of_lt' hfits]
    exact Nat.le_max_left ..

end Uringcore
