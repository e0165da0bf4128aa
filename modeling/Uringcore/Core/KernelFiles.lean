import Uringcore.Core.FixedFiles

/-!
# The registered files, here and in the kernel

The ring's table is meant to mirror the slots the kernel keeps. The four calls that change both ask
the kernel at different moments: `register_file` and `unregister_file` change the table first, and
only `register_file` takes that back when the kernel refuses; `register_fds` and `unregister_fds` ask
first. The kernel may refuse anything. It has as many slots as it was given descriptors, while the
table always has at least 4096, so it also refuses what is outside its set.

The two stay in step, and a call that fails changes no lookup, exactly as long as no refused
`unregister_file` has dropped an entry, no descriptor is registered in two slots at once, and
`register_file` is not used for the numbers that mean something else to the kernel
(`in_step_iff`).
-/

namespace Uringcore

/-- The kernel's slots, if a set is registered, with the descriptor each was given. -/
abbrev Slots := Option (List (Option Fd))

namespace Slots

/-- `IORING_MAX_FIXED_FILES`. -/
def maxFixedFiles : Nat := 2 ^ 20

/-- What a slot holds that was given `fd`: nothing for `-1`. -/
def given (fd : Fd) : Option Fd := if fd = -1 then none else some fd

/-- `IORING_REGISTER_FILES`; `refusal` is an error of the kernel's own accord. -/
def registerFiles (refusal : Option String) (fds : List Fd) (k : Slots) : Except String Slots :=
  match refusal, k with
  | some e, _ => .error e
  | none, some _ => .error "EBUSY"
  | none, none =>
      if fds.length ≤ maxFixedFiles ∧ fds.all (-1 ≤ ·) then .ok (some (fds.map given))
      else .error "EINVAL"

/-- `IORING_REGISTER_FILES_UPDATE` of one slot: `-1` empties it, `-2` skips it. -/
def update (refusal : Option String) (idx : UInt32) (fd : Fd) (k : Slots) : Except String Slots :=
  match refusal, k with
  | some e, _ => .error e
  | none, none => .error "ENXIO"
  | none, some slots =>
      if slots.length ≤ idx.toNat then .error "EINVAL"
      else if fd = -2 then .ok (some slots)
      else if fd < -2 then .error "EBADF"
      else .ok (some (slots.set idx.toNat (given fd)))

/-- `IORING_UNREGISTER_FILES`. -/
def unregisterFiles (refusal : Option String) (k : Slots) : Except String Slots :=
  match refusal, k with
  | some e, _ => .error e
  | none, none => .error "ENXIO"
  | none, some _ => .ok none

/-- The descriptor that slot `i` holds. -/
def slot (k : Slots) (i : Nat) : Option Fd := k.bind fun slots => slots[i]?.join

/-- The slots after a call. -/
def settle (r : Except String Slots) (k : Slots) : Slots :=
  match r with
  | .ok k' => k'
  | .error _ => k

def errorOf : Except String Slots → Option String
  | .ok _ => none
  | .error e => some e

variable {refusal : Option String} {k k' : Slots}

theorem registerFiles_ok {fds : List Fd} (h : k.registerFiles refusal fds = .ok k') :
    k = none ∧ k'.isSome ∧ fds.length ≤ maxFixedFiles ∧ ∀ i, k'.slot i = fds[i]?.bind given := by
  unfold registerFiles at h
  split at h
  · cases h
  · cases h
  · split at h
    · rename_i hfds
      cases h
      refine ⟨rfl, rfl, hfds.1, fun i => ?_⟩
      rw [slot, Option.bind_some, List.getElem?_map]
      cases fds[i]? <;> rfl
    · cases h

theorem update_ok {idx : UInt32} {fd : Fd} (h : k.update refusal idx fd = .ok k') :
    k.isSome ∧ k'.isSome ∧
      ∀ i, k'.slot i = if i = idx.toNat ∧ fd ≠ -2 then given fd else k.slot i := by
  unfold update at h
  split at h
  · cases h
  · cases h
  · rename_i slots
    split at h
    · cases h
    · rename_i hlt
      split at h
      · rename_i hskip
        cases h
        refine ⟨rfl, rfl, fun i => ?_⟩
        rw [if_neg fun h => h.2 hskip]
      · rename_i hskip
        split at h
        · cases h
        · cases h
          refine ⟨rfl, rfl, fun i => ?_⟩
          by_cases hi : i = idx.toNat
          · subst hi
            rw [if_pos ⟨rfl, hskip⟩, slot, Option.bind_some, List.getElem?_set_self (by omega)]
            rfl
          · rw [if_neg fun h => hi h.1, slot, slot, Option.bind_some, Option.bind_some,
              List.getElem?_set_ne (Ne.symm hi)]

/-- The kernel has no reason of its own to refuse to empty a slot that holds something. -/
theorem update_empty {idx : UInt32} {fd : Fd} (h : k.slot idx.toNat = some fd) :
    ∃ k', k.update none idx (-1) = .ok k' := by
  cases k with
  | none => cases h
  | some slots =>
    have hlt : ¬ slots.length ≤ idx.toNat := by
      intro hge
      rw [slot, Option.bind_some, List.getElem?_eq_none hge] at h
      cases h
    refine ⟨some (slots.set idx.toNat (given (-1))), ?_⟩
    rw [update, if_neg hlt, if_neg (by decide), if_neg (by decide)]

end Slots

/-- A ring with the kernel's slots. -/
structure KernelFiles where
  ring : Ring
  slots : Slots

namespace KernelFiles

/-- What the kernel answers to the registration of an empty set, if it is asked. -/
def sparse (init : Option String) (s : KernelFiles) : Except String Slots :=
  match s.ring.registeredFds with
  | some _ => .ok s.slots
  | none => s.slots.registerFiles init (List.replicate 4096 (-1))

/-- What it answers to the update of a slot that comes next, if one does. -/
def updated (init update : Option String) (fd : Fd) (s : KernelFiles) : Except String Slots :=
  match FileCore.updatedSlot (Slots.errorOf (s.sparse init)) fd s.ring with
  | some idx => (Slots.settle (s.sparse init) s.slots).update update idx fd
  | none => .ok (Slots.settle (s.sparse init) s.slots)

def registerFile (init update : Option String) (fd : Fd) (s : KernelFiles) :
    KernelFiles × Except Error UInt32 :=
  let r := s.ring.registerFile (Slots.errorOf (s.sparse init)) (Slots.errorOf (s.updated init update fd)) fd
  (⟨r.1, Slots.settle (s.updated init update fd) (Slots.settle (s.sparse init) s.slots)⟩, r.2)

def unregisterFile (update : Option String) (fd : Fd) (s : KernelFiles) :
    KernelFiles × Except Error Unit :=
  let answer : Except String Slots := match s.ring.lookupFixed fd with
    | some idx => s.slots.update update idx (-1)
    | none => .ok s.slots
  let r := s.ring.unregisterFile (Slots.errorOf answer) fd
  (⟨r.1, Slots.settle answer s.slots⟩, r.2)

def registerFds (refusal : Option String) (fds : List Fd) (s : KernelFiles) :
    KernelFiles × Except Error Unit :=
  let answer := s.slots.registerFiles refusal fds
  let r := s.ring.registerFds (Slots.errorOf answer) fds
  (⟨r.1, Slots.settle answer s.slots⟩, r.2)

def unregisterFds (refusal : Option String) (s : KernelFiles) : KernelFiles × Except Error Unit :=
  let answer : Except String Slots := match s.ring.registeredFds with
    | some _ => s.slots.unregisterFiles refusal
    | none => .ok s.slots
  let r := s.ring.unregisterFds (Slots.errorOf answer)
  (⟨r.1, Slots.settle answer s.slots⟩, r.2)

/-- A call, with what the kernel refuses of its own accord. -/
inductive Act where
  | registerFile (init update : Option String) (fd : Fd)
  | unregisterFile (update : Option String) (fd : Fd)
  | registerFds (refusal : Option String) (fds : List Fd)
  | unregisterFds (refusal : Option String)

/-- The state after a call, and whether it returned `Ok`. -/
def call (s : KernelFiles) : Act → KernelFiles × Bool
  | .registerFile init update fd =>
      ((s.registerFile init update fd).1, (s.registerFile init update fd).2.isOk)
  | .unregisterFile update fd => ((s.unregisterFile update fd).1, (s.unregisterFile update fd).2.isOk)
  | .registerFds refusal fds => ((s.registerFds refusal fds).1, (s.registerFds refusal fds).2.isOk)
  | .unregisterFds refusal => ((s.unregisterFds refusal).1, (s.unregisterFds refusal).2.isOk)

/-- If the call failed, every lookup is what it was. -/
def failedUnchanged (s : KernelFiles) (a : Act) (t : KernelFiles) (_ : Prop) : Prop :=
  (s.call a).2 = false → ∀ fd, t.ring.lookupFixed fd = s.ring.lookupFixed fd

/-- The calls, with whether the last one left the lookups alone if it failed. -/
def machine : Machine (KernelFiles × Prop) Act :=
  Machine.ghost ⟨fun s a => some (s.call a).1⟩ failedUnchanged

/-- A new ring, and a kernel without a set. -/
def start (entries : Nat) : KernelFiles × Prop := (⟨Ring.new entries, none⟩, True)

/-- An index that a lookup returns is that of the slot with the descriptor, and every slot that holds
something has its entry. -/
structure InStep (s : KernelFiles) : Prop where
  held : ∀ fd idx, s.ring.lookupFixed fd = some idx → s.slots.slot idx.toNat = some fd
  mapped : ∀ i fd, s.slots.slot i = some fd →
    ∃ fd' idx, s.ring.lookupFixed fd' = some idx ∧ idx.toNat = i

/-- No descriptor occurs twice. -/
def Distinct (fds : List Fd) : Prop := fds.Pairwise fun fd fd' => fd = fd' → fd = -1

/-- What keeps table and kernel in step: the kernel is not given `-1` or `-2` as a descriptor, it
empties the slot of an entry that is dropped, and it has no descriptor twice. -/
def Keeps (s : KernelFiles) : Act → Prop
  | .registerFile init update fd =>
      (FileCore.updatedSlot (Slots.errorOf (s.sparse init)) fd s.ring).isSome →
        (s.updated init update fd).isOk → fd ≠ -1 ∧ fd ≠ -2
  | .unregisterFile update fd => s.ring.lookupFixed fd ≠ none → update = none
  | .registerFds refusal fds => (s.slots.registerFiles refusal fds).isOk → Distinct fds
  | .unregisterFds _ => True

/-! ## What a call does -/

/-- The table is there when the kernel has a set. -/
structure Tied (s : KernelFiles) : Prop where
  registered : s.ring.registeredFds = none ↔ s.slots = none
  apart : ∀ table, s.ring.registeredFds = some table → table.Apart

/-- All that a call can do, seen from the lookups and the slots. -/
inductive Moves (s : KernelFiles) (a : Act) (t : KernelFiles) : Bool → Prop where
  | quiet (hkeeps : s.Keeps a) (hlookup : ∀ fd, t.ring.lookupFixed fd = s.ring.lookupFixed fd)
      (hslot : ∀ i, t.slots.slot i = s.slots.slot i) (ok : Bool) : Moves s a t ok
  | entered (fd : Fd) (idx : UInt32) (hkeeps : s.Keeps a ↔ fd ≠ -1 ∧ fd ≠ -2)
      (hnew : s.ring.lookupFixed fd = none) (hunused : ∀ fd', s.ring.lookupFixed fd' ≠ some idx)
      (hlookup : ∀ fd', t.ring.lookupFixed fd' = if fd' = fd then some idx else s.ring.lookupFixed fd')
      (hslot : ∀ i, t.slots.slot i =
        if i = idx.toNat ∧ fd ≠ -2 then Slots.given fd else s.slots.slot i) :
      Moves s a t true
  | left (fd : Fd) (idx : UInt32) (hkeeps : s.Keeps a)
      (hidx : s.ring.lookupFixed fd = some idx)
      (hlookup : ∀ fd', t.ring.lookupFixed fd' = if fd' = fd then none else s.ring.lookupFixed fd')
      (hslot : ∀ i, t.slots.slot i = if i = idx.toNat then none else s.slots.slot i) :
      Moves s a t true
  /-- The entry goes, the slot keeps its descriptor. -/
  | forgotten (fd : Fd) (idx : UInt32) (hkeeps : ¬ s.Keeps a)
      (hidx : s.ring.lookupFixed fd = some idx)
      (hlookup : t.ring.lookupFixed fd = none) : Moves s a t false
  | filled (fds : List Fd) (hkeeps : s.Keeps a ↔ Distinct fds)
      (hsound : ∀ fd idx, t.ring.lookupFixed fd = some idx → fds[idx.toNat]? = some fd ∧ fd ≠ -1)
      (hcomplete : ∀ (i : Nat) (fd : Fd), fds[i]? = some fd → fd ≠ -1 →
        ∃ idx, t.ring.lookupFixed fd = some idx)
      (hslot : ∀ i, t.slots.slot i = fds[i]?.bind Slots.given) : Moves s a t true
  | emptied (hkeeps : s.Keeps a) (hlookup : ∀ fd, t.ring.lookupFixed fd = none)
      (hslot : ∀ i, t.slots.slot i = none) : Moves s a t true

section
variable {s t : KernelFiles} {a : Act} {ok : Bool}

theorem given_eq_some {fd fd' : Fd} : Slots.given fd = some fd' ↔ fd = fd' ∧ fd ≠ -1 := by
  unfold Slots.given
  split
  · rename_i hfd
    simp [hfd]
  · rename_i hfd
    simp [hfd]

theorem InStep.congr (hs : s.InStep) (hlookup : ∀ fd, t.ring.lookupFixed fd = s.ring.lookupFixed fd)
    (hslot : ∀ i, t.slots.slot i = s.slots.slot i) : t.InStep := by
  constructor
  · intro fd idx h
    rw [hlookup] at h
    rw [hslot]
    exact hs.held fd idx h
  · intro i fd h
    rw [hslot] at h
    obtain ⟨fd', idx, hidx, hi⟩ := hs.mapped i fd h
    exact ⟨fd', idx, by rw [hlookup, hidx], hi⟩

/-- A new entry for a slot that had none, which the kernel fills if it is given a descriptor. -/
theorem InStep.entered_iff (hs : s.InStep) {fd : Fd} {idx : UInt32}
    (hnew : s.ring.lookupFixed fd = none) (hunused : ∀ fd', s.ring.lookupFixed fd' ≠ some idx)
    (hlookup : ∀ fd', t.ring.lookupFixed fd' = if fd' = fd then some idx else s.ring.lookupFixed fd')
    (hslot : ∀ i, t.slots.slot i =
      if i = idx.toNat ∧ fd ≠ -2 then Slots.given fd else s.slots.slot i) :
    t.InStep ↔ fd ≠ -1 ∧ fd ≠ -2 := by
  constructor
  · intro ht
    -- the slot of the new entry must hold the descriptor
    have hheld := ht.held fd idx (by rw [hlookup, if_pos rfl])
    rw [hslot] at hheld
    split at hheld
    · rename_i hwritten
      exact ⟨(given_eq_some.mp hheld).2, hwritten.2⟩
    · obtain ⟨fd', idx', hidx', hi⟩ := hs.mapped _ _ hheld
      rw [UInt32.toNat_inj.mp hi] at hidx'
      exact absurd hidx' (hunused fd')
  · rintro ⟨hnone, hskip⟩
    constructor
    · intro fd' idx' h
      rw [hlookup] at h
      rw [hslot]
      split at h
      · rename_i hfd
        cases h
        rw [if_pos ⟨rfl, hskip⟩, given_eq_some]
        exact ⟨hfd.symm, hnone⟩
      · rw [if_neg]
        · exact hs.held fd' idx' h
        · rintro ⟨heq, -⟩
          rw [UInt32.toNat_inj.mp heq] at h
          exact hunused fd' h
    · intro i fd' h
      rw [hslot] at h
      split at h
      · rename_i hi
        exact ⟨fd, idx, by rw [hlookup, if_pos rfl], hi.1.symm⟩
      · obtain ⟨fd₁, idx₁, hidx₁, hi⟩ := hs.mapped i fd' h
        by_cases hfd : fd₁ = fd
        · rw [hfd, hnew] at hidx₁
          cases hidx₁
        · exact ⟨fd₁, idx₁, by rw [hlookup, if_neg hfd, hidx₁], hi⟩

/-- An entry goes, and its slot with it. -/
theorem InStep.left (hs : s.InStep) {fd : Fd} {idx : UInt32}
    (hidx : s.ring.lookupFixed fd = some idx)
    (hlookup : ∀ fd', t.ring.lookupFixed fd' = if fd' = fd then none else s.ring.lookupFixed fd')
    (hslot : ∀ i, t.slots.slot i = if i = idx.toNat then none else s.slots.slot i) : t.InStep := by
  constructor
  · intro fd' idx' h
    rw [hlookup] at h
    split at h
    · cases h
    · rename_i hfd
      rw [hslot, if_neg]
      · exact hs.held fd' idx' h
      · intro heq
        rw [UInt32.toNat_inj.mp heq] at h
        have hsame := hs.held fd idx hidx
        rw [hs.held fd' idx h, Option.some_inj] at hsame
        exact hfd hsame
  · intro i fd' h
    rw [hslot] at h
    split at h
    · cases h
    · rename_i hi
      obtain ⟨fd₁, idx₁, hidx₁, rfl⟩ := hs.mapped i fd' h
      refine ⟨fd₁, idx₁, ?_, rfl⟩
      rw [hlookup, if_neg, hidx₁]
      rintro rfl
      rw [hidx, Option.some_inj] at hidx₁
      exact hi (congrArg UInt32.toNat hidx₁.symm)

/-- Where no descriptor occurs twice, a descriptor has one position. -/
theorem Distinct.eq {fds : List Fd} (h : Distinct fds) {i j : Nat} {fd : Fd} (hi : fds[i]? = some fd)
    (hj : fds[j]? = some fd) (hfd : fd ≠ -1) : i = j := by
  obtain ⟨hlt, heq⟩ := List.getElem?_eq_some_iff.mp hi
  obtain ⟨hlt', heq'⟩ := List.getElem?_eq_some_iff.mp hj
  rcases Nat.lt_trichotomy i j with hij | hsame | hij
  · have hnone := List.pairwise_iff_getElem.mp h _ _ hlt hlt' hij (heq.trans heq'.symm)
    exact absurd (heq.symm.trans hnone) hfd
  · exact hsame
  · have hnone := List.pairwise_iff_getElem.mp h _ _ hlt' hlt hij (heq'.trans heq.symm)
    exact absurd (heq'.symm.trans hnone) hfd

/-- Table and slots are filled from one list of descriptors. -/
theorem inStep_filled_iff {fds : List Fd}
    (hsound : ∀ fd idx, t.ring.lookupFixed fd = some idx → fds[idx.toNat]? = some fd ∧ fd ≠ -1)
    (hcomplete : ∀ (i : Nat) (fd : Fd), fds[i]? = some fd → fd ≠ -1 →
      ∃ idx, t.ring.lookupFixed fd = some idx)
    (hslot : ∀ i, t.slots.slot i = fds[i]?.bind Slots.given) : t.InStep ↔ Distinct fds := by
  constructor
  · intro ht
    -- of two slots with one descriptor, both would have its entry
    have hone (i : Nat) (fd : Fd) (hi : fds[i]? = some fd) (hfd : fd ≠ -1) :
        ∃ idx, t.ring.lookupFixed fd = some idx ∧ idx.toNat = i := by
      have hheld : t.slots.slot i = some fd := by
        rw [hslot, hi]
        exact given_eq_some.mpr ⟨rfl, hfd⟩
      obtain ⟨fd', idx, hidx, rfl⟩ := ht.mapped i fd hheld
      have hfd' := (hsound fd' idx hidx).1
      rw [hi, Option.some_inj] at hfd'
      exact ⟨idx, by rw [hfd', hidx], rfl⟩
    apply List.pairwise_iff_getElem.mpr
    intro i j hi hj hij heq
    by_contra hne
    obtain ⟨idx, hidx, hi'⟩ := hone i _ (List.getElem?_eq_getElem hi) hne
    obtain ⟨idx', hidx', hj'⟩ := hone j _ (List.getElem?_eq_getElem hj) (heq ▸ hne)
    rw [heq, hidx', Option.some_inj] at hidx
    rw [hidx] at hj'
    omega
  · intro hdistinct
    constructor
    · intro fd idx h
      obtain ⟨hidx, hfd⟩ := hsound fd idx h
      rw [hslot, hidx]
      exact given_eq_some.mpr ⟨rfl, hfd⟩
    · intro i fd h
      rw [hslot, Option.bind_eq_some_iff] at h
      obtain ⟨fd', hi, hgiven⟩ := h
      obtain ⟨rfl, hfd⟩ := given_eq_some.mp hgiven
      obtain ⟨idx, hidx⟩ := hcomplete i fd' hi hfd
      exact ⟨fd', idx, hidx, hdistinct.eq (hsound fd' idx hidx).1 hi hfd⟩

/-- **One call.** From states in step, exactly the calls that keep it lead to states in step without
a failure that shows. -/
theorem Moves.inStep_iff (hs : s.InStep) (h : Moves s a t ok) :
    (t.InStep ∧ (ok = false → ∀ fd, t.ring.lookupFixed fd = s.ring.lookupFixed fd)) ↔
      s.Keeps a := by
  cases h with
  | quiet hkeeps hlookup hslot =>
    exact iff_of_true ⟨hs.congr hlookup hslot, fun _ => hlookup⟩ hkeeps
  | entered fd idx hkeeps hnew hunused hlookup hslot =>
    rw [hkeeps, ← hs.entered_iff hnew hunused hlookup hslot]
    exact and_iff_left (by simp)
  | left fd idx hkeeps hidx hlookup hslot =>
    exact iff_of_true ⟨hs.left hidx hlookup hslot, by simp⟩ hkeeps
  | forgotten fd idx hkeeps hidx hlookup =>
    refine iff_of_false ?_ hkeeps
    rintro ⟨-, hsame⟩
    have hlost : t.ring.lookupFixed fd = s.ring.lookupFixed fd := hsame rfl fd
    rw [hlookup, hidx] at hlost
    cases hlost
  | filled fds hkeeps hsound hcomplete hslot =>
    rw [hkeeps, ← inStep_filled_iff hsound hcomplete hslot]
    exact and_iff_left (by simp)
  | emptied hkeeps hlookup hslot =>
    refine iff_of_true ⟨⟨fun fd idx h => ?_, fun i fd h => ?_⟩, by simp⟩ hkeeps
    · rw [hlookup] at h
      cases h
    · rw [hslot] at h
      cases h

/-! ## The four calls -/

theorem lookupFixed_of_table {ring : Ring} {table : FixedFdTable}
    (h : ring.registeredFds = some table) (fd : Fd) : ring.lookupFixed fd = table.getIndex fd := by
  rw [Ring.lookupFixed, h]
  rfl

theorem lookupFixed_of_none {ring : Ring} (h : ring.registeredFds = none) (fd : Fd) :
    ring.lookupFixed fd = none := by
  rw [Ring.lookupFixed, h]
  rfl

/-- The table that `register_file` works on has the lookups of before. -/
theorem startTable_getIndex (hs : s.Tied) {init : Option String} {table : FixedFdTable}
    (h : FileCore.startTable init s.ring = some table) :
    table.Apart ∧ ∀ fd, table.getIndex fd = s.ring.lookupFixed fd := by
  unfold FileCore.startTable at h
  split at h
  · rename_i hsome
    cases h
    exact ⟨hs.apart table hsome, fun fd => (lookupFixed_of_table hsome fd).symm⟩
  · rename_i hnone
    cases h
    refine ⟨FixedFdTable.Apart.new, fun fd => ?_⟩
    rw [lookupFixed_of_none hnone, FixedFdTable.getIndex_new]
  · cases h

/-- The slots when the update comes are as they were, apart from empty ones. -/
theorem settle_sparse (hs : s.Tied) (init : Option String) :
    (∀ i, (Slots.settle (s.sparse init) s.slots).slot i = s.slots.slot i) ∧
      (FileCore.startTable (Slots.errorOf (s.sparse init)) s.ring = none ↔
        Slots.settle (s.sparse init) s.slots = none) := by
  unfold sparse FileCore.startTable
  cases htable : s.ring.registeredFds with
  | some table =>
    refine ⟨fun i => rfl, ?_⟩
    have hslots : s.slots ≠ none := by
      rw [Ne, ← hs.registered, htable]
      exact Option.some_ne_none _
    simp [Slots.settle, hslots]
  | none =>
    have hslots := hs.registered.mp htable
    cases hanswer : s.slots.registerFiles init (List.replicate 4096 (-1)) with
    | error e => simp [Slots.settle, Slots.errorOf, hslots]
    | ok k' =>
      obtain ⟨-, hsome, -, hslot⟩ := Slots.registerFiles_ok hanswer
      refine ⟨fun i => ?_, ?_⟩
      · rw [Slots.settle, hslot, hslots, List.getElem?_replicate]
        split <;> rfl
      · simp only [Slots.settle, Slots.errorOf]
        refine iff_of_false (Option.some_ne_none _) ?_
        rw [← Option.not_isSome_iff_eq_none]
        exact not_not_intro hsome

/-- The ways `register_file` can end once it works on a table. -/
def RegisterEnds (ring : Ring) (table : FixedFdTable) (update : Option String) (fd : Fd)
    (r : Ring × Except Error UInt32) : Prop :=
  (∃ idx, table.getIndex fd = some idx ∧
    r = ({ ring with registeredFds := some table }, .ok idx)) ∨
  table.getIndex fd = none ∧
    (((table.insert fd).2 = none ∧ ∃ e,
      r = ({ ring with registeredFds := some (table.insert fd).1 }, .error e)) ∨
    ∃ idx, (table.insert fd).2 = some idx ∧
      (update = none ∧ r = ({ ring with registeredFds := some (table.insert fd).1 }, .ok idx) ∨
      update.isSome ∧ ∃ e,
        r = ({ ring with registeredFds := some ((table.insert fd).1.remove fd).1 }, .error e)))

theorem registerFile_some (ring : Ring) {table : FixedFdTable} (h : ring.registeredFds = some table)
    (init update : Option String) (fd : Fd) :
    RegisterEnds ring table update fd (ring.registerFile init update fd) := by
  unfold Ring.registerFile
  rw [h]
  simp only
  cases hidx : table.getIndex fd with
  | some idx => exact .inl ⟨idx, hidx, rfl⟩
  | none =>
    refine .inr ⟨hidx, ?_⟩
    cases hinsert : table.insert fd with | mk inserted slot? =>
    cases slot? with
    | none => exact .inl ⟨rfl, _, rfl⟩
    | some idx =>
      refine .inr ⟨idx, rfl, ?_⟩
      cases update with
      | none => exact .inl ⟨rfl, rfl⟩
      | some e => exact .inr ⟨rfl, _, rfl⟩

/-- With no table and none refused, `register_file` starts from a new one. -/
theorem registerFile_none {ring : Ring} (h : ring.registeredFds = none) (update : Option String) (fd : Fd) :
    ring.registerFile none update fd =
      Ring.registerFile none update fd { ring with registeredFds := some (.new 4096) } := by
  unfold Ring.registerFile
  rw [h]

theorem registerFile_start {ring : Ring} {init : Option String} {table : FixedFdTable}
    (h : FileCore.startTable init ring = some table) (update : Option String) (fd : Fd) :
    RegisterEnds ring table update fd (ring.registerFile init update fd) := by
  unfold FileCore.startTable at h
  split at h
  · rename_i hsome
    cases h
    exact registerFile_some ring hsome _ update fd
  · rename_i hnone
    cases h
    rw [registerFile_none hnone]
    exact registerFile_some { ring with registeredFds := some (.new 4096) } rfl none update fd
  · cases h

/-- Inserting and removing a descriptor that had no entry changes no lookup. -/
theorem getIndex_insert_remove {table : FixedFdTable} {fd : Fd} (h : table.getIndex fd = none)
    (fd' : Fd) : ((table.insert fd).1.remove fd).1.getIndex fd' = table.getIndex fd' := by
  have hinsert (hfd : fd' ≠ fd) : (table.insert fd).1.getIndex fd' = table.getIndex fd' := by
    rcases FixedFdTable.insert_spec h with ⟨-, heq⟩ | ⟨idx, rest, t', -, heq, -, hget⟩
    · rw [heq]
    · rw [heq, hget, if_neg hfd]
  rcases FixedFdTable.remove_spec fd (table.insert fd).1 with ⟨hnone, heq⟩ | ⟨idx, t', -, heq, -, hget⟩
  · rw [heq]
    by_cases hfd : fd' = fd
    · rw [hfd, hnone, h]
    · exact hinsert hfd
  · rw [heq, hget]
    split
    · rename_i hfd
      rw [hfd, h]
    · rename_i hfd
      exact hinsert hfd

/-- Where `register_file` has no table to work on, it does nothing. -/
theorem registerFile_refused {ring : Ring} {init : Option String}
    (h : FileCore.startTable init ring = none) (update : Option String) (fd : Fd) :
    ring.registeredFds = none ∧ (ring.registerFile init update fd).1 = ring := by
  unfold FileCore.startTable at h
  split at h
  · cases h
  · cases h
  · rename_i e hnone
    refine ⟨hnone, ?_⟩
    unfold Ring.registerFile
    rw [hnone]

theorem updated_of_none {init : Option String} (update : Option String) {fd : Fd}
    (h : FileCore.updatedSlot (Slots.errorOf (s.sparse init)) fd s.ring = none) :
    s.updated init update fd = .ok (Slots.settle (s.sparse init) s.slots) ∧
      s.Keeps (.registerFile init update fd) := by
  refine ⟨by rw [updated, h], fun hsome => ?_⟩
  rw [h] at hsome
  cases hsome

/-- The slot that is to be updated is the one the table takes for a descriptor without an entry. -/
theorem updatedSlot_start {init : Option String} {table : FixedFdTable}
    (h : FileCore.startTable init s.ring = some table) (fd : Fd) :
    FileCore.updatedSlot init fd s.ring =
      if table.getIndex fd = none then (table.insert fd).2 else none := by
  rw [FileCore.updatedSlot, h, Option.bind_some]
  cases table.getIndex fd <;> rfl

/-- As long as no slot is updated, nothing can be seen. -/
theorem registerFile_quiet (hs : s.Tied) {init update : Option String} {fd : Fd}
    {table table' : FixedFdTable}
    (hstart : FileCore.startTable (Slots.errorOf (s.sparse init)) s.ring = some table)
    (hapart : table'.Apart) (hsame : ∀ fd', table'.getIndex fd' = table.getIndex fd')
    (hkeeps : s.Keeps (.registerFile init update fd)) (ok : Bool) :
    Tied ⟨{ s.ring with registeredFds := some table' }, Slots.settle (s.sparse init) s.slots⟩ ∧
      Moves s (.registerFile init update fd)
        ⟨{ s.ring with registeredFds := some table' }, Slots.settle (s.sparse init) s.slots⟩ ok := by
  obtain ⟨hslots, hstarts⟩ := settle_sparse hs init
  have hsettle : Slots.settle (s.sparse init) s.slots ≠ none := by
    rw [Ne, ← hstarts, hstart]
    exact Option.some_ne_none _
  refine ⟨⟨iff_of_false (Option.some_ne_none _) hsettle, fun _ h => ?_⟩,
    .quiet hkeeps (fun fd' => ?_) hslots ok⟩
  · cases h
    exact hapart
  · rw [lookupFixed_of_table rfl, hsame, (startTable_getIndex hs hstart).2]

/-- A slot is taken, and the kernel updates it. -/
theorem registerFile_entered (hs : s.Tied) {init update : Option String} {fd : Fd} {idx : UInt32}
    {table : FixedFdTable} {k' : Slots}
    (hstart : FileCore.startTable (Slots.errorOf (s.sparse init)) s.ring = some table)
    (hnew : table.getIndex fd = none) (hidx : (table.insert fd).2 = some idx)
    (hupdated : s.updated init update fd = .ok k') :
    Tied ⟨{ s.ring with registeredFds := some (table.insert fd).1 }, k'⟩ ∧
      Moves s (.registerFile init update fd)
        ⟨{ s.ring with registeredFds := some (table.insert fd).1 }, k'⟩ true := by
  obtain ⟨hslots, -⟩ := settle_sparse hs init
  obtain ⟨hapart, hget⟩ := startTable_getIndex hs hstart
  have hslot := updatedSlot_start hstart fd
  rw [if_pos hnew, hidx] at hslot
  have hok : (s.updated init update fd).isOk = true := by
    rw [hupdated]
    rfl
  rw [updated, hslot] at hupdated
  obtain ⟨-, hsome, hwritten⟩ := Slots.update_ok hupdated
  obtain ⟨hnil, heq⟩ | ⟨idx', rest, t', hfree, heq, -, hget'⟩ := FixedFdTable.insert_spec hnew
  · rw [heq] at hidx
    cases hidx
  · have hinserted : (table.insert fd).1.Apart := hapart.insert
    rw [heq] at hidx hinserted ⊢
    cases hidx
    refine ⟨⟨iff_of_false (Option.some_ne_none _) ?_, fun _ h => ?_⟩,
      .entered fd idx ?_ ?_ (fun fd' h => ?_) (fun fd' => ?_) (fun i => ?_)⟩
    · rw [← Option.not_isSome_iff_eq_none]
      exact not_not_intro hsome
    · cases h
      exact hinserted
    · exact ⟨fun h => h (by rw [hslot]; rfl) hok, fun h _ _ => h⟩
    · rw [← hget, hnew]
    · rw [← hget] at h
      apply hapart.used fd' idx h
      rw [hfree]
      exact .head _
    · rw [lookupFixed_of_table rfl, hget', hget]
    · show k'.slot i = _
      rw [hwritten, hslots]

theorem registerFile_call (hs : s.Tied) (init update : Option String) (fd : Fd) :
    (s.call (.registerFile init update fd)).1.Tied ∧
      Moves s (.registerFile init update fd) (s.call (.registerFile init update fd)).1
        (s.call (.registerFile init update fd)).2 := by
  obtain ⟨hslots, hstarts⟩ := settle_sparse hs init
  simp only [call, registerFile]
  cases hstart : FileCore.startTable (Slots.errorOf (s.sparse init)) s.ring with
  | none =>
    have hsettle := hstarts.mp hstart
    obtain ⟨hnone, hring⟩ := registerFile_refused hstart (Slots.errorOf (s.updated init update fd)) fd
    have hslot : FileCore.updatedSlot (Slots.errorOf (s.sparse init)) fd s.ring = none := by
      rw [FileCore.updatedSlot, hstart, Option.bind_none]
    obtain ⟨hupdated, hkeeps⟩ := updated_of_none update hslot
    rw [hring, hupdated, hsettle]
    refine ⟨⟨iff_of_true hnone rfl, hs.apart⟩, .quiet hkeeps (fun _ => ?_) (fun i => ?_) _⟩
    · rfl
    · rw [← hslots, hsettle]
      rfl
  | some table =>
    obtain ⟨hapart, -⟩ := startTable_getIndex hs hstart
    have hslot := updatedSlot_start hstart fd
    have hends : RegisterEnds s.ring table (Slots.errorOf (s.updated init update fd)) fd _ :=
      registerFile_start hstart _ fd
    rcases hends with ⟨idx, hidx, hring⟩ | ⟨hnew, ⟨hfull, e, hring⟩ | ⟨idx, hidx, hring⟩⟩
    · -- the descriptor has an entry
      rw [hidx, if_neg (by simp)] at hslot
      obtain ⟨hupdated, hkeeps⟩ := updated_of_none update hslot
      rw [hring, hupdated]
      exact registerFile_quiet hs hstart hapart (fun _ => rfl) hkeeps _
    · -- there is no slot left
      rw [if_pos hnew, hfull] at hslot
      obtain ⟨hupdated, hkeeps⟩ := updated_of_none update hslot
      have hsame : (table.insert fd).1 = table := by
        rcases FixedFdTable.insert_spec hnew with ⟨-, heq⟩ | ⟨idx, rest, t', -, heq, -, -⟩
        · rw [heq]
        · rw [heq] at hfull
          cases hfull
      rw [hring, hupdated, hsame]
      exact registerFile_quiet hs hstart hapart (fun _ => rfl) hkeeps _
    · cases hupdated : s.updated init update fd with
      | error e =>
        -- the kernel refuses the update, and the entry is taken back
        have hkeeps : s.Keeps (.registerFile init update fd) := by
          intro _ h
          rw [hupdated] at h
          cases h
        rw [hupdated] at hring
        obtain ⟨hnone, -⟩ | ⟨-, e', hring⟩ := hring
        · cases hnone
        · rw [hring]
          exact registerFile_quiet hs hstart hapart.insert.remove (getIndex_insert_remove hnew) hkeeps _
      | ok k' =>
        rw [hupdated] at hring
        obtain ⟨-, hring⟩ | ⟨hsome, -⟩ := hring
        · rw [hring]
          exact registerFile_entered hs hstart hnew hidx hupdated
        · cases hsome

theorem unregisterFile_call (hs : s.Tied) (hin : s.InStep) (update : Option String) (fd : Fd) :
    (s.call (.unregisterFile update fd)).1.Tied ∧
      Moves s (.unregisterFile update fd) (s.call (.unregisterFile update fd)).1
        (s.call (.unregisterFile update fd)).2 := by
  simp only [call, unregisterFile, Ring.unregisterFile]
  cases htable : s.ring.registeredFds with
  | none =>
    have hlookup := lookupFixed_of_none htable fd
    have hkeeps : s.Keeps (.unregisterFile update fd) := fun h => absurd hlookup h
    rw [hlookup]
    exact ⟨hs, .quiet hkeeps (fun _ => rfl) (fun _ => rfl) _⟩
  | some table =>
    have hslots : s.slots ≠ none := by
      rw [Ne, ← hs.registered, htable]
      exact Option.some_ne_none _
    have hget := lookupFixed_of_table htable
    have hapart := hs.apart table htable
    rcases FixedFdTable.remove_spec fd table with ⟨hnone, heq⟩ | ⟨idx, t', hidx, heq, -, hget'⟩
    · have hkeeps : s.Keeps (.unregisterFile update fd) := fun h => absurd ((hget fd).trans hnone) h
      rw [hget, hnone]
      simp only [heq]
      refine ⟨⟨iff_of_false (Option.some_ne_none _) hslots, fun _ h => ?_⟩,
        .quiet hkeeps (fun fd' => ?_) (fun _ => ?_) _⟩
      · cases h
        exact hapart
      · rw [lookupFixed_of_table rfl, hget]
      · rfl
    · have hremoved : t'.Apart := by
        have h : (table.remove fd).1.Apart := hapart.remove
        rwa [heq] at h
      have hlookup : s.ring.lookupFixed fd = some idx := (hget fd).trans hidx
      rw [hlookup]
      simp only [heq]
      cases hanswer : s.slots.update update idx (-1) with
      | error e =>
        refine ⟨⟨iff_of_false (Option.some_ne_none _) hslots, fun _ h => ?_⟩,
          .forgotten fd idx ?_ hlookup ?_⟩
        · cases h
          exact hremoved
        · intro hkeeps
          obtain rfl : update = none := hkeeps (by rw [hlookup]; exact Option.some_ne_none _)
          obtain ⟨k', hk'⟩ := Slots.update_empty (hin.held fd idx hlookup)
          rw [hanswer] at hk'
          cases hk'
        · rw [lookupFixed_of_table rfl, hget', if_pos rfl]
      | ok k' =>
        obtain ⟨-, hsome, hslot⟩ := Slots.update_ok hanswer
        refine ⟨⟨iff_of_false (Option.some_ne_none _) ?_, fun _ h => ?_⟩,
          .left fd idx ?_ hlookup (fun fd' => ?_) (fun i => ?_)⟩
        · rw [← Option.not_isSome_iff_eq_none]
          exact not_not_intro hsome
        · cases h
          exact hremoved
        · intro _
          cases update with
          | none => rfl
          | some e => cases hanswer
        · rw [lookupFixed_of_table rfl, hget', hget]
        · simp only [Slots.settle, hslot]
          simp [Slots.given]

theorem registerFds_call (hs : s.Tied) (refusal : Option String) (fds : List Fd) :
    (s.call (.registerFds refusal fds)).1.Tied ∧
      Moves s (.registerFds refusal fds) (s.call (.registerFds refusal fds)).1
        (s.call (.registerFds refusal fds)).2 := by
  simp only [call, registerFds, Ring.registerFds]
  cases hanswer : s.slots.registerFiles refusal fds with
  | error e =>
    have hkeeps : s.Keeps (.registerFds refusal fds) := by
      intro h
      rw [hanswer] at h
      cases h
    exact ⟨hs, .quiet hkeeps (fun _ => rfl) (fun _ => rfl) _⟩
  | ok k' =>
    obtain ⟨hnone, hsome, hlength, hslot⟩ := Slots.registerFiles_ok hanswer
    have hcapacity : (UInt32.ofNat (max fds.length 4096)).toNat = max fds.length 4096 := by
      apply UInt32.toNat_ofNat_of_lt'
      have hle : max fds.length 4096 ≤ 2 ^ 20 := Nat.max_le.mpr ⟨hlength, by decide⟩
      exact Nat.lt_of_le_of_lt hle (by decide)
    refine ⟨⟨iff_of_false (Option.some_ne_none _) ?_, fun table htable => ?_⟩,
      .filled fds ?_ (fun fd idx h => ?_) (fun i fd hi hfd => ?_) hslot⟩
    · rw [← Option.not_isSome_iff_eq_none]
      exact not_not_intro hsome
    · cases htable
      exact FixedFdTable.Apart.initFromSlice
    · simp [Keeps, hanswer, Except.isOk, Except.toBool]
    · exact (FixedFdTable.getIndex_initFromSlice h).2
    · apply FixedFdTable.getIndex_initFromSlice_isSome _ hfd hi
      rw [hcapacity]
      exact Nat.lt_of_lt_of_le (List.getElem?_eq_some_iff.mp hi).1 (Nat.le_max_left ..)

theorem unregisterFds_call (hs : s.Tied) (refusal : Option String) :
    (s.call (.unregisterFds refusal)).1.Tied ∧
      Moves s (.unregisterFds refusal) (s.call (.unregisterFds refusal)).1
        (s.call (.unregisterFds refusal)).2 := by
  have hkeeps : s.Keeps (.unregisterFds refusal) := trivial
  simp only [call, unregisterFds, Ring.unregisterFds]
  cases htable : s.ring.registeredFds with
  | none => exact ⟨hs, .quiet hkeeps (fun _ => rfl) (fun _ => rfl) _⟩
  | some table =>
    cases hanswer : s.slots.unregisterFiles refusal with
    | error e => exact ⟨hs, .quiet hkeeps (fun _ => rfl) (fun _ => rfl) _⟩
    | ok k' =>
      have hnone : k' = none := by
        unfold Slots.unregisterFiles at hanswer
        split at hanswer <;> cases hanswer
        rfl
      rw [hnone]
      exact ⟨⟨iff_of_true rfl rfl, fun _ h => (by cases h)⟩,
        .emptied hkeeps (fun _ => rfl) (fun _ => rfl)⟩

theorem call_moves (hs : s.Tied) (hin : s.InStep) (a : Act) :
    (s.call a).1.Tied ∧ Moves s a (s.call a).1 (s.call a).2 := by
  cases a with
  | registerFile init update fd => exact registerFile_call hs init update fd
  | unregisterFile update fd => exact unregisterFile_call hs hin update fd
  | registerFds refusal fds => exact registerFds_call hs refusal fds
  | unregisterFds refusal => exact unregisterFds_call hs refusal

end

/-! ## Runs -/

/-- **Table and kernel.** All along a run the two are in step and no failed call changes a lookup, if
and only if every call of the run keeps them so. -/
theorem in_step_iff {entries : Nat} {acts : List Act} {x : KernelFiles × Prop}
    (hrun : machine.run (start entries) acts = some x) :
    machine.Always (fun x => x.1.InStep ∧ x.2) (start entries) acts ↔
      machine.Meets (fun x a => x.1.Keeps a) (start entries) acts := by
  refine Machine.always_iff_meets (I := fun x : KernelFiles × Prop => x.1.Tied) ?_ ?_ ?_ hrun
  · rintro ⟨s, kept⟩ a ⟨t, kept'⟩ hs ⟨hin, -⟩ hstep
    obtain ⟨hcall, rfl⟩ := Machine.ghost_step_mk.mp hstep
    cases hcall
    obtain ⟨ht, hmoves⟩ := call_moves hs hin a
    exact ⟨ht, hmoves.inStep_iff hin⟩
  · exact ⟨iff_of_true rfl rfl, fun _ h => (by cases h)⟩
  · exact ⟨⟨fun _ _ h => (by cases h), fun _ _ h => (by cases h)⟩, trivial⟩

/-- Two descriptors are registered at once, and one of them leaves; if the kernel refuses that, with
an error. -/
def leavingRun (refusal : Option String) : List Act :=
  [.registerFds none [5, 6], .unregisterFile refusal 5]

set_option maxRecDepth 20000 in
theorem in_step_leaving :
    ∃ x, machine.run (start 8) (leavingRun none) = some x ∧
      machine.Always (fun x => x.1.InStep ∧ x.2) (start 8) (leavingRun none) :=
  ⟨_, rfl, (in_step_iff (show machine.run (start 8) (leavingRun none) = some _ from rfl)).mpr
    ⟨fun _ => by unfold Distinct; decide, fun _ _ => ⟨fun _ => rfl, fun _ _ => trivial⟩⟩⟩

set_option maxRecDepth 20000 in
/-- The call fails, the entry is gone, and the kernel still has the descriptor. -/
theorem not_in_step_refused :
    ∃ x, machine.run (start 8) [.registerFds none [5, 6]] = some x ∧
      x.1.ring.lookupFixed 5 = some 0 ∧
      (x.1.call (.unregisterFile (some "EINTR") 5)).2 = false ∧
      (x.1.call (.unregisterFile (some "EINTR") 5)).1.ring.lookupFixed 5 = none ∧
      (x.1.call (.unregisterFile (some "EINTR") 5)).1.slots.slot 0 = some 5 := by
  refine ⟨_, rfl, ?_, ?_, ?_, ?_⟩ <;> rfl

end KernelFiles

end Uringcore
