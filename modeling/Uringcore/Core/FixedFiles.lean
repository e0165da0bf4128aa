import Uringcore.Core.System

/-!
# Which file a fixed index names

The core machine with the two tables that decide which file an operation reaches: what the
operating system's descriptors name (`files`) and what the kernel's registered-file slots hold
(`slots`). A slot keeps its file until it is updated. Descriptors are closed and their numbers
reused by the program as well as by a `close` that the ring completes.

The ring's own table is only ever changed by `register_file` and `unregister_file`: no close path
touches it. So the slot that a fixed operation uses holds the file the descriptor named when its
entry was made (`Filed`), which is the file it names now exactly if it has not changed hands since
(`fixed_target_iff`).
-/

namespace Uringcore

/-- The core with the files behind its descriptors. `File` is an open file. -/
structure FileCore (F H T File : Type) where
  core : UringCore F H T
  /-- What each descriptor names. -/
  files : Fd → Option File
  /-- What each registered-file slot holds. -/
  slots : UInt32 → Option File

inductive FileAct (F H T File : Type) where
  | core (a : UringCore.Act F H T)
  /-- The operating system gives the unused number `fd` to a file. -/
  | openFile (fd : Fd) (file : File)
  /-- The program closes `fd` itself. -/
  | closeFile (fd : Fd)

namespace FileCore
variable {F H T File : Type}

/-- `IORING_REGISTER_FILES_UPDATE` of a slot holding `old`: -1 empties it, -2 skips it, a descriptor
that names no file is refused. -/
def kernelUpdate (files : Fd → Option File) (old : Option File) (fd : Fd) : Option (Option File) :=
  if fd = -1 then some none
  else if fd = -2 then some old
  else (files fd).map some

/-- The table that `register_file` works on: the ring's, or a new one if the kernel accepts that. -/
def startTable (init : Option String) (ring : Ring) : Option FixedFdTable :=
  match ring.registeredFds, init with
  | some table, _ => some table
  | none, none => some (.new 4096)
  | none, some _ => none

/-- The slot that `register_file` asks the kernel to update, if it gets there. -/
def updatedSlot (init : Option String) (fd : Fd) (ring : Ring) : Option UInt32 :=
  (startTable init ring).bind fun table => match table.getIndex fd with
    | some _ => none
    | none => (table.insert fd).2

/-- The completion of a `close` that succeeds. -/
def closes (s : FileCore F H T File) (i : Nat) (payload : Payload) : Option Fd :=
  match s.core.ring.kernel[i]?, payload with
  | some ⟨fd, .close, _, _, _⟩, .count _ => some fd
  | _, _ => none

section
variable [LE T] [DecidableLE T]

def step (s : FileCore F H T File) : FileAct F H T File → Option (FileCore F H T File)
  | .core a => (UringCore.machine.step s.core a).bind fun core => match a with
      | .registerFile init none fd => match updatedSlot init fd s.core.ring with
          | none => some { s with core }
          | some idx => (kernelUpdate s.files (s.slots idx) fd).map fun file =>
              { s with core, slots := Function.update s.slots idx file }
      | .unregisterFile none fd => match s.core.ring.lookupFixed fd with
          | none => some { s with core }
          | some idx => some { s with core, slots := Function.update s.slots idx none }
      | .complete i payload _ _ => match s.closes i payload with
          | none => some { s with core }
          | some fd => (s.files fd).map fun _ =>
              { s with core, files := Function.update s.files fd none }
      | _ => some { s with core }
  | .openFile fd file =>
      if 0 ≤ fd ∧ s.files fd = none then
        some { s with files := Function.update s.files fd (some file) }
      else none
  | .closeFile fd => (s.files fd).map fun _ =>
      { s with files := Function.update s.files fd none }

/-- What the kernel put into the slot when `register_file` last made an entry for the descriptor:
the file the descriptor named then. -/
def filedUpd (s : FileCore F H T File) (a : FileAct F H T File) (_ : FileCore F H T File)
    (filed : Fd → Option File) : Fd → Option File :=
  match a with
  | .core (.registerFile init none fd) => match updatedSlot init fd s.core.ring with
      | some idx => match kernelUpdate s.files (s.slots idx) fd with
          | some file => Function.update filed fd file
          | none => filed
      | none => filed
  | _ => filed

def machine : Machine (FileCore F H T File × (Fd → Option File)) (FileAct F H T File) :=
  (Machine.mk step).ghost filedUpd

end

/-- Every entry's slot holds the file that was put into it. -/
structure Filed (ring : Ring) (slots : UInt32 → Option File) (filed : Fd → Option File) : Prop where
  apart : ∀ table, ring.registeredFds = some table → table.Apart
  held : ∀ fd idx, ring.lookupFixed fd = some idx → slots idx = filed fd

namespace Filed

variable {ring ring' : Ring} {slots : UInt32 → Option File} {filed : Fd → Option File}

theorem of_same (h : Filed ring slots filed) (hfds : ring'.registeredFds = ring.registeredFds) :
    Filed ring' slots filed where
  apart table htable := h.apart table (by rwa [hfds] at htable)
  held fd idx hidx := by
    rw [Ring.lookupFixed, hfds] at hidx
    exact h.held fd idx hidx

/-- A new table holds nothing yet. -/
theorem of_start (h : Filed ring slots filed) {init : Option String} {table : FixedFdTable}
    (htable : startTable init ring = some table) :
    table.Apart ∧ ∀ fd idx, table.getIndex fd = some idx → slots idx = filed fd := by
  unfold startTable at htable
  split at htable
  · rename_i hsome
    cases htable
    refine ⟨h.apart table hsome, fun fd idx hidx => h.held fd idx ?_⟩
    rw [Ring.lookupFixed, hsome]
    exact hidx
  · cases htable
    refine ⟨FixedFdTable.Apart.new, fun fd idx hidx => ?_⟩
    rw [FixedFdTable.getIndex_new] at hidx
    cases hidx
  · cases htable

/-- A table of which the same is known. -/
theorem of_table {table : FixedFdTable} {slots : UInt32 → Option File}
    {filed : Fd → Option File} (htable : ring'.registeredFds = some table) (hapart : table.Apart)
    (hheld : ∀ fd idx, table.getIndex fd = some idx → slots idx = filed fd) :
    Filed ring' slots filed where
  apart table' htable' := by
    rw [htable] at htable'
    cases htable'
    exact hapart
  held fd idx hidx := by
    rw [Ring.lookupFixed, htable] at hidx
    exact hheld fd idx hidx

end Filed

/-- The end of `register_file`, for a descriptor without an entry. -/
theorem registerFile_insert {table : FixedFdTable} {fd : Fd} (hidx : table.getIndex fd = none)
    (update : Option String) (ring : Ring) :
    (match table.insert fd, update with
      | (table, none), _ => ({ ring with registeredFds := some table },
          (.error (.ringOp "Fixed file table full") : Except Error UInt32))
      | (table, some idx), none => ({ ring with registeredFds := some table }, .ok idx)
      | (table, some _), some e => ({ ring with registeredFds := some (table.remove fd).1 },
          .error (.ringOp s!"register_files_update failed: {e}"))).1.registeredFds =
      if none = (none : Option UInt32) ∧ update.isSome then
        some ((table.insert fd).1.remove fd).1
      else some (table.insert fd).1 := by
  rcases FixedFdTable.insert_spec hidx with ⟨-, heq⟩ | ⟨idx, rest, t', -, heq, -, -⟩
  · have hremove : table.remove fd = (table, none) := by
      rcases FixedFdTable.remove_spec fd table with ⟨-, h⟩ | ⟨idx, -, h, -⟩
      · exact h
      · rw [hidx] at h
        cases h
    cases update <;> simp [heq, hremove]
  · cases update <;> simp [heq]

/-- `register_file` does nothing, or it works on a table. -/
theorem registerFile_cases (init update : Option String) (fd : Fd) (ring : Ring) :
    ((ring.registerFile init update fd).1 = ring ∧ updatedSlot init fd ring = none) ∨
    ∃ table, startTable init ring = some table ∧
      updatedSlot init fd ring = (if table.getIndex fd = none then (table.insert fd).2 else none) ∧
      (ring.registerFile init update fd).1.registeredFds =
        if table.getIndex fd = none ∧ update.isSome then some ((table.insert fd).1.remove fd).1
        else some (table.insert fd).1 := by
  have hstart : (startTable init ring = none ∧ (ring.registerFile init update fd).1 = ring) ∨
      ∃ table, startTable init ring = some table ∧
        (ring.registerFile init update fd).1 = (match table.getIndex fd with
          | some idx => ({ ring with registeredFds := some table },
              (.ok idx : Except Error UInt32))
          | none => match table.insert fd, update with
            | (table, none), _ => ({ ring with registeredFds := some table },
                (.error (.ringOp "Fixed file table full") : Except Error UInt32))
            | (table, some idx), none => ({ ring with registeredFds := some table }, .ok idx)
            | (table, some _), some e => ({ ring with registeredFds := some (table.remove fd).1 },
                .error (.ringOp s!"register_files_update failed: {e}"))).1 := by
    unfold startTable Ring.registerFile
    generalize FixedFdTable.new 4096 = fresh
    rcases ring.registeredFds with _ | table
    · cases init with
      | none => exact .inr ⟨_, rfl, rfl⟩
      | some e => exact .inl ⟨rfl, rfl⟩
    · exact .inr ⟨_, rfl, rfl⟩
  rcases hstart with ⟨hnone, hring⟩ | ⟨table, htable, hring⟩
  · exact .inl ⟨hring, by rw [updatedSlot, hnone, Option.bind_none]⟩
  · refine .inr ⟨table, htable, ?_⟩
    rw [updatedSlot, htable, Option.bind_some, hring]
    cases hidx : table.getIndex fd with
    | some idx => simp [FixedFdTable.insert_of_getIndex hidx]
    | none => exact ⟨rfl, registerFile_insert hidx update ring⟩

namespace Filed

variable {ring ring' : Ring} {slots : UInt32 → Option File} {filed : Fd → Option File}

/-- Registering without an update of a slot keeps the entries there are. -/
theorem of_registerFile_same (h : Filed ring slots filed) {init update : Option String} {fd : Fd}
    (hslot : updatedSlot init fd ring = none ∨ update.isSome) :
    Filed (ring.registerFile init update fd).1 slots filed := by
  rcases registerFile_cases init update fd ring with ⟨hring, -⟩ | ⟨table, hstart, hupd, hring⟩
  · rw [hring]
    exact h
  · rcases h.of_start hstart with ⟨hapart, hheld⟩
    split at hring
    · rename_i hundone
      refine of_table hring hapart.insert.remove fun fd' idx hidx => ?_
      rcases FixedFdTable.remove_spec fd (table.insert fd).1 with
        ⟨hnone, heq⟩ | ⟨idx', t', -, heq, -, hget⟩
      · rw [heq] at hidx
        rcases FixedFdTable.insert_spec hundone.1 with ⟨-, hins⟩ | ⟨idx'', rest, t', -, hins, -, hget⟩
        · rw [hins] at hidx
          exact hheld fd' idx hidx
        · rw [hins, hget, if_pos rfl] at hnone
          cases hnone
      · rw [heq, hget] at hidx
        split at hidx
        · cases hidx
        · rename_i hne
          rcases FixedFdTable.insert_spec hundone.1 with ⟨-, hins⟩ | ⟨idx'', rest, t'', -, hins, -, hget'⟩
          · rw [hins] at hidx
            exact hheld fd' idx hidx
          · rw [hins, hget', if_neg hne] at hidx
            exact hheld fd' idx hidx
    · rename_i hkept
      refine of_table hring hapart.insert fun fd' idx hidx => ?_
      -- nothing was inserted: the descriptor had an entry, or the table is full
      have hsame : (table.insert fd).1 = table := by
        cases hget : table.getIndex fd with
        | some idx' => rw [FixedFdTable.insert_of_getIndex hget]
        | none =>
          rcases hslot with hslot | hslot
          · rw [hupd, if_pos hget] at hslot
            rcases FixedFdTable.insert_spec hget with ⟨-, hins⟩ | ⟨idx', rest, t', -, hins, -, -⟩
            · rw [hins]
            · rw [hins] at hslot
              cases hslot
          · exact absurd ⟨hget, hslot⟩ hkept
      rw [hsame] at hidx
      exact hheld fd' idx hidx

/-- Registering with an update: the new entry's slot was nobody's. -/
theorem of_registerFile_update (h : Filed ring slots filed) {init : Option String} {fd : Fd}
    {idx : UInt32} (hslot : updatedSlot init fd ring = some idx) (file : Option File) :
    Filed (ring.registerFile init none fd).1 (Function.update slots idx file)
      (Function.update filed fd file) := by
  rcases registerFile_cases init none fd ring with ⟨-, hnone⟩ | ⟨table, hstart, hupd, hring⟩
  · rw [hnone] at hslot
    cases hslot
  · rcases h.of_start hstart with ⟨hapart, hheld⟩
    rw [hupd] at hslot
    split at hslot
    · rename_i hget
      rw [if_neg (by simp)] at hring
      refine of_table hring hapart.insert fun fd' idx' hidx => ?_
      rcases FixedFdTable.insert_spec hget with ⟨-, hins⟩ | ⟨idx'', rest, t', hfree, hins, -, hget'⟩
      · rw [hins] at hslot
        cases hslot
      · rw [hins] at hslot hidx
        cases hslot
        rw [hget'] at hidx
        split at hidx
        · rename_i hfd
          cases hidx
          rw [hfd, Function.update_self, Function.update_self]
        · rename_i hne
          have hunused := hapart.used fd' idx' hidx
          rw [hfree, List.mem_cons, not_or] at hunused
          rw [Function.update_of_ne hunused.1, Function.update_of_ne hne]
          exact hheld fd' idx' hidx
    · cases hslot

/-- Unregistering drops one entry, and no other descriptor has its slot. -/
theorem of_unregisterFile (h : Filed ring slots filed) (update : Option String) (fd : Fd)
    {slots' : UInt32 → Option File}
    (hslots : ∀ idx, ring.lookupFixed fd ≠ some idx → slots' idx = slots idx) :
    Filed (ring.unregisterFile update fd).1 slots' filed := by
  unfold Ring.unregisterFile
  split
  · rename_i hnone
    refine ⟨fun table htable => ?_, fun fd' idx hidx => ?_⟩
    · rw [hnone] at htable
      cases htable
    · rw [Ring.lookupFixed, hnone] at hidx
      cases hidx
  · rename_i table htable
    have hapart := h.apart table htable
    have hlookup (fd' : Fd) : ring.lookupFixed fd' = table.getIndex fd' := by
      rw [Ring.lookupFixed, htable]
      rfl
    rcases FixedFdTable.remove_spec fd table with ⟨hnone, heq⟩ | ⟨idx, t', hidx, heq, -, hget⟩
    · rw [heq]
      refine of_table rfl hapart fun fd' idx hidx => ?_
      rw [hslots idx (by rw [hlookup, hnone]; exact nofun)]
      exact h.held fd' idx (by rw [hlookup]; exact hidx)
    · have hheld' : ∀ fd' idx', t'.getIndex fd' = some idx' → slots' idx' = filed fd' := by
        intro fd' idx' hidx'
        rw [hget] at hidx'
        split at hidx'
        · cases hidx'
        · rename_i hne
          have hother : ring.lookupFixed fd ≠ some idx' := by
            rw [hlookup]
            exact fun hsame => hne (hapart.injective fd' fd idx' hidx' hsame)
          rw [hslots idx' hother]
          exact h.held fd' idx' (by rw [hlookup]; exact hidx')
      have hapart' : t'.Apart := by
        have hremove : (table.remove fd).1.Apart := hapart.remove
        rwa [heq] at hremove
      rw [heq]
      cases update with
      | none => exact of_table rfl hapart' hheld'
      | some e => exact of_table rfl hapart' hheld'

end Filed

section
variable [LE T] [DecidableLE T]

omit [LE T] [DecidableLE T] in
theorem unregisterFd_ring (fd : Fd) (s : UringCore F H T) : (s.unregisterFd fd).ring = s.ring := by
  have hfold (bufs : List BufferRef) (core : UringCore F H T) :
      (bufs.foldl (fun core buf => core.releaseBuffer buf.index) core).ring = core.ring := by
    induction bufs generalizing core with
    | nil => rfl
    | cons buf bufs ih => exact ih _
  unfold UringCore.unregisterFd
  split <;> exact hfold _ _

/-- Only `register_file` and `unregister_file` change the ring's table. -/
theorem step_registeredFds {s t : UringCore F H T} {a : UringCore.Act F H T}
    (hregister : ∀ init update fd, a ≠ .registerFile init update fd)
    (hunregister : ∀ update fd, a ≠ .unregisterFile update fd)
    (hstep : UringCore.machine.step s a = some t) :
    t.ring.registeredFds = s.ring.registeredFds := by
  have hsubmit (enter : Except String Nat) (ring : Ring) :
      (ring.submit enter).1.registeredFds = ring.registeredFds := by
    rcases ring.submit_cases enter with h | ⟨n, h⟩ <;> rw [h]
    rfl
  cases a with
  | registerFile init update fd => exact absurd rfl (hregister init update fd)
  | unregisterFile update fd => exact absurd rfl (hunregister update fd)
  | registerFd fd socketType =>
    cases hstep
    rfl
  | unregisterFd fd =>
    cases hstep
    rw [unregisterFd_ring]
  | pauseReading fd =>
    cases hstep
    show (s.withFdStates _).1.ring.registeredFds = _
    unfold UringCore.withFdStates
    split <;> rfl
  | resumeReading fd =>
    cases hstep
    show (s.withFdStates _).1.ring.registeredFds = _
    unfold UringCore.withFdStates
    split <;> rfl
  | request now enter fd req =>
    cases hstep
    exact (UringCore.request_frame now req).registeredFds
  | submit enter =>
    cases hstep
    exact hsubmit enter s.ring
  | runTick clock enter pushed =>
    cases hstep
    rcases UringCore.runTick_core UringCore.scripted clock enter pushed s with ⟨-, h⟩ | ⟨-, h⟩
    · rw [h]
      exact hsubmit enter s.ring
    · rw [h, (UringCore.processAll_frame _ _).1]
      exact hsubmit enter s.ring
  | consume n =>
    cases hstep
    rfl
  | complete i payload select more =>
    simp only [UringCore.machine, UringCore.step, UringCore.complete] at hstep
    grind

theorem Filed.step {s t : FileCore F H T File} {filed : Fd → Option File}
    {a : FileAct F H T File} (h : Filed s.core.ring s.slots filed) (hstep : s.step a = some t) :
    Filed t.core.ring t.slots (filedUpd s a t filed) := by
  cases a with
  | openFile fd file =>
    simp only [FileCore.step, Option.ite_none_right_eq_some] at hstep
    rcases hstep with ⟨-, heq⟩
    cases heq
    exact h
  | closeFile fd =>
    simp only [FileCore.step, Option.map_eq_some_iff] at hstep
    rcases hstep with ⟨file, -, rfl⟩
    exact h
  | core a =>
    simp only [FileCore.step, Option.bind_eq_some_iff] at hstep
    rcases hstep with ⟨core, hcore, hstep⟩
    have hother (hregister : ∀ init update fd, a ≠ .registerFile init update fd)
        (hunregister : ∀ update fd, a ≠ .unregisterFile update fd) :
        Filed core.ring s.slots filed :=
      h.of_same (step_registeredFds hregister hunregister hcore)
    cases a with
    | registerFile init update fd =>
      cases update with
      | none =>
        simp only at hstep
        cases hslot : updatedSlot init fd s.core.ring with
        | none =>
          rw [hslot] at hstep
          cases hstep
          cases hcore
          simp only [filedUpd, hslot]
          exact h.of_registerFile_same (.inl hslot)
        | some idx =>
          rw [hslot] at hstep
          simp only [Option.map_eq_some_iff] at hstep
          rcases hstep with ⟨file, hfile, rfl⟩
          cases hcore
          simp only [filedUpd, hslot, hfile]
          exact h.of_registerFile_update hslot file
      | some e =>
        cases hstep
        cases hcore
        exact h.of_registerFile_same (.inr rfl)
    | unregisterFile update fd =>
      cases update with
      | none =>
        simp only at hstep
        cases hidx : s.core.ring.lookupFixed fd with
        | none =>
          rw [hidx] at hstep
          cases hstep
          cases hcore
          exact h.of_unregisterFile none fd fun _ _ => rfl
        | some idx =>
          rw [hidx] at hstep
          cases hstep
          cases hcore
          refine h.of_unregisterFile none fd fun idx' hne => ?_
          rw [hidx] at hne
          exact Function.update_of_ne (fun heq => hne (by rw [heq])) _ _
      | some e =>
        cases hstep
        cases hcore
        exact h.of_unregisterFile (some e) fd fun _ _ => rfl
    | complete i payload select more =>
      simp only at hstep
      have hcore := hother (by simp) (by simp)
      split at hstep
      · cases hstep
        exact hcore
      · simp only [Option.map_eq_some_iff] at hstep
        rcases hstep with ⟨file, -, rfl⟩
        exact hcore
    | _ =>
      cases hstep
      exact hother (by simp) (by simp)

/-- **Fixed files.** In every run, an operation that a request encodes for a fixed index reaches the
file its descriptor names at that moment if and only if that is the file the descriptor named when
`register_file` made its entry. -/
theorem fixed_target_iff {setup : Setup} {bufferSize bufferCount : Nat} {core : UringCore F H T}
    {files : Fd → Option File} {acts : List (FileAct F H T File)} {t : FileCore F H T File}
    {filed : Fd → Option File} (hnew : UringCore.new setup bufferSize bufferCount = .ok core)
    (hrun : machine.run (⟨core, files, fun _ => none⟩, fun _ => none) acts = some (t, filed))
    {now : Nat} {enter : Except String Nat} {fd : Fd} {req : Request F} {e : Sqe} {idx : UInt32}
    (hissued : e ∈ (t.core.request now enter fd req).1.ring.inFlight)
    (hfresh : e ∉ t.core.ring.inFlight) (hfixed : e.target = .fixed idx) :
    t.slots idx = t.files e.fd ↔ t.files e.fd = filed e.fd := by
  have hfiled : Filed t.core.ring t.slots filed := by
    refine Machine.run_invariant' (I := fun x : FileCore F H T File × (Fd → Option File) =>
      Filed x.1.core.ring x.1.slots x.2) ?_ ?_ hrun
    · rintro ⟨s, filed⟩ a ⟨u, filed'⟩ hs hstep
      rcases Machine.ghost_step_mk.mp hstep with ⟨hcore, rfl⟩
      exact Filed.step hs hcore
    · rcases UringCore.new_spec hnew with ⟨entries, pool, -, rfl⟩
      exact ⟨by simp [Ring.new], by simp [Ring.new, Ring.lookupFixed]⟩
  rcases (UringCore.request_frame now req).entries e hissued with hold | ⟨rfl, htarget⟩
  · exact absurd hold hfresh
  · rw [hfixed] at htarget
    have hidx : t.core.ring.lookupFixed e.fd = some idx := by
      rcases htarget with htarget | htarget
      · unfold Ring.target at htarget
        split at htarget
        · rename_i hsome
          cases htarget
          exact hsome
        · cases htarget
      · cases htarget
    rw [hfiled.held e.fd idx hidx]
    exact eq_comm

end

/-- Descriptor 5 is registered; with `reused`, it is closed and given to another file. -/
def registeredRun (reused : Bool) : List (FileAct Nat Unit Nat String) :=
  [.openFile 5 "old", .core (.registerFile none none 5)] ++
    if reused then [.closeFile 5, .openFile 5 "new"] else []

/-- An accept on the registered descriptor. -/
def fixedAccept : Sqe := ⟨5, .accept, 1, .fixed 0, 0⟩

set_option maxRecDepth 20000 in
/-- As long as it is the same file, the operation reaches it. -/
theorem fixed_target_registered :
    ∃ (core : UringCore Nat Unit Nat) (t : FileCore Nat Unit Nat String) (filed : Fd → Option String),
      UringCore.new Setup.plain 16 2 = .ok core ∧
      machine.run (⟨core, fun _ => none, fun _ => none⟩, fun _ => none) (registeredRun false) =
        some (t, filed) ∧
      fixedAccept ∈ (t.core.request 0 (.ok 1) 5 (.accept 7)).1.ring.inFlight ∧
      t.slots 0 = t.files 5 :=
  ⟨_, _, _, rfl, rfl, List.mem_singleton.mpr rfl,
    (fixed_target_iff (show UringCore.new Setup.plain 16 2 = .ok _ from rfl)
      (show machine.run (⟨_, fun _ => none, fun _ => none⟩, fun _ => none) (registeredRun false) =
        some (_, _) from rfl)
      (show fixedAccept ∈ (UringCore.request 0 (.ok 1) 5 (.accept 7) _).1.ring.inFlight from
        List.mem_singleton.mpr rfl) (List.not_mem_nil) rfl).mpr rfl⟩

set_option maxRecDepth 20000 in
/-- After the reuse of its number, the operation goes to the file of the earlier owner. -/
theorem not_fixed_target_reused :
    ∃ (core : UringCore Nat Unit Nat) (t : FileCore Nat Unit Nat String) (filed : Fd → Option String),
      UringCore.new Setup.plain 16 2 = .ok core ∧
      machine.run (⟨core, fun _ => none, fun _ => none⟩, fun _ => none) (registeredRun true) =
        some (t, filed) ∧
      fixedAccept ∈ (t.core.request 0 (.ok 1) 5 (.accept 7)).1.ring.inFlight ∧
      t.slots 0 = some "old" ∧ t.files 5 = some "new" :=
  ⟨_, _, _, rfl, rfl, List.mem_singleton.mpr rfl, rfl, rfl⟩

end FileCore

end Uringcore
