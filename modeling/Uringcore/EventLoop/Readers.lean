import Uringcore.Lib.AssocList
import Uringcore.Lib.Machine
import Uringcore.State

/-!
# Reader and writer callbacks

`add_reader` and `add_writer` keep a callback for a descriptor; `_run_once` turns the events of one
poll into handles, and the tick that follows executes them one after another. The handles are plain
`asyncio.Handle`s that nobody remembers: removing a callback takes it out of the dictionary and out
of the poll set, but a handle made for it in the same poll stays in the queue and runs.

`removed_never_invoked` says when that is harmless: if a callback is only removed while no handle of
it is queued, it is never invoked again. Otherwise the loop, left to itself, invokes it
(`quiet_iff`).
-/

namespace Uringcore

/-- The two dictionaries, `_readers` and `_writers`. -/
inductive Side where
  | reader | writer
  deriving DecidableEq, Repr

def Side.other : Side → Side
  | reader => writer
  | writer => reader

/-- `EPOLLIN` and `EPOLLOUT`. -/
structure EpollMask where
  epollIn : Bool
  epollOut : Bool
  deriving DecidableEq, Repr

/-- The mask of a descriptor by the dictionaries it is in. -/
def EpollMask.of (sides : Side → Bool) : EpollMask := ⟨sides .reader, sides .writer⟩

/-- One reported event. -/
structure EpollEvent where
  fd : Fd
  epollIn : Bool
  epollOut : Bool
  epollErr : Bool
  epollHup : Bool
  deriving DecidableEq, Repr

/-- Whether an event is for a side: errors and hang-ups count as readable. -/
def EpollEvent.isFor (e : EpollEvent) : Side → Bool
  | .reader => e.epollIn || e.epollHup || e.epollErr
  | .writer => e.epollOut

/-- What `epoll_ctl` raises: the descriptor is not in the set, or it cannot be. -/
inductive EpollError where
  | fileNotFound | osError
  deriving DecidableEq, Repr

/-- A queued handle: for a callback, or any other. -/
inductive IoHandle (C K : Type) where
  | io (side : Side) (fd : Fd) (callback : C)
  | other (k : K)
  deriving DecidableEq, Repr

/-- The loop as far as descriptor callbacks go. -/
structure ReaderLoop (C K : Type) where
  /-- `_readers` and `_writers`. -/
  callbacks : Side → FdMap C
  /-- The core's `readers` and `writers`. -/
  coreCallbacks : Side → FdMap C
  epoll : FdMap EpollMask
  ready : List (IoHandle C K)
  /-- What is left of the batch the current tick executes. -/
  batch : List (IoHandle C K)

namespace ReaderLoop
variable {C K : Type}

def init : ReaderLoop C K := ⟨fun _ => ∅, fun _ => ∅, ∅, [], []⟩

/-- `fd in self._readers`, `fd in self._writers`. -/
def has (side : Side) (fd : Fd) (s : ReaderLoop C K) : Bool := ((s.callbacks side).lookup fd).isSome

/-- `epoll.modify`, its errors swallowed. -/
def modify (fd : Fd) (mask : EpollMask) (s : ReaderLoop C K) : ReaderLoop C K :=
  match s.epoll.lookup fd with
  | some _ => { s with epoll := s.epoll.insert fd mask }
  | none => s

/-- `_remove_reader_no_check`, `_remove_writer_no_check`. -/
def remove (side : Side) (fd : Fd) (s : ReaderLoop C K) : ReaderLoop C K × Bool :=
  if !s.has side fd then (s, false)
  else
    let s := { s with
      callbacks := Function.update s.callbacks side ((s.callbacks side).erase fd)
      coreCallbacks := Function.update s.coreCallbacks side ((s.coreCallbacks side).erase fd) }
    if s.has side.other fd then (s.modify fd (.of (· = side.other)), true)
    else ({ s with epoll := s.epoll.erase fd }, true)

/-- `add_reader`, `add_writer`. `refused` says that the kernel does not let the descriptor into the
poll set, for a reason other than that it is already there. The descriptor is registered, or
modified when it is known or turns out to be there already. -/
def add (side : Side) (refused : Bool) (fd : Fd) (callback : C) (s : ReaderLoop C K) :
    ReaderLoop C K × Except EpollError Unit :=
  let s := (s.remove side fd).1
  let known := s.has side.other fd
  if refused then (s, .error .osError)
  else if known && (s.epoll.lookup fd).isNone then (s, .error .fileNotFound)
  else
    ({ s with
      epoll := s.epoll.insert fd (.of fun x => x = side || known)
      callbacks := Function.update s.callbacks side ((s.callbacks side).insert fd callback)
      coreCallbacks :=
        Function.update s.coreCallbacks side ((s.coreCallbacks side).insert fd callback) }, .ok ())

def addReader (refused : Bool) (fd : Fd) (callback : C) (s : ReaderLoop C K) :=
  s.add .reader refused fd callback

def addWriter (refused : Bool) (fd : Fd) (callback : C) (s : ReaderLoop C K) :=
  s.add .writer refused fd callback

def removeReader (fd : Fd) (s : ReaderLoop C K) := s.remove .reader fd

def removeWriter (fd : Fd) (s : ReaderLoop C K) := s.remove .writer fd

/-! ## One iteration -/

/-- The handles one event adds, the reader's first. -/
def queueEvent (e : EpollEvent) (s : ReaderLoop C K) : ReaderLoop C K :=
  let handles (side : Side) : List (IoHandle C K) :=
    if e.isFor side then (((s.callbacks side).lookup e.fd).map (.io side e.fd)).toList else []
  { s with ready := s.ready ++ handles .reader ++ handles .writer }

/-- Can `epoll_wait` report this? Reading and writing only if asked for. -/
def reports (s : ReaderLoop C K) (e : EpollEvent) : Bool :=
  match s.epoll.lookup e.fd with
  | none => false
  | some mask => (e.epollIn → mask.epollIn) && (e.epollOut → mask.epollOut)

/-- `_run_once` up to the first handle of its tick: with tasks ready the poll is skipped; `pushed`
are the handles of expired timers and resolved futures. -/
def startTick (events : List EpollEvent) (pushed : List K) (s : ReaderLoop C K) :
    ReaderLoop C K :=
  let s := if s.ready = [] then events.foldl (fun s e => s.queueEvent e) s else s
  { s with ready := [], batch := s.ready ++ pushed.map .other }

inductive Act (C K : Type) where
  | add (side : Side) (refused : Bool) (fd : Fd) (callback : C)
  | remove (side : Side) (fd : Fd)
  /-- `call_soon`. -/
  | callSoon (k : K)
  /-- The program closes a descriptor, which leaves the poll set. -/
  | closeFd (fd : Fd)
  | startTick (events : List EpollEvent) (pushed : List K)
  /-- The next handle of the batch is executed. -/
  | runHandle

/-- A tick starts when the batch of the one before is done. -/
def step (s : ReaderLoop C K) : Act C K → Option (ReaderLoop C K)
  | .add side refused fd callback => some (s.add side refused fd callback).1
  | .remove side fd => some (s.remove side fd).1
  | .callSoon k => some { s with ready := s.ready ++ [.other k] }
  | .closeFd fd => some { s with epoll := s.epoll.erase fd }
  | .startTick events pushed =>
      if s.batch.isEmpty && events.all s.reports then some (s.startTick events pushed) else none
  | .runHandle => match s.batch with
      | [] => none
      | _ :: rest => some { s with batch := rest }

/-- The callbacks that were removed and not replaced since, by what removed them. -/
abbrev Removed (C : Type) := Side → FdMap C

def removedUpd (s : ReaderLoop C K) (a : Act C K) (_ : ReaderLoop C K) (removed : Removed C) :
    Removed C :=
  match a with
  | .remove side fd => match (s.callbacks side).lookup fd with
      | some callback => Function.update removed side ((removed side).insert fd callback)
      | none => removed
  | .add side refused fd callback => match (s.add side refused fd callback).2 with
      | .ok () => Function.update removed side ((removed side).erase fd)
      | .error _ => removed
  | _ => removed

def machine : Machine (ReaderLoop C K × Removed C) (Act C K) := (Machine.mk step).ghost removedUpd

/-! ## What the calls do -/

@[simp] theorem modify_callbacks (fd : Fd) (mask : EpollMask) (s : ReaderLoop C K) :
    (s.modify fd mask).callbacks = s.callbacks ∧ (s.modify fd mask).ready = s.ready ∧
      (s.modify fd mask).batch = s.batch := by
  unfold modify
  split <;> exact ⟨rfl, rfl, rfl⟩

/-- Removing touches one dictionary and no handle. -/
theorem remove_spec (side : Side) (fd : Fd) (s : ReaderLoop C K) :
    (s.remove side fd).1.callbacks =
        Function.update s.callbacks side ((s.callbacks side).erase fd) ∧
      (s.remove side fd).1.ready = s.ready ∧ (s.remove side fd).1.batch = s.batch := by
  unfold remove
  by_cases hhas : s.has side fd
  · simp only [hhas, Bool.not_true, Bool.false_eq_true, if_false]
    split
    · simp
    · exact ⟨rfl, rfl, rfl⟩
  · have hnone : (s.callbacks side).lookup fd = none := by simpa [has] using hhas
    simp [hhas, AList.erase_of_lookup_eq_none hnone]

/-- Adding puts the new callback in the place of an old one, or only removes the old one. -/
theorem add_spec (side : Side) (refused : Bool) (fd : Fd) (callback : C) (s : ReaderLoop C K) :
    (s.add side refused fd callback).1.ready = s.ready ∧
    (s.add side refused fd callback).1.batch = s.batch ∧
    ((s.add side refused fd callback).2 = .ok () ∧ (s.add side refused fd callback).1.callbacks =
        Function.update s.callbacks side (((s.callbacks side).erase fd).insert fd callback) ∨
      (∃ e, (s.add side refused fd callback).2 = .error e) ∧
        (s.add side refused fd callback).1.callbacks =
          Function.update s.callbacks side ((s.callbacks side).erase fd)) := by
  rcases remove_spec side fd s with ⟨hcallbacks, hready, hbatch⟩
  unfold add
  simp only
  split
  · exact ⟨hready, hbatch, .inr ⟨⟨_, rfl⟩, hcallbacks⟩⟩
  · split
    · exact ⟨hready, hbatch, .inr ⟨⟨_, rfl⟩, hcallbacks⟩⟩
    · refine ⟨hready, hbatch, .inl ⟨rfl, ?_⟩⟩
      rw [hcallbacks, Function.update_self, Function.update_idem]

/-- A poll only queues handles of callbacks there are. -/
theorem mem_queueEvents {events : List EpollEvent} {s : ReaderLoop C K} {h : IoHandle C K}
    (hmem : h ∈ (events.foldl (fun s e => s.queueEvent e) s).ready) :
    h ∈ s.ready ∨ ∃ side fd callback, (s.callbacks side).lookup fd = some callback ∧
      h = .io side fd callback := by
  induction events generalizing s with
  | nil => exact .inl hmem
  | cons e events ih =>
    rcases ih hmem with hready | hcallback
    · simp only [queueEvent, List.mem_append] at hready
      rcases hready with (hready | hreader) | hwriter
      · exact .inl hready
      · split at hreader
        · simp only [Option.mem_toList, Option.map_eq_some_iff] at hreader
          rcases hreader with ⟨callback, hlookup, rfl⟩
          exact .inr ⟨_, _, _, hlookup, rfl⟩
        · cases hreader
      · split at hwriter
        · simp only [Option.mem_toList, Option.map_eq_some_iff] at hwriter
          rcases hwriter with ⟨callback, hlookup, rfl⟩
          exact .inr ⟨_, _, _, hlookup, rfl⟩
        · cases hwriter
    · exact .inr hcallback

theorem queueEvents_callbacks (events : List EpollEvent) (s : ReaderLoop C K) :
    (events.foldl (fun s e => s.queueEvent e) s).callbacks = s.callbacks := by
  induction events generalizing s with
  | nil => rfl
  | cons e events ih => exact ih (s.queueEvent e)

/-! ## Removed callbacks -/

section
variable [DecidableEq C]

/-- A handle for a callback that was removed and not replaced. -/
def isRemoved (removed : Removed C) : IoHandle C K → Bool
  | .io side fd callback => (removed side).lookup fd = some callback
  | .other _ => false

/-- No removed callback is queued. -/
def NoneQueued (x : ReaderLoop C K × Removed C) : Prop :=
  ∀ h ∈ x.1.ready ++ x.1.batch, isRemoved x.2 h = false

/-- The handle executed next is not that of a removed callback. -/
def InvokesNoRemoved (x : ReaderLoop C K × Removed C) : Act C K → Prop
  | .runHandle => ∀ h ∈ x.1.batch.head?, isRemoved x.2 h = false
  | _ => True

/-- The steps the loop makes by itself, when nothing is reported and nothing is called. -/
def isLoop : Act C K → Bool
  | .runHandle => true
  | .startTick events pushed => events.isEmpty && pushed.isEmpty
  | _ => false

/-- Left to itself the loop invokes no removed callback. -/
def Quiet (x : ReaderLoop C K × Removed C) : Prop :=
  ∀ further : List (Act C K), further.all isLoop → machine.Meets InvokesNoRemoved x further

/-- A callback is only removed while no handle of it is queued. -/
def RemovesUnqueued (x : ReaderLoop C K × Removed C) : Act C K → Prop
  | .remove side fd => ∀ callback ∈ (x.1.callbacks side).lookup fd,
      .io side fd callback ∉ x.1.ready ++ x.1.batch
  | _ => True

instance [DecidableEq K] (x : ReaderLoop C K × Removed C) :
    ∀ a : Act C K, Decidable (RemovesUnqueued x a)
  | .remove _ _ => Option.decidableForallMem _
  | .add .. | .callSoon _ | .closeFd _ | .startTick .. | .runHandle => isTrue trivial

/-- A descriptor with a callback has none removed. -/
def Fresh (x : ReaderLoop C K × Removed C) : Prop :=
  ∀ side fd, ((x.1.callbacks side).lookup fd).isSome → (x.2 side).lookup fd = none

theorem isRemoved_io {removed : Removed C} {side : Side} {fd : Fd} {callback : C} :
    isRemoved removed (.io side fd callback : IoHandle C K) = true ↔
      (removed side).lookup fd = some callback := by
  simp [isRemoved]

/-- The same handles, and fewer removed callbacks. -/
theorem NoneQueued.mono {s t : ReaderLoop C K} {removed removed' : Removed C}
    (h : NoneQueued (s, removed)) (hmem : ∀ x ∈ t.ready ++ t.batch, x ∈ s.ready ++ s.batch)
    (hsub : ∀ side fd callback, (removed' side).lookup fd = some callback →
      (removed side).lookup fd = some callback) : NoneQueued (t, removed') := by
  intro x hx
  have hbefore := h x (hmem x hx)
  cases x with
  | other k => rfl
  | io side fd callback =>
    rw [← Bool.not_eq_true, isRemoved_io] at hbefore ⊢
    exact fun hafter => hbefore (hsub side fd callback hafter)

/-- What a dictionary holds after one of its entries was taken out or replaced. -/
theorem lookup_update_side {V : Type} {m : Side → FdMap V} {side : Side} {m' : FdMap V} {fd : Fd}
    (hother : ∀ fd' ≠ fd, m'.lookup fd' = (m side).lookup fd') (side' : Side) (fd' : Fd) :
    (Function.update m side m' side').lookup fd' =
      if side' = side ∧ fd' = fd then m'.lookup fd else (m side').lookup fd' := by
  by_cases hside : side' = side
  · subst hside
    rw [Function.update_self]
    by_cases hfd : fd' = fd
    · rw [hfd, if_pos ⟨rfl, rfl⟩]
    · rw [if_neg fun h => hfd h.2, hother fd' hfd]
  · rw [Function.update_of_ne hside, if_neg fun h => hside h.1]

/-- A dictionary without one of its entries. -/
theorem lookup_erase_side {V : Type} (m : Side → FdMap V) (side : Side) (fd : Fd) (side' : Side) (fd' : Fd) :
    (Function.update m side ((m side).erase fd) side').lookup fd' =
      if side' = side ∧ fd' = fd then none else (m side').lookup fd' := by
  rw [lookup_update_side fun _ hne => AList.lookup_erase_ne hne, AList.lookup_erase]

section
variable {s : ReaderLoop C K} {removed : Removed C}

theorem noneQueued_add (hfresh : Fresh (s, removed)) (hnone : NoneQueued (s, removed)) (side : Side)
    (refused : Bool) (fd : Fd) (callback : C) {t : ReaderLoop C K}
    (ht : t = (s.add side refused fd callback).1) :
    Fresh (t, removedUpd s (.add side refused fd callback) t removed) ∧
      NoneQueued (t, removedUpd s (.add side refused fd callback) t removed) := by
  subst ht
  rcases add_spec side refused fd callback s with ⟨hready, hbatch, ⟨hok, hcb⟩ | ⟨⟨e, he⟩, hcb⟩⟩
  · -- what was removed there is replaced
    simp only [removedUpd, hok]
    constructor
    · intro side' fd' hsome
      show (Function.update removed side ((removed side).erase fd) side').lookup fd' = none
      rw [lookup_erase_side]
      split
      · rfl
      · rename_i hne
        have hcb' : ((s.add side refused fd callback).1.callbacks side').lookup fd' =
            (s.callbacks side').lookup fd' := by
          rw [hcb, lookup_update_side, if_neg hne]
          intro fd'' hfd
          rw [AList.lookup_insert_ne hfd, AList.lookup_erase_ne hfd]
        exact hfresh side' fd' (by rw [← hcb']; exact hsome)
    · refine hnone.mono (by rw [hready, hbatch]; exact fun _ hx => hx) ?_
      intro side' fd' callback' hlookup
      rw [lookup_erase_side] at hlookup
      split at hlookup
      · cases hlookup
      · exact hlookup
  · -- the old callback is gone, but nobody has asked to remove it
    simp only [removedUpd, he]
    refine ⟨fun side' fd' hsome => hfresh side' fd' ?_, ?_⟩
    · have hsome : (((s.add side refused fd callback).1.callbacks side').lookup fd').isSome := hsome
      rw [hcb, lookup_erase_side] at hsome
      split at hsome
      · cases hsome
      · exact hsome
    · exact hnone.mono (by rw [hready, hbatch]; exact fun _ hx => hx) fun _ _ _ h => h

/-- Removing a callback takes no handle of it out of the queue. -/
theorem noneQueued_remove_iff (hfresh : Fresh (s, removed)) (hnone : NoneQueued (s, removed)) (side : Side)
    (fd : Fd) {t : ReaderLoop C K} (ht : t = (s.remove side fd).1) :
    Fresh (t, removedUpd s (.remove side fd) t removed) ∧
      (NoneQueued (t, removedUpd s (.remove side fd) t removed) ↔
        RemovesUnqueued (s, removed) (.remove side fd : Act C K)) := by
  subst ht
  rcases remove_spec side fd s with ⟨hcb, hready, hbatch⟩
  have hknown (side' : Side) (fd' : Fd)
      (hsome : (((s.remove side fd).1.callbacks side').lookup fd').isSome) :
      ((s.callbacks side').lookup fd').isSome ∧ ¬ (side' = side ∧ fd' = fd) := by
    rw [hcb, lookup_erase_side] at hsome
    split at hsome
    · cases hsome
    · rename_i hne
      exact ⟨hsome, hne⟩
  cases hlookup : (s.callbacks side).lookup fd with
  | none =>
    simp only [removedUpd, hlookup]
    refine ⟨fun side' fd' hsome => hfresh side' fd' (hknown side' fd' hsome).1, iff_of_true ?_ ?_⟩
    · exact hnone.mono (by rw [hready, hbatch]; exact fun _ hx => hx) fun _ _ _ h => h
    · intro callback hcallback
      rw [hlookup] at hcallback
      cases hcallback
  | some callback =>
    simp only [removedUpd, hlookup]
    have hremoved (side' : Side) (fd' : Fd) : (Function.update removed side
        ((removed side).insert fd callback) side').lookup fd' =
          if side' = side ∧ fd' = fd then some callback else (removed side').lookup fd' := by
      rw [lookup_update_side fun _ hne => AList.lookup_insert_ne hne, AList.lookup_insert]
    refine ⟨fun side' fd' hsome => ?_, ?_, ?_⟩
    · show (Function.update removed side _ side').lookup fd' = none
      rw [hremoved, if_neg (hknown side' fd' hsome).2]
      exact hfresh side' fd' (hknown side' fd' hsome).1
    · intro h callback' hcallback hmem
      rw [hlookup] at hcallback
      cases hcallback
      have hafter := h (.io side fd callback) (by rw [hready, hbatch]; exact hmem)
      rw [← Bool.not_eq_true, isRemoved_io, hremoved, if_pos ⟨rfl, rfl⟩] at hafter
      exact hafter rfl
    · intro h x hx
      rw [hready, hbatch] at hx
      cases x with
      | other k => rfl
      | io side' fd' callback' =>
        rw [← Bool.not_eq_true, isRemoved_io, hremoved]
        split
        · rename_i heq
          rcases heq with ⟨rfl, rfl⟩
          intro heq
          cases heq
          exact h callback hlookup hx
        · have hbefore := hnone _ hx
          rwa [← Bool.not_eq_true, isRemoved_io] at hbefore

theorem noneQueued_startTick (hfresh : Fresh (s, removed)) (hnone : NoneQueued (s, removed))
    (events : List EpollEvent) (pushed : List K) :
    Fresh (s.startTick events pushed, removed) ∧ NoneQueued (s.startTick events pushed, removed) := by
  constructor
  · intro side fd hsome
    have hsome : (((s.startTick events pushed).callbacks side).lookup fd).isSome := hsome
    apply hfresh side fd
    unfold startTick at hsome
    split at hsome
    · rwa [queueEvents_callbacks] at hsome
    · exact hsome
  · intro x hx
    simp only [startTick, List.nil_append] at hx
    rcases List.mem_append.mp hx with hx | hx
    · split at hx
      · -- a callback in a dictionary is not a removed one
        rcases mem_queueEvents hx with hx | ⟨side, fd, callback, hlookup, rfl⟩
        · exact hnone x (List.mem_append_left _ hx)
        · have hfree : (removed side).lookup fd = none := hfresh side fd (by rw [hlookup]; rfl)
          rw [← Bool.not_eq_true, isRemoved_io, hfree]
          rintro ⟨⟩
      · exact hnone x (List.mem_append_left _ hx)
    · rcases List.mem_map.mp hx with ⟨k, -, rfl⟩
      rfl

end

/-- One step keeps removed callbacks out of the queue exactly if it removes none that is in it. -/
theorem noneQueued_step_iff {x y : ReaderLoop C K × Removed C} {a : Act C K} (hfresh : Fresh x)
    (hnone : NoneQueued x) (hstep : machine.step x a = some y) :
    Fresh y ∧ (NoneQueued y ↔ RemovesUnqueued x a) := by
  rcases x with ⟨s, removed⟩
  rcases y with ⟨t, removed'⟩
  rcases Machine.ghost_step_mk.mp hstep with ⟨hloop, rfl⟩
  have hstep : s.step a = some t := hloop
  cases a with
  | add side refused fd callback =>
    cases hstep
    rcases noneQueued_add hfresh hnone side refused fd callback rfl with ⟨hfresh', hnone'⟩
    exact ⟨hfresh', iff_of_true hnone' trivial⟩
  | remove side fd =>
    cases hstep
    exact noneQueued_remove_iff hfresh hnone side fd rfl
  | callSoon k =>
    cases hstep
    refine ⟨hfresh, iff_of_true (fun x hx => ?_) trivial⟩
    simp only [List.append_assoc, List.mem_append, List.mem_singleton] at hx
    rcases hx with hx | rfl | hx
    · exact hnone x (List.mem_append_left _ hx)
    · rfl
    · exact hnone x (List.mem_append_right _ hx)
  | closeFd fd =>
    cases hstep
    exact ⟨hfresh, iff_of_true hnone trivial⟩
  | startTick events pushed =>
    simp only [step, Option.ite_none_right_eq_some] at hstep
    rcases hstep with ⟨-, heq⟩
    cases heq
    rcases noneQueued_startTick hfresh hnone events pushed with ⟨hfresh', hnone'⟩
    exact ⟨hfresh', iff_of_true hnone' trivial⟩
  | runHandle =>
    simp only [step] at hstep
    split at hstep
    · cases hstep
    · rename_i h rest hbatch
      cases hstep
      refine ⟨hfresh, iff_of_true (fun x hx => hnone x ?_) trivial⟩
      rcases List.mem_append.mp hx with hx | hx
      · exact List.mem_append_left _ hx
      · refine List.mem_append_right _ ?_
        rw [hbatch]
        exact List.mem_cons_of_mem _ hx

omit [DecidableEq C] in
/-- Executing the first handles of a batch. -/
theorem run_handles (s : ReaderLoop C K) (removed : Removed C) (pre post : List (IoHandle C K))
    (hbatch : s.batch = pre ++ post) :
    machine.run (s, removed) (List.replicate pre.length .runHandle) =
      some ({ s with batch := post }, removed) := by
  induction pre generalizing s with
  | nil =>
    rw [List.nil_append] at hbatch
    rw [← hbatch]
    rfl
  | cons h pre ih =>
    have hstep : machine.step (s, removed) .runHandle =
        some ({ s with batch := pre ++ post }, removed) := by
      refine Machine.ghost_step_mk.mpr ⟨?_, rfl⟩
      show s.step .runHandle = _
      simp [step, hbatch]
    rw [List.length_cons, List.replicate_succ]
    exact Machine.run_cons_eq_some _ |>.mpr ⟨_, hstep, ih { s with batch := pre ++ post } rfl⟩

/-- A removed callback in the batch is reached. -/
theorem not_quiet_of_batch {s : ReaderLoop C K} {removed : Removed C} {h : IoHandle C K}
    (hmem : h ∈ s.batch) (hremoved : isRemoved removed h = true) :
    ∃ n, ¬ machine.Meets InvokesNoRemoved (s, removed) (List.replicate n .runHandle) := by
  rcases List.append_of_mem hmem with ⟨pre, post, hbatch⟩
  refine ⟨pre.length + 1, fun hmeets => ?_⟩
  rw [List.replicate_succ', Machine.meets_append _ (run_handles s removed pre _ hbatch)] at hmeets
  have hfirst := hmeets.2.1 h rfl
  rw [hremoved] at hfirst
  cases hfirst

/-- **The loop left to itself** invokes no removed callback exactly if none is queued. -/
theorem quiet_iff {x : ReaderLoop C K × Removed C} (hfresh : Fresh x) :
    Quiet x ↔ NoneQueued x := by
  have hloop (n : Nat) : (List.replicate n (.runHandle : Act C K)).all isLoop := by
    simp [isLoop]
  constructor
  · intro hquiet h hmem
    by_contra hremoved
    rw [Bool.not_eq_false] at hremoved
    rcases List.mem_append.mp hmem with hmem | hmem
    · -- first the batch is worked off, then the ready queue is the next one
      have hrun := run_handles x.1 x.2 x.1.batch [] (List.append_nil _).symm
      have hne : x.1.ready ≠ [] := List.ne_nil_of_mem hmem
      let y : ReaderLoop C K := { x.1 with ready := [], batch := x.1.ready }
      have hstart : machine.run ({ x.1 with batch := [] }, x.2) [.startTick [] []] =
          some (y, x.2) := by
        refine Machine.run_cons_eq_some _ |>.mpr ⟨_, Machine.ghost_step_mk.mpr ⟨?_, rfl⟩, rfl⟩
        show ReaderLoop.step ({ x.1 with batch := [] } : ReaderLoop C K) (.startTick [] []) = some y
        simp [step, startTick, hne, y]
      rcases not_quiet_of_batch (s := y) hmem hremoved with ⟨n, hnot⟩
      have hmeets := hquiet (List.replicate x.1.batch.length .runHandle ++
        ([.startTick [] []] ++ List.replicate n .runHandle)) (by simp [isLoop])
      rw [Machine.meets_append _ hrun, Machine.meets_append _ hstart] at hmeets
      exact hnot hmeets.2.2
    · rcases not_quiet_of_batch hmem hremoved with ⟨n, hnot⟩
      exact hnot (hquiet _ (hloop n))
  · intro hnone further hall
    induction further generalizing x with
    | nil => trivial
    | cons a further ih =>
      rw [List.all_cons, Bool.and_eq_true] at hall
      have hkeeps : RemovesUnqueued x a := by
        cases a <;> first | trivial | cases hall.1
      refine ⟨?_, fun y hy => ?_⟩
      · cases a with
        | runHandle =>
          intro h hhead
          refine hnone h (List.mem_append_right _ (List.mem_of_mem_head? hhead))
        | _ => trivial
      · have hy := noneQueued_step_iff hfresh hnone hy
        exact ih hy.1 (hy.2.mpr hkeeps) hall.2

/-- **Removed callbacks.** In every state of a run the loop, left to itself, invokes no removed
callback, if and only if the run only removes callbacks while no handle of theirs is queued. In such
a run no removed callback is ever invoked. -/
theorem removed_never_invoked {acts : List (Act C K)} {t : ReaderLoop C K × Removed C}
    (hrun : machine.run (init, fun _ => ∅) acts = some t) :
    (machine.Always Quiet (init, fun _ => ∅) acts ↔
      machine.Meets RemovesUnqueued (init, fun _ => ∅) acts) ∧
    (machine.Meets RemovesUnqueued (init, fun _ => ∅) acts →
      machine.Meets InvokesNoRemoved (init, fun _ => ∅) acts) := by
  have hfresh : Fresh ((init, fun _ => ∅) : ReaderLoop C K × Removed C) := by
    intro side fd hsome
    exact AList.lookup_empty fd
  have hquiet : Quiet ((init, fun _ => ∅) : ReaderLoop C K × Removed C) :=
    (quiet_iff hfresh).mpr fun h hmem => absurd hmem (by simp [init])
  have hiff : machine.Always Quiet (init, fun _ => ∅) acts ↔
      machine.Meets RemovesUnqueued (init, fun _ => ∅) acts := by
    refine Machine.always_iff_meets (fun x a y hx hq hstep => ?_) hfresh hquiet hrun
    have hy := noneQueued_step_iff hx ((quiet_iff hx).mp hq) hstep
    exact ⟨hy.1, (quiet_iff hy.1).trans hy.2⟩
  refine ⟨hiff, fun hmeets => (hiff.mpr hmeets).meets fun x a hx => ?_⟩
  cases a with
  | runHandle => exact (hx [.runHandle] rfl).1
  | _ => trivial

end

/-- Descriptors 5 and 6 are reported together; the callback of 5 removes 6 and closes it. -/
def pollRun : List (Act Nat Unit) :=
  [.add .reader false 5 1, .add .reader false 6 2,
    .startTick [⟨5, true, false, false, false⟩, ⟨6, true, false, false, false⟩] [],
    .runHandle, .remove .reader 6, .closeFd 6]

/-- Here each callback removes itself when its handle has run. -/
def selfRun : List (Act Nat Unit) :=
  [.add .reader false 5 1, .startTick [⟨5, true, false, false, false⟩] [], .runHandle,
    .remove .reader 5]

theorem removed_never_invoked_self :
    ∃ t, machine.run (init, fun _ => ∅) selfRun = some t ∧
      machine.Meets InvokesNoRemoved (init, fun _ => ∅) selfRun :=
  ⟨_, rfl, (removed_never_invoked (show machine.run _ selfRun = some _ from rfl)).2 (by decide)⟩

/-- The callback of 6 is removed, and its handle is the next to be executed. -/
theorem removed_and_invoked :
    ∃ t, machine.run ((init, fun _ => ∅) : ReaderLoop Nat Unit × Removed Nat) pollRun = some t ∧
      (t.2 .reader).lookup 6 = some 2 ∧ (t.1.callbacks .reader).lookup 6 = none ∧
      t.1.batch = [.io .reader 6 2] :=
  ⟨_, rfl, rfl, rfl, rfl⟩

end ReaderLoop

end Uringcore
