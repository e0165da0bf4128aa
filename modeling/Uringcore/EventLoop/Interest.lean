import Uringcore.EventLoop.Readers

/-!
# The interest set

Which descriptors have callbacks is kept three times: in the loop's dictionaries, in the core's maps,
and in the poll set, where a mask says which callbacks they are. `add_reader` and its siblings change
one after the other, and go by the dictionary of the *other* direction to choose between the calls of
`epoll`. For descriptors that may be polled and are not closed under their callbacks the three say
the same in every state (`interest_kept`).
-/

namespace Uringcore

/-- What a call of `epoll` fails with. -/
inductive EpollCtlError where
  | fileExists
  | other (e : EpollError)
  deriving DecidableEq, Repr

namespace EpollMask

/-- `epoll.register`. -/
def register (refused : Bool) (fd : Fd) (mask : EpollMask) (epoll : FdMap EpollMask) :
    Except EpollCtlError (FdMap EpollMask) :=
  if refused then .error (.other .osError)
  else if (epoll.lookup fd).isSome then .error .fileExists
  else .ok (epoll.insert fd mask)

/-- `epoll.modify`. -/
def modify (refused : Bool) (fd : Fd) (mask : EpollMask) (epoll : FdMap EpollMask) :
    Except EpollCtlError (FdMap EpollMask) :=
  if refused then .error (.other .osError)
  else if (epoll.lookup fd).isSome then .ok (epoll.insert fd mask)
  else .error (.other .fileNotFound)

/-- `epoll.unregister`. -/
def unregister (fd : Fd) (epoll : FdMap EpollMask) : Except EpollCtlError (FdMap EpollMask) :=
  if (epoll.lookup fd).isSome then .ok (epoll.erase fd) else .error (.other .fileNotFound)

end EpollMask

theorem Side.other_ne (side : Side) : side.other ≠ side := by cases side <;> decide

namespace ReaderLoop
variable {C K : Type}

/-! ## The calls, with their exceptions -/

/-- The `try` of `add_reader` and `add_writer`. -/
def watch (side : Side) (refused : Bool) (fd : Fd) (s : ReaderLoop C K) :
    Except EpollCtlError (FdMap EpollMask) :=
  let known := s.has side.other fd
  let mask := EpollMask.of fun x => x = side || known
  let r := if known then EpollMask.modify refused fd mask s.epoll
    else EpollMask.register refused fd mask s.epoll
  match r with
  | .error .fileExists => EpollMask.modify refused fd mask s.epoll
  | r => r

/-- The end of `_remove_reader_no_check` and `_remove_writer_no_check`: what `epoll` raises is
swallowed. -/
def unwatch (side : Side) (fd : Fd) (s : ReaderLoop C K) : FdMap EpollMask :=
  let r := if s.has side.other fd then EpollMask.modify false fd (.of (· = side.other)) s.epoll
    else EpollMask.unregister fd s.epoll
  match r with
  | .ok epoll => epoll
  | .error _ => s.epoll

/-- One dictionary and its copy in the core. -/
def put (side : Side) (m : FdMap C) (m' : FdMap C) (s : ReaderLoop C K) : ReaderLoop C K := { s with
  callbacks := Function.update s.callbacks side m
  coreCallbacks := Function.update s.coreCallbacks side m' }

theorem remove_eq (side : Side) (fd : Fd) (s : ReaderLoop C K) : s.remove side fd =
    if s.has side fd then
      let s := s.put side ((s.callbacks side).erase fd) ((s.coreCallbacks side).erase fd)
      ({ s with epoll := s.unwatch side fd }, true)
    else (s, false) := by
  unfold remove
  by_cases hhas : s.has side fd
  · simp only [hhas, Bool.not_true, Bool.false_eq_true, if_false, if_true]
    change (let s := s.put side ((s.callbacks side).erase fd) ((s.coreCallbacks side).erase fd)
      if s.has side.other fd then (s.modify fd (.of (· = side.other)), true)
      else ({ s with epoll := s.epoll.erase fd }, true)) = _
    generalize s.put side ((s.callbacks side).erase fd) ((s.coreCallbacks side).erase fd) = t
    unfold unwatch modify EpollMask.modify EpollMask.unregister
    cases hepoll : t.epoll.lookup fd with
    | none =>
      have herase : t.epoll.erase fd = t.epoll := AList.erase_of_lookup_eq_none hepoll
      cases hother : t.has side.other fd <;> simp [hother, hepoll, herase]
    | some mask => cases hother : t.has side.other fd <;> simp [hother, hepoll]
  · simp [hhas]

theorem add_eq (side : Side) (refused : Bool) (fd : Fd) (callback : C) (s : ReaderLoop C K) :
    s.add side refused fd callback =
      let s := (s.remove side fd).1
      match s.watch side refused fd with
      | .ok epoll => ({ s.put side ((s.callbacks side).insert fd callback)
          ((s.coreCallbacks side).insert fd callback) with epoll }, .ok ())
      | .error (.other e) => (s, .error e)
      | .error .fileExists => (s, .error .osError) := by
  unfold add
  generalize (s.remove side fd).1 = t
  unfold watch
  dsimp only
  cases refused <;> cases t.has side.other fd <;> cases h : t.epoll.lookup fd <;>
    simp [EpollMask.modify, EpollMask.register, put, h]

/-! ## The three agree -/

/-- What the poll set is to hold for a descriptor. -/
def interest (fd : Fd) (s : ReaderLoop C K) : Option EpollMask :=
  if s.has .reader fd || s.has .writer fd then some (.of fun side => s.has side fd) else none

/-- The core has the loop's callbacks, and the poll set the descriptors that have one. -/
structure InterestSound (s : ReaderLoop C K) : Prop where
  core : s.coreCallbacks = s.callbacks
  epoll : ∀ fd, s.epoll.lookup fd = s.interest fd

/-- A descriptor that gets a callback may be polled, and one that is closed has none. -/
def Pollable (s : ReaderLoop C K) : Act C K → Prop
  | .add _ refused _ _ => refused = false
  | .closeFd fd => s.interest fd = none
  | .remove .. | .callSoon _ | .startTick .. | .runHandle => True

instance (s : ReaderLoop C K) : ∀ a : Act C K, Decidable (Pollable s a)
  | .add _ refused _ _ => inferInstanceAs (Decidable (refused = false))
  | .closeFd fd => inferInstanceAs (Decidable (s.interest fd = none))
  | .remove .. | .callSoon _ | .startTick .. | .runHandle => .isTrue trivial

section
variable {s t : ReaderLoop C K}

/-- The interest in a descriptor is that in its two sides. -/
theorem interest_eq (side : Side) (fd : Fd) (s : ReaderLoop C K) : s.interest fd =
    if s.has side fd || s.has side.other fd then
      some (.of fun x => if x = side then s.has side fd else s.has side.other fd) else none := by
  cases side with
  | reader => rfl
  | writer =>
    unfold interest
    rw [Bool.or_comm]
    rfl

theorem interest_congr {fd : Fd} (h : ∀ side, t.has side fd = s.has side fd) :
    t.interest fd = s.interest fd := by
  simp only [interest, h]

theorem has_remove (side : Side) (fd : Fd) (s : ReaderLoop C K) (side' : Side) (fd' : Fd) :
    (s.remove side fd).1.has side' fd' =
      if side' = side ∧ fd' = fd then false else s.has side' fd' := by
  obtain ⟨hcallbacks, -, -⟩ := remove_spec side fd s
  rw [has, hcallbacks, lookup_erase_side]
  split <;> rfl

/-- What is left of the interest in the descriptor is that in its other side. -/
theorem InterestSound.remove_epoll (h : InterestSound s) (side : Side) (fd fd' : Fd) :
    (s.remove side fd).1.epoll.lookup fd' =
      if fd' = fd then
        if s.has side.other fd then some (.of (· = side.other)) else none
      else s.epoll.lookup fd' := by
  have hinterest := h.epoll fd
  rw [interest_eq side] at hinterest
  unfold remove
  by_cases hhas : s.has side fd
  · simp only [hhas, Bool.not_true, Bool.false_eq_true, if_false]
    have hother : has side.other fd { s with
        callbacks := Function.update s.callbacks side ((s.callbacks side).erase fd)
        coreCallbacks := Function.update s.coreCallbacks side ((s.coreCallbacks side).erase fd) } =
          s.has side.other fd := by
      unfold has
      dsimp only
      rw [Function.update_of_ne (Side.other_ne side)]
    rw [hother]
    by_cases hother' : s.has side.other fd
    · simp only [hother', if_true]
      unfold modify
      rw [hinterest]
      simp only [hhas, hother', Bool.or_self, if_true]
      by_cases hfd : fd' = fd
      · subst hfd
        rw [AList.lookup_insert, if_pos rfl]
      · rw [AList.lookup_insert_ne hfd, if_neg hfd]
    · simp only [hother', Bool.false_eq_true, if_false]
      by_cases hfd : fd' = fd
      · subst hfd
        rw [AList.lookup_erase, if_pos rfl]
      · rw [AList.lookup_erase_ne hfd, if_neg hfd]
  · simp only [hhas, Bool.not_false, if_true]
    by_cases hfd : fd' = fd
    · subst hfd
      rw [if_pos rfl, hinterest]
      cases hother' : s.has side.other fd'
      · simp [hhas]
      · cases side <;> simp [hhas, EpollMask.of, Side.other]
    · rw [if_neg hfd]

theorem InterestSound.remove (h : InterestSound s) (side : Side) (fd : Fd) :
    InterestSound (s.remove side fd).1 where
  core := by
    rw [remove_eq]
    split
    · simp only [put, h.core]
    · exact h.core
  epoll fd' := by
    rw [h.remove_epoll]
    by_cases hfd : fd' = fd
    · subst hfd
      have hself := has_remove side fd' s side fd'
      have hother := has_remove side fd' s side.other fd'
      rw [if_pos ⟨rfl, rfl⟩] at hself
      rw [if_neg fun h => Side.other_ne side h.1] at hother
      rw [if_pos rfl, interest_eq side, hself, hother, Bool.false_or]
      split
      · rename_i hknown
        rw [hknown]
        cases side <;> rfl
      · rfl
    · rw [if_neg hfd, h.epoll]
      symm
      apply interest_congr
      intro side'
      rw [has_remove, if_neg fun h => hfd h.2]

/-- Where the side has no callback, the `try` ends well. -/
theorem InterestSound.watch (h : InterestSound s) {side : Side} {fd : Fd} (hside : s.has side fd = false) :
    s.watch side false fd = .ok (s.epoll.insert fd (.of fun x => x = side || s.has side.other fd)) := by
  have hinterest := h.epoll fd
  rw [interest_eq side, hside, Bool.false_or] at hinterest
  unfold ReaderLoop.watch
  cases hother : s.has side.other fd <;>
    simp [EpollMask.modify, EpollMask.register, hinterest, hother]

theorem InterestSound.add (h : InterestSound s) (side : Side) (fd : Fd) (callback : C) :
    InterestSound (s.add side false fd callback).1 := by
  have hremoved := h.remove side fd
  have hside := has_remove side fd s side fd
  rw [if_pos ⟨rfl, rfl⟩] at hside
  rw [add_eq]
  generalize (s.remove side fd).1 = t at hremoved hside
  have hwatch := hremoved.watch hside
  dsimp only
  rw [hwatch]
  refine ⟨?_, fun fd' => ?_⟩
  · simp only [put, hremoved.core]
  · have hhas (side' : Side) : has side' fd' { t.put side ((t.callbacks side).insert fd callback)
        ((t.coreCallbacks side).insert fd callback) with
          epoll := t.epoll.insert fd (.of fun x => x = side || t.has side.other fd) } =
        if side' = side ∧ fd' = fd then true else t.has side' fd' := by
      have hlookup : (Function.update t.callbacks side ((t.callbacks side).insert fd callback) side').lookup
          fd' = _ := lookup_update_side (fun _ hne => AList.lookup_insert_ne hne) side' fd'
      unfold has put
      rw [hlookup]
      split
      · rw [AList.lookup_insert]
        rfl
      · rfl
    by_cases hfd : fd' = fd
    · subst hfd
      have hself := hhas side
      have hother := hhas side.other
      rw [if_pos ⟨rfl, rfl⟩] at hself
      rw [if_neg fun h => Side.other_ne side h.1] at hother
      rw [interest_eq side]
      simp only [hself, hother, Bool.true_or, if_true]
      show (t.epoll.insert fd' _).lookup fd' = _
      rw [AList.lookup_insert]
      congr 2
      funext x
      by_cases hx : x = side <;> simp [hx]
    · show (t.epoll.insert fd _).lookup fd' = _
      rw [AList.lookup_insert_ne hfd, hremoved.epoll]
      symm
      apply interest_congr
      intro side'
      rw [hhas, if_neg fun h => hfd h.2]

/-- An add of a descriptor that may be polled is accepted, and its callback is in the dictionary. -/
theorem InterestSound.added (h : InterestSound s) (side : Side) (fd : Fd) (callback : C) :
    (s.add side false fd callback).2 = .ok () ∧ ∀ side' fd',
      ((s.add side false fd callback).1.callbacks side').lookup fd' =
        if side' = side ∧ fd' = fd then some callback else (s.callbacks side').lookup fd' := by
  have hside := has_remove side fd s side fd
  rw [if_pos ⟨rfl, rfl⟩] at hside
  have hok : (s.add side false fd callback).2 = .ok () := by
    rw [add_eq]
    dsimp only
    rw [(h.remove side fd).watch hside]
  refine ⟨hok, fun side' fd' => ?_⟩
  obtain ⟨-, -, ⟨-, hcallbacks⟩ | ⟨⟨e, he⟩, -⟩⟩ := add_spec side false fd callback s
  · have hothers : ∀ fd' ≠ fd, (((s.callbacks side).erase fd).insert fd callback).lookup fd' =
        (s.callbacks side).lookup fd' := by
      intro fd' hne
      rw [AList.lookup_insert_ne hne, AList.lookup_erase_ne hne]
    rw [hcallbacks, lookup_update_side hothers, AList.lookup_insert]
  · rw [hok] at he
    cases he

/-- A poll does not write a registration. -/
theorem queueEvents_kept (events : List EpollEvent) (s : ReaderLoop C K) :
    (events.foldl (fun s e => s.queueEvent e) s).callbacks = s.callbacks ∧
      (events.foldl (fun s e => s.queueEvent e) s).coreCallbacks = s.coreCallbacks ∧
      (events.foldl (fun s e => s.queueEvent e) s).epoll = s.epoll := by
  induction events generalizing s with
  | nil => exact ⟨rfl, rfl, rfl⟩
  | cons e events ih => exact ih (s.queueEvent e)

theorem InterestSound.of_eq (h : InterestSound s) (hcallbacks : t.callbacks = s.callbacks)
    (hcore : t.coreCallbacks = s.coreCallbacks) (hepoll : t.epoll = s.epoll) : InterestSound t where
  core := by rw [hcore, hcallbacks, h.core]
  epoll fd := by
    rw [hepoll, h.epoll]
    symm
    apply interest_congr
    intro side
    rw [has, hcallbacks, has]

theorem InterestSound.step (h : InterestSound s) {a : Act C K} (hpollable : Pollable s a)
    (hstep : s.step a = some t) : InterestSound t := by
  cases a with
  | add side refused fd callback =>
    cases hstep
    obtain rfl : refused = false := hpollable
    exact h.add side fd callback
  | remove side fd =>
    cases hstep
    exact h.remove side fd
  | callSoon k =>
    cases hstep
    exact h.of_eq rfl rfl rfl
  | closeFd fd =>
    cases hstep
    -- a descriptor without callbacks is not in the set
    have hnone : s.epoll.lookup fd = none := (h.epoll fd).trans hpollable
    have herase : s.epoll.erase fd = s.epoll := AList.erase_of_lookup_eq_none hnone
    exact h.of_eq rfl rfl herase
  | startTick events pushed =>
    simp only [ReaderLoop.step, Option.ite_none_right_eq_some] at hstep
    obtain ⟨-, heq⟩ := hstep
    cases heq
    obtain ⟨hcallbacks, hcore, hepoll⟩ := queueEvents_kept events s
    unfold startTick
    split
    · exact h.of_eq hcallbacks hcore hepoll
    · exact h.of_eq rfl rfl rfl
  | runHandle =>
    simp only [ReaderLoop.step] at hstep
    split at hstep
    · cases hstep
    · cases hstep
      exact h.of_eq rfl rfl rfl

end

/-- The loop without a history. -/
def loopMachine : Machine (ReaderLoop C K) (Act C K) := ⟨step⟩

theorem interestSound_init : InterestSound (init : ReaderLoop C K) := by
  refine ⟨rfl, fun fd => ?_⟩
  rw [show (init : ReaderLoop C K).epoll = ∅ from rfl, AList.lookup_empty]
  rfl

theorem interestSound_run {acts : List (Act C K)} (hpollable : loopMachine.Meets Pollable init acts)
    {t : ReaderLoop C K} (hrun : loopMachine.run init acts = some t) : InterestSound t :=
  Machine.run_invariant (M := loopMachine) (fun _ _ _ hs hp hstep => hs.step hp hstep)
    interestSound_init hpollable hrun

/-- In every state the poll set, the core and the dictionaries agree about the callbacks, an add puts its
callback there and a remove takes it out, of this side of this descriptor alone, and a call that removes
one says so. -/
theorem interest_kept {acts : List (Act C K)} (hpollable : loopMachine.Meets Pollable init acts)
    {t : ReaderLoop C K} (hrun : loopMachine.run init acts = some t) :
    (∀ fd mask, t.epoll.lookup fd = some mask ↔ (t.has .reader fd ∨ t.has .writer fd) ∧
        mask = ⟨t.has .reader fd, t.has .writer fd⟩) ∧
      t.coreCallbacks = t.callbacks ∧
      (∀ side fd, (t.remove side fd).2 = true ↔
        ((t.remove side fd).1.callbacks side).lookup fd ≠ (t.callbacks side).lookup fd) ∧
      (∀ side fd callback, (t.add side false fd callback).2 = .ok () ∧ ∀ side' fd',
        ((t.add side false fd callback).1.callbacks side').lookup fd' =
          if side' = side ∧ fd' = fd then some callback else (t.callbacks side').lookup fd') ∧
      ∀ side fd side' fd', ((t.remove side fd).1.callbacks side').lookup fd' =
        if side' = side ∧ fd' = fd then none else (t.callbacks side').lookup fd' := by
  have hsound := interestSound_run hpollable hrun
  refine ⟨fun fd mask => ?_, hsound.core, fun side fd => ?_, hsound.added, fun side fd side' fd' => ?_⟩
  · rw [hsound.epoll, interest, Option.ite_none_right_eq_some, Option.some_inj, Bool.or_eq_true]
    exact and_congr_right fun _ => eq_comm
  · obtain ⟨hcallbacks, -, -⟩ := remove_spec side fd t
    rw [hcallbacks, Function.update_self, AList.lookup_erase, remove_eq]
    unfold has
    cases hlookup : (t.callbacks side).lookup fd <;> simp
  · rw [(remove_spec side fd t).1, lookup_erase_side]

/-- A reader is replaced, a writer comes and goes. -/
def interestRun : List (Act Nat Unit) :=
  [.add .reader false 5 1, .add .writer false 5 2, .add .reader false 5 3, .remove .writer 5,
    .remove .writer 6, .add .writer false 7 4]

theorem interest_kept_run : ∃ t, loopMachine.run init interestRun = some t ∧
    t.epoll.lookup 5 = some ⟨true, false⟩ ∧ t.coreCallbacks = t.callbacks ∧
      (t.callbacks .reader).lookup 5 = some 3 ∧
      ((t.add .writer false 5 4).1.callbacks .writer).lookup 5 = some 4 := by
  obtain ⟨hepoll, hcore, -, hadded, -⟩ :=
    interest_kept (show loopMachine.Meets Pollable init interestRun by decide) rfl
  refine ⟨_, rfl, (hepoll 5 _).mpr (by decide), hcore, rfl, ?_⟩
  rw [(hadded .writer 5 4).2, if_pos ⟨rfl, rfl⟩]

end ReaderLoop

end Uringcore
