import Uringcore.EventLoop.ReceivedOnce

/-!
# Every completion of a batch

`_process_completions` calls one handler after another without a `try`. An exception leaves a handler
when the core refuses to arm the next accept, when `eof_received` has raised and the loop's exception
handler raises too, when `close` raises after `eof_received`, and whenever a call of the protocol or
of its factory ends with what is no `Exception`. The completions that are then still to be handled
have left the ring, and no later tick sees them. Nor does one see any completion of a `run_tick` that
unwinds, because a handle of its batch has panicked: `noneSkipped_iff`.
-/

namespace Uringcore

namespace EventLoop
variable {K T : Type}

/-- A history: the completions ticks have processed, and those whose handler was called. -/
structure Handling where
  owed : List ResultTuple
  handled : List ResultTuple

namespace Handling

def init : Handling := ⟨[], []⟩

/-- A tick begins with no completion left of the last one. -/
def upd (s : EventLoop K T) (a : Act K T) (t : EventLoop K T) (h : Handling) : Handling :=
  match a with
  | .startTick .. => { h with owed := h.owed ++ t.results }
  | .handleCompletion => { h with handled := h.handled ++ s.results.head?.toList }
  | _ => h

end Handling

/-- The handlers of all completions were called, in order, but for those whose turn is to come. -/
def NoneSkipped (x : EventLoop K T × Handling) : Prop := x.2.handled ++ x.1.results = x.2.owed

instance (s : EventLoop K T) : ∀ a, Decidable (s.Drops a)
  | .ret .. => inferInstanceAs (Decidable (∃ frame ∈ s.stack.head?, _))
  | .rearmAccept _ => inferInstanceAs (Decidable (¬ _))
  | .consume _ | .complete .. | .callSoon _ | .startTick .. | .runHandle | .handleCompletion | .call .. =>
      isFalse (by rintro ⟨⟩)

/-- An exception leaves a handler, or unwinds `run_tick`, only when no completion is left. -/
def KeepsHandling (x : EventLoop K T × Handling) (a : Act K T) : Prop := x.1.Drops a → x.1.results = []

instance (x : EventLoop K T × Handling) (a : Act K T) : Decidable (KeepsHandling x a) :=
  inferInstanceAs (Decidable (_ → _))

section
variable [LE T] [DecidableLE T] {s t : EventLoop K T} {a : Act K T} {h : Handling}

def handlingMachine : Machine (EventLoop K T × Handling) (Act K T) := machine.ghost Handling.upd

/-- The exception takes the rest of the batch with it. -/
theorem results_dropped (hs : s.AcceptsSound) (hstep : s.step a = some t) (hdrops : s.Drops a) :
    t.results = [] := by
  cases a with
  | ret q env =>
    obtain ⟨frame, hframe, haborts⟩ := hdrops
    obtain ⟨frame', rest, hstack, -, hsame⟩ := step_ret hstep hs.made
    rw [hstack] at hframe
    cases hframe
    rw [hsame.results]
    exact if_pos haborts
  | rearmAccept env =>
    obtain ⟨listener, rest, -, -, -, hresults, -⟩ := step_rearmAccept hstep
    rw [hresults]
    exact if_neg hdrops
  | _ => cases hdrops

/-- Some completion was skipped for good. -/
def Behind (x : EventLoop K T × Handling) : Prop :=
  x.2.handled.length + x.1.results.length < x.2.owed.length

omit [LE T] [DecidableLE T] in
theorem NoneSkipped.not_behind {x : EventLoop K T × Handling} (hx : NoneSkipped x) : ¬ Behind x := by
  have hlength := congrArg List.length hx
  rw [List.length_append] at hlength
  unfold Behind
  omega

omit [LE T] [DecidableLE T] in
/-- A step that loses nothing. -/
theorem noneSkipped_same (hor : NoneSkipped (s, h) ∨ Behind (s, h)) {t : EventLoop K T} {h' : Handling}
    (hskipped : NoneSkipped (s, h) → NoneSkipped (t, h')) (hbehind : Behind (s, h) → Behind (t, h')) :
    (NoneSkipped (t, h') ∨ Behind (t, h')) ∧ (NoneSkipped (t, h') ↔ NoneSkipped (s, h)) := by
  refine ⟨hor.imp hskipped hbehind, fun ht => ?_, hskipped⟩
  exact hor.resolve_right fun hs => ht.not_behind (hbehind hs)

omit [LE T] [DecidableLE T] in
/-- A step that has nothing to do with completions. -/
theorem noneSkipped_kept (hor : NoneSkipped (s, h) ∨ Behind (s, h)) (hresults : t.results = s.results) :
    (NoneSkipped (t, h) ∨ Behind (t, h)) ∧ (NoneSkipped (t, h) ↔ NoneSkipped (s, h)) := by
  apply noneSkipped_same hor
  · exact fun hskipped => (congrArg (h.handled ++ ·) hresults).trans hskipped
  · unfold Behind
    rw [hresults]
    exact id

/-- What is left of the batch is gone. -/
theorem noneSkipped_dropped (hs : s.AcceptsSound) (hor : NoneSkipped (s, h) ∨ Behind (s, h))
    (hstep : s.step a = some t) (hdrops : s.Drops a) : (NoneSkipped (t, h) ∨ Behind (t, h)) ∧
      (NoneSkipped (t, h) ↔ NoneSkipped (s, h) ∧ KeepsHandling (s, h) a) := by
  have hnil : t.results = [] := results_dropped hs hstep hdrops
  by_cases hrest : s.results = []
  · have hkeeps : KeepsHandling (s, h) a := fun _ => hrest
    rw [and_iff_left hkeeps]
    exact noneSkipped_kept hor (hnil.trans hrest.symm)
  · -- the completions that are dropped are owed, and nobody will handle them
    have hlost : Behind (t, h) := by
      have hpos := List.length_pos_iff.mpr hrest
      have hle : h.handled.length + s.results.length ≤ h.owed.length := by
        rcases hor with hskipped | hbehind
        · rw [← show h.handled ++ s.results = h.owed from hskipped, List.length_append]
        · exact hbehind.le
      show h.handled.length + t.results.length < h.owed.length
      rw [hnil, List.length_nil]
      omega
    exact ⟨.inr hlost, iff_of_false (fun ht => ht.not_behind hlost) fun hk => hrest (hk.2 hdrops)⟩

/-- The steps of a tick. -/
theorem noneSkipped_tick (hor : NoneSkipped (s, h) ∨ Behind (s, h)) (hstep : s.step a = some t)
    (hhandles : a.handles = true) :
    (NoneSkipped (t, h.upd s a t) ∨ Behind (t, h.upd s a t)) ∧
      (NoneSkipped (t, h.upd s a t) ↔ NoneSkipped (s, h)) := by
  cases a with
  | startTick clock enter =>
    -- the batch before is handled, so what the tick brings is all there is
    obtain ⟨hidle, -⟩ := step_startTick.mp hstep
    simp only [idle, Bool.and_eq_true, List.isEmpty_iff] at hidle
    apply noneSkipped_same hor
    · intro hskipped
      have hall : h.handled ++ s.results = h.owed := hskipped
      rw [hidle.2, List.append_nil] at hall
      exact congrArg (· ++ t.results) hall
    · intro hbehind
      have hlt : h.handled.length + s.results.length < h.owed.length := hbehind
      rw [hidle.2, List.length_nil] at hlt
      show h.handled.length + t.results.length < (h.owed ++ t.results).length
      rw [List.length_append]
      omega
  | runHandle =>
    obtain ⟨handle, rest, -, -, rfl⟩ := step_runHandle.mp hstep
    obtain ⟨_, _, _, _, hsame⟩ := SameTables.execute handle { s with batch := rest }
    exact noneSkipped_kept hor (by rw [hsame])
  | handleCompletion =>
    obtain ⟨q, rest, hresults, -, hsame⟩ := step_handleCompletion hstep
    have hrest : t.results = rest := hsame.results
    apply noneSkipped_same hor
    · intro hskipped
      have hall : h.handled ++ s.results = h.owed := hskipped
      show (h.handled ++ s.results.head?.toList) ++ t.results = h.owed
      rw [hrest, List.append_assoc, ← hall, hresults]
      rfl
    · intro hbehind
      have hlt : h.handled.length + s.results.length < h.owed.length := hbehind
      show (h.handled ++ s.results.head?.toList).length + t.results.length < h.owed.length
      rw [hresults, List.length_cons] at hlt
      rw [hrest, hresults, List.head?_cons, Option.toList_some, List.length_append, List.length_singleton]
      omega
  | _ => cases hhandles

theorem noneSkipped_step (hs : s.AcceptsSound) (hor : NoneSkipped (s, h) ∨ Behind (s, h))
    (hstep : s.step a = some t) :
    (NoneSkipped (t, h.upd s a t) ∨ Behind (t, h.upd s a t)) ∧
      (NoneSkipped (t, h.upd s a t) ↔ NoneSkipped (s, h) ∧ KeepsHandling (s, h) a) := by
  by_cases hdrops : s.Drops a
  · have hupd : h.upd s a t = h := by cases a <;> first | rfl | cases hdrops
    rw [hupd]
    exact noneSkipped_dropped hs hor hstep hdrops
  · have hkeeps : KeepsHandling (s, h) a := fun hd => absurd hd hdrops
    rw [and_iff_left hkeeps]
    by_cases hhandles : a.handles = true
    · exact noneSkipped_tick hor hstep hhandles
    · have hupd : h.upd s a t = h := by cases a <;> first | rfl | exact absurd rfl hhandles
      have hresults : t.results = s.results :=
        (results_cases hs hstep (Bool.eq_false_of_not_eq_true hhandles)).resolve_right fun hd => hdrops hd.2
      rw [hupd]
      exact noneSkipped_kept hor hresults

/-- **No completion is skipped** in a run if and only if the exceptions that leave a handler leave the
last one of its batch, and none that unwinds `run_tick` finds a completion. -/
theorem noneSkipped_iff {setup : Setup} {bufferSize bufferCount : Nat}
    {core : UringCore FutId (Handle K) T} (hnew : UringCore.new setup bufferSize bufferCount = .ok core)
    {acts : List (Act K T)} {x : EventLoop K T × Handling}
    (hrun : handlingMachine.run (EventLoop.init core, Handling.init) acts = some x) :
    NoneSkipped x ↔ handlingMachine.Meets KeepsHandling (EventLoop.init core, Handling.init) acts := by
  have hinit : NoneSkipped (EventLoop.init core, Handling.init) := rfl
  have hiff := Machine.holds_iff_meets (M := handlingMachine) (P := NoneSkipped) (C := KeepsHandling)
    (I := fun x : EventLoop K T × Handling => x.1.AcceptsSound ∧ (NoneSkipped x ∨ Behind x)) ?_
    ⟨acceptsSound_init hnew, .inl hinit⟩ hrun
  · exact hiff.trans (and_iff_right hinit)
  · rintro ⟨s, h⟩ a ⟨t, h'⟩ ⟨hs, hor⟩ hstep
    obtain ⟨hnext, rfl⟩ := Machine.ghost_step_mk.mp hstep
    obtain ⟨hor', hiff⟩ := noneSkipped_step hs hor hnext
    exact ⟨⟨hs.step hnext, hor'⟩, hiff⟩

end

/-- A server accepts, and its next accept finds the queue full. -/
def fullRun : List (Act Nat Nat) :=
  [.call (.createServer false true 3) ⟨0, .ok 1⟩, .call (.createServer false true 4) ⟨0, .ok 1⟩,
    .complete 1 (.count 7) false false] ++
  List.replicate 8 (.call (.sockAccept 9 0) ⟨0, .ok 0⟩) ++
  [.startTick 0 (.ok 0), .handleCompletion, .ret (.value true) ⟨0, .ok 0⟩, .ret (.value true) ⟨0, .ok 0⟩,
    .rearmAccept ⟨0, .ok 0⟩]

/-- Two servers accept in one batch, and the next accept of the first finds the queue full. -/
def twoServersRun : List (Act Nat Nat) :=
  [.call (.createServer false true 3) ⟨0, .ok 1⟩, .call (.createServer false true 4) ⟨0, .ok 1⟩,
    .complete 0 (.count 6) false false, .complete 0 (.count 7) false false] ++
  List.replicate 8 (.call (.sockAccept 9 0) ⟨0, .ok 0⟩) ++
  [.startTick 0 (.ok 0), .handleCompletion, .ret (.value true) ⟨0, .ok 0⟩, .ret (.value true) ⟨0, .ok 0⟩,
    .rearmAccept ⟨0, .ok 0⟩]

theorem noneSkipped_full : ∃ core x, UringCore.new Setup.plain 16 2 = .ok core ∧
    handlingMachine.run (init core, Handling.init) fullRun = some x ∧ NoneSkipped x ∧
    x.2.handled.map ResultTuple.fd = [4] :=
  ⟨_, _, rfl, rfl, (noneSkipped_iff (show UringCore.new Setup.plain 16 2 = .ok _ from rfl)
    (show handlingMachine.run _ fullRun = some _ from rfl)).mpr (by decide), rfl⟩

/-- The descriptor 7 that the second server has accepted is nobody's. -/
theorem not_noneSkipped : ∃ core x, UringCore.new Setup.plain 16 2 = .ok core ∧
    handlingMachine.run (init core, Handling.init) twoServersRun = some x ∧ x.1.idle = true ∧
    x.2.owed.map ResultTuple.fd = [3, 4] ∧ x.2.handled.map ResultTuple.fd = [3] ∧
    x.1.objs.map Transport.fd = [6] ∧ ¬ NoneSkipped x := by
  refine ⟨_, _, rfl, rfl, rfl, rfl, rfl, rfl, fun h => ?_⟩
  have hlength := congrArg List.length h
  exact absurd hlength (by decide)

end EventLoop

end Uringcore
