import Mathlib.Data.List.AList
import Uringcore.Lib.Machine

/-!
# Signal handlers

The handler of a signal is kept twice: as a callback in `_signal_handlers`, and as a closure over that
callback which `signal.signal` has installed. `add_signal_handler` and `remove_signal_handler` change the
one and then the other, and `signal.signal` may refuse: an invalid number, another thread than the main
one. A signal is noted when it arrives, and its handler is called between any two steps of the main
thread, so also between the two changes.

`signals_registered` says when the two agree, and that then a signal schedules the callback that is
registered for it.
-/

namespace Uringcore

/-- What `signal.signal` has installed: the default action, the closure over a callback of the loop, or
a function of the program. -/
inductive Disposition (C : Type) where
  | default
  | ours (callback : C)
  | theirs
  deriving DecidableEq

/-- A call that has changed `_signal_handlers` and is about to call `signal.signal`. -/
inductive SignalCall (C : Type) where
  | idle
  | adding (sig : Nat) (callback : C) (previous : Option C)
  | removing (sig : Nat) (previous : C)
  deriving DecidableEq

structure Signals (C : Type) where
  closed : Bool
  debug : Bool
  /-- `_signal_handlers`. -/
  handlers : AList fun _ : Nat => C
  call : SignalCall C
  installed : Nat → Disposition C
  /-- The signals that have arrived and whose handlers are still to be called. -/
  arrived : List Nat
  /-- What the handlers have scheduled. -/
  scheduled : List C
  /-- The signals whose handlers have raised, in the midst of the program. -/
  raised : List Nat

namespace Signals

variable {C : Type}

def new : Signals C := ⟨false, false, ∅, .idle, fun _ => .default, [], [], []⟩

def sigKill : Nat := 9

def sigStop : Nat := 19

inductive Act (C : Type) where
  /-- `add_signal_handler`, up to its call of `signal.signal`. -/
  | add (sig : Nat) (callback : C)
  /-- `remove_signal_handler`, likewise. -/
  | remove (sig : Nat)
  /-- `signal.signal`, which may refuse. -/
  | signal (refused : Bool)
  /-- The program calls `signal.signal` itself. -/
  | program (sig : Nat) (ignore : Bool)
  | arrive (sig : Nat)
  /-- The handler of a signal is called. -/
  | deliver (sig : Nat)
  | setDebug (enabled : Bool)
  | close

/-- `add_signal_handler` raises on a closed loop and for the signals that nothing handles. -/
def addSignalHandler (sig : Nat) (callback : C) (s : Signals C) : Signals C :=
  if s.closed ∨ sig = sigKill ∨ sig = sigStop then s
  else { s with
    handlers := s.handlers.insert sig callback
    call := .adding sig callback (s.handlers.lookup sig) }

def removeSignalHandler (sig : Nat) (s : Signals C) : Signals C :=
  match s.handlers.lookup sig with
  | none => s
  | some callback => { s with
      handlers := s.handlers.erase sig
      call := .removing sig callback }

/-- `signal.signal`, called by the one or the other. -/
def signal (refused : Bool) (s : Signals C) : Option (Signals C) :=
  match s.call with
  | .idle => none
  | .adding sig callback _ => some { s with
      call := .idle
      installed := if refused then s.installed else Function.update s.installed sig (.ours callback) }
  | .removing sig _ => some { s with
      call := .idle
      installed := if refused then s.installed else Function.update s.installed sig .default }

/-- `_signal_handler`: `call_soon_threadsafe` raises on a closed loop and in debug mode, in the main
thread, wherever it is. -/
def signalHandler (sig : Nat) (callback : C) (s : Signals C) : Signals C :=
  if s.closed ∨ s.debug then { s with raised := s.raised ++ [sig] }
  else { s with scheduled := s.scheduled ++ [callback] }

/-- A signal is forgotten when its handler is gone by then. -/
def deliver (sig : Nat) (s : Signals C) : Signals C :=
  let s := { s with arrived := s.arrived.filter (· ≠ sig) }
  match s.installed sig with
  | .ours callback => s.signalHandler sig callback
  | .default | .theirs => s

def step (s : Signals C) : Act C → Option (Signals C)
  | .add sig callback => if s.call matches .idle then some (s.addSignalHandler sig callback) else none
  | .remove sig => if s.call matches .idle then some (s.removeSignalHandler sig) else none
  | .signal refused => s.signal refused
  | .program sig ignore => some { s with
      installed := Function.update s.installed sig (if ignore then .default else .theirs) }
  | .arrive sig =>
      match s.installed sig with
      | .default => some s
      | .ours _ | .theirs => some { s with arrived := sig :: s.arrived.filter (· ≠ sig) }
  | .deliver sig => if sig ∈ s.arrived then some (s.deliver sig) else none
  | .setDebug enabled => some { s with debug := enabled }
  | .close => some { s with closed := true }

def machine : Machine (Signals C) (Act C) := ⟨step⟩

/-! ## The two registrations -/

/-- The callback that is registered for a signal: until a call has returned, the one from before it. -/
def registered (s : Signals C) (sig : Nat) : Option C :=
  match s.call with
  | .idle => s.handlers.lookup sig
  | .adding sig' _ previous => if sig = sig' then previous else s.handlers.lookup sig
  | .removing sig' previous => if sig = sig' then some previous else s.handlers.lookup sig

/-- `signal.signal` has installed what is registered. -/
def Consistent (s : Signals C) : Prop :=
  ∀ sig callback, s.installed sig = .ours callback ↔ s.registered sig = some callback

/-- `signal.signal` does not refuse, but where it has nothing to change, and the program does not call it
for a signal with a handler of the loop. -/
def Agreed (s : Signals C) : Act C → Prop
  | .signal refused => refused = false ∨ match s.call with
      | .adding _ callback previous => previous = some callback
      | .idle | .removing .. => False
  | .program sig _ => s.registered sig = none
  | .add .. | .remove _ | .arrive _ | .deliver _ | .setDebug _ | .close => True

/-- The call names the signal's entry as the dictionary has it by now. -/
def CallSound (s : Signals C) : Prop :=
  match s.call with
  | .idle => True
  | .adding sig callback _ => s.handlers.lookup sig = some callback
  | .removing sig _ => s.handlers.lookup sig = none

instance [DecidableEq C] (s : Signals C) : ∀ a : Act C, Decidable (s.Agreed a)
  | .signal refused =>
      match hcall : s.call with
      | .idle => decidable_of_iff (refused = false) (by simp [Agreed, hcall])
      | .removing .. => decidable_of_iff (refused = false) (by simp [Agreed, hcall])
      | .adding _ callback previous =>
          decidable_of_iff (refused = false ∨ previous = some callback) (by simp [Agreed, hcall])
  | .program sig _ => inferInstanceAs (Decidable (s.registered sig = none))
  | .add .. | .remove _ | .arrive _ | .deliver _ | .setDebug _ | .close => .isTrue trivial

variable {s t : Signals C}

/-- Where neither the installed functions nor the registrations change. -/
theorem consistent_congr (hinstalled : t.installed = s.installed)
    (hregistered : ∀ sig, t.registered sig = s.registered sig) : t.Consistent ↔ s.Consistent := by
  unfold Consistent
  rw [hinstalled]
  simp only [hregistered]

theorem registered_add (hidle : s.call = .idle) (sig : Nat) (callback : C) (sig' : Nat) :
    (s.addSignalHandler sig callback).registered sig' = s.registered sig' := by
  unfold addSignalHandler
  split
  · rfl
  · simp only [registered, hidle]
    by_cases hsig : sig' = sig
    · rw [if_pos hsig, hsig]
    · rw [if_neg hsig, AList.lookup_insert_ne hsig]

theorem registered_remove (hidle : s.call = .idle) (sig sig' : Nat) :
    (s.removeSignalHandler sig).registered sig' = s.registered sig' := by
  unfold removeSignalHandler
  split
  · rfl
  · rename_i callback hsome
    simp only [registered, hidle]
    by_cases hsig : sig' = sig
    · rw [if_pos hsig, hsig, hsome]
    · rw [if_neg hsig, AList.lookup_erase_ne hsig]

theorem signalHandler_same (sig : Nat) (callback : C) (s : Signals C) :
    (s.signalHandler sig callback).installed = s.installed ∧
      (s.signalHandler sig callback).call = s.call ∧
      (s.signalHandler sig callback).handlers = s.handlers := by
  unfold signalHandler
  split <;> exact ⟨rfl, rfl, rfl⟩

theorem deliver_same (sig : Nat) (s : Signals C) :
    (s.deliver sig).installed = s.installed ∧ (s.deliver sig).call = s.call ∧
      (s.deliver sig).handlers = s.handlers := by
  unfold deliver
  dsimp only
  split
  · exact signalHandler_same sig _ _
  · exact ⟨rfl, rfl, rfl⟩
  · exact ⟨rfl, rfl, rfl⟩

theorem consistent_of_same (hinstalled : t.installed = s.installed) (hcall : t.call = s.call)
    (hhandlers : t.handlers = s.handlers) : t.Consistent ↔ s.Consistent := by
  apply consistent_congr hinstalled
  intro sig
  unfold registered
  rw [hcall, hhandlers]

theorem callSound_of_same (h : s.CallSound) (hcall : t.call = s.call)
    (hhandlers : t.handlers = s.handlers) : t.CallSound := by
  unfold CallSound
  rw [hcall, hhandlers]
  exact h

theorem step_callSound {a : Act C} (h : s.CallSound) (hstep : s.step a = some t) : t.CallSound := by
  cases a with
  | add sig callback =>
    simp only [step, Option.ite_none_right_eq_some] at hstep
    cases hstep.2
    unfold addSignalHandler
    split
    · exact h
    · exact AList.lookup_insert _
  | remove sig =>
    simp only [step, Option.ite_none_right_eq_some] at hstep
    cases hstep.2
    unfold removeSignalHandler
    split
    · exact h
    · exact AList.lookup_erase _ _
  | signal refused =>
    simp only [step, signal] at hstep
    split at hstep
    · cases hstep
    · cases hstep
      trivial
    · cases hstep
      trivial
  | program sig ignore =>
    cases hstep
    exact callSound_of_same h rfl rfl
  | arrive sig =>
    simp only [step] at hstep
    split at hstep
    all_goals
      cases hstep
      exact callSound_of_same h rfl rfl
  | deliver sig =>
    simp only [step, Option.ite_none_right_eq_some] at hstep
    cases hstep.2
    obtain ⟨-, hcall, hhandlers⟩ := deliver_same sig s
    exact callSound_of_same h hcall hhandlers
  | setDebug enabled =>
    cases hstep
    exact callSound_of_same h rfl rfl
  | close =>
    cases hstep
    exact callSound_of_same h rfl rfl

/-- `signal.signal` on behalf of `add_signal_handler`. -/
theorem consistent_adding {sig : Nat} {callback : C} {previous : Option C} {refused : Bool}
    (hcall : s.call = .adding sig callback previous) (hsound : s.CallSound) (h : s.Consistent) :
    ({ s with
        call := .idle
        installed := if refused then s.installed
          else Function.update s.installed sig (.ours callback) } : Signals C).Consistent ↔
      refused = false ∨ previous = some callback := by
  rw [CallSound, hcall] at hsound
  have hprevious := fun sig' callback' => h sig' callback'
  simp only [registered, hcall] at hprevious
  cases refused with
  | false =>
    simp only [true_or, iff_true]
    intro sig' callback'
    simp only [registered, Bool.false_eq_true, if_false]
    by_cases hsig : sig' = sig
    · subst hsig
      rw [Function.update_self, hsound]
      simp
    · rw [Function.update_of_ne hsig]
      simpa [hsig] using hprevious sig' callback'
  | true =>
    simp only [if_true, Bool.true_eq_false, false_or]
    constructor
    · intro hconsistent
      have hself := hprevious sig callback
      rw [if_pos rfl] at hself
      exact hself.mp ((hconsistent sig callback).mpr hsound)
    · intro hsame sig' callback'
      rw [hprevious sig' callback']
      by_cases hsig : sig' = sig
      · rw [if_pos hsig, hsame, hsig]
        exact Eq.congr_left hsound.symm
      · rw [if_neg hsig]
        rfl

/-- `signal.signal` on behalf of `remove_signal_handler`. -/
theorem consistent_removing {sig : Nat} {previous : C} {refused : Bool}
    (hcall : s.call = .removing sig previous) (hsound : s.CallSound) (h : s.Consistent) :
    ({ s with
        call := .idle
        installed := if refused then s.installed
          else Function.update s.installed sig .default } : Signals C).Consistent ↔
      refused = false := by
  rw [CallSound, hcall] at hsound
  have hprevious := fun sig' callback' => h sig' callback'
  simp only [registered, hcall] at hprevious
  cases refused with
  | false =>
    simp only [iff_true]
    intro sig' callback'
    simp only [registered, Bool.false_eq_true, if_false]
    by_cases hsig : sig' = sig
    · subst hsig
      rw [Function.update_self, hsound]
      simp
    · rw [Function.update_of_ne hsig]
      simpa [hsig] using hprevious sig' callback'
  | true =>
    simp only [if_true, Bool.true_eq_false, iff_false]
    intro hconsistent
    have hself := hprevious sig previous
    rw [if_pos rfl] at hself
    have hstill := (hconsistent sig previous).mp (hself.mpr rfl)
    simp only [registered] at hstill
    rw [hsound] at hstill
    cases hstill

theorem step_consistent {a : Act C} (hsound : s.CallSound) (h : s.Consistent)
    (hstep : s.step a = some t) : t.Consistent ↔ s.Agreed a := by
  cases a with
  | add sig callback =>
    simp only [step, Option.ite_none_right_eq_some] at hstep
    obtain ⟨hidle, hsome⟩ := hstep
    cases hsome
    have hcall : s.call = .idle := by
      cases hcall : s.call with
      | idle => rfl
      | adding => simp [hcall] at hidle
      | removing => simp [hcall] at hidle
    refine iff_of_true ((consistent_congr ?_ (registered_add hcall sig callback)).mpr h) trivial
    unfold addSignalHandler
    split <;> rfl
  | remove sig =>
    simp only [step, Option.ite_none_right_eq_some] at hstep
    obtain ⟨hidle, hsome⟩ := hstep
    cases hsome
    have hcall : s.call = .idle := by
      cases hcall : s.call with
      | idle => rfl
      | adding => simp [hcall] at hidle
      | removing => simp [hcall] at hidle
    refine iff_of_true ((consistent_congr ?_ (registered_remove hcall sig)).mpr h) trivial
    unfold removeSignalHandler
    split <;> rfl
  | signal refused =>
    simp only [step, signal] at hstep
    split at hstep
    · cases hstep
    · rename_i sig callback previous hcall
      cases hstep
      simp only [Agreed, hcall]
      exact consistent_adding hcall hsound h
    · rename_i sig previous hcall
      cases hstep
      simp only [Agreed, hcall, or_false]
      exact consistent_removing hcall hsound h
  | program sig ignore =>
    cases hstep
    have hours (callback : C) :
        (if ignore then Disposition.default else .theirs) ≠ .ours callback := by cases ignore <;> simp
    constructor
    · intro hconsistent
      by_contra hsome
      obtain ⟨callback, hcallback⟩ := Option.ne_none_iff_exists'.mp hsome
      have hinstalled := (hconsistent sig callback).mpr hcallback
      simp only [Function.update_self] at hinstalled
      exact hours callback hinstalled
    · intro hnone sig' callback
      show Function.update s.installed sig _ sig' = _ ↔ s.registered sig' = some callback
      by_cases hsig : sig' = sig
      · subst hsig
        rw [Function.update_self, show s.registered sig' = none from hnone]
        exact iff_of_false (hours callback) nofun
      · rw [Function.update_of_ne hsig]
        exact h sig' callback
  | arrive sig =>
    simp only [step] at hstep
    refine iff_of_true ?_ trivial
    split at hstep
    all_goals
      cases hstep
      exact (consistent_of_same rfl rfl rfl).mpr h
  | deliver sig =>
    simp only [step, Option.ite_none_right_eq_some] at hstep
    cases hstep.2
    obtain ⟨hinstalled, hcall, hhandlers⟩ := deliver_same sig s
    exact iff_of_true ((consistent_of_same hinstalled hcall hhandlers).mpr h) trivial
  | setDebug enabled =>
    cases hstep
    exact iff_of_true ((consistent_of_same rfl rfl rfl).mpr h) trivial
  | close =>
    cases hstep
    exact iff_of_true ((consistent_of_same rfl rfl rfl).mpr h) trivial

/-! ## What a signal does -/

/-- What should come of the signals: the registered callbacks that are to be scheduled, and the signals
that interrupt the program. -/
structure Expected (C : Type) where
  scheduled : List C
  raised : List Nat

/-- A handler that is called for a signal with a registration. -/
def expect (s : Signals C) (a : Act C) (_ : Signals C) (e : Expected C) : Expected C :=
  match a with
  | .deliver sig => match s.registered sig with
      | none => e
      | some callback =>
          if s.closed ∨ s.debug then { e with raised := e.raised ++ [sig] }
          else { e with scheduled := e.scheduled ++ [callback] }
  | .add .. | .remove _ | .signal _ | .program .. | .arrive _ | .setDebug _ | .close => e

theorem scheduled_deliver (h : s.Consistent) (sig : Nat) {e : Expected C}
    (he : s.scheduled = e.scheduled ∧ s.raised = e.raised) :
    (s.deliver sig).scheduled = (expect s (.deliver sig) t e).scheduled ∧
      (s.deliver sig).raised = (expect s (.deliver sig) t e).raised := by
  unfold deliver expect
  dsimp only
  cases hregistered : s.registered sig with
  | none =>
    have hno (callback : C) : s.installed sig ≠ .ours callback := by
      intro hours
      rw [h sig callback, hregistered] at hours
      cases hours
    split
    · rename_i callback hours
      exact absurd hours (hno callback)
    · exact he
    · exact he
  | some callback =>
    rw [(h sig callback).mpr hregistered]
    dsimp only
    unfold signalHandler
    dsimp only
    split
    · exact ⟨he.1, by rw [he.2]⟩
    · exact ⟨by rw [he.1], he.2⟩

theorem step_expected {a : Act C} (h : s.Consistent) {e : Expected C}
    (he : s.scheduled = e.scheduled ∧ s.raised = e.raised) (hstep : s.step a = some t) :
    t.scheduled = (expect s a t e).scheduled ∧ t.raised = (expect s a t e).raised := by
  cases a with
  | add sig callback =>
    simp only [step, Option.ite_none_right_eq_some] at hstep
    cases hstep.2
    unfold addSignalHandler
    split <;> exact he
  | remove sig =>
    simp only [step, Option.ite_none_right_eq_some] at hstep
    cases hstep.2
    unfold removeSignalHandler
    split <;> exact he
  | signal refused =>
    simp only [step, signal] at hstep
    split at hstep
    · cases hstep
    · cases hstep
      exact he
    · cases hstep
      exact he
  | program sig ignore =>
    cases hstep
    exact he
  | arrive sig =>
    simp only [step] at hstep
    split at hstep
    all_goals
      cases hstep
      exact he
  | deliver sig =>
    simp only [step, Option.ite_none_right_eq_some] at hstep
    cases hstep.2
    exact scheduled_deliver h sig he
  | setDebug enabled =>
    cases hstep
    exact he
  | close =>
    cases hstep
    exact he

theorem consistent_new : (new : Signals C).Consistent := by
  intro sig callback
  simp [new, registered]

/-- **Signals and callbacks.** The loop's callbacks and what `signal.signal` has installed agree all along
a run if and only if `signal.signal` never refuses what would change something, and the program leaves the
signals of the loop alone. A signal then schedules the callback that is registered when its handler is
called, once, or interrupts the program when the loop is closed or in debug mode. -/
theorem signals_registered {acts : List (Act C)} {s : Signals C} {e : Expected C}
    (h : (machine.ghost expect).run (new, ⟨[], []⟩) acts = some (s, e)) :
    (machine.Always Consistent new acts ↔ machine.Meets Agreed (new : Signals C) acts) ∧
      (machine.Meets Agreed (new : Signals C) acts →
        s.scheduled = e.scheduled ∧ s.raised = e.raised) := by
  have hnew : (new : Signals C).CallSound := trivial
  constructor
  · apply Machine.always_iff_meets (I := CallSound) _ hnew consistent_new (Machine.run_of_run_ghost h)
    intro s a t hsound hconsistent hstep
    exact ⟨step_callSound hsound hstep, step_consistent hsound hconsistent hstep⟩
  · intro hmeets
    have hend : s.CallSound ∧ s.Consistent ∧ s.scheduled = e.scheduled ∧ s.raised = e.raised := by
      apply Machine.run_invariant (I := fun x : Signals C × Expected C =>
        x.1.CallSound ∧ x.1.Consistent ∧ x.1.scheduled = x.2.scheduled ∧ x.1.raised = x.2.raised) _
        ⟨hnew, consistent_new, rfl, rfl⟩ (Machine.meets_ghost.mpr hmeets) h
      intro x a y hx hagreed hstep
      obtain ⟨hsound, hconsistent, he⟩ := hx
      obtain ⟨hmove, hghost⟩ := Machine.ghost_step_eq_some.mp hstep
      rw [hghost]
      exact ⟨step_callSound hsound hmove, (step_consistent hsound hconsistent hmove).mpr hagreed,
        step_expected hconsistent he hmove⟩
    exact hend.2.2

/-- A handler is replaced; the signal that comes between the two changes schedules the old callback. -/
def replaced : List (Act Nat) :=
  [.add 15 1, .signal false, .add 15 2, .arrive 15, .deliver 15, .signal false, .arrive 15, .deliver 15]

theorem signals_registered_replaced : ∃ s : Signals Nat, machine.run new replaced = some s ∧
    s.scheduled = [1, 2] ∧ s.raised = [] :=
  ⟨_, rfl, (signals_registered (show (machine.ghost expect).run (new, ⟨[], []⟩) replaced =
    some (_, ⟨[1, 2], []⟩) from rfl)).2 (by decide)⟩

end Signals

end Uringcore
