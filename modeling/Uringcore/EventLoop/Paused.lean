import Uringcore.EventLoop.ReceivedOnce

/-!
# Paused reading

`pause_reading` keeps a transport from submitting its next receive. `_on_recv_complete` does not look
at the flag, and there is nowhere to keep data back: a receive that was on its way when reading was
paused gives its data to the protocol all the same.

A list of `ReadingEvent`s keeps, beside the loop, when reading was paused and resumed and when the
protocol was given data. `HeldWhilePaused` is the promise, `KeepsPaused` says which steps keep it:
those that run no receive's callback with data for a paused transport.
-/

namespace Uringcore

inductive ReadingEvent where
  /-- `pause_reading` has been called. -/
  | paused (tr : TransportId)
  /-- `resume_reading` has been called. -/
  | resumed (tr : TransportId)
  /-- `data_received` has been called. -/
  | received (tr : TransportId) (v : Value)
  deriving DecidableEq, Repr

namespace ReadingEvent

/-- Whether `tr` is paused after the event, when `p` says whether it was before. -/
def next (tr : TransportId) (p : Bool) : ReadingEvent → Bool
  | paused tr' => p || tr' = tr
  | resumed tr' => p && tr' ≠ tr
  | received .. => p

/-- The program has paused the reading of `tr` and has not resumed it. -/
def pausedAfter (tr : TransportId) (h : List ReadingEvent) : Bool := h.foldl (next tr) false

/-- No protocol is given data while its reading is paused. -/
def Quiet (h : List ReadingEvent) : Prop :=
  ∀ pre post tr v, h = pre ++ received tr v :: post → pausedAfter tr pre = false

theorem pausedAfter_append (tr : TransportId) (h h' : List ReadingEvent) :
    pausedAfter tr (h ++ h') = h'.foldl (next tr) (pausedAfter tr h) := List.foldl_append

theorem pausedAfter_concat (tr : TransportId) (h : List ReadingEvent) (e : ReadingEvent) :
    pausedAfter tr (h ++ [e]) = next tr (pausedAfter tr h) e := pausedAfter_append tr h [e]

theorem quiet_nil : Quiet [] := by
  intro pre post tr v heq
  cases pre <;> cases heq

/-- One more event. -/
theorem Quiet.concat {h : List ReadingEvent} {e : ReadingEvent} (hquiet : Quiet h)
    (he : ∀ tr v, e = received tr v → pausedAfter tr h = false) : Quiet (h ++ [e]) := by
  intro pre post tr v heq
  rcases post.eq_nil_or_concat with rfl | ⟨post, e', rfl⟩
  · obtain ⟨rfl, hlast⟩ := List.append_inj' heq rfl
    exact he tr v (List.singleton_inj.mp hlast)
  · rw [List.concat_eq_append, ← List.cons_append, ← List.append_assoc] at heq
    exact hquiet pre post tr v (List.append_inj' heq rfl).1

end ReadingEvent

/-- The call of `data_received` that the event is. -/
def TransportEvent.reading? : TransportEvent → Option ReadingEvent
  | dataReceived tr v => some (.received tr v)
  | _ => none

namespace EventLoop
variable {K T : Type}

open ReadingEvent

/-- The pauses and the resumptions of a step. `create_unix_connection` starts the reading of its
transport by `resume_reading`. -/
def calls (s : EventLoop K T) : Act K T → List ReadingEvent
  | .call (.pauseReading tr) _ => if tr < s.objs.length then [.paused tr] else []
  | .call (.resumeReading tr) _ => [.resumed tr]
  | .ret (.value _) _ => match s.stack with
    | .connectionMade tr .unixConnection :: _ => [.resumed tr]
    | _ => []
  | _ => []

/-- The history goes on with the step's calls and with what it has given to protocols. -/
def recordReading (x : EventLoop K T × Receivers) (a : Act K T) (y : EventLoop K T × Receivers)
    (h : List ReadingEvent) : List ReadingEvent :=
  h ++ (x.1.calls a ++ (y.1.log.drop x.1.log.length).filterMap TransportEvent.reading?)

/-- No protocol is given data while its reading is paused; otherwise, all data is handed over in
order, and when nothing is under way, all that was received. -/
structure HeldWhilePaused (x : (EventLoop K T × Receivers) × List ReadingEvent) : Prop where
  quiet : Quiet x.2
  ordered : ∀ tr, x.1.1.Open tr → x.1.1.delivered tr <+: x.1.1.completed x.1.2 tr
  all : ∀ tr, x.1.1.Open tr → pausedAfter tr x.2 = false → x.1.1.idle = true →
    x.1.1.core.scheduler = [] → x.1.1.delivered tr = x.1.1.completed x.1.2 tr

/-- The handle gives no data to an open transport that is paused. -/
def HoldsBack (s : EventLoop K T) : Handle K → Prop
  | .onRecvComplete tr fut => ∀ t ∈ s.objs[tr]?, t.closing = false → t.paused = true → s.received fut = []
  | _ => True

instance (s : EventLoop K T) : ∀ h : Handle K, Decidable (s.HoldsBack h)
  | .onRecvComplete tr _ => Option.decidableForallMem s.objs[tr]?
  | .onWriteComplete .. | .callConnectionLost .. | .user _ => .isTrue trivial

/-- Receives are resolved for their own completions only, and no callback of one runs with data while
its transport is paused. -/
def KeepsPaused (x : (EventLoop K T × Receivers) × List ReadingEvent) (a : Act K T) : Prop :=
  KeepsReceived x.1 a ∧
    match a with
    | .runHandle => ∀ h ∈ x.1.1.batch.head?, x.1.1.HoldsBack h
    | _ => True

instance (x : (EventLoop K T × Receivers) × List ReadingEvent) :
    ∀ a : Act K T, Decidable (KeepsPaused x a)
  | .runHandle =>
      have : Decidable (∀ h ∈ x.1.1.batch.head?, x.1.1.HoldsBack h) := Option.decidableForallMem _
      inferInstanceAs (Decidable (KeepsReceived x.1 .runHandle ∧ _))
  | .consume n => inferInstanceAs (Decidable (KeepsReceived x.1 (.consume n) ∧ True))
  | .complete i payload select more =>
      inferInstanceAs (Decidable (KeepsReceived x.1 (.complete i payload select more) ∧ True))
  | .callSoon k => inferInstanceAs (Decidable (KeepsReceived x.1 (.callSoon k) ∧ True))
  | .startTick clock enter =>
      inferInstanceAs (Decidable (KeepsReceived x.1 (.startTick clock enter) ∧ True))
  | .handleCompletion => inferInstanceAs (Decidable (KeepsReceived x.1 .handleCompletion ∧ True))
  | .ret r env => inferInstanceAs (Decidable (KeepsReceived x.1 (.ret r env) ∧ True))
  | .rearmAccept env => inferInstanceAs (Decidable (KeepsReceived x.1 (.rearmAccept env) ∧ True))
  | .call c env => inferInstanceAs (Decidable (KeepsReceived x.1 (.call c env) ∧ True))

/-! ## The flag -/

/-- The transport submits no receive. -/
def Held (s : EventLoop K T) (tr : TransportId) : Prop :=
  ∃ t ∈ s.objs[tr]?, t.closing = true ∨ t.paused = true

section
variable {s t : EventLoop K T} {tr : TransportId}

theorem Held.modify (h : s.Held tr) (tr' : TransportId) {f : Transport → Transport} (hf : tr' = tr →
    ∀ t, t.closing = true ∨ t.paused = true → (f t).closing = true ∨ (f t).paused = true) :
    (s.modify tr' f).Held tr := by
  obtain ⟨t, ht, hheld⟩ := h
  have hget : (s.objs.modify tr' f)[tr]? = some (if tr' = tr then f t else t) := by
    rw [List.getElem?_modify, Option.mem_def.mp ht]
    rfl
  refine ⟨_, hget, ?_⟩
  split
  · rename_i htr
    exact hf htr t hheld
  · exact hheld

theorem Held.append (h : s.Held tr) {objs : List Transport} (hobjs : t.objs = s.objs ++ objs) :
    t.Held tr := by
  obtain ⟨u, hu, hheld⟩ := h
  refine ⟨u, ?_, hheld⟩
  rw [hobjs]
  exact History.getElem?_append_of_some hu objs

theorem Held.forceClose (h : s.Held tr) (cause : TransportEvent) (exc : Option Exc) (tr' : TransportId) :
    (s.forceClose cause exc tr').Held tr := by
  unfold EventLoop.forceClose
  split
  · exact h
  · split
    · exact h
    · exact h.modify tr' fun _ _ _ => .inl rfl

/-- An open transport is paused by `pause_reading`. -/
theorem held_pauseReading (hlt : tr < s.objs.length) : (s.pauseReading tr).Held tr := by
  have ht := List.getElem?_eq_getElem hlt
  unfold pauseReading
  rw [ht]
  dsimp only
  split
  · rename_i hheld
    exact ⟨_, ht, Bool.or_eq_true_iff.mp hheld⟩
  · have hget : (s.objs.modify tr (.setPaused true))[tr]? = some (s.objs[tr].setPaused true) := by
      rw [List.getElem?_modify, ht]
      simp
    exact ⟨_, hget, .inr rfl⟩

section
variable [LE T] [DecidableLE T] {s₀ : EventLoop K T} {a : Act K T}

/-- Only a resumption ends a pause. -/
theorem Move.held (h : Move s₀ a s t) (hresumes : ¬ s₀.Resumes tr a) (hheld : s.Held tr) : t.Held tr := by
  have hsame (hobjs : t.objs = s.objs) : t.Held tr :=
    hheld.append (hobjs.trans (List.append_nil _).symm)
  cases h with
  | forced exc hcause => exact hheld.forceClose _ _ _
  | disarmed tr' exc => exact (hheld.modify tr' (f := .setRecvPending false) fun _ _ => id).forceClose _ _ _
  | closed hcause ht => exact hheld.modify _ fun _ _ _ => .inl rfl
  | flagged tr' hf hpaused hsize =>
    apply hheld.modify tr'
    rintro rfl u (hclosing | hu)
    · exact .inl ((hf.closing u).trans hclosing)
    · exact .inr (hpaused.resolve_left hresumes u hu)
  | received hruns hbatch => exact hheld.modify _ fun _ _ => id
  | armed env ht hidle =>
    rename_i tr' u
    exact (hheld.modify tr' (f := .setRecvPending true) fun _ _ => id).append
      (by rw [submitNew_eq]; exact (List.append_nil _).symm)
  | made fd creator => exact hheld.append rfl
  | constructed fd => exact hheld.append rfl
  | wrote env ha ht hopen hdata => exact hsame (by rw [submitNew_eq])
  | submitted env fd kind? callbacks req hreq hkind hcallbacks hsend =>
    exact hsame (by rw [submitNew_eq])
  | cancelled fut huser => exact hsame (by rw [setFuture_eq])
  | ioSettled hr hs₀ hsettles hfut => exact hsame (by rw [setFuture_eq]; rfl)
  | drained hticks hmidway hcq => exact hsame (by rw [drainOne_eq])
  | _ => exact hsame rfl

omit [LE T] [DecidableLE T] in
theorem forceClose_reading {cause : TransportEvent} (exc : Option Exc) (tr : TransportId)
    (s : EventLoop K T) (hcause : cause.isForced tr) :
    ∃ es, (s.forceClose cause exc tr).log = s.log ++ es ∧
      es.filterMap TransportEvent.reading? = [] := by
  obtain ⟨es, hes, hquiet⟩ := forceClose_log cause exc tr s hcause
  refine ⟨es, hes, List.filterMap_eq_nil_iff.mpr fun e he => ?_⟩
  cases e with
  | dataReceived tr' v => simpa [TransportEvent.isReading] using hquiet _ he tr'
  | _ => rfl

/-- Only a receive's callback gives data to a protocol. -/
theorem Move.quiet (h : Move s₀ a s t) (hruns : ∀ tr fut, ¬ s₀.Runs a (.onRecvComplete tr fut)) :
    ∃ es, t.log = s.log ++ es ∧ es.filterMap TransportEvent.reading? = [] := by
  have hsame (hlog : t.log = s.log) :
      ∃ es, t.log = s.log ++ es ∧ es.filterMap TransportEvent.reading? = [] :=
    ⟨[], by rw [hlog, List.append_nil], rfl⟩
  cases h with
  | lost hbatch ha => exact ⟨_, rfl, rfl⟩
  | forced exc hcause => exact forceClose_reading exc _ s hcause
  | disarmed tr exc =>
    apply forceClose_reading (some exc) tr (s.modify tr (.setRecvPending false))
    simp [TransportEvent.isForced]
  | closed hcause ht =>
    rename_i tr' t₀ cause
    refine ⟨[cause], rfl, ?_⟩
    cases cause with
    | dataReceived tr v => cases hcause
    | _ => rfl
  | data hruns' ht hopen => exact absurd hruns' (hruns _ _)
  | eof handler h => exact ⟨_, rfl, rfl⟩
  | flow frame he haccounts =>
    refine ⟨_, rfl, ?_⟩
    rcases he with rfl | rfl <;> rfl
  | made fd creator => exact ⟨_, rfl, rfl⟩
  | armed env ht hidle => exact hsame (by rw [submitNew_eq]; rfl)
  | wrote env ha ht hopen hdata => exact hsame (by rw [submitNew_eq])
  | submitted env fd kind? callbacks req hreq hkind hcallbacks hsend => exact hsame (by rw [submitNew_eq])
  | cancelled fut huser => exact hsame (by rw [setFuture_eq])
  | ioSettled hr hs₀ hsettles hfut => exact hsame (by rw [setFuture_eq]; rfl)
  | drained hticks hmidway hcq => exact hsame (by rw [drainOne_eq])
  | _ => exact hsame rfl

/-! ## A step -/

omit [LE T] [DecidableLE T] in
/-- What a receive's callback gives to the protocol is the data of its future, and only as long as the
transport is open. -/
theorem onRecvComplete_reading (tr : TransportId) (fut : FutId) (s : EventLoop K T) :
    ∃ es, (s.onRecvComplete tr fut).log = s.log ++ es ∧
      (es.filterMap TransportEvent.reading? = [] ∨
        ∃ v, es.filterMap TransportEvent.reading? = [.received tr v] ∧
          (∃ u, s.objs[tr]? = some u ∧ u.closing = false) ∧ s.received fut = [v]) := by
  have hnone {u : EventLoop K T} (hlog : u.log = s.log) : ∃ es, u.log = s.log ++ es ∧
      (es.filterMap TransportEvent.reading? = [] ∨
        ∃ v, es.filterMap TransportEvent.reading? = [.received tr v] ∧
          (∃ u, s.objs[tr]? = some u ∧ u.closing = false) ∧ s.received fut = [v]) :=
    ⟨[], by rw [hlog, List.append_nil], .inl rfl⟩
  have herror (exc : Exc) := forceClose_reading (some exc) tr (s.modify tr (.setRecvPending false))
    (show (TransportEvent.errored tr).isForced tr by simp [TransportEvent.isForced])
  unfold onRecvComplete
  split
  · exact hnone rfl
  · rename_i u hu
    dsimp only
    split
    · exact hnone rfl
    · rename_i hopen
      split
      · obtain ⟨es, hes, hquiet⟩ := herror (.osError _)
        exact ⟨es, hes, .inl hquiet⟩
      · rename_i v hv
        split
        · rename_i htruthy
          refine ⟨[.dataReceived tr v], rfl, .inr ⟨v, rfl, ⟨u, hu, by simpa using hopen⟩, ?_⟩⟩
          have hstate : s.futState fut = some (.result v) := hv
          rw [received, hstate]
          exact if_pos htruthy
        · exact ⟨[.eofReceived tr], rfl, .inl rfl⟩
      · exact hnone rfl
      · obtain ⟨es, hes, hquiet⟩ := herror .invalidState
        exact ⟨es, hes, .inl hquiet⟩
      · obtain ⟨es, hes, hquiet⟩ := herror .invalidState
        exact ⟨es, hes, .inl hquiet⟩

/-- A step calls `data_received` at most once, when it runs a receive's callback. -/
theorem step_reading (hstep : s.step a = some t) :
    ∃ es, t.log = s.log ++ es ∧ (es.filterMap TransportEvent.reading? = [] ∨
      ∃ tr fut v, s.Runs a (.onRecvComplete tr fut) ∧
        es.filterMap TransportEvent.reading? = [.received tr v] ∧
        (∃ u, s.objs[tr]? = some u ∧ u.closing = false) ∧ s.received fut = [v]) := by
  by_cases hruns : ∃ tr fut, s.Runs a (.onRecvComplete tr fut)
  · obtain ⟨tr, fut, rfl, rest, hbatch⟩ := hruns
    have hruns : s.Runs (.runHandle : Act K T) (.onRecvComplete tr fut) := ⟨rfl, rest, hbatch⟩
    obtain ⟨handle, rest', hstack, hbatch', rfl⟩ := step_runHandle.mp hstep
    obtain ⟨rfl, rfl⟩ := List.cons.inj (hbatch'.symm.trans hbatch)
    obtain ⟨es, hes, hread⟩ := onRecvComplete_reading tr fut { s with batch := rest' }
    refine ⟨es, hes, hread.imp_right ?_⟩
    rintro ⟨v, hv, hopen, hreceived⟩
    exact ⟨tr, fut, v, hruns, hv, hopen, hreceived⟩
  · have hend := (step_moves hstep).rule
      (I := fun u => ∃ es, u.log = s.log ++ es ∧ es.filterMap TransportEvent.reading? = []) ?_
      ⟨[], (List.append_nil _).symm, rfl⟩
    · obtain ⟨es, hes, hquiet⟩ := hend
      exact ⟨es, hes, .inl hquiet⟩
    · rintro u v ⟨es, hes, hquiet⟩ hmove
      obtain ⟨es', hes', hquiet'⟩ := hmove.quiet fun tr fut h => hruns ⟨tr, fut, h⟩
      refine ⟨es ++ es', by rw [hes', hes, List.append_assoc], ?_⟩
      rw [List.filterMap_append, hquiet, hquiet', List.append_nil]

omit [LE T] [DecidableLE T] in
theorem calls_of_resumes (h : s.Resumes tr a) : s.calls a = [.resumed tr] := by
  cases h with
  | called env => rfl
  | made truthy env hstack =>
    unfold calls
    rw [hstack]

/-- What a history says is paused is held in the state. -/
structure PausesKept (s : EventLoop K T) (h : List ReadingEvent) : Prop where
  held : ∀ tr, pausedAfter tr h = true → s.Held tr
  quiet : Quiet h

namespace PausesKept

variable {h : List ReadingEvent}

omit [LE T] [DecidableLE T] in
theorem init (core : UringCore FutId (Handle K) T) : (EventLoop.init core).PausesKept [] where
  held tr hpaused := by cases hpaused
  quiet := quiet_nil

theorem moved (hk : s.PausesKept h) (hstep : s.step a = some t) {tr : TransportId}
    (hresumes : ¬ s.Resumes tr a) (hpaused : pausedAfter tr h = true) : t.Held tr :=
  (step_moves hstep).rule (I := fun u => u.Held tr) (fun _ _ hu hmove => hmove.held hresumes hu)
    (hk.held tr hpaused)

/-- The calls of a step are in the history before what the step gives to protocols. -/
theorem called (hk : s.PausesKept h) (hstep : s.step a = some t) : t.PausesKept (h ++ s.calls a) := by
  have hnone (hcalls : s.calls a = []) : t.PausesKept (h ++ s.calls a) := by
    rw [hcalls, List.append_nil]
    refine ⟨fun tr hpaused => hk.moved hstep (fun hresumes => ?_) hpaused, hk.quiet⟩
    rw [calls_of_resumes hresumes] at hcalls
    cases hcalls
  have hresumed {tr' : TransportId} (hcalls : s.calls a = [.resumed tr']) :
      t.PausesKept (h ++ s.calls a) := by
    rw [hcalls]
    refine ⟨fun tr hpaused => ?_, hk.quiet.concat (by rintro tr v ⟨⟩)⟩
    rw [pausedAfter_concat, next, Bool.and_eq_true, decide_eq_true_eq] at hpaused
    refine hk.moved hstep (fun hresumes => hpaused.2 ?_) hpaused.1
    rw [calls_of_resumes hresumes] at hcalls
    cases hcalls
    rfl
  cases a with
  | call c env =>
    cases c with
    | pauseReading tr' =>
      by_cases hlt : tr' < s.objs.length
      · have hcalls : s.calls (.call (.pauseReading tr') env) = [.paused tr'] := if_pos hlt
        rw [hcalls]
        refine ⟨fun tr hpaused => ?_, hk.quiet.concat (by rintro tr v ⟨⟩)⟩
        rw [pausedAfter_concat, next, Bool.or_eq_true, decide_eq_true_eq] at hpaused
        rcases hpaused with hpaused | rfl
        · exact hk.moved hstep (by rintro ⟨⟩) hpaused
        · obtain ⟨-, rfl⟩ := step_call.mp hstep
          exact held_pauseReading hlt
      · exact hnone (if_neg hlt)
    | resumeReading tr' => exact hresumed rfl
    | _ => exact hnone rfl
  | ret q env =>
    cases q with
    | value truthy =>
      cases hstack : s.stack with
      | nil => exact hnone (by rw [calls, hstack])
      | cons frame rest =>
        cases frame with
        | connectionMade tr creator =>
          cases creator with
          | unixConnection => exact hresumed (show s.calls _ = [.resumed tr] by rw [calls, hstack])
          | _ => exact hnone (by rw [calls, hstack])
        | _ => exact hnone (by rw [calls, hstack])
    | _ => exact hnone rfl
  | _ => exact hnone rfl

theorem step (hk : s.PausesKept h) (hstep : s.step a = some t)
    (hholds : a = .runHandle → ∀ handle ∈ s.batch.head?, s.HoldsBack handle) :
    t.PausesKept (h ++ (s.calls a ++
      (t.log.drop s.log.length).filterMap TransportEvent.reading?)) := by
  have hcalled := hk.called hstep
  obtain ⟨es, hes, hread⟩ := step_reading hstep
  rw [hes, List.drop_left, ← List.append_assoc]
  rcases hread with hread | ⟨tr, fut, v, ⟨rfl, rest, hbatch⟩, hread, ⟨u, hu, hopen⟩, hreceived⟩
  · rw [hread, List.append_nil]
    exact hcalled
  · have hcalls : s.calls (.runHandle : Act K T) = [] := rfl
    rw [hcalls, List.append_nil] at hcalled ⊢
    rw [hread]
    refine ⟨fun tr' hpaused => hcalled.held tr' ?_, hcalled.quiet.concat fun tr' v' heq => ?_⟩
    · rwa [pausedAfter_concat] at hpaused
    · cases heq
      -- a paused transport that is open has been given nothing
      by_contra hpaused
      obtain ⟨u', hu', hflags⟩ := hk.held tr (Bool.eq_true_of_not_eq_false hpaused)
      cases hu.symm.trans hu'
      have hnone : s.received fut = [] := by
        apply hholds rfl (.onRecvComplete tr fut) _ u hu hopen
        · exact hflags.resolve_left (by simp [hopen])
        · rw [hbatch]
          rfl
      rw [hreceived] at hnone
      cases hnone

end PausesKept

/-! ## Runs -/

def readingMachine : Machine ((EventLoop K T × Receivers) × List ReadingEvent) (Act K T) :=
  receiveMachine.ghost recordReading

/-- In a run whose receives are resolved for their own completions only, and in which no callback of a
receive runs with data while its transport is paused, no protocol is given data while its reading is
paused, and it is given all data in order. -/
theorem held_while_paused {setup : Setup} {bufferSize bufferCount : Nat}
    {core : UringCore FutId (Handle K) T} (hnew : UringCore.new setup bufferSize bufferCount = .ok core)
    {acts : List (Act K T)} {x : (EventLoop K T × Receivers) × List ReadingEvent}
    (hkeeps : readingMachine.Meets KeepsPaused ((init core, Receivers.init), []) acts)
    (hrun : readingMachine.run ((init core, Receivers.init), []) acts = some x) : HeldWhilePaused x := by
  have hend := Machine.run_invariant (M := readingMachine)
    (I := fun x : (EventLoop K T × Receivers) × List ReadingEvent =>
      x.1.1.ReceivesKept x.1.2 ∧ x.1.1.PausesKept x.2) ?_ ⟨.init hnew, .init core⟩ hkeeps hrun
  · obtain ⟨hreceives, hpauses⟩ := hend
    have honce := hreceives.receivedOnce
    exact ⟨hpauses.quiet, honce.ordered, fun tr hopen _ => honce.all tr hopen⟩
  · rintro ⟨⟨s, r⟩, h⟩ a ⟨⟨t, r'⟩, h'⟩ ⟨hreceives, hpauses⟩ ⟨hreceived, hholds⟩ hstep
    obtain ⟨hreceive, rfl⟩ := Machine.ghost_step_mk.mp hstep
    obtain ⟨hnext, rfl⟩ := Machine.ghost_step_mk.mp hreceive
    refine ⟨hreceives.step hreceived hnext, hpauses.step hnext ?_⟩
    rintro rfl
    exact hholds

end

/-- The data of the receive that was in flight when reading was paused comes before the resumption. -/
def inFlightRun : List (Act Unit Nat) :=
  [.call (.createConnection 5) ⟨0, .ok 1⟩, .ret (.value true) ⟨0, .ok 1⟩,
    .call (.pauseReading 0) ⟨0, .ok 1⟩, .complete 0 (.data [1]) false false, .startTick 0 (.ok 0),
    .runHandle]

theorem held_while_paused_resumed : ∃ core x, UringCore.new (Setup.plain) 16 4 = .ok core ∧
    readingMachine.run ((init core, Receivers.init), []) pausedRun = some x ∧ HeldWhilePaused x ∧
    x.2 = [.received 0 (.data (.bytes [1])), .paused 0, .resumed 0,
      .received 0 (.data (.bytes [2])), .paused 0] :=
  ⟨_, _, rfl, rfl, held_while_paused (show UringCore.new Setup.plain 16 4 = .ok _ from rfl) (by decide)
    (show readingMachine.run _ pausedRun = some _ from rfl), rfl⟩

theorem not_held_while_paused : ∃ core x, UringCore.new (Setup.plain) 16 4 = .ok core ∧
    readingMachine.run ((init core, Receivers.init), []) inFlightRun = some x ∧ ¬ HeldWhilePaused x := by
  refine ⟨_, _, rfl, rfl, fun h => ?_⟩
  have hpaused := h.quiet [.paused 0] [] 0 (.data (.bytes [1])) rfl
  cases hpaused

end

end EventLoop

end Uringcore
