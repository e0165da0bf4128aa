import Uringcore.EventLoop.Moves

/-!
# The end of a transport

A transport ends when it is closed, aborted, meets an error or meets an EOF that its protocol does
not stay open after. `connection_lost` is scheduled by `_force_close` alone, which `abort` and errors
go through and `close` does not; a transport that is only ever closed never tells its protocol.

`connection_lost_iff` says when the protocol is told exactly once and nothing is read to it
afterwards: when no transport ends by `close` alone, and no EOF completion is handled, after
`connection_lost` has run, without a stored future. In that case alone the handler calls
`eof_received` by itself, and it does not look at `closing`.
-/

namespace Uringcore

/-- Nothing is read to the protocol of `tr` after its `connection_lost`. -/
def NoneAfterLost (tr : TransportId) (log : List TransportEvent) : Prop :=
  ∀ before e after, log = before ++ e :: after → e.isReading tr → before.any (TransportEvent.isLost tr) = false

/-- If `tr` has ended, `connection_lost` was scheduled exactly once, and nothing is read after it. -/
def ToldOnce (tr : TransportId) (log : List TransportEvent) : Prop :=
  (log.any (TransportEvent.isEnd tr) → log.count (.lostScheduled tr) = 1) ∧ NoneAfterLost tr log

theorem NoneAfterLost.nil (tr : TransportId) : NoneAfterLost tr [] := by
  intro before e after h
  simp at h

theorem noneAfterLost_append (tr : TransportId) (log : List TransportEvent) (e : TransportEvent) :
    NoneAfterLost tr (log ++ [e]) ↔
      NoneAfterLost tr log ∧ (e.isReading tr → log.any (TransportEvent.isLost tr) = false) := by
  constructor
  · intro h
    refine ⟨fun before e' after heq => h before e' (after ++ [e]) (by simp [heq]), ?_⟩
    exact h log e [] rfl
  · rintro ⟨h, hlast⟩ before e' after heq hreading
    rcases List.eq_nil_or_concat after with rfl | ⟨after, e'', rfl⟩
    · have heq := List.append_inj' heq rfl
      rw [← heq.1]
      obtain rfl : e = e' := by simpa using heq.2
      exact hlast hreading
    · have heq : log ++ [e] = (before ++ e' :: after) ++ [e''] := by simpa using heq
      exact h before e' after (List.append_inj' heq rfl).1 hreading

/-- Events that are no reading change nothing. -/
theorem NoneAfterLost.append {tr : TransportId} {log es : List TransportEvent} (h : NoneAfterLost tr log)
    (hes : ∀ e ∈ es, e.isReading tr = false) : NoneAfterLost tr (log ++ es) := by
  induction es generalizing log with
  | nil => simpa using h
  | cons e es ih =>
    rw [← List.singleton_append, ← List.append_assoc]
    refine ih ?_ fun e' he' => hes e' (List.mem_cons_of_mem _ he')
    rw [noneAfterLost_append]
    refine ⟨h, fun hreading => ?_⟩
    rw [hes e List.mem_cons_self] at hreading
    cases hreading

theorem NoneAfterLost.of_append {tr : TransportId} {log es : List TransportEvent}
    (h : NoneAfterLost tr (log ++ es)) : NoneAfterLost tr log := by
  intro before e after heq
  exact h before e (after ++ es) (by simp [heq])

namespace EventLoop
variable {K T : Type}

def IsClosed (s : EventLoop K T) (tr : TransportId) : Prop :=
  ∃ t, s.objs[tr]? = some t ∧ t.closed = true

/-- What the code keeps of the end of `tr`, beside what has happened. -/
structure EndKept (s : EventLoop K T) (tr : TransportId) : Prop where
  forced : s.log.any (TransportEvent.isForced tr) ↔ s.IsClosed tr
  closing : ∀ t, s.objs[tr]? = some t → t.closed = true → t.closing = true
  scheduled : s.IsClosed tr → s.log.count (.lostScheduled tr) = 1
  unscheduled : ¬ s.IsClosed tr → s.log.count (.lostScheduled tr) = 0
  queued : ∀ exc, .callConnectionLost tr exc ∈ s.queued → s.IsClosed tr
  told : s.log.any (TransportEvent.isLost tr) → s.IsClosed tr

/-- The only handles that call `connection_lost` are those of `_force_close`. -/
def NoLostCallback (s : EventLoop K T) : Prop :=
  ∀ f ∈ s.futs, ∀ tr exc, .callConnectionLost tr exc ∉ f.callbacks

/-- A step that hands an EOF for which no future is stored to the protocol of a transport finds that
its `connection_lost` has not been called. -/
def NoLateEof (s : EventLoop K T) (a : Act K T) : Prop :=
  ∀ tr ∈ s.eofFallback a, s.log.any (TransportEvent.isLost tr) = false

instance (s : EventLoop K T) (a : Act K T) : Decidable (s.NoLateEof a) :=
  Option.decidableForallMem _

/-! ## What the moves keep -/

/-- The transports are the same as far as their ends go, and nothing has happened that has to do with
the end of `tr`. -/
theorem EndKept.of_same {s t : EventLoop K T} {tr : TransportId} (hk : s.EndKept tr)
    (hclosed : t.IsClosed tr ↔ s.IsClosed tr)
    (hclosing : ∀ t', t.objs[tr]? = some t' → t'.closed = true → t'.closing = true)
    (hqueued : ∀ exc, .callConnectionLost tr exc ∈ t.queued → t.IsClosed tr)
    {es : List TransportEvent} (hlog : t.log = s.log ++ es) (hes : ∀ e ∈ es, e.isForced tr = false ∧
      e.isLost tr = false ∧ e ≠ .lostScheduled tr) : t.EndKept tr := by
  have hforced : t.log.any (TransportEvent.isForced tr) = s.log.any (TransportEvent.isForced tr) := by
    have : es.any (TransportEvent.isForced tr) = false := List.any_eq_false.mpr fun e he => by simp [(hes e he).1]
    rw [hlog, List.any_append, this, Bool.or_false]
  have hlost : t.log.any (TransportEvent.isLost tr) = s.log.any (TransportEvent.isLost tr) := by
    have : es.any (TransportEvent.isLost tr) = false := List.any_eq_false.mpr fun e he => by simp [(hes e he).2.1]
    rw [hlog, List.any_append, this, Bool.or_false]
  have hcount : t.log.count (.lostScheduled tr) = s.log.count (.lostScheduled tr) := by
    have : es.count (.lostScheduled tr) = 0 :=
      List.count_eq_zero.mpr fun hmem => (hes _ hmem).2.2 rfl
    rw [hlog, List.count_append, this, Nat.add_zero]
  exact {
    forced := by rw [hforced, hclosed]; exact hk.forced
    closing := hclosing
    scheduled := by rw [hcount, hclosed]; exact hk.scheduled
    unscheduled := by rw [hcount, hclosed]; exact hk.unscheduled
    queued := hqueued
    told := by rw [hlost, hclosed]; exact hk.told }

/-- Writing flags that have nothing to do with the end. -/
theorem isClosed_modify {s : EventLoop K T} {tr tr' : TransportId} {f : Transport → Transport}
    (hf : ∀ t, (f t).closed = t.closed) : (s.modify tr' f).IsClosed tr ↔ s.IsClosed tr := by
  show (∃ t, (s.objs.modify tr' f)[tr]? = some t ∧ _) ↔ _
  rw [List.getElem?_modify]
  by_cases htr : tr' = tr
  · cases hobj : s.objs[tr]? with
    | none => simp [IsClosed, htr, hobj]
    | some t => simp [IsClosed, htr, hobj, hf]
  · simp [IsClosed, htr]

/-- A new transport is open. -/
theorem isClosed_append {s : EventLoop K T} {tr : TransportId} {fd : Fd} {hasSock : Bool} :
    IsClosed { s with objs := s.objs ++ [Transport.new fd hasSock] } tr ↔ s.IsClosed tr := by
  show (∃ t, (s.objs ++ [Transport.new fd hasSock])[tr]? = some t ∧ _) ↔ _
  constructor
  · rintro ⟨t, ht, hclosed⟩
    obtain ht | ⟨-, rfl⟩ := History.concat_eq_some.mp ht
    · exact ⟨t, ht, hclosed⟩
    · cases hclosed
  · rintro ⟨t, ht, hclosed⟩
    exact ⟨t, History.getElem?_append_of_some ht _, hclosed⟩

theorem closing_append {objs : List Transport} {tr : TransportId} {fd : Fd} {hasSock : Bool}
    (h : ∀ t, objs[tr]? = some t → t.closed = true → t.closing = true) :
    ∀ t, (objs ++ [Transport.new fd hasSock])[tr]? = some t → t.closed = true → t.closing = true := by
  intro t ht hclosed
  obtain ht | ⟨-, rfl⟩ := History.concat_eq_some.mp ht
  · exact h t ht hclosed
  · cases hclosed

theorem closing_modify {objs : List Transport} {tr tr' : TransportId} {f : Transport → Transport}
    (hf : ∀ t, (t.closed = true → t.closing = true) → (f t).closed = true → (f t).closing = true)
    (h : ∀ t, objs[tr]? = some t → t.closed = true → t.closing = true) :
    ∀ t, (objs.modify tr' f)[tr]? = some t → t.closed = true → t.closing = true := by
  intro t ht
  rw [List.getElem?_modify] at ht
  rcases Option.map_eq_some_iff.mp ht with ⟨t₁, ht₁, rfl⟩
  by_cases htr : tr' = tr
  · simp only [htr, if_true]
    exact hf t₁ (h t₁ ht₁)
  · simp only [htr, if_false]
    exact h t₁ ht₁

/-- A transport whose `connection_lost` has been called is closing. -/
theorem EndKept.not_lost {s : EventLoop K T} {tr : TransportId} (hk : s.EndKept tr) {t₀ : Transport}
    (ht : s.objs[tr]? = some t₀) (hopen : t₀.closing = false) :
    s.log.any (TransportEvent.isLost tr) = false := by
  rw [← Bool.not_eq_true]
  intro hlost
  rcases hk.told hlost with ⟨t₁, ht₁, hclosed⟩
  have hclosing := hk.closing t₁ ht₁ hclosed
  rw [ht, Option.some_inj] at ht₁
  rw [← ht₁, hopen] at hclosing
  cases hclosing

section
variable [LE T] [DecidableLE T] {s₀ s t : EventLoop K T} {a : Act K T}

theorem NoLostCallback.move (hcb : s.NoLostCallback) (h : Move s₀ a s t) : t.NoLostCallback := by
  have hnew (callbacks : List (Handle K)) (hnone : ∀ tr exc, .callConnectionLost tr exc ∉ callbacks)
      (hfuts : t.futs = s.futs ++ [⟨.pending, callbacks⟩]) : t.NoLostCallback := by
    intro f hf tr exc hmem
    rw [hfuts] at hf
    rcases List.mem_append.mp hf with hf | hf
    · exact hcb f hf tr exc hmem
    · rw [List.mem_singleton.mp hf] at hmem
      exact hnone tr exc hmem
  have hsettled {fut : FutId} {state : FutState} (hfuts : t.futs = (settle s.futs fut state).1) :
      t.NoLostCallback := by
    intro f hf tr exc hmem
    rw [hfuts] at hf
    rcases settle_callbacks (.inr ⟨f, hf, hmem⟩) with ⟨f', hf', hmem'⟩
    exact hcb f' hf' tr exc hmem'
  have hforced {cause : TransportEvent} {exc : Option Exc} {tr : TransportId} {u : EventLoop K T}
      (hfuts : u.futs = s.futs) : (u.forceClose cause exc tr).NoLostCallback := by
    have hsame : (u.forceClose cause exc tr).futs = s.futs := by
      rw [← hfuts]
      unfold forceClose
      split
      · rfl
      · split <;> rfl
    rw [NoLostCallback, hsame]
    exact hcb
  cases h with
  | forced exc hcause => exact hforced rfl
  | disarmed tr exc => exact hforced rfl
  | armed env ht hidle =>
    rename_i tr t
    exact hnew [.onRecvComplete tr s.futs.length] (by simp) (by rw [submitNew_eq]; rfl)
  | wrote env ha ht hopen hdata =>
    rename_i tr t data
    exact hnew [.onWriteComplete tr s.futs.length] (by simp) (by rw [submitNew_eq])
  | submitted env fd kind? callbacks req hreq hkind hcallbacks hsend =>
    refine hnew (callbacks s.futs.length) (fun tr exc hmem => ?_) (by rw [submitNew_eq])
    cases hcallbacks _ _ hmem
  | cancelled fut huser => exact hsettled (by rw [setFuture_eq])
  | ioSettled hr hs₀ hsettles hfut => exact hsettled (by rw [setFuture_eq]; rfl)
  | drained hticks hmidway hcq =>
    intro f hf tr exc hmem
    rcases drainOne_callbacks.2 ⟨f, hf, hmem⟩ with ⟨f', hf', hmem'⟩
    exact hcb f' hf' tr exc hmem'
  | _ => exact hcb

omit [LE T] [DecidableLE T] in
/-- Writing other flags keeps the end. -/
theorem EndKept.modify {tr : TransportId} (hk : s.EndKept tr) (tr' : TransportId)
    (f : Transport → Transport) (hclosed : ∀ t, (f t).closed = t.closed)
    (hclosing : ∀ t, (f t).closing = t.closing) : (s.modify tr' f).EndKept tr := by
  have hiff : (s.modify tr' f).IsClosed tr ↔ s.IsClosed tr := isClosed_modify hclosed
  refine hk.of_same hiff (closing_modify ?_ hk.closing)
    (fun exc hmem => hiff.mpr (hk.queued exc hmem)) (List.append_nil _).symm (by simp)
  intro t
  rw [hclosed, hclosing]
  exact id

omit [LE T] [DecidableLE T] in
/-- `_force_close` schedules the call of `connection_lost`, once. -/
theorem EndKept.forceClose {tr tr' : TransportId} (hk : s.EndKept tr) {cause : TransportEvent}
    (exc : Option Exc) (hcause : cause.isForced tr') : (s.forceClose cause exc tr').EndKept tr := by
  cases ht : s.objs[tr']? with
  | none =>
    rw [forceClose_none ht]
    exact hk
  | some t₀ =>
    cases hclosed : t₀.closed with
    | true =>
      -- an error after the end
      have hin' : s.IsClosed tr' := ⟨t₀, ht, hclosed⟩
      rw [forceClose_closed ht hclosed]
      by_cases htr : tr' = tr
      · subst htr
        exact {
          forced := iff_of_true (by
            show (s.log ++ [cause]).any _ = true
            simp [hcause]) hin'
          closing := hk.closing
          scheduled := fun _ => by
            show (s.log ++ [cause]).count _ = 1
            rw [List.count_append, hk.scheduled hin', List.count_eq_zero.mpr]
            intro hmem
            rw [← List.mem_singleton.mp hmem] at hcause
            cases hcause
          unscheduled := fun hnot => absurd hin' hnot
          queued := hk.queued
          told := fun _ => hin' }
      · refine hk.of_same Iff.rfl hk.closing hk.queued rfl ?_
        rcases TransportEvent.isForced_iff.mp hcause with rfl | rfl <;>
          simp [TransportEvent.isForced, TransportEvent.isLost, htr]
    | false =>
      have hobj : (s.objs.modify tr' .setClosed)[tr']? = some t₀.setClosed := by simp [ht]
      rw [forceClose_open ht hclosed]
      by_cases htr : tr' = tr
      · subst htr
        have hout : ¬ s.IsClosed tr' := by
          rintro ⟨t, ht', hclosed'⟩
          rw [ht, Option.some_inj] at ht'
          rw [← ht', hclosed] at hclosed'
          cases hclosed'
        have hin : IsClosed { s with
            log := s.log ++ [cause, .lostScheduled tr']
            objs := s.objs.modify tr' .setClosed
            core := { s.core with
              scheduler := s.core.scheduler ++ [.callConnectionLost tr' exc] } } tr' :=
          ⟨t₀.setClosed, hobj, rfl⟩
        have hcause' : cause ≠ .lostScheduled tr' := by
          rintro rfl
          cases hcause
        exact {
          forced := iff_of_true (by simp [hcause]) hin
          closing := closing_modify (fun _ _ _ => rfl) hk.closing
          scheduled := fun _ => by
            simp [List.count_append, hk.unscheduled hout, hcause']
          unscheduled := fun hnot => absurd hin hnot
          queued := fun _ _ => hin
          told := fun _ => hin }
      · have hiff : IsClosed { s with
            log := s.log ++ [cause, .lostScheduled tr']
            objs := s.objs.modify tr' .setClosed
            core := { s.core with
              scheduler := s.core.scheduler ++ [.callConnectionLost tr' exc] } } tr ↔
            s.IsClosed tr := by
          show (∃ t, (s.objs.modify tr' .setClosed)[tr]? = some t ∧ _) ↔ _
          rw [List.getElem?_modify]
          simp [htr, IsClosed]
        refine hk.of_same hiff (closing_modify (fun _ _ _ => rfl) hk.closing) ?_ rfl ?_
        · intro exc' hmem
          refine hiff.mpr (hk.queued exc' ?_)
          simp only [EventLoop.queued, List.mem_append, List.mem_singleton,
            Handle.callConnectionLost.injEq] at hmem ⊢
          rcases hmem with (hmem | ⟨rfl, -⟩) | hmem
          · exact .inl hmem
          · exact absurd rfl htr
          · exact .inr hmem
        · rcases TransportEvent.isForced_iff.mp hcause with rfl | rfl <;>
            simp [TransportEvent.isForced, TransportEvent.isLost, htr]

theorem EndKept.move {tr : TransportId} (hs : s.CoreSound) (hcb : s.NoLostCallback)
    (hk : s.EndKept tr) (h : Move s₀ a s t) : t.EndKept tr := by
  -- a queued handle is an old one, or its transport has just been closed
  have hqueued (hmono : s.IsClosed tr → t.IsClosed tr) (exc : Option Exc)
      (hmem : .callConnectionLost tr exc ∈ t.queued) : t.IsClosed tr := by
    rcases h.queued hs hmem with hmem | huser | ⟨f, hf, hmem⟩ | ⟨tr', exc', t', heq, ht', hclosed⟩
    · exact hmono (hk.queued exc hmem)
    · cases huser
    · exact absurd hmem (hcb f hf tr exc)
    · cases heq
      exact ⟨t', ht', hclosed⟩
  have hsame (es : List TransportEvent) (hobjs : t.objs = s.objs) (hlog : t.log = s.log ++ es)
      (hes : ∀ e ∈ es, e.isForced tr = false ∧ e.isLost tr = false ∧ e ≠ .lostScheduled tr) :
      t.EndKept tr := by
    have hclosed : t.IsClosed tr ↔ s.IsClosed tr := by rw [IsClosed, IsClosed, hobjs]
    exact hk.of_same hclosed (by rw [hobjs]; exact hk.closing) (hqueued hclosed.mpr) hlog hes
  have hmodified (tr' : TransportId) (f : Transport → Transport) (hclosed : ∀ t, (f t).closed = t.closed)
      (hclosing : ∀ t, (f t).closing = t.closing) (hobjs : t.objs = s.objs.modify tr' f)
      (hlog : t.log = s.log) : t.EndKept tr := by
    have hiff : t.IsClosed tr ↔ s.IsClosed tr := by
      rw [IsClosed, hobjs]
      exact isClosed_modify hclosed
    refine hk.of_same hiff ?_ (hqueued hiff.mpr) (by rw [hlog, List.append_nil]) (by simp)
    rw [hobjs]
    refine closing_modify ?_ hk.closing
    intro t
    rw [hclosed, hclosing]
    exact id
  cases h with
  | lost hbatch ha =>
    rename_i tr' exc rest
    have hclosed : IsClosed (callConnectionLost tr' exc { s with batch := rest }) tr ↔
        s.IsClosed tr := Iff.rfl
    by_cases htr : tr' = tr
    · subst htr
      have hin : s.IsClosed tr' := by
        refine hk.queued exc (List.mem_append_right _ ?_)
        rw [hbatch]
        exact List.mem_cons_self
      exact {
        forced := by
          show (s.log ++ [_]).any _ ↔ _
          rw [List.any_append, hclosed, ← hk.forced]
          simp [TransportEvent.isForced]
        closing := hk.closing
        scheduled := fun _ => by
          show (s.log ++ [_]).count _ = 1
          rw [List.count_append, hk.scheduled hin]
          simp
        unscheduled := fun hnot => absurd hin hnot
        queued := hqueued id
        told := fun _ => hin }
    · exact hsame _ rfl rfl (by simp [TransportEvent.isForced, TransportEvent.isLost, htr])
  | forced exc hcause => exact hk.forceClose exc hcause
  | disarmed tr' exc =>
    have hopen := hk.modify tr' (.setRecvPending false) (fun _ => rfl) fun _ => rfl
    have hcause : (TransportEvent.errored tr').isForced tr' := by simp [TransportEvent.isForced]
    exact hopen.forceClose (some exc) hcause
  | closed hcause ht =>
    rename_i tr' t₀ cause
    have hiff : IsClosed ((s.note cause).modify tr' .setClosing) tr ↔ s.IsClosed tr :=
      isClosed_modify fun _ => rfl
    refine hk.of_same hiff ?_ (hqueued hiff.mpr) rfl ?_
    · exact closing_modify (fun _ _ _ => rfl) hk.closing
    · rcases TransportEvent.isClose_iff.mp hcause with rfl | rfl <;>
        simp [TransportEvent.isForced, TransportEvent.isLost]
  | flagged tr' hf hpaused hsize => exact hmodified tr' _ hf.closed hf.closing rfl rfl
  | received hruns hbatch => exact hmodified _ (.setRecvPending false) (fun _ => rfl) (fun _ => rfl) rfl rfl
  | armed env ht hidle =>
    exact hmodified _ (.setRecvPending true) (fun _ => rfl) (fun _ => rfl)
      (by rw [submitNew_eq]; rfl) (by rw [submitNew_eq]; rfl)
  | made fd creator =>
    refine hk.of_same isClosed_append ?_ (hqueued isClosed_append.mpr) rfl
      (by simp [TransportEvent.isForced, TransportEvent.isLost])
    exact closing_append hk.closing
  | constructed fd =>
    exact hk.of_same isClosed_append (closing_append hk.closing) (hqueued isClosed_append.mpr)
      (List.append_nil _).symm (by simp)
  | data hruns ht hopen =>
    exact hsame _ rfl rfl (by simp [TransportEvent.isForced, TransportEvent.isLost])
  | eof handler h => exact hsame _ rfl rfl (by simp [TransportEvent.isForced, TransportEvent.isLost])
  | flow frame he haccounts =>
    refine hsame _ rfl rfl ?_
    rcases he with rfl | rfl <;> simp [TransportEvent.isForced, TransportEvent.isLost]
  | wrote env ha ht hopen hdata =>
    exact hsame [] (by rw [submitNew_eq]) (by rw [submitNew_eq, List.append_nil]) (by simp)
  | submitted env fd kind? callbacks req hreq hkind hcallbacks hsend =>
    exact hsame [] (by rw [submitNew_eq]) (by rw [submitNew_eq, List.append_nil]) (by simp)
  | cancelled fut huser =>
    exact hsame [] (by rw [setFuture_eq]) (by rw [setFuture_eq, List.append_nil]) (by simp)
  | ioSettled hr hs₀ hsettles hfut =>
    exact hsame [] (by rw [setFuture_eq]; rfl)
      (by rw [setFuture_eq, List.append_nil]; rfl) (by simp)
  | drained hticks hmidway hcq =>
    exact hsame [] (by rw [drainOne_eq]) (by rw [drainOne_eq, List.append_nil]) (by simp)
  | _ => exact hsame [] rfl (List.append_nil _).symm (by simp)

omit [LE T] [DecidableLE T] in
theorem forceClose_log (cause : TransportEvent) (exc : Option Exc) (tr' : TransportId)
    (s : EventLoop K T) (hcause : cause.isForced tr') : ∃ es,
      (s.forceClose cause exc tr').log = s.log ++ es ∧ ∀ e ∈ es, ∀ tr, e.isReading tr = false := by
  have hquiet : ∀ tr, cause.isReading tr = false := by
    rcases TransportEvent.isForced_iff.mp hcause with rfl | rfl <;> exact fun _ => rfl
  cases ht : s.objs[tr']? with
  | none => exact ⟨[], by rw [forceClose_none ht, List.append_nil], by simp⟩
  | some t₀ =>
    cases hclosed : t₀.closed with
    | true => exact ⟨[cause], by rw [forceClose_closed ht hclosed]; rfl, by simpa using hquiet⟩
    | false =>
      refine ⟨[cause, .lostScheduled tr'], by rw [forceClose_open ht hclosed], ?_⟩
      intro e he tr
      rcases List.mem_cons.mp he with rfl | he
      · exact hquiet tr
      · rw [List.mem_singleton.mp he]
        rfl

/-- What a move reads to the protocol of `tr`: nothing, or one event of a transport that is not
closing or that the fallback is for. -/
theorem Move.log (h : Move s₀ a s t) (tr : TransportId) :
    ∃ es, t.log = s.log ++ es ∧ ((∀ e ∈ es, e.isReading tr = false) ∨
      (∃ e, es = [e]) ∧ ((∃ t₀, s.objs[tr]? = some t₀ ∧ t₀.closing = false) ∨
        s₀.eofFallback a = some tr ∧ s.log = s₀.log)) := by
  have hnone (hlog : t.log = s.log) : ∃ es, t.log = s.log ++ es ∧
      ((∀ e ∈ es, e.isReading tr = false) ∨
        (∃ e, es = [e]) ∧ ((∃ t₀, s.objs[tr]? = some t₀ ∧ t₀.closing = false) ∨
          s₀.eofFallback a = some tr ∧ s.log = s₀.log)) :=
    ⟨[], by rw [hlog, List.append_nil], .inl (by simp)⟩
  cases h with
  | lost hbatch ha => exact ⟨_, rfl, .inl (by simp [TransportEvent.isReading])⟩
  | forced exc hcause =>
    rcases forceClose_log _ exc _ s hcause with ⟨es, hes, hquiet⟩
    exact ⟨es, hes, .inl fun e he => hquiet e he tr⟩
  | disarmed tr' exc =>
    have hcause : (TransportEvent.errored tr').isForced tr' := by simp [TransportEvent.isForced]
    rcases forceClose_log _ (some exc) _ (s.modify tr' (.setRecvPending false)) hcause with
      ⟨es, hes, hquiet⟩
    exact ⟨es, hes, .inl fun e he => hquiet e he tr⟩
  | closed hcause ht =>
    rename_i tr' t₀ cause
    refine ⟨[cause], rfl, .inl ?_⟩
    rcases TransportEvent.isClose_iff.mp hcause with rfl | rfl <;> simp [TransportEvent.isReading]
  | data hruns ht hopen =>
    rename_i tr' t₀ fut v
    refine ⟨_, rfl, ?_⟩
    by_cases htr : tr' = tr
    · subst htr
      exact .inr ⟨⟨_, rfl⟩, .inl ⟨t₀, ht, hopen⟩⟩
    · exact .inl (by simp [TransportEvent.isReading, htr])
  | eof handler h =>
    rename_i tr'
    refine ⟨_, rfl, ?_⟩
    by_cases htr : tr' = tr
    · subst htr
      exact .inr ⟨⟨_, rfl⟩, h⟩
    · exact .inl (by simp [TransportEvent.isReading, htr])
  | flow frame he haccounts =>
    refine ⟨_, rfl, .inl ?_⟩
    rcases he with rfl | rfl <;> simp [TransportEvent.isReading]
  | made fd creator => exact ⟨_, rfl, .inl (by simp [TransportEvent.isReading])⟩
  | armed env ht hidle => exact hnone (by rw [submitNew_eq]; rfl)
  | wrote env ha ht hopen hdata => exact hnone (by rw [submitNew_eq])
  | submitted env fd kind? callbacks req hreq hkind hcallbacks hsend => exact hnone (by rw [submitNew_eq])
  | cancelled fut huser => exact hnone (by rw [setFuture_eq])
  | ioSettled hr hs₀ hsettles hfut => exact hnone (by rw [setFuture_eq]; rfl)
  | drained hticks hmidway hcq => exact hnone (by rw [drainOne_eq])
  | _ => exact hnone rfl

/-- What every state of a run keeps of the ends of its transports. -/
structure EndsKept (s : EventLoop K T) : Prop where
  core : s.CoreSound
  callbacks : s.NoLostCallback
  ends : ∀ tr, s.EndKept tr

theorem EndsKept.move (hk : s.EndsKept) (h : Move s₀ a s t) : t.EndsKept where
  core := hk.core.move h
  callbacks := hk.callbacks.move h
  ends tr := (hk.ends tr).move hk.core hk.callbacks h

/-- The fallback reads one EOF. -/
theorem eofFallback_log {tr : TransportId} (hstep : s.step a = some t)
    (h : s.eofFallback a = some tr) : t.log = s.log ++ [.eofReceived tr] := by
  unfold eofFallback at h
  split at h
  · split at h
    · rename_i r rest hresults
      split at h
      · rename_i hr
        rcases hr with ⟨hop, hzero, hio⟩
        obtain ⟨r', rest', -, -, hresults', rfl⟩ := step_handle.mp hstep
        rw [hresults] at hresults'
        cases hresults'
        have hio : s.ioFutures.lookup (r.fd, .recv) = none := hio
        have hhandle : handle r { s with results := rest } =
            handleRecvCompletion r.fd r.result r.data { s with results := rest } := by
          rcases hop with hop | hop <;> simp [handle, hop]
        rw [hhandle]
        simp [handleRecvCompletion, hzero, ioLookup, hio, h, eofReceived, callProtocol, popIo]
      · cases h
    · cases h
  · cases h

/-- One step reads nothing too late exactly if it hands no late EOF to a protocol. -/
theorem noneAfterLost_step_iff (hk : s.EndsKept) (hstep : s.step a = some t) :
    t.EndsKept ∧ ((∀ tr, NoneAfterLost tr t.log) ↔
      (∀ tr, NoneAfterLost tr s.log) ∧ s.NoLateEof a) := by
  have hmoves := step_moves hstep
  refine ⟨hmoves.rule (fun _ _ => EndsKept.move) hk, ?_⟩
  constructor
  · intro h
    have hlog : ∃ es, t.log = s.log ++ es := by
      refine (hmoves.rule (I := fun u => u.CoreSound ∧ ∃ es, u.log = s.log ++ es) ?_
        ⟨hk.core, [], by simp⟩).2
      rintro u v ⟨hu, es, hes⟩ hmove
      rcases hmove.log 0 with ⟨es', hes', -⟩
      exact ⟨hu.move hmove, es ++ es', by rw [hes', hes, List.append_assoc]⟩
    rcases hlog with ⟨es, hes⟩
    refine ⟨fun tr => NoneAfterLost.of_append (hes ▸ h tr), fun tr htr => ?_⟩
    have hlast := h tr
    rw [eofFallback_log hstep htr, noneAfterLost_append] at hlast
    exact hlast.2 (by simp [TransportEvent.isReading])
  · rintro ⟨hnone, hlate⟩
    refine (hmoves.rule (I := fun u => u.EndsKept ∧ ∀ tr, NoneAfterLost tr u.log) ?_ ⟨hk, hnone⟩).2
    rintro u v ⟨hu, hnone⟩ hmove
    refine ⟨hu.move hmove, fun tr => ?_⟩
    rcases hmove.log tr with ⟨es, hes, hquiet | ⟨⟨e, rfl⟩, hread⟩⟩
    · rw [hes]
      exact NoneAfterLost.append (hnone tr) hquiet
    · rw [hes, noneAfterLost_append]
      refine ⟨hnone tr, fun _ => ?_⟩
      rcases hread with ⟨t₀, ht, hopen⟩ | ⟨hfallback, hlog⟩
      · exact (hu.ends tr).not_lost ht hopen
      · rw [hlog]
        exact hlate tr hfallback

omit [LE T] [DecidableLE T] in
theorem endsKept_init {setup : Setup} {bufferSize bufferCount : Nat}
    {core : UringCore FutId (Handle K) T}
    (hnew : UringCore.new setup bufferSize bufferCount = .ok core) : (init core).EndsKept where
  core := coreSound_init hnew
  callbacks := by simp [NoLostCallback, init]
  ends tr := by
    have hscheduler : core.scheduler = [] := by
      rcases UringCore.new_spec hnew with ⟨entries, pool, -, rfl⟩
      rfl
    have hopen : ¬ (init core).IsClosed tr := by simp [IsClosed, init]
    exact {
      forced := iff_of_false (by simp [init]) hopen
      closing := by simp [init]
      scheduled := fun h => absurd h hopen
      unscheduled := fun _ => rfl
      queued := by simp [EventLoop.queued, init, hscheduler]
      told := by simp [init] }

/-- **`connection_lost`.** In a run of the loop every transport that has ended has `connection_lost`
scheduled exactly once, and nothing is read to its protocol after it, if and only if none has ended
by `close` alone and no step hands an EOF to a protocol that was told of the loss. -/
theorem connection_lost_iff {setup : Setup} {bufferSize bufferCount : Nat}
    {core : UringCore FutId (Handle K) T} (hnew : UringCore.new setup bufferSize bufferCount = .ok core)
    {acts : List (Act K T)} {t : EventLoop K T} (hrun : machine.run (init core) acts = some t) :
    (∀ tr, ToldOnce tr t.log) ↔
      (∀ tr, t.log.any (TransportEvent.isEnd tr) → t.log.any (TransportEvent.isForced tr)) ∧
        machine.Meets NoLateEof (init core) acts := by
  have hkept := endsKept_init hnew
  have hread := Machine.holds_iff_meets (M := machine) (P := fun s => ∀ tr, NoneAfterLost tr s.log)
    (fun s a t hk hstep => noneAfterLost_step_iff hk hstep) hkept hrun
  have hend : t.EndsKept := Machine.run_invariant' (M := machine)
    (fun s a t hk hstep => (noneAfterLost_step_iff hk hstep).1) hkept hrun
  have hread : (∀ tr, NoneAfterLost tr t.log) ↔ machine.Meets NoLateEof (init core) acts := by
    rw [hread]
    exact and_iff_right fun tr => NoneAfterLost.nil tr
  have honce (tr : TransportId) : (t.log.any (TransportEvent.isEnd tr) → t.log.count (.lostScheduled tr) = 1) ↔
      (t.log.any (TransportEvent.isEnd tr) → t.log.any (TransportEvent.isForced tr)) := by
    have hk := hend.ends tr
    refine imp_congr_right fun _ => ?_
    rw [hk.forced]
    constructor
    · intro hcount
      by_contra hnot
      rw [hk.unscheduled hnot] at hcount
      cases hcount
    · exact hk.scheduled
  simp only [ToldOnce, forall_and, hread, honce]

end

/-- A connection is made and aborted; the next tick calls `connection_lost`. -/
def abortRun : List (Act Unit Nat) :=
  [.call (.createConnection 5) ⟨0, .ok 1⟩, .ret (.value true) ⟨0, .ok 1⟩, .call (.abort 0) ⟨0, .ok 1⟩,
    .startTick 0 (.ok 0), .runHandle, .ret (.value true) ⟨0, .ok 1⟩]

def abortLog : List TransportEvent := [.created 0, .abortCalled 0, .lostScheduled 0, .connectionLost 0 none]

theorem connection_lost_aborted :
    ∃ core t, UringCore.new Setup.plain 16 2 = .ok core ∧
      machine.run (init core) abortRun = some t ∧ ∀ tr, ToldOnce tr t.log :=
  ⟨_, _, rfl, rfl, (connection_lost_iff (show UringCore.new Setup.plain 16 2 = .ok _ from rfl)
    (show machine.run _ abortRun = some _ from rfl)).mpr
      ⟨show ∀ tr, abortLog.any (TransportEvent.isEnd tr) = true → abortLog.any (TransportEvent.isForced tr) = true by
        simp [abortLog, TransportEvent.isEnd, TransportEvent.isClose], by decide⟩⟩

/-- A connection is made and closed: nothing will ever call `connection_lost`. -/
theorem not_told_closed :
    ∃ core t, UringCore.new Setup.plain 16 2 = .ok core ∧
      machine.run (init core : EventLoop Unit Nat) [.call (.createConnection 5) ⟨0, .ok 1⟩,
        .ret (.value true) ⟨0, .ok 1⟩, .call (.close 0) ⟨0, .ok 1⟩] = some t ∧
      t.log.any (TransportEvent.isEnd 0) = true ∧ t.log.count (.lostScheduled 0) = 0 ∧
      t.core.scheduler = [] ∧ t.batch = [] :=
  ⟨_, _, rfl, rfl, rfl, rfl, rfl, rfl⟩

end EventLoop

end Uringcore
