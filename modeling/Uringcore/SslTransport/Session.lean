import Mathlib.Data.List.Induction
import Uringcore.SslTransport.Telling

/-!
# What the application hears over TLS

`SSLTransport` with its ways to an end. `close` unwraps the SSL object and closes the base transport;
`_force_close` closes the base transport and schedules the application's `connection_lost`, unless the one
or the other raises. The base transport reports its own end to `_SSLProtocol`, which passes it on to the
application as it is. Nothing brings the two reports together, and reads do not ask whether the transport
is closed.

* `heard_in_order_iff` — when the application hears of the connection, its data and its end in this order.
* `lost_count` — how often it hears of the end.
-/

namespace Uringcore

structure TlsSession (S : Type) where
  tls : SslTransport S
  /-- `call_soon` takes what it is given. -/
  accepts : Bool
  /-- The calls of `connection_lost` that `_force_close` has scheduled. -/
  scheduled : Nat
  /-- A history of what the application was told. -/
  calls : List TlsCall
  deriving DecidableEq, Repr

namespace TlsSession
variable {S : Type}

def new (ssl : S) : TlsSession S := ⟨.init ssl, true, 0, []⟩

/-- A step of the transport's own. Where it closes the transport it has gone through `_force_close`, which
may stop at the `close` of the base transport or at `call_soon`. -/
def after (y : SslTransport S) (baseRaises : Bool) (s : TlsSession S) : TlsSession S :=
  { s with
    tls := y
    scheduled := s.scheduled + if !s.tls.closed && y.closed && !baseRaises && s.accepts then 1 else 0
    calls := s.calls ++ s.tls.heard y }

/-- `close`. What `unwrap` has written stays in the BIO if it raises, as it does where the peer has not
said goodbye yet. -/
def close (unwrap : S → Bytes → SslReply S Unit) (baseRaises : Bool) (s : TlsSession S) : TlsSession S :=
  if s.tls.closing then s
  else
    let r := unwrap s.tls.ssl s.tls.incoming
    let x := { s.tls with closing := true }.absorb r
    let x := match r.report with
      | .done _ => x.flushOutgoing
      | .wantRead | .wantWrite | .error => x
    { s with tls := { x with baseClosed := true, closed := !baseRaises } }

def hear (call : TlsCall) (s : TlsSession S) : TlsSession S := { s with calls := s.calls ++ [call] }

inductive Act where
  | tls (a : SslTransport.Act) (baseRaises : Bool)
  | close (baseRaises : Bool)
  /-- `abort`. -/
  | abort (baseRaises : Bool)
  /-- The loop calls what `_force_close` has scheduled. -/
  | runScheduled
  /-- `connection_lost` of `_SSLProtocol`. -/
  | baseLost
  /-- `call_soon` raises in debug mode and on a closed loop. -/
  | setAccepts (accepts : Bool)

def Act.isBaseLost : Act → Bool
  | .baseLost => true
  | .tls .. | .close _ | .abort _ | .runScheduled | .setAccepts _ => false

variable (obj : SslObject S) (unwrap : S → Bytes → SslReply S Unit)

def step (s : TlsSession S) : Act → Option (TlsSession S)
  | .tls a baseRaises => (s.tls.step obj a).map fun y => s.after y baseRaises
  -- the application runs between the calls or in one of its own
  | .close baseRaises => if s.tls.pc ≠ .reading then some (s.close unwrap baseRaises) else none
  | .abort baseRaises => if s.tls.pc ≠ .reading then some (s.after s.tls.forceClose baseRaises) else none
  | .runScheduled =>
      if s.tls.pc = .idle ∧ 0 < s.scheduled then
        some ({ s with scheduled := s.scheduled - 1 }.hear (.connectionLost true))
      else none
  | .baseLost => if s.tls.pc = .idle then some (s.hear (.connectionLost false)) else none
  | .setAccepts accepts => some { s with accepts := accepts }

def machine : Machine (TlsSession S) Act := ⟨step obj unwrap⟩

/-! ## In order -/

/-- What an application waits for. -/
inductive Expects where
  | connection
  | data
  | nothing
  deriving DecidableEq, Repr

/-- `none`: it has heard something else. -/
def expect : Option Expects → TlsCall → Option Expects
  | some .connection, .connectionMade => some .data
  | some .data, .dataReceived _ => some .data
  | some .data, .connectionLost _ => some .nothing
  | _, _ => none

def phase (calls : List TlsCall) : Option Expects := calls.foldl expect (some .connection)

/-- The connection, then its data, then its end. -/
def InOrder (calls : List TlsCall) : Prop := (phase calls).isSome = true

def lostTold (s : TlsSession S) : Bool := s.calls.any TlsCall.isLost

/-- The steps that keep the order: nothing is decrypted after the end, and the end comes once and after the
handshake. -/
def KeepsOrder (s : TlsSession S) : Act → Prop
  | .tls a _ => s.tls.tells obj a = true → s.lostTold = false
  | .runScheduled | .baseLost => s.tls.handshakeComplete = true ∧ s.lostTold = false
  | .close _ | .abort _ | .setAccepts _ => True

instance (s : TlsSession S) : ∀ a, Decidable (s.KeepsOrder obj a)
  | .tls .. => inferInstanceAs (Decidable (_ → _))
  | .runScheduled | .baseLost => inferInstanceAs (Decidable (_ ∧ _))
  | .close _ | .abort _ | .setAccepts _ => .isTrue trivial

/-- What an application waits for that has heard everything in order. -/
def expected (s : TlsSession S) : Expects :=
  if s.tls.handshakeComplete then if s.lostTold then .nothing else .data else .connection

structure Coherent (s : TlsSession S) : Prop where
  completed : s.tls.Completed
  told : s.calls.flatMap TlsCall.data = s.tls.delivered
  expected : ∀ e, phase s.calls = some e → e = s.expected

variable {obj unwrap} {s t : TlsSession S}

theorem phase_concat (calls : List TlsCall) (call : TlsCall) :
    phase (calls ++ [call]) = expect (phase calls) call := by
  rw [phase, List.foldl_append]
  rfl

/-- One more call is in order if it is what was waited for. -/
theorem inOrder_concat {calls : List TlsCall} {e : Expects} (h : ∀ e', phase calls = some e' → e' = e)
    (call : TlsCall) :
    InOrder (calls ++ [call]) ↔ InOrder calls ∧ (expect (some e) call).isSome = true := by
  rw [InOrder, InOrder, phase_concat]
  cases hphase : phase calls with
  | none => simp [expect]
  | some e' =>
    obtain rfl := h e' hphase
    simp

/-- Nothing but the first call is heard first. -/
theorem eq_nil_of_phase {calls : List TlsCall} (h : phase calls = some .connection) : calls = [] := by
  obtain rfl | ⟨init, call, rfl⟩ := List.eq_nil_or_concat calls
  · rfl
  · rw [List.concat_eq_append, phase_concat] at h
    unfold expect at h
    split at h <;> cases h

theorem lostTold_concat (calls : List TlsCall) (call : TlsCall) :
    (calls ++ [call]).any TlsCall.isLost = (calls.any TlsCall.isLost || call.isLost) := by
  simp [List.any_append]

/-- The calls stay, and so does what they are compared with. -/
theorem Coherent.silent (h : s.Coherent) (hcompleted : t.tls.Completed) (hcalls : t.calls = s.calls)
    (hcomplete : t.tls.handshakeComplete = s.tls.handshakeComplete)
    (hdelivered : t.tls.delivered = s.tls.delivered) : t.Coherent where
  completed := hcompleted
  told := by rw [hcalls, hdelivered, h.told]
  expected e he := by
    rw [hcalls] at he
    rw [h.expected e he, TlsSession.expected, TlsSession.expected, lostTold, lostTold, hcalls, hcomplete]

/-- One more call is told. -/
theorem Coherent.concat (h : s.Coherent) {call : TlsCall} (hcalls : t.calls = s.calls ++ [call])
    (hcompleted : t.tls.Completed) (hdelivered : t.tls.delivered = s.tls.delivered ++ call.data)
    (hexpected : ∀ e, phase s.calls = some s.expected → expect (some s.expected) call = some e →
      e = t.expected) :
    t.Coherent ∧
      (InOrder t.calls ↔ InOrder s.calls ∧ (expect (some s.expected) call).isSome = true) := by
  refine ⟨⟨hcompleted, ?_, fun e he => ?_⟩, ?_⟩
  · rw [hcalls, hdelivered, List.flatMap_append, h.told, List.flatMap_singleton]
  · rw [hcalls, phase_concat] at he
    cases hphase : phase s.calls with
    | none =>
      rw [hphase] at he
      cases he
    | some e' =>
      have he' := h.expected e' hphase
      rw [he'] at hphase
      rw [hphase] at he
      exact hexpected e hphase he
  · rw [hcalls]
    exact inOrder_concat h.expected call

/-- The end is told. -/
theorem Coherent.lost (h : s.Coherent) {forced : Bool}
    (hcalls : t.calls = s.calls ++ [.connectionLost forced]) (htls : t.tls = s.tls) :
    t.Coherent ∧
      (InOrder t.calls ↔ InOrder s.calls ∧ s.tls.handshakeComplete = true ∧ s.lostTold = false) := by
  have hlost : t.lostTold = true := by
    rw [lostTold, hcalls, lostTold_concat, TlsCall.isLost, Bool.or_true]
  have hdelivered : t.tls.delivered = s.tls.delivered ++ [] := by rw [htls, List.append_nil]
  have hcompleted : t.tls.Completed := by
    rw [htls]
    exact h.completed
  have hfits : (expect (some s.expected) (.connectionLost forced)).isSome = true ↔
      s.tls.handshakeComplete = true ∧ s.lostTold = false := by
    unfold TlsSession.expected
    split
    · split <;> simp [expect, *]
    · simp [expect, *]
  rw [← hfits]
  refine h.concat hcalls hcompleted hdelivered fun e _ he => ?_
  have hcomplete : t.tls.handshakeComplete = true := by
    rw [htls]
    exact (hfits.mp (by rw [he]; rfl)).1
  rw [TlsSession.expected, hcomplete, hlost]
  cases hs : s.expected <;> rw [hs] at he <;> cases he
  rfl

/-- A step of the transport itself. -/
theorem Coherent.tls (h : s.Coherent) {y : SslTransport S} {b : Bool} (hcompleted : y.Completed)
    (htelling : s.tls.Telling y b) (htls : t.tls = y) (hcalls : t.calls = s.calls ++ s.tls.heard y) :
    t.Coherent ∧ (InOrder t.calls ↔ InOrder s.calls ∧ (b = true → s.lostTold = false)) := by
  subst htls
  cases htelling with
  | silent hheard hcomplete hdelivered =>
    rw [hheard, List.append_nil] at hcalls
    refine ⟨h.silent hcompleted hcalls hcomplete hdelivered, ?_⟩
    rw [hcalls]
    simp
  | made hheard hbefore hcomplete hdelivered =>
    rw [hheard] at hcalls
    have hs : s.expected = .connection := by simp [TlsSession.expected, hbefore]
    have hnone (hphase : phase s.calls = some .connection) : s.lostTold = false := by
      rw [lostTold, eq_nil_of_phase hphase]
      rfl
    have hspec := h.concat hcalls hcompleted (hdelivered.trans (List.append_nil _).symm) fun e hphase he => by
      rw [hs] at hphase he
      cases he
      rw [TlsSession.expected, hcomplete, lostTold, hcalls, lostTold_concat]
      rw [lostTold] at hnone
      rw [hnone hphase]
      rfl
    refine ⟨hspec.1, hspec.2.trans (and_congr_right fun horder => iff_of_true ?_ fun _ => ?_)⟩
    · rw [hs]
      rfl
    · obtain ⟨e, he⟩ := Option.isSome_iff_exists.mp horder
      obtain rfl := (h.expected e he).trans hs
      exact hnone he
  | data data hheard hbefore hcomplete hdelivered =>
    rw [hheard] at hcalls
    have hlost : t.lostTold = s.lostTold := by
      rw [lostTold, hcalls, lostTold_concat, TlsCall.isLost, Bool.or_false, lostTold]
    have hspec := h.concat hcalls hcompleted hdelivered fun e _ he => by
      rw [TlsSession.expected, hcomplete, hlost]
      rw [TlsSession.expected, hbefore] at he
      cases hs : s.lostTold <;> rw [hs] at he <;> cases he
      rfl
    refine ⟨hspec.1, hspec.2.trans (and_congr_right fun _ => ?_)⟩
    rw [TlsSession.expected, hbefore]
    cases s.lostTold <;> simp [expect]

variable (unwrap) in
theorem close_same (baseRaises : Bool) (s : TlsSession S) :
    (s.close unwrap baseRaises).tls.pc = s.tls.pc ∧
    (s.close unwrap baseRaises).tls.handshakeComplete = s.tls.handshakeComplete ∧
    (s.close unwrap baseRaises).tls.delivered = s.tls.delivered ∧
    (s.close unwrap baseRaises).calls = s.calls := by
  unfold close
  split
  · exact ⟨rfl, rfl, rfl, rfl⟩
  · dsimp only
    split <;> exact ⟨rfl, rfl, rfl, rfl⟩

theorem order_step {a : Act} (h : s.Coherent) (hstep : s.step obj unwrap a = some t) :
    t.Coherent ∧ (InOrder t.calls ↔ InOrder s.calls ∧ s.KeepsOrder obj a) := by
  cases a with
  | tls a baseRaises =>
    obtain ⟨y, hy, rfl⟩ := Option.map_eq_some_iff.mp hstep
    obtain ⟨hcompleted, htelling⟩ := SslTransport.step_telling h.completed hy
    exact h.tls hcompleted htelling rfl rfl
  | close baseRaises =>
    obtain ⟨-, ht⟩ := Option.ite_none_right_eq_some.mp hstep
    cases ht
    obtain ⟨hpc, hcomplete, hdelivered, hcalls⟩ := close_same unwrap baseRaises s
    have hcompleted : (s.close unwrap baseRaises).tls.Completed := by
      intro hne
      rw [hpc] at hne
      exact hcomplete.trans (h.completed hne)
    rw [hcalls]
    exact ⟨h.silent hcompleted hcalls hcomplete hdelivered, (and_iff_left trivial).symm⟩
  | abort baseRaises =>
    obtain ⟨-, ht⟩ := Option.ite_none_right_eq_some.mp hstep
    cases ht
    have hpc : s.tls.forceClose.pc = s.tls.pc := by simp
    have hcalls : (s.after s.tls.forceClose baseRaises).calls = s.calls := by
      rw [after, SslTransport.heard_of_pc_eq hpc, List.append_nil]
    rw [hcalls]
    refine ⟨h.silent ?_ hcalls ?_ ?_, (and_iff_left trivial).symm⟩
    · intro hne
      simp only [after, SslTransport.forceClose_eq] at hne ⊢
      exact h.completed hne
    · simp [after]
    · simp [after]
  | runScheduled =>
    obtain ⟨-, ht⟩ := Option.ite_none_right_eq_some.mp hstep
    cases ht
    exact h.lost rfl rfl
  | baseLost =>
    obtain ⟨-, ht⟩ := Option.ite_none_right_eq_some.mp hstep
    cases ht
    exact h.lost rfl rfl
  | setAccepts accepts =>
    cases hstep
    exact ⟨h.silent h.completed rfl rfl rfl, (and_iff_left trivial).symm⟩

theorem Coherent.of_new (ssl : S) : (new ssl).Coherent := by
  refine ⟨fun hne => absurd rfl hne, rfl, fun e he => ?_⟩
  cases he
  rfl

theorem Coherent.run {acts : List Act} (h : s.Coherent) (hrun : (machine obj unwrap).run s acts = some t) :
    t.Coherent :=
  Machine.run_invariant' (M := machine obj unwrap) (fun _ _ _ hs hu => (order_step hs hu).1) h hrun

theorem inOrder_run {acts : List Act} (h : s.Coherent) (hrun : (machine obj unwrap).run s acts = some t) :
    InOrder t.calls ↔
      InOrder s.calls ∧ (machine obj unwrap).Meets (fun s a => s.KeepsOrder obj a) s acts :=
  Machine.holds_iff_meets (M := machine obj unwrap) (fun _ _ _ hs hu => order_step hs hu) h hrun

/-! ## How often -/

variable (obj) in
/-- `_force_close` is called on an open transport, and schedules. -/
def schedules (s : TlsSession S) : Act → Bool
  | .tls a baseRaises => !s.tls.closed && s.tls.forces obj a && !baseRaises && s.accepts
  | .abort baseRaises => !s.tls.closed && !baseRaises && s.accepts
  | .close _ | .runScheduled | .baseLost | .setAccepts _ => false

/-- The ends the application has heard of, and will. -/
def ends (s : TlsSession S) : Nat := s.calls.countP TlsCall.isLost + s.scheduled

theorem countP_heard (x y : SslTransport S) : (x.heard y).countP TlsCall.isLost = 0 := by
  unfold SslTransport.heard
  split
  · rfl
  · split <;> rfl

/-- What one step does to the number of ends, where `force` says that it closes the transport by force. -/
theorem ends_after (s : TlsSession S) {y : SslTransport S} {forced : Bool} (baseRaises : Bool)
    (hends : s.tls.Ends y forced) (hclosing : s.tls.closed = true → s.tls.closing = true) :
    (y.closed = true → y.closing = true) ∧ (s.tls.closed = true → y.closed = true) ∧
    (s.after y baseRaises).ends =
      s.ends + (if !s.tls.closed && forced && !baseRaises && s.accepts then 1 else 0) ∧
    (forced = true → y.closed = true) := by
  obtain ⟨hclosed, hclosing'⟩ := hends
  refine ⟨?_, ?_, ?_, ?_⟩
  · intro hy
    rw [hclosed] at hy
    rw [hclosing']
    cases hs : s.tls.closed with
    | true => rw [hclosing hs]; rfl
    | false =>
      rw [hs] at hy
      rw [show forced = true from hy]
      exact Bool.or_true _
  · intro hs
    rw [hclosed, hs]
    rfl
  · simp only [ends, after, List.countP_append, countP_heard, hclosed]
    cases s.tls.closed <;> simp [Nat.add_assoc]
  · intro hforced
    rw [hclosed, hforced, Bool.or_true]

variable (unwrap) in
/-- `close` tells nothing of it. -/
theorem close_ends (baseRaises : Bool) (hclosing : s.tls.closed = true → s.tls.closing = true) :
    ((s.close unwrap baseRaises).tls.closed = true → (s.close unwrap baseRaises).tls.closing = true) ∧
    (s.tls.closed = true → (s.close unwrap baseRaises).tls.closed = true) ∧
    (s.close unwrap baseRaises).ends = s.ends := by
  unfold close
  split
  · exact ⟨hclosing, id, rfl⟩
  · rename_i hopen
    have hclosed (h : s.tls.closed = true) : False := hopen (hclosing h)
    dsimp only
    split <;> exact ⟨fun _ => rfl, fun h => (hclosed h).elim, rfl⟩

theorem ends_step {a : Act} (hclosing : s.tls.closed = true → s.tls.closing = true)
    (hstep : s.step obj unwrap a = some t) :
    (t.tls.closed = true → t.tls.closing = true) ∧ (s.tls.closed = true → t.tls.closed = true) ∧
    t.ends = s.ends + (if a.isBaseLost then 1 else 0) + (if s.schedules obj a then 1 else 0) ∧
    (s.schedules obj a = true → t.tls.closed = true) := by
  cases a with
  | tls a baseRaises =>
    obtain ⟨y, hy, rfl⟩ := Option.map_eq_some_iff.mp hstep
    obtain ⟨h1, h2, h3, h4⟩ := ends_after s baseRaises (SslTransport.step_ends hy) hclosing
    refine ⟨h1, h2, h3, fun hschedules => h4 ?_⟩
    simp only [schedules, Bool.and_eq_true] at hschedules
    exact hschedules.1.1.2
  | close baseRaises =>
    obtain ⟨-, ht⟩ := Option.ite_none_right_eq_some.mp hstep
    cases ht
    obtain ⟨h1, h2, h3⟩ := close_ends unwrap baseRaises hclosing
    exact ⟨h1, h2, h3, nofun⟩
  | abort baseRaises =>
    obtain ⟨-, ht⟩ := Option.ite_none_right_eq_some.mp hstep
    cases ht
    obtain ⟨h1, h2, h3, h4⟩ :=
      ends_after s baseRaises (SslTransport.Ends.forceClose (x := s.tls) rfl rfl) hclosing
    rw [Bool.and_true] at h3
    exact ⟨h1, h2, h3, fun _ => h4 rfl⟩
  | runScheduled =>
    obtain ⟨hready, ht⟩ := Option.ite_none_right_eq_some.mp hstep
    cases ht
    refine ⟨hclosing, id, ?_, nofun⟩
    have hone := hready.2
    simp [ends, hear, TlsCall.isLost, Act.isBaseLost, schedules]
    omega
  | baseLost =>
    obtain ⟨-, ht⟩ := Option.ite_none_right_eq_some.mp hstep
    cases ht
    refine ⟨hclosing, id, ?_, nofun⟩
    simp [ends, hear, TlsCall.isLost, Act.isBaseLost, schedules]
    omega
  | setAccepts accepts =>
    cases hstep
    exact ⟨hclosing, id, rfl, nofun⟩

/-- A closed transport schedules nothing any more. -/
theorem ends_of_closed {acts : List Act} (hclosed : s.tls.closed = true)
    (hclosing : s.tls.closed = true → s.tls.closing = true)
    (hrun : (machine obj unwrap).run s acts = some t) :
    t.ends = s.ends + acts.countP Act.isBaseLost ∧
      (machine obj unwrap).Meets (fun s a => s.schedules obj a = false) s acts := by
  induction acts generalizing s with
  | nil =>
    cases hrun
    exact ⟨rfl, trivial⟩
  | cons a acts ih =>
    obtain ⟨u, hsu, hut⟩ := (machine obj unwrap).run_cons_eq_some.mp hrun
    obtain ⟨huclosing, hstays, hends, -⟩ := ends_step hclosing hsu
    obtain ⟨hrest, hmeets⟩ := ih (hstays hclosed) huclosing hut
    have hnone : s.schedules obj a = false := by cases a <;> simp [schedules, hclosed]
    rw [(machine obj unwrap).meets_cons acts hsu]
    refine ⟨?_, hnone, hmeets⟩
    rw [hrest, hends, hnone, List.countP_cons]
    simp only [Bool.false_eq_true, if_false]
    omega

theorem ends_run {acts : List Act} (hclosing : s.tls.closed = true → s.tls.closing = true)
    (hrun : (machine obj unwrap).run s acts = some t) :
    t.ends = s.ends + acts.countP Act.isBaseLost +
      if (machine obj unwrap).Meets (fun s a => s.schedules obj a = false) s acts then 0 else 1 := by
  induction acts generalizing s with
  | nil =>
    cases hrun
    rfl
  | cons a acts ih =>
    obtain ⟨u, hsu, hut⟩ := (machine obj unwrap).run_cons_eq_some.mp hrun
    obtain ⟨huclosing, -, hends, hforced⟩ := ends_step hclosing hsu
    rw [List.countP_cons]
    by_cases hschedules : s.schedules obj a = true
    · -- the one step that schedules closes the transport
      obtain ⟨hrest, -⟩ := ends_of_closed (hforced hschedules) huclosing hut
      have hnot : ¬ (machine obj unwrap).Meets (fun s a => s.schedules obj a = false) s (a :: acts) := by
        rw [(machine obj unwrap).meets_cons acts hsu, hschedules]
        exact fun h => Bool.noConfusion h.1
      rw [hrest, hends, if_pos hschedules, if_neg hnot]
      omega
    · have hrest := ih huclosing hut
      have hnone := Bool.eq_false_of_not_eq_true hschedules
      rw [hrest, hends, if_neg hschedules]
      simp only [(machine obj unwrap).meets_cons acts hsu, hnone, true_and]
      omega

/-- The base transport does something. -/
def Act.ofBase : Act → Bool
  | .tls (.dataReceived _) _ | .baseLost => true
  | .tls .doHandshake _ | .tls .read _ | .tls (.write _) _ | .tls (.ret _) _ | .close _ | .abort _
  | .runScheduled | .setAccepts _ => false

theorem countP_of_phase (calls : List TlsCall) : ∀ e, phase calls = some e →
    calls.countP TlsCall.isLost = if e = .nothing then 1 else 0 := by
  induction calls using List.reverseRecOn with
  | nil =>
    intro e he
    cases he
    rfl
  | append_singleton calls call ih =>
    intro e he
    rw [phase_concat] at he
    cases hphase : phase calls with
    | none =>
      rw [hphase] at he
      cases he
    | some e' =>
      have hcount := ih e' hphase
      rw [hphase] at he
      rw [List.countP_append, hcount]
      cases e' <;> cases call <;> cases he <;> rfl

theorem InOrder.countP_le {calls : List TlsCall} (h : InOrder calls) :
    calls.countP TlsCall.isLost ≤ 1 := by
  obtain ⟨e, he⟩ := Option.isSome_iff_exists.mp h
  rw [countP_of_phase calls e he]
  split <;> omega

theorem lostTold_eq_false (h : s.calls.countP TlsCall.isLost = 0) : s.lostTold = false := by
  rw [lostTold, List.any_eq_false]
  exact List.countP_eq_zero.mp h

/-- Nothing has ended yet, and what the application has heard is in order. -/
structure Before (s : TlsSession S) : Prop where
  coherent : s.Coherent
  closing : s.tls.closed = true → s.tls.closing = true
  inOrder : InOrder s.calls
  ends : s.ends = 0

theorem Before.new (ssl : S) : (new ssl).Before := ⟨.of_new ssl, fun h => (by cases h), rfl, rfl⟩

theorem Before.lostTold (h : s.Before) : s.lostTold = false :=
  lostTold_eq_false (Nat.eq_zero_of_add_eq_zero_right h.ends)

theorem Before.step {a : Act} (h : s.Before) (hbase : a.isBaseLost = false)
    (hschedules : s.schedules obj a = false) (hstep : s.step obj unwrap a = some t) : t.Before := by
  obtain ⟨hcoherent, horder⟩ := order_step h.coherent hstep
  obtain ⟨hclosing, -, hends, -⟩ := ends_step h.closing hstep
  have hkeeps : s.KeepsOrder obj a := by
    cases a with
    | tls a baseRaises => exact fun _ => h.lostTold
    | runScheduled =>
      -- nothing is scheduled
      obtain ⟨hready, -⟩ := Option.ite_none_right_eq_some.mp hstep
      have hzero := Nat.eq_zero_of_add_eq_zero_left h.ends
      have hsome := hready.2
      omega
    | baseLost => cases hbase
    | close | abort | setAccepts => trivial
  refine ⟨hcoherent, hclosing, horder.mpr ⟨h.inOrder, hkeeps⟩, ?_⟩
  rw [hends, h.ends, hbase, hschedules]
  rfl

/-- The base transport has ended after the handshake, and nothing else has or will. -/
structure Over (s : TlsSession S) : Prop where
  coherent : s.Coherent
  closing : s.tls.closed = true → s.tls.closing = true
  inOrder : InOrder s.calls
  ends : s.ends = 1
  told : 1 ≤ s.calls.countP TlsCall.isLost
  idle : s.tls.pc = .idle
  complete : s.tls.handshakeComplete = true

theorem Before.over (h : s.Before) (hcomplete : s.tls.handshakeComplete = true)
    (hstep : s.step obj unwrap .baseLost = some t) : t.Over := by
  obtain ⟨hcoherent, horder⟩ := order_step h.coherent hstep
  obtain ⟨hclosing, -, hends, -⟩ := ends_step h.closing hstep
  obtain ⟨hidle, ht⟩ := Option.ite_none_right_eq_some.mp hstep
  cases ht
  refine ⟨hcoherent, hclosing, horder.mpr ⟨h.inOrder, hcomplete, h.lostTold⟩, ?_, ?_, hidle, hcomplete⟩
  · rw [hends, h.ends]
    rfl
  · simp [hear, TlsCall.isLost]

theorem Over.step {a : Act} (h : s.Over) (hbase : a.ofBase = false) (hschedules : s.schedules obj a = false)
    (hstep : s.step obj unwrap a = some t) : t.Over := by
  obtain ⟨hcoherent, horder⟩ := order_step h.coherent hstep
  obtain ⟨hclosing, -, hends, -⟩ := ends_step h.closing hstep
  have hnone : a.isBaseLost = false := by
    cases a with
    | baseLost => cases hbase
    | tls | close | abort | runScheduled | setAccepts => rfl
  have hone : t.ends = 1 := by
    rw [hends, h.ends, hnone, hschedules]
    rfl
  have hscheduled : s.scheduled = 0 := by
    have htold := h.told
    have hsum : s.calls.countP TlsCall.isLost + s.scheduled = 1 := h.ends
    omega
  cases a with
  | tls a baseRaises =>
    obtain ⟨y, hy, rfl⟩ := Option.map_eq_some_iff.mp hstep
    have hother : ∀ chunk, a ≠ .dataReceived chunk := by
      intro chunk ha
      rw [ha] at hbase
      cases hbase
    obtain ⟨hidle, hcomplete, htells⟩ := SslTransport.step_idle h.idle h.complete hother hy
    refine ⟨hcoherent, hclosing, horder.mpr ⟨h.inOrder, fun ht => ?_⟩, hone, ?_, hidle, hcomplete⟩
    · rw [htells] at ht
      cases ht
    · show 1 ≤ (s.calls ++ s.tls.heard y).countP TlsCall.isLost
      rw [SslTransport.heard_of_pc_eq (hidle.trans h.idle.symm), List.append_nil]
      exact h.told
  | close baseRaises =>
    obtain ⟨-, ht⟩ := Option.ite_none_right_eq_some.mp hstep
    cases ht
    obtain ⟨hpc, hcomplete, -, hcalls⟩ := close_same unwrap baseRaises s
    refine ⟨hcoherent, hclosing, horder.mpr ⟨h.inOrder, trivial⟩, hone, ?_, hpc.trans h.idle,
      hcomplete.trans h.complete⟩
    rw [hcalls]
    exact h.told
  | abort baseRaises =>
    obtain ⟨-, ht⟩ := Option.ite_none_right_eq_some.mp hstep
    cases ht
    refine ⟨hcoherent, hclosing, horder.mpr ⟨h.inOrder, trivial⟩, hone, ?_, ?_, ?_⟩
    · show 1 ≤ (s.calls ++ s.tls.heard s.tls.forceClose).countP TlsCall.isLost
      rw [SslTransport.heard_of_pc_eq (by simp), List.append_nil]
      exact h.told
    · simpa [after] using h.idle
    · simpa [after] using h.complete
  | runScheduled =>
    obtain ⟨hready, -⟩ := Option.ite_none_right_eq_some.mp hstep
    have hsome := hready.2
    omega
  | baseLost => cases hbase
  | setAccepts accepts =>
    cases hstep
    exact ⟨hcoherent, hclosing, horder.mpr ⟨h.inOrder, trivial⟩, hone, h.told, h.idle, h.complete⟩

theorem countP_isBaseLost {pre post : List Act} (hfirst : ∀ a ∈ pre, a.isBaseLost = false)
    (hquiet : ∀ a ∈ post, a.ofBase = false) : (pre ++ .baseLost :: post).countP Act.isBaseLost = 1 := by
  have hpre : pre.countP Act.isBaseLost = 0 := by
    rw [List.countP_eq_zero]
    intro a ha
    rw [hfirst a ha]
    exact Bool.false_ne_true
  have hpost : post.countP Act.isBaseLost = 0 := by
    rw [List.countP_eq_zero]
    intro a ha hlost
    cases a with
    | baseLost => cases hquiet _ ha
    | tls | close | abort | runScheduled | setAccepts => cases hlost
  rw [List.countP_append, List.countP_cons, hpre, hpost]
  rfl

/-- The object of the example, as it says goodbye. -/
def tinyUnwrap (started : Bool) (incoming : Bytes) : SslReply Bool Unit := ⟨started, incoming, [0], .wantRead⟩

/-- A handshake, a byte, and the peer's end; then the program aborts the transport. -/
def abortedRun : List Act :=
  [.tls .doHandshake false, .tls (.dataReceived [2]) false, .tls (.ret false) false,
    .tls (.dataReceived [7]) false, .tls .read false, .tls (.ret false) false, .tls .read false, .baseLost,
    .abort false, .runScheduled]

/-- After its end the program closes the transport. -/
def closedRun : List Act := [.close false]

end TlsSession

end Uringcore
