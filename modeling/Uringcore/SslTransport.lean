import Uringcore.Error
import Uringcore.Lib.Machine

/-!
# TLS transports

`SSLTransport` over an arbitrary SSL object: at each call the object takes what it likes from the
incoming BIO, appends to the outgoing one, and says how the call ended. The methods stop where they
call the application's protocol, which may write while it runs and returns or raises; the loop of
`_read_decrypted_data` stops before every `read`. The base transport takes what it is given.

`sent`, `produced`, `decrypted` and `delivered` are histories. The outgoing BIO is emptied in some
branches only, and the last step of the handshake is not followed by a `read`: `flushed_iff` says
when nothing is left behind.
-/

namespace Uringcore

/-- How a call of the SSL object ends. -/
inductive SslReport (R : Type) where
  | done (r : R)
  | wantRead
  | wantWrite
  | error
  deriving DecidableEq, Repr

namespace SslReport
variable {R : Type}

def isDone : SslReport R → Bool
  | done _ => true
  | wantRead | wantWrite | error => false

def isError : SslReport R → Bool
  | error => true
  | done _ | wantRead | wantWrite => false

def givesData : SslReport Bytes → Bool
  | done data => !data.isEmpty
  | wantRead | wantWrite | error => false

end SslReport

/-- What a call leaves: the object, the rest of the incoming BIO, and what is new in the other. -/
structure SslReply (S R : Type) where
  ssl : S
  incoming : Bytes
  output : Bytes
  report : SslReport R

structure SslObject (S : Type) where
  doHandshake (ssl : S) (incoming : Bytes) : SslReply S Unit
  read (ssl : S) (incoming : Bytes) : SslReply S Bytes
  write (ssl : S) (incoming data : Bytes) : SslReply S Nat

/-- A `read` now would give data. -/
def SslObject.readable {S : Type} (obj : SslObject S) (ssl : S) (incoming : Bytes) : Bool :=
  (obj.read ssl incoming).report.givesData

/-- `_handshake_future`. -/
inductive HandshakeFuture where
  | pending
  | result
  | exception
  deriving DecidableEq, Repr

inductive SslPc where
  | idle
  /-- `_read_decrypted_data` is about to read. -/
  | reading
  | connectionMade
  | dataReceived
  deriving DecidableEq, Repr

structure SslTransport (S : Type) where
  ssl : S
  incoming : Bytes
  outgoing : Bytes
  handshakeStarted : Bool
  handshakeComplete : Bool
  handshakeFuture : Option HandshakeFuture
  closing : Bool
  closed : Bool
  baseClosed : Bool
  pc : SslPc
  /-- What the base transport was given. -/
  sent : Bytes
  /-- What the SSL object has written to the outgoing BIO. -/
  produced : Bytes
  decrypted : Bytes
  /-- What the application was given. -/
  delivered : Bytes
  deriving DecidableEq, Repr

namespace SslTransport
variable {S : Type}

def init (ssl : S) : SslTransport S where
  ssl := ssl
  incoming := []
  outgoing := []
  handshakeStarted := false
  handshakeComplete := false
  handshakeFuture := none
  closing := false
  closed := false
  baseClosed := false
  pc := .idle
  sent := []
  produced := []
  decrypted := []
  delivered := []

/-- The BIOs after a call of the SSL object. -/
def absorb {R : Type} (r : SslReply S R) (x : SslTransport S) : SslTransport S :=
  { x with
    ssl := r.ssl
    incoming := r.incoming
    outgoing := x.outgoing ++ r.output
    produced := x.produced ++ r.output }

/-- `_flush_outgoing`. -/
def flushOutgoing (x : SslTransport S) : SslTransport S :=
  { x with outgoing := [], sent := x.sent ++ x.outgoing }

/-- `_force_close`. -/
def forceClose (x : SslTransport S) : SslTransport S :=
  if x.closed then x else { x with closed := true, closing := true, baseClosed := true }

/-- The handshake's future, if it waits. -/
def settleHandshake (outcome : HandshakeFuture) (x : SslTransport S) : SslTransport S :=
  if x.handshakeFuture = some .pending then { x with handshakeFuture := some outcome } else x

variable (obj : SslObject S)

/-- `_do_handshake_step`, up to the call of `connection_made`. -/
def doHandshakeStep (x : SslTransport S) : SslTransport S :=
  let r := obj.doHandshake x.ssl x.incoming
  let x := x.absorb r
  match r.report with
  -- what this last step has produced is not flushed, and nothing is read after it
  | .done _ => { (x.settleHandshake .result) with handshakeComplete := true, pc := .connectionMade }
  | .wantRead | .wantWrite => x.flushOutgoing
  | .error => x.settleHandshake .exception

/-- `do_handshake` up to the `await`. -/
def doHandshake (x : SslTransport S) : SslTransport S :=
  if x.handshakeComplete then x
  else { x with handshakeStarted := true, handshakeFuture := some .pending }.doHandshakeStep obj

/-- `_data_received`, up to the first `read`. -/
def dataReceived (chunk : Bytes) (x : SslTransport S) : SslTransport S :=
  let x := { x with incoming := x.incoming ++ chunk }
  if x.handshakeComplete then { x with pc := .reading } else x.doHandshakeStep obj

/-- One `read` of `_read_decrypted_data`, up to the call of `data_received`. -/
def readDecryptedData (x : SslTransport S) : SslTransport S :=
  let r := obj.read x.ssl x.incoming
  let x := x.absorb r
  match r.report with
  | .done data =>
      let x := { x with decrypted := x.decrypted ++ data, delivered := x.delivered ++ data }
      -- an empty `read` ends the loop
      if data.isEmpty then { x with pc := .idle } else { x with pc := .dataReceived }
  | .wantRead => { x with pc := .idle }
  | .wantWrite | .error => { x with pc := .idle }.forceClose

def write (data : Bytes) (x : SslTransport S) : SslTransport S :=
  if x.closing then x
  else
    let r := obj.write x.ssl x.incoming data
    let x := x.absorb r
    match r.report with
    | .done _ => x.flushOutgoing
    | .wantRead | .wantWrite | .error => x.forceClose

/-- The application's `connection_made` or `data_received` ends. -/
def ret (raised : Bool) (x : SslTransport S) : SslTransport S :=
  match x.pc with
  -- an exception of `connection_made` is taken for one of the handshake, whose future is done
  | .connectionMade => { x with pc := .idle }
  | .dataReceived => if raised then { x with pc := .idle }.forceClose else { x with pc := .reading }
  | .idle | .reading => x

inductive Act where
  | doHandshake
  | dataReceived (chunk : Bytes)
  | read
  | write (data : Bytes)
  | ret (raised : Bool)

def step (x : SslTransport S) : Act → Option (SslTransport S)
  | .doHandshake => if x.pc = .idle then some (x.doHandshake obj) else none
  | .dataReceived chunk => if x.pc = .idle then some (x.dataReceived obj chunk) else none
  | .read => if x.pc = .reading then some (x.readDecryptedData obj) else none
  | .write data => if x.pc ≠ .reading then some (x.write obj data) else none
  | .ret raised => if x.pc = .connectionMade ∨ x.pc = .dataReceived then some (x.ret raised) else none

def machine : Machine (SslTransport S) Act := ⟨step obj⟩

/-! ## What is to be left behind, and when it is -/

/-- Nothing is stranded: all the SSL object has produced was sent, all it has decrypted was
delivered, and it has nothing more to give. -/
structure Flushed (x : SslTransport S) : Prop where
  sent : x.sent = x.produced
  delivered : x.delivered = x.decrypted
  unread : x.handshakeComplete = true → obj.readable x.ssl x.incoming = false

/-- The outgoing BIO is empty, and the SSL object has nothing to give. -/
def Empty (x : SslTransport S) : Prop :=
  x.outgoing = [] ∧ obj.readable x.ssl x.incoming = false

instance (x : SslTransport S) : Decidable (x.Empty obj) := inferInstanceAs (Decidable (_ ∧ _))

/-- The answers of the SSL object, and of the application, that leave nothing behind: a handshake
that fails has produced nothing; when `connection_made` is over, when `data_received` has raised and
after the `read` that gives no data, both BIOs are empty already; a write that fails has produced
nothing, and a write makes nothing readable. -/
def KeepsFlushed (x : SslTransport S) : Act → Prop
  | .doHandshake => x.handshakeComplete = false →
      (obj.doHandshake x.ssl x.incoming).report.isError = true →
        (obj.doHandshake x.ssl x.incoming).output = []
  | .dataReceived chunk => x.handshakeComplete = false →
      (obj.doHandshake x.ssl (x.incoming ++ chunk)).report.isError = true →
        (obj.doHandshake x.ssl (x.incoming ++ chunk)).output = []
  | .read => obj.readable x.ssl x.incoming = false → (x.absorb (obj.read x.ssl x.incoming)).Empty obj
  | .write data => x.pc = .idle → x.closing = false →
      ((obj.write x.ssl x.incoming data).report.isDone = false →
        (obj.write x.ssl x.incoming data).output = []) ∧
      (x.handshakeComplete = true → obj.readable (obj.write x.ssl x.incoming data).ssl
        (obj.write x.ssl x.incoming data).incoming = false)
  | .ret raised => x.pc = .connectionMade ∨ raised = true → x.Empty obj

instance (x : SslTransport S) : ∀ a, Decidable (x.KeepsFlushed obj a)
  | .doHandshake | .dataReceived _ | .read | .write _ | .ret _ => inferInstanceAs (Decidable (_ → _))

/-! ## What every step keeps -/

structure Accounted (x : SslTransport S) : Prop where
  produced : x.produced = x.sent ++ x.outgoing
  delivered : x.delivered = x.decrypted
  complete : x.pc ≠ .idle → x.handshakeComplete = true

variable {obj} {x y : SslTransport S}

theorem Accounted.flushed_iff_flushedOut (h : x.Accounted) :
    x.Flushed obj ↔ x.outgoing = [] ∧
      (x.handshakeComplete = true → obj.readable x.ssl x.incoming = false) := by
  constructor
  · intro hf
    refine ⟨?_, hf.unread⟩
    have hsent := hf.sent.trans h.produced
    exact List.self_eq_append_right.mp hsent
  · rintro ⟨hout, hunread⟩
    refine ⟨?_, h.delivered, hunread⟩
    rw [h.produced, hout, List.append_nil]

@[simp] theorem forceClose_eq (x : SslTransport S) : x.forceClose = { x with
    closed := true
    closing := if x.closed then x.closing else true
    baseClosed := if x.closed then x.baseClosed else true } := by
  unfold forceClose
  split
  · rename_i hclosed
    simp only [← hclosed]
  · rfl

theorem settleHandshake_eq (outcome : HandshakeFuture) (x : SslTransport S) :
    ∃ future, x.settleHandshake outcome = { x with handshakeFuture := future } := by
  unfold settleHandshake
  split
  · exact ⟨_, rfl⟩
  · exact ⟨x.handshakeFuture, rfl⟩

theorem Accounted.absorb {R : Type} (h : x.Accounted) (r : SslReply S R) : (x.absorb r).Accounted where
  produced := by
    show x.produced ++ r.output = x.sent ++ (x.outgoing ++ r.output)
    rw [h.produced, List.append_assoc]
  delivered := h.delivered
  complete := h.complete

/-- A flush before the handshake is complete. -/
theorem flushes {R : Type} {r : SslReply S R} (h : x.Accounted) (hcomplete : x.handshakeComplete = false)
    (hreport : r.report.isError = false) :
    x.flushOutgoing.Accounted ∧ ((x.flushOutgoing.pc = .idle → x.flushOutgoing.Flushed obj) ↔
      (r.report.isError = true → r.output = [])) := by
  have hx : x.flushOutgoing.Accounted :=
    ⟨h.produced.trans (List.append_nil _).symm, h.delivered, h.complete⟩
  refine ⟨hx, iff_of_true (fun _ => hx.flushed_iff_flushedOut.mpr ⟨rfl, fun hc => ?_⟩) fun herror => ?_⟩
  · cases hcomplete.symm.trans hc
  · cases hreport.symm.trans herror

variable (obj) in
/-- A step of the handshake that begins with an empty outgoing BIO. -/
theorem doHandshakeStep_spec (h : x.Accounted) (hpc : x.pc = .idle) (hout : x.outgoing = [])
    (hcomplete : x.handshakeComplete = false) :
    (x.doHandshakeStep obj).Accounted ∧
      (((x.doHandshakeStep obj).pc = .idle → (x.doHandshakeStep obj).Flushed obj) ↔
        ((obj.doHandshake x.ssl x.incoming).report.isError = true →
          (obj.doHandshake x.ssl x.incoming).output = [])) := by
  have hr := h.absorb (obj.doHandshake x.ssl x.incoming)
  unfold doHandshakeStep
  dsimp only
  split
  · rename_i hreport
    obtain ⟨future, hfuture⟩ :=
      settleHandshake_eq .result (x.absorb (obj.doHandshake x.ssl x.incoming))
    rw [hfuture, hreport]
    -- `connection_made` is running, so the question is put off to its return
    refine ⟨⟨hr.produced, hr.delivered, fun _ => rfl⟩, iff_of_true ?_ ?_⟩ <;> rintro ⟨⟩
  · rename_i hreport
    exact flushes hr hcomplete (by rw [hreport]; rfl)
  · rename_i hreport
    exact flushes hr hcomplete (by rw [hreport]; rfl)
  · rename_i hreport
    obtain ⟨future, hfuture⟩ :=
      settleHandshake_eq .exception (x.absorb (obj.doHandshake x.ssl x.incoming))
    have hx : ({ x.absorb (obj.doHandshake x.ssl x.incoming) with handshakeFuture := future } :
        SslTransport S).Accounted := ⟨hr.produced, hr.delivered, hr.complete⟩
    rw [hfuture, hreport]
    refine ⟨hx, ?_⟩
    rw [hx.flushed_iff_flushedOut]
    show (x.pc = .idle → x.outgoing ++ _ = [] ∧ _) ↔ _
    rw [hout, List.nil_append]
    constructor
    · exact fun hflushed _ => (hflushed hpc).1
    · exact fun hquiet _ => ⟨hquiet rfl, fun hc => absurd (hcomplete.symm.trans hc) (by decide)⟩

/-- What is left when a call ends after the handshake. -/
theorem Accounted.flushed_iff_empty (h : x.Accounted) (hcomplete : x.handshakeComplete = true) :
    x.Flushed obj ↔ x.Empty obj := by
  rw [h.flushed_iff_flushedOut, Empty, forall_prop_of_true hcomplete]

/-- The loop of reads is over in `y`. -/
theorem read_ends (hy : y.Accounted) (hpc : y.pc = .idle) (hcomplete : y.handshakeComplete = true)
    (hempty : y.Empty obj ↔ (x.absorb (obj.read x.ssl x.incoming)).Empty obj)
    (hnone : obj.readable x.ssl x.incoming = false) : y.Accounted ∧ ((y.pc = .idle → y.Flushed obj) ↔
      (obj.readable x.ssl x.incoming = false → (x.absorb (obj.read x.ssl x.incoming)).Empty obj)) := by
  rw [forall_prop_of_true hpc, forall_prop_of_true hnone, hy.flushed_iff_empty hcomplete]
  exact ⟨hy, hempty⟩

theorem readDecryptedData_spec (h : x.Accounted) (hpc : x.pc = .reading) :
    (x.readDecryptedData obj).Accounted ∧
      (((x.readDecryptedData obj).pc = .idle → (x.readDecryptedData obj).Flushed obj) ↔
        (obj.readable x.ssl x.incoming = false → (x.absorb (obj.read x.ssl x.incoming)).Empty obj)) := by
  have hr := h.absorb (obj.read x.ssl x.incoming)
  have hcomplete : x.handshakeComplete = true := h.complete (by rw [hpc]; rintro ⟨⟩)
  have hreadable : obj.readable x.ssl x.incoming = (obj.read x.ssl x.incoming).report.givesData := rfl
  have hidle : ({ x.absorb (obj.read x.ssl x.incoming) with pc := .idle } : SslTransport S).Accounted :=
    ⟨hr.produced, hr.delivered, fun hne => absurd rfl hne⟩
  unfold readDecryptedData
  dsimp only
  split
  · -- the loop goes on after data, and ends after an empty `read` as it does after a refused one
    rename_i data hreport
    rw [hreport] at hreadable
    have hdelivered := congrArg (· ++ data) hr.delivered
    split
    · rename_i hnil
      have hnone : obj.readable x.ssl x.incoming = false := by
        rw [hreadable, SslReport.givesData, hnil]
        rfl
      exact read_ends ⟨hr.produced, hdelivered, fun hne => absurd rfl hne⟩ rfl hcomplete Iff.rfl hnone
    · rename_i hdata
      refine ⟨⟨hr.produced, hdelivered, fun _ => hcomplete⟩, iff_of_true (by rintro ⟨⟩) fun hnone => ?_⟩
      rw [hreadable, SslReport.givesData, Bool.not_eq_false'] at hnone
      exact absurd hnone hdata
  · rename_i hreport
    rw [hreport] at hreadable
    exact read_ends hidle rfl hcomplete Iff.rfl hreadable
  · rename_i hreport
    rw [hreport] at hreadable
    rw [forceClose_eq]
    exact read_ends ⟨hidle.produced, hidle.delivered, hidle.complete⟩ rfl hcomplete Iff.rfl hreadable
  · rename_i hreport
    rw [hreport] at hreadable
    rw [forceClose_eq]
    exact read_ends ⟨hidle.produced, hidle.delivered, hidle.complete⟩ rfl hcomplete Iff.rfl hreadable

theorem write_fails (h : x.Accounted) (hflushed : x.pc = .idle → x.Flushed obj)
    {r : SslReply S Nat} (hreport : r.report.isDone = false) : (x.absorb r).forceClose.Accounted ∧
      (((x.absorb r).forceClose.pc = .idle → (x.absorb r).forceClose.Flushed obj) ↔
        (x.pc = .idle → (r.report.isDone = false → r.output = []) ∧
          (x.handshakeComplete = true → obj.readable r.ssl r.incoming = false))) := by
  have hr := h.absorb r
  have hx : (x.absorb r).forceClose.Accounted := by
    rw [forceClose_eq]
    exact ⟨hr.produced, hr.delivered, hr.complete⟩
  refine ⟨hx, ?_⟩
  rw [hx.flushed_iff_flushedOut, forceClose_eq]
  show (x.pc = .idle → x.outgoing ++ r.output = [] ∧ _) ↔ _
  apply imp_congr_right
  intro hpc
  rw [(h.flushed_iff_flushedOut.mp (hflushed hpc)).1, List.nil_append, hreport]
  exact and_congr_left fun _ => ⟨fun hnil _ => hnil, fun hnil => hnil rfl⟩

/-- What a write leaves, in a callback or between the calls. -/
theorem write_spec (h : x.Accounted) (hflushed : x.pc = .idle → x.Flushed obj) (data : Bytes) :
    (x.write obj data).Accounted ∧
      (((x.write obj data).pc = .idle → (x.write obj data).Flushed obj) ↔
        x.KeepsFlushed obj (.write data)) := by
  unfold write KeepsFlushed
  by_cases hclosing : x.closing = true
  · rw [if_pos hclosing]
    refine ⟨h, iff_of_true hflushed fun _ hopen => ?_⟩
    cases hclosing.symm.trans hopen
  rw [if_neg hclosing]
  have hopen : x.closing = false := Bool.eq_false_of_not_eq_true hclosing
  simp only [hopen, forall_const]
  split
  · rename_i n hreport
    have hr := h.absorb (obj.write x.ssl x.incoming data)
    have hx : (x.absorb (obj.write x.ssl x.incoming data)).flushOutgoing.Accounted :=
      ⟨hr.produced.trans (List.append_nil _).symm, hr.delivered, hr.complete⟩
    refine ⟨hx, ?_⟩
    rw [hx.flushed_iff_flushedOut, hreport]
    refine imp_congr_right fun _ => and_congr_left fun _ => iff_of_true rfl ?_
    rintro ⟨⟩
  all_goals
    rename_i hreport
    exact write_fails h hflushed (by rw [hreport]; rfl)

theorem ret_spec (h : x.Accounted) (raised : Bool) (hpc : x.pc = .connectionMade ∨ x.pc = .dataReceived) :
    (x.ret raised).Accounted ∧
      (((x.ret raised).pc = .idle → (x.ret raised).Flushed obj) ↔ x.KeepsFlushed obj (.ret raised)) := by
  have hcomplete : x.handshakeComplete = true :=
    h.complete (by rcases hpc with hpc | hpc <;> rw [hpc] <;> rintro ⟨⟩)
  have hidle : ({ x with pc := .idle } : SslTransport S).Accounted :=
    ⟨h.produced, h.delivered, fun hne => absurd rfl hne⟩
  unfold ret KeepsFlushed
  rcases hpc with hpc | hpc
  · simp only [hpc, true_or, forall_const]
    exact ⟨hidle, hidle.flushed_iff_empty hcomplete⟩
  · cases raised with
    | false =>
      simp only [hpc]
      refine ⟨⟨h.produced, h.delivered, fun _ => hcomplete⟩, iff_of_true (by rintro ⟨⟩) ?_⟩
      rintro (⟨⟨⟩⟩ | ⟨⟨⟩⟩)
    | true =>
      simp only [hpc, if_true, or_true, forall_const, forceClose_eq]
      have hx : ({ x with
          pc := .idle
          closed := true
          closing := if x.closed then x.closing else true
          baseClosed := if x.closed then x.baseClosed else true } : SslTransport S).Accounted :=
        ⟨hidle.produced, hidle.delivered, hidle.complete⟩
      exact ⟨hx, hx.flushed_iff_empty hcomplete⟩

/-- One step, from a state in which nothing is stranded when it is idle. -/
theorem flushed_step (x : SslTransport S) (a : Act) (y : SslTransport S) (h : x.Accounted)
    (hflushed : x.pc = .idle → x.Flushed obj) (hstep : x.step obj a = some y) :
    y.Accounted ∧ ((y.pc = .idle → y.Flushed obj) ↔ x.KeepsFlushed obj a) := by
  cases a with
  | doHandshake =>
    obtain ⟨hpc, hy⟩ := Option.ite_none_right_eq_some.mp hstep
    cases hy
    unfold doHandshake KeepsFlushed
    by_cases hcomplete : x.handshakeComplete = true
    · rw [if_pos hcomplete]
      exact ⟨h, iff_of_true hflushed fun hc => absurd (hc.symm.trans hcomplete) (by decide)⟩
    · have hopen : x.handshakeComplete = false := Bool.eq_false_of_not_eq_true hcomplete
      rw [if_neg hcomplete]
      have hspec := doHandshakeStep_spec obj
        (x := { x with handshakeStarted := true, handshakeFuture := some .pending })
        ⟨h.produced, h.delivered, h.complete⟩ hpc (h.flushed_iff_flushedOut.mp (hflushed hpc)).1 hopen
      exact hspec.imp_right fun hiff => hiff.trans ⟨fun h _ => h, fun h => h hopen⟩
  | dataReceived chunk =>
    obtain ⟨hpc, hy⟩ := Option.ite_none_right_eq_some.mp hstep
    cases hy
    unfold dataReceived KeepsFlushed
    dsimp only
    by_cases hcomplete : x.handshakeComplete = true
    · rw [if_pos hcomplete]
      refine ⟨⟨h.produced, h.delivered, fun _ => hcomplete⟩, iff_of_true (by rintro ⟨⟩) fun hc => ?_⟩
      cases hc.symm.trans hcomplete
    · have hopen : x.handshakeComplete = false := Bool.eq_false_of_not_eq_true hcomplete
      rw [if_neg hcomplete]
      have hspec := doHandshakeStep_spec obj (x := { x with incoming := x.incoming ++ chunk })
        ⟨h.produced, h.delivered, h.complete⟩ hpc (h.flushed_iff_flushedOut.mp (hflushed hpc)).1 hopen
      exact hspec.imp_right fun hiff => hiff.trans ⟨fun h _ => h, fun h => h hopen⟩
  | read =>
    obtain ⟨hpc, hy⟩ := Option.ite_none_right_eq_some.mp hstep
    cases hy
    exact readDecryptedData_spec h hpc
  | write data =>
    obtain ⟨-, hy⟩ := Option.ite_none_right_eq_some.mp hstep
    cases hy
    exact write_spec h hflushed data
  | ret raised =>
    obtain ⟨hpc, hy⟩ := Option.ite_none_right_eq_some.mp hstep
    cases hy
    exact ret_spec h raised hpc

/-- **When nothing is stranded.** Whenever a call returns in a run, all the SSL object has produced was
sent and all it can decrypt was delivered, if and only if each of its answers keeps to
`KeepsFlushed`. -/
theorem flushed_iff {ssl : S} {acts : List Act} (hrun : (machine obj).run (init ssl) acts = some x) :
    (machine obj).Always (fun x => x.pc = .idle → x.Flushed obj) (init ssl) acts ↔
      (machine obj).Meets (fun x a => x.KeepsFlushed obj a) (init ssl) acts :=
  Machine.always_iff_meets (M := machine obj) (I := Accounted) flushed_step
    ⟨rfl, rfl, fun hne => absurd rfl hne⟩ (fun _ => ⟨rfl, rfl, by rintro ⟨⟩⟩) hrun

/-! ## Two handshakes -/

/-- A client that has sent 1 and waits for 2; then it sends `last`, and each byte is a record. -/
def tinyTls (last : Bytes) : SslObject Bool where
  doHandshake started incoming :=
    if incoming.isEmpty then ⟨true, [], if started then [] else [1], .wantRead⟩
    else if incoming.head? = some 2 then ⟨true, incoming.drop 1, last, .done ()⟩
    else ⟨true, incoming, [], .error⟩
  read started incoming :=
    if incoming.isEmpty then ⟨started, [], [], .wantRead⟩
    else ⟨started, incoming.drop 1, [], .done (incoming.take 1)⟩
  write started incoming data := ⟨started, incoming, data, .done data.length⟩

/-- A handshake, and a byte that is answered. -/
def answeredRun : List Act :=
  [.doHandshake, .dataReceived [2], .ret false, .dataReceived [7], .read, .write [8], .ret false, .read]

theorem flushed_answered : ∃ x, (machine (tinyTls [])).run (init false) answeredRun = some x ∧
    (machine (tinyTls [])).Always (fun x => x.pc = .idle → x.Flushed (tinyTls [])) (init false) answeredRun ∧
    x.sent = [1, 8] ∧ x.delivered = [7] :=
  ⟨_, rfl, (flushed_iff (show (machine (tinyTls [])).run _ answeredRun = some _ from rfl)).mpr (by decide),
    rfl, rfl⟩

/-- The client's last message stays in the BIO, and so does the data that came with the server's. -/
theorem not_flushed : ∃ x,
    (machine (tinyTls [3])).run (init false) [.doHandshake, .dataReceived [2, 7], .ret false] = some x ∧
    x.pc = .idle ∧ x.produced = [1, 3] ∧ x.sent = [1] ∧ x.delivered = [] ∧
    (tinyTls [3]).readable x.ssl x.incoming = true ∧ ¬ x.Flushed (tinyTls [3]) := by
  refine ⟨_, rfl, rfl, rfl, rfl, rfl, rfl, fun h => ?_⟩
  cases h.sent

end SslTransport

end Uringcore
