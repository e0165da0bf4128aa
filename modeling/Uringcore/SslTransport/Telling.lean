import Uringcore.SslTransport

/-!
# What a step of a TLS transport tells

For one step of `SSLTransport`: which call of the application's protocol it makes, if any, and whether it
comes to `_force_close`. Both are said by the SSL object's answer, before the step.
-/

namespace Uringcore

/-- A call of the application's protocol. -/
inductive TlsCall where
  | connectionMade
  | dataReceived (data : Bytes)
  /-- Scheduled by `_force_close`, or passed on from the base transport. -/
  | connectionLost (forced : Bool)
  deriving DecidableEq, Repr

namespace TlsCall

def data : TlsCall → Bytes
  | dataReceived data => data
  | connectionMade | connectionLost _ => []

def isLost : TlsCall → Bool
  | connectionLost _ => true
  | connectionMade | dataReceived _ => false

end TlsCall

namespace SslTransport
variable {S : Type} (obj : SslObject S)

/-- What the application is told in a step that leads from `x` to `y`. -/
def heard (x y : SslTransport S) : List TlsCall :=
  if x.pc = y.pc then []
  else match y.pc with
    | .connectionMade => [.connectionMade]
    | .dataReceived => [.dataReceived (y.delivered.drop x.delivered.length)]
    | .idle | .reading => []

/-- The step ends the handshake, or reads data. -/
def tells (x : SslTransport S) : Act → Bool
  | .doHandshake => !x.handshakeComplete && (obj.doHandshake x.ssl x.incoming).report.isDone
  | .dataReceived chunk =>
      !x.handshakeComplete && (obj.doHandshake x.ssl (x.incoming ++ chunk)).report.isDone
  | .read => obj.readable x.ssl x.incoming
  | .write _ | .ret _ => false

/-- The step comes to `_force_close`. -/
def forces (x : SslTransport S) : Act → Bool
  | .doHandshake | .dataReceived _ => false
  | .read => match (obj.read x.ssl x.incoming).report with
      | .done _ | .wantRead => false
      | .wantWrite | .error => true
  | .write data => !x.closing && !(obj.write x.ssl x.incoming data).report.isDone
  | .ret raised => x.pc = .dataReceived && raised

/-! ## What a step of the transport tells -/

/-- The protocol is called after the handshake. -/
def Completed (x : SslTransport S) : Prop := x.pc ≠ .idle → x.handshakeComplete = true

/-- The steps that tell nothing, and the two that do. -/
inductive Telling (x y : SslTransport S) : Bool → Prop
  | silent (hheard : x.heard y = []) (hcomplete : y.handshakeComplete = x.handshakeComplete)
      (hdelivered : y.delivered = x.delivered) : Telling x y false
  | made (hheard : x.heard y = [.connectionMade]) (hbefore : x.handshakeComplete = false)
      (hcomplete : y.handshakeComplete = true) (hdelivered : y.delivered = x.delivered) : Telling x y true
  | data (data : Bytes) (hheard : x.heard y = [.dataReceived data]) (hbefore : x.handshakeComplete = true)
      (hcomplete : y.handshakeComplete = true) (hdelivered : y.delivered = x.delivered ++ data) :
      Telling x y true

variable {obj} {x x' y : SslTransport S}

theorem heard_of_pc_eq (hpc : y.pc = x.pc) : x.heard y = [] := if_pos hpc.symm

/-- Where a step comes from matters only in what is told. -/
theorem Telling.congr {b : Bool} (h : Telling x' y b) (hpc : x'.pc = x.pc)
    (hcomplete : x'.handshakeComplete = x.handshakeComplete) (hdelivered : x'.delivered = x.delivered) :
    Telling x y b := by
  have hheard : x.heard y = x'.heard y := by rw [heard, heard, hpc, hdelivered]
  cases h with
  | silent h1 h2 h3 => exact .silent (hheard.trans h1) (h2.trans hcomplete) (h3.trans hdelivered)
  | made h1 h2 h3 h4 =>
    exact .made (hheard.trans h1) (hcomplete.symm.trans h2) h3 (h4.trans hdelivered)
  | data data h1 h2 h3 h4 =>
    rw [hdelivered] at h4
    exact .data data (hheard.trans h1) (hcomplete.symm.trans h2) h3 h4

variable (obj) in
theorem doHandshakeStep_telling (hpc : x.pc = .idle) (hcomplete : x.handshakeComplete = false) :
    (x.doHandshakeStep obj).Completed ∧
      Telling x (x.doHandshakeStep obj) (obj.doHandshake x.ssl x.incoming).report.isDone := by
  unfold doHandshakeStep
  dsimp only
  split
  · rename_i hreport
    obtain ⟨future, hfuture⟩ := settleHandshake_eq .result (x.absorb (obj.doHandshake x.ssl x.incoming))
    rw [hfuture, hreport]
    refine ⟨fun _ => rfl, .made ?_ hcomplete rfl rfl⟩
    simp [heard, hpc]
  · rename_i hreport
    rw [hreport]
    exact ⟨fun h => absurd hpc h, .silent (heard_of_pc_eq rfl) rfl rfl⟩
  · rename_i hreport
    rw [hreport]
    exact ⟨fun h => absurd hpc h, .silent (heard_of_pc_eq rfl) rfl rfl⟩
  · rename_i hreport
    obtain ⟨future, hfuture⟩ := settleHandshake_eq .exception (x.absorb (obj.doHandshake x.ssl x.incoming))
    rw [hfuture, hreport]
    exact ⟨fun h => absurd hpc h, .silent (heard_of_pc_eq rfl) rfl rfl⟩

theorem readDecryptedData_telling (hpc : x.pc = .reading) (hcomplete : x.handshakeComplete = true) :
    (x.readDecryptedData obj).Completed ∧
      Telling x (x.readDecryptedData obj) (obj.readable x.ssl x.incoming) := by
  have hreadable : obj.readable x.ssl x.incoming = (obj.read x.ssl x.incoming).report.givesData := rfl
  have hidle (z : SslTransport S) (hz : z.pc = .idle) : x.heard z = [] := by simp [heard, hz]
  unfold readDecryptedData
  dsimp only
  split
  · rename_i data hreport
    rw [hreadable, hreport, SslReport.givesData]
    split
    · rename_i hnil
      rw [hnil]
      refine ⟨fun h => absurd rfl h, .silent (hidle _ rfl) rfl ?_⟩
      show x.delivered ++ data = x.delivered
      rw [List.isEmpty_iff.mp hnil, List.append_nil]
    · rename_i hdata
      rw [Bool.eq_false_of_not_eq_true hdata]
      refine ⟨fun _ => hcomplete, .data data ?_ hcomplete hcomplete rfl⟩
      simp [heard, hpc, absorb]
  · rename_i hreport
    rw [hreadable, hreport]
    exact ⟨fun h => absurd rfl h, .silent (hidle _ rfl) rfl rfl⟩
  · rename_i hreport
    rw [hreadable, hreport, forceClose_eq]
    exact ⟨fun h => absurd rfl h, .silent (hidle _ rfl) rfl rfl⟩
  · rename_i hreport
    rw [hreadable, hreport, forceClose_eq]
    exact ⟨fun h => absurd rfl h, .silent (hidle _ rfl) rfl rfl⟩

variable (obj) in
/-- A write tells nothing, whatever becomes of it. -/
theorem write_same (data : Bytes) : (x.write obj data).pc = x.pc ∧
    (x.write obj data).handshakeComplete = x.handshakeComplete ∧
    (x.write obj data).delivered = x.delivered := by
  unfold write
  split
  · exact ⟨rfl, rfl, rfl⟩
  · dsimp only
    split <;> simp only [forceClose_eq, absorb, flushOutgoing, and_self]

theorem ret_same (raised : Bool) (hpc : x.pc = .connectionMade ∨ x.pc = .dataReceived) :
    ((x.ret raised).pc = .idle ∨ (x.ret raised).pc = .reading) ∧
    (x.ret raised).handshakeComplete = x.handshakeComplete ∧
    (x.ret raised).delivered = x.delivered := by
  unfold ret
  obtain hpc | hpc := hpc
  · simp [hpc]
  · cases raised <;> simp [hpc]

theorem step_telling {a : Act} (h : x.Completed) (hstep : x.step obj a = some y) :
    y.Completed ∧ Telling x y (x.tells obj a) := by
  cases a with
  | doHandshake =>
    obtain ⟨hpc, hy⟩ := Option.ite_none_right_eq_some.mp hstep
    cases hy
    unfold doHandshake
    split
    · rename_i hcomplete
      have htells : x.tells obj .doHandshake = false := by simp [tells, hcomplete]
      rw [htells]
      exact ⟨h, .silent (heard_of_pc_eq rfl) rfl rfl⟩
    · rename_i hopen
      have hcomplete := Bool.eq_false_of_not_eq_true hopen
      have htells : x.tells obj .doHandshake = (obj.doHandshake x.ssl x.incoming).report.isDone := by
        simp [tells, hcomplete]
      rw [htells]
      obtain ⟨hdone, htelling⟩ := doHandshakeStep_telling obj
        (x := { x with handshakeStarted := true, handshakeFuture := some .pending }) hpc hcomplete
      exact ⟨hdone, htelling.congr rfl rfl rfl⟩
  | dataReceived chunk =>
    obtain ⟨hpc, hy⟩ := Option.ite_none_right_eq_some.mp hstep
    cases hy
    unfold dataReceived
    dsimp only
    split
    · rename_i hcomplete
      have htells : x.tells obj (.dataReceived chunk) = false := by simp [tells, hcomplete]
      rw [htells]
      refine ⟨fun _ => hcomplete, .silent ?_ rfl rfl⟩
      simp [heard]
    · rename_i hopen
      have hcomplete := Bool.eq_false_of_not_eq_true hopen
      have htells : x.tells obj (.dataReceived chunk) =
          (obj.doHandshake x.ssl (x.incoming ++ chunk)).report.isDone := by simp [tells, hcomplete]
      rw [htells]
      obtain ⟨hdone, htelling⟩ := doHandshakeStep_telling obj
        (x := { x with incoming := x.incoming ++ chunk }) hpc hcomplete
      exact ⟨hdone, htelling.congr rfl rfl rfl⟩
  | read =>
    obtain ⟨hpc, hy⟩ := Option.ite_none_right_eq_some.mp hstep
    cases hy
    exact readDecryptedData_telling hpc (h (by rw [hpc]; decide))
  | write data =>
    obtain ⟨hpc, hy⟩ := Option.ite_none_right_eq_some.mp hstep
    cases hy
    obtain ⟨hpc', hcomplete, hdelivered⟩ := write_same obj (x := x) data
    refine ⟨fun hne => ?_, .silent (heard_of_pc_eq hpc') hcomplete hdelivered⟩
    rw [hpc'] at hne
    exact hcomplete.trans (h hne)
  | ret raised =>
    obtain ⟨hpc, hy⟩ := Option.ite_none_right_eq_some.mp hstep
    cases hy
    obtain ⟨hpc', hcomplete, hdelivered⟩ := ret_same raised hpc
    have hdone : x.handshakeComplete = true := h (by obtain hpc | hpc := hpc <;> rw [hpc] <;> decide)
    refine ⟨fun _ => hcomplete.trans hdone, .silent ?_ hcomplete hdelivered⟩
    unfold heard
    split
    · rfl
    · obtain hpc' | hpc' := hpc' <;> rw [hpc']

variable (obj) in
theorem doHandshakeStep_closed (x : SslTransport S) :
    (x.doHandshakeStep obj).closed = x.closed ∧ (x.doHandshakeStep obj).closing = x.closing := by
  unfold doHandshakeStep settleHandshake
  dsimp only
  split
  · split <;> exact ⟨rfl, rfl⟩
  · exact ⟨rfl, rfl⟩
  · exact ⟨rfl, rfl⟩
  · split <;> exact ⟨rfl, rfl⟩

/-- What `_force_close` does to the two flags, if it is called. -/
def Ends (x y : SslTransport S) (forced : Bool) : Prop :=
  y.closed = (x.closed || forced) ∧ y.closing = (x.closing || !x.closed && forced)

theorem Ends.same (hclosed : y.closed = x.closed) (hclosing : y.closing = x.closing) : Ends x y false := by
  simp [Ends, hclosed, hclosing]

theorem Ends.forceClose (hclosed : y.closed = x.closed) (hclosing : y.closing = x.closing) :
    Ends x y.forceClose true := by
  cases h : x.closed <;> simp [Ends, hclosed, hclosing, h]

/-- After the handshake nothing happens to the data unless the base transport brings some. -/
theorem step_idle {a : Act} (hidle : x.pc = .idle) (hcomplete : x.handshakeComplete = true)
    (hbase : ∀ chunk, a ≠ .dataReceived chunk) (hstep : x.step obj a = some y) :
    y.pc = .idle ∧ y.handshakeComplete = true ∧ x.tells obj a = false := by
  cases a with
  | doHandshake =>
    obtain ⟨-, hy⟩ := Option.ite_none_right_eq_some.mp hstep
    cases hy
    have hsame : x.doHandshake obj = x := if_pos hcomplete
    have htells : x.tells obj .doHandshake = false := by simp [tells, hcomplete]
    rw [hsame]
    exact ⟨hidle, hcomplete, htells⟩
  | dataReceived chunk => exact absurd rfl (hbase chunk)
  | read =>
    obtain ⟨hpc, -⟩ := Option.ite_none_right_eq_some.mp hstep
    cases hidle.symm.trans hpc
  | write data =>
    obtain ⟨-, hy⟩ := Option.ite_none_right_eq_some.mp hstep
    cases hy
    obtain ⟨hpc, hcomplete', -⟩ := write_same obj (x := x) data
    exact ⟨hpc.trans hidle, hcomplete'.trans hcomplete, rfl⟩
  | ret raised =>
    obtain ⟨hpc, -⟩ := Option.ite_none_right_eq_some.mp hstep
    obtain hpc | hpc := hpc <;> cases hidle.symm.trans hpc

/-- `_force_close` is what closes a transport. -/
theorem step_ends {a : Act} (hstep : x.step obj a = some y) : Ends x y (x.forces obj a) := by
  cases a with
  | doHandshake =>
    obtain ⟨-, hy⟩ := Option.ite_none_right_eq_some.mp hstep
    cases hy
    unfold doHandshake
    split
    · exact .same rfl rfl
    · obtain ⟨hclosed, hclosing⟩ := doHandshakeStep_closed obj
        { x with handshakeStarted := true, handshakeFuture := some .pending }
      exact .same hclosed hclosing
  | dataReceived chunk =>
    obtain ⟨-, hy⟩ := Option.ite_none_right_eq_some.mp hstep
    cases hy
    unfold dataReceived
    dsimp only
    split
    · exact .same rfl rfl
    · obtain ⟨hclosed, hclosing⟩ := doHandshakeStep_closed obj
        { x with incoming := x.incoming ++ chunk }
      exact .same hclosed hclosing
  | read =>
    obtain ⟨-, hy⟩ := Option.ite_none_right_eq_some.mp hstep
    cases hy
    unfold readDecryptedData forces
    dsimp only
    cases (obj.read x.ssl x.incoming).report with
    | done data =>
      dsimp only
      split <;> exact .same rfl rfl
    | wantRead => exact .same rfl rfl
    | wantWrite => exact .forceClose rfl rfl
    | error => exact .forceClose rfl rfl
  | write data =>
    obtain ⟨-, hy⟩ := Option.ite_none_right_eq_some.mp hstep
    cases hy
    unfold write forces
    split
    · rename_i hclosing
      rw [hclosing]
      exact .same rfl rfl
    · rename_i hopen
      rw [Bool.eq_false_of_not_eq_true hopen]
      dsimp only
      split
      · rename_i hreport
        rw [hreport]
        exact .same rfl rfl
      all_goals
        rename_i hreport
        rw [hreport]
        exact .forceClose rfl rfl
  | ret raised =>
    obtain ⟨-, hy⟩ := Option.ite_none_right_eq_some.mp hstep
    cases hy
    unfold ret forces
    split
    · rename_i hpc
      rw [hpc]
      exact .same rfl rfl
    · rename_i hpc
      rw [hpc]
      cases raised with
      | true => exact .forceClose rfl rfl
      | false => exact .same rfl rfl
    · rename_i hpc
      rw [hpc]
      exact .same rfl rfl
    · rename_i hpc
      rw [hpc]
      exact .same rfl rfl

end SslTransport

end Uringcore
