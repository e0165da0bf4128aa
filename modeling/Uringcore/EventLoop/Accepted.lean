import Mathlib.Logic.Function.Basic
import Uringcore.EventLoop.Listening

/-!
# The owners of accepted descriptors

A history follows every accept from the socket that it was submitted on to the owners its descriptor
was handed to. A completion that has had its turn should have found one owner: a transport of the
server that listens on that socket, the program through `sock_accept`, or nobody, when it is closed
once. `handed_iff` says in which runs it has.
-/

namespace Uringcore

inductive AcceptOwner where
  /-- A transport of the server whose entry in `_servers` was made for the socket `listener`. -/
  | transport (tr : TransportId) (listener : Nat)
  /-- The program, to which `sock_accept` has returned it. -/
  | returned
  | closed
  deriving DecidableEq, Repr

/-- What raises in `sock_accept`. -/
inductive SockAcceptError where
  | typeError (msg : String)
  | valueError (msg : String)
  | attributeError (msg : String)
  deriving DecidableEq, Repr

/-- The rest of `sock_accept` when its future has got `v`: `conn, addr = v`, then
`conn.setblocking(False)`. -/
def finishSockAccept : Value → Except SockAcceptError Unit
  | .data (.int _) => .error (.typeError "cannot unpack non-iterable int object")
  | .data (.bytes [_, _]) => .error (.attributeError "'int' object has no attribute 'setblocking'")
  | .data (.bytes b) => .error <| .valueError <|
      if b.length < 2 then s!"not enough values to unpack (expected 2, got {b.length})"
      else "too many values to unpack (expected 2)"
  | .data (.msg ..) | .emptyMsg =>
      .error (.attributeError "'bytes' object has no attribute 'setblocking'")

/-- `sock_accept` never returns a socket. -/
theorem finishSockAccept_raises (v : Value) : ∃ e, finishSockAccept v = .error e := by
  unfold finishSockAccept
  split <;> exact ⟨_, rfl⟩

/-- Between the call of the factory and the return of `connection_made`. -/
def Frame.makes : Frame → Bool
  | protocolFactory .. | connectionMade _ (.accepted ..) => true
  | _ => false

def Frame.isFactory : Frame → Bool
  | protocolFactory .. => true
  | _ => false

/-- A connection was accepted. -/
def Cqe.accepted (c : Cqe) : Bool := c.sqe.op.opType.accepts && decide (0 ≤ c.payload.result)

/-- An `Exception`, which the handler of an accept catches. -/
def Return.isRaised : Return → Bool
  | raised _ | closeRaised _ => true
  | value _ | closeEscaped _ | escaped _ => false

structure Handovers where
  /-- The socket that a descriptor stands for. -/
  socket : Fd → Nat
  /-- The socket for which the entry in `_servers` was made. -/
  listener : Fd → Nat
  /-- By submission number: the socket that the operation was submitted on. -/
  submitted : List Nat
  /-- The completion that was handled last, by its place among those processed. -/
  current : Nat
  /-- The socket of the server whose factory it was handed to. -/
  maker : Nat
  /-- By completion. -/
  owners : Nat → List AcceptOwner

/-- An owner that a descriptor accepted on the socket `listener?` may have. -/
def AcceptOwner.mayHold (listener? : Option Nat) : AcceptOwner → Bool
  | transport _ listener => listener? = some listener
  | returned | closed => true

theorem Frame.ofAccept_of_makes {frame : Frame} (h : frame.makes = true) : frame.ofAccept = true := by
  cases frame with
  | connectionMade tr creator => cases creator <;> first | rfl | cases h
  | _ => first | rfl | cases h

namespace EventLoop
variable {K T : Type}

/-- The connection that is being made. -/
def makers (s : EventLoop K T) : List Frame := s.stack.filter Frame.makes

theorem makers_eq (s : EventLoop K T) : s.makers = s.acceptFrames.filter Frame.makes := by
  rw [makers, acceptFrames, List.filter_filter]
  apply List.filter_congr
  intro frame _
  cases h : frame.makes with
  | true => simp [Frame.ofAccept_of_makes h]
  | false => rfl

theorem SameAccepts.makers {s t : EventLoop K T} (h : SameAccepts s t) : t.makers = s.makers := by
  rw [makers_eq, h.frames, makers_eq]

end EventLoop

namespace ServerLoop
variable {K T : Type}

/-! ## The history -/

/-- The sockets that `create_server` makes entries for. -/
def entered (unix startServing : Bool) : List (Fd × Env) → EventLoop K T → List Fd
  | [], _ => []
  | (fd, env) :: socks, s => fd :: match s.listen env unix startServing fd with
    | (s, .ok ()) => entered unix startServing socks s
    | (_, .error _) => []

def enters (x : ServerLoop K T) : Act K T → List Fd
  | .createServer unix startServing socks => entered unix startServing socks x.loop
  | _ => []

/-- The descriptors of listening sockets that a step closes. -/
def closes (x : ServerLoop K T) : Act K T → List Fd
  | .loop (.call (.closeSock fd) _) => [fd]
  | .close i | .cancelServing i => (x.servers[i]?).elim [] UringServer.sockets
  | _ => []

def Act.handles : Act K T → Bool
  | .loop .handleCompletion => true
  | _ => false

/-- Whom a step hands the descriptor of the last handled completion to. -/
def gives (x : ServerLoop K T) (g : Handovers) : Act K T → List AcceptOwner
  | .loop .handleCompletion => match x.loop.results.head? with
    | some r => match r.opType, finishSockAccept (.data (.int r.result)) with
      | "accept", .ok () => [.returned]
      | _, _ => []
    | none => []
  | .loop (.ret r _) => match x.loop.stack.head?, r with
    | some (.protocolFactory ..), .value _ => [.transport x.loop.objs.length g.maker]
    -- `os.close(client_fd)`, and once more the finaliser of `sock`, which nothing else holds; what is no
    -- `Exception` leaves it to the finaliser
    | some (.protocolFactory ..), r => if r.isRaised then [.closed, .closed] else [.closed]
    -- `os.close(client_fd)`, though `_transports` has the transport
    | some (.connectionMade _ (.accepted ..)), r => if r.isRaised then [.closed] else []
    | _, _ => []
  | _ => []

def handovers (x : ServerLoop K T) (b : Act K T) (y : ServerLoop K T) (g : Handovers) : Handovers :=
  let current := if b.handles then x.loop.dealt.length else g.current
  { socket := fun fd => g.socket fd + (x.closes b).count fd
    listener := fun fd => if fd ∈ x.enters b then g.socket fd else g.listener fd
    submitted := g.submitted ++ (y.loop.issued.drop x.loop.issued.length).map fun r => g.socket r.1
    current := current
    maker := if b.handles then (x.loop.results.head?).elim 0 (fun r => g.listener r.fd) else g.maker
    owners := Function.update g.owners current (g.owners current ++ x.gives g b) }

def noHandovers : Handovers := ⟨fun _ => 0, fun _ => 0, [], 0, 0, fun _ => []⟩

/-- The descriptor that the `j`th completion has brought, if it has brought one, has one owner, or is
about to get it: a factory is at work. -/
def HandedAt (x : ServerLoop K T) (g : Handovers) (j : Nat) (c : Cqe) : Prop :=
  c.accepted = true →
    ((∃ frame ∈ x.loop.makers, frame.isFactory) ∧ g.current = j ∧ g.owners j = []) ∨
      ∃ o, g.owners j = [o] ∧ o.mayHold g.submitted[c.sqe.seq]?

/-- So it is with every completion that has had its turn. -/
def Handed (x : ServerLoop K T) (g : Handovers) : Prop :=
  ∀ j c, x.loop.dealt[j]? = some c → x.HandedAt g j c

/-- A factory that returns is that of the server which listens on the socket of the accept; neither it
nor `connection_made` raises an `Exception`. -/
def MakesRight (x : ServerLoop K T) (g : Handovers) (frame : Frame) (r : Return) : Prop :=
  match frame, r with
  | .protocolFactory .., .value _ =>
      ∀ c ∈ x.loop.dealt[g.current]?, g.submitted[c.sqe.seq]? = some g.maker
  | .protocolFactory .., r | .connectionMade _ (.accepted ..), r => r.isRaised = false
  | _, _ => True

instance (x : ServerLoop K T) (g : Handovers) : ∀ frame r, Decidable (x.MakesRight g frame r)
  | .protocolFactory .., .value _ => Option.decidableForallMem _
  | .protocolFactory .., .raised _ | .protocolFactory .., .closeRaised _
  | .protocolFactory .., .closeEscaped _ | .protocolFactory .., .escaped _
  | .connectionMade _ (.accepted ..), _ => inferInstanceAs (Decidable (_ = false))
  | .connectionMade _ .connection, _ | .connectionMade _ .unixConnection, _ | .user, _
  | .dataReceived _, _ | .eofReceived .., _ | .pauseWriting _, _ | .resumeWriting .., _
  | .connectionLost _, _ | .rearmAccept _, _ => .isTrue trivial

/-- An accepted descriptor whose turn has come goes to a server, which makes its transport; while one
waits, no exception leaves `_process_completions` and `run_tick` does not unwind. -/
def HandsOver : ServerLoop K T × Handovers → Act K T → Prop
  | (x, _), .loop .handleCompletion => ∀ c ∈ x.loop.handled?, c.accepted →
      x.loop.servers.contains c.sqe.fd
  | (x, g), .loop (.ret r _) => ∀ frame ∈ x.loop.stack.head?, x.MakesRight g frame r ∧
      (frame.aborts r → ∀ c ∈ x.loop.waiting, ¬ c.accepted)
  | (x, _), .loop (.rearmAccept env) =>
      x.loop.core.HasRoom ∧ env.enter.isOk ∨ ∀ c ∈ x.loop.waiting, ¬ c.accepted
  | _, _ => True

instance : ∀ (p : ServerLoop K T × Handovers) (b : Act K T), Decidable (HandsOver p b)
  | (x, _), .loop .handleCompletion => Option.decidableForallMem x.loop.handled?
  | (x, _), .loop (.ret r _) =>
      have (frame : Frame) : Decidable (frame.aborts r → ∀ c ∈ x.loop.waiting, ¬ c.accepted) :=
        have : Decidable (∀ c ∈ x.loop.waiting, ¬ c.accepted) := List.decidableBAll _ _
        inferInstance
      Option.decidableForallMem x.loop.stack.head?
  | (x, _), .loop (.rearmAccept env) =>
      have : Decidable (∀ c ∈ x.loop.waiting, ¬ c.accepted) := List.decidableBAll _ _
      inferInstanceAs (Decidable (x.loop.core.HasRoom ∧ env.enter.isOk = true ∨ _))
  | _, .loop (.consume _) | _, .loop (.complete ..) | _, .loop (.callSoon _)
  | _, .loop (.startTick ..) | _, .loop .runHandle | _, .loop (.call ..) | _, .createServer ..
  | _, .startServing _ | _, .serveForever _ | _, .cancelServing _ | _, .close _
  | _, .acceptMultishot .. => .isTrue trivial

/-! ## What a step does -/

section
variable [LE T] [DecidableLE T] {x y : ServerLoop K T} {b : Act K T}

inductive Turn (x : ServerLoop K T) (b : Act K T) (y : ServerLoop K T) : Prop
  | quiet (hmakers : y.loop.makers = x.loop.makers) (hdealt : y.loop.dealt = x.loop.dealt)
      (hhandles : b.handles = false) (hgives : ∀ g, x.gives g b = []) (hok : ∀ g, HandsOver (x, g) b)
  | handled {r : ResultTuple} {c : Cqe} (hb : b = .loop .handleCompletion)
      (hr : x.loop.results.head? = some r) (hidle : x.loop.makers = [])
      (hc : x.loop.handled? = some c) (hseen : c.seen = (r.fd, r.opType, r.result))
      (hmakers : y.loop.makers = (x.loop.factoryFrame? r).toList)
      (hdealt : y.loop.dealt = x.loop.dealt ++ [c])
  | made {frame : Frame} {rest : List Frame} {r : Return} {env : Env} (hb : b = .loop (.ret r env))
      (htop : x.loop.stack.head? = some frame) (hmakes : frame.makes = true)
      (hbefore : x.loop.makers = frame :: rest)
      (hmakers : y.loop.makers = (x.loop.framesAfter frame r).filter Frame.makes ++ rest)
      (hdealt : y.loop.dealt = x.loop.dealt ++ if frame.aborts r then x.loop.waiting else [])
  /-- The completions that waited are lost. -/
  | dropped (hmakers : y.loop.makers = x.loop.makers)
      (hdealt : y.loop.dealt = x.loop.dealt ++ x.loop.waiting) (hhandles : b.handles = false)
      (hgives : ∀ g, x.gives g b = [])
      (hiff : ∀ g, HandsOver (x, g) b ↔ ∀ c ∈ x.loop.waiting, ¬ c.accepted)

omit [LE T] [DecidableLE T] in
theorem gives_handles (g : Handovers) : x.gives g (.loop .handleCompletion) = [] := by
  simp only [gives]
  cases x.loop.results.head? with
  | none => rfl
  | some r => simp [finishSockAccept]

omit [LE T] [DecidableLE T] in
theorem gives_ret (g : Handovers) {frame : Frame} {r : Return} {env : Env}
    (htop : x.loop.stack.head? = some frame) (hmakes : frame.makes = false) :
    x.gives g (.loop (.ret r env)) = [] := by
  simp only [gives, htop]
  cases frame with
  | protocolFactory listener client multi => cases hmakes
  | connectionMade tr creator => cases creator <;> first | rfl | cases hmakes
  | _ => rfl

omit [LE T] [DecidableLE T] in
/-- Nothing is asked of a return to other code. -/
theorem makesRight_other (g : Handovers) {frame : Frame} (r : Return) (hmakes : frame.makes = false) :
    x.MakesRight g frame r := by
  cases frame with
  | protocolFactory listener client multi => cases hmakes
  | connectionMade tr creator =>
    cases creator with
    | accepted listener multi => cases hmakes
    | connection => trivial
    | unixConnection => trivial
  | _ => trivial

omit [LE T] [DecidableLE T] in
/-- Only what makes a connection goes on making it. -/
theorem framesAfter_makes {s : EventLoop K T} {frame : Frame} (r : Return) (h : frame.makes = false) :
    s.framesAfter frame r = [] := by
  unfold EventLoop.framesAfter
  split
  · rfl
  · cases frame with
    | protocolFactory listener client multi => cases h
    | connectionMade tr creator => cases creator <;> first | rfl | cases h
    | _ => rfl

theorem turn_ret (hs : x.loop.AcceptsSound) {r : Return} {env : Env} {t : EventLoop K T}
    (h : x.loop.step (.ret r env) = some t) : Turn x (.loop (.ret r env)) { x with loop := t } := by
  obtain ⟨frame, rest, hstack, -, hsame⟩ := EventLoop.step_ret h hs.made
  have htop : x.loop.stack.head? = some frame := by rw [hstack]; rfl
  have hmakers : t.makers = (x.loop.framesAfter frame r).filter Frame.makes ++ rest.filter Frame.makes := by
    rw [hsame.makers, EventLoop.makers, List.filter_append]
  have hbefore : x.loop.makers = [frame].filter Frame.makes ++ rest.filter Frame.makes := by
    rw [EventLoop.makers, hstack, ← List.filter_append]
    rfl
  have hkept (haborts : frame.aborts r = false) : t.dealt = x.loop.dealt := by
    rw [hsame.dealt, EventLoop.dealt, haborts, EventLoop.dealt]
    rfl
  have hdropped (haborts : frame.aborts r = true) : t.dealt = x.loop.dealt ++ x.loop.waiting :=
    EventLoop.dealt_dropped hsame.drained (hsame.results.trans (if_pos haborts))
  by_cases hmakes : frame.makes
  · rw [List.filter_cons_of_pos hmakes] at hbefore
    refine .made rfl htop hmakes hbefore hmakers ?_
    cases haborts : frame.aborts r with
    | true => exact hdropped haborts
    | false => exact (hkept haborts).trans (List.append_nil _).symm
  · rw [Bool.not_eq_true] at hmakes
    rw [framesAfter_makes r hmakes] at hmakers
    rw [List.filter_cons_of_neg (by simp [hmakes])] at hbefore
    have hgives (g : Handovers) : x.gives g (.loop (.ret r env)) = [] := gives_ret g htop hmakes
    cases haborts : frame.aborts r with
    | true =>
      refine .dropped (hmakers.trans hbefore.symm) (hdropped haborts) rfl hgives fun g => ?_
      simp [HandsOver, htop, haborts, makesRight_other g r hmakes]
    | false =>
      refine .quiet (hmakers.trans hbefore.symm) (hkept haborts) rfl hgives fun g => ?_
      simp [HandsOver, htop, haborts, makesRight_other g r hmakes]

theorem turn_rearmAccept {env : Env} {t : EventLoop K T} (h : x.loop.step (.rearmAccept env) = some t) :
    Turn x (.loop (.rearmAccept env)) { x with loop := t } := by
  obtain ⟨listener, rest, hstack, hframes, -, hresults, hdrained⟩ := EventLoop.step_rearmAccept h
  have hmakers : t.makers = x.loop.makers := by
    have hrest : t.makers = (rest.filter Frame.ofAccept).filter Frame.makes := by
      rw [EventLoop.makers_eq, hframes]
    rw [hrest, EventLoop.makers_eq, EventLoop.acceptFrames, hstack]
    rfl
  by_cases haccepted : x.loop.core.HasRoom ∧ env.enter.isOk
  · rw [if_pos haccepted] at hresults
    have hdealt : t.dealt = x.loop.dealt := by
      rw [EventLoop.dealt, hresults, hdrained, EventLoop.dealt]
    exact .quiet hmakers hdealt rfl (fun _ => rfl) fun _ => .inl haccepted
  · rw [if_neg haccepted] at hresults
    exact .dropped hmakers (EventLoop.dealt_dropped hdrained hresults) rfl (fun _ => rfl)
      fun _ => or_iff_right haccepted

theorem turn_handleCompletion (hs : x.loop.AcceptsSound) {t : EventLoop K T}
    (h : x.loop.step .handleCompletion = some t) :
    Turn x (.loop .handleCompletion) { x with loop := t } := by
  obtain ⟨r, rest, hr, hstack, hsame⟩ := EventLoop.step_handleCompletion h
  obtain ⟨c, hc, -, hseen⟩ := hs.tied.handled hr
  have hidle : x.loop.makers = [] := by rw [EventLoop.makers, hstack]; rfl
  have hdealt : t.dealt = x.loop.dealt ++ [c] := by
    rw [EventLoop.dealt_handled hs.tied hr hsame.drained hsame.results, hc]
    rfl
  refine .handled rfl (by rw [hr]; rfl) hidle hc hseen ?_ hdealt
  rw [hsame.makers, EventLoop.makers]
  unfold EventLoop.factoryFrame?
  split
  · split
    · rfl
    · split <;> rfl
  · rfl

omit [LE T] [DecidableLE T] in
/-- A step that does nothing to an accept, as far as the loop goes. -/
theorem turn_same {t : EventLoop K T} (h : x.loop.SameAccepts t) (hhandles : b.handles = false)
    (hgives : ∀ g, x.gives g b = []) (hok : ∀ g, HandsOver (x, g) b) (servers : List UringServer) :
    Turn x b ⟨t, servers⟩ :=
  .quiet h.makers h.dealt hhandles hgives hok

theorem turn_loop (hs : x.loop.AcceptsSound) {a : EventLoop.Act K T} (ha : a.onServer = false)
    {t : EventLoop K T} (h : x.loop.step a = some t) : Turn x (.loop a) { x with loop := t } := by
  have hquiet (ha : a.quietForAccepts = true) (hgives : ∀ g, x.gives g (.loop a) = [])
      (hok : ∀ g, HandsOver (x, g) (.loop a)) (hhandles : Act.handles (.loop a) = false) :
      Turn x (.loop a) { x with loop := t } :=
    turn_same (EventLoop.step_quiet h ha) hhandles hgives hok x.servers
  cases a with
  | consume n => exact hquiet rfl (fun _ => rfl) (fun _ => trivial) rfl
  | complete i payload select more => exact hquiet rfl (fun _ => rfl) (fun _ => trivial) rfl
  | callSoon k => exact hquiet rfl (fun _ => rfl) (fun _ => trivial) rfl
  | runHandle => exact hquiet rfl (fun _ => rfl) (fun _ => trivial) rfl
  | startTick clock enter =>
    simp only [EventLoop.step] at h
    split at h
    · rename_i hidle
      cases h
      refine .quiet ?_ (EventLoop.dealt_startTick clock enter hidle) rfl (fun _ => rfl) fun _ => trivial
      rw [EventLoop.makers_eq, (EventLoop.startTick_accepts clock enter hidle).1, EventLoop.makers_eq]
    · cases h
  | handleCompletion => exact turn_handleCompletion hs h
  | ret r env => exact turn_ret hs h
  | rearmAccept env => exact turn_rearmAccept h
  | call c env =>
    cases c with
    | sockAccept fd k =>
      simp only [EventLoop.step] at h
      split at h
      · cases h
        obtain ⟨hframes, -, hresults, hdrained⟩ := EventLoop.sockAccept_accepts env k fd x.loop
        refine .quiet ?_ ?_ rfl (fun _ => rfl) fun _ => trivial
        · rw [EventLoop.makers_eq, EventLoop.makers_eq]
          exact congrArg _ hframes
        · exact congrArg₂ (fun (l : List Cqe) (r : List ResultTuple) => l.take (l.length - r.length))
            hdrained hresults
      · cases h
    | createServer unix startServing fd => cases ha
    | _ => exact hquiet rfl (fun _ => rfl) (fun _ => trivial) rfl

omit [LE T] [DecidableLE T] in
theorem listenAll_same (unix startServing : Bool) (socks : List (Fd × Env)) (s : EventLoop K T) :
    (s.listenAll unix startServing socks).1.makers = s.makers ∧
      (s.listenAll unix startServing socks).1.dealt = s.dealt := by
  induction socks generalizing s with
  | nil => exact ⟨rfl, rfl⟩
  | cons sock socks ih =>
    obtain ⟨fd, env⟩ := sock
    have hlisten : (s.listen env unix startServing fd).1.makers = s.makers ∧
        (s.listen env unix startServing fd).1.dealt = s.dealt := by
      cases unix <;> cases startServing <;> exact ⟨rfl, rfl⟩
    unfold EventLoop.listenAll
    split
    · rename_i u hok
      rw [hok] at hlisten
      exact ⟨(ih u).1.trans hlisten.1, (ih u).2.trans hlisten.2⟩
    · rename_i u e herror
      rwa [herror] at hlisten

theorem turn_step (hs : x.loop.AcceptsSound) (hstep : x.step b = some y) : Turn x b y := by
  cases stepped hstep with
  | loop ha hloop => exact turn_loop hs ha hloop
  | createServer unix startServing socks hruns =>
    have hall := listenAll_same unix startServing socks x.loop
    unfold createServer
    split
    · rename_i u hok
      rw [hok] at hall
      exact .quiet hall.1 hall.2 rfl (fun _ => rfl) fun _ => trivial
    · rename_i u e herror
      rw [herror] at hall
      exact .quiet hall.1 hall.2 rfl (fun _ => rfl) fun _ => trivial
  | startServing hserver hruns => exact .quiet rfl rfl rfl (fun _ => rfl) fun _ => trivial
  | serveForever hserver hruns => exact .quiet rfl rfl rfl (fun _ => rfl) fun _ => trivial
  | cancelServing hserver hruns hserving =>
    exact turn_same (b := .cancelServing _) (closeServers_accepts _ x.loop) rfl (fun _ => rfl)
      (fun _ => trivial) _
  | close hserver hruns =>
    exact turn_same (b := .close _) (closeServers_accepts _ x.loop) rfl (fun _ => rfl) (fun _ => trivial) _
  | acceptMultishot fd env hruns => exact .quiet rfl rfl rfl (fun _ => rfl) fun _ => trivial

/-! ## The history stays true -/

structure Followed (x : ServerLoop K T) (g : Handovers) : Prop where
  accepts : x.loop.AcceptsSound
  issued : x.loop.IssuedSound
  length : g.submitted.length = x.loop.issued.length
  /-- A completion that waits has no owner. -/
  fresh : ∀ j, x.loop.dealt.length ≤ j → g.owners j = []
  one : x.loop.makers.length ≤ 1
  making : ∀ frame ∈ x.loop.makers, (∃ c, x.loop.dealt[g.current]? = some c ∧ c.accepted = true) ∧
    (g.owners g.current = [] ↔ frame.isFactory = true)

omit [LE T] [DecidableLE T] in
theorem followed_init {setup : Setup} {bufferSize bufferCount : Nat}
    {core : UringCore FutId (Handle K) T}
    (hnew : UringCore.new setup bufferSize bufferCount = .ok core) :
    Followed (init core) noHandovers where
  accepts := EventLoop.acceptsSound_init hnew
  issued := .init hnew
  length := rfl
  fresh _ _ := rfl
  one := Nat.zero_le _
  making frame hframe := by cases hframe

/-- What was submitted stays submitted. -/
theorem issued_step (hs : x.loop.AcceptsSound) (hi : x.loop.IssuedSound) (hstep : x.step b = some y) :
    y.loop.IssuedSound ∧ x.loop.issued <+: y.loop.issued := by
  have hkept := step_rule (I := fun s => s.CoreSound ∧ s.IssuedSound ∧ x.loop.issued <+: s.issued)
    ?_ ?_ ⟨hs.core, hi, List.prefix_rfl⟩ hstep
  · exact hkept.2
  · rintro s₀ a s t ⟨hcore, hissued, hprefix⟩ hmove
    exact ⟨hcore.move hmove, hissued.move hcore hmove, hprefix.trans (hmove.issued_prefix hcore)⟩
  · rintro s env fd ⟨hcore, hissued, hprefix⟩
    refine ⟨hcore.request env fd .acceptMultishot,
      hissued.request hcore env fd .acceptMultishot (by simp [Request.future?]), ?_⟩
    exact hprefix.trans (List.prefix_append _ _)

variable {g : Handovers}

theorem Followed.length_next (h : Followed x g) (hstep : x.step b = some y) :
    (handovers x b y g).submitted.length = y.loop.issued.length := by
  have hle := (issued_step h.accepts h.issued hstep).2.length_le
  have hlength := h.length
  simp only [handovers, List.length_append, List.length_map, List.length_drop]
  omega

omit [LE T] [DecidableLE T] in
/-- The socket of an accept does not change once it is known. -/
theorem Followed.submitted_next (h : Followed x g) {c : Cqe} (hc : c ∈ x.loop.drained) :
    (handovers x b y g).submitted[c.sqe.seq]? = g.submitted[c.sqe.seq]? := by
  obtain ⟨req, hreq, -⟩ := h.issued.drained c hc
  have hlt : c.sqe.seq < g.submitted.length := by
    rw [h.length]
    exact (List.getElem?_eq_some_iff.mp hreq).1
  exact List.getElem?_append_left hlt

omit [LE T] [DecidableLE T] in
theorem owners_next (hgives : x.gives g b = []) : (handovers x b y g).owners = g.owners := by
  simp only [handovers, hgives, List.append_nil]
  exact Function.update_eq_self _ _

omit [LE T] [DecidableLE T] in
theorem mem_drained_of_dealt {s : EventLoop K T} {j : Nat} {c : Cqe} (h : s.dealt[j]? = some c) :
    c ∈ s.drained :=
  List.mem_of_mem_take (List.mem_of_getElem? h)

omit [LE T] [DecidableLE T] in
/-- Nobody has a descriptor whose completion waits. -/
theorem Followed.not_handedAt (h : Followed x g) {j : Nat} (hj : x.loop.dealt.length ≤ j) {c : Cqe} :
    x.HandedAt g j c ↔ ¬ c.accepted := by
  constructor
  · intro hhanded haccepted
    rcases hhanded haccepted with ⟨⟨frame, hframe, -⟩, rfl, -⟩ | ⟨o, ho, -⟩
    · obtain ⟨⟨c', hc', -⟩, -⟩ := h.making frame hframe
      have hlt := (List.getElem?_eq_some_iff.mp hc').1
      omega
    · rw [h.fresh j hj] at ho
      cases ho
  · intro hnot haccepted
    exact absurd haccepted hnot

omit [LE T] [DecidableLE T] in
/-- Nothing happens to the owner of a completion. -/
theorem handedAt_congr {g' : Handovers} {j : Nat} {c : Cqe} (hmakers : y.loop.makers = x.loop.makers)
    (hcurrent : g'.current = g.current) (howners : g'.owners = g.owners)
    (hsubmitted : g'.submitted[c.sqe.seq]? = g.submitted[c.sqe.seq]?) :
    y.HandedAt g' j c ↔ x.HandedAt g j c := by
  unfold HandedAt
  rw [hmakers, hcurrent, howners, hsubmitted]

/-- A step that hands nothing over. -/
theorem Followed.same (h : Followed x g) (hstep : x.step b = some y)
    (hmakers : y.loop.makers = x.loop.makers) (hdealt : x.loop.dealt <+: y.loop.dealt)
    (hhandles : b.handles = false) (hgives : x.gives g b = []) : Followed y (handovers x b y g) where
  accepts := acceptsSound_step h.accepts hstep
  issued := (issued_step h.accepts h.issued hstep).1
  length := h.length_next hstep
  fresh j hj := by
    rw [owners_next hgives]
    exact h.fresh j (hdealt.length_le.trans hj)
  one := by
    rw [hmakers]
    exact h.one
  making frame hframe := by
    rw [hmakers] at hframe
    have hcurrent : (handovers x b y g).current = g.current := by simp [handovers, hhandles]
    obtain ⟨⟨c, hc, haccepted⟩, howners⟩ := h.making frame hframe
    rw [hcurrent, owners_next hgives]
    exact ⟨⟨c, History.getElem?_mono hc hdealt, haccepted⟩, howners⟩

omit [LE T] [DecidableLE T] in
theorem Followed.handedAt_same (h : Followed x g) {j : Nat} {c : Cqe} (hc : c ∈ x.loop.drained)
    (hmakers : y.loop.makers = x.loop.makers) (hhandles : b.handles = false)
    (hgives : x.gives g b = []) : y.HandedAt (handovers x b y g) j c ↔ x.HandedAt g j c := by
  apply handedAt_congr hmakers
  · simp [handovers, hhandles]
  · exact owners_next hgives
  · exact h.submitted_next hc

omit [LE T] [DecidableLE T] in
/-- What was dealt before, and what comes to it. -/
theorem handed_append {g' : Handovers} {new : List Cqe} (hdealt : y.loop.dealt = x.loop.dealt ++ new)
    (hold : ∀ j c, x.loop.dealt[j]? = some c → (y.HandedAt g' j c ↔ x.HandedAt g j c)) :
    Handed y g' ↔ Handed x g ∧ ∀ i c, new[i]? = some c → y.HandedAt g' (x.loop.dealt.length + i) c := by
  unfold Handed
  rw [hdealt, History.forall_append]
  apply and_congr_left
  intro _
  exact forall_congr' fun j => forall_congr' fun c => imp_congr_right fun hc => hold j c hc

omit [LE T] [DecidableLE T] in
theorem Followed.handed_quiet (h : Followed x g) (hmakers : y.loop.makers = x.loop.makers)
    (hdealt : y.loop.dealt = x.loop.dealt) (hhandles : b.handles = false) (hgives : x.gives g b = []) :
    Handed y (handovers x b y g) ↔ Handed x g := by
  have hnone : y.loop.dealt = x.loop.dealt ++ [] := by rw [hdealt, List.append_nil]
  rw [handed_append hnone fun j c hc =>
    h.handedAt_same (mem_drained_of_dealt hc) hmakers hhandles hgives]
  simp

omit [LE T] [DecidableLE T] in
theorem Followed.handed_dropped (h : Followed x g) (hmakers : y.loop.makers = x.loop.makers)
    (hdealt : y.loop.dealt = x.loop.dealt ++ x.loop.waiting) (hhandles : b.handles = false)
    (hgives : x.gives g b = []) :
    Handed y (handovers x b y g) ↔ Handed x g ∧ ∀ c ∈ x.loop.waiting, ¬ c.accepted := by
  rw [handed_append hdealt fun j c hc =>
    h.handedAt_same (mem_drained_of_dealt hc) hmakers hhandles hgives]
  apply and_congr_right
  intro _
  have hwaiting {i : Nat} {c : Cqe} (hc : x.loop.waiting[i]? = some c) :
      y.HandedAt (handovers x b y g) (x.loop.dealt.length + i) c ↔ ¬ c.accepted := by
    have hmem : c ∈ x.loop.drained := List.mem_of_mem_drop (List.mem_of_getElem? hc)
    rw [h.handedAt_same hmem hmakers hhandles hgives]
    exact h.not_handedAt (Nat.le_add_right _ _)
  constructor
  · intro hall c hc
    obtain ⟨i, hi⟩ := List.getElem?_of_mem hc
    exact (hwaiting hi).mp (hall i c hi)
  · intro hnone i c hc
    exact (hwaiting hc).mpr (hnone c (List.mem_of_getElem? hc))

/-! ## The handler of an accept -/

omit [LE T] [DecidableLE T] in
theorem factoryFrame?_isFactory {s : EventLoop K T} {r : ResultTuple} {frame : Frame}
    (h : s.factoryFrame? r = some frame) : frame.isFactory = true := by
  unfold EventLoop.factoryFrame? at h
  split at h
  · split at h
    · cases h
      rfl
    · split at h
      · cases h
        rfl
      · cases h
  · cases h

omit [LE T] [DecidableLE T] in
/-- The factory is called for what was accepted by a listener that has an entry. -/
theorem factoryFrame?_isSome {s : EventLoop K T} {r : ResultTuple} {c : Cqe}
    (hseen : c.seen = (r.fd, r.opType, r.result)) :
    (s.factoryFrame? r).isSome ↔ c.accepted ∧ s.servers.contains c.sqe.fd := by
  simp only [Cqe.seen, Prod.mk.injEq] at hseen
  obtain ⟨hfd, hop, hresult⟩ := hseen
  have hname : c.sqe.op.opType.accepts = true ↔ r.opType = "accept" ∨ r.opType = "accept_multi" := by
    rw [← hop]
    cases c.sqe.op.opType <;> decide
  unfold EventLoop.factoryFrame? Cqe.accepted
  simp only [Bool.and_eq_true, decide_eq_true_eq, hfd, hresult, hname]
  by_cases hnonneg : 0 ≤ r.result <;> by_cases haccept : r.opType = "accept" <;>
    by_cases hmulti : r.opType = "accept_multi" <;> simp [hnonneg, haccept, hmulti]

omit [LE T] [DecidableLE T] in
theorem handledCompletion_accepted {s : EventLoop K T} {r : ResultTuple} {c : Cqe}
    (hseen : c.seen = (r.fd, r.opType, r.result)) {frame : Frame}
    (hframe : frame ∈ (s.factoryFrame? r).toList) : c.accepted = true := by
  have hsome : (s.factoryFrame? r).isSome := by
    rw [Option.mem_toList] at hframe
    rw [hframe]
    rfl
  exact ((factoryFrame?_isSome hseen).mp hsome).1

theorem Followed.handled (h : Followed x g) {r : ResultTuple} {c : Cqe}
    (hstep : x.step (.loop .handleCompletion) = some y) (hseen : c.seen = (r.fd, r.opType, r.result))
    (hmakers : y.loop.makers = (x.loop.factoryFrame? r).toList)
    (hdealt : y.loop.dealt = x.loop.dealt ++ [c]) :
    Followed y (handovers x (.loop .handleCompletion) y g) where
  accepts := acceptsSound_step h.accepts hstep
  issued := (issued_step h.accepts h.issued hstep).1
  length := h.length_next hstep
  fresh j hj := by
    rw [owners_next (gives_handles g)]
    apply h.fresh j
    rw [hdealt, List.length_append] at hj
    omega
  one := by
    rw [hmakers]
    cases x.loop.factoryFrame? r <;> simp
  making frame hframe := by
    rw [hmakers] at hframe
    have haccepted := handledCompletion_accepted hseen hframe
    rw [Option.mem_toList] at hframe
    rw [owners_next (gives_handles g)]
    refine ⟨⟨c, ?_, haccepted⟩, ?_⟩
    · rw [hdealt]
      exact List.getElem?_concat_length
    · exact iff_of_true (h.fresh _ (Nat.le_refl _)) (factoryFrame?_isFactory hframe)

omit [LE T] [DecidableLE T] in
theorem Followed.handed_handled (h : Followed x g) {r : ResultTuple} {c : Cqe} (hidle : x.loop.makers = [])
    (hc : x.loop.handled? = some c) (hseen : c.seen = (r.fd, r.opType, r.result))
    (hmakers : y.loop.makers = (x.loop.factoryFrame? r).toList)
    (hdealt : y.loop.dealt = x.loop.dealt ++ [c]) :
    Handed y (handovers x (.loop .handleCompletion) y g) ↔
      Handed x g ∧ HandsOver (x, g) (.loop .handleCompletion) := by
  have howners := owners_next (y := y) (gives_handles (x := x) g)
  have hfd : c.sqe.fd = r.fd := congrArg Prod.fst hseen
  have hcurrent : (handovers x (.loop .handleCompletion) y g).current = x.loop.dealt.length := rfl
  have hold (j : Nat) (c' : Cqe) (hc' : x.loop.dealt[j]? = some c') :
      y.HandedAt (handovers x (.loop .handleCompletion) y g) j c' ↔ x.HandedAt g j c' := by
    have hlt := (List.getElem?_eq_some_iff.mp hc').1
    have hne : x.loop.dealt.length ≠ j := Nat.ne_of_gt hlt
    unfold HandedAt
    rw [howners, h.submitted_next (mem_drained_of_dealt hc'), hcurrent, hidle]
    simp [hne]
  have hmem : c ∈ x.loop.drained := List.mem_of_getElem? hc
  have hnew : y.HandedAt (handovers x (.loop .handleCompletion) y g) x.loop.dealt.length c ↔
      (c.accepted → x.loop.servers.contains c.sqe.fd) := by
    unfold HandedAt
    rw [howners, hcurrent, h.fresh _ (Nat.le_refl _)]
    apply imp_congr_right
    intro haccepted
    have hfactory : (∃ frame ∈ y.loop.makers, frame.isFactory = true) ↔
        x.loop.servers.contains c.sqe.fd := by
      have hsome := factoryFrame?_isSome (s := x.loop) hseen
      rw [hmakers]
      constructor
      · rintro ⟨frame, hframe, -⟩
        rw [Option.mem_toList] at hframe
        exact (hsome.mp (by rw [hframe]; rfl)).2
      · intro hserved
        obtain ⟨frame, hframe⟩ := Option.isSome_iff_exists.mp (hsome.mpr ⟨haccepted, hserved⟩)
        exact ⟨frame, by rw [hframe]; simp, factoryFrame?_isFactory hframe⟩
    rw [hfactory]
    simp
  rw [handed_append hdealt hold]
  apply and_congr_right
  intro _
  have hlast : (∀ i c', [c][i]? = some c' →
      y.HandedAt (handovers x (.loop .handleCompletion) y g) (x.loop.dealt.length + i) c') ↔
      y.HandedAt (handovers x (.loop .handleCompletion) y g) x.loop.dealt.length c := by
    constructor
    · intro hall
      exact hall 0 c rfl
    · intro hone i c' hc'
      cases i with
      | zero =>
        cases hc'
        exact hone
      | succ i => cases hc'
  rw [hlast, hnew]
  simp [HandsOver, hc]

/-- What a return to `frame` does to the connection that is being made. -/
inductive Made (x y : ServerLoop K T) (g : Handovers) (frame : Frame) (r : Return)
    (given : List AcceptOwner) : Prop
  | transport (hbefore : frame.isFactory = true)
      (hright : x.MakesRight g frame r ↔
        ∀ c ∈ x.loop.dealt[g.current]?, g.submitted[c.sqe.seq]? = some g.maker)
      (hgiven : given = [.transport x.loop.objs.length g.maker])
      (hafter : ∃ frame, y.loop.makers = [frame] ∧ frame.isFactory = false)
  /-- What becomes of the call does not touch the transport. -/
  | told (hbefore : frame.isFactory = false) (hright : x.MakesRight g frame r)
      (hgiven : given = []) (hafter : y.loop.makers = [])
  /-- The exception is no `Exception`. -/
  | finalised (hbefore : frame.isFactory = true) (hright : x.MakesRight g frame r)
      (hgiven : given = [.closed]) (hafter : y.loop.makers = [])
  | closed (hwrong : ¬ x.MakesRight g frame r) (hafter : y.loop.makers = [])
      (hgiven : given = [.closed, .closed] ∨ given = [.closed] ∧ frame.isFactory = false)

omit [LE T] [DecidableLE T] in
theorem Followed.madeBy (h : Followed x g) {frame : Frame} {rest : List Frame} {r : Return} {env : Env}
    (htop : x.loop.stack.head? = some frame) (hmakes : frame.makes = true)
    (hbefore : x.loop.makers = frame :: rest)
    (hmakers : y.loop.makers = (x.loop.framesAfter frame r).filter Frame.makes ++ rest) :
    Made x y g frame r (x.gives g (.loop (.ret r env))) := by
  have hone := h.one
  rw [hbefore, List.length_cons] at hone
  obtain rfl : rest = [] := List.length_eq_zero_iff.mp (by omega)
  rw [List.append_nil] at hmakers
  cases frame with
  | protocolFactory listener client multi =>
    cases hescape : r.escape? with
    | some e =>
      have hnone : y.loop.makers = [] := by
        rw [hmakers]
        simp [EventLoop.framesAfter, hescape]
      cases r with
      | closeEscaped e' => exact .finalised rfl rfl (by simp only [gives, htop]; rfl) hnone
      | escaped e' => exact .finalised rfl rfl (by simp only [gives, htop]; rfl) hnone
      | _ => cases hescape
    | none =>
      rcases Return.caught_cases hescape with ⟨truthy, rfl⟩ | ⟨handlerRaises, rfl⟩ | ⟨exc, rfl⟩
      · refine .transport rfl Iff.rfl ?_ ⟨_, hmakers, rfl⟩
        simp only [gives, htop]
      · refine .closed (by rintro ⟨⟩) (hmakers.trans ?_) (.inl ?_)
        · cases multi <;> rfl
        · simp only [gives, htop]
          rfl
      · refine .closed (by rintro ⟨⟩) (hmakers.trans ?_) (.inl ?_)
        · cases multi <;> rfl
        · simp only [gives, htop]
          rfl
  | connectionMade tr creator =>
    cases creator with
    | accepted listener multi =>
      have hafter : y.loop.makers = [] := by
        rw [hmakers]
        unfold EventLoop.framesAfter
        split
        · rfl
        · cases multi <;> rfl
      cases hraised : r.isRaised with
      | false =>
        refine .told rfl hraised ?_ hafter
        simp [gives, htop, hraised]
      | true =>
        refine .closed (by simp [MakesRight, hraised]) hafter (.inr ⟨?_, rfl⟩)
        simp [gives, htop, hraised]
    | connection => cases hmakes
    | unixConnection => cases hmakes
  | _ => cases hmakes

omit [LE T] [DecidableLE T] in
/-- The others keep their owners. -/
theorem owners_ret (r : Return) (env : Env) (j : Nat) :
    (handovers x (.loop (.ret r env)) y g).owners j =
      if j = g.current then g.owners g.current ++ x.gives g (.loop (.ret r env)) else g.owners j := by
  simp only [handovers, Act.handles, Function.update_apply]
  rfl

theorem Followed.returned (h : Followed x g) {frame : Frame} {r : Return} {env : Env}
    (hstep : x.step (.loop (.ret r env)) = some y) (hbefore : frame ∈ x.loop.makers)
    (hdealt : x.loop.dealt <+: y.loop.dealt)
    (hmade : Made x y g frame r (x.gives g (.loop (.ret r env)))) :
    Followed y (handovers x (.loop (.ret r env)) y g) := by
  obtain ⟨⟨c, hc, haccepted⟩, howners⟩ := h.making frame hbefore
  have hlt := (List.getElem?_eq_some_iff.mp hc).1
  have hcurrent : (handovers x (.loop (.ret r env)) y g).current = g.current := rfl
  refine ⟨acceptsSound_step h.accepts hstep, (issued_step h.accepts h.issued hstep).1,
    h.length_next hstep, ?_, ?_, ?_⟩
  · intro j hj
    have hj := hdealt.length_le.trans hj
    have hne : j ≠ g.current := by omega
    rw [owners_ret, if_neg hne]
    exact h.fresh j hj
  · cases hmade with
    | transport hfactory hright hgiven hafter =>
      obtain ⟨frame', hframe', -⟩ := hafter
      simp [hframe']
    | told hfactory hright hgiven hafter => simp [hafter]
    | finalised hfactory hright hgiven hafter => simp [hafter]
    | closed hwrong hafter hgiven => simp [hafter]
  · intro frame' hframe'
    cases hmade with
    | transport hfactory hright hgiven hafter =>
      obtain ⟨frame'', hmakers, hnot⟩ := hafter
      rw [hmakers, List.mem_singleton] at hframe'
      subst hframe'
      rw [hcurrent, owners_ret, if_pos rfl, hgiven]
      exact ⟨⟨c, History.getElem?_mono hc hdealt, haccepted⟩, by simp [hnot]⟩
    | told hfactory hright hgiven hafter =>
      rw [hafter] at hframe'
      cases hframe'
    | finalised hfactory hright hgiven hafter =>
      rw [hafter] at hframe'
      cases hframe'
    | closed hwrong hafter hgiven =>
      rw [hafter] at hframe'
      cases hframe'

omit [LE T] [DecidableLE T] in
/-- A connection gets its transport and no other owner, or is closed once, if it is made right. -/
theorem Followed.handedAt_current (h : Followed x g) {frame : Frame} {r : Return} {env : Env}
    (hbefore : x.loop.makers = [frame]) {c : Cqe} (hc : x.loop.dealt[g.current]? = some c)
    (haccepted : c.accepted) (howners : g.owners g.current = [] ↔ frame.isFactory = true)
    (hmade : Made x y g frame r (x.gives g (.loop (.ret r env)))) :
    y.HandedAt (handovers x (.loop (.ret r env)) y g) g.current c ↔
      x.HandedAt g g.current c ∧ x.MakesRight g frame r := by
  have hcurrent : (handovers x (.loop (.ret r env)) y g).current = g.current := rfl
  unfold HandedAt
  rw [owners_ret, if_pos rfl, h.submitted_next (mem_drained_of_dealt hc)]
  simp only [haccepted, true_imp_iff]
  cases hmade with
  | transport hfactory hright hgiven hafter =>
    -- the transport is made for the listener whose factory was at work
    have hwaits : g.owners g.current = [] := howners.mpr hfactory
    obtain ⟨frame', hmakers, hnot⟩ := hafter
    rw [hwaits, hgiven, hmakers, hbefore, hright]
    simp [AcceptOwner.mayHold, hnot, hfactory, hc]
  | told hfactory hright hgiven hafter =>
    rw [hgiven, hafter, hbefore, List.append_nil]
    simp [hright, hfactory]
  | finalised hfactory hright hgiven hafter =>
    have hwaits : g.owners g.current = [] := howners.mpr hfactory
    rw [hwaits, hgiven, hafter, hbefore]
    simp [AcceptOwner.mayHold, hright, hfactory]
  | closed hwrong hafter hgiven =>
    rw [hafter]
    refine iff_of_false ?_ fun hboth => hwrong hboth.2
    rintro (⟨⟨frame', hframe', -⟩, -⟩ | ⟨o, ho, -⟩)
    · cases hframe'
    · have hlength := congrArg List.length ho
      rcases hgiven with hgiven | ⟨hgiven, hfactory⟩
      · simp only [hgiven, List.length_append, List.length_cons, List.length_nil] at hlength
        omega
      · -- the transport has it already
        have hheld : g.owners g.current ≠ [] := fun hnone => by
          have hyes := howners.mp hnone
          rw [hfactory] at hyes
          cases hyes
        have hpos := List.length_pos_of_ne_nil hheld
        simp only [hgiven, List.length_append, List.length_cons, List.length_nil] at hlength
        omega

omit [LE T] [DecidableLE T] in
/-- So all are handed over, if it is made right; the completions that are lost then must not be of
accepted ones. -/
theorem Followed.handed_returned (h : Followed x g) {frame : Frame} {r : Return} {env : Env}
    (hbefore : x.loop.makers = [frame]) {lost : List Cqe} (hlost : ∀ c ∈ lost, c ∈ x.loop.drained)
    (hdealt : y.loop.dealt = x.loop.dealt ++ lost)
    (hmade : Made x y g frame r (x.gives g (.loop (.ret r env)))) :
    Handed y (handovers x (.loop (.ret r env)) y g) ↔
      Handed x g ∧ x.MakesRight g frame r ∧ ∀ c ∈ lost, ¬ c.accepted := by
  obtain ⟨⟨c, hc, haccepted⟩, howners⟩ := h.making frame (by rw [hbefore]; simp)
  have hcurrent : (handovers x (.loop (.ret r env)) y g).current = g.current := rfl
  have hother (j : Nat) (c' : Cqe) (hc' : c' ∈ x.loop.drained) (hj : j ≠ g.current) :
      y.HandedAt (handovers x (.loop (.ret r env)) y g) j c' ↔ x.HandedAt g j c' := by
    unfold HandedAt
    rw [owners_ret, if_neg hj, hcurrent, h.submitted_next hc']
    simp [Ne.symm hj]
  have hlast := h.handedAt_current hbefore hc haccepted howners hmade
  have hdone : (∀ j c', x.loop.dealt[j]? = some c' →
      y.HandedAt (handovers x (.loop (.ret r env)) y g) j c') ↔
      Handed x g ∧ x.MakesRight g frame r := by
    constructor
    · intro hall
      have hboth := hlast.mp (hall _ c hc)
      refine ⟨fun j c' hc' => ?_, hboth.2⟩
      by_cases hj : j = g.current
      · subst hj
        obtain rfl := Option.some_inj.mp (hc.symm.trans hc')
        exact hboth.1
      · exact (hother j c' (mem_drained_of_dealt hc') hj).mp (hall j c' hc')
    · rintro ⟨hall, hr⟩ j c' hc'
      by_cases hj : j = g.current
      · subst hj
        obtain rfl := Option.some_inj.mp (hc.symm.trans hc')
        exact hlast.mpr ⟨hall _ c hc, hr⟩
      · exact (hother j c' (mem_drained_of_dealt hc') hj).mpr (hall j c' hc')
  -- the current completion has had its turn, those that are lost come after it
  have hwaiting {i : Nat} {c' : Cqe} (hc' : lost[i]? = some c') :
      y.HandedAt (handovers x (.loop (.ret r env)) y g) (x.loop.dealt.length + i) c' ↔ ¬ c'.accepted := by
    have hlt := (List.getElem?_eq_some_iff.mp hc).1
    rw [hother _ c' (hlost c' (List.mem_of_getElem? hc')) (by omega)]
    exact h.not_handedAt (Nat.le_add_right _ _)
  unfold Handed
  rw [hdealt, History.forall_append, ← and_assoc, hdone]
  apply and_congr_right
  intro _
  constructor
  · intro hall c' hc'
    obtain ⟨i, hi⟩ := List.getElem?_of_mem hc'
    exact (hwaiting hi).mp (hall i c' hi)
  · intro hnone i c' hc'
    exact (hwaiting hc').mpr (hnone c' (List.mem_of_getElem? hc'))

/-- One step: the history stays true, and whether all is handed over depends on the step alone. -/
theorem Followed.step (h : Followed x g) (hstep : x.step b = some y) :
    Followed y (handovers x b y g) ∧
      (Handed y (handovers x b y g) ↔ Handed x g ∧ HandsOver (x, g) b) := by
  cases turn_step h.accepts hstep with
  | quiet hmakers hdealt hhandles hgives hok =>
    refine ⟨h.same hstep hmakers (hdealt ▸ List.prefix_rfl) hhandles (hgives g), ?_⟩
    rw [h.handed_quiet hmakers hdealt hhandles (hgives g)]
    exact (and_iff_left (hok g)).symm
  | handled hb hr hidle hc hseen hmakers hdealt =>
    subst hb
    exact ⟨h.handled hstep hseen hmakers hdealt, h.handed_handled hidle hc hseen hmakers hdealt⟩
  | made hb htop hmakes hbefore hmakers hdealt =>
    rename_i frame rest r env
    subst hb
    have hmade : Made x y g frame r (x.gives g (.loop (.ret r env))) := h.madeBy htop hmakes hbefore hmakers
    have hone := h.one
    rw [hbefore, List.length_cons] at hone
    obtain rfl : rest = [] := List.length_eq_zero_iff.mp (by omega)
    have hmem : frame ∈ x.loop.makers := by
      rw [hbefore]
      exact List.mem_singleton_self frame
    refine ⟨h.returned hstep hmem (hdealt ▸ List.prefix_append _ _) hmade, ?_⟩
    have hlost : ∀ c ∈ if frame.aborts r then x.loop.waiting else [], c ∈ x.loop.drained := by
      intro c hc
      split at hc
      · exact List.mem_of_mem_drop hc
      · cases hc
    rw [h.handed_returned hbefore hlost hdealt hmade]
    cases haborts : frame.aborts r <;> simp [HandsOver, htop, haborts]
  | dropped hmakers hdealt hhandles hgives hiff =>
    refine ⟨h.same hstep hmakers (hdealt ▸ List.prefix_append _ _) hhandles (hgives g), ?_⟩
    rw [h.handed_dropped hmakers hdealt hhandles (hgives g), hiff g]

/-- **Accepted descriptors.** In the state that a run reaches, every accepted descriptor whose
completion has had its turn has exactly one owner if and only if every step of the run has handed over
what was its to hand over. -/
theorem handed_iff {setup : Setup} {bufferSize bufferCount : Nat} {core : UringCore FutId (Handle K) T}
    (hnew : UringCore.new setup bufferSize bufferCount = .ok core) {bs : List (Act K T)}
    (hrun : (machine.ghost handovers).run (init core, noHandovers) bs = some (y, g)) :
    Handed y g ↔ (machine.ghost handovers).Meets HandsOver (init core, noHandovers) bs := by
  have hmeets := Machine.holds_iff_meets (M := machine.ghost handovers) (C := HandsOver)
    (I := fun p => Followed p.1 p.2) (P := fun p => Handed p.1 p.2) ?_ (followed_init hnew) hrun
  · have hfirst : Handed (init core) noHandovers := by
      intro j c hc
      cases hc
    exact hmeets.trans (and_iff_right hfirst)
  · rintro ⟨s, gs⟩ b ⟨t, gt⟩ hfollowed hstep
    obtain ⟨hnext, rfl⟩ := Machine.ghost_step_mk.mp hstep
    exact Followed.step hfollowed hnext

end

/-- The server of `acceptRun` has given the connection to a transport. -/
theorem handed_iff_accepted : ∃ core y g, UringCore.new Setup.plain 16 2 = .ok core ∧
    (machine.ghost handovers).run (init core, noHandovers) acceptRun = some (y, g) ∧ Handed y g ∧
    g.owners 0 = [.transport 0 0] := by
  obtain ⟨core, y, g, hnew, hrun, hmeets, howners⟩ : ∃ core y g,
      UringCore.new Setup.plain 16 2 = .ok core ∧
      (machine.ghost handovers).run (init core, noHandovers) acceptRun = some (y, g) ∧
      (machine.ghost handovers).Meets HandsOver (init core, noHandovers) acceptRun ∧
      g.owners 0 = [.transport 0 0] := ⟨_, _, _, rfl, rfl, by decide, rfl⟩
  exact ⟨core, y, g, hnew, hrun, (handed_iff hnew hrun).mpr hmeets, howners⟩

/-- A connection that is accepted when the server has been closed, and one that `sock_accept` waits
for: nobody gets them. -/
theorem not_handed : ∃ core y z g g', UringCore.new Setup.plain 16 2 = .ok core ∧
    (machine.ghost handovers).run ((init core : ServerLoop Unit Nat), noHandovers)
      [.createServer false true [(5, ⟨0, .ok 1⟩)], .close 0, .loop (.complete 0 (.count 7) false false),
        .loop (.startTick 0 (.ok 0)), .loop .handleCompletion] = some (y, g) ∧
    (machine.ghost handovers).run ((init core : ServerLoop Unit Nat), noHandovers)
      [.loop (.call (.sockAccept 5 ()) ⟨0, .ok 1⟩), .loop (.complete 0 (.count 7) false false),
        .loop (.startTick 0 (.ok 0)), .loop .runHandle, .loop (.ret (.value true) ⟨0, .ok 1⟩),
        .loop .handleCompletion] = some (z, g') ∧
    g.owners 0 = [] ∧ ¬ Handed y g ∧ g'.owners 0 = [] ∧ ¬ Handed z g' := by
  refine ⟨_, _, _, _, _, rfl, rfl, rfl, rfl, ?_, rfl, ?_⟩ <;>
  · intro h
    rcases h 0 _ rfl rfl with ⟨⟨frame, hframe, -⟩, -⟩ | ⟨o, ho, -⟩
    · cases hframe
    · cases ho

end ServerLoop

end Uringcore
