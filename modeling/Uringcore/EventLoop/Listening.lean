import Uringcore.EventLoop.Servers

/-!
# Listeners that accept

A listener is accepting as often as accepts on it are in flight or have a last completion that its
handler has not dealt with. The handler arms the next accept after one that succeeded, and only then:
so the listeners of a server go on accepting once each as long as their accepts succeed, the queue has
room for the next one, and nothing else accepts on them (`KeepsListening`).
-/

namespace Uringcore

/-- The handler of an accept on `fd` is at work, and arms the next one at its end. -/
def Frame.rearms (fd : Fd) : Frame → Bool
  | protocolFactory listener _ multi => !multi && listener = fd
  | connectionMade _ (.accepted listener multi) => !multi && listener = fd
  | rearmAccept listener => listener = fd
  | _ => false

/-- The descriptor of a `sock_accept`. -/
def Call.sockAccepts? {K : Type} : Call K → Option Fd
  | sockAccept fd _ => some fd
  | _ => none

theorem OpType.asStr_accept {op : OpType} (h : op.asStr = "accept") : op = .accept := by
  cases op <;> simp_all [asStr]

theorem Frame.ofAccept_of_rearms {fd : Fd} {frame : Frame} (h : frame.rearms fd = true) :
    frame.ofAccept = true := by
  cases frame with
  | connectionMade tr creator => cases creator <;> first | rfl | cases h
  | _ => first | rfl | cases h

namespace UringServer

theorem close_sockets (server : UringServer) : server.close.sockets = [] := by
  unfold close
  split
  · rename_i hempty
    exact List.isEmpty_iff.mp hempty
  · rfl

@[simp] theorem startServing_sockets (server : UringServer) :
    server.startServing.1.sockets = server.sockets := by
  unfold startServing
  dsimp only
  split
  · rfl
  · split <;> rfl

theorem serveForever_sockets (server : UringServer) :
    server.serveForever.1.sockets = server.sockets := by
  have hstart := startServing_sockets server
  unfold serveForever
  split
  · rfl
  · split
    · rename_i started hstarted
      rwa [hstarted] at hstart
    · rename_i started e hstarted
      rwa [hstarted] at hstart

end UringServer

namespace EventLoop
variable {K T : Type}

/-- The completions that wait for their handlers. -/
def waiting (s : EventLoop K T) : List Cqe := s.drained.drop (s.drained.length - s.results.length)

/-- The completions that have had their turn. -/
def dealt (s : EventLoop K T) : List Cqe := s.drained.take (s.drained.length - s.results.length)

/-- The accepts on `fd` that are in flight, or whose last completion has not had its turn, or whose
handler is at work. -/
def accepting (s : EventLoop K T) (fd : Fd) : Nat :=
  s.core.ring.inFlight.countP (Sqe.acceptsOn fd) +
    (s.core.ring.cq ++ s.waiting).countP (Cqe.endsAccept fd) + s.stack.countP (Frame.rearms fd)

section
variable {s t : EventLoop K T}

theorem dealt_append_waiting (s : EventLoop K T) : s.dealt ++ s.waiting = s.drained :=
  List.take_append_drop _ _

theorem countP_acceptFrames (fd : Fd) (s : EventLoop K T) :
    s.acceptFrames.countP (Frame.rearms fd) = s.stack.countP (Frame.rearms fd) := by
  rw [acceptFrames, List.countP_filter]
  apply List.countP_congr
  intro frame _
  simp only [Bool.and_eq_true, and_iff_left_iff_imp]
  exact Frame.ofAccept_of_rearms

/-- What has been submitted, against what has had its turn. -/
theorem accepting_add (hs : s.AcceptsKept) (fd : Fd) :
    s.accepting fd + s.dealt.countP (Cqe.endsAccept fd) =
      s.acceptsIssued.count fd + s.acceptFrames.countP (Frame.rearms fd) := by
  have hkept := hs fd
  rw [← dealt_append_waiting s] at hkept
  simp only [List.countP_append] at hkept
  unfold accepting
  rw [countP_acceptFrames, hkept, List.countP_append]
  omega

theorem SameAccepts.dealt (h : SameAccepts s t) : t.dealt = s.dealt := by
  rw [EventLoop.dealt, h.drained, h.results, EventLoop.dealt]

theorem SameAccepts.accepting (h : SameAccepts s t) (hs : s.AcceptsKept) (ht : t.AcceptsKept) (fd : Fd) :
    t.accepting fd = s.accepting fd := by
  have hafter := accepting_add ht fd
  have hbefore := accepting_add hs fd
  rw [h.issued, h.frames, h.dealt] at hafter
  omega

theorem ResultsTied.length_le (h : s.ResultsTied) : s.results.length ≤ s.drained.length := by
  obtain ⟨done, cs, hdrained, hcs⟩ := h
  have hlength := congrArg List.length hcs
  simp only [List.length_map] at hlength
  rw [hdrained, List.length_append]
  omega

/-- The next completion has its turn. -/
theorem dealt_handled (h : s.ResultsTied) {r : ResultTuple} {rest : List ResultTuple}
    (hr : s.results = r :: rest) (hdrained : t.drained = s.drained) (hresults : t.results = rest) :
    t.dealt = s.dealt ++ s.handled?.toList := by
  have hle := h.length_le
  have hnext : s.drained.length - rest.length = s.drained.length - s.results.length + 1 := by
    rw [hr, List.length_cons] at hle ⊢
    omega
  rw [dealt, hdrained, hresults, hnext, List.take_add_one]
  rfl

/-- All that waited are lost. -/
theorem dealt_dropped (hdrained : t.drained = s.drained) (hresults : t.results = []) :
    t.dealt = s.dealt ++ s.waiting := by
  rw [dealt_append_waiting, dealt, hdrained, hresults]
  exact List.take_length

/-! ## The steps that keep a listener accepting -/

/-- An accept on `fd` is followed by another: it has succeeded, or it does not end here; what its
handler calls raises `Exception`s only; there is room for the next one; and while one is waiting, no
exception leaves `_process_completions` and `run_tick` does not unwind. -/
def KeepsArmed (s : EventLoop K T) (fd : Fd) : Act K T → Prop
  | .handleCompletion => ∀ c ∈ s.handled?, c.endsAccept fd →
      c.sqe.op.opType = .accept ∧ 0 ≤ c.payload.result ∧ s.servers.contains fd
  | .ret r _ => ∀ frame ∈ s.stack.head?, (frame.rearms fd → r.escape? = none) ∧
      (frame.aborts r → s.waiting.countP (Cqe.endsAccept fd) = 0)
  | .rearmAccept env => (s.stack.head? = some (.rearmAccept fd) → s.core.HasRoom) ∧
      (s.core.HasRoom ∧ env.enter.isOk ∨ s.waiting.countP (Cqe.endsAccept fd) = 0)
  | .call c _ => c.sockAccepts? = some fd → ¬ s.core.HasRoom
  | .consume _ | .complete .. | .callSoon _ | .startTick .. | .runHandle => True

instance (s : EventLoop K T) (fd : Fd) : ∀ a : Act K T, Decidable (s.KeepsArmed fd a)
  | .handleCompletion => Option.decidableForallMem s.handled?
  | .ret _ _ => Option.decidableForallMem s.stack.head?
  | .rearmAccept _ => inferInstanceAs (Decidable (_ ∧ (_ ∧ _ = true ∨ _ = 0)))
  | .call c _ => inferInstanceAs (Decidable (c.sockAccepts? = some fd → ¬ s.core.HasRoom))
  | .consume _ | .complete .. | .callSoon _ | .startTick .. | .runHandle => .isTrue trivial

section
variable [LE T] [DecidableLE T] {a : Act K T}

/-- A tick leaves all completions that it processes to their handlers. -/
theorem dealt_startTick (clock : T) (enter : Except String Nat) (hidle : s.idle = true) :
    (s.startTick clock enter).dealt = s.dealt := by
  obtain ⟨-, -, htick⟩ := startTick_accepts clock enter hidle
  simp only [idle, Bool.and_eq_true, List.isEmpty_iff] at hidle
  split at htick
  · obtain ⟨hdrained, hresults⟩ := htick
    have hlength := congrArg List.length hresults
    simp only [List.length_map] at hlength
    simp [dealt, hdrained, hlength, hidle.2]
  · rw [dealt, htick.1, htick.2, dealt]

theorem accepting_startTick (hs : s.AcceptsSound) {clock : T} {enter : Except String Nat}
    (h : s.step (.startTick clock enter) = some t) (fd : Fd) : t.accepting fd = s.accepting fd := by
  have ht := hs.step h
  obtain ⟨hidle, rfl⟩ := step_startTick.mp h
  obtain ⟨hframes, hissued, -⟩ := startTick_accepts clock enter hidle
  have hafter := accepting_add ht.kept fd
  have hbefore := accepting_add hs.kept fd
  rw [hissued, hframes, dealt_startTick clock enter hidle] at hafter
  omega

/-- The handler of an accept goes on to arm the next one. -/
theorem accepting_handleCompletion (hs : s.AcceptsSound) {fd : Fd} (hk : s.KeepsArmed fd .handleCompletion)
    (h : s.step .handleCompletion = some t) : t.accepting fd = s.accepting fd := by
  have ht := hs.step h
  obtain ⟨r, rest, hr, hstack, hsame⟩ := step_handleCompletion h
  obtain ⟨c, hc, hdrained, hseen⟩ := hs.tied.handled hr
  simp only [Cqe.seen, Prod.mk.injEq] at hseen
  obtain ⟨hfd, hop, hresult⟩ := hseen
  have hdealt := dealt_handled hs.tied hr hsame.drained hsame.results
  have hframes : t.acceptFrames.countP (Frame.rearms fd) =
      (s.factoryFrame? r).toList.countP (Frame.rearms fd) := by
    rw [hsame.frames]
    exact countP_acceptFrames fd _
  have hafter := accepting_add ht.kept fd
  have hbefore := accepting_add hs.kept fd
  have hnone : s.acceptFrames = [] := by rw [acceptFrames, hstack]; rfl
  have hissued : t.acceptsIssued = s.acceptsIssued := hsame.issued
  rw [hissued, hframes, hdealt, hc, List.countP_append] at hafter
  rw [hnone] at hbefore
  simp only [Option.toList_some, List.countP_singleton, List.countP_nil] at hafter hbefore
  by_cases hends : c.endsAccept fd
  · obtain ⟨haccept, hnonneg, hserved⟩ := hk c hc hends
    have hcfd : c.sqe.fd = fd := by
      simp only [Cqe.endsAccept, Sqe.acceptsOn, Bool.and_eq_true, decide_eq_true_eq] at hends
      exact hends.2.1
    have hframe : s.factoryFrame? r = some (.protocolFactory fd (clientFd r.result) false) := by
      unfold factoryFrame?
      rw [← hfd, ← hop, hcfd, haccept, hserved, ← hresult]
      simp [hnonneg, OpType.asStr]
    rw [hframe] at hafter
    simp [hends, Frame.rearms] at hafter
    omega
  · have hframe : (s.factoryFrame? r).toList.countP (Frame.rearms fd) = 0 := by
      rw [List.countP_eq_zero]
      intro frame hframe hrearms
      simp only [Option.mem_toList, factoryFrame?] at hframe
      split at hframe
      · split at hframe
        · rename_i hopr
          -- a single accept on `fd` ends with its completion
          obtain rfl := Option.some_inj.mp hframe
          have hon : r.fd = fd := by simpa [Frame.rearms] using hrearms
          have haccept := OpType.asStr_accept (hop.trans hopr)
          apply hends
          simp [Cqe.endsAccept, Sqe.acceptsOn, hfd, hon, haccept, OpType.accepts,
            hs.once c (List.mem_append_right _ hdrained) haccept]
        · split at hframe
          · obtain rfl := Option.some_inj.mp hframe
            simp [Frame.rearms] at hrearms
          · cases hframe
      · cases hframe
    rw [hframe] at hafter
    simp only [hends] at hafter
    simp at hafter
    omega

omit [LE T] [DecidableLE T] in
/-- A return leads to the next frame of the same handler. -/
theorem framesAfter_rearms (fd : Fd) {frame : Frame} {r : Return} (s : EventLoop K T)
    (hframe : ∀ listener, frame ≠ .rearmAccept listener) (hr : frame.rearms fd → r.escape? = none) :
    (s.framesAfter frame r).countP (Frame.rearms fd) = if frame.rearms fd then 1 else 0 := by
  cases hescape : r.escape? with
  | some e =>
    have hnot : frame.rearms fd = false := by
      by_contra hrearms
      rw [Bool.not_eq_false] at hrearms
      rw [hr hrearms] at hescape
      cases hescape
    simp [framesAfter, hescape, hnot]
  | none =>
    cases frame with
    | rearmAccept listener => exact absurd rfl (hframe listener)
    | protocolFactory listener client multi =>
      rcases Return.caught_cases hescape with ⟨truthy, rfl⟩ | ⟨handlerRaises, rfl⟩ | ⟨exc, rfl⟩ <;>
        cases multi <;> simp [framesAfter, Frame.rearms, List.countP_cons, Return.escape?]
    | connectionMade tr creator =>
      cases creator with
      | accepted listener multi =>
        cases multi <;> simp [framesAfter, Frame.rearms, List.countP_cons, hescape]
      | _ => simp [framesAfter, Frame.rearms]
    | _ => simp [framesAfter, Frame.rearms]

theorem accepting_ret (hs : s.AcceptsSound) {fd : Fd} {r : Return} {env : Env}
    (hk : s.KeepsArmed fd (.ret r env)) (h : s.step (.ret r env) = some t) :
    t.accepting fd = s.accepting fd := by
  have ht := hs.step h
  obtain ⟨frame, rest, hstack, -, hsame⟩ := step_ret h hs.made
  have hframe (listener : Fd) : frame ≠ .rearmAccept listener := by
    rintro rfl
    simp [step, hstack] at h
  obtain ⟨hcaught, hkept⟩ := hk frame (by rw [hstack]; rfl)
  have hafter := accepting_add ht.kept fd
  have hbefore := accepting_add hs.kept fd
  have hframes : t.acceptFrames.countP (Frame.rearms fd) = s.acceptFrames.countP (Frame.rearms fd) := by
    rw [hsame.frames, countP_acceptFrames, countP_acceptFrames, hstack, List.countP_append,
      framesAfter_rearms fd s hframe hcaught, List.countP_cons]
    omega
  have hdrained : t.drained = s.drained := hsame.drained
  have hdealt : t.dealt.countP (Cqe.endsAccept fd) = s.dealt.countP (Cqe.endsAccept fd) := by
    by_cases haborts : frame.aborts r
    · have hnone := hkept haborts
      rw [dealt_dropped hdrained (hsame.results.trans (if_pos haborts)), List.countP_append, hnone]
      rfl
    · have hkept : t.results = s.results := hsame.results.trans (if_neg haborts)
      rw [dealt, hkept, hdrained, dealt]
  have hissued : t.acceptsIssued = s.acceptsIssued := hsame.issued
  rw [hissued, hframes, hdealt] at hafter
  omega

/-- The handler of an accept arms the next one. -/
theorem accepting_rearmAccept (hs : s.AcceptsSound) {fd : Fd} {env : Env}
    (hk : s.KeepsArmed fd (.rearmAccept env)) (h : s.step (.rearmAccept env) = some t) :
    t.accepting fd = s.accepting fd := by
  have ht := hs.step h
  obtain ⟨listener, rest, hstack, hframes, hissued, hresults, hdrained⟩ := step_rearmAccept h
  obtain ⟨hroom, hkept⟩ := hk
  have hafter := accepting_add ht.kept fd
  have hbefore := accepting_add hs.kept fd
  have hdealt : t.dealt.countP (Cqe.endsAccept fd) = s.dealt.countP (Cqe.endsAccept fd) := by
    by_cases haccepted : s.core.HasRoom ∧ env.enter.isOk
    · rw [dealt, hresults, hdrained, if_pos haccepted, dealt]
    · have hnone := hkept.resolve_left haccepted
      rw [dealt_dropped hdrained (hresults.trans (if_neg haccepted)), List.countP_append, hnone]
      rfl
  have hcount : t.acceptsIssued.count fd =
      s.acceptsIssued.count fd + if listener = fd then 1 else 0 := by
    rw [hissued, List.count_append]
    by_cases hlistener : listener = fd
    · subst hlistener
      rw [if_pos (hroom (by rw [hstack]; rfl))]
      simp
    · split <;> simp [hlistener]
  have hframe : s.acceptFrames.countP (Frame.rearms fd) =
      t.acceptFrames.countP (Frame.rearms fd) + if listener = fd then 1 else 0 := by
    have hrest : t.acceptFrames.countP (Frame.rearms fd) = rest.countP (Frame.rearms fd) := by
      rw [hframes]
      exact countP_acceptFrames fd { s with stack := rest }
    rw [hrest, countP_acceptFrames, hstack, List.countP_cons]
    simp [Frame.rearms]
  rw [hdealt, hcount] at hafter
  omega

theorem accepting_sockAccept (hs : s.AcceptsSound) {fd fd' : Fd} {k : K} {env : Env}
    (hk : fd' = fd → ¬ s.core.HasRoom) (h : s.step (.call (.sockAccept fd' k) env) = some t) :
    t.accepting fd = s.accepting fd := by
  have ht := hs.step h
  obtain ⟨-, rfl⟩ := step_call.mp h
  obtain ⟨hframes, hissued, hresults, hdrained⟩ := sockAccept_accepts env k fd' s
  have hafter := accepting_add ht.kept fd
  have hbefore := accepting_add hs.kept fd
  have hcount : (s.sockAccept env k fd').1.acceptsIssued.count fd = s.acceptsIssued.count fd := by
    rw [hissued, List.count_append]
    split
    · rename_i hroom
      have hfd : fd' ≠ fd := fun heq => hk heq hroom
      simp [hfd]
    · simp
  have hcalled : s.call env (.sockAccept fd' k) = (s.sockAccept env k fd').1 := rfl
  rw [hcalled] at hafter ⊢
  rw [hcount, hframes, dealt, hresults, hdrained] at hafter
  rw [dealt] at hbefore
  omega

/-- A listener goes on accepting as often as it did. -/
theorem KeepsArmed.accepting (hs : s.AcceptsSound) {fd : Fd} (hk : s.KeepsArmed fd a)
    (ha : a.onServer = false) (h : s.step a = some t) : t.accepting fd = s.accepting fd := by
  by_cases hquiet : a.quietForAccepts
  · exact (step_quiet h hquiet).accepting hs.kept (hs.step h).kept fd
  cases a with
  | startTick clock enter => exact accepting_startTick hs h fd
  | handleCompletion => exact accepting_handleCompletion hs hk h
  | ret r env => exact accepting_ret hs hk h
  | rearmAccept env => exact accepting_rearmAccept hs hk h
  | call c env =>
    cases c with
    | sockAccept fd' k =>
      exact accepting_sockAccept hs (fun heq => hk (congrArg some heq)) h
    | createServer unix startServing fd' => cases ha
    | _ => exact absurd rfl hquiet
  | _ => exact absurd rfl hquiet

end

end

end EventLoop

namespace ServerLoop
variable {K T : Type}

/-- The listeners of the open servers that were asked to serve. -/
def served (x : ServerLoop K T) : List Fd :=
  (x.servers.filter UringServer.asked).flatMap UringServer.sockets

/-- Every one of them is accepting, once. -/
def Listens (x : ServerLoop K T) : Prop := ∀ fd ∈ x.served, x.loop.accepting fd = 1

/-- The accepts of the listeners are kept, and no other is armed on them; a server is created serving
on descriptors without an accept, and asked to serve only when it does already. -/
def KeepsListening (x : ServerLoop K T) : Act K T → Prop
  | .loop a => ∀ fd ∈ x.served, x.loop.KeepsArmed fd a
  | .createServer _ startServing socks => startServing = true → (socks.map Prod.fst).Nodup ∧
      ∀ fd ∈ socks.map Prod.fst, x.loop.accepting fd = 0
  | .startServing i | .serveForever i => ∀ server ∈ x.servers[i]?, ∀ fd ∈ server.sockets,
      x.loop.accepting fd = 1
  | .acceptMultishot fd _ => fd ∈ x.served → ¬ x.loop.core.HasRoom
  | .cancelServing _ | .close _ => True

instance (x : ServerLoop K T) : ∀ b : Act K T, Decidable (x.KeepsListening b)
  | .loop _ => List.decidableBAll _ x.served
  | .createServer _ startServing socks =>
      have : Decidable (∀ fd ∈ socks.map Prod.fst, x.loop.accepting fd = 0) := List.decidableBAll _ _
      inferInstanceAs (Decidable (startServing = true → (socks.map Prod.fst).Nodup ∧
        ∀ fd ∈ socks.map Prod.fst, x.loop.accepting fd = 0))
  | .startServing i | .serveForever i =>
      have (server : UringServer) : Decidable (∀ fd ∈ server.sockets, x.loop.accepting fd = 1) :=
        List.decidableBAll _ _
      Option.decidableForallMem x.servers[i]?
  | .acceptMultishot fd _ => inferInstanceAs (Decidable (fd ∈ x.served → ¬ x.loop.core.HasRoom))
  | .cancelServing _ | .close _ => .isTrue trivial

section
variable {s : EventLoop K T}

/-- One more accept on `fd`. -/
theorem accepting_request (hs : s.AcceptsSound) (env : Env) (fd : Fd) (req : Request FutId)
    (hreq : req.opType.accepts = true) (fd' : Fd) : (s.request env fd req).1.accepting fd' =
      s.accepting fd' + if s.core.HasRoom ∧ fd = fd' then 1 else 0 := by
  have hafter := EventLoop.accepting_add (acceptsSound_request hs env fd req).kept fd'
  have hbefore := EventLoop.accepting_add hs.kept fd'
  have hcount : (s.request env fd req).1.acceptsIssued.count fd' =
      s.acceptsIssued.count fd' + if s.core.HasRoom ∧ fd = fd' then 1 else 0 := by
    rw [EventLoop.acceptsIssued_request env fd req s hreq, List.count_append]
    by_cases hroom : s.core.HasRoom <;> by_cases hfd : fd = fd' <;> simp [hroom, hfd]
  have hdealt : (s.request env fd req).1.dealt = s.dealt := rfl
  have hframes : (s.request env fd req).1.acceptFrames = s.acceptFrames := rfl
  rw [hcount, hdealt, hframes] at hafter
  omega

end

section
variable [LE T] [DecidableLE T] {s : EventLoop K T} {x y : ServerLoop K T} {b : Act K T}

theorem accepting_listen (hs : s.AcceptsSound) (env : Env) (unix startServing : Bool) (fd fd' : Fd) :
    (s.listen env unix startServing fd).1.accepting fd' =
      s.accepting fd' + if startServing = true ∧ s.core.HasRoom ∧ fd = fd' then 1 else 0 := by
  have hafter := EventLoop.accepting_add (acceptsSound_listen hs env unix startServing fd).kept fd'
  have hbefore := EventLoop.accepting_add hs.kept fd'
  have hcount : (s.listen env unix startServing fd).1.acceptsIssued.count fd' =
      s.acceptsIssued.count fd' + if startServing = true ∧ s.core.HasRoom ∧ fd = fd' then 1 else 0 := by
    cases startServing with
    | false => simp [EventLoop.listen, EventLoop.acceptsIssued, EventLoop.registerFd]
    | true =>
      have hissued : (s.listen env unix true fd).1.acceptsIssued =
          s.acceptsIssued ++ if s.core.HasRoom then [fd] else [] := by
        cases unix <;> exact EventLoop.acceptsIssued_request env fd (.accept s.futs.length) _ rfl
      rw [hissued, List.count_append]
      by_cases hroom : s.core.HasRoom <;> by_cases hfd : fd = fd' <;> simp [hroom, hfd]
  have hdealt : (s.listen env unix startServing fd).1.dealt = s.dealt := by
    cases unix <;> cases startServing <;> rfl
  have hframes : (s.listen env unix startServing fd).1.acceptFrames = s.acceptFrames := by
    cases unix <;> cases startServing <;> rfl
  rw [hcount, hdealt, hframes] at hafter
  omega

omit [LE T] [DecidableLE T] in
theorem listen_room {env : Env} {unix : Bool} {fd : Fd} {u : EventLoop K T}
    (h : s.listen env unix true fd = (u, .ok ())) : s.core.HasRoom := by
  have hok := congrArg Prod.snd h
  have haccept := (UringCore.request_accept (s.registerFd fd
    (if unix then "unix_listener" else "tcp_listener")).core env.now env.enter fd
      (.accept s.futs.length) rfl).2
  have hroom := haccept.mp (by cases unix <;> exact hok)
  exact hroom.1

/-- The sockets of a new server get at most one accept each, and exactly one if the server is made and
is to serve. -/
theorem accepting_listenAll (hs : s.AcceptsSound) (unix startServing : Bool) (socks : List (Fd × Env))
    (fd : Fd) :
    ((startServing = true → fd ∉ socks.map Prod.fst) →
      (s.listenAll unix startServing socks).1.accepting fd = s.accepting fd) ∧
    (startServing = true → (s.listenAll unix startServing socks).2 = .ok () →
      (s.listenAll unix startServing socks).1.accepting fd =
        s.accepting fd + (socks.map Prod.fst).count fd) := by
  induction socks generalizing s with
  | nil => exact ⟨fun _ => rfl, fun _ _ => rfl⟩
  | cons sock socks ih =>
    obtain ⟨fd₁, env⟩ := sock
    have hone := accepting_listen hs env unix startServing fd₁ fd
    have hsound := acceptsSound_listen hs env unix startServing fd₁
    rcases hlisten : s.listen env unix startServing fd₁ with ⟨u, (e | ok)⟩
    · rw [hlisten] at hone
      simp only [EventLoop.listenAll, hlisten]
      refine ⟨fun hnot => ?_, by simp⟩
      have hne : ¬ (startServing = true ∧ s.core.HasRoom ∧ fd₁ = fd) := by
        rintro ⟨hstart, -, rfl⟩
        simp [hstart] at hnot
      rw [hone, if_neg hne]
      rfl
    · rw [hlisten] at hone hsound
      obtain ⟨hrest, hserved⟩ := ih hsound
      simp only [EventLoop.listenAll, hlisten]
      constructor
      · intro hnot
        have hne : ¬ (startServing = true ∧ s.core.HasRoom ∧ fd₁ = fd) := by
          rintro ⟨hstart, -, rfl⟩
          simp [hstart] at hnot
        rw [hrest fun hstart hmem => hnot hstart (List.mem_cons_of_mem _ hmem), hone, if_neg hne]
        rfl
      · intro hstart hok
        subst hstart
        have hroom := listen_room hlisten
        rw [hserved rfl hok, hone, List.map_cons, List.count_cons]
        by_cases hfd : fd₁ = fd <;> simp [hroom, hfd]
        omega

omit [LE T] [DecidableLE T] in
theorem mem_served {fd : Fd} :
    fd ∈ x.served ↔ ∃ server ∈ x.servers, server.asked = true ∧ fd ∈ server.sockets := by
  simp [served, and_assoc]

omit [LE T] [DecidableLE T] in
/-- A server is replaced: its listeners are those of the new one. -/
theorem mem_served_set {loop : EventLoop K T} {i : Nat} {server : UringServer} {fd : Fd}
    (h : fd ∈ ServerLoop.served ⟨loop, x.servers.set i server⟩) : fd ∈ x.served ∨ fd ∈ server.sockets := by
  obtain ⟨server', hmem, hasked, hfd⟩ := mem_served.mp h
  rcases List.mem_or_eq_of_mem_set hmem with hmem | rfl
  · exact .inl (mem_served.mpr ⟨server', hmem, hasked, hfd⟩)
  · exact .inr hfd

/-- Closing leaves a server no sockets, and its accepts to the ring. -/
theorem Listens.close (hs : x.loop.AcceptsSound) (h : x.Listens) (i : Nat) (server : UringServer) :
    (x.close i server).Listens := by
  intro fd hfd
  have hsame := closeServers_accepts server.sockets x.loop
  rw [ServerLoop.close, hsame.accepting hs.kept (acceptsSound_closeServers server.sockets hs).kept fd]
  rcases mem_served_set hfd with hfd | hfd
  · exact h fd hfd
  · rw [UringServer.close_sockets] at hfd
    cases hfd

theorem Listens.createServer (hs : x.loop.AcceptsSound) (h : x.Listens) {unix startServing : Bool}
    {socks : List (Fd × Env)} (hk : x.KeepsListening (.createServer unix startServing socks)) :
    (x.createServer unix startServing socks).Listens := by
  have hkept {fd : Fd} (hfd : fd ∈ x.served) :
      (x.loop.listenAll unix startServing socks).1.accepting fd = 1 := by
    rw [(accepting_listenAll hs unix startServing socks fd).1 ?_]
    · exact h fd hfd
    · intro hstart hmem
      have hnone := (hk hstart).2 fd hmem
      rw [h fd hfd] at hnone
      cases hnone
  unfold ServerLoop.createServer
  rcases hall : x.loop.listenAll unix startServing socks with ⟨loop, (e | ok)⟩
  · rw [hall] at hkept
    exact fun fd hfd => hkept hfd
  · intro fd hfd
    have hserved := (accepting_listenAll hs unix startServing socks fd).2
    rw [hall] at hkept hserved
    obtain ⟨server, hmem, hasked, hsocket⟩ := mem_served.mp hfd
    rcases List.mem_append.mp hmem with hmem | hmem
    · exact hkept (mem_served.mpr ⟨server, hmem, hasked, hsocket⟩)
    · rw [List.mem_singleton] at hmem
      subst hmem
      -- the new server, which is to serve
      have hstart : startServing = true := hasked
      obtain ⟨hnodup, hnone⟩ := hk hstart
      show loop.accepting fd = 1
      rw [hserved hstart rfl, hnone fd hsocket, List.count_eq_one_of_mem hnodup hsocket]

theorem KeepsListening.listens (hs : x.loop.AcceptsSound) (h : x.Listens) (hk : x.KeepsListening b)
    (hstep : x.step b = some y) : y.Listens := by
  cases stepped hstep with
  | loop ha hloop =>
    intro fd hfd
    have hkept := (hk fd hfd).accepting hs ha hloop
    exact hkept.trans (h fd hfd)
  | createServer unix startServing socks hruns => exact h.createServer hs hk
  | startServing hserver hruns =>
    intro fd hfd
    rcases mem_served_set hfd with hfd | hfd
    · exact h fd hfd
    · rw [UringServer.startServing_sockets] at hfd
      exact hk _ hserver fd hfd
  | serveForever hserver hruns =>
    intro fd hfd
    rcases mem_served_set hfd with hfd | hfd
    · exact h fd hfd
    · rw [UringServer.serveForever_sockets] at hfd
      exact hk _ hserver fd hfd
  | cancelServing hserver hruns hserving => exact h.close hs _ _
  | close hserver hruns => exact h.close hs _ _
  | acceptMultishot fd env hruns =>
    intro fd' hfd'
    show (x.loop.request env fd .acceptMultishot).1.accepting fd' = 1
    -- a second accept of a listener is kept out unless the queue is full
    have hnot : ¬ (x.loop.core.HasRoom ∧ fd = fd') := by
      rintro ⟨hroom, rfl⟩
      exact hk hfd' hroom
    rw [accepting_request hs env fd .acceptMultishot rfl, if_neg hnot]
    exact h fd' hfd'

/-- **Listeners.** In a run whose steps all keep the listeners accepting, every listener of an open
server that was asked to serve is accepting in the state reached, exactly once. -/
theorem listens_run {setup : Setup} {bufferSize bufferCount : Nat} {core : UringCore FutId (Handle K) T}
    (hnew : UringCore.new setup bufferSize bufferCount = .ok core) {bs : List (Act K T)}
    (hkeeps : machine.Meets KeepsListening (init core) bs)
    (hrun : machine.run (init core) bs = some y) : y.Listens := by
  have hinvariant := Machine.run_invariant (M := machine) (C := KeepsListening)
    (I := fun x => x.loop.AcceptsSound ∧ x.Listens) ?_ ⟨EventLoop.acceptsSound_init hnew, ?_⟩ hkeeps hrun
  · exact hinvariant.2
  · rintro x b y ⟨hs, hx⟩ hk hstep
    exact ⟨acceptsSound_step hs hstep, hk.listens hs hx hstep⟩
  · intro fd hfd
    cases hfd

end

/-- A server on fd 5, a connection, and the accept that follows. -/
def acceptRun : List (Act Unit Nat) :=
  [.createServer false true [(5, ⟨0, .ok 1⟩)], .loop (.complete 0 (.count 7) false false),
    .loop (.startTick 0 (.ok 0)), .loop .handleCompletion, .loop (.ret (.value true) ⟨0, .ok 1⟩),
    .loop (.ret (.value true) ⟨0, .ok 1⟩), .loop (.rearmAccept ⟨0, .ok 1⟩)]

theorem listens_run_accepted : ∃ core y, UringCore.new Setup.plain 16 2 = .ok core ∧
    machine.run (init core) acceptRun = some y ∧ y.Listens ∧ y.served = [5] := by
  obtain ⟨core, y, hnew, hrun, hkeeps, hserved⟩ : ∃ core y, UringCore.new Setup.plain 16 2 = .ok core ∧
      machine.run (init core) acceptRun = some y ∧ machine.Meets KeepsListening (init core) acceptRun ∧
      y.served = [5] := ⟨_, _, rfl, rfl, by decide, rfl⟩
  exact ⟨core, y, hnew, hrun, listens_run hnew hkeeps hrun, hserved⟩

/-- An accept fails with `ECONNABORTED`: the handler arms no other. A server is asked to serve after it
was created: it arms none. -/
theorem not_listens : ∃ core y z, UringCore.new Setup.plain 16 2 = .ok core ∧
    machine.run (init core : ServerLoop Unit Nat)
      [.createServer false true [(5, ⟨0, .ok 1⟩)], .loop (.complete 0 (.error 103) false false),
        .loop (.startTick 0 (.ok 0)), .loop .handleCompletion] = some y ∧
    machine.run (init core : ServerLoop Unit Nat)
      [.createServer false false [(5, ⟨0, .ok 1⟩)], .startServing 0] = some z ∧
    y.served = [5] ∧ y.loop.accepting 5 = 0 ∧ ¬ y.Listens ∧
    z.served = [5] ∧ z.loop.accepting 5 = 0 ∧ ¬ z.Listens := by
  refine ⟨_, _, _, rfl, rfl, rfl, rfl, rfl, ?_, rfl, rfl, ?_⟩ <;>
  · intro h
    have hfive := h 5 (by decide)
    revert hfive
    decide

end ServerLoop

end Uringcore
