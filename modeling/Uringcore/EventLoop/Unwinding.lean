import Uringcore.EventLoop.Counted

/-!
# Connections whose transport cannot be made

`_create_transport_for_accepted` makes a socket object, calls the factory, enters the transport in
`_transports`, calls `connection_made`, registers the descriptor and arms a receive. Of what it has
done when it fails its caller undoes nothing: it calls `os.close` when an `Exception` arrives, and a
refused receive does not even raise. Every socket object closes its descriptor once, so `os.close` is
right only where there is no object yet: `unwound_iff` says that a failure of `socket.socket(fileno=fd)`
leaves nothing behind. `except Exception` does not see what is no `Exception`, as the `PanicException` of
a `write` in `connection_made`. Then the socket object alone closes the descriptor, which is right for the
factory, while a transport stays in `_transports`.
-/

namespace Uringcore

/-- What fails in `_create_transport_for_accepted`. -/
inductive CreationStage where
  /-- `socket.socket(fileno=fd)`. -/
  | socket
  /-- `sock.setblocking(False)` or the factory. -/
  | factory
  | connectionMade
  /-- The receive that `_rearm_recv` submits. -/
  | arming
  deriving DecidableEq, Repr

/-- A connection whose transport was not made. -/
structure CreationFailure (K T : Type) where
  fd : Fd
  stage : CreationStage
  /-- What was raised is an `Exception`. -/
  caught : Bool
  /-- The loop when `_create_transport_for_accepted` was called. -/
  before : EventLoop K T
  /-- The loop when the stage failed. -/
  failed : EventLoop K T
  /-- The loop when the caller was done with it. -/
  after : EventLoop K T
  /-- `os.close(client_fd)` was called. -/
  osClosed : Bool
  /-- A socket object was made, which nobody has detached. -/
  sockMade : Bool

namespace CreationFailure
variable {K T : Type}

/-- How often the descriptor is closed: by `os.close`, and by the socket object, when that is closed
or at the latest when it is finalised. -/
def closes (f : CreationFailure K T) : Nat := f.osClosed.toNat + f.sockMade.toNat

/-- Nothing of the connection is in the tables of `s`. -/
structure Clean (f : CreationFailure K T) (s : EventLoop K T) : Prop where
  transports : ∀ tr, s.transports.lookup f.fd = some tr → f.before.transports.lookup f.fd = some tr
  ioFutures : ∀ kind fut, s.ioLookup f.fd kind = some fut → f.before.ioLookup f.fd kind = some fut
  fdStates : ∀ state, s.core.fdStates.states.lookup f.fd = some state →
    f.before.core.fdStates.states.lookup f.fd = some state

/-- Nothing of the connection is left, and its descriptor is closed once. -/
structure Unwound (f : CreationFailure K T) : Prop extends f.Clean f.after where
  closes : f.closes = 1

/-- There is no socket object yet; or the factory raises what is no `Exception`, and has not itself entered
anything for the descriptor. -/
def LeavesNothing (f : CreationFailure K T) : Prop :=
  f.stage = .socket ∨ f.stage = .factory ∧ f.caught = false ∧ f.Clean f.failed

/-- A state with the same tables. -/
theorem Clean.congr {f : CreationFailure K T} {s t : EventLoop K T} (h : f.Clean s)
    (htransports : t.transports = s.transports) (hio : t.ioFutures = s.ioFutures)
    (hcore : t.core = s.core) : f.Clean t where
  transports := htransports ▸ h.transports
  ioFutures kind fut hfut := h.ioFutures kind fut (by rwa [EventLoop.ioLookup, ← hio])
  fdStates := hcore ▸ h.fdStates

end CreationFailure

namespace EventLoop
variable {K T : Type}

/-- `_rearm_recv` asks the core for a receive, which refuses. -/
def armingFails (env : Env) (tr : TransportId) (s : EventLoop K T) : Bool :=
  match s.objs[tr]? with
  | some t => !(t.closing || t.paused || t.recvPending) &&
      !(s.core.request env.now env.enter t.fd (.recv s.futs.length)).2.isOk
  | none => false

/-- `_transports` has a transport for `fd` that was made after the first `n`. -/
def RegisteredSince (n : Nat) (fd : Fd) (s : EventLoop K T) : Prop :=
  ∃ tr, s.transports.lookup fd = some tr ∧ n ≤ tr

end EventLoop

/-- The loop and the connections whose transports were not made. -/
structure CreationLoop (K T : Type) where
  loop : EventLoop K T
  /-- The loop when the last handler of a completion came to its first call. -/
  before : EventLoop K T
  failures : List (CreationFailure K T)

namespace CreationLoop
variable {K T : Type}

def init (core : UringCore FutId (Handle K) T) : CreationLoop K T := ⟨.init core, .init core, []⟩

inductive Act (K T : Type) where
  | loop (a : EventLoop.Act K T)
  /-- A completion is handled up to `socket.socket(fileno=fd)`, which raises. -/
  | socketRaises

/-- What `a` has made of the connection that is being created. -/
def failure? (x : CreationLoop K T) (a : EventLoop.Act K T) (after : EventLoop K T) :
    Option (CreationFailure K T) :=
  match a, x.loop.stack with
  | .ret (.raised _) _, .protocolFactory _ client _ :: _ =>
      -- the caller closes the descriptor, and the socket object that was made of it does so again
      some ⟨client, .factory, true, x.before, x.loop, after, true, true⟩
  | .ret (.escaped _) _, .protocolFactory _ client _ :: _ =>
      some ⟨client, .factory, false, x.before, x.loop, after, false, true⟩
  | .ret r env, .connectionMade tr (.accepted _ _) :: _ =>
      match x.loop.objs[tr]?, r with
      | some t, .raised _ => some ⟨t.fd, .connectionMade, true, x.before, x.loop, after, true, true⟩
      | some t, .escaped _ => some ⟨t.fd, .connectionMade, false, x.before, x.loop, after, false, true⟩
      -- `_rearm_recv` catches what the core raises
      | some t, .value _ => if (x.loop.registerFd t.fd "tcp").armingFails env tr then
          some ⟨t.fd, .arming, true, x.before, x.loop, after, false, true⟩ else none
      | _, _ => none
  | _, _ => none

section
variable [LE T] [DecidableLE T]

def step (x : CreationLoop K T) : Act K T → Option (CreationLoop K T)
  | .loop a => (x.loop.step a).map fun y => {
      loop := y
      before := match a with | .handleCompletion => y | _ => x.before
      failures := x.failures ++ (x.failure? a y).toList }
  | .socketRaises => (x.loop.step .handleCompletion).bind fun y => match y.stack with
      | .protocolFactory listener client multi :: rest =>
          let after := { y with stack := rest }.afterAccept listener multi
          some {
            loop := after
            before := y
            failures := x.failures ++ [⟨client, .socket, true, y, y, after, true, false⟩] }
      | _ => none

def machine : Machine (CreationLoop K T) (Act K T) := ⟨step⟩

end

/-! ## What is left in the tables -/

section
variable [LE T] [DecidableLE T]

/-- Only the handler of a close takes a transport out of `_transports`. -/
theorem registeredSince_step {s t : EventLoop K T} {a : EventLoop.Act K T} {n : Nat} {fd : Fd}
    (hstep : s.step a = some t) (ha : a ≠ .handleCompletion) (hn : n ≤ s.objs.length)
    (h : s.RegisteredSince n fd) : t.RegisteredSince n fd := by
  have hkept := (EventLoop.step_moves hstep).rule
    (I := fun u => n ≤ u.objs.length ∧ u.RegisteredSince n fd) ?_ ⟨hn, h⟩
  · exact hkept.2
  rintro u v ⟨hu, tr, htr, htr_since⟩ hmove
  rcases hmove.table_cases with ⟨heq, hle⟩ | ⟨fd', -, heq, hlength⟩ | ⟨r, ⟨rfl, -⟩, -⟩
  · exact ⟨hu.trans hle, tr, heq ▸ htr, htr_since⟩
  · refine ⟨by omega, ?_⟩
    by_cases hfd : fd = fd'
    · exact ⟨u.objs.length, by rw [heq, hfd, AList.lookup_insert], hu⟩
    · exact ⟨tr, by rw [heq, AList.lookup_insert_ne hfd, htr], htr_since⟩
  · exact absurd rfl ha

/-- A transport keeps its descriptor. -/
theorem fd_step {s t : EventLoop K T} {a : EventLoop.Act K T} {tr : TransportId} {u : Transport}
    (hstep : s.step a = some t) (hu : s.objs[tr]? = some u) :
    ∃ v, t.objs[tr]? = some v ∧ v.fd = u.fd := by
  have hsockets : s.sockets <+: t.sockets := (EventLoop.step_moves hstep).rule
    (I := fun u => s.sockets <+: u.sockets)
    (fun u v hu hmove => hu.trans ⟨_, hmove.sockets.choose_spec.1.symm⟩) (List.prefix_refl _)
  have hsock : s.sockets[tr]? = some (u.fd, u.hasSock) := by
    rw [EventLoop.sockets, List.getElem?_map, hu]
    rfl
  have hsock' : t.sockets[tr]? = some (u.fd, u.hasSock) := History.getElem?_mono hsock hsockets
  rw [EventLoop.sockets, List.getElem?_map] at hsock'
  obtain ⟨v, hv, heq⟩ := Option.map_eq_some_iff.mp hsock'
  exact ⟨v, hv, congrArg Prod.fst heq⟩

variable {x y : CreationLoop K T} {b : Act K T}

/-- What every step keeps of the connection that is being created. -/
structure Creating (x : CreationLoop K T) : Prop where
  table : x.loop.TableSound
  tableBefore : x.before.TableSound
  grown : x.before.objs.length ≤ x.loop.objs.length
  /-- The transport that is being made, or a later one, is in `_transports`. -/
  made : ∀ tr listener multi, .connectionMade tr (.accepted listener multi) ∈ x.loop.stack →
    ∃ t, x.loop.objs[tr]? = some t ∧ x.loop.RegisteredSince x.before.objs.length t.fd
  failures : ∀ f ∈ x.failures, f.Unwound ↔ f.LeavesNothing

omit [LE T] [DecidableLE T] in
theorem Creating.framesMade (h : x.Creating) : x.loop.FramesMade := by
  intro tr listener multi hframe
  obtain ⟨t, ht, -⟩ := h.made tr listener multi hframe
  exact (List.getElem?_eq_some_iff.mp ht).1

omit [LE T] [DecidableLE T] in
/-- Two closes are one too many. -/
theorem not_unwound_closes {f : CreationFailure K T} (hos : f.osClosed = true)
    (hsock : f.sockMade = true) : ¬ f.Unwound := by
  intro h
  have hcloses := h.closes
  rw [CreationFailure.closes, hos, hsock] at hcloses
  cases hcloses

omit [LE T] [DecidableLE T] in
theorem not_unwound_registered {f : CreationFailure K T} (htable : f.before.TableSound)
    (h : f.after.RegisteredSince f.before.objs.length f.fd) : ¬ f.Unwound := by
  intro hunwound
  obtain ⟨tr, htr, hsince⟩ := h
  exact Nat.not_lt.mpr hsince (htable _ _ (hunwound.transports tr htr))

/-- Only a factory that is left by what is no `Exception` can leave nothing once there is a socket
object. -/
theorem failure?_unwound_iff (h : x.Creating) {a : EventLoop.Act K T} {t : EventLoop K T}
    (hstep : x.loop.step a = some t) {f : CreationFailure K T} (hf : x.failure? a t = some f) :
    f.Unwound ↔ f.LeavesNothing := by
  unfold failure? at hf
  split at hf
  · obtain rfl := Option.some_inj.mp hf
    exact iff_of_false (not_unwound_closes rfl rfl) (by rintro (⟨⟨⟩⟩ | ⟨-, ⟨⟩, -⟩))
  · rename_i e env listener client multi rest hstack
    obtain rfl := Option.some_inj.mp hf
    -- the exception only takes the results with it
    have htables : t.transports = x.loop.transports ∧ t.ioFutures = x.loop.ioFutures ∧
        t.core = x.loop.core := by
      obtain ⟨frame, rest', hstack', rfl, -⟩ := EventLoop.step_ret hstep h.framesMade
      rw [hstack] at hstack'
      cases hstack'
      exact ⟨rfl, rfl, rfl⟩
    obtain ⟨htransports, hio, hcore⟩ := htables
    constructor
    · intro hunwound
      exact .inr ⟨rfl, rfl, hunwound.toClean.congr htransports.symm hio.symm hcore.symm⟩
    · rintro (⟨⟨⟩⟩ | ⟨-, -, hclean⟩)
      exact ⟨hclean.congr htransports hio hcore, rfl⟩
  · -- the transport is in `_transports` already
    rename_i r env tr listener multi rest hstack
    obtain ⟨u, hu, hsince⟩ := h.made tr listener multi (hstack ▸ List.mem_cons_self)
    have hleft : t.RegisteredSince x.before.objs.length u.fd :=
      registeredSince_step hstep (by rintro ⟨⟩) h.grown hsince
    rw [hu] at hf
    cases r with
    | raised handlerRaises =>
      obtain rfl := Option.some_inj.mp hf
      exact iff_of_false (not_unwound_closes rfl rfl) (by rintro (⟨⟨⟩⟩ | ⟨⟨⟩, -⟩))
    | escaped e =>
      obtain rfl := Option.some_inj.mp hf
      exact iff_of_false (not_unwound_registered h.tableBefore hleft) (by rintro (⟨⟨⟩⟩ | ⟨⟨⟩, -⟩))
    | value truthy =>
      obtain ⟨-, hf⟩ := Option.ite_none_right_eq_some.mp hf
      obtain rfl := Option.some_inj.mp hf
      exact iff_of_false (not_unwound_registered h.tableBefore hleft) (by rintro (⟨⟨⟩⟩ | ⟨⟨⟩, -⟩))
    | closeRaised _ | closeEscaped _ => cases hf
  · cases hf

/-- A handler has begun: no transport is being made yet. -/
theorem Creating.handled (h : x.Creating) {t : EventLoop K T}
    (hstep : x.loop.step .handleCompletion = some t) :
    t.TableSound ∧ ∀ tr listener multi, .connectionMade tr (.accepted listener multi) ∉ t.stack :=
  ⟨(EventLoop.step_moves hstep).rule (fun _ _ hu hmove => hu.move hmove) h.table,
    fun _ _ _ hframe => absurd rfl (EventLoop.connectionMade_mem h.framesMade hstep hframe).1⟩

theorem Creating.failures_loop (h : x.Creating) {a : EventLoop.Act K T} {t : EventLoop K T}
    (hstep : x.loop.step a = some t) :
    ∀ f ∈ x.failures ++ (x.failure? a t).toList, f.Unwound ↔ f.LeavesNothing := by
  intro f hf
  rcases List.mem_append.mp hf with hf | hf
  · exact h.failures f hf
  · exact failure?_unwound_iff h hstep (Option.mem_toList.mp hf)

/-- A step that begins no handler. -/
theorem Creating.loop (h : x.Creating) {a : EventLoop.Act K T} {t : EventLoop K T}
    (hstep : x.loop.step a = some t) (ha : a ≠ .handleCompletion) :
    Creating ⟨t, x.before, x.failures ++ (x.failure? a t).toList⟩ where
  table := (EventLoop.step_moves hstep).rule (fun _ _ hu hmove => hu.move hmove) h.table
  tableBefore := h.tableBefore
  grown := h.grown.trans (EventLoop.step_moves hstep).objs_length
  made tr listener multi hframe := by
    -- `connection_made` was called before, or the factory has just returned
    rcases (EventLoop.connectionMade_mem h.framesMade hstep hframe).2 with
      hold | ⟨client, rest, -, rfl, rfl⟩
    · obtain ⟨u, hu, hsince⟩ := h.made tr listener multi hold
      obtain ⟨v, hv, hfd⟩ := fd_step hstep hu
      exact ⟨v, hv, hfd ▸ registeredSince_step hstep ha h.grown hsince⟩
    · refine ⟨Transport.new client true, List.getElem?_concat_length, x.loop.objs.length, ?_, h.grown⟩
      exact AList.lookup_insert x.loop.transports
  failures := h.failures_loop hstep

theorem Creating.step (h : x.Creating) (hstep : x.step b = some y) : y.Creating := by
  cases b with
  | loop a =>
    obtain ⟨t, ht, rfl⟩ := Option.map_eq_some_iff.mp hstep
    by_cases ha : a = .handleCompletion
    · subst ha
      obtain ⟨htable, hnone⟩ := h.handled ht
      refine ⟨htable, htable, Nat.le_refl _, ?_, ?_⟩
      · exact fun tr listener multi hframe => absurd hframe (hnone tr listener multi)
      · exact h.failures_loop ht
    · cases a <;> first | exact h.loop ht ha | exact absurd rfl ha
  | socketRaises =>
    obtain ⟨t, ht, hy⟩ := Option.bind_eq_some_iff.mp hstep
    obtain ⟨htable, hnone⟩ := h.handled ht
    split at hy
    · rename_i listener client multi rest hstack
      cases hy
      -- the caller has called `os.close`, and nothing else has been done
      have hsame : ({ t with stack := rest }.afterAccept listener multi) =
          { t with stack := (if multi then [] else [.rearmAccept listener]) ++ rest } := by
        cases multi <;> rfl
      rw [hsame]
      refine ⟨htable, htable, Nat.le_refl _, ?_, ?_⟩
      · intro tr listener' multi' hframe
        refine absurd ?_ (hnone tr listener' multi')
        rw [hstack]
        rcases List.mem_append.mp hframe with hframe | hframe
        · cases multi <;> simp at hframe
        · exact List.mem_cons_of_mem _ hframe
      · intro f hf
        rcases List.mem_append.mp hf with hf | hf
        · exact h.failures f hf
        · obtain rfl := List.mem_singleton.mp hf
          exact iff_of_true ⟨⟨fun _ => id, fun _ _ => id, fun _ => id⟩, rfl⟩ (.inl rfl)
    · cases hy

omit [LE T] [DecidableLE T] in
theorem creating_init (core : UringCore FutId (Handle K) T) : (init core).Creating where
  table := by rintro fd tr ⟨⟩
  tableBefore := by rintro fd tr ⟨⟩
  grown := Nat.le_refl _
  made := by rintro tr listener multi ⟨⟩
  failures := by rintro f ⟨⟩

/-- **Accepted connections whose transport could not be made.** In every run, a creation that has
failed is unwound if and only if it was `socket.socket(fileno=fd)` that raised, or the factory, and that no
`Exception`, without having entered anything for the descriptor itself. -/
theorem unwound_iff {core : UringCore FutId (Handle K) T} {bs : List (Act K T)}
    (hrun : machine.run (init core) bs = some x) {f : CreationFailure K T} (hf : f ∈ x.failures) :
    f.Unwound ↔ f.LeavesNothing :=
  (Machine.run_invariant' (I := Creating) (fun _ _ _ h hstep => h.step hstep) (creating_init core)
    hrun).failures f hf

end

/-! ## Runs -/

/-- A server on fd 5 has accepted fd 7, and the completion waits for its handler. -/
def acceptedRun : List (Act Unit Nat) :=
  [.loop (.call (.createServer false true 5) ⟨0, .ok 1⟩), .loop (.complete 0 (.count 7) false false),
    .loop (.startTick 0 (.ok 0))]

/-- `socket.socket` raises, and the factory panics. -/
theorem unwound_socketRaises : ∃ core x y f g, UringCore.new Setup.plain 16 2 = .ok core ∧
    machine.run (init core) (acceptedRun ++ [.socketRaises]) = some x ∧ x.failures = [f] ∧
    f.fd = 7 ∧ f.Unwound ∧
    machine.run (init core) (acceptedRun ++ [.loop .handleCompletion,
      .loop (.ret (.escaped .panic) ⟨0, .ok 0⟩)]) = some y ∧ y.failures = [g] ∧ g.fd = 7 ∧
    g.Unwound := by
  obtain ⟨core, x, y, f, g, hnew, hrun, hf, hfd, hstage, hrun', hg, hfd', hleaves⟩ : ∃ core x y f g,
      UringCore.new Setup.plain 16 2 = .ok core ∧
      machine.run (init core) (acceptedRun ++ [.socketRaises]) = some x ∧ x.failures = [f] ∧
      f.fd = 7 ∧ f.stage = .socket ∧
      machine.run (init core) (acceptedRun ++ [.loop .handleCompletion,
        .loop (.ret (.escaped .panic) ⟨0, .ok 0⟩)]) = some y ∧ y.failures = [g] ∧ g.fd = 7 ∧
      g.stage = .factory ∧ g.caught = false ∧ g.Clean g.failed :=
    ⟨_, _, _, _, _, rfl, rfl, rfl, rfl, rfl, rfl, rfl, rfl, rfl, rfl, nofun, nofun, nofun⟩
  have hmem : f ∈ x.failures := hf ▸ List.mem_singleton_self f
  have hmem' : g ∈ y.failures := hg ▸ List.mem_singleton_self g
  exact ⟨core, x, y, f, g, hnew, hrun, hf, hfd, (unwound_iff hrun hmem).mpr (.inl hstage), hrun', hg,
    hfd', (unwound_iff hrun' hmem').mpr (.inr hleaves)⟩

/-- `connection_made` raises: the transport stays in `_transports`, and so does a socket object that
closes the descriptor once more. It writes more than a buffer holds: the transport stays. The receive is
refused: the transport, its future and the registration stay. -/
theorem not_unwound : ∃ core x y z f g h, UringCore.new Setup.plain 16 2 = .ok core ∧
    machine.run (init core) (acceptedRun ++ [.loop .handleCompletion,
      .loop (.ret (.value true) ⟨0, .ok 0⟩), .loop (.ret (.raised false) ⟨0, .ok 0⟩)]) = some x ∧
    x.failures = [f] ∧ f.after.transports.lookup 7 = some 0 ∧ f.closes = 2 ∧ ¬ f.Unwound ∧
    machine.run (init core) (acceptedRun ++ [.loop .handleCompletion,
      .loop (.ret (.value true) ⟨0, .ok 0⟩), .loop (.ret (.value true) ⟨0, .error "EBUSY"⟩)]) = some y ∧
    y.failures = [g] ∧ g.after.transports.lookup 7 = some 0 ∧ g.after.ioLookup 7 .recv = some 1 ∧
    (g.after.core.fdStates.states.lookup 7).isSome = true ∧ g.closes = 1 ∧ ¬ g.Unwound ∧
    machine.run (init core) (acceptedRun ++ [.loop .handleCompletion,
      .loop (.ret (.value true) ⟨0, .ok 0⟩),
      .loop (.call (.write 0 (List.replicate 17 0)) ⟨0, .ok 0⟩),
      .loop (.ret (.escaped .panic) ⟨0, .ok 0⟩)]) = some z ∧
    z.failures = [h] ∧ h.after.transports.lookup 7 = some 0 ∧ ¬ h.Unwound := by
  refine ⟨_, _, _, _, _, _, _, rfl, rfl, rfl, rfl, rfl, ?_, rfl, rfl, rfl, rfl, rfl, rfl, ?_, rfl, rfl,
    rfl, ?_⟩
  · exact not_unwound_closes rfl rfl
  · intro hunwound
    cases hunwound.transports 0 rfl
  · intro hunwound
    cases hunwound.transports 0 rfl

end CreationLoop

end Uringcore
