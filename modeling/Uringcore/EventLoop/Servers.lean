import Uringcore.EventLoop.Accepting

/-!
# Servers

The servers as objects over the loop: `create_server` and `create_unix_server` with all their
sockets, and the methods of `UringServer`. A server is created with its accepts armed, or asked to
serve later. `start_serving` calls `submit_accept` without the future that it requires, so it arms
nothing and raises.

Whether a listener is accepting is read off the ring, the completions that wait for their handlers,
and the handler that is at work. The handler arms the next accept only after one that succeeded, so
`listens_run` needs accepts that succeed, room in the queue, and servers that were created serving.
-/

namespace Uringcore

structure UringServer where
  sockets : List Fd
  serving : Bool
  /-- `_serving_forever_fut` is set. -/
  servingForever : Bool
  /-- A history: created with `start_serving`, or asked to serve. -/
  asked : Bool
  deriving DecidableEq, Repr

namespace UringServer

def new (sockets : List Fd) (startServing : Bool) : UringServer := ⟨sockets, false, false, startServing⟩

def startServing (server : UringServer) : UringServer × Except PyErr Unit :=
  let server := { server with asked := true }
  if server.serving then (server, .ok ())
  else
    let server := { server with serving := true }
    if server.sockets.isEmpty then (server, .ok ())
    -- `submit_accept(fd)`
    else (server, .error
      (.typeError "UringCore.submit_accept() missing 1 required positional argument: 'future'"))

/-- `serve_forever` up to the `await`. -/
def serveForever (server : UringServer) : UringServer × Except PyErr Unit :=
  if server.servingForever then (server, .error (.runtimeError "server.serve_forever() called twice"))
  else match server.startServing with
    | (server, .ok ()) => ({ server with servingForever := true }, .ok ())
    | (server, .error e) => (server, .error e)

/-- `close`; the loop forgets the sockets in `ServerLoop.close`. -/
def close (server : UringServer) : UringServer :=
  if server.sockets.isEmpty then server else { server with sockets := [], serving := false }

end UringServer

namespace EventLoop
variable {K T : Type}

/-- One socket of `create_server` or `create_unix_server`, with the way it ends. -/
def listen (env : Env) (unix startServing : Bool) (fd : Fd) (s : EventLoop K T) :
    EventLoop K T × Except PyErr Unit :=
  let fut := s.futs.length
  let s := s.registerFd fd (if unix then "unix_listener" else "tcp_listener")
  let s := { s with servers := s.servers.insert fd }
  if startServing then
    let s := s.createFuture fun _ => []
    (if unix then s else s.storeIo fd .accept fut).request env fd (.accept fut)
  else (s, .ok ())

theorem listen_fst (env : Env) (unix startServing : Bool) (fd : Fd) (s : EventLoop K T) :
    (s.listen env unix startServing fd).1 = s.createServer env unix startServing fd := by
  cases startServing <;> rfl

/-- The sockets in turn; `submit_accept` may raise at each of them. -/
def listenAll (unix startServing : Bool) :
    List (Fd × Env) → EventLoop K T → EventLoop K T × Except PyErr Unit
  | [], s => (s, .ok ())
  | (fd, env) :: socks, s => match s.listen env unix startServing fd with
    | (s, .ok ()) => listenAll unix startServing socks s
    | (s, .error e) => (s, .error e)

/-- The calls that are made through the server objects. -/
def Act.onServer : Act K T → Bool
  | .call (.createServer ..) _ | .call (.closeServer _) _ => true
  | _ => false

end EventLoop

/-- The loop and the servers that were created. -/
structure ServerLoop (K T : Type) where
  loop : EventLoop K T
  servers : List UringServer

namespace ServerLoop
variable {K T : Type}

def init (core : UringCore FutId (Handle K) T) : ServerLoop K T := ⟨.init core, []⟩

/-- `create_server`, `create_unix_server`. -/
def createServer (unix startServing : Bool) (socks : List (Fd × Env)) (x : ServerLoop K T) :
    ServerLoop K T :=
  match x.loop.listenAll unix startServing socks with
  | (loop, .ok ()) => ⟨loop, x.servers ++ [.new (socks.map Prod.fst) startServing]⟩
  | (loop, .error _) => { x with loop }

def close (i : Nat) (server : UringServer) (x : ServerLoop K T) : ServerLoop K T where
  loop := server.sockets.foldl (fun s fd => s.closeServer fd) x.loop
  servers := x.servers.set i server.close

inductive Act (K T : Type) where
  | loop (a : EventLoop.Act K T)
  | createServer (unix startServing : Bool) (socks : List (Fd × Env))
  | startServing (i : Nat)
  | serveForever (i : Nat)
  /-- The task that awaits `serve_forever` is cancelled. -/
  | cancelServing (i : Nat)
  | close (i : Nat)
  /-- The program calls `submit_accept_multishot` of the core. -/
  | acceptMultishot (fd : Fd) (env : Env)

section
variable [LE T] [DecidableLE T]

def step (x : ServerLoop K T) : Act K T → Option (ServerLoop K T)
  | .loop a => if a.onServer then none else (x.loop.step a).map fun loop => { x with loop }
  | .createServer unix startServing socks =>
      if x.loop.programRuns then some (x.createServer unix startServing socks) else none
  | .startServing i => if x.loop.programRuns then (x.servers[i]?).map fun server =>
      { x with servers := x.servers.set i server.startServing.1 } else none
  | .serveForever i => if x.loop.programRuns then (x.servers[i]?).map fun server =>
      { x with servers := x.servers.set i server.serveForever.1 } else none
  | .cancelServing i => match x.servers[i]? with
    | some server => if x.loop.programRuns && server.servingForever then
        some (x.close i { server with servingForever := false }) else none
    | none => none
  | .close i => if x.loop.programRuns then (x.servers[i]?).map fun server => x.close i server else none
  | .acceptMultishot fd env => if x.loop.programRuns then
      some { x with loop := (x.loop.request env fd .acceptMultishot).1 } else none

def machine : Machine (ServerLoop K T) (Act K T) := ⟨step⟩

/-! ## What a step does -/

inductive Stepped (x : ServerLoop K T) : Act K T → ServerLoop K T → Prop
  | loop {a : EventLoop.Act K T} {loop : EventLoop K T} (ha : a.onServer = false)
      (hloop : x.loop.step a = some loop) : Stepped x (.loop a) { x with loop }
  | createServer (unix startServing : Bool) (socks : List (Fd × Env)) (hruns : x.loop.programRuns = true) :
      Stepped x (.createServer unix startServing socks) (x.createServer unix startServing socks)
  | startServing {i : Nat} {server : UringServer} (hserver : x.servers[i]? = some server)
      (hruns : x.loop.programRuns = true) :
      Stepped x (.startServing i) { x with servers := x.servers.set i server.startServing.1 }
  | serveForever {i : Nat} {server : UringServer} (hserver : x.servers[i]? = some server)
      (hruns : x.loop.programRuns = true) :
      Stepped x (.serveForever i) { x with servers := x.servers.set i server.serveForever.1 }
  | cancelServing {i : Nat} {server : UringServer} (hserver : x.servers[i]? = some server)
      (hruns : x.loop.programRuns = true) (hserving : server.servingForever = true) :
      Stepped x (.cancelServing i) (x.close i { server with servingForever := false })
  | close {i : Nat} {server : UringServer} (hserver : x.servers[i]? = some server)
      (hruns : x.loop.programRuns = true) : Stepped x (.close i) (x.close i server)
  | acceptMultishot (fd : Fd) (env : Env) (hruns : x.loop.programRuns = true) :
      Stepped x (.acceptMultishot fd env) { x with loop := (x.loop.request env fd .acceptMultishot).1 }

theorem stepped {x y : ServerLoop K T} {b : Act K T} (hstep : x.step b = some y) : Stepped x b y := by
  cases b with
  | loop a =>
    simp only [step] at hstep
    split at hstep
    · cases hstep
    · rename_i ha
      obtain ⟨loop, hloop, rfl⟩ := Option.map_eq_some_iff.mp hstep
      exact .loop (Bool.eq_false_of_not_eq_true ha) hloop
  | createServer unix startServing socks =>
    obtain ⟨hruns, hy⟩ := Option.ite_none_right_eq_some.mp hstep
    cases hy
    exact .createServer unix startServing socks hruns
  | startServing i =>
    obtain ⟨hruns, hy⟩ := Option.ite_none_right_eq_some.mp hstep
    obtain ⟨server, hserver, rfl⟩ := Option.map_eq_some_iff.mp hy
    exact .startServing hserver hruns
  | serveForever i =>
    obtain ⟨hruns, hy⟩ := Option.ite_none_right_eq_some.mp hstep
    obtain ⟨server, hserver, rfl⟩ := Option.map_eq_some_iff.mp hy
    exact .serveForever hserver hruns
  | cancelServing i =>
    simp only [step] at hstep
    split at hstep
    · rename_i server hserver
      obtain ⟨hguard, hy⟩ := Option.ite_none_right_eq_some.mp hstep
      cases hy
      rw [Bool.and_eq_true] at hguard
      exact .cancelServing hserver hguard.1 hguard.2
    · cases hstep
  | close i =>
    obtain ⟨hruns, hy⟩ := Option.ite_none_right_eq_some.mp hstep
    obtain ⟨server, hserver, rfl⟩ := Option.map_eq_some_iff.mp hy
    exact .close hserver hruns
  | acceptMultishot fd env =>
    obtain ⟨hruns, hy⟩ := Option.ite_none_right_eq_some.mp hstep
    cases hy
    exact .acceptMultishot fd env hruns

end

/-! ## What every step keeps -/

section
variable [LE T] [DecidableLE T] {x y : ServerLoop K T} {b : Act K T}

theorem acceptsSound_listen {s : EventLoop K T} (h : s.AcceptsSound) (env : Env)
    (unix startServing : Bool) (fd : Fd) : (s.listen env unix startServing fd).1.AcceptsSound := by
  rw [EventLoop.listen_fst]
  refine h.moves (EventLoop.moves_createServer s (.consume 0) s env unix startServing fd) ?_
  apply h.made.mono
  · cases unix <;> cases startServing <;> exact fun _ hframe => hframe
  · cases unix <;> cases startServing <;> exact Nat.le_refl _

theorem acceptsSound_listenAll (unix startServing : Bool) (socks : List (Fd × Env)) {s : EventLoop K T}
    (h : s.AcceptsSound) : (s.listenAll unix startServing socks).1.AcceptsSound := by
  induction socks generalizing s with
  | nil => exact h
  | cons sock socks ih =>
    obtain ⟨fd, env⟩ := sock
    have hlisten := acceptsSound_listen h env unix startServing fd
    unfold EventLoop.listenAll
    split
    · rename_i u hok
      rw [hok] at hlisten
      exact ih hlisten
    · rename_i u e herror
      rwa [herror] at hlisten

theorem acceptsSound_createServer (h : x.loop.AcceptsSound) (unix startServing : Bool)
    (socks : List (Fd × Env)) : (x.createServer unix startServing socks).loop.AcceptsSound := by
  have hall := acceptsSound_listenAll unix startServing socks h
  unfold createServer
  split
  · rename_i u hok
    rwa [hok] at hall
  · rename_i u e herror
    rwa [herror] at hall

omit [LE T] [DecidableLE T] in
/-- Closing servers leaves the accepts to the ring. -/
theorem closeServers_accepts (sockets : List Fd) (s : EventLoop K T) :
    s.SameAccepts (sockets.foldl (fun s fd => s.closeServer fd) s) := by
  induction sockets generalizing s with
  | nil => exact .refl s
  | cons fd sockets ih => exact .after (ih (s.closeServer fd)) rfl rfl rfl rfl

theorem acceptsSound_closeServers (sockets : List Fd) {s : EventLoop K T} (h : s.AcceptsSound) :
    (sockets.foldl (fun s fd => s.closeServer fd) s).AcceptsSound := by
  induction sockets generalizing s with
  | nil => exact h
  | cons fd sockets ih =>
    apply ih
    have hmoves : EventLoop.Moves s (.consume 0) s (s.closeServer fd) :=
      .head (.unregistered _) (.single (.servers _))
    exact h.moves hmoves (h.made.mono (fun _ hframe => hframe) (Nat.le_refl _))

omit [LE T] [DecidableLE T] in
theorem acceptsSound_request {s : EventLoop K T} (h : s.AcceptsSound) (env : Env) (fd : Fd)
    (req : Request FutId) : (s.request env fd req).1.AcceptsSound := by
  have hone : s.core.IssuesOne fd req.opType (s.core.request env.now env.enter fd req).1 :=
    UringCore.request_issuesOne env.now req
  refine ⟨h.core.request env fd req, h.tied, h.kept.request h.core env fd req, ?_, h.made⟩
  unfold EventLoop.AcceptsOnce
  show ∀ c ∈ (s.core.request env.now env.enter fd req).1.ring.cq ++ s.drained, _
  rw [hone.cq]
  exact h.once

theorem moves_listenAll (s₀ : EventLoop K T) (a : EventLoop.Act K T) (unix startServing : Bool)
    (socks : List (Fd × Env)) (s : EventLoop K T) :
    EventLoop.Moves s₀ a s (s.listenAll unix startServing socks).1 := by
  induction socks generalizing s with
  | nil => exact .refl s
  | cons sock socks ih =>
    obtain ⟨fd, env⟩ := sock
    have hlisten := EventLoop.moves_createServer s₀ a s env unix startServing fd
    rw [← EventLoop.listen_fst] at hlisten
    unfold EventLoop.listenAll
    split
    · rename_i u hok
      rw [hok] at hlisten
      exact hlisten.trans (ih u)
    · rename_i u e herror
      rwa [herror] at hlisten

theorem moves_closeServers (s₀ : EventLoop K T) (a : EventLoop.Act K T) (sockets : List Fd)
    (s : EventLoop K T) :
    EventLoop.Moves s₀ a s (sockets.foldl (fun s fd => s.closeServer fd) s) := by
  induction sockets generalizing s with
  | nil => exact .refl s
  | cons fd sockets ih =>
    exact .head (.unregistered fd) (.head (.servers _) (ih (s.closeServer fd)))

/-- What the moves and the multishot accepts keep, every step keeps. -/
theorem step_rule {I : EventLoop K T → Prop}
    (hmove : ∀ (s₀ : EventLoop K T) (a : EventLoop.Act K T) (s t : EventLoop K T), I s →
      EventLoop.Move s₀ a s t → I t)
    (hrequest : ∀ (s : EventLoop K T) (env : Env) (fd : Fd), I s →
      I (s.request env fd .acceptMultishot).1) (hI : I x.loop)
    (hstep : x.step b = some y) : I y.loop := by
  have hclose (sockets : List Fd) : I (sockets.foldl (fun s fd => s.closeServer fd) x.loop) :=
    (moves_closeServers x.loop (.consume 0) sockets x.loop).rule (hmove _ _) hI
  cases stepped hstep with
  | loop ha hloop => exact (EventLoop.step_moves hloop).rule (hmove _ _) hI
  | createServer unix startServing socks hruns =>
    have hall := (moves_listenAll x.loop (.consume 0) unix startServing socks x.loop).rule (hmove _ _) hI
    unfold createServer
    split
    · rename_i u hok
      rwa [hok] at hall
    · rename_i u e herror
      rwa [herror] at hall
  | startServing hserver hruns => exact hI
  | serveForever hserver hruns => exact hI
  | cancelServing hserver hruns hserving => exact hclose _
  | close hserver hruns => exact hclose _
  | acceptMultishot fd env hruns => exact hrequest _ _ _ hI

theorem acceptsSound_step (h : x.loop.AcceptsSound) (hstep : x.step b = some y) :
    y.loop.AcceptsSound := by
  cases stepped hstep with
  | loop ha hloop => exact h.step hloop
  | createServer unix startServing socks hruns => exact acceptsSound_createServer h unix startServing socks
  | startServing hserver hruns => exact h
  | serveForever hserver hruns => exact h
  | cancelServing hserver hruns hserving => exact acceptsSound_closeServers _ h
  | close hserver hruns => exact acceptsSound_closeServers _ h
  | acceptMultishot fd env hruns => exact acceptsSound_request h env fd .acceptMultishot

end

end ServerLoop

end Uringcore
