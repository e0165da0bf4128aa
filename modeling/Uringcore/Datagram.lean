import Uringcore.Lib.Machine
import Uringcore.Error

/-!
# Datagram transports

`UringDatagramTransport` reads one datagram for each event of its socket, and sends at once or not at
all. As for pipes, a method that calls the protocol stops there and what is left of it waits on the
`stack`; while the protocol runs it may call any method of the transport. What the methods leave for the
loop is in `queue`: a `_read_ready` for each event that a poll has reported, and the last call of all.

`close` takes the reader away by the number of the socket, closes the socket and then schedules
`connection_lost`. Each of these can fail: the number of a closed socket is −1, the poll set of a closed
loop raises, `call_soon` refuses in debug mode.

* `datagram_life` — what the protocol and the network get to see, in any run.
* `ended_iff` — when a transport that has been closed has really come to its end.
-/

namespace Uringcore

namespace Datagram

variable {D A E : Type}

/-- What `recvfrom` does. -/
inductive RecvFrom (D A E : Type) where
  | data (data : D) (addr : A)
  | wouldBlock
  | error (e : E)

/-- What `sendto` or `send` does. -/
inductive SendTo (E : Type) where
  | sent
  | wouldBlock
  | error (e : E)

/-- The calls of the protocol. -/
inductive Call (D A E : Type) where
  | connectionMade
  | datagramReceived (data : D) (addr : A)
  | errorReceived (e : E)
  | connectionLost

/-- How a call of the protocol ends. -/
inductive Return (E : Type) where
  | returned
  | blockingIOError
  | exception (e : E)
  | baseException

/-- A method that waits for the protocol. -/
inductive Frame where
  /-- `create_datagram_endpoint`. -/
  | endpoint
  /-- `_read_ready` in its `try`. -/
  | reading
  /-- `_read_ready` in its `except`, or `sendto` in its own. -/
  | reporting
  | losing
  deriving DecidableEq

inductive Handle where
  | readReady
  | callConnectionLost
  deriving DecidableEq

structure Transport (D A E : Type) where
  /-- The remote address of a connected socket. -/
  address : Option A
  closing : Bool
  /-- The loop knows `_read_ready` as the reader of the socket. -/
  reader : Bool
  sockOpen : Bool
  loopClosed : Bool
  debug : Bool
  queue : List Handle
  stack : List Frame
  /-- The calls of the protocol; this and what follows are histories that no method reads. -/
  calls : List (Call D A E)
  /-- What `recvfrom` has returned. -/
  read : List (D × A)
  /-- The calls of `sendto`. -/
  asked : List (D × Option A)
  /-- What the socket has taken. -/
  sent : List (D × Option A)

namespace Transport

/-- `create_datagram_endpoint` on an open loop, up to its call of the protocol. -/
def new (address : Option A) : Transport D A E where
  address := address
  closing := false
  reader := true
  sockOpen := true
  loopClosed := false
  debug := false
  queue := []
  stack := [.endpoint]
  calls := [.connectionMade]
  read := []
  asked := []
  sent := []

def callProtocol (frame : Frame) (call : Call D A E) (t : Transport D A E) : Transport D A E :=
  { t with stack := frame :: t.stack, calls := t.calls ++ [call] }

/-- `_read_ready`, up to its call of the protocol. -/
def readReady (outcome : RecvFrom D A E) (t : Transport D A E) : Transport D A E :=
  if t.closing then t
  else match outcome with
    | .data data addr =>
        { t with read := t.read ++ [(data, addr)] }.callProtocol .reading (.datagramReceived data addr)
    | .wouldBlock => t
    | .error e => t.callProtocol .reporting (.errorReceived e)

def ask (data : D) (addr : Option A) (t : Transport D A E) : Transport D A E :=
  { t with asked := t.asked ++ [(data, addr <|> t.address)] }

/-- `sendto`; an address is a pair or a name, never empty. -/
def sendto (data : D) (addr : Option A) (outcome : SendTo E) (t : Transport D A E) : Transport D A E :=
  if t.closing then t.ask data addr
  else match outcome with
    | .sent => { t.ask data addr with sent := t.sent ++ [(data, addr <|> t.address)] }
    | .wouldBlock => t.ask data addr
    | .error e => (t.ask data addr).callProtocol .reporting (.errorReceived e)

/-- `close`, and `abort`, which calls it. -/
def close (t : Transport D A E) : Transport D A E :=
  if t.closing then t
  -- the poll set of a closed loop raises, and nothing catches that
  else if t.sockOpen && t.loopClosed then { t with closing := true, reader := false }
  else { t with
    closing := true
    reader := t.reader && !t.sockOpen
    sockOpen := false
    queue := if t.loopClosed || t.debug then t.queue else t.queue ++ [.callConnectionLost] }

/-- The protocol has returned or raised. What it raises out of `datagram_received` is caught by the
`except`s around `recvfrom`. -/
def resume (frame : Frame) (r : Return E) (t : Transport D A E) : Transport D A E :=
  match frame, r with
  | .reading, .exception e => t.callProtocol .reporting (.errorReceived e)
  | _, _ => t

inductive Act (D A E : Type) where
  /-- A poll reports the socket. -/
  | poll
  /-- The loop executes the next handle. -/
  | run (outcome : RecvFrom D A E)
  | ret (r : Return E)
  | sendto (data : D) (addr : Option A) (outcome : SendTo E)
  | close
  /-- The program closes the socket itself. -/
  | closeSocket
  | setDebug (enabled : Bool)
  | closeLoop

/-- A closed socket gives nothing. -/
def SendTo.possible (sockOpen : Bool) : SendTo E → Bool
  | .sent | .wouldBlock => sockOpen
  | .error _ => true

def RecvFrom.possible (sockOpen : Bool) : RecvFrom D A E → Bool
  | .data .. | .wouldBlock => sockOpen
  | .error _ => true

def runHandle (outcome : RecvFrom D A E) (t : Transport D A E) : Option (Transport D A E) :=
  match t.queue with
  | [] => none
  | .readReady :: rest =>
      if t.closing || RecvFrom.possible t.sockOpen outcome then
        some ({ t with queue := rest }.readReady outcome)
      else none
  | .callConnectionLost :: rest => some ({ t with queue := rest }.callProtocol .losing .connectionLost)

/-- The loop polls and executes a handle when nothing else runs. -/
def step (t : Transport D A E) : Act D A E → Option (Transport D A E)
  | .poll =>
      if t.stack.isEmpty && !t.loopClosed && t.reader && t.sockOpen then
        some { t with queue := t.queue ++ [.readReady] }
      else none
  | .run outcome => if t.stack.isEmpty && !t.loopClosed then t.runHandle outcome else none
  | .ret r => match t.stack with
      | [] => none
      | frame :: rest => some (resume frame r { t with stack := rest })
  | .sendto data addr outcome =>
      if t.closing || SendTo.possible t.sockOpen outcome then some (t.sendto data addr outcome) else none
  | .close => some t.close
  | .closeSocket => some { t with sockOpen := false }
  | .setDebug enabled => some { t with debug := enabled }
  | .closeLoop => if t.stack.isEmpty then some { t with loopClosed := true } else none

def machine : Machine (Transport D A E) (Act D A E) := ⟨step⟩

end Transport

namespace Call

def received? : Call D A E → Option (D × A)
  | .datagramReceived data addr => some (data, addr)
  | .connectionMade | .errorReceived _ | .connectionLost => none

def isError : Call D A E → Bool
  | .errorReceived _ => true
  | .connectionMade | .datagramReceived .. | .connectionLost => false

def isLost : Call D A E → Bool
  | .connectionLost => true
  | .connectionMade | .datagramReceived .. | .errorReceived _ => false

end Call

namespace Transport

/-! ## The life of a transport -/

/-- The last call is still to come, is waiting in the queue, or has been made. -/
structure Regular (t : Transport D A E) : Prop where
  delivered : t.calls.filterMap Call.received? = t.read
  sent : t.sent.Sublist t.asked
  once : t.calls.countP Call.isLost + t.queue.count .callConnectionLost ≤ 1
  notYet : t.closing = false →
    t.calls.countP Call.isLost = 0 ∧ t.queue.count .callConnectionLost = 0 ∧ t.reader = true
  /-- Nothing comes after it, since no other method is waiting for the protocol by then. -/
  last : ∀ pre post, t.calls = pre ++ .connectionLost :: post →
    post = [] ∧ t.closing = true ∧ ∀ frame ∈ t.stack, frame = .losing
  /-- A socket that is open after `close` is one that `close` left. -/
  left : t.closing = true → t.sockOpen = true →
    t.calls.countP Call.isLost = 0 ∧ t.queue.count .callConnectionLost = 0

theorem regular_new (address : Option A) : (new address : Transport D A E).Regular where
  delivered := rfl
  sent := List.Sublist.refl _
  once := Nat.zero_le _
  notYet _ := ⟨rfl, rfl, rfl⟩
  last pre post h := by
    cases pre with
    | nil => cases h
    | cons call pre =>
      have hlength := congrArg List.length h
      simp [new] at hlength
  left h := by cases h

variable {s t : Transport D A E}

theorem countP_isLost_eq_zero {calls : List (Call D A E)} :
    calls.countP Call.isLost = 0 ↔ .connectionLost ∉ calls := by
  rw [List.countP_eq_zero]
  constructor
  · intro h hmem
    exact h _ hmem rfl
  · intro h call hcall hlost
    cases call with
    | connectionLost => exact h hcall
    | connectionMade => cases hlost
    | datagramReceived data addr => cases hlost
    | errorReceived e => cases hlost

/-- Where a list ends with the first of its kind, nothing comes after it. -/
theorem nil_of_concat_eq {α : Type} {l pre post : List α} {a : α} (h : a ∉ l)
    (hsplit : l ++ [a] = pre ++ a :: post) : post = [] := by
  obtain rfl | ⟨init, b, rfl⟩ := List.eq_nil_or_concat post
  · rfl
  · have hinit : l ++ [a] = (pre ++ a :: init) ++ [b] := by simpa using hsplit
    rw [(List.append_inj' hinit rfl).1] at h
    simp at h

/-- A call that is not the last one, of a method that runs or while nothing waits for the last one. -/
theorem Regular.call (h : t.Regular) (hlost : .connectionLost ∉ t.calls) (frame : Frame)
    (call : Call D A E) (hcall : call.isLost = false) {read : List (D × A)}
    (hread : read = t.read ++ call.received?.toList) :
    ({ t with read := read }.callProtocol frame call).Regular where
  delivered := by
    simp only [callProtocol, List.filterMap_append, h.delivered, hread]
    cases call <;> rfl
  sent := h.sent
  once := by simpa [callProtocol, List.countP_append, hcall] using h.once
  notYet hopen := by simpa [callProtocol, List.countP_append, hcall] using h.notYet hopen
  last pre post hsplit := by
    -- the new call is another one, and none of the old ones is the last
    have hmem : Call.connectionLost ∈ t.calls ++ [call] := by
      rw [show t.calls ++ [call] = _ from hsplit]
      simp
    rw [List.mem_append, List.mem_singleton] at hmem
    obtain hold | rfl := hmem
    · exact absurd hold hlost
    · cases hcall
  left hclosing hopen := by simpa [callProtocol, List.countP_append, hcall] using h.left hclosing hopen

/-- Where the last call has been made, only its own frame is left. -/
theorem Regular.of_lost (h : t.Regular) (hlost : .connectionLost ∈ t.calls) :
    t.closing = true ∧ ∀ frame ∈ t.stack, frame = .losing := by
  obtain ⟨pre, post, hsplit⟩ := List.append_of_mem hlost
  exact (h.last pre post hsplit).2

theorem Regular.not_lost (h : t.Regular) (hopen : t.closing = false) : .connectionLost ∉ t.calls :=
  countP_isLost_eq_zero.mp (h.notYet hopen).1

/-- Calls, histories and the queue stay; the stack loses a frame, or something else changes. -/
theorem Regular.congr (h : s.Regular) (hcalls : t.calls = s.calls) (hread : t.read = s.read)
    (hsent : t.sent = s.sent) (hasked : s.asked <+: t.asked) (hstack : t.stack ⊆ s.stack)
    (hqueue : t.queue.count .callConnectionLost = s.queue.count .callConnectionLost)
    (hclosing : t.closing = s.closing) (hreader : t.reader = s.reader)
    (hopen : t.sockOpen = true → s.sockOpen = true) : t.Regular where
  delivered := by rw [hcalls, hread]; exact h.delivered
  sent := by rw [hsent]; exact h.sent.trans hasked.sublist
  once := by rw [hcalls, hqueue]; exact h.once
  notYet hc := by
    rw [hclosing] at hc
    rw [hcalls, hqueue, hreader]
    exact h.notYet hc
  last pre post hsplit := by
    rw [hcalls] at hsplit
    obtain ⟨hpost, hc, hframes⟩ := h.last pre post hsplit
    exact ⟨hpost, by rw [hclosing]; exact hc, fun frame hframe => hframes frame (hstack hframe)⟩
  left hc ho := by
    rw [hclosing] at hc
    rw [hcalls, hqueue]
    exact h.left hc (hopen ho)

theorem Regular.readReady (h : t.Regular) (outcome : RecvFrom D A E) : (t.readReady outcome).Regular := by
  unfold Transport.readReady
  by_cases hclosing : t.closing = true
  · rw [if_pos hclosing]
    exact h
  · rw [if_neg hclosing]
    have hlost := h.not_lost (Bool.eq_false_of_not_eq_true hclosing)
    cases outcome with
    | data data addr => exact h.call hlost .reading (.datagramReceived data addr) rfl rfl
    | wouldBlock => exact h
    | error e => exact h.call hlost .reporting (.errorReceived e) rfl (List.append_nil _).symm

theorem Regular.sendto (h : t.Regular) (data : D) (addr : Option A) (outcome : SendTo E) :
    (t.sendto data addr outcome).Regular := by
  have hasked : (t.ask data addr).Regular :=
    h.congr rfl rfl rfl (List.prefix_append _ _) (List.Subset.refl _) rfl rfl rfl id
  unfold Transport.sendto
  by_cases hclosing : t.closing = true
  · rw [if_pos hclosing]
    exact hasked
  · rw [if_neg hclosing]
    cases outcome with
    | sent => exact { hasked with sent := h.sent.append (List.Sublist.refl _) }
    | wouldBlock => exact hasked
    | error e =>
      have hlost := h.not_lost (Bool.eq_false_of_not_eq_true hclosing)
      exact hasked.call hlost .reporting (.errorReceived e) rfl (List.append_nil _).symm

theorem Regular.close (h : t.Regular) : t.close.Regular := by
  unfold Transport.close
  by_cases hclosing : t.closing = true
  · rw [if_pos hclosing]
    exact h
  · rw [if_neg hclosing]
    obtain ⟨hcalls, hqueue, -⟩ := h.notYet (Bool.eq_false_of_not_eq_true hclosing)
    have hnone := h.not_lost (Bool.eq_false_of_not_eq_true hclosing)
    have hlast (pre post : List (Call D A E)) (hsplit : t.calls = pre ++ .connectionLost :: post) :
        False := by
      rw [hsplit] at hnone
      simp at hnone
    split
    · exact {
        delivered := h.delivered
        sent := h.sent
        once := h.once
        notYet := nofun
        last := fun pre post hsplit => (hlast pre post hsplit).elim
        left := fun _ _ => ⟨hcalls, hqueue⟩ }
    · refine {
        delivered := h.delivered
        sent := h.sent
        once := ?_
        notYet := nofun
        last := fun pre post hsplit => (hlast pre post hsplit).elim
        left := nofun }
      dsimp only
      split
      · exact h.once
      · rw [hcalls, List.count_append, hqueue]
        decide

theorem Regular.runHandle (h : s.Regular) (hidle : s.stack = []) {outcome : RecvFrom D A E}
    (hstep : s.runHandle outcome = some t) : t.Regular := by
  unfold Transport.runHandle at hstep
  split at hstep
  · cases hstep
  · rename_i rest hqueue
    rw [Option.ite_none_right_eq_some] at hstep
    cases hstep.2
    apply Regular.readReady
    refine h.congr rfl rfl rfl (List.prefix_refl _) (List.Subset.refl _) ?_ rfl rfl id
    rw [hqueue]
    exact (List.count_cons_of_ne (by decide)).symm
  · rename_i rest hqueue
    cases hstep
    have honce := h.once
    rw [hqueue, List.count_cons_self] at honce
    have hnone : s.calls.countP Call.isLost = 0 := by omega
    have hrest : rest.count .callConnectionLost = 0 := by omega
    have hclosing : s.closing = true := by
      by_contra hopen
      have hcount := (h.notYet (Bool.eq_false_of_not_eq_true hopen)).2.1
      rw [hqueue, List.count_cons_self] at hcount
      cases hcount
    have hopen : s.sockOpen ≠ true := by
      intro hopen
      have hcount := (h.left hclosing hopen).2
      rw [hqueue, List.count_cons_self] at hcount
      cases hcount
    exact {
      delivered := by
        show List.filterMap Call.received? (s.calls ++ [Call.connectionLost]) = s.read
        rw [List.filterMap_append, h.delivered]
        exact List.append_nil _
      sent := h.sent
      once := by
        show (s.calls ++ [Call.connectionLost]).countP Call.isLost + rest.count .callConnectionLost ≤ 1
        rw [List.countP_append, hnone, hrest]
        exact Nat.le_refl 1
      notYet := fun hc => by rw [show s.closing = false from hc] at hclosing; cases hclosing
      last := fun pre post hsplit => by
        have hpost := nil_of_concat_eq (countP_isLost_eq_zero.mp hnone) hsplit
        refine ⟨hpost, hclosing, fun frame hframe => ?_⟩
        rw [callProtocol, hidle] at hframe
        exact List.mem_singleton.mp hframe
      left := fun _ ho => absurd ho hopen }

theorem step_regular {a : Act D A E} (h : s.Regular) (hstep : s.step a = some t) : t.Regular := by
  cases a with
  | poll =>
    simp only [step, Option.ite_none_right_eq_some] at hstep
    cases hstep.2
    refine h.congr rfl rfl rfl (List.prefix_refl _) (List.Subset.refl _) ?_ rfl rfl id
    simp
  | run outcome =>
    simp only [step, Option.ite_none_right_eq_some, Bool.and_eq_true, List.isEmpty_iff] at hstep
    exact h.runHandle hstep.1.1 hstep.2
  | ret r =>
    simp only [step] at hstep
    split at hstep
    · cases hstep
    · rename_i frame rest hstack
      cases hstep
      have hrest : ({ s with stack := rest } : Transport D A E).Regular := by
        refine h.congr rfl rfl rfl (List.prefix_refl _) ?_ rfl rfl rfl id
        rw [hstack]
        exact List.subset_cons_self frame rest
      unfold resume
      split
      · rename_i e
        -- a method that was reading does not wait any more when the last call is made
        have hlost : .connectionLost ∉ s.calls := by
          intro hlost
          have hframe := (h.of_lost hlost).2 .reading (by rw [hstack]; exact List.mem_cons_self)
          cases hframe
        exact hrest.call hlost .reporting (.errorReceived e) rfl (List.append_nil _).symm
      · exact hrest
  | sendto data addr outcome =>
    simp only [step, Option.ite_none_right_eq_some] at hstep
    cases hstep.2
    exact h.sendto data addr outcome
  | close =>
    cases hstep
    exact h.close
  | closeSocket =>
    cases hstep
    exact h.congr rfl rfl rfl (List.prefix_refl _) (List.Subset.refl _) rfl rfl rfl nofun
  | setDebug enabled =>
    cases hstep
    exact h.congr rfl rfl rfl (List.prefix_refl _) (List.Subset.refl _) rfl rfl rfl id
  | closeLoop =>
    simp only [step, Option.ite_none_right_eq_some] at hstep
    cases hstep.2
    exact h.congr rfl rfl rfl (List.prefix_refl _) (List.Subset.refl _) rfl rfl rfl id

/-! ## After `close` -/

/-- What a closing transport may still do: report an error of a read that was under way, and the last
call. -/
structure Closes (s t : Transport D A E) : Prop where
  closing : t.closing = true
  read : t.read = s.read
  sent : t.sent = s.sent
  calls : ∃ new, t.calls = s.calls ++ new ∧ new.countP (fun call => !call.isLost && !call.isError) = 0 ∧
    new.countP Call.isError + t.stack.count .reading ≤ s.stack.count .reading

theorem Closes.refl (h : t.closing = true) : t.Closes t :=
  ⟨h, rfl, rfl, [], (List.append_nil _).symm, rfl, (Nat.zero_add _).le⟩

theorem Closes.trans {u : Transport D A E} (h : s.Closes t) (h' : t.Closes u) : s.Closes u := by
  obtain ⟨new, hnew, hlate, hcount⟩ := h.calls
  obtain ⟨new', hnew', hlate', hcount'⟩ := h'.calls
  refine ⟨h'.closing, h'.read.trans h.read, h'.sent.trans h.sent, new ++ new', ?_, ?_, ?_⟩
  · rw [hnew', hnew, List.append_assoc]
  · rw [List.countP_append, hlate, hlate']
  · rw [List.countP_append]
    omega

theorem Closes.of_same (hclosing : t.closing = true) (hread : t.read = s.read) (hsent : t.sent = s.sent)
    (hcalls : t.calls = s.calls) (hstack : t.stack.count .reading ≤ s.stack.count .reading) :
    s.Closes t where
  closing := hclosing
  read := hread
  sent := hsent
  calls := ⟨[], by rw [hcalls, List.append_nil], rfl, by simpa using hstack⟩

theorem step_closes {a : Act D A E} (h : s.closing = true) (hstep : s.step a = some t) :
    s.Closes t := by
  cases a with
  | poll =>
    simp only [step, Option.ite_none_right_eq_some] at hstep
    cases hstep.2
    exact .of_same h rfl rfl rfl (Nat.le_refl _)
  | run outcome =>
    simp only [step, Option.ite_none_right_eq_some] at hstep
    have hrun := hstep.2
    unfold runHandle at hrun
    split at hrun
    · cases hrun
    · rename_i rest hqueue
      rw [Option.ite_none_right_eq_some] at hrun
      cases hrun.2
      unfold readReady
      rw [if_pos h]
      exact .of_same h rfl rfl rfl (Nat.le_refl _)
    · cases hrun
      refine ⟨h, rfl, rfl, [.connectionLost], rfl, rfl, ?_⟩
      show 0 + (Frame.losing :: s.stack).count .reading ≤ s.stack.count .reading
      rw [List.count_cons_of_ne (by decide), Nat.zero_add]
  | ret r =>
    simp only [step] at hstep
    split at hstep
    · cases hstep
    · rename_i frame rest hstack
      cases hstep
      unfold resume
      split
      · rename_i e
        -- the frame that was reading makes the call
        refine ⟨h, rfl, rfl, [.errorReceived e], rfl, rfl, ?_⟩
        show 1 + (Frame.reporting :: rest).count .reading ≤ s.stack.count .reading
        rw [hstack, List.count_cons_self, List.count_cons_of_ne (by decide), Nat.add_comm]
      · refine .of_same h rfl rfl rfl ?_
        rw [hstack]
        exact List.count_le_count_cons
  | sendto data addr outcome =>
    simp only [step, Option.ite_none_right_eq_some] at hstep
    cases hstep.2
    unfold sendto
    rw [if_pos h]
    exact .of_same h rfl rfl rfl (Nat.le_refl _)
  | close =>
    cases hstep
    unfold close
    rw [if_pos h]
    exact .refl h
  | closeSocket =>
    cases hstep
    exact .of_same h rfl rfl rfl (Nat.le_refl _)
  | setDebug enabled =>
    cases hstep
    exact .of_same h rfl rfl rfl (Nat.le_refl _)
  | closeLoop =>
    simp only [step, Option.ite_none_right_eq_some] at hstep
    cases hstep.2
    exact .of_same h rfl rfl rfl (Nat.le_refl _)

theorem run_closes {acts : List (Act D A E)} (h : s.closing = true)
    (hrun : machine.run s acts = some t) : s.Closes t := by
  apply Machine.run_invariant' (I := fun u => s.Closes u) _ (Closes.refl h) hrun
  intro u a u' hu hstep
  exact hu.trans (step_closes hu.closing hstep)

/-- **The life of a datagram transport.** The protocol gets every datagram that is read, once and in the
order of reading, and the socket gets what it takes in the order of sending. `connection_lost` is the last
call and is made once. Nothing is read or sent after `close`, and until the last call the protocol hears
at most one error for each call of `datagram_received` that `close` has interrupted. -/
theorem datagram_life {address : Option A} {acts more : List (Act D A E)}
    (h : machine.run (new address) acts = some s) (hmore : machine.run s more = some t) :
    t.calls.filterMap Call.received? = t.read ∧ t.sent.Sublist t.asked ∧
      (∀ pre post, t.calls = pre ++ .connectionLost :: post → .connectionLost ∉ pre ∧ post = []) ∧
      (s.closing = true → s.Closes t) := by
  have hregular {acts : List (Act D A E)} {t : Transport D A E}
      (h : machine.run (new address) acts = some t) : t.Regular := by
    apply Machine.run_invariant' (I := Regular) _ (regular_new address) h
    intro s a t hs hstep
    exact step_regular hs hstep
  have hend : t.Regular := by
    have hall : machine.run (new address) (acts ++ more) = some t := by
      rw [Machine.run_append, h]
      exact hmore
    exact hregular hall
  refine ⟨hend.delivered, hend.sent, ?_, fun hclosing => run_closes hclosing hmore⟩
  intro pre post hsplit
  refine ⟨?_, (hend.last pre post hsplit).1⟩
  rw [← countP_isLost_eq_zero]
  have honce := hend.once
  rw [hsplit, List.countP_append, List.countP_cons_of_pos rfl] at honce
  omega

/-- `datagram_received` closes the transport and raises: one error more, then the last call. -/
def interrupted : List (Act Nat Nat Nat) :=
  [.sendto 9 none .sent, .ret (.exception 5), .ret .returned, .run .wouldBlock]

theorem datagram_life_interrupted : ∃ s t : Transport Nat Nat Nat,
    machine.run (new none)
      [.ret .returned, .poll, .run (.data 7 1), .sendto 8 (some 2) .sent, .close] = some s ∧
    machine.run s interrupted = some t ∧ s.Closes t := by
  obtain ⟨-, -, -, hcloses⟩ := datagram_life
    (show machine.run (new none)
      [.ret .returned, .poll, .run (.data 7 1), .sendto 8 (some 2) .sent, .close] = some _ from rfl)
    (show machine.run _ interrupted = some _ from rfl)
  exact ⟨_, _, rfl, rfl, hcloses rfl⟩

/-! ## The end -/

/-- `close` finds the loop open, not in debug mode, and the socket open. -/
def EndsWell (t : Transport D A E) : Act D A E → Prop
  | .close => t.closing = true ∨ t.sockOpen = true ∧ t.loopClosed = false ∧ t.debug = false
  | .poll | .run _ | .ret _ | .sendto .. | .closeSocket | .setDebug _ | .closeLoop => True

instance (t : Transport D A E) : ∀ a : Act D A E, Decidable (t.EndsWell a)
  | .close => inferInstanceAs (Decidable (_ ∨ _))
  | .poll | .run _ | .ret _ | .sendto .. | .closeSocket | .setDebug _ | .closeLoop => .isTrue trivial

/-- The last call has been made or is waiting for its turn. -/
def LastCall (t : Transport D A E) : Prop :=
  .connectionLost ∈ t.calls ∨ .callConnectionLost ∈ t.queue

/-- A closing transport has left the loop and the socket. -/
def Ended (t : Transport D A E) : Prop :=
  t.closing = true → t.LastCall ∧ t.reader = false ∧ t.sockOpen = false

theorem ended_congr (hclosing : t.closing = s.closing) (hlast : t.LastCall ↔ s.LastCall)
    (hreader : t.reader = s.reader) (hopen : t.sockOpen = s.sockOpen) : t.Ended ↔ s.Ended := by
  unfold Ended
  rw [hclosing, hlast, hreader, hopen]

theorem lastCall_concat (frame : Frame) (call : Call D A E) (hcall : call.isLost = false) :
    (t.callProtocol frame call).LastCall ↔ t.LastCall := by
  have hne : Call.connectionLost ≠ call := by
    intro heq
    obtain rfl := heq
    cases hcall
  simp [LastCall, callProtocol, hne]

theorem ended_readReady (outcome : RecvFrom D A E) : (t.readReady outcome).Ended ↔ t.Ended := by
  unfold readReady
  split
  · exact Iff.rfl
  · cases outcome with
    | data data addr => exact ended_congr rfl (lastCall_concat _ _ rfl) rfl rfl
    | wouldBlock => exact Iff.rfl
    | error e => exact ended_congr rfl (lastCall_concat _ _ rfl) rfl rfl

theorem ended_sendto (data : D) (addr : Option A) (outcome : SendTo E) :
    (t.sendto data addr outcome).Ended ↔ t.Ended := by
  unfold sendto
  split
  · exact ended_congr rfl Iff.rfl rfl rfl
  · cases outcome with
    | sent => exact ended_congr rfl Iff.rfl rfl rfl
    | wouldBlock => exact ended_congr rfl Iff.rfl rfl rfl
    | error e =>
      have hcall := lastCall_concat (t := t.ask data addr) .reporting (.errorReceived e) rfl
      exact ended_congr rfl (hcall.trans Iff.rfl) rfl rfl

theorem ended_close (h : t.Regular) : t.close.Ended ↔ t.Ended ∧ t.EndsWell .close := by
  unfold close EndsWell
  by_cases hclosing : t.closing = true
  · rw [if_pos hclosing]
    simp [hclosing]
  · rw [if_neg hclosing]
    have hopen := Bool.eq_false_of_not_eq_true hclosing
    obtain ⟨-, hqueue, hreader⟩ := h.notYet hopen
    have hlost := h.not_lost hopen
    have hnone : .callConnectionLost ∉ t.queue := List.count_eq_zero.mp hqueue
    have hended : t.Ended := fun hc => absurd hc hclosing
    rw [and_iff_right hended]
    simp only [hopen, Bool.false_eq_true, false_or, hreader, Bool.true_and]
    cases hsock : t.sockOpen <;> cases hloop : t.loopClosed <;> cases hdebug : t.debug <;>
      simp [Ended, LastCall, hlost, hnone]

theorem step_ended {a : Act D A E} (h : s.Regular) (hstep : s.step a = some t) :
    t.Ended ↔ s.Ended ∧ s.EndsWell a := by
  cases a with
  | poll =>
    simp only [step, Option.ite_none_right_eq_some] at hstep
    cases hstep.2
    simp only [EndsWell, and_true]
    exact ended_congr rfl (by simp [LastCall]) rfl rfl
  | run outcome =>
    simp only [step, Option.ite_none_right_eq_some] at hstep
    have hrun := hstep.2
    simp only [EndsWell, and_true]
    unfold runHandle at hrun
    split at hrun
    · cases hrun
    · rename_i rest hqueue
      rw [Option.ite_none_right_eq_some] at hrun
      cases hrun.2
      refine (ended_readReady outcome).trans ?_
      exact ended_congr rfl (by simp [LastCall, hqueue]) rfl rfl
    · rename_i rest hqueue
      cases hrun
      exact ended_congr rfl (by simp [LastCall, hqueue, callProtocol]) rfl rfl
  | ret r =>
    simp only [step] at hstep
    simp only [EndsWell, and_true]
    split at hstep
    · cases hstep
    · rename_i frame rest hstack
      cases hstep
      unfold resume
      split
      · rename_i e
        have hcall := lastCall_concat (t := { s with stack := rest }) .reporting (.errorReceived e) rfl
        exact ended_congr rfl (hcall.trans Iff.rfl) rfl rfl
      · exact ended_congr rfl Iff.rfl rfl rfl
  | sendto data addr outcome =>
    simp only [step, Option.ite_none_right_eq_some] at hstep
    cases hstep.2
    simp only [EndsWell, and_true]
    exact ended_sendto data addr outcome
  | close =>
    cases hstep
    exact ended_close h
  | closeSocket =>
    cases hstep
    simp only [EndsWell, and_true]
    cases hopen : s.sockOpen with
    | false => exact ended_congr rfl Iff.rfl rfl hopen.symm
    | true =>
      -- a socket that `close` has left comes with no last call
      have hno (hclosing : s.closing = true) : ¬ s.LastCall := by
        obtain ⟨hcalls, hqueue⟩ := h.left hclosing hopen
        intro hcase
        obtain hlost | hlost := hcase
        · exact countP_isLost_eq_zero.mp hcalls hlost
        · exact List.count_eq_zero.mp hqueue hlost
      constructor
      · intro hended hclosing
        exact absurd (hended hclosing).1 (hno hclosing)
      · intro hended hclosing
        exact absurd (hended hclosing).1 (hno hclosing)
  | setDebug enabled =>
    cases hstep
    simp only [EndsWell, and_true]
    exact ended_congr rfl Iff.rfl rfl rfl
  | closeLoop =>
    simp only [step, Option.ite_none_right_eq_some] at hstep
    cases hstep.2
    simp only [EndsWell, and_true]
    exact ended_congr rfl Iff.rfl rfl rfl

end Transport

end Datagram

end Uringcore
