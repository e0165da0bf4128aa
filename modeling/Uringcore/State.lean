import Mathlib.Data.List.AList
import Uringcore.Error

/-!
# Per-descriptor state

`FDState` holds the credit budget of one descriptor: the number of receives in flight and the queue
of filled buffers together may not reach `creditBudget`. `FDStateManager` maps descriptors to their
states and compares each state's generation with its own on every access except
`shouldSubmitRecv`.
-/

namespace Uringcore

/-- A `HashMap` keyed by descriptor. -/
abbrev FdMap (V : Type) := AList fun _ : Fd => V

inductive SocketType where
  | tcpStream | tcpListener | udp | unixStream | unixListener | other
  deriving DecidableEq, Repr

/-- The names `register_fd` accepts; any other string is `other`. -/
def SocketType.ofString : String → SocketType
  | "tcp" => .tcpStream
  | "tcp_listener" => .tcpListener
  | "udp" => .udp
  | "unix" => .unixStream
  | "unix_listener" => .unixListener
  | _ => .other

structure BufferRef where
  index : UInt16
  len : Nat
  offset : Nat
  generationId : UInt64
  deriving DecidableEq, Repr

/-- `DEFAULT_CREDIT_BUDGET`. -/
def defaultCreditBudget : Nat := 64

structure FDState where
  /-- `u32`, kept in range by saturating updates. -/
  inflightCount : Nat
  bufferQueue : List BufferRef
  creditBudget : Nat
  generationId : UInt64
  isPaused : Bool
  socketType : SocketType
  deriving DecidableEq, Repr

namespace FDState

def new (generationId : UInt64) (socketType : SocketType) : FDState where
  inflightCount := 0
  bufferQueue := []
  creditBudget := defaultCreditBudget
  generationId := generationId
  isPaused := false
  socketType := socketType

/-- Credit in use, a `u32` sum. -/
def used (st : FDState) : Nat :=
  (st.inflightCount + st.bufferQueue.length % 2 ^ 32) % 2 ^ 32

def hasCredit (st : FDState) : Bool := st.used < st.creditBudget

def shouldSubmitRecv (st : FDState) : Bool := !st.isPaused && st.hasCredit

/-- `on_submit`: a saturating increment. -/
def onSubmit (st : FDState) : FDState :=
  { st with inflightCount := min (st.inflightCount + 1) (2 ^ 32 - 1) }

/-- `on_completion_empty`: a saturating decrement. -/
def onCompletionEmpty (st : FDState) : FDState :=
  { st with inflightCount := st.inflightCount - 1 }

def pause (st : FDState) : FDState := { st with isPaused := true }

def resume (st : FDState) : FDState := { st with isPaused := false }

def isValidGeneration (st : FDState) (currentGen : UInt64) : Bool :=
  st.generationId == currentGen

end FDState

structure FDStateManager where
  states : FdMap FDState
  generationId : UInt64

namespace FDStateManager

def new : FDStateManager where
  states := ∅
  generationId := 1

def register (fd : Fd) (socketType : SocketType) (m : FDStateManager) : FDStateManager :=
  { m with states := m.states.insert fd (.new m.generationId socketType) }

/-- `unregister`: the state goes away, its queued buffers are handed back. -/
def unregister (fd : Fd) (m : FDStateManager) : FDStateManager × Option (List BufferRef) :=
  ({ m with states := m.states.erase fd }, (m.states.lookup fd).map (·.bufferQueue))

/-- `increment_generation`, with the new generation it returns. -/
def incrementGeneration (m : FDStateManager) : FDStateManager × UInt64 :=
  ({ m with generationId := m.generationId + 1 }, m.generationId + 1)

def withState {R : Type} (fd : Fd) (f : FDState → R) (m : FDStateManager) : Except Error R :=
  match m.states.lookup fd with
  | none => .error (.fd s!"FD {fd} not registered")
  | some st =>
      if st.isValidGeneration m.generationId then .ok (f st)
      else .error (.invalidGeneration m.generationId st.generationId)

/-- `with_state_mut` for an update `f`. -/
def withStateMut (fd : Fd) (f : FDState → FDState) (m : FDStateManager) :
    Except Error FDStateManager :=
  match m.states.lookup fd with
  | none => .error (.fd s!"FD {fd} not registered")
  | some st =>
      if st.isValidGeneration m.generationId then
        .ok { m with states := m.states.insert fd (f st) }
      else .error (.invalidGeneration m.generationId st.generationId)

/-- `should_submit_recv`: no generation check, an unknown descriptor is refused. -/
def shouldSubmitRecv (fd : Fd) (m : FDStateManager) : Bool :=
  match m.states.lookup fd with
  | none => false
  | some st => st.shouldSubmitRecv

def pauseReading (fd : Fd) (m : FDStateManager) : Except Error FDStateManager :=
  m.withStateMut fd .pause

def resumeReading (fd : Fd) (m : FDStateManager) : Except Error FDStateManager :=
  m.withStateMut fd .resume

/-- All an accepted update does: the state of `fd` becomes `f` of itself. -/
theorem withStateMut_ok {fd : Fd} {f : FDState → FDState} {m m' : FDStateManager}
    (h : m.withStateMut fd f = .ok m') :
    ∃ st, m.states.lookup fd = some st ∧ m' = { m with states := m.states.insert fd (f st) } := by
  unfold withStateMut at h
  split at h
  · cases h
  · rename_i st hst
    split at h
    · cases h
      exact ⟨st, hst, rfl⟩
    · cases h

/-- An update is refused only when the descriptor is unknown or its state is of another
generation. -/
theorem withStateMut_error {fd : Fd} {f : FDState → FDState} {m : FDStateManager} {e : Error}
    (h : m.withStateMut fd f = .error e) :
    ∀ st, m.states.lookup fd = some st → st.generationId ≠ m.generationId := by
  intro st hst heq
  unfold withStateMut at h
  rw [hst] at h
  simp [FDState.isValidGeneration, heq] at h

end FDStateManager

end Uringcore
