import Uringcore.UserData

/-!
# Errors

`Error` is the crate's own error type with the texts `thiserror` derives for it; `PyErr` is what a
`#[pymethods]` call or a Python function raises. Only the variants the modelled functions produce are
here.
-/

namespace Uringcore

inductive Error where
  | bufferAllocation (msg : String)
  | ringInit (msg : String)
  | ringOp (msg : String)
  | eventFd (msg : String)
  | fd (msg : String)
  | invalidGeneration (expected got : UInt64)
  deriving DecidableEq, Repr

/-- The `#[error("…")]` text. -/
def Error.display : Error → String
  | .bufferAllocation msg => s!"Buffer allocation failed: {msg}"
  | .ringInit msg => "`io_uring` initialization failed: " ++ msg
  | .ringOp msg => "`io_uring` operation failed: " ++ msg
  | .eventFd msg => s!"eventfd operation failed: {msg}"
  | .fd msg => s!"File descriptor error: {msg}"
  | .invalidGeneration expected got =>
      s!"Invalid generation ID: expected {expected}, got {got}"

/-- A Python exception. `panic` is a Rust panic, which pyo3 turns into a `PanicException`. -/
inductive PyErr where
  | runtimeError (msg : String)
  | memoryError (msg : String)
  | valueError (msg : String)
  | typeError (msg : String)
  | overflowError (msg : String)
  | attributeError (msg : String)
  | nameError (msg : String)
  /-- `OSError`; one with a text only has no `errno`. -/
  | osError (errno : Option Int)
  | panic (msg : String)
  deriving DecidableEq, Repr

/-- The numbers of the module `errno`. -/
def eagain : Int := 11

def ewouldblock : Int := 11

def enobufs : Int := 105

def ealready : Int := 114

def einprogress : Int := 115

/-- `OSError(errno, …)` makes a `BlockingIOError` of these. -/
def PyErr.isBlockingIOError : PyErr → Bool
  | osError (some errno) => [eagain, ewouldblock, ealready, einprogress].contains errno
  | _ => false

/-- An `Exception`, and no `OSError`. -/
def PyErr.isPlain : PyErr → Bool
  | osError _ | panic _ => false
  | _ => true

end Uringcore
