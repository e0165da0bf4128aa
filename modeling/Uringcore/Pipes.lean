import Uringcore.Lib.Machine
import Uringcore.Error

/-!
# Pipe transports

`ReadPipeTransport` and `WritePipeTransport`. The one passes on what a single `os.read` gives it; the
other buffers what it is given and writes from `_write_ready`, as much at a time as the pipe takes. As
for sockets, a method that calls the protocol stops there and what is left of it waits on the `stack`;
while the protocol runs it may call any method.

`fileno` of a closed pipe raises a `ValueError`, which no `except` of these methods catches: the
method ends where it asks for the descriptor.
-/

namespace Uringcore

/-! ## `ReadPipeTransport` -/

/-- What `os.read` answers; no data is the end of the file. -/
inductive ReadResult where
  | read (data : Bytes)
  | wouldBlock
  | osError (errno : Int)
  deriving DecidableEq, Repr

/-- What `except OSError` catches: the exception of `os.read`, a `BlockingIOError` among them, or one
that the protocol has raised. -/
inductive ReadExc where
  | wouldBlock
  | osError (errno : Int)
  | protocol
  deriving DecidableEq, Repr

/-- The calls of the protocol. -/
inductive ReadPipeEvent where
  | dataReceived (data : Bytes)
  | eofReceived
  | connectionLost (exc : Option ReadExc)
  deriving DecidableEq, Repr

/-- How a call of the protocol ends. -/
inductive PipeReturn where
  | value (truthy : Bool)
  | osError
  /-- It raises something else. -/
  | raised
  deriving DecidableEq, Repr

structure ReadPipe where
  /-- `_closing`; `close` sets it and closes the pipe. -/
  closing : Bool
  paused : Bool
  /-- The loop knows `_read_ready` as the reader of the pipe. -/
  reader : Bool
  /-- The calls that have not returned, the innermost first. -/
  stack : List ReadPipeEvent
  /-- A history that no method reads. -/
  log : List ReadPipeEvent
  deriving DecidableEq, Repr

namespace ReadPipe

/-- `__init__`. -/
def new : ReadPipe := ⟨false, false, true, [], []⟩

def callProtocol (e : ReadPipeEvent) (t : ReadPipe) : ReadPipe :=
  { t with log := t.log ++ [e], stack := e :: t.stack }

/-- `except OSError` of `_read_ready`. -/
def exceptOSError (exc : ReadExc) (t : ReadPipe) : ReadPipe :=
  if t.closing then t else { t with reader := false }.callProtocol (.connectionLost (some exc))

/-- `_read_ready` up to its call of the protocol. -/
def readReady (result : ReadResult) (t : ReadPipe) : ReadPipe :=
  if t.paused || t.closing then t
  else match result with
    | .read data =>
        if data.isEmpty then { t with reader := false }.callProtocol .eofReceived
        else t.callProtocol (.dataReceived data)
    | .wouldBlock => t.exceptOSError .wouldBlock
    | .osError errno => t.exceptOSError (.osError errno)

def pauseReading (t : ReadPipe) : ReadPipe :=
  if t.closing || t.paused then t else { t with paused := true, reader := false }

/-- `refused` says that `add_reader` raises. -/
def resumeReading (refused : Bool) (t : ReadPipe) : ReadPipe :=
  if t.closing || !t.paused then t else { t with paused := false, reader := !refused }

def close (t : ReadPipe) : ReadPipe :=
  if t.closing then t
  else { t with closing := true, reader := false }.callProtocol (.connectionLost none)

/-- The protocol has returned or raised. The `close` of `_read_ready` is under its `except` as well, but
what `connection_lost` raises there meets a closed pipe. -/
def resume (call : ReadPipeEvent) (r : PipeReturn) (t : ReadPipe) : ReadPipe :=
  match call, r with
  | .dataReceived _, .osError | .eofReceived, .osError => t.exceptOSError .protocol
  | .eofReceived, .value false => t.close
  | _, _ => t

inductive Act where
  /-- The loop runs `_read_ready`. -/
  | readReady (result : ReadResult)
  | ret (r : PipeReturn)
  | pauseReading
  | resumeReading (refused : Bool)
  | close
  deriving DecidableEq, Repr

def step (t : ReadPipe) : Act → Option ReadPipe
  | .readReady result => if t.stack.isEmpty then some (t.readReady result) else none
  | .ret r => match t.stack with
    | call :: rest => some (resume call r { t with stack := rest })
    | [] => none
  | .pauseReading => some t.pauseReading
  | .resumeReading refused => some (t.resumeReading refused)
  | .close => some t.close

def machine : Machine ReadPipe Act := ⟨step⟩

end ReadPipe

/-! ## `WritePipeTransport` -/

/-- What `os.write` answers. -/
inductive WriteResult where
  | wrote (n : Nat)
  | wouldBlock
  | osError (errno : Int)
  deriving DecidableEq, Repr

/-- The calls of the protocol. -/
inductive PipeEvent where
  | pauseWriting
  | resumeWriting
  | connectionLost (errno : Option Int)
  deriving DecidableEq, Repr

structure WritePipe where
  buffer : Bytes
  closing : Bool
  highWater : Nat
  lowWater : Nat
  /-- `_pipe` has been closed. -/
  pipeClosed : Bool
  /-- The loop knows `_write_ready` as the writer of the pipe. -/
  writer : Bool
  /-- The calls that have not returned, the innermost first. -/
  stack : List PipeEvent
  /-- A history that no method reads. -/
  log : List PipeEvent
  deriving DecidableEq, Repr

namespace WritePipe

/-- `__init__`; the transport counts as closing when the pipe cannot be made non-blocking. -/
def new (nonblocking : Bool) : WritePipe where
  buffer := []
  closing := !nonblocking
  highWater := 64 * 1024
  lowWater := 16 * 1024
  pipeClosed := false
  writer := false
  stack := []
  log := []

/-- `__init__` with a pipe that is closed already, whose `fileno` raises. -/
def newClosed : WritePipe := { new false with pipeClosed := true }

def callProtocol (e : PipeEvent) (t : WritePipe) : WritePipe :=
  { t with log := t.log ++ [e], stack := e :: t.stack }

/-- `write`; `refused` says that `add_writer`, which removes the old writer first, raises. -/
def write (refused : Bool) (data : Bytes) (t : WritePipe) : WritePipe :=
  if t.closing || data.isEmpty then t
  else
    let t := { t with buffer := t.buffer ++ data }
    if t.pipeClosed then t
    else if refused then { t with writer := false }
    else
      let t := { t with writer := true }
      if t.highWater < t.buffer.length then t.callProtocol .pauseWriting else t

/-- `_write_ready` from where `resume_writing`, if it was called, has returned. -/
def written (t : WritePipe) : WritePipe :=
  if t.buffer.isEmpty && !t.pipeClosed then
    let t := { t with writer := false }
    if t.closing then { t with pipeClosed := true }.callProtocol (.connectionLost none) else t
  else t

/-- `_write_ready`. -/
def writeReady (result : WriteResult) (t : WritePipe) : WritePipe :=
  if t.pipeClosed then t
  else if t.buffer.isEmpty then { t with writer := false }
  else match result with
    | .wrote n =>
        let t := { t with buffer := t.buffer.drop n }
        if t.buffer.length < t.lowWater then t.callProtocol .resumeWriting else t.written
    | .wouldBlock => t
    | .osError errno => { t with writer := false }.callProtocol (.connectionLost (some errno))

def close (t : WritePipe) : WritePipe :=
  if t.closing then t
  else
    let t := { t with closing := true }
    -- otherwise `_write_ready` closes the pipe
    if t.buffer.isEmpty then { t with pipeClosed := true }.callProtocol (.connectionLost none) else t

def abort (t : WritePipe) : WritePipe :=
  let t := { t with buffer := [] }
  if t.pipeClosed then t
  else { t with writer := false, pipeClosed := true, closing := true }.callProtocol (.connectionLost none)

def setWriteBufferLimits (high low : Option Nat) (t : WritePipe) : WritePipe :=
  { t with highWater := high.getD t.highWater, lowWater := low.getD t.lowWater }

/-- The protocol has returned or raised. What `pause_writing` and `resume_writing` raise is swallowed if
`except Exception` catches it; others are left out. -/
def resume (call : PipeEvent) (t : WritePipe) : WritePipe :=
  match call with
  | .resumeWriting => t.written
  | .pauseWriting | .connectionLost _ => t

inductive Act where
  | write (data : Bytes) (refused : Bool)
  /-- The loop runs `_write_ready`. -/
  | writeReady (result : WriteResult)
  | ret
  | close
  | abort
  | setWriteBufferLimits (high low : Option Nat)
  deriving DecidableEq, Repr

/-- The pipe takes no more than it is offered. -/
def offers (t : WritePipe) : WriteResult → Bool
  | .wrote n => n ≤ t.buffer.length
  | .wouldBlock | .osError _ => true

def step (t : WritePipe) : Act → Option WritePipe
  | .write data refused => some (t.write refused data)
  | .writeReady result => if t.stack.isEmpty && t.offers result then some (t.writeReady result) else none
  | .ret => match t.stack with
    | call :: rest => some (resume call { t with stack := rest })
    | [] => none
  | .close => some t.close
  | .abort => some t.abort
  | .setWriteBufferLimits high low => some (t.setWriteBufferLimits high low)

def machine : Machine WritePipe Act := ⟨step⟩

end WritePipe

end Uringcore
