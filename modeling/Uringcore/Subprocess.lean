import Mathlib.Logic.Function.Basic
import Uringcore.Pipes

/-!
# Subprocesses

`SubprocessTransport` with the transports of its pipes, the child and the kernel's side of stdout and
stderr, as one machine. The loop runs handles one after another; a handle that calls the protocol
stops there, and so does the loop of `_process_exited` at every `os.read`. While the protocol runs the
program may call any method, and the child and the kernel move at any moment.

`fileno` of a closed pipe raises a `ValueError`, which none of the methods catches.
-/

namespace Uringcore

/-! ## The pipe to the child -/

/-- `WriteSubprocessPipeTransport`. -/
structure WriteSubprocessPipe where
  buffer : Bytes
  closing : Bool
  /-- `_pipe` has been closed. -/
  pipeClosed : Bool
  /-- The loop knows `_write_ready` as the writer of the pipe. -/
  writer : Bool
  /-- The calls of `pipe_connection_lost`. -/
  lost : List Int
  deriving DecidableEq, Repr

namespace WriteSubprocessPipe

def new (nonblocking : Bool) : WriteSubprocessPipe := ⟨[], !nonblocking, false, false, []⟩

/-- `refused` says that `add_writer`, which removes the old writer first, raises. -/
def write (refused : Bool) (data : Bytes) (t : WriteSubprocessPipe) : WriteSubprocessPipe :=
  if t.closing then t
  else
    let t := { t with buffer := t.buffer ++ data }
    if t.pipeClosed then t else { t with writer := !refused }

/-- `_write_ready`; nothing follows the call of the protocol. -/
def writeReady (result : WriteResult) (t : WriteSubprocessPipe) : WriteSubprocessPipe :=
  if t.pipeClosed then t
  else if t.buffer.isEmpty then { t with writer := false }
  else match result with
    | .wrote n =>
        let t := { t with buffer := t.buffer.drop n }
        if t.buffer.isEmpty then { t with writer := false, pipeClosed := t.closing } else t
    | .wouldBlock => t
    | .osError errno => { t with writer := false, lost := t.lost ++ [errno] }

def close (t : WriteSubprocessPipe) : WriteSubprocessPipe :=
  if t.closing then t else { t with closing := true, pipeClosed := t.pipeClosed || t.buffer.isEmpty }

def abort (t : WriteSubprocessPipe) : WriteSubprocessPipe :=
  let t := { t with buffer := [] }
  if t.pipeClosed then t else { t with writer := false, pipeClosed := true, closing := true }

/-- The pipe takes no more than it is offered. -/
def offers (t : WriteSubprocessPipe) : WriteResult → Bool
  | .wrote n => n ≤ t.buffer.length
  | .wouldBlock | .osError _ => true

inductive Act where
  | write (data : Bytes) (refused : Bool)
  /-- The loop runs `_write_ready`. -/
  | writeReady (result : WriteResult)
  /-- `close`, also as `write_eof`. -/
  | close
  | abort
  deriving DecidableEq, Repr

def step (t : WriteSubprocessPipe) : Act → Option WriteSubprocessPipe
  | .write data refused => some (t.write refused data)
  | .writeReady result => if t.offers result then some (t.writeReady result) else none
  | .close => some t.close
  | .abort => some t.abort

/-- The transport by itself. -/
def machine : Machine WriteSubprocessPipe Act := ⟨step⟩

end WriteSubprocessPipe

/-! ## The pipes from the child -/

inductive ReadEnd where
  | stdout | stderr
  deriving DecidableEq, Repr

/-- What `os.read` answers. -/
inductive ReadAnswer where
  | bytes (n : Nat)
  | eof
  | osError (errno : Int)
  deriving DecidableEq, Repr

/-- The exception that `pipe_connection_lost` is given: that of `os.read`, or an `OSError` that the
protocol itself has raised. -/
inductive LostExc where
  | osError (errno : Int)
  | protocol
  deriving DecidableEq, Repr

/-- The calls of the protocol about a pipe. -/
inductive ReadCall where
  | dataReceived (data : Bytes)
  | connectionLost (exc : Option LostExc)
  deriving DecidableEq, Repr

/-- `ReadSubprocessPipeTransport`, and its pipe in the kernel. -/
structure ReadSubprocessPipe where
  /-- `_closing`; the pipe is closed. -/
  closing : Bool
  /-- The loop knows `_read_ready` as the reader of the pipe. -/
  reader : Bool
  unread : Bytes
  /-- Some process has the write end. -/
  writers : Bool
  /-- A history: the program has taken the reader away. -/
  paused : Bool
  /-- A history: what was written. -/
  written : Bytes
  log : List ReadCall
  deriving DecidableEq, Repr

namespace ReadSubprocessPipe

def new : ReadSubprocessPipe := ⟨false, true, [], true, false, [], []⟩

/-- Can `os.read(fd, 65536)` answer this? -/
def admits (q : ReadSubprocessPipe) : ReadAnswer → Bool
  | .bytes n => 0 < n && n ≤ q.unread.length && n ≤ 65536
  | .eof => q.unread.isEmpty && !q.writers
  | .osError errno => errno ≠ eagain || (q.unread.isEmpty && q.writers)

/-- `n` bytes are read and passed to `pipe_data_received`. -/
def receive (n : Nat) (q : ReadSubprocessPipe) : ReadSubprocessPipe :=
  { q with unread := q.unread.drop n, log := q.log ++ [.dataReceived (q.unread.take n)] }

/-- `remove_reader`, then `pipe_connection_lost`. -/
def lose (exc : Option LostExc) (q : ReadSubprocessPipe) : ReadSubprocessPipe :=
  { q with reader := false, log := q.log ++ [.connectionLost exc] }

def close (q : ReadSubprocessPipe) : ReadSubprocessPipe :=
  if q.closing then q else { q with closing := true, reader := false }

def pauseReading (q : ReadSubprocessPipe) : ReadSubprocessPipe :=
  if q.closing then q else { q with reader := false, paused := true }

/-- `refused` says that `add_reader`, which removes the old reader first, raises. -/
def resumeReading (refused : Bool) (q : ReadSubprocessPipe) : ReadSubprocessPipe :=
  if q.closing then q else { q with reader := !refused, paused := refused }

/-- Some process writes. -/
def write (data : Bytes) (q : ReadSubprocessPipe) : ReadSubprocessPipe :=
  { q with unread := q.unread ++ data, written := q.written ++ data }

/-- The last write end is closed. -/
def hangUp (q : ReadSubprocessPipe) : ReadSubprocessPipe := { q with writers := false }

/-- `EPOLLIN` or `EPOLLHUP`. -/
def readable (q : ReadSubprocessPipe) : Bool := q.reader && (!q.unread.isEmpty || !q.writers)

end ReadSubprocessPipe

/-! ## The transport -/

/-- A future in `_exit_waiters`. -/
structure ExitWaiter where
  id : Nat
  /-- The return code, once it is done. -/
  result : Option Int
  deriving DecidableEq, Repr

/-- How a call of the protocol ends. -/
inductive ProtocolReturn where
  | value
  | osError
  /-- It raises another `Exception`. Others, which `except Exception` lets through, are left out. -/
  | raised
  deriving DecidableEq, Repr

/-- A handle of the loop. -/
inductive Subprocess.Task where
  | readReady (p : ReadEnd)
  | pidfdReady
  /-- Pushed by the thread. -/
  | processExited (code : Int)
  deriving DecidableEq, Repr

/-- What is left of the handle that is at work. -/
inductive Subprocess.Frame where
  | dataReceived (p : ReadEnd)
  /-- `again`: an `OSError` out of this call is answered with another one. -/
  | connectionLost (p : ReadEnd) (again : Bool)
  /-- No call: `_process_exited` goes on to read from `p`. -/
  | draining (p : ReadEnd) (rest : List ReadEnd)
  | drained (p : ReadEnd) (rest : List ReadEnd)
  | processExited
  deriving DecidableEq, Repr

/-- `SubprocessTransport`. -/
structure Subprocess where
  stdin : Option WriteSubprocessPipe
  pipes : ReadEnd → Option ReadSubprocessPipe
  closed : Bool
  returncode : Option Int
  exitWaiters : List ExitWaiter
  nextWaiter : Nat
  /-- `_pidfd` is there and has its reader. -/
  pidfd : Bool
  /-- The thread waits for the exit. -/
  thread : Bool
  /-- The child has exited. -/
  exited : Option Int
  ready : List Subprocess.Task
  /-- What is left of the batch the current tick executes. -/
  batch : List Subprocess.Task
  running : Option Subprocess.Frame

namespace Subprocess

/-- `__init__`; `usePidfd` says that `pidfd_open` is there and succeeds. -/
def new (stdin : Option WriteSubprocessPipe) (piped : ReadEnd → Bool) (usePidfd : Bool) : Subprocess where
  stdin := stdin
  pipes p := if piped p then some .new else none
  closed := false
  returncode := none
  exitWaiters := []
  nextWaiter := 0
  pidfd := usePidfd
  thread := !usePidfd
  exited := none
  ready := []
  batch := []
  running := none

def modifyPipe (p : ReadEnd) (f : ReadSubprocessPipe → ReadSubprocessPipe) (s : Subprocess) : Subprocess :=
  { s with pipes := Function.update s.pipes p ((s.pipes p).map f) }

/-- The pipe is there and open. -/
def isOpen (p : ReadEnd) (s : Subprocess) : Bool := (s.pipes p).any fun q => !q.closing

def closePipes (s : Subprocess) : Subprocess :=
  { s with stdin := s.stdin.map .close, pipes := fun p => (s.pipes p).map .close }

/-- `_read_ready` up to its call of the protocol. -/
def readReady (p : ReadEnd) (answer : ReadAnswer) (s : Subprocess) : Subprocess :=
  if !s.isOpen p then s
  else match answer with
    | .bytes n => { s.modifyPipe p (.receive n) with running := some (.dataReceived p) }
    | .eof => { s.modifyPipe p (.lose none) with running := some (.connectionLost p true) }
    | .osError errno =>
        { s.modifyPipe p (.lose (some (.osError errno))) with running := some (.connectionLost p false) }

/-- `except OSError` of `_read_ready`, when the protocol has raised. -/
def exceptOSError (p : ReadEnd) (s : Subprocess) : Subprocess :=
  if !s.isOpen p then { s with running := none }
  else { s.modifyPipe p (.lose (some .protocol)) with running := some (.connectionLost p false) }

/-- `_process_exited` with the pipes that are still to be drained. -/
def drainNext (rest : List ReadEnd) (s : Subprocess) : Subprocess :=
  match rest with
  | p :: rest => { s with running := some (.draining p rest) }
  | [] => { s.closePipes with running := some .processExited }

def readEnds (s : Subprocess) : List ReadEnd := [.stdout, .stderr].filter fun p => (s.pipes p).isSome

/-- `_process_exited`. -/
def processExited (code : Int) (s : Subprocess) : Subprocess :=
  { s with returncode := some code }.drainNext s.readEnds

/-- One `os.read` of `_process_exited`. On a closed pipe the exception leaves it; `_on_pidfd_ready`
swallows it, or the loop reports it. -/
def drain (p : ReadEnd) (rest : List ReadEnd) (answer : ReadAnswer) (s : Subprocess) : Subprocess :=
  if !s.isOpen p then { s with running := none }
  else match answer with
    | .bytes n => { s.modifyPipe p (.receive n) with running := some (.drained p rest) }
    | .eof | .osError _ => s.drainNext rest

/-- The protocol has returned or raised; `except Exception` catches what `process_exited` raises. -/
def resume (frame : Frame) (r : ProtocolReturn) (s : Subprocess) : Subprocess :=
  match frame, r with
  | .dataReceived p, .osError | .connectionLost p true, .osError => s.exceptOSError p
  | .dataReceived _, _ | .connectionLost .., _ => { s with running := none }
  | .drained p rest, .value => { s with running := some (.draining p rest) }
  | .drained _ rest, .osError => s.drainNext rest
  | .drained .., .raised => { s with running := none }
  | .draining .., _ => s
  | .processExited, _ =>
      { s with
        running := none
        exitWaiters := s.exitWaiters.map fun w => { w with result := w.result.or s.returncode } }

def close (s : Subprocess) : Subprocess :=
  if s.closed then s else { s.closePipes with closed := true, pidfd := false }

/-- `_wait` up to the `await`. -/
def wait (s : Subprocess) : Subprocess :=
  if s.returncode.isSome then s
  else { s with exitWaiters := s.exitWaiters ++ [⟨s.nextWaiter, none⟩], nextWaiter := s.nextWaiter + 1 }

/-- What the program may do. -/
inductive Call where
  | close
  | wait
  /-- A `_wait` goes on, or is cancelled. -/
  | leave (id : Nat)
  | pauseReading (p : ReadEnd)
  | resumeReading (p : ReadEnd) (refused : Bool)
  | closePipe (p : ReadEnd)
  | write (data : Bytes) (refused : Bool)
  | closeStdin
  | abortStdin
  deriving DecidableEq, Repr

def call (c : Call) (s : Subprocess) : Subprocess :=
  match c with
  | .close => s.close
  | .wait => s.wait
  | .leave id => { s with exitWaiters := s.exitWaiters.filter (·.id ≠ id) }
  | .pauseReading p => s.modifyPipe p .pauseReading
  | .resumeReading p refused => s.modifyPipe p (.resumeReading refused)
  | .closePipe p => s.modifyPipe p .close
  | .write data refused => { s with stdin := s.stdin.map (.write refused data) }
  | .closeStdin => { s with stdin := s.stdin.map .close }
  | .abortStdin => { s with stdin := s.stdin.map .abort }

/-- The child exits, and with it the write ends that no other process has. -/
def exit (code : Int) (held : ReadEnd → Bool) (s : Subprocess) : Subprocess :=
  { s with
    exited := some code
    pipes := fun p => if held p then s.pipes p else (s.pipes p).map .hangUp }

/-- Does the poll report this? -/
def reports (s : Subprocess) : Task → Bool
  | .readReady p => (s.pipes p).any ReadSubprocessPipe.readable
  | .pidfdReady => s.pidfd && s.exited.isSome
  | .processExited _ => false

/-- The handle that is next has its answers. -/
def execute (task : Task) (answer : ReadAnswer) (s : Subprocess) : Option Subprocess :=
  match task with
  | .readReady p =>
      if s.isOpen p && !(s.pipes p).any (·.admits answer) then none else some (s.readReady p answer)
  -- `wait` returns at once
  | .pidfdReady => s.exited.map fun code => { s with pidfd := false }.processExited code
  | .processExited code => some (s.processExited code)

/-- The program's code is running, or may be. -/
def programRuns (s : Subprocess) : Bool :=
  match s.running with
  | some (.draining ..) => false
  | _ => true

inductive Act where
  /-- The child, or a process that has its write end, writes. -/
  | written (p : ReadEnd) (data : Bytes)
  | hangUp (p : ReadEnd)
  | exit (code : Int) (held : ReadEnd → Bool)
  /-- `call_soon_threadsafe` of the waiting thread. -/
  | threadReports
  /-- `_run_once` up to the first handle of its tick: with handles ready the poll is skipped. -/
  | startTick (tasks : List Task)
  | runHandle (answer : ReadAnswer)
  | drain (answer : ReadAnswer)
  | ret (r : ProtocolReturn)
  | call (c : Call)
  /-- The loop runs `_write_ready` of stdin. -/
  | writeReady (result : WriteResult)

def step (s : Subprocess) : Act → Option Subprocess
  | .written p data => if (s.pipes p).any fun q => q.writers && !q.closing then
      some (s.modifyPipe p (.write data)) else none
  | .hangUp p => some (s.modifyPipe p .hangUp)
  | .exit code held => if s.exited.isNone then some (s.exit code held) else none
  | .threadReports => match s.exited with
    | some code => if s.thread then
        some { s with thread := false, ready := s.ready ++ [.processExited code] } else none
    | none => none
  | .startTick tasks =>
      if s.running.isNone && s.batch.isEmpty && (s.ready.isEmpty || tasks.isEmpty) &&
          tasks.all s.reports && tasks.Nodup then
        some { s with ready := [], batch := s.ready ++ tasks }
      else none
  | .runHandle answer => match s.running, s.batch with
    | none, task :: rest => { s with batch := rest }.execute task answer
    | _, _ => none
  | .drain answer => match s.running with
    | some (.draining p rest) =>
        if s.isOpen p && !(s.pipes p).any (·.admits answer) then none else some (s.drain p rest answer)
    | _ => none
  | .ret r => match s.running with
    | some (.draining ..) | none => none
    | some frame => some (s.resume frame r)
  | .call c => if s.programRuns then some (s.call c) else none
  | .writeReady result => match s.running, s.stdin with
    | none, some t => if t.offers result then some { s with stdin := some (t.writeReady result) } else none
    | _, _ => none

def machine : Machine Subprocess Act := ⟨step⟩

end Subprocess

end Uringcore
