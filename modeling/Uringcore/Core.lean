import Uringcore.Buffer
import Uringcore.BufRing
import Uringcore.Ring
import Uringcore.Scheduler
import Uringcore.Timer

/-!
# The core and its submissions

`UringCore` with the methods Python submits operations through. A method takes the core and gives
back the core after the call together with what it returns or raises: an error leaves changes
behind, and which ones it leaves differs from method to method.

Futures (`F`), handles (`H`) and times (`T`) are left open, the core only moves them about. What the
outside decides is an argument: the instant `now` a buffer is asked for, the answer `enter` of
`io_uring_enter`.
-/

namespace Uringcore

/-- State of an in-flight `recvmsg`: its header, its single iovec and the address the kernel will
fill in. `ptr` is where the box lives. -/
structure RecvMsgState where
  ptr : Nat
  iovBase : UInt16
  iovLen : Nat
  addr : Sockaddr
  namelen : Nat
  deriving DecidableEq, Repr

/-- State of an in-flight `sendmsg`. It owns the data. -/
structure SendMsgState where
  ptr : Nat
  addr : Sockaddr
  namelen : Nat
  data : Bytes
  deriving DecidableEq, Repr

structure UringCore (F H T : Type) where
  ring : Ring
  bufferPool : BufferPool
  fdStates : FDStateManager
  /-- fd -> buffer index, to find the data of a completed receive. -/
  inflightRecvBuffers : FdMap UInt16
  timers : TimerHeap T H
  scheduler : Scheduler H
  futures : FdMap F
  pbufRing : Option PBufRing
  /-- Where the kernel reads the provided ring next. -/
  pbufHead : UInt16
  recvmsgStates : FdMap RecvMsgState
  sendmsgStates : FdMap SendMsgState
  /-- Where the next box will live. -/
  nextBox : Nat

/-- What the system answers while a core is built. -/
structure Setup where
  /-- The capacity of the submission queue, or why there is no ring. -/
  ring : Except Error Nat
  mmap : Nat → Option Nat
  registerBuffers : Except Error Unit
  allocPbufRing : Bool
  registerPbufRing : Bool

namespace UringCore
variable {F H T : Type}

/-- `usize::next_power_of_two`: all ones below the leading bit of `n - 1`, plus one. -/
def nextPowerOfTwo (n : Nat) : Nat := if n ≤ 1 then 1 else 2 ^ (Nat.log2 (n - 1) + 1)

/-- Group 1, of the buffers `0..buffer_count`, when the kernel accepts the ring. -/
def setupPbufRing (setup : Setup) (pool : BufferPool) : Option PBufRing :=
  let pbufEntries := UInt16.ofNat (nextPowerOfTwo pool.bufferCount)
  match PBufRing.new setup.allocPbufRing pbufEntries 1 with
  | none => none
  | some pr =>
      if setup.registerPbufRing then
        some (pr.addBuffers (UInt16.ofNat pool.bufferCount)
          fun i => ⟨pool.getBufferPtr i, pool.bufferSize % 2 ^ 32, i⟩)
      else none

def new (setup : Setup) (bufferSize bufferCount : Nat) : Except PyErr (UringCore F H T) :=
  match setup.ring with
  | .error e => .error (.runtimeError e.display)
  | .ok entries => match BufferPool.new setup.mmap bufferSize bufferCount with
    | .error e => .error (.memoryError e.display)
    | .ok pool => match setup.registerBuffers with
      | .error e => .error (.runtimeError e.display)
      | .ok () => .ok {
          ring := .new entries
          bufferPool := pool
          fdStates := .new
          inflightRecvBuffers := ∅
          timers := #[]
          scheduler := []
          futures := ∅
          pbufRing := setupPbufRing setup pool
          pbufHead := 0
          recvmsgStates := ∅
          sendmsgStates := ∅
          nextBox := 0 }

/-! ## Registration -/

def registerFd (fd : Fd) (socketType : String) (core : UringCore F H T) : UringCore F H T :=
  { core with fdStates := core.fdStates.register fd (.ofString socketType) }

/-- `self.buffer_pool.release(index, self.buffer_pool.generation_id())`. -/
def releaseBuffer (index : UInt16) (core : UringCore F H T) : UringCore F H T :=
  { core with bufferPool := core.bufferPool.release index core.bufferPool.generationId }

/-- `unregister_fd`: the tracked receive buffer goes back to the pool, in flight or not. -/
def unregisterFd (fd : Fd) (core : UringCore F H T) : UringCore F H T :=
  let core := match core.inflightRecvBuffers.lookup fd with
    | some bufIdx =>
        { core.releaseBuffer bufIdx with inflightRecvBuffers := core.inflightRecvBuffers.erase fd }
    | none => core
  let r := core.fdStates.unregister fd
  (r.2.getD []).foldl (fun core buf => core.releaseBuffer buf.index) { core with fdStates := r.1 }

/-- A state-manager call made through the core: its error becomes a `RuntimeError`. -/
def withFdStates (core : UringCore F H T) (r : Except Error FDStateManager) :
    UringCore F H T × Except PyErr Unit :=
  match r with
  | .ok fdStates => ({ core with fdStates }, .ok ())
  | .error e => (core, .error (.runtimeError e.display))

def pauseReading (fd : Fd) (core : UringCore F H T) : UringCore F H T × Except PyErr Unit :=
  core.withFdStates (core.fdStates.pauseReading fd)

def resumeReading (fd : Fd) (core : UringCore F H T) : UringCore F H T × Except PyErr Unit :=
  core.withFdStates (core.fdStates.resumeReading fd)

/-! ## Submission -/

/-- `submit`, also as the last step of every submission. -/
def submit (enter : Except String Nat) (core : UringCore F H T) :
    UringCore F H T × Except PyErr Unit :=
  let r := core.ring.submit enter
  ({ core with ring := r.1 }, match r.2 with
    | .ok _ => .ok ()
    | .error e => .error (.runtimeError e.display))

/-- `buffer_size() as u32`. -/
def bufLen (core : UringCore F H T) : Nat := core.bufferPool.bufferSize % 2 ^ 32

/-- Remember the buffer of a receive; one that was remembered for the descriptor before is
released. -/
def trackInflight (fd : Fd) (bufIdx : UInt16) (core : UringCore F H T) : UringCore F H T :=
  let tracked :=
    { core with inflightRecvBuffers := core.inflightRecvBuffers.insert fd bufIdx }
  match core.inflightRecvBuffers.lookup fd with
  | some oldBufIdx => tracked.releaseBuffer oldBufIdx
  | none => tracked

/-- How `submit_recv` and `submit_recvfrom` begin: nothing (`none`) without credit; otherwise a
buffer is taken, the credit is taken and the future is stored. -/
def beginRecv (now : Nat) (noBuffers : String) (fd : Fd) (future : F) (core : UringCore F H T) :
    UringCore F H T × Except PyErr (Option UInt16) :=
  if !core.fdStates.shouldSubmitRecv fd then (core, .ok none)
  else match core.bufferPool.acquire now with
    | (pool, none) => ({ core with bufferPool := pool }, .error (.runtimeError noBuffers))
    | (pool, some bufIdx) => match core.fdStates.withStateMut fd .onSubmit with
      | .error e =>
          (releaseBuffer bufIdx { core with bufferPool := pool }, .error (.runtimeError e.display))
      | .ok fdStates =>
          ({ core with bufferPool := pool, fdStates, futures := core.futures.insert fd future },
            .ok (some bufIdx))

/-- What is undone when the submission queue is full: the buffer and the future of the descriptor
go. -/
def undo (fd : Fd) (bufIdx : UInt16) (core : UringCore F H T) : UringCore F H T :=
  { core.releaseBuffer bufIdx with futures := core.futures.erase fd }

def submitRecv (now : Nat) (enter : Except String Nat) (fd : Fd) (future : F)
    (core : UringCore F H T) : UringCore F H T × Except PyErr Unit :=
  match core.beginRecv now "No buffers available for recv" fd future with
  | (core, .error e) => (core, .error e)
  | (core, .ok none) => (core, .ok ())
  | (core, .ok (some bufIdx)) =>
      match core.ring.prepRecv fd bufIdx core.bufLen core.ring.generationU16 with
      | .error e => (core.undo fd bufIdx, .error (.runtimeError e.display))
      | .ok ring => (trackInflight fd bufIdx { core with ring }).submit enter

def submitRecvfrom (now : Nat) (enter : Except String Nat) (fd : Fd) (future : F)
    (core : UringCore F H T) : UringCore F H T × Except PyErr Unit :=
  match core.beginRecv now "No buffers available for recvfrom" fd future with
  | (core, .error e) => (core, .error e)
  | (core, .ok none) => (core, .ok ())
  | (core, .ok (some bufIdx)) =>
      -- a zeroed address, and the size of a whole `sockaddr_storage` for its length
      let state : RecvMsgState := ⟨core.nextBox, bufIdx, core.bufLen, .unspec, 128⟩
      let core := { core with nextBox := core.nextBox + 1 }
      match core.ring.prepRecvmsg fd state.ptr bufIdx core.bufLen core.ring.generationU16 with
      | .error e =>
          (core.undo fd bufIdx, .error (.runtimeError s!"prep_recvmsg failed: {e.display}"))
      | .ok ring =>
          (trackInflight fd bufIdx
            { core with ring, recvmsgStates := core.recvmsgStates.insert fd state }).submit enter

/-- `submit_sendto`. The future is stored last, after the operation has gone to the kernel. -/
def submitSendto (enter : Except String Nat) (fd : Fd) (data : Bytes) (addr : AddrArg) (future : F)
    (core : UringCore F H T) : UringCore F H T × Except PyErr Unit :=
  match buildSockaddr addr with
  | .error e => (core, .error e)
  | .ok sockaddr =>
      let state : SendMsgState := ⟨core.nextBox, sockaddr, sockaddr.namelen, data⟩
      let core := { core with nextBox := core.nextBox + 1 }
      match core.ring.prepSendmsg fd state.ptr data.length core.ring.generationU16 with
      | .error e => (core, .error (.runtimeError s!"prep_sendmsg failed: {e.display}"))
      | .ok ring =>
          match submit enter
              { core with ring, sendmsgStates := core.sendmsgStates.insert fd state } with
          | (core, .error e) => (core, .error e)
          | (core, .ok ()) => ({ core with futures := core.futures.insert fd future }, .ok ())

/-- `submit_recv_multishot`. The future stays stored when the queue is full. -/
def submitRecvMultishot (enter : Except String Nat) (fd : Fd) (future : F)
    (core : UringCore F H T) : UringCore F H T × Except PyErr Unit :=
  match core.pbufRing with
  | none => (core, .error (.runtimeError
      "Provided Buffer Ring not available (kernel < 5.19 or not initialized)"))
  | some pr =>
      let core := { core with futures := core.futures.insert fd future }
      match core.ring.prepRecvMultishot fd pr.bgid core.ring.generationU16 with
      | .error e => (core, .error (.runtimeError e.display))
      | .ok ring => submit enter { core with ring }

/-- `submit_send`. `copy_from_slice` panics when the data does not fit the buffer; nothing gives the
buffer back then. -/
def submitSend (now : Nat) (enter : Except String Nat) (fd : Fd) (data : Bytes) (future : F)
    (core : UringCore F H T) : UringCore F H T × Except PyErr Unit :=
  match core.bufferPool.acquire now with
  | (pool, none) =>
      ({ core with bufferPool := pool }, .error (.runtimeError "No buffers available"))
  | (pool, some bufIdx) =>
      if pool.bufferSize < data.length then
        ({ core with bufferPool := pool },
          .error (.panic "copy_from_slice: source slice length does not match destination"))
      else
        let core := { core with
          bufferPool := pool.write bufIdx data
          futures := core.futures.insert fd future }
        match core.ring.prepSend fd bufIdx (data.length % 2 ^ 32) core.ring.generationU16 with
        | .error e => (core.undo fd bufIdx, .error (.runtimeError e.display))
        | .ok ring => submit enter { core with ring }

def submitAccept (enter : Except String Nat) (fd : Fd) (future : F) (core : UringCore F H T) :
    UringCore F H T × Except PyErr Unit :=
  let core := { core with futures := core.futures.insert fd future }
  match core.ring.prepAccept fd core.ring.generationU16 with
  | .error e =>
      ({ core with futures := core.futures.erase fd }, .error (.runtimeError e.display))
  | .ok ring => submit enter { core with ring }

/-- `submit_accept_multishot`. No future: the completions are dispatched by Python. -/
def submitAcceptMultishot (enter : Except String Nat) (fd : Fd) (core : UringCore F H T) :
    UringCore F H T × Except PyErr Unit :=
  match core.ring.prepAcceptMultishot fd core.ring.generationU16 with
  | .error e => (core, .error (.runtimeError e.display))
  | .ok ring => submit enter { core with ring }

def submitClose (enter : Except String Nat) (fd : Fd) (core : UringCore F H T) :
    UringCore F H T × Except PyErr Unit :=
  match core.ring.prepClose fd core.ring.generationU16 with
  | .error e => (core, .error (.runtimeError e.display))
  | .ok ring => submit enter { core with ring }

end UringCore

end Uringcore
