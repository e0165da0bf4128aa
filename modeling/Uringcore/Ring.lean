import Uringcore.FixedFd
import Uringcore.Sockaddr

/-!
# The ring

`Ring` is both sides of one `io_uring` instance. The code's side is `push` with the `prep_*`
functions over it, `submit` and `drainCompletions`; the kernel's side is the list of operations it
has taken (`kernel`) and the completions it has posted (`cq`). Everything the kernel decides is an
argument: what `io_uring_enter` answers here, and which operation completes how in the system that
is built on this module.

An entry keeps its submission number `seq`, the value of the submission queue's tail when it was
pushed, and a completion keeps the entry it is for. The code sees neither: a `CompletionEntry` has
the `user_data` word, the result and the flags, nothing else.
-/

namespace Uringcore

/-- What a submission asks of the kernel. A pool buffer stands for the pointer to it. -/
inductive SqeOp where
  | recv (buf : UInt16) (len : Nat)
  | send (buf : UInt16) (len : Nat)
  | accept
  | acceptMulti
  | close
  | recvMulti (bgid : UInt16)
  /-- `msg` is the address of the `RecvMsgState`, whose one iovec is the buffer. -/
  | recvMsg (msg : Nat) (buf : UInt16) (len : Nat)
  | sendMsg (msg : Nat) (len : Nat)
  deriving DecidableEq, Repr

namespace SqeOp

def opType : SqeOp → OpType
  | recv .. => .recv
  | send .. => .send
  | accept => .accept
  | acceptMulti => .acceptMulti
  | close => .close
  | recvMulti .. => .recvMulti
  | recvMsg .. => .recvMsg
  | sendMsg .. => .sendMsg

/-- The pool buffer the kernel writes for this operation. -/
def recvBuf? : SqeOp → Option UInt16
  | recv buf _ => some buf
  | recvMsg _ buf _ => some buf
  | _ => none

/-- A receive into a buffer of the pool's free list. -/
def isRecv (op : SqeOp) : Bool := op.recvBuf?.isSome

/-- The pool buffer the kernel reads for this operation. -/
def sendBuf? : SqeOp → Option UInt16
  | send buf _ => some buf
  | _ => none

/-- The pool buffer this operation points at. -/
def buf? : SqeOp → Option UInt16
  | recv buf _ => some buf
  | send buf _ => some buf
  | recvMsg _ buf _ => some buf
  | _ => none

end SqeOp

/-- `types::Fd` or `types::Fixed`. -/
inductive Target where
  | fd (fd : Fd)
  | fixed (idx : UInt32)
  deriving DecidableEq, Repr

structure Sqe where
  fd : Fd
  op : SqeOp
  generation : UInt16
  target : Target
  seq : Nat
  deriving DecidableEq, Repr

def Sqe.userData (e : Sqe) : UInt64 := encodeUserData e.fd e.op.opType e.generation

/-- What came of an operation. -/
inductive Payload where
  | data (bytes : Bytes)
  | msg (bytes : Bytes) (addr : Sockaddr) (namelen : Nat)
  /-- Bytes sent, or the accepted descriptor. -/
  | count (n : Nat)
  | error (errno : Nat)
  deriving DecidableEq, Repr

namespace Payload

/-- The `res` field. -/
def result : Payload → Int
  | data bytes => bytes.length
  | msg bytes _ _ => bytes.length
  | count n => n
  | error errno => -errno

def bytes : Payload → Bytes
  | data bytes => bytes
  | msg bytes _ _ => bytes
  | count _ | error _ => []

def isError : Payload → Bool
  | error _ => true
  | data _ | msg .. | count _ => false

end Payload

structure Cqe where
  sqe : Sqe
  payload : Payload
  /-- The provided buffer the kernel selected. -/
  buf : Option UInt16
  /-- `IORING_CQE_F_MORE`. -/
  more : Bool
  deriving DecidableEq, Repr

/-- `IORING_CQE_F_BUFFER` in bit 0, `IORING_CQE_F_MORE` in bit 1, the buffer id in the upper half. -/
def Cqe.flags (c : Cqe) : UInt32 :=
  (if c.buf.isSome then 1 else 0) + (if c.more then 2 else 0) + (c.buf.getD 0).toUInt32 * 65536

def cqeBufferId (flags : UInt32) : UInt16 := (flags >>> 16).toUInt16

def cqeHasBuffer (flags : UInt32) : Bool := flags &&& 1 ≠ 0

/-- Completion queue entry as the code sees it. -/
structure CompletionEntry where
  userData : UInt64
  result : Int
  flags : UInt32
  bufferIndex : Option UInt16
  deriving DecidableEq, Repr

namespace CompletionEntry

def fd (c : CompletionEntry) : Fd := UserData.fd c.userData

def opType (c : CompletionEntry) : OpType := UserData.opType c.userData

def generation (c : CompletionEntry) : UInt16 := UserData.generation c.userData

/-- Encoding and reading are inverse to each other: the readers of an entry give back exactly what
its word was made of, no word has two readings, and every word whose reserved bits are zero and
whose operation byte is in use is made of what is read from it. -/
theorem encodeUserData_readers :
    (∀ (c : CompletionEntry) (fd : Fd) (opType : OpType) (generation : UInt16),
      c.userData = encodeUserData fd opType generation →
        c.fd = fd ∧ c.opType = opType ∧ c.generation = generation) ∧
    Function.Injective (fun p : Fd × OpType × UInt16 => encodeUserData p.1 p.2.1 p.2.2) ∧
    ∀ c : CompletionEntry, UserData.WellFormed c.userData →
      encodeUserData c.fd c.opType c.generation = c.userData := by
  refine ⟨?_, ?_, ?_⟩
  · intro c fd opType generation h
    rw [CompletionEntry.fd, CompletionEntry.opType, CompletionEntry.generation, h]
    exact ⟨UserData.fd_encode .., UserData.opType_encode .., UserData.generation_encode ..⟩
  · rintro ⟨fd, opType, generation⟩ ⟨fd', opType', generation'⟩ h
    obtain ⟨rfl, rfl, rfl⟩ := UserData.encode_inj h
    rfl
  · intro c h
    exact h.encode_eq

end CompletionEntry

/-- One step of `drain_completions`: what the code reads of a posted completion. -/
def Cqe.entry (c : Cqe) : CompletionEntry where
  userData := c.sqe.userData
  result := c.payload.result
  flags := c.flags
  bufferIndex := if cqeHasBuffer c.flags then some (cqeBufferId c.flags) else none

structure Ring where
  /-- Capacity of the submission queue. -/
  entries : Nat
  sq : List Sqe
  /-- Submissions so far. -/
  tail : Nat
  /-- The operations the kernel has taken and not finished. -/
  kernel : List Sqe
  cq : List Cqe
  generationId : UInt64
  registeredFds : Option FixedFdTable

namespace Ring

def new (entries : Nat) : Ring where
  entries := entries
  sq := []
  tail := 0
  kernel := []
  cq := []
  generationId := 1
  registeredFds := none

/-- `generation_u16`. -/
def generationU16 (ring : Ring) : UInt16 := (ring.generationId &&& 0xFFFF).toUInt16

def lookupFixed (fd : Fd) (ring : Ring) : Option UInt32 :=
  ring.registeredFds.bind (·.getIndex fd)

/-- `register_file`; the kernel answers the registration of an empty set (`init`) and the update of
one slot (`update`), each with `none` or an OS error. -/
def registerFile (init update : Option String) (fd : Fd) (ring : Ring) :
    Ring × Except Error UInt32 :=
  let start : Except Error FixedFdTable := match ring.registeredFds, init with
    | some table, _ => .ok table
    | none, none => .ok (.new 4096)
    | none, some e => .error (.ringOp s!"register_files init failed: {e}")
  match start with
  | .error e => (ring, .error e)
  | .ok table => match table.getIndex fd with
    | some idx => ({ ring with registeredFds := some table }, .ok idx)
    | none => match table.insert fd, update with
      | (table, none), _ =>
          ({ ring with registeredFds := some table }, .error (.ringOp "Fixed file table full"))
      | (table, some idx), none => ({ ring with registeredFds := some table }, .ok idx)
      -- the kernel has refused, so the entry is taken back
      | (table, some _), some e =>
          ({ ring with registeredFds := some (table.remove fd).1 },
            .error (.ringOp s!"register_files_update failed: {e}"))

/-- `unregister_file`. The table has already dropped the descriptor when the kernel refuses. -/
def unregisterFile (update : Option String) (fd : Fd) (ring : Ring) : Ring × Except Error Unit :=
  match ring.registeredFds with
  | none => (ring, .ok ())
  | some table => match table.remove fd, update with
    | (table, none), _ => ({ ring with registeredFds := some table }, .ok ())
    | (table, some _), none => ({ ring with registeredFds := some table }, .ok ())
    | (table, some _), some e =>
        ({ ring with registeredFds := some table },
          .error (.ringOp s!"unregister_file failed: {e}"))

/-- `register_fds`; the kernel answers the registration of the whole set. -/
def registerFds (answer : Option String) (fds : List Fd) (ring : Ring) : Ring × Except Error Unit :=
  match answer with
  | some e => (ring, .error (.ringOp s!"register_files failed: {e}"))
  | none =>
      let capacity := UInt32.ofNat (max fds.length 4096)
      ({ ring with registeredFds := some (.initFromSlice capacity fds) }, .ok ())

/-- `unregister_fds`. -/
def unregisterFds (answer : Option String) (ring : Ring) : Ring × Except Error Unit :=
  match ring.registeredFds, answer with
  | none, _ => (ring, .ok ())
  | some _, some e => (ring, .error (.ringOp s!"unregister_files failed: {e}"))
  | some _, none => ({ ring with registeredFds := none }, .ok ())

/-- How a `prep_*` function names the file: its slot when it is registered. -/
def target (fd : Fd) (ring : Ring) : Target :=
  match ring.lookupFixed fd with
  | some idx => .fixed idx
  | none => .fd fd

/-- The `with_sq` block all `prep_*` functions end with. -/
def push (fd : Fd) (op : SqeOp) (generation : UInt16) (target : Target) (ring : Ring) :
    Except Error Ring :=
  if ring.entries ≤ ring.sq.length then .error (.ringOp "SQ is full")
  else .ok { ring with
    sq := ring.sq ++ [⟨fd, op, generation, target, ring.tail⟩]
    tail := ring.tail + 1 }

def prepRecv (fd : Fd) (buf : UInt16) (len : Nat) (generation : UInt16) (ring : Ring) :=
  ring.push fd (.recv buf len) generation (ring.target fd)

def prepSend (fd : Fd) (buf : UInt16) (len : Nat) (generation : UInt16) (ring : Ring) :=
  ring.push fd (.send buf len) generation (ring.target fd)

def prepAccept (fd : Fd) (generation : UInt16) (ring : Ring) :=
  ring.push fd .accept generation (ring.target fd)

def prepAcceptMultishot (fd : Fd) (generation : UInt16) (ring : Ring) :=
  ring.push fd .acceptMulti generation (ring.target fd)

/-- A close always names the descriptor itself. -/
def prepClose (fd : Fd) (generation : UInt16) (ring : Ring) :=
  ring.push fd .close generation (.fd fd)

def prepRecvMultishot (fd : Fd) (bgid generation : UInt16) (ring : Ring) :=
  ring.push fd (.recvMulti bgid) generation (ring.target fd)

def prepRecvmsg (fd : Fd) (msg : Nat) (buf : UInt16) (len : Nat) (generation : UInt16)
    (ring : Ring) :=
  ring.push fd (.recvMsg msg buf len) generation (ring.target fd)

def prepSendmsg (fd : Fd) (msg len : Nat) (generation : UInt16) (ring : Ring) :=
  ring.push fd (.sendMsg msg len) generation (ring.target fd)

/-- The kernel takes the first `n` entries of the submission queue. -/
def take (n : Nat) (ring : Ring) : Ring :=
  { ring with sq := ring.sq.drop n, kernel := ring.kernel ++ ring.sq.take n }

/-- `submit`; `enter` is what `io_uring_enter` answers: an OS error, or how many entries it took. -/
def submit (enter : Except String Nat) (ring : Ring) : Ring × Except Error Nat :=
  if ring.sq.length = 0 then (ring, .ok 0)
  else match enter with
    | .error e => (ring, .error (.ringOp ("submit failed: " ++ e)))
    | .ok n => (ring.take n, .ok n)

def drainCompletions (ring : Ring) : Ring × List CompletionEntry :=
  ({ ring with cq := [] }, ring.cq.map Cqe.entry)

/-! ## What is in flight -/

/-- The operations the kernel has or will get, in the order they were submitted. -/
def inFlight (ring : Ring) : List Sqe := ring.kernel ++ ring.sq

/-- The operations whose last completion has been posted and not been drained. -/
def finished (ring : Ring) : List Sqe := (ring.cq.filter (!·.more)).map Cqe.sqe

/-- Every operation whose last completion has not been drained. -/
def outstanding (ring : Ring) : List Sqe := ring.inFlight ++ ring.finished

/-- Submission numbers tell outstanding operations apart, and a receive completes once. -/
structure Numbered (ring : Ring) : Prop where
  below : ∀ e ∈ ring.outstanding, e.seq < ring.tail
  nodup : (ring.outstanding.map Sqe.seq).Nodup
  single : ∀ c ∈ ring.cq, c.sqe.op.isRecv → c.more = false

/-- Numbering speaks of the outstanding operations up to order. -/
theorem Numbered.congr {r r' : Ring} (h : r.Numbered) (hout : r'.outstanding.Perm r.outstanding)
    (htail : r'.tail = r.tail) (hsingle : ∀ c ∈ r'.cq, c.sqe.op.isRecv → c.more = false) :
    r'.Numbered where
  below e he := by
    rw [htail]
    exact h.below e (hout.mem_iff.mp he)
  nodup := (hout.map Sqe.seq).nodup_iff.mpr h.nodup
  single := hsingle

@[simp] theorem inFlight_take (n : Nat) (ring : Ring) : (ring.take n).inFlight = ring.inFlight := by
  rw [inFlight, take, List.append_assoc, List.take_append_drop, inFlight]

/-- All a submission to the kernel does: some entries change hands. -/
theorem submit_cases (enter : Except String Nat) (ring : Ring) :
    (ring.submit enter).1 = ring ∨ ∃ n, (ring.submit enter).1 = ring.take n := by
  unfold submit
  split
  · exact .inl rfl
  · split
    · exact .inl rfl
    · rename_i n
      exact .inr ⟨n, rfl⟩

@[simp] theorem inFlight_submit (enter : Except String Nat) (ring : Ring) :
    (ring.submit enter).1.inFlight = ring.inFlight := by
  obtain h | ⟨n, h⟩ := ring.submit_cases enter <;> simp [h]

@[simp] theorem cq_submit (enter : Except String Nat) (ring : Ring) :
    (ring.submit enter).1.cq = ring.cq := by
  obtain h | ⟨n, h⟩ := ring.submit_cases enter <;> simp [h, take]

@[simp] theorem tail_submit (enter : Except String Nat) (ring : Ring) :
    (ring.submit enter).1.tail = ring.tail := by
  obtain h | ⟨n, h⟩ := ring.submit_cases enter <;> simp [h, take]

@[simp] theorem finished_submit (enter : Except String Nat) (ring : Ring) :
    (ring.submit enter).1.finished = ring.finished := by
  simp [finished]

@[simp] theorem outstanding_submit (enter : Except String Nat) (ring : Ring) :
    (ring.submit enter).1.outstanding = ring.outstanding := by
  simp [outstanding]

/-- A push that succeeds adds one entry, numbered by the old tail. -/
theorem push_ok {fd : Fd} {op : SqeOp} {generation : UInt16} {target : Target} {ring r : Ring}
    (h : ring.push fd op generation target = .ok r) :
    r = { ring with
      sq := ring.sq ++ [⟨fd, op, generation, target, ring.tail⟩]
      tail := ring.tail + 1 } := by
  unfold push at h
  split at h
  · cases h
  · cases h
    rfl

end Ring

/-! ## What the code reads of a completion -/

namespace Cqe

@[simp] theorem entry_result (c : Cqe) : c.entry.result = c.payload.result := rfl

@[simp] theorem entry_fd (c : Cqe) : c.entry.fd = c.sqe.fd :=
  UserData.fd_encode ..

@[simp] theorem entry_opType (c : Cqe) : c.entry.opType = c.sqe.op.opType :=
  UserData.opType_encode ..

theorem flags_toNat (c : Cqe) :
    c.flags.toNat =
      (if c.buf.isSome then 1 else 0) + (if c.more then 2 else 0) + (c.buf.getD 0).toNat * 65536 := by
  have hb := (c.buf.getD 0).toNat_lt
  rw [flags]
  cases c.buf.isSome <;> cases c.more <;> simp [UInt32.toNat_add, UInt32.toNat_mul] <;> omega

/-- The flags carry the selected buffer. -/
@[simp] theorem entry_bufferIndex (c : Cqe) : c.entry.bufferIndex = c.buf := by
  have hflags := c.flags_toNat
  have hhas : cqeHasBuffer c.flags = c.buf.isSome := by
    have hand : (c.flags &&& 1).toNat = c.flags.toNat % 2 := by
      rw [UInt32.toNat_and]
      exact Nat.and_one_is_mod _
    -- of the three summands only that of `F_BUFFER` is odd
    have hmod : c.flags.toNat % 2 = if c.buf.isSome then 1 else 0 := by
      rw [hflags]
      cases c.buf.isSome <;> cases c.more <;> simp <;> omega
    rw [cqeHasBuffer]
    cases hsome : c.buf.isSome with
    | false =>
      have h0 : c.flags &&& 1 = 0 := UInt32.toNat_inj.mp (by rw [hand, hmod, hsome]; rfl)
      simp [h0]
    | true =>
      have h1 : c.flags &&& 1 ≠ 0 := by
        intro h0
        rw [h0, hmod, hsome] at hand
        cases hand
      simp [h1]
  have hid : ∀ b, c.buf = some b → cqeBufferId c.flags = b := by
    intro b hb
    apply UInt16.toNat_inj.mp
    have hlt := b.toNat_lt
    have h16 : (16 : UInt32).toNat % 32 = 16 := rfl
    rw [cqeBufferId, UInt32.toNat_toUInt16, UInt32.toNat_shiftRight, h16, hflags, hb,
      Nat.shiftRight_eq_div_pow]
    cases c.more <;> simp <;> omega
  rw [entry]
  simp only [hhas]
  cases hbuf : c.buf with
  | none => rfl
  | some b => simp [hid b hbuf]

end Cqe

end Uringcore
