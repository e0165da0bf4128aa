import Uringcore.Lib.Machine
import Uringcore.State

/-!
# The buffer queue of a descriptor

A completed receive may be kept for its reader: `on_completion` puts a reference to the buffer into the
queue of the descriptor, the reader consumes it piece by piece through the reference at the front
(`peek_buffer_mut`, `advance`) and takes it away when it likes (`take_buffer`). Operations in flight and
buffers in the queue share one budget.

* `in_budget_iff` — the budget is kept all along a run if and only if every operation is submitted with
  credit, and completes one that was in flight or finds credit left.
* `stream_kept` — nothing of the stream is lost, delivered twice or out of order, however the reader
  consumes it.
-/

namespace Uringcore

namespace BufferRef

def new (index : UInt16) (len : Nat) (generationId : UInt64) : BufferRef := ⟨index, len, 0, generationId⟩

def remaining (buf : BufferRef) : Nat := buf.len - buf.offset

def isConsumed (buf : BufferRef) : Bool := buf.len ≤ buf.offset

/-- `saturating_add`, then `min`. -/
def advance (amount : Nat) (buf : BufferRef) : BufferRef :=
  { buf with offset := min (min (buf.offset + amount) (2 ^ 64 - 1)) buf.len }

end BufferRef

namespace FDState

def availableCredit (st : FDState) : Nat := st.creditBudget - st.used

def onCompletion (buffer : BufferRef) (st : FDState) : FDState :=
  { st with
    inflightCount := st.inflightCount - 1
    bufferQueue := st.bufferQueue ++ [buffer] }

def takeBuffer (st : FDState) : FDState × Option BufferRef :=
  match st.bufferQueue with
  | [] => (st, none)
  | buffer :: rest => ({ st with bufferQueue := rest }, some buffer)

def peekBuffer (st : FDState) : Option BufferRef := st.bufferQueue.head?

/-- `peek_buffer_mut` and an update of what it gives. -/
def peekBufferMut (f : BufferRef → BufferRef) (st : FDState) : FDState :=
  match st.bufferQueue with
  | [] => st
  | buffer :: rest => { st with bufferQueue := f buffer :: rest }

/-- What may happen to the state of a descriptor. -/
inductive Act where
  | submit
  /-- A receive completes with data, in a buffer that is kept. -/
  | completion (index : UInt16) (data : Bytes) (generationId : UInt64)
  | completionEmpty
  | take
  | advance (amount : Nat)
  | pause
  | resume

/-- A length is a `usize`. -/
def step (st : FDState) : Act → Option FDState
  | .submit => some st.onSubmit
  | .completion index data generationId =>
      if data.length < 2 ^ 64 then some (st.onCompletion (.new index data.length generationId))
      else none
  | .completionEmpty => some st.onCompletionEmpty
  | .take => some st.takeBuffer.1
  | .advance amount => some (st.peekBufferMut (.advance amount))
  | .pause => some st.pause
  | .resume => some st.resume

def machine : Machine FDState Act := ⟨step⟩

/-! ## The budget -/

/-- The operations in flight and the buffers in the queue are within the budget. -/
def InBudget (st : FDState) : Prop := st.inflightCount + st.bufferQueue.length ≤ st.creditBudget

/-- An operation is submitted with credit; what completes was in flight, or there is credit for it. -/
def WithCredit (st : FDState) : Act → Prop
  | .submit => st.hasCredit
  | .completion .. => 0 < st.inflightCount ∨ st.hasCredit
  | .completionEmpty | .take | .advance _ | .pause | .resume => True

instance (st : FDState) : ∀ a : Act, Decidable (WithCredit st a)
  | .submit => inferInstanceAs (Decidable (st.hasCredit = true))
  | .completion .. => inferInstanceAs (Decidable (_ ∨ _))
  | .completionEmpty | .take | .advance _ | .pause | .resume => .isTrue trivial

theorem step_creditBudget {st st' : FDState} {a : Act} (h : st.step a = some st') :
    st'.creditBudget = st.creditBudget := by
  cases a with
  | completion index data generationId =>
    simp only [step, Option.ite_none_right_eq_some] at h
    cases h.2
    rfl
  | take =>
    cases h
    unfold takeBuffer
    split <;> rfl
  | advance amount =>
    cases h
    unfold peekBufferMut
    split <;> rfl
  | submit | completionEmpty | pause | resume =>
    cases h
    rfl

/-- Inside the budget the sum does not wrap. -/
theorem InBudget.used_eq {st : FDState} (h : st.InBudget) (hbudget : st.creditBudget < 2 ^ 32) :
    st.used = st.inflightCount + st.bufferQueue.length := by
  unfold InBudget at h
  unfold used
  omega

theorem length_takeBuffer_le (st : FDState) :
    st.takeBuffer.1.inflightCount = st.inflightCount ∧
      st.takeBuffer.1.bufferQueue.length ≤ st.bufferQueue.length := by
  unfold takeBuffer
  split
  · exact ⟨rfl, Nat.le_refl _⟩
  · rename_i buffer rest hqueue
    exact ⟨rfl, by simp [hqueue]⟩

theorem length_peekBufferMut (f : BufferRef → BufferRef) (st : FDState) :
    (st.peekBufferMut f).inflightCount = st.inflightCount ∧
      (st.peekBufferMut f).bufferQueue.length = st.bufferQueue.length := by
  unfold peekBufferMut
  split
  · exact ⟨rfl, rfl⟩
  · rename_i buffer rest hqueue
    exact ⟨rfl, by simp [hqueue]⟩

/-- At the largest budget of all the count would saturate before it goes over it. -/
theorem step_inBudget {st st' : FDState} {a : Act} (hbudget : st.creditBudget < 2 ^ 32 - 1)
    (h : st.InBudget) (hstep : st.step a = some st') : st'.InBudget ↔ WithCredit st a := by
  have hused := h.used_eq (by omega)
  have hsame := step_creditBudget hstep
  unfold InBudget at h
  unfold InBudget WithCredit hasCredit
  rw [hsame, hused]
  cases a with
  | submit =>
    cases hstep
    simp only [onSubmit, decide_eq_true_eq]
    omega
  | completion index data generationId =>
    simp only [step, Option.ite_none_right_eq_some] at hstep
    cases hstep.2
    simp only [onCompletion, List.length_append, List.length_singleton, decide_eq_true_eq]
    omega
  | completionEmpty =>
    cases hstep
    simp only [onCompletionEmpty, iff_true]
    omega
  | take =>
    cases hstep
    obtain ⟨hinflight, hlength⟩ := length_takeBuffer_le st
    simp only [iff_true]
    omega
  | advance amount =>
    cases hstep
    obtain ⟨hinflight, hlength⟩ := length_peekBufferMut (.advance amount) st
    simp only [iff_true]
    omega
  | pause =>
    cases hstep
    exact iff_of_true h trivial
  | resume =>
    cases hstep
    exact iff_of_true h trivial

/-- What is available is the budget without what is used, and there is credit while it is not zero. -/
theorem InBudget.availableCredit_eq {st : FDState} (h : st.InBudget)
    (hbudget : st.creditBudget < 2 ^ 32) :
    st.inflightCount + st.bufferQueue.length + st.availableCredit = st.creditBudget ∧
      (st.hasCredit ↔ 0 < st.availableCredit) := by
  have hused := h.used_eq hbudget
  unfold InBudget at h
  unfold availableCredit hasCredit
  rw [hused, decide_eq_true_eq]
  omega

/-- **The budget.** From a new state on, the budget is kept all along a run if and only if every
operation is submitted with credit and every buffer that is kept comes from an operation in flight, or
finds credit. The credit that is available then is exact. -/
theorem in_budget_iff {generationId : UInt64} {socketType : SocketType} {acts : List Act}
    {st : FDState} (h : machine.run (FDState.new generationId socketType) acts = some st) :
    (machine.Always InBudget (FDState.new generationId socketType) acts ↔
      machine.Meets WithCredit (FDState.new generationId socketType) acts) ∧
    (machine.Meets WithCredit (FDState.new generationId socketType) acts →
      st.inflightCount + st.bufferQueue.length + st.availableCredit = defaultCreditBudget ∧
        (st.hasCredit ↔ 0 < st.availableCredit)) := by
  have hnew : (FDState.new generationId socketType).InBudget := Nat.zero_le _
  constructor
  · refine Machine.always_iff_meets (I := fun st => st.creditBudget = defaultCreditBudget) ?_
      rfl hnew h
    intro s a t hI hP hstep
    refine ⟨(step_creditBudget hstep).trans hI, step_inBudget ?_ hP hstep⟩
    rw [hI]
    decide
  · intro hmeets
    have hend : st.creditBudget = defaultCreditBudget ∧ st.InBudget := by
      apply Machine.run_invariant (I := fun st : FDState =>
        st.creditBudget = defaultCreditBudget ∧ st.InBudget) _ ⟨rfl, hnew⟩ hmeets h
      intro s a t hboth hcredit hstep
      obtain ⟨hI, hP⟩ := hboth
      refine ⟨(step_creditBudget hstep).trans hI, (step_inBudget ?_ hP hstep).mpr hcredit⟩
      rw [hI]
      decide
    rw [← hend.1]
    apply hend.2.availableCredit_eq
    rw [hend.1]
    decide

/-- A completion of an operation in flight keeps its buffer within the budget. -/
theorem in_budget_of_answered :
    machine.Always InBudget (FDState.new 1 .tcpStream)
      [.submit, .submit, .completion 3 [104, 105] 1, .completionEmpty, .take] :=
  (in_budget_iff (show machine.run (FDState.new 1 .tcpStream)
    [.submit, .submit, .completion 3 [104, 105] 1, .completionEmpty, .take] =
      some (FDState.new 1 .tcpStream) by decide)).1.mpr (by decide)

/-! ## The stream -/

/-- What went through the queue. -/
structure Stream where
  /-- All that receives brought, in order. -/
  arrived : Bytes
  /-- All that the reader consumed or took away, in order. -/
  delivered : Bytes
  /-- The contents of the buffers in the queue. -/
  contents : List Bytes
  completed : List BufferRef
  taken : List BufferRef

namespace Stream

def empty : Stream := ⟨[], [], [], [], []⟩

/-- A reader consumes the bytes it advances over, and the rest of a buffer it takes away. -/
def after (st : FDState) (a : Act) (_ : FDState) (s : Stream) : Stream :=
  match a with
  | .completion index data generationId =>
      { s with
        arrived := s.arrived ++ data
        contents := s.contents ++ [data]
        completed := s.completed ++ [.new index data.length generationId] }
  | .take =>
      match st.bufferQueue, s.contents with
      | buffer :: _, data :: rest =>
          { s with
            delivered := s.delivered ++ data.drop buffer.offset
            contents := rest
            taken := s.taken ++ [{ buffer with offset := 0 }] }
      | _, _ => s
  | .advance amount =>
      match st.peekBuffer, s.contents with
      | some buffer, data :: _ =>
          { s with delivered := s.delivered ++ (data.drop buffer.offset).take amount }
      | _, _ => s
  | .submit | .completionEmpty | .pause | .resume => s

/-- What the reader has not seen yet, along a queue. -/
def unread : List BufferRef → List Bytes → Bytes
  | buffer :: queue, data :: rest => data.drop buffer.offset ++ unread queue rest
  | _, _ => []

/-- A reference fits what is in its buffer. -/
def Fits (buffer : BufferRef) (data : Bytes) : Prop :=
  buffer.len = data.length ∧ buffer.len < 2 ^ 64 ∧ buffer.offset ≤ buffer.len

theorem unread_append {queue queue' : List BufferRef} {contents contents' : List Bytes}
    (h : List.Forall₂ Fits queue contents) :
    unread (queue ++ queue') (contents ++ contents') =
      unread queue contents ++ unread queue' contents' := by
  induction h with
  | nil => rfl
  | cons hfits hrest ih => simp only [List.cons_append, unread, ih, List.append_assoc]

/-- The lengths that are left in the references add up to what is unread. -/
theorem length_unread {queue : List BufferRef} {contents : List Bytes}
    (h : List.Forall₂ Fits queue contents) :
    (unread queue contents).length = (queue.map BufferRef.remaining).sum := by
  induction h with
  | nil => rfl
  | cons hfits hrest ih =>
    simp only [unread, List.length_append, List.length_drop, ih, List.map_cons, List.sum_cons,
      BufferRef.remaining, hfits.1]

/-- The queue holds what arrived and is not delivered: only the buffer at the front may be begun, the
others are as they were completed. -/
structure Kept (st : FDState) (s : Stream) : Prop where
  fits : List.Forall₂ Fits st.bufferQueue s.contents
  stream : s.arrived = s.delivered ++ unread st.bufferQueue s.contents
  buffers : s.completed = s.taken ++ st.bufferQueue.map fun buffer => { buffer with offset := 0 }
  untouched : ∀ buffer ∈ st.bufferQueue.tail, buffer.offset = 0

theorem fits_new {index : UInt16} {data : Bytes} {generationId : UInt64} (h : data.length < 2 ^ 64) :
    Fits (.new index data.length generationId) data := ⟨rfl, h, Nat.zero_le _⟩

/-- Advancing stops at the end of the buffer. -/
theorem offset_advance {buffer : BufferRef} {data : Bytes} (h : Fits buffer data) (amount : Nat) :
    (buffer.advance amount).offset = min (buffer.offset + amount) data.length := by
  obtain ⟨hlen, hword, hoffset⟩ := h
  simp only [BufferRef.advance]
  omega

theorem Fits.advance {buffer : BufferRef} {data : Bytes} (h : Fits buffer data) (amount : Nat) :
    Fits (buffer.advance amount) data := by
  have hoffset := offset_advance h amount
  refine ⟨h.1, h.2.1, ?_⟩
  rw [hoffset, ← h.1]
  exact Nat.min_le_right _ _

/-- What is consumed and what is then left are what was left before. -/
theorem take_append_drop_advance {buffer : BufferRef} {data : Bytes} (h : Fits buffer data)
    (amount : Nat) :
    (data.drop buffer.offset).take amount ++ data.drop (buffer.advance amount).offset =
      data.drop buffer.offset := by
  rw [offset_advance h amount]
  conv_rhs => rw [← List.take_append_drop amount (data.drop buffer.offset)]
  rw [List.drop_drop]
  congr 1
  rcases Nat.le_total (buffer.offset + amount) data.length with hle | hle
  · rw [Nat.min_eq_left hle]
  · rw [Nat.min_eq_right hle, List.drop_length, List.drop_of_length_le hle]

theorem step_kept {st st' : FDState} {a : Act} {s : Stream} (h : s.Kept st)
    (hstep : st.step a = some st') : (s.after st a st').Kept st' := by
  obtain ⟨hfits, hstream, hbuffers, huntouched⟩ := h
  cases a with
  | submit | completionEmpty | pause | resume =>
    cases hstep
    exact ⟨hfits, hstream, hbuffers, huntouched⟩
  | completion index data generationId =>
    simp only [FDState.step, Option.ite_none_right_eq_some] at hstep
    obtain ⟨hword, hsome⟩ := hstep
    cases hsome
    refine ⟨List.rel_append hfits (.cons (fits_new hword) .nil), ?_, ?_, ?_⟩
    · simp only [after, onCompletion, unread_append hfits, hstream, List.append_assoc]
      simp [unread, BufferRef.new]
    · simp [after, onCompletion, hbuffers, BufferRef.new]
    · intro buffer hbuffer
      rw [onCompletion] at hbuffer
      cases hqueue : st.bufferQueue with
      | nil => simp [hqueue] at hbuffer
      | cons first rest =>
        rw [hqueue] at huntouched
        simp only [hqueue, List.cons_append, List.tail_cons, List.mem_append,
          List.mem_singleton] at hbuffer
        obtain hold | rfl := hbuffer
        · exact huntouched buffer hold
        · rfl
  | take =>
    cases hstep
    obtain ⟨inflight, queue, budget, generationId, paused, socketType⟩ := st
    obtain ⟨arrived, delivered, contents, completed, taken⟩ := s
    cases hfits with
    | nil => exact ⟨.nil, hstream, hbuffers, huntouched⟩
    | @cons buffer data queue rest hfirst hrest =>
      refine ⟨hrest, ?_, ?_, fun buffer' hbuffer => huntouched buffer' (List.mem_of_mem_tail hbuffer)⟩
      · show arrived = (delivered ++ data.drop buffer.offset) ++ unread queue rest
        rw [List.append_assoc]
        exact hstream
      · show completed = (taken ++ [{ buffer with offset := 0 }]) ++
          queue.map fun buffer => { buffer with offset := 0 }
        rw [List.append_assoc]
        exact hbuffers
  | advance amount =>
    cases hstep
    obtain ⟨inflight, queue, budget, generationId, paused, socketType⟩ := st
    obtain ⟨arrived, delivered, contents, completed, taken⟩ := s
    cases hfits with
    | nil => exact ⟨.nil, hstream, hbuffers, huntouched⟩
    | @cons buffer data queue rest hfirst hrest =>
      refine ⟨.cons (hfirst.advance amount) hrest, ?_, hbuffers, huntouched⟩
      show arrived = (delivered ++ (data.drop buffer.offset).take amount) ++
        (data.drop (buffer.advance amount).offset ++ unread queue rest)
      rw [List.append_assoc, ← List.append_assoc _ _ (unread queue rest),
        take_append_drop_advance hfirst]
      exact hstream

/-- **The stream.** However a reader consumes the queue of a descriptor, by parts or by whole buffers:
what arrived is what was delivered and then what is unread, and the references say how much that is. The
buffers come out in the order in which they were completed, and only the one at the front is ever begun. -/
theorem stream_kept {generationId : UInt64} {socketType : SocketType} {acts : List Act}
    {st : FDState} {s : Stream}
    (h : (machine.ghost after).run (FDState.new generationId socketType, empty) acts = some (st, s)) :
    s.arrived = s.delivered ++ unread st.bufferQueue s.contents ∧
      s.arrived.length = s.delivered.length + (st.bufferQueue.map BufferRef.remaining).sum ∧
      s.completed = s.taken ++ st.bufferQueue.map (fun buffer => { buffer with offset := 0 }) ∧
      ∀ buffer ∈ st.bufferQueue.tail, buffer.offset = 0 := by
  have hnew : empty.Kept (FDState.new generationId socketType) :=
    ⟨.nil, rfl, rfl, by simp [FDState.new]⟩
  have hend : s.Kept st := by
    apply Machine.run_invariant' (I := fun x : FDState × Stream => x.2.Kept x.1) _ hnew h
    intro x a y hx hstep
    obtain ⟨hmove, hafter⟩ := Machine.ghost_step_eq_some.mp hstep
    rw [hafter]
    exact step_kept hx hmove
  refine ⟨hend.stream, ?_, hend.buffers, hend.untouched⟩
  rw [← length_unread hend.fits, ← List.length_append, ← hend.stream]

/-- Two receives, read across their border. -/
theorem stream_kept_across :
    let s : Stream := ⟨[104, 101, 108, 108, 111], [104, 101, 108], [[108, 111]],
      [.new 7 3 1, .new 9 2 1], [.new 7 3 1]⟩
    s.arrived = s.delivered ++ unread [.new 9 2 1] s.contents ∧
      s.arrived.length = s.delivered.length + ([BufferRef.new 9 2 1].map BufferRef.remaining).sum ∧
      s.completed =
        s.taken ++ [BufferRef.new 9 2 1].map (fun buffer => { buffer with offset := 0 }) ∧
      ∀ buffer ∈ [BufferRef.new 9 2 1].tail, buffer.offset = 0 :=
  stream_kept (show (machine.ghost after).run (FDState.new 1 .tcpStream, empty)
    [.submit, .submit, .completion 7 [104, 101, 108] 1, .advance 2, .completion 9 [108, 111] 1, .take] =
      some ({ FDState.new 1 .tcpStream with bufferQueue := [.new 9 2 1] }, _) from rfl)

end Stream

end FDState

end Uringcore
