import Uringcore.Lib.Machine
import Uringcore.Lib.History
import Uringcore.Ring

/-!
# Timed submissions

`prep_connect_with_timeout` pushes two entries that belong together: a connect with `IOSQE_IO_LINK`, and the
link timeout right behind it, which has no other way to say what it limits. The kernel links what is adjacent
in one batch it takes from the queue; a chain ends where the batch ends.

`pairs_whole_iff`: no order of submissions ever separates a pair in the queue, or leaves half of one there
when the queue is full; so all batches are whole if and only if none ends right behind a connect.

The times are another matter. An entry points to the local `ts` of the call that pushes it, and the kernel
reads the time when it takes the entry: as it was given only while that call still runs, as a kernel thread
that polls the queue may do, and otherwise whatever the memory of the dead frame holds by then.
-/

namespace Uringcore

structure Timespec where
  sec : UInt64
  nsec : UInt32
  deriving DecidableEq, Repr

namespace Timespec

/-- The timespec of `prep_connect_with_timeout`. -/
def ofMillis (timeoutMs : UInt64) : Timespec :=
  ⟨timeoutMs / 1000, ((timeoutMs % 1000) * 1000000).toUInt32⟩

/-- The timespec of `prep_timeout`. -/
def ofNanos (deadlineNs : UInt64) : Timespec :=
  ⟨deadlineNs / 1000000000, (deadlineNs % 1000000000).toUInt32⟩

/-- The time it says, in nanoseconds. -/
def nanos (ts : Timespec) : Nat := ts.sec.toNat * 1000000000 + ts.nsec.toNat

/-- What the kernel accepts. -/
def Valid (ts : Timespec) : Prop := ts.nsec.toNat < 1000000000

/-- No cast loses anything. -/
theorem ofMillis_spec (timeoutMs : UInt64) :
    (ofMillis timeoutMs).Valid ∧ (ofMillis timeoutMs).nanos = timeoutMs.toNat * 1000000 := by
  have hnsec : (ofMillis timeoutMs).nsec.toNat = timeoutMs.toNat % 1000 * 1000000 := by
    simp only [ofMillis, UInt64.toNat_toUInt32, UInt64.toNat_mul, UInt64.toNat_mod, UInt64.reduceToNat]
    omega
  have hsec : (ofMillis timeoutMs).sec.toNat = timeoutMs.toNat / 1000 := by
    simp only [ofMillis, UInt64.toNat_div, UInt64.reduceToNat]
  rw [Valid, nanos, hnsec, hsec]
  omega

theorem ofNanos_spec (deadlineNs : UInt64) :
    (ofNanos deadlineNs).Valid ∧ (ofNanos deadlineNs).nanos = deadlineNs.toNat := by
  have hnsec : (ofNanos deadlineNs).nsec.toNat = deadlineNs.toNat % 1000000000 := by
    simp only [ofNanos, UInt64.toNat_toUInt32, UInt64.toNat_mod, UInt64.reduceToNat]
    omega
  have hsec : (ofNanos deadlineNs).sec.toNat = deadlineNs.toNat / 1000000000 := by
    simp only [ofNanos, UInt64.toNat_div, UInt64.reduceToNat]
  rw [Valid, nanos, hnsec, hsec]
  omega

end Timespec

/-- `&raw const ts` in the frame of a timed call; the frames are numbered in the order of the calls. -/
structure TimespecPtr where
  frame : Nat
  deriving DecidableEq, Repr

/-- What the timed submissions ask of the kernel, besides the others. -/
inductive TimedOp where
  | plain (op : SqeOp)
  | connect (addr addrLen : Nat)
  | linkTimeout (ts : TimespecPtr)
  /-- Until an absolute time. -/
  | timeout (ts : TimespecPtr)
  /-- Of the timeout with this word. -/
  | timeoutRemove (userData : UInt64)
  | sendZc (buf len : Nat)
  deriving DecidableEq, Repr

namespace TimedOp

def timespec? : TimedOp → Option TimespecPtr
  | linkTimeout ts | timeout ts => some ts
  | plain _ | connect .. | timeoutRemove _ | sendZc .. => none

end TimedOp

structure TimedSqe where
  op : TimedOp
  target : Option Target
  userData : UInt64
  /-- `IOSQE_IO_LINK`. -/
  ioLink : Bool
  deriving DecidableEq, Repr

structure TimedQueue where
  /-- Capacity of the submission queue. -/
  entries : Nat
  registeredFds : Option FixedFdTable
  sq : List TimedSqe
  /-- What the local `ts` of each timed call was. -/
  frames : List Timespec
  /-- The last timed call has not returned. -/
  running : Bool
  /-- The batches the kernel has taken. -/
  taken : List (List TimedSqe)
  /-- The times it has read, through which pointers. -/
  reads : List (TimespecPtr × Timespec)

namespace TimedQueue

def new (entries : Nat) (registeredFds : Option FixedFdTable) : TimedQueue :=
  ⟨entries, registeredFds, [], [], false, [], []⟩

def target (fd : Fd) (q : TimedQueue) : Target :=
  match q.registeredFds.bind (·.getIndex fd) with
  | some idx => .fixed idx
  | none => .fd fd

/-- The `with_sq` block of a single entry. -/
def push (e : TimedSqe) (q : TimedQueue) : Except Error Unit × TimedQueue :=
  if q.entries ≤ q.sq.length then (.error (.ringOp "SQ is full"), q)
  else (.ok (), { q with sq := q.sq ++ [e] })

/-- The `prep_*` functions of one entry that is not timed. -/
def prepPlain (fd : Fd) (op : SqeOp) (generation : UInt16) (target : Target) (q : TimedQueue) :=
  q.push ⟨.plain op, some target, encodeUserData fd op.opType generation, false⟩

/-- A call with its local `ts`. -/
def withLocal (ts : Timespec) (body : TimespecPtr → TimedQueue → Except Error Unit × TimedQueue)
    (q : TimedQueue) : Except Error Unit × TimedQueue :=
  body ⟨q.frames.length⟩ { q with frames := q.frames ++ [ts], running := true }

def prepTimeout (deadlineNs userData : UInt64) (q : TimedQueue) : Except Error Unit × TimedQueue :=
  q.withLocal (.ofNanos deadlineNs) fun ts => push ⟨.timeout ts, none, userData, false⟩

/-- `cancel_timeout`. The entry has the word of the timeout it removes. -/
def cancelTimeout (userData : UInt64) (q : TimedQueue) :=
  q.push ⟨.timeoutRemove userData, none, userData, false⟩

def prepSendZc (fd : Fd) (buf len : Nat) (generation : UInt16) (q : TimedQueue) :=
  q.push ⟨.sendZc buf len, some (q.target fd), encodeUserData fd .sendZC generation, false⟩

/-- The connect, and what limits it. -/
def pair (fd : Fd) (addr addrLen : Nat) (ts : TimespecPtr) (generation : UInt16) (target : Target) :
    List TimedSqe :=
  [⟨.connect addr addrLen, some target, encodeUserData fd .connect generation, true⟩,
    ⟨.linkTimeout ts, none, encodeUserData fd .timeout generation, false⟩]

def prepConnectWithTimeout (fd : Fd) (addr addrLen : Nat) (timeoutMs : UInt64) (generation : UInt16)
    (q : TimedQueue) : Except Error Unit × TimedQueue :=
  q.withLocal (.ofMillis timeoutMs) fun ts q =>
    if q.entries < q.sq.length + 2 then (.error (.ringOp "SQ is full for connect+timeout"), q)
    else (.ok (), { q with sq := q.sq ++ pair fd addr addrLen ts generation (q.target fd) })

/-- The frame is that of the call that runs. -/
def live (p : TimespecPtr) (q : TimedQueue) : Bool := q.running && p.frame + 1 == q.frames.length

/-- What the kernel reads through a pointer; `memory` is what is left of the dead frames. -/
def read (memory : TimespecPtr → Timespec) (p : TimespecPtr) (q : TimedQueue) : Timespec :=
  if q.live p then q.frames.getLast?.getD (memory p) else memory p

/-- The pointers of some entries. -/
def pointers (es : List TimedSqe) : List TimespecPtr := es.filterMap (·.op.timespec?)

/-- The kernel takes the first `n` entries, and reads their times. -/
def take (n : Nat) (memory : TimespecPtr → Timespec) (q : TimedQueue) : TimedQueue :=
  { q with
    sq := q.sq.drop n
    taken := q.taken ++ [q.sq.take n]
    reads := q.reads ++ (pointers (q.sq.take n)).map fun p => (p, q.read memory p) }

inductive Act where
  | plain (fd : Fd) (op : SqeOp) (generation : UInt16) (target : Target)
  | timeout (deadlineNs userData : UInt64)
  | cancelTimeout (userData : UInt64)
  | sendZc (fd : Fd) (buf len : Nat) (generation : UInt16)
  | connect (fd : Fd) (addr addrLen : Nat) (timeoutMs : UInt64) (generation : UInt16)
  /-- The timed call that runs returns. -/
  | ret
  | take (n : Nat) (memory : TimespecPtr → Timespec)

/-- The times a call is given, in nanoseconds. -/
def Act.given : Act → List Nat
  | .timeout deadlineNs _ => [deadlineNs.toNat]
  | .connect _ _ _ timeoutMs _ => [timeoutMs.toNat * 1000000]
  | .plain .. | .cancelTimeout _ | .sendZc .. | .ret | .take .. => []

/-- A call is made when no other runs (`&mut self`); the kernel takes entries at any time. -/
def step (q : TimedQueue) : Act → Option TimedQueue
  | .plain fd op generation target => if q.running then none else some (q.prepPlain fd op generation target).2
  | .timeout deadlineNs userData => if q.running then none else some (q.prepTimeout deadlineNs userData).2
  | .cancelTimeout userData => if q.running then none else some (q.cancelTimeout userData).2
  | .sendZc fd buf len generation => if q.running then none else some (q.prepSendZc fd buf len generation).2
  | .connect fd addr addrLen timeoutMs generation =>
      if q.running then none else some (q.prepConnectWithTimeout fd addr addrLen timeoutMs generation).2
  | .ret => if q.running then some { q with running := false } else none
  | .take n memory => some (q.take n memory)

def machine : Machine TimedQueue Act := ⟨step⟩

/-! ## Whole pairs -/

/-- A connect and its link timeout: of one descriptor and one generation. -/
def isPair (e t : TimedSqe) : Bool :=
  match e.op, t.op with
  | .connect .., .linkTimeout _ => !t.ioLink && UserData.fd t.userData = UserData.fd e.userData &&
      UserData.generation t.userData = UserData.generation e.userData
  | _, _ => false

def isLinkTimeout (e : TimedSqe) : Bool :=
  match e.op with
  | .linkTimeout _ => true
  | .plain _ | .connect .. | .timeout _ | .timeoutRemove _ | .sendZc .. => false

/-- Every linked entry has its link timeout behind it, and no link timeout is anywhere else. -/
def wholePairs : List TimedSqe → Bool
  | [] => true
  | [e] => !e.ioLink && !isLinkTimeout e
  | e :: t :: rest =>
      if e.ioLink then isPair e t && wholePairs rest else !isLinkTimeout e && wholePairs (t :: rest)

/-- The last entry is linked to one that is not there. -/
def endsLinked (es : List TimedSqe) : Bool := es.getLast?.any (·.ioLink)

theorem endsLinked_cons (e : TimedSqe) (es : List TimedSqe) :
    endsLinked (e :: es) = if es = [] then e.ioLink else endsLinked es := by
  cases es with
  | nil => rfl
  | cons t es => rw [endsLinked, List.getLast?_cons_cons, if_neg (List.cons_ne_nil t es), endsLinked]

theorem isPair_ioLink {e t : TimedSqe} (h : isPair e t = true) : t.ioLink = false := by
  unfold isPair at h
  split at h
  · simp only [Bool.and_eq_true, Bool.not_eq_true'] at h
    exact h.1.1
  · cases h

/-- A whole front matters to nothing behind it. -/
theorem wholePairs_append {es : List TimedSqe} (h : wholePairs es = true) (rest : List TimedSqe) :
    wholePairs (es ++ rest) = wholePairs rest := by
  induction es using wholePairs.induct with
  | case1 => rfl
  | case2 e =>
    simp only [wholePairs, Bool.and_eq_true, Bool.not_eq_true'] at h
    cases rest with
    | nil => simp [wholePairs, h.1, h.2]
    | cons t rest => simp [wholePairs, h.1, h.2]
  | case3 e t es hlink ih =>
    rw [wholePairs, if_pos hlink, Bool.and_eq_true] at h
    rw [List.cons_append, List.cons_append, wholePairs, if_pos hlink, h.1, Bool.true_and, ih h.2]
  | case4 e t es hlink ih =>
    rw [wholePairs, if_neg hlink, Bool.and_eq_true] at h
    rw [List.cons_append, List.cons_append, wholePairs, if_neg hlink, h.1, Bool.true_and,
      ← List.cons_append, ih h.2]

/-- A front of whole pairs is whole, unless it ends inside one. -/
theorem wholePairs_take {es : List TimedSqe} (h : wholePairs es = true) (n : Nat) :
    wholePairs (es.take n) = !endsLinked (es.take n) := by
  induction es using wholePairs.induct generalizing n with
  | case1 =>
    rw [List.take_nil]
    rfl
  | case2 e =>
    cases n with
    | zero => rfl
    | succ n =>
      simp only [wholePairs, Bool.and_eq_true, Bool.not_eq_true'] at h
      simp [wholePairs, endsLinked, h.1, h.2]
  | case3 e t es hlink ih =>
    rw [wholePairs, if_pos hlink, Bool.and_eq_true] at h
    match n with
    | 0 => rfl
    | 1 => simp [wholePairs, endsLinked, hlink]
    | n + 2 =>
      have ih := ih h.2 n
      have hpair := isPair_ioLink h.1
      rw [List.take_succ_cons, List.take_succ_cons, wholePairs, if_pos hlink, h.1, Bool.true_and, ih,
        endsLinked_cons, if_neg (List.cons_ne_nil _ _), endsLinked_cons]
      split
      · rename_i hnil
        simp [hnil, hpair, endsLinked]
      · rfl
  | case4 e t es hlink ih =>
    rw [wholePairs, if_neg hlink, Bool.and_eq_true] at h
    cases n with
    | zero => rfl
    | succ n =>
      have ih := ih h.2 n
      cases n with
      | zero =>
        have hplain : e.ioLink = false := by simpa using hlink
        have hnot : isLinkTimeout e = false := by simpa using h.1
        simp [wholePairs, endsLinked, hplain, hnot]
      | succ n =>
        rw [List.take_succ_cons] at ih
        rw [List.take_succ_cons, List.take_succ_cons, wholePairs, if_neg hlink, h.1, Bool.true_and, ih,
          endsLinked_cons e, if_neg (List.cons_ne_nil _ _)]

theorem wholePairs_flatten {batches : List (List TimedSqe)}
    (h : ∀ batch ∈ batches, wholePairs batch = true) : wholePairs batches.flatten = true := by
  induction batches with
  | nil => rfl
  | cons batch batches ih =>
    rw [List.flatten_cons, wholePairs_append (h batch List.mem_cons_self)]
    exact ih fun b hb => h b (List.mem_cons_of_mem batch hb)

/-! ## Every order of submissions -/

/-- Each pointer is to a local of one of the frames, which held a time that the kernel accepts. -/
def Timed (frames : List Timespec) (es : List TimedSqe) : Prop :=
  ∀ p ∈ pointers es, ∃ ts, frames[p.frame]? = some ts ∧ ts.Valid

theorem Timed.append {frames fs : List Timespec} {es new : List TimedSqe} (hes : Timed frames es)
    (hnew : Timed (frames ++ fs) new) : Timed (frames ++ fs) (es ++ new) := by
  intro p hp
  rw [pointers, List.filterMap_append, List.mem_append] at hp
  obtain hp | hp := hp
  · obtain ⟨ts, hts, hvalid⟩ := hes p hp
    exact ⟨ts, History.getElem?_append_of_some hts fs, hvalid⟩
  · exact hnew p hp

/-- What a call does: it adds whole pairs where there is room, and its local. -/
structure Adds (q t : TimedQueue) (es : List TimedSqe) (fs : List Timespec) : Prop where
  whole : wholePairs es = true
  timed : Timed (q.frames ++ fs) es
  room : es = [] ∨ q.sq.length + es.length ≤ q.entries
  entries : t.entries = q.entries
  sq : t.sq = q.sq ++ es
  frames : t.frames = q.frames ++ fs
  taken : t.taken = q.taken
  reads : t.reads = q.reads

theorem Timed.nil (frames : List Timespec) : Timed frames [] := nofun

/-- A single entry that is neither half of a pair. -/
theorem wholePairs_singleton {e : TimedSqe} (hlink : e.ioLink = false) (hop : isLinkTimeout e = false) :
    wholePairs [e] = true := by
  simp [wholePairs, hlink, hop]

theorem adds_nothing {q t : TimedQueue} (h : t = q) : Adds q t [] [] where
  whole := rfl
  timed := .nil _
  room := .inl rfl
  entries := by rw [h]
  sq := by rw [h, List.append_nil]
  frames := by rw [h, List.append_nil]
  taken := by rw [h]
  reads := by rw [h]

/-- A call without a local. -/
theorem adds_push {e : TimedSqe} (hlink : e.ioLink = false) (hop : isLinkTimeout e = false)
    (hno : e.op.timespec? = none) (q : TimedQueue) : ∃ es, Adds q (q.push e).2 es [] := by
  unfold push
  split
  · exact ⟨[], adds_nothing rfl⟩
  · rename_i hroom
    refine ⟨[e], wholePairs_singleton hlink hop, ?_, .inr ?_, rfl, rfl, ?_, rfl, rfl⟩
    · intro p hp
      simp [pointers, hno] at hp
    · rw [List.length_singleton]
      omega
    · rw [List.append_nil]

/-- A call with one: its entries, if it has room for them, point to the newest frame. -/
theorem adds_withLocal {ts : Timespec} (hvalid : ts.Valid)
    {body : TimespecPtr → TimedQueue → Except Error Unit × TimedQueue} (q : TimedQueue)
    (es : List TimedSqe) (hbody : ∀ s, s = { q with frames := q.frames ++ [ts], running := true } →
      (body ⟨q.frames.length⟩ s).2 = s ∨ (body ⟨q.frames.length⟩ s).2 = { s with sq := s.sq ++ es } ∧
        s.sq.length + es.length ≤ s.entries)
    (hwhole : wholePairs es = true) (hpointers : ∀ p ∈ pointers es, p.frame = q.frames.length) :
    ∃ es, Adds q (q.withLocal ts body).2 es [ts] := by
  unfold withLocal
  obtain hsame | ⟨hadds, hroom⟩ := hbody _ rfl
  · rw [hsame]
    exact ⟨[], rfl, .nil _, .inl rfl, rfl, (List.append_nil _).symm, rfl, rfl, rfl⟩
  · rw [hadds]
    refine ⟨es, hwhole, ?_, .inr hroom, rfl, rfl, rfl, rfl, rfl⟩
    intro p hp
    refine ⟨ts, ?_, hvalid⟩
    rw [hpointers p hp, List.getElem?_concat_length]

theorem adds_timeout (deadlineNs userData : UInt64) (q : TimedQueue) :
    ∃ es, Adds q (q.prepTimeout deadlineNs userData).2 es [.ofNanos deadlineNs] := by
  apply adds_withLocal (Timespec.ofNanos_spec deadlineNs).1 q
    [⟨.timeout ⟨q.frames.length⟩, none, userData, false⟩]
  · intro s _
    unfold push
    split
    · exact .inl rfl
    · rename_i hroom
      refine .inr ⟨rfl, ?_⟩
      rw [List.length_singleton]
      omega
  · exact wholePairs_singleton rfl rfl
  · simp [pointers, TimedOp.timespec?]

theorem adds_connect (fd : Fd) (addr addrLen : Nat) (timeoutMs : UInt64) (generation : UInt16)
    (q : TimedQueue) : ∃ es, Adds q (q.prepConnectWithTimeout fd addr addrLen timeoutMs generation).2 es
      [.ofMillis timeoutMs] := by
  apply adds_withLocal (Timespec.ofMillis_spec timeoutMs).1 q
    (pair fd addr addrLen ⟨q.frames.length⟩ generation (q.target fd))
  · intro s hs
    obtain rfl := hs
    split
    · exact .inl rfl
    · rename_i hroom
      exact .inr ⟨rfl, Nat.not_lt.mp hroom⟩
  · simp [pair, wholePairs, isPair, UserData.fd_encode, UserData.generation_encode]
  · simp [pair, pointers, TimedOp.timespec?]

/-- A step is a call, or the kernel's. -/
theorem step_cases {q t : TimedQueue} {a : Act} (h : q.step a = some t) :
    (∃ es fs, Adds q t es fs ∧ fs.map Timespec.nanos = a.given) ∧ (∀ n memory, a ≠ .take n memory) ∨
      ∃ n memory, a = .take n memory ∧ t = q.take n memory := by
  cases a with
  | take n memory =>
    cases h
    exact .inr ⟨n, memory, rfl, rfl⟩
  | ret =>
    obtain ⟨-, ht⟩ := Option.ite_none_right_eq_some.mp h
    cases ht
    exact .inl ⟨⟨[], [], ⟨rfl, .nil _, .inl rfl, rfl, (List.append_nil _).symm, (List.append_nil _).symm,
      rfl, rfl⟩, rfl⟩, nofun⟩
  | plain fd op generation target =>
    obtain ⟨-, ht⟩ := Option.ite_none_left_eq_some.mp h
    cases ht
    obtain ⟨es, hadds⟩ := adds_push (e := ⟨.plain op, _, _, false⟩) rfl rfl rfl q
    exact .inl ⟨⟨es, [], hadds, rfl⟩, nofun⟩
  | cancelTimeout userData =>
    obtain ⟨-, ht⟩ := Option.ite_none_left_eq_some.mp h
    cases ht
    obtain ⟨es, hadds⟩ := adds_push (e := ⟨.timeoutRemove userData, _, _, false⟩) rfl rfl rfl q
    exact .inl ⟨⟨es, [], hadds, rfl⟩, nofun⟩
  | sendZc fd buf len generation =>
    obtain ⟨-, ht⟩ := Option.ite_none_left_eq_some.mp h
    cases ht
    obtain ⟨es, hadds⟩ := adds_push (e := ⟨.sendZc buf len, _, _, false⟩) rfl rfl rfl q
    exact .inl ⟨⟨es, [], hadds, rfl⟩, nofun⟩
  | timeout deadlineNs userData =>
    obtain ⟨-, ht⟩ := Option.ite_none_left_eq_some.mp h
    cases ht
    obtain ⟨es, hadds⟩ := adds_timeout deadlineNs userData q
    refine .inl ⟨⟨es, _, hadds, ?_⟩, nofun⟩
    rw [List.map_singleton, (Timespec.ofNanos_spec deadlineNs).2, Act.given]
  | connect fd addr addrLen timeoutMs generation =>
    obtain ⟨-, ht⟩ := Option.ite_none_left_eq_some.mp h
    cases ht
    obtain ⟨es, hadds⟩ := adds_connect fd addr addrLen timeoutMs generation q
    refine .inl ⟨⟨es, _, hadds, ?_⟩, nofun⟩
    rw [List.map_singleton, (Timespec.ofMillis_spec timeoutMs).2, Act.given]

/-- Everything submitted so far, in its order. -/
def submitted (q : TimedQueue) : List TimedSqe := q.taken.flatten ++ q.sq

structure Sound (q : TimedQueue) : Prop where
  room : q.sq.length ≤ q.entries
  whole : wholePairs q.submitted = true
  timed : Timed q.frames q.submitted
  reads : ∀ r ∈ q.reads, r.1.frame < q.frames.length

theorem Sound.adds {q t : TimedQueue} {es : List TimedSqe} {fs : List Timespec} (h : q.Sound)
    (hadds : Adds q t es fs) : t.Sound := by
  have hsubmitted : t.submitted = q.submitted ++ es := by
    rw [submitted, hadds.taken, hadds.sq, ← List.append_assoc, submitted]
  constructor
  · rw [hadds.sq, hadds.entries, List.length_append]
    obtain rfl | hroom := hadds.room
    · exact h.room
    · exact hroom
  · rw [hsubmitted, wholePairs_append h.whole]
    exact hadds.whole
  · rw [hsubmitted, hadds.frames]
    exact h.timed.append hadds.timed
  · rw [hadds.reads, hadds.frames, List.length_append]
    intro r hr
    exact Nat.lt_add_right _ (h.reads r hr)

/-- A pointer of what is in the queue is to a frame. -/
theorem Sound.frame_lt {q : TimedQueue} (h : q.Sound) {n : Nat} {p : TimespecPtr}
    (hp : p ∈ pointers (q.sq.take n)) : p.frame < q.frames.length := by
  have hmem : p ∈ pointers q.submitted := by
    rw [submitted, pointers, List.filterMap_append]
    apply List.mem_append_right
    exact (List.Sublist.filterMap _ (List.take_sublist n q.sq)).subset hp
  obtain ⟨ts, hts, -⟩ := h.timed p hmem
  exact (List.getElem?_eq_some_iff.mp hts).1

/-- The kernel takes from the front, so nothing changes its place. -/
theorem Sound.take {q : TimedQueue} (h : q.Sound) (n : Nat) (memory : TimespecPtr → Timespec) :
    (q.take n memory).Sound := by
  have hsame : (q.take n memory).submitted = q.submitted := by
    simp [submitted, TimedQueue.take]
  constructor
  · have hroom := h.room
    show (q.sq.drop n).length ≤ q.entries
    rw [List.length_drop]
    omega
  · rw [hsame]
    exact h.whole
  · rw [hsame]
    exact h.timed
  · intro r hr
    obtain hold | hnew := List.mem_append.mp hr
    · exact h.reads r hold
    · obtain ⟨p, hp, rfl⟩ := List.mem_map.mp hnew
      exact h.frame_lt hp

/-! ## Whole batches -/

/-- A batch that does not end inside a pair. -/
def EndsOutside (q : TimedQueue) : Act → Prop
  | .take n _ => endsLinked (q.sq.take n) = false
  | .plain .. | .timeout .. | .cancelTimeout _ | .sendZc .. | .connect .. | .ret => True

instance (q : TimedQueue) : ∀ a, Decidable (EndsOutside q a)
  | .take n _ => inferInstanceAs (Decidable (endsLinked (q.sq.take n) = false))
  | .plain .. | .timeout .. | .cancelTimeout _ | .sendZc .. | .connect .. | .ret => .isTrue trivial

/-- The batches so far are whole. -/
def BatchesWhole (q : TimedQueue) : Prop := ∀ batch ∈ q.taken, wholePairs batch = true

theorem batchesWhole_take {q : TimedQueue} (h : q.Sound) (n : Nat) (memory : TimespecPtr → Timespec) :
    (q.take n memory).BatchesWhole ↔ q.BatchesWhole ∧ EndsOutside q (.take n memory) := by
  have hbatches : (q.take n memory).BatchesWhole ↔
      q.BatchesWhole ∧ wholePairs (q.sq.take n) = true := by
    simp only [BatchesWhole, TimedQueue.take, List.mem_append, List.mem_singleton]
    grind
  rw [hbatches]
  refine and_congr_right fun hwhole => ?_
  -- what is left in the queue begins outside a pair, for all batches before did not end in one
  have hsq : wholePairs q.sq = true := by
    have := h.whole
    rwa [submitted, wholePairs_append (wholePairs_flatten hwhole)] at this
  rw [wholePairs_take hsq, Bool.not_eq_true', EndsOutside]

/-! ## Times -/

/-- The kernel takes a time while its call runs, or finds it still in the dead frame. -/
def ReadsGiven (q : TimedQueue) : Act → Prop
  | .take n memory => ∀ p ∈ pointers (q.sq.take n),
      q.live p = true ∨ q.frames[p.frame]? = some (memory p)
  | .plain .. | .timeout .. | .cancelTimeout _ | .sendZc .. | .connect .. | .ret => True

instance (q : TimedQueue) : ∀ a, Decidable (ReadsGiven q a)
  | .take n memory => inferInstanceAs (Decidable (∀ p ∈ pointers (q.sq.take n),
      q.live p = true ∨ q.frames[p.frame]? = some (memory p)))
  | .plain .. | .timeout .. | .cancelTimeout _ | .sendZc .. | .connect .. | .ret => .isTrue trivial

/-- The times that the kernel has read are those that were given. -/
def TimesRead (q : TimedQueue) : Prop := ∀ r ∈ q.reads, q.frames[r.1.frame]? = some r.2

theorem read_eq_iff (memory : TimespecPtr → Timespec) {p : TimespecPtr} {q : TimedQueue}
    (h : p.frame < q.frames.length) :
    q.frames[p.frame]? = some (q.read memory p) ↔
      q.live p = true ∨ q.frames[p.frame]? = some (memory p) := by
  unfold read
  split
  · rename_i hlive
    have hlast : p.frame = q.frames.length - 1 := by
      simp only [live, Bool.and_eq_true, beq_iff_eq] at hlive
      omega
    rw [List.getLast?_eq_getElem?, ← hlast, List.getElem?_eq_getElem h]
    simp [hlive]
  · rename_i hdead
    simp [hdead]

theorem timesRead_take {q : TimedQueue} (h : q.Sound) (n : Nat) (memory : TimespecPtr → Timespec) :
    (q.take n memory).TimesRead ↔ q.TimesRead ∧ ReadsGiven q (.take n memory) := by
  simp only [TimesRead, TimedQueue.take, ReadsGiven, List.mem_append, List.mem_map, or_imp, forall_and]
  apply and_congr_right
  intro _
  constructor
  · intro hall p hp
    exact (read_eq_iff memory (h.frame_lt hp)).mp (hall _ ⟨p, hp, rfl⟩)
  · intro hall r hr
    obtain ⟨p, hp, rfl⟩ := hr
    exact (read_eq_iff memory (h.frame_lt hp)).mpr (hall p hp)

/-- A call changes no frame. -/
theorem timesRead_adds {q t : TimedQueue} {es : List TimedSqe} {fs : List Timespec} (h : q.Sound)
    (hadds : Adds q t es fs) : t.TimesRead ↔ q.TimesRead := by
  unfold TimesRead
  rw [hadds.reads, hadds.frames]
  refine forall₂_congr fun r hr => ?_
  rw [List.getElem?_append_left (h.reads r hr)]

/-! ## Runs -/

theorem step_sound {q t : TimedQueue} {a : Act} (h : q.Sound) (hstep : q.step a = some t) :
    t.Sound ∧ (t.BatchesWhole ↔ q.BatchesWhole ∧ EndsOutside q a) ∧
      (t.TimesRead ↔ q.TimesRead ∧ ReadsGiven q a) := by
  obtain ⟨⟨es, fs, hadds, -⟩, hcall⟩ | ⟨n, memory, rfl, rfl⟩ := step_cases hstep
  · have hout : EndsOutside q a ∧ ReadsGiven q a := by
      cases a with
      | take n memory => exact absurd rfl (hcall n memory)
      | plain | timeout | cancelTimeout | sendZc | connect | ret => exact ⟨trivial, trivial⟩
    refine ⟨h.adds hadds, ?_, ?_⟩
    · rw [BatchesWhole, hadds.taken]
      exact (and_iff_left hout.1).symm
    · rw [timesRead_adds h hadds]
      exact (and_iff_left hout.2).symm
  · exact ⟨h.take n memory, batchesWhole_take h n memory, timesRead_take h n memory⟩

/-- The locals hold the times that the calls were given. -/
theorem run_frames {q t : TimedQueue} {acts : List Act} (h : machine.run q acts = some t) :
    t.frames.map Timespec.nanos = q.frames.map Timespec.nanos ++ acts.flatMap Act.given := by
  induction acts generalizing q with
  | nil =>
    cases h
    simp
  | cons a acts ih =>
    obtain ⟨u, hstep, hrun⟩ := machine.run_cons_eq_some.mp h
    have hfirst : u.frames.map Timespec.nanos = q.frames.map Timespec.nanos ++ a.given := by
      obtain ⟨⟨es, fs, hadds, hgiven⟩, -⟩ | ⟨n, memory, rfl, rfl⟩ := step_cases hstep
      · rw [hadds.frames, List.map_append, hgiven]
      · exact (List.append_nil _).symm
    rw [ih hrun, hfirst, List.flatMap_cons, List.append_assoc]

/-- **Pairs stay together.** In every run, whatever is submitted, however the kernel takes it and whatever
dead frames hold: in everything that was submitted each connect has its own link timeout right behind it, no
half of a pair is ever there alone, every time that an entry points to was one the kernel accepts and as it
was given, and the queue is never overfull. The batches the kernel has taken are made of whole pairs if and
only if none of them ended right behind a connect. The times it has read are those that were given if and
only if it took each entry before the call that pushed it returned, or the dead frame still held its time. -/
theorem pairs_whole_iff {entries : Nat} {registeredFds : Option FixedFdTable} {acts : List Act}
    {t : TimedQueue} (hrun : machine.run (new entries registeredFds) acts = some t) :
    (wholePairs t.submitted = true ∧ Timed t.frames t.submitted ∧
      t.frames.map Timespec.nanos = acts.flatMap Act.given ∧ t.sq.length ≤ t.entries) ∧
    ((∀ batch ∈ t.taken, wholePairs batch = true) ↔
      machine.Meets EndsOutside (new entries registeredFds) acts) ∧
    ((∀ r ∈ t.reads, t.frames[r.1.frame]? = some r.2) ↔
      machine.Meets ReadsGiven (new entries registeredFds) acts) := by
  have hnew : (new entries registeredFds).Sound := ⟨Nat.zero_le _, rfl, nofun, nofun⟩
  have hsound : t.Sound := by
    apply Machine.run_invariant' _ hnew hrun
    intro q a u hq hstep
    exact (step_sound hq hstep).1
  refine ⟨⟨hsound.whole, hsound.timed, run_frames hrun, hsound.room⟩, ?_, ?_⟩
  · have hstep : ∀ q a u, Sound q → machine.step q a = some u →
        u.Sound ∧ (u.BatchesWhole ↔ q.BatchesWhole ∧ EndsOutside q a) := by
      intro q a u hq hu
      exact ⟨(step_sound hq hu).1, (step_sound hq hu).2.1⟩
    exact (Machine.holds_iff_meets hstep hnew hrun).trans (and_iff_right nofun)
  · have hstep : ∀ q a u, Sound q → machine.step q a = some u →
        u.Sound ∧ (u.TimesRead ↔ q.TimesRead ∧ ReadsGiven q a) := by
      intro q a u hq hu
      exact ⟨(step_sound hq hu).1, (step_sound hq hu).2.2⟩
    exact (Machine.holds_iff_meets hstep hnew hrun).trans (and_iff_right nofun)

/-- A polling kernel thread reads the time of the timeout in time; the connect is taken alone, and its
limit is read from a dead frame. -/
def splitRun : List Act :=
  [.timeout 1500000000 7, .take 1 fun _ => ⟨0, 0⟩, .ret, .connect 5 4096 16 2500 1, .take 1 fun _ => ⟨0, 0⟩,
    .ret, .cancelTimeout 7, .take 2 fun _ => ⟨0, 0⟩]

theorem pairs_whole_not_split : ∃ t, machine.run (new 4 none) splitRun = some t ∧
    (¬ ∀ batch ∈ t.taken, wholePairs batch = true) ∧ ¬ ∀ r ∈ t.reads, t.frames[r.1.frame]? = some r.2 := by
  obtain ⟨-, hwhole, hgiven⟩ := pairs_whole_iff
    (show machine.run (new 4 none) splitRun = some _ from rfl)
  exact ⟨_, rfl, fun h => absurd (hwhole.mp h) (by decide), fun h => absurd (hgiven.mp h) (by decide)⟩

end TimedQueue

end Uringcore
