import Uringcore.Core.System

/-!
# What the kernel has, and what keeps it alive

A core that is built gives the kernel the addresses of two pieces of memory: the pool, by `register_buffers`,
and the provided ring, by `register_pbuf_ring`; the entries of the second point into the first. The pool is
kept alive by two references, the core's and one of the ring's own, the provided ring by one.

Here a call is the list of what it does to the memory and to the registrations. Building may fail at every
point, the kernel may refuse to give anything back, and closing the ring takes everything from it.

* `lifetime_safe`: from the first call to the last drop the kernel never has memory that is gone, and in the
  end everything is released.
* `drop_safe_iff`: which orders of the core's fields are safe to drop in. Rust drops them as they are
  declared.
-/

namespace Uringcore

structure Memory where
  ringOpen : Bool
  /-- The kernel has the pool. -/
  kernelBuffers : Bool
  /-- The kernel has the provided ring. -/
  kernelGroup : Bool
  /-- References to the pool, which is mapped as long as there is one. -/
  poolRefs : Nat
  pbufAlive : Bool
  /-- `buffer_pool` of the ring is there, with a reference to the pool. -/
  ringPool : Bool
  /-- `provided_buf_group_id` of the ring is there. -/
  ringGroup : Bool
  deriving DecidableEq, Repr

/-- What the kernel refuses to unregister. -/
structure Refusals where
  buffers : Bool
  group : Bool
  deriving DecidableEq, Repr

/-- The fields of `UringCore` that keep memory the kernel has. -/
inductive CoreField where
  | ring | bufferPool | pbufRing
  deriving DecidableEq, Repr

namespace Memory

/-- Before there is a core, and when it is gone. -/
def fresh : Memory := ⟨false, false, false, 0, false, false, false⟩

inductive Act where
  | openRing
  /-- The instance is closed, and the kernel lets go of everything. -/
  | closeRing
  | mapPool
  | clonePool
  /-- A reference other than the ring's. -/
  | dropPool
  /-- The reference that was passed stays with the ring. -/
  | registerBuffers
  | unregisterBuffers (refused : Bool)
  | dropRingPool
  | allocPbuf
  | freePbuf
  | registerGroup
  | unregisterGroup (refused : Bool)
  | forgetGroup
  deriving DecidableEq, Repr

def step (m : Memory) : Act → Memory
  | .openRing => { m with ringOpen := true }
  | .closeRing => { m with ringOpen := false, kernelBuffers := false, kernelGroup := false }
  | .mapPool => { m with poolRefs := 1 }
  | .clonePool => { m with poolRefs := m.poolRefs + 1 }
  | .dropPool => { m with poolRefs := m.poolRefs - 1 }
  | .registerBuffers => { m with kernelBuffers := true, ringPool := true }
  | .unregisterBuffers refused =>
      if m.ringPool then { m with kernelBuffers := m.kernelBuffers && refused } else m
  | .dropRingPool =>
      if m.ringPool then { m with ringPool := false, poolRefs := m.poolRefs - 1 } else m
  | .allocPbuf => { m with pbufAlive := true }
  | .freePbuf => { m with pbufAlive := false }
  | .registerGroup => { m with kernelGroup := true, ringGroup := true }
  | .unregisterGroup refused =>
      if m.ringGroup then { m with kernelGroup := m.kernelGroup && refused } else m
  | .forgetGroup => { m with ringGroup := false }

def machine : Machine Memory Act := ⟨fun m a => some (m.step a)⟩

/-! ## The calls -/

/-- `Ring::drop`, and then the fields of the ring. -/
def dropRing (r : Refusals) : List Act :=
  [.unregisterBuffers r.buffers, .unregisterGroup r.group, .closeRing, .dropRingPool]

/-- `Ring::shutdown`. -/
def shutdown (r : Refusals) : List Act :=
  [.unregisterBuffers r.buffers, .dropRingPool, .unregisterGroup r.group, .forgetGroup]

/-- The provided ring, which a core can do without. -/
def setupPbuf (setup : Setup) (bufferCount : Nat) : List Act :=
  match PBufRing.new setup.allocPbufRing (UInt16.ofNat (UringCore.nextPowerOfTwo bufferCount)) 1 with
  | none => []
  | some _ => if setup.registerPbufRing then [.allocPbuf, .registerGroup] else [.allocPbuf, .freePbuf]

/-- `UringCore::new`, and whether it returns a core. When it does not, the locals are dropped in the reverse
of their order; a pool that is not registered was passed along and goes first. -/
def construct (setup : Setup) (bufferSize bufferCount : Nat) : List Act × Bool :=
  match setup.ring with
  | .error _ => ([], false)
  | .ok _ => match BufferPool.new setup.mmap bufferSize bufferCount with
    | .error _ => (.openRing :: dropRing ⟨false, false⟩, false)
    | .ok pool => match setup.registerBuffers with
      | .error _ =>
          ([.openRing, .mapPool, .clonePool, .dropPool, .dropPool] ++ dropRing ⟨false, false⟩, false)
      | .ok () =>
          ([.openRing, .mapPool, .clonePool, .registerBuffers] ++ setupPbuf setup pool.bufferCount, true)

def dropField (r : Refusals) : CoreField → List Act
  | .ring => dropRing r
  | .bufferPool => [.dropPool]
  | .pbufRing => [.freePbuf]

/-- The order in which `UringCore` declares them. -/
def coreFields : List CoreField := [.ring, .bufferPool, .pbufRing]

/-- The whole life: the core is built, shut down any number of times, and dropped. -/
def life (setup : Setup) (bufferSize bufferCount : Nat) (shutdowns : List Refusals) (last : Refusals) :
    List Act :=
  match construct setup bufferSize bufferCount with
  | (acts, false) => acts
  | (acts, true) => acts ++ (shutdowns.flatMap shutdown ++ coreFields.flatMap (dropField last))

/-- What the kernel has is there. -/
def Safe (m : Memory) : Prop :=
  (m.kernelBuffers = true → 0 < m.poolRefs) ∧
    (m.kernelGroup = true → 0 < m.poolRefs ∧ m.pbufAlive = true)

/-- Nothing is left, here or in the kernel. -/
def Released (m : Memory) : Prop :=
  m.ringOpen = false ∧ m.kernelBuffers = false ∧ m.kernelGroup = false ∧ m.poolRefs = 0 ∧
    m.pbufAlive = false

instance (m : Memory) : Decidable m.Released := inferInstanceAs (Decidable (_ ∧ _))

instance (m : Memory) : Decidable m.Safe := inferInstanceAs (Decidable (_ ∧ _))

theorem run_eq (m : Memory) (acts : List Act) : machine.run m acts = some (acts.foldl step m) := by
  induction acts generalizing m with
  | nil => rfl
  | cons a acts ih => exact ih (m.step a)

theorem always_cons {m : Memory} {a : Act} {acts : List Act} :
    machine.Always Safe m (a :: acts) ↔ m.Safe ∧ machine.Always Safe (m.step a) acts := by
  constructor
  · intro h
    exact ⟨h.1, h.2 _ rfl⟩
  · intro hboth
    obtain ⟨hm, hrest⟩ := hboth
    refine ⟨hm, fun t ht => ?_⟩
    cases ht
    exact hrest

instance decidableAlways : ∀ (m : Memory) (acts : List Act), Decidable (machine.Always Safe m acts)
  | m, [] => inferInstanceAs (Decidable m.Safe)
  | m, a :: acts =>
    have : Decidable (machine.Always Safe (m.step a) acts) := decidableAlways (m.step a) acts
    decidable_of_iff (m.Safe ∧ machine.Always Safe (m.step a) acts) always_cons.symm

theorem always_append {m : Memory} {acts more : List Act} : machine.Always Safe m (acts ++ more) ↔
    machine.Always Safe m acts ∧ machine.Always Safe (acts.foldl step m) more :=
  Machine.always_append more (run_eq m acts)

/-! ## A core that has been built -/

/-- The references and the kernel's part, while there is a core. -/
structure Live (m : Memory) : Prop where
  ringOpen : m.ringOpen = true
  poolRefs : m.poolRefs = if m.ringPool then 2 else 1
  pbufAlive : m.kernelGroup = true → m.pbufAlive = true

theorem Live.safe {m : Memory} (h : m.Live) : m.Safe := by
  have hpos : 0 < m.poolRefs := by
    rw [h.poolRefs]
    split <;> decide
  exact ⟨fun _ => hpos, fun hgroup => ⟨hpos, h.pbufAlive hgroup⟩⟩

/-- Building a core ends with a live one, or with nothing. -/
theorem construct_spec (setup : Setup) (bufferSize bufferCount : Nat) :
    machine.Always Safe fresh (construct setup bufferSize bufferCount).1 ∧
      if (construct setup bufferSize bufferCount).2 then
        ((construct setup bufferSize bufferCount).1.foldl step fresh).Live
      else ((construct setup bufferSize bufferCount).1.foldl step fresh).Released := by
  unfold construct
  split
  · exact ⟨show machine.Always Safe fresh [] by decide,
      show Released ([].foldl step fresh) by decide⟩
  · split
    · exact ⟨show machine.Always Safe fresh (.openRing :: dropRing ⟨false, false⟩) by decide,
        show Released ((.openRing :: dropRing ⟨false, false⟩).foldl step fresh) by decide⟩
    · split
      · exact ⟨show machine.Always Safe fresh
            ([.openRing, .mapPool, .clonePool, .dropPool, .dropPool] ++ dropRing ⟨false, false⟩) by decide,
          show Released (List.foldl step fresh
            ([.openRing, .mapPool, .clonePool, .dropPool, .dropPool] ++ dropRing ⟨false, false⟩)) by decide⟩
      · -- the provided ring is not there, is refused, or is registered
        unfold setupPbuf
        split
        · exact ⟨show machine.Always Safe fresh
            [.openRing, .mapPool, .clonePool, .registerBuffers] by decide,
            rfl, rfl, fun h => by cases h⟩
        · split
          · exact ⟨show machine.Always Safe fresh
              [.openRing, .mapPool, .clonePool, .registerBuffers, .allocPbuf, .registerGroup] by decide,
              rfl, rfl, fun _ => rfl⟩
          · exact ⟨show machine.Always Safe fresh
              [.openRing, .mapPool, .clonePool, .registerBuffers, .allocPbuf, .freePbuf] by decide,
              rfl, rfl, fun h => by cases h⟩

/-- What a shutdown does. -/
def isShutdown : Act → Bool
  | .unregisterBuffers _ | .dropRingPool | .unregisterGroup _ | .forgetGroup => true
  | .openRing | .closeRing | .mapPool | .clonePool | .dropPool | .registerBuffers | .allocPbuf
  | .freePbuf | .registerGroup => false

theorem Live.step {m : Memory} {a : Act} (h : m.Live) (ha : isShutdown a) : (m.step a).Live := by
  cases a with
  | unregisterBuffers refused =>
    simp only [Memory.step]
    split
    · exact ⟨h.ringOpen, h.poolRefs, h.pbufAlive⟩
    · exact h
  | dropRingPool =>
    simp only [Memory.step]
    split
    · rename_i hpool
      refine ⟨h.ringOpen, ?_, h.pbufAlive⟩
      rw [h.poolRefs, hpool]
      rfl
    · exact h
  | unregisterGroup refused =>
    simp only [Memory.step]
    split
    · refine ⟨h.ringOpen, h.poolRefs, fun hgroup => h.pbufAlive ?_⟩
      rw [Bool.and_eq_true] at hgroup
      exact hgroup.1
    · exact h
  | forgetGroup => exact ⟨h.ringOpen, h.poolRefs, h.pbufAlive⟩
  | openRing | closeRing | mapPool | clonePool | dropPool | registerBuffers | allocPbuf | freePbuf
  | registerGroup => cases ha

/-- A shutdown leaves a live core, whatever the kernel refuses. -/
theorem Live.shutdowns {m : Memory} {acts : List Act} (h : m.Live) (hacts : ∀ a ∈ acts, isShutdown a) :
    machine.Always Safe m acts ∧ (acts.foldl Memory.step m).Live := by
  induction acts generalizing m with
  | nil => exact ⟨h.safe, h⟩
  | cons a acts ih =>
    have hnext := h.step (hacts a List.mem_cons_self)
    obtain ⟨hsafe, hlive⟩ := ih hnext fun b hb => hacts b (List.mem_cons_of_mem a hb)
    exact ⟨always_cons.mpr ⟨h.safe, hsafe⟩, hlive⟩

theorem isShutdown_shutdowns {shutdowns : List Refusals} :
    ∀ a ∈ shutdowns.flatMap shutdown, isShutdown a := by
  intro a ha
  obtain ⟨r, -, ha⟩ := List.mem_flatMap.mp ha
  simp only [shutdown, List.mem_cons, List.not_mem_nil, or_false] at ha
  obtain rfl | rfl | rfl | rfl := ha <;> rfl

/-! ## Dropping it -/

/-- What only takes from the process. -/
def isRelease : Act → Bool
  | .dropPool | .freePbuf => true
  | .openRing | .closeRing | .mapPool | .clonePool | .registerBuffers | .unregisterBuffers _
  | .dropRingPool | .allocPbuf | .registerGroup | .unregisterGroup _ | .forgetGroup => false

/-- What is safe afterwards was safe before. -/
theorem safe_of_release {m : Memory} {a : Act} (ha : isRelease a) (h : (m.step a).Safe) : m.Safe := by
  cases a with
  | dropPool =>
    have hpos (h : 0 < m.poolRefs - 1) : 0 < m.poolRefs := Nat.lt_of_lt_of_le h (Nat.sub_le _ _)
    exact ⟨fun hbuffers => hpos (h.1 hbuffers), fun hgroup => ⟨hpos (h.2 hgroup).1, (h.2 hgroup).2⟩⟩
  | freePbuf => exact ⟨h.1, fun hgroup => absurd (h.2 hgroup).2 (by simp [Memory.step])⟩
  | openRing | closeRing | mapPool | clonePool | registerBuffers | unregisterBuffers | dropRingPool
  | allocPbuf | registerGroup | unregisterGroup | forgetGroup => cases ha

theorem always_release {m : Memory} {acts : List Act} (hacts : ∀ a ∈ acts, isRelease a) :
    machine.Always Safe m acts ↔ (acts.foldl Memory.step m).Safe := by
  induction acts generalizing m with
  | nil => exact Iff.rfl
  | cons a acts ih =>
    have ih := ih (m := m.step a) fun b hb => hacts b (List.mem_cons_of_mem a hb)
    rw [always_cons, ih, List.foldl_cons, and_iff_right_iff_imp]
    intro hend
    exact safe_of_release (hacts a List.mem_cons_self) (ih.mpr hend).head

/-- The kernel has nothing. -/
def Closed (m : Memory) : Prop := m.kernelBuffers = false ∧ m.kernelGroup = false

theorem Closed.safe {m : Memory} (h : m.Closed) : m.Safe :=
  ⟨fun hbuffers => absurd (h.1.symm.trans hbuffers) (by decide),
    fun hgroup => absurd (h.2.symm.trans hgroup) (by decide)⟩

theorem Closed.dropRingPool {m : Memory} (h : m.Closed) : (m.step .dropRingPool).Closed := by
  simp only [step]
  split
  · exact h
  · exact h

/-- After the ring is closed anything may go. -/
theorem Closed.always {m : Memory} {acts : List Act} (h : m.Closed) (hacts : ∀ a ∈ acts, isRelease a) :
    machine.Always Safe m acts := by
  induction acts generalizing m with
  | nil => exact h.safe
  | cons a acts ih =>
    refine always_cons.mpr ⟨h.safe, ih ?_ fun b hb => hacts b (List.mem_cons_of_mem a hb)⟩
    have ha := hacts a List.mem_cons_self
    cases a with
    | dropPool | freePbuf => exact h
    | openRing | closeRing | mapPool | clonePool | registerBuffers | unregisterBuffers | dropRingPool
    | allocPbuf | registerGroup | unregisterGroup | forgetGroup => cases ha

/-- Taking a registration back leaves memory as it is. -/
theorem Safe.unregister {m : Memory} (h : m.Safe) (refused : Bool) :
    (m.step (.unregisterBuffers refused)).Safe ∧ (m.step (.unregisterGroup refused)).Safe := by
  constructor
  · simp only [step]
    split
    · refine ⟨fun hbuffers => h.1 ?_, h.2⟩
      rw [Bool.and_eq_true] at hbuffers
      exact hbuffers.1
    · exact h
  · simp only [step]
    split
    · refine ⟨h.1, fun hgroup => h.2 ?_⟩
      rw [Bool.and_eq_true] at hgroup
      exact hgroup.1
    · exact h

/-- Dropping the ring is safe when it is begun safely, and so is everything after it. -/
theorem always_dropRing {m : Memory} {acts : List Act} (h : m.Safe) (r : Refusals)
    (hacts : ∀ a ∈ acts, isRelease a) : machine.Always Safe m (dropRing r ++ acts) := by
  have hbuffers := (h.unregister r.buffers).1
  have hgroup := (hbuffers.unregister r.group).2
  have hclosed : (((m.step (.unregisterBuffers r.buffers)).step (.unregisterGroup r.group)).step
      .closeRing).Closed := ⟨rfl, rfl⟩
  rw [dropRing, List.cons_append, List.cons_append, List.cons_append, List.cons_append,
    List.nil_append, always_cons, always_cons, always_cons, always_cons]
  exact ⟨h, hbuffers, hgroup, hclosed.safe, hclosed.dropRingPool.always hacts⟩

theorem isRelease_dropField {fields : List CoreField} (hring : CoreField.ring ∉ fields) (r : Refusals) :
    ∀ a ∈ fields.flatMap (dropField r), isRelease a := by
  intro a ha
  obtain ⟨field, hfield, ha⟩ := List.mem_flatMap.mp ha
  cases field with
  | ring => exact absurd hfield hring
  | bufferPool | pbufRing =>
    obtain rfl := List.mem_singleton.mp ha
    rfl

/-- The memory when some fields other than the ring have been dropped. -/
theorem dropField_memory {fields : List CoreField} (hring : CoreField.ring ∉ fields) (r : Refusals)
    (m : Memory) : (fields.flatMap (dropField r)).foldl step m = { m with
      poolRefs := m.poolRefs - fields.count .bufferPool
      pbufAlive := m.pbufAlive && decide (CoreField.pbufRing ∉ fields) } := by
  induction fields generalizing m with
  | nil => simp
  | cons field fields ih =>
    have hrest : CoreField.ring ∉ fields := fun h => hring (List.mem_cons_of_mem field h)
    rw [List.flatMap_cons, List.foldl_append, ih hrest]
    cases field with
    | ring => exact absurd List.mem_cons_self hring
    | bufferPool => simp [dropField, step, Nat.sub_sub, Nat.add_comm]
    | pbufRing => simp [dropField, step]

/-- **The order of the fields.** In every state a core can be in, however often it was shut down and whatever
the kernel refused, dropping its fields in a given order is safe if and only if the ring goes before the
pool, when the kernel has something of it and the ring has given its own reference away, and before the
provided ring, when the kernel has that. -/
theorem drop_safe_iff {setup : Setup} {bufferSize bufferCount : Nat} {shutdowns : List Refusals}
    {m : Memory} (hbuilt : (construct setup bufferSize bufferCount).2 = true)
    (hrun : machine.run fresh
      ((construct setup bufferSize bufferCount).1 ++ shutdowns.flatMap shutdown) = some m)
    {order : List CoreField} (horder : order.Perm coreFields) (last : Refusals) :
    machine.Always Safe m (order.flatMap (dropField last)) ↔
      ((m.kernelBuffers = true ∨ m.kernelGroup = true) → m.ringPool = false →
        order.idxOf .ring < order.idxOf .bufferPool) ∧
      (m.kernelGroup = true → order.idxOf .ring < order.idxOf .pbufRing) := by
  have hlive : m.Live := by
    have hnew := (construct_spec setup bufferSize bufferCount).2
    rw [if_pos hbuilt] at hnew
    rw [run_eq, List.foldl_append, Option.some_inj] at hrun
    rw [← hrun]
    exact (hnew.shutdowns isShutdown_shutdowns).2
  have hnodup : order.Nodup := horder.nodup_iff.mpr (by decide)
  obtain ⟨pre, post, rfl⟩ := List.append_of_mem (horder.mem_iff.mpr (by decide : CoreField.ring ∈ coreFields))
  have hpre : CoreField.ring ∉ pre := by
    intro hmem
    exact (List.nodup_append.mp hnodup).2.2 _ hmem _ List.mem_cons_self rfl
  have hpost : CoreField.ring ∉ post := (List.nodup_cons.mp (List.nodup_append.mp hnodup).2.1).1
  -- a field goes before the ring, or after it
  have hbefore (field : CoreField) (hne : field ≠ .ring) (hmem : field ∈ coreFields) :
      (pre ++ .ring :: post).idxOf .ring < (pre ++ .ring :: post).idxOf field ↔ field ∉ pre := by
    rw [List.idxOf_append_of_notMem hpre, List.idxOf_cons_self, Nat.add_zero]
    by_cases hfield : field ∈ pre
    · rw [List.idxOf_append_of_mem hfield]
      have := List.idxOf_lt_length_of_mem hfield
      exact iff_of_false (by omega) (not_not_intro hfield)
    · rw [List.idxOf_append_of_notMem hfield, List.idxOf_cons_ne _ hne.symm]
      exact iff_of_true (by omega) hfield
  -- before the ring things are only taken away, and what comes after it does not matter
  have hring : machine.Always Safe m ((pre ++ .ring :: post).flatMap (dropField last)) ↔
      ((pre.flatMap (dropField last)).foldl step m).Safe := by
    rw [List.flatMap_append, always_append, always_release (isRelease_dropField hpre last),
      and_iff_left_iff_imp]
    intro hsafe
    exact always_dropRing hsafe last (isRelease_dropField hpost last)
  rw [hring, hbefore .bufferPool (by decide) (by decide), hbefore .pbufRing (by decide) (by decide),
    dropField_memory hpre]
  have hrefs : m.poolRefs - pre.count .bufferPool =
      (if m.ringPool then 2 else 1) - (if CoreField.bufferPool ∈ pre then 1 else 0) := by
    rw [hlive.poolRefs, (List.nodup_append.mp hnodup).1.count]
  have halive := hlive.pbufAlive
  unfold Safe
  rw [hrefs]
  by_cases hpool : CoreField.bufferPool ∈ pre <;> by_cases hpbuf : CoreField.pbufRing ∈ pre <;>
    cases hringPool : m.ringPool <;> cases hbuffers : m.kernelBuffers <;>
    cases hgroup : m.kernelGroup <;> simp_all

/-- The kernel keeps the pool at the shutdown: then the pool may not go first. -/
theorem drop_safe_not_poolFirst :
    ∃ m, machine.run fresh ((construct .plain 16 2).1 ++ [⟨true, false⟩].flatMap shutdown) = some m ∧
      ¬ machine.Always Safe m ([.bufferPool, .pbufRing, .ring].flatMap (dropField ⟨false, false⟩)) := by
  have hiff := drop_safe_iff (show (construct .plain 16 2).2 = true from rfl)
    (show machine.run fresh ((construct .plain 16 2).1 ++ [⟨true, false⟩].flatMap shutdown) = some _
      from rfl)
    (show [CoreField.bufferPool, .pbufRing, .ring].Perm coreFields by decide) ⟨false, false⟩
  exact ⟨_, rfl, fun h => absurd ((hiff.mp h).1 (.inl rfl) rfl) (by decide)⟩

/-! ## From the first call to the last -/

/-- Both models of `new` give a core for the same answers, with a provided ring for the same ones. -/
theorem construct_new (F H T : Type) (setup : Setup) (bufferSize bufferCount : Nat) :
    match (UringCore.new setup bufferSize bufferCount : Except PyErr (UringCore F H T)) with
    | .error _ => (construct setup bufferSize bufferCount).2 = false
    | .ok core => (construct setup bufferSize bufferCount).2 = true ∧
        ((construct setup bufferSize bufferCount).1.foldl step fresh).kernelGroup =
          core.pbufRing.isSome := by
  unfold UringCore.new construct
  cases setup.ring with
  | error e => rfl
  | ok entries =>
    dsimp only
    cases BufferPool.new setup.mmap bufferSize bufferCount with
    | error e => rfl
    | ok pool =>
      dsimp only
      cases setup.registerBuffers with
      | error e => rfl
      | ok u =>
        refine ⟨rfl, ?_⟩
        unfold setupPbuf UringCore.setupPbufRing
        dsimp only
        cases PBufRing.new setup.allocPbufRing
            (UInt16.ofNat (UringCore.nextPowerOfTwo pool.bufferCount)) 1 with
        | none => rfl
        | some pr =>
          dsimp only
          split
          · rfl
          · rfl

/-- A live core is dropped. -/
theorem Live.drop {m : Memory} (h : m.Live) (last : Refusals) :
    machine.Always Safe m (coreFields.flatMap (dropField last)) ∧
      ((coreFields.flatMap (dropField last)).foldl Memory.step m).Released := by
  constructor
  · exact always_dropRing h.safe last
      (show ∀ a ∈ [Act.dropPool, .freePbuf], isRelease a = true by decide)
  · have hrefs := h.poolRefs
    cases hpool : m.ringPool <;> cases hgroup : m.ringGroup <;>
      simp_all [coreFields, dropField, dropRing, Memory.step, Released]

/-- **Nothing the kernel has is ever gone.** Whatever fails while a core is built, however often it is shut
down and whatever the kernel refuses then and when it is dropped: at every moment what the kernel has is
there, and in the end everything is released. -/
theorem lifetime_safe (setup : Setup) (bufferSize bufferCount : Nat) (shutdowns : List Refusals)
    (last : Refusals) :
    machine.Always Safe fresh (life setup bufferSize bufferCount shutdowns last) ∧
    ∃ m, machine.run fresh (life setup bufferSize bufferCount shutdowns last) = some m ∧ m.Released := by
  obtain ⟨hsafe, hend⟩ := construct_spec setup bufferSize bufferCount
  unfold life
  split
  · rename_i acts hfailed
    rw [hfailed] at hsafe hend
    exact ⟨hsafe, _, run_eq _ _, hend⟩
  · rename_i acts hbuilt
    rw [hbuilt] at hsafe hend
    have hacts : ∀ a ∈ shutdowns.flatMap shutdown, isShutdown a := isShutdown_shutdowns
    obtain ⟨hshut, hlive⟩ := Live.shutdowns hend hacts
    obtain ⟨hdrop, hreleased⟩ := hlive.drop last
    refine ⟨always_append.mpr ⟨hsafe, always_append.mpr ⟨hshut, hdrop⟩⟩, _, run_eq _ _, ?_⟩
    rw [List.foldl_append, List.foldl_append]
    exact hreleased

end Memory

end Uringcore
