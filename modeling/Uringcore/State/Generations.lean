import Mathlib.Data.List.Basic
import Uringcore.Lib.Machine
import Uringcore.State

/-!
# Which descriptors are usable

The manager decides by two counters: the generation stored when a descriptor was registered and its
own. What they stand for can be told from the calls alone: a descriptor is *usable* when it was
registered after the last `increment_generation` and has not been unregistered since (`Usable`).

`with_state`, `with_state_mut`, `pause_reading` and `resume_reading` compare the counters and so
decide alike (`Accepts`); `should_submit_recv` compares nothing. Over a run the two views agree
exactly as long as every call is `Permitted`: nobody is left willing to receive when the generation
moves on, the counter does not come round to a generation that is still stored, and no update
overwrites the stored one.
-/

namespace Uringcore.FDStateManager

/-- A call of the manager. A `with_state` changes nothing, so its function is left out here. -/
inductive Call where
  | register (fd : Fd) (socketType : SocketType)
  | unregister (fd : Fd)
  | incrementGeneration
  | pauseReading (fd : Fd)
  | resumeReading (fd : Fd)
  | withState (fd : Fd)
  | withStateMut (fd : Fd) (f : FDState → FDState)

/-- The manager after an update: a refusal returns before anything is written. -/
def updated (m : FDStateManager) : Except Error FDStateManager → FDStateManager
  | .ok m' => m'
  | .error _ => m

def after (m : FDStateManager) : Call → FDStateManager
  | .register fd socketType => m.register fd socketType
  | .unregister fd => (m.unregister fd).1
  | .incrementGeneration => m.incrementGeneration.1
  | .pauseReading fd => m.updated (m.pauseReading fd)
  | .resumeReading fd => m.updated (m.resumeReading fd)
  | .withState _ => m
  | .withStateMut fd f => m.updated (m.withStateMut fd f)

/-- The call is answered with an error. -/
def Refuses (m : FDStateManager) : Call → Prop
  | .register .. | .unregister _ | .incrementGeneration => False
  | .pauseReading fd => ∃ e, m.pauseReading fd = .error e
  | .resumeReading fd => ∃ e, m.resumeReading fd = .error e
  | .withState fd => ∃ e, m.withState fd (fun _ => ()) = .error e
  | .withStateMut fd f => ∃ e, m.withStateMut fd f = .error e

theorem Refuses.after_eq {m : FDStateManager} {call : Call} (h : m.Refuses call) :
    m.after call = m := by
  cases call with
  | register fd socketType => cases h
  | unregister fd => cases h
  | incrementGeneration => cases h
  | withState fd => rfl
  | pauseReading fd =>
    obtain ⟨e, he⟩ := h
    rw [after, he]
    rfl
  | resumeReading fd =>
    obtain ⟨e, he⟩ := h
    rw [after, he]
    rfl
  | withStateMut fd f =>
    obtain ⟨e, he⟩ := h
    rw [after, he]
    rfl

/-! ## What the counters say -/

/-- The descriptor is registered, under the generation of the manager. -/
def Accepts (m : FDStateManager) (fd : Fd) : Prop :=
  ∃ st, m.states.lookup fd = some st ∧ st.generationId = m.generationId

theorem isOk_withState {R : Type} {m : FDStateManager} {fd : Fd} {f : FDState → R} :
    (m.withState fd f).isOk ↔ m.Accepts fd := by
  unfold withState Accepts
  cases hst : m.states.lookup fd with
  | none => simp [Except.isOk, Except.toBool]
  | some st =>
    by_cases hgen : st.generationId = m.generationId
    · simp [FDState.isValidGeneration, hgen, Except.isOk, Except.toBool]
    · simp [FDState.isValidGeneration, hgen, Except.isOk, Except.toBool]

/-- An update is a read whose answer goes back into the table. -/
theorem withStateMut_eq (m : FDStateManager) (fd : Fd) (f : FDState → FDState) :
    m.withStateMut fd f =
      (m.withState fd f).map fun st => { m with states := m.states.insert fd st } := by
  unfold withStateMut withState
  cases m.states.lookup fd with
  | none => rfl
  | some st =>
    dsimp only
    split
    · rfl
    · rfl

theorem isOk_withStateMut {m : FDStateManager} {fd : Fd} {f : FDState → FDState} :
    (m.withStateMut fd f).isOk ↔ m.Accepts fd := by
  have hmap : (m.withStateMut fd f).isOk = (m.withState fd f).isOk := by
    rw [withStateMut_eq]
    cases m.withState fd f with
    | ok st => rfl
    | error e => rfl
  rw [hmap, isOk_withState]

/-- An update is refused, or goes to the state of an accepted descriptor. -/
theorem updated_withStateMut (m : FDStateManager) (fd : Fd) (f : FDState → FDState) :
    (¬ m.Accepts fd ∧ m.updated (m.withStateMut fd f) = m) ∨
    ∃ st, m.states.lookup fd = some st ∧ st.generationId = m.generationId ∧
      m.updated (m.withStateMut fd f) = { m with states := m.states.insert fd (f st) } := by
  cases hr : m.withStateMut fd f with
  | error e =>
    refine .inl ⟨?_, rfl⟩
    rintro ⟨st, hst, hgen⟩
    exact withStateMut_error hr st hst hgen
  | ok m' =>
    have hok : (m.withStateMut fd f).isOk := by
      rw [hr]
      rfl
    obtain ⟨st, hst, hgen⟩ := isOk_withStateMut.mp hok
    obtain ⟨st', hst', rfl⟩ := withStateMut_ok hr
    obtain rfl := Option.some_inj.mp (hst.symm.trans hst')
    exact .inr ⟨st, hst, hgen, rfl⟩

theorem shouldSubmitRecv_iff {m : FDStateManager} {fd : Fd} :
    m.shouldSubmitRecv fd ↔ ∃ st, m.states.lookup fd = some st ∧ st.shouldSubmitRecv := by
  unfold shouldSubmitRecv
  cases m.states.lookup fd with
  | none => simp
  | some st => simp

/-! ## What the calls say -/

/-- Registered after the last `increment_generation`, and not unregistered since. -/
def Usable (calls : List Call) (fd : Fd) : Prop :=
  ∃ before socketType since, calls = before ++ .register fd socketType :: since ∧
    .incrementGeneration ∉ since ∧ .unregister fd ∉ since

theorem not_usable_nil (fd : Fd) : ¬ Usable [] fd := by
  rintro ⟨before, socketType, since, h, -, -⟩
  cases before <;> cases h

/-- A registration makes usable, and only an unregistration or a new generation ends it. -/
theorem usable_append {calls : List Call} {call : Call} {fd : Fd} :
    Usable (calls ++ [call]) fd ↔ (∃ socketType, call = .register fd socketType) ∨
      Usable calls fd ∧ call ≠ .incrementGeneration ∧ call ≠ .unregister fd := by
  constructor
  · rintro ⟨before, socketType, since, h, hinc, hun⟩
    -- the last call is the registration itself, or one of those since
    rcases List.eq_nil_or_concat since with rfl | ⟨since', last, rfl⟩
    · exact .inl ⟨socketType, List.singleton_inj.mp (List.append_inj_right' h rfl)⟩
    · rw [List.concat_eq_append] at h hinc hun
      rw [← List.cons_append, ← List.append_assoc] at h
      obtain ⟨hcalls, hlast⟩ := List.append_inj' h rfl
      obtain rfl := List.singleton_inj.mp hlast
      rw [List.mem_append, not_or] at hinc hun
      refine .inr ⟨⟨before, socketType, since', hcalls, hinc.1, hun.1⟩, ?_, ?_⟩
      · exact fun heq => hinc.2 (List.mem_singleton.mpr heq.symm)
      · exact fun heq => hun.2 (List.mem_singleton.mpr heq.symm)
  · rintro (⟨socketType, rfl⟩ | ⟨⟨before, socketType, since, rfl, hinc, hun⟩, hne, hne'⟩)
    · exact ⟨calls, socketType, [], rfl, List.not_mem_nil, List.not_mem_nil⟩
    · refine ⟨before, socketType, since ++ [call], by simp, ?_, ?_⟩
      · rw [List.mem_append, List.mem_singleton, not_or]
        exact ⟨hinc, fun heq => hne heq.symm⟩
      · rw [List.mem_append, List.mem_singleton, not_or]
        exact ⟨hun, fun heq => hne' heq.symm⟩

/-! ## Runs -/

/-- The manager and the calls it has had. -/
structure Called where
  calls : List Call
  manager : FDStateManager

def calling : Machine Called Call where
  step s call := some ⟨s.calls ++ [call], s.manager.after call⟩

def Called.init : Called := ⟨[], .new⟩

/-- What the manager answers is what the calls say. -/
structure GenerationLaw (s : Called) : Prop where
  withState : ∀ (R : Type) (f : FDState → R) (fd : Fd),
    (s.manager.withState fd f).isOk ↔ Usable s.calls fd
  withStateMut : ∀ (f : FDState → FDState) (fd : Fd),
    (s.manager.withStateMut fd f).isOk ↔ Usable s.calls fd
  pauseReading : ∀ fd, (s.manager.pauseReading fd).isOk ↔ Usable s.calls fd
  resumeReading : ∀ fd, (s.manager.resumeReading fd).isOk ↔ Usable s.calls fd
  shouldSubmitRecv : ∀ fd, s.manager.shouldSubmitRecv fd → Usable s.calls fd
  refused : ∀ call, s.manager.Refuses call → s.manager.after call = s.manager

/-- Four of the answers are one comparison, so the law is about two predicates. -/
theorem generationLaw_iff {s : Called} :
    GenerationLaw s ↔ (∀ fd, s.manager.Accepts fd ↔ Usable s.calls fd) ∧
      ∀ fd, s.manager.shouldSubmitRecv fd → Usable s.calls fd := by
  constructor
  · intro h
    refine ⟨fun fd => ?_, h.shouldSubmitRecv⟩
    rw [← isOk_withStateMut (f := id)]
    exact h.withStateMut id fd
  · rintro ⟨haccepts, hrecv⟩
    exact {
      withState := fun R f fd => isOk_withState.trans (haccepts fd)
      withStateMut := fun f fd => isOk_withStateMut.trans (haccepts fd)
      pauseReading := fun fd => isOk_withStateMut.trans (haccepts fd)
      resumeReading := fun fd => isOk_withStateMut.trans (haccepts fd)
      shouldSubmitRecv := hrecv
      refused := fun call hcall => hcall.after_eq }

/-- The generation moves on only while every registered descriptor is paused or out of credit and
none is stored under the generation it moves to, and an update leaves the stored generation. -/
def Permitted (s : Called) : Call → Prop
  | .incrementGeneration => ∀ fd st, s.manager.states.lookup fd = some st →
      st.shouldSubmitRecv = false ∧ st.generationId ≠ s.manager.generationId + 1
  | .withStateMut fd f => ∀ st, s.manager.states.lookup fd = some st →
      st.generationId = s.manager.generationId → (f st).generationId = st.generationId
  | .register .. | .unregister _ | .pauseReading _ | .resumeReading _ | .withState _ => True

/-! ## One call -/

section
variable {m m' : FDStateManager} {fd fd' : Fd}

/-- Both predicates read the entry of the descriptor and the generation, nothing else. -/
theorem accepts_congr (hstates : m'.states.lookup fd = m.states.lookup fd)
    (hgen : m'.generationId = m.generationId) : m'.Accepts fd ↔ m.Accepts fd := by
  rw [Accepts, Accepts, hstates, hgen]

theorem shouldSubmitRecv_congr (hstates : m'.states.lookup fd = m.states.lookup fd) :
    m'.shouldSubmitRecv fd = m.shouldSubmitRecv fd := by
  rw [shouldSubmitRecv, shouldSubmitRecv, hstates]

theorem accepts_register (socketType : SocketType) : (m.register fd socketType).Accepts fd :=
  ⟨.new m.generationId socketType, AList.lookup_insert .., rfl⟩

theorem lookup_unregister : (m.unregister fd).1.states.lookup fd = none :=
  AList.lookup_erase ..

/-- What is about the descriptor of the call alone decides whether the law goes on: the others, and
the calls that are about them, stay as they are. -/
theorem generationLaw_of_lookup {s : Called} {call : Call} (fd : Fd) (h : GenerationLaw s)
    (hgen : (s.manager.after call).generationId = s.manager.generationId)
    (hother : ∀ fd', fd' ≠ fd →
      (s.manager.after call).states.lookup fd' = s.manager.states.lookup fd' ∧
        (Usable (s.calls ++ [call]) fd' ↔ Usable s.calls fd')) :
    GenerationLaw ⟨s.calls ++ [call], s.manager.after call⟩ ↔
      ((s.manager.after call).Accepts fd ↔ Usable (s.calls ++ [call]) fd) ∧
        ((s.manager.after call).shouldSubmitRecv fd → Usable (s.calls ++ [call]) fd) := by
  obtain ⟨haccepts, hrecv⟩ := generationLaw_iff.mp h
  rw [generationLaw_iff]
  constructor
  · intro h'
    exact ⟨h'.1 fd, h'.2 fd⟩
  · rintro ⟨hfd, hfdrecv⟩
    refine ⟨fun fd' => ?_, fun fd' => ?_⟩
    · by_cases heq : fd' = fd
      · rw [heq]
        exact hfd
      · obtain ⟨hlookup, husable⟩ := hother fd' heq
        rw [accepts_congr hlookup hgen, husable]
        exact haccepts fd'
    · by_cases heq : fd' = fd
      · rw [heq]
        exact hfdrecv
      · obtain ⟨hlookup, husable⟩ := hother fd' heq
        rw [shouldSubmitRecv_congr hlookup, husable]
        exact hrecv fd'

end

section
variable {s : Called} {fd fd' : Fd}

theorem law_register (h : GenerationLaw s) (socketType : SocketType) :
    GenerationLaw ⟨s.calls ++ [.register fd socketType],
      s.manager.after (.register fd socketType)⟩ := by
  have husable : Usable (s.calls ++ [.register fd socketType]) fd :=
    usable_append.mpr (.inl ⟨socketType, rfl⟩)
  refine (generationLaw_of_lookup fd h rfl fun fd' hne => ⟨?_, ?_⟩).mpr ⟨?_, ?_⟩
  · exact AList.lookup_insert_ne hne
  · rw [usable_append]
    simp [Ne.symm hne]
  · exact iff_of_true (accepts_register socketType) husable
  · exact fun _ => husable

theorem law_unregister (h : GenerationLaw s) :
    GenerationLaw ⟨s.calls ++ [.unregister fd], s.manager.after (.unregister fd)⟩ := by
  have hlookup : (s.manager.after (.unregister fd)).states.lookup fd = none := lookup_unregister
  refine (generationLaw_of_lookup fd h rfl fun fd' hne => ⟨?_, ?_⟩).mpr ⟨?_, ?_⟩
  · exact AList.lookup_erase_ne hne
  · rw [usable_append]
    simp [Ne.symm hne]
  · rw [Accepts, hlookup, usable_append]
    simp
  · rw [shouldSubmitRecv, hlookup]
    simp

/-- After the generation has moved on no descriptor is usable, so the law says that none is accepted
and none is willing to receive. -/
theorem law_incrementGeneration :
    GenerationLaw ⟨s.calls ++ [.incrementGeneration], s.manager.after .incrementGeneration⟩ ↔
      Permitted s .incrementGeneration := by
  have hnone : ∀ fd, ¬ Usable (s.calls ++ [.incrementGeneration]) fd := by
    intro fd husable
    rcases usable_append.mp husable with ⟨socketType, hcall⟩ | ⟨-, hne, -⟩
    · cases hcall
    · exact hne rfl
  rw [generationLaw_iff]
  constructor
  · rintro ⟨haccepts, hrecv⟩ fd st hst
    refine ⟨?_, fun hgen => hnone fd ((haccepts fd).mp ⟨st, hst, hgen⟩)⟩
    rw [← Bool.not_eq_true]
    exact fun hwilling => hnone fd (hrecv fd (shouldSubmitRecv_iff.mpr ⟨st, hst, hwilling⟩))
  · intro hpermitted
    refine ⟨fun fd => iff_of_false ?_ (hnone fd), fun fd hwilling => absurd hwilling ?_⟩
    · rintro ⟨st, hst, hgen⟩
      exact (hpermitted fd st hst).2 hgen
    · intro hwilling
      obtain ⟨st, hst, hrecv⟩ := shouldSubmitRecv_iff.mp hwilling
      rw [(hpermitted fd st hst).1] at hrecv
      cases hrecv

/-- A call that leaves the manager and ends nobody's use leaves the law. -/
theorem law_of_unchanged {call : Call} (h : GenerationLaw s)
    (husable : ∀ fd, Usable (s.calls ++ [call]) fd ↔ Usable s.calls fd) :
    GenerationLaw ⟨s.calls ++ [call], s.manager⟩ := by
  rw [generationLaw_iff] at h ⊢
  refine ⟨fun fd => ?_, fun fd => ?_⟩
  · rw [husable]
    exact h.1 fd
  · rw [husable]
    exact h.2 fd

/-- An update of an accepted descriptor keeps it usable, so it has to keep it accepted. -/
theorem law_withStateMut {call : Call} (fd : Fd) (f : FDState → FDState) (h : GenerationLaw s)
    (hcall : s.manager.after call = s.manager.updated (s.manager.withStateMut fd f))
    (husable : ∀ fd, Usable (s.calls ++ [call]) fd ↔ Usable s.calls fd) :
    GenerationLaw ⟨s.calls ++ [call], s.manager.after call⟩ ↔
      ∀ st, s.manager.states.lookup fd = some st →
        st.generationId = s.manager.generationId → (f st).generationId = st.generationId := by
  rcases updated_withStateMut s.manager fd f with ⟨hrefused, heq⟩ | ⟨st, hst, hgen, heq⟩
  · -- a refused update: nothing is asked of it
    rw [hcall, heq]
    refine iff_of_true (law_of_unchanged h husable) fun st hst hgen => ?_
    exact absurd ⟨st, hst, hgen⟩ hrefused
  · rw [heq] at hcall
    have hfd : Usable s.calls fd := ((generationLaw_iff.mp h).1 fd).mp ⟨st, hst, hgen⟩
    have hlookup : (s.manager.after call).states.lookup fd = some (f st) := by
      rw [hcall]
      exact AList.lookup_insert ..
    have hgen' : (s.manager.after call).generationId = s.manager.generationId := by
      rw [hcall]
    rw [generationLaw_of_lookup fd h hgen']
    · rw [husable]
      constructor
      · rintro ⟨haccepts, -⟩ st₁ hst₁ -
        obtain rfl := Option.some_inj.mp (hst.symm.trans hst₁)
        obtain ⟨st', hst', hst'gen⟩ := haccepts.mpr hfd
        obtain rfl := Option.some_inj.mp (hlookup.symm.trans hst')
        rw [hst'gen, hgen', hgen]
      · intro hkeeps
        refine ⟨iff_of_true ⟨f st, hlookup, ?_⟩ hfd, fun _ => hfd⟩
        rw [hkeeps st hst hgen, hgen', hgen]
    · intro fd' hne
      refine ⟨?_, husable fd'⟩
      rw [hcall]
      exact AList.lookup_insert_ne hne

/-- **The step lemma.** From a state with the law, exactly the permitted calls lead to one. -/
theorem generationLaw_step {call : Call} (h : GenerationLaw s) :
    GenerationLaw ⟨s.calls ++ [call], s.manager.after call⟩ ↔ Permitted s call := by
  cases call with
  | register fd socketType => exact iff_of_true (law_register h socketType) trivial
  | unregister fd => exact iff_of_true (law_unregister h) trivial
  | incrementGeneration => exact law_incrementGeneration
  | pauseReading fd =>
    refine (law_withStateMut fd .pause h rfl fun fd' => ?_).trans
      (iff_of_true (fun _ _ _ => rfl) trivial)
    rw [usable_append]
    simp
  | resumeReading fd =>
    refine (law_withStateMut fd .resume h rfl fun fd' => ?_).trans
      (iff_of_true (fun _ _ _ => rfl) trivial)
    rw [usable_append]
    simp
  | withState fd =>
    refine iff_of_true (law_of_unchanged h fun fd' => ?_) trivial
    rw [usable_append]
    simp
  | withStateMut fd f =>
    refine law_withStateMut fd f h rfl fun fd' => ?_
    rw [usable_append]
    simp

end

theorem generationLaw_init : GenerationLaw .init := by
  rw [generationLaw_iff]
  refine ⟨fun fd => iff_of_false ?_ (not_usable_nil fd), fun fd hwilling => absurd hwilling ?_⟩
  · rintro ⟨st, hst, -⟩
    cases hst
  · intro hwilling
    obtain ⟨st, hst, -⟩ := shouldSubmitRecv_iff.mp hwilling
    cases hst

/-- The manager never stops. -/
theorem calling_run (s : Called) (calls : List Call) : ∃ t, calling.run s calls = some t := by
  induction calls generalizing s with
  | nil => exact ⟨s, rfl⟩
  | cons call calls ih => exact ih ⟨s.calls ++ [call], s.manager.after call⟩

/-- After every call of a sequence the answers are what the calls so far say, if and only if every
one of them was permitted when it was made. -/
theorem generationLaw_iff_permitted (calls : List Call) :
    calling.Always GenerationLaw .init calls ↔ calling.Meets Permitted .init calls := by
  obtain ⟨t, hrun⟩ := calling_run .init calls
  refine Machine.always_iff_meets (I := fun _ => True) ?_ trivial generationLaw_init hrun
  rintro s call _ - h ⟨⟩
  exact ⟨trivial, generationLaw_step h⟩

/-- A descriptor registered before the generation moved on is still offered for receiving. -/
theorem stale_descriptor_offered :
    ¬ calling.Always GenerationLaw .init [.register 5 .tcpStream, .incrementGeneration] := by
  intro h
  have hlaw : GenerationLaw _ := (h.2 _ rfl).2 _ rfl
  have husable := hlaw.shouldSubmitRecv 5 (by decide)
  rcases usable_append.mp husable with ⟨socketType, hcall⟩ | ⟨-, hne, -⟩
  · cases hcall
  · exact hne rfl

end Uringcore.FDStateManager
