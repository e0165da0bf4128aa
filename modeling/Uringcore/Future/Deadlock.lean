import Uringcore.Future

/-!
# Deadlocks of a future

Where no finaliser runs, the order of the locks is enough: the thread in the state lock never waits,
and the one in the callbacks lock waits for the state lock at most. A finaliser that
`remove_done_callback` runs is inside the callbacks lock. A call of this future that begins meanwhile
waits for that lock for ever if it comes to it: the finaliser's own call because its thread has the
lock, another thread's because it keeps the GIL. `noDeadlock_iff` says that there is no other deadlock.
-/

namespace Uringcore

/-- The call comes to the callbacks lock. -/
def FutureCall.takesCallbacks {V C X : Type} (state : FutureState V) : FutureCall V C X → Bool
  | complete _ => state.isPending
  | addDoneCallback _ | removeDoneCallback _ => true

namespace Pc
variable {V C X : Type} [DecidableEq C]

def finalizes : Pc V C X → Bool
  | finalizing .. => true
  | _ => false

/-- The call is going to wait for the callbacks lock. -/
def seeks (state : FutureState V) : Pc V C X → Prop
  | addLockCallbacks _ | removeLock _ | unlockState | lockCallbacks => True
  | lockState _ | checkState _ => state = .pending
  | finalizing _ inner => inner.seeks state
  | _ => False

/-- The call needs the callbacks lock no more, or not at all. -/
def passes (state : FutureState V) : Pc V C X → Prop
  | idle | schedule _ => True
  | lockState _ | checkState _ => state ≠ .pending
  | finalizing _ inner => inner.passes state
  | _ => False

omit [DecidableEq C] in
theorem passes.not_seeks {pc : Pc V C X} {state : FutureState V} (h : pc.passes state) :
    ¬ pc.seeks state := by
  induction pc with
  | finalizing dropped inner ih => exact ih h
  | idle | schedule drained => exact id
  | lockState call | checkState call => exact h
  | _ => cases h

omit [DecidableEq C] in
theorem passes_of_outside {pc : Pc V C X} (h : pc.outside = true) (state : FutureState V) :
    pc.passes state := by
  cases pc with
  | idle | schedule drained => trivial
  | _ => cases h

omit [DecidableEq C] in
theorem start_seeks {c : FutureCall V C X} {state : FutureState V}
    (h : c.takesCallbacks state = true) : (start c).seeks state := by
  cases c with
  | complete call => exact FutureState.isPending_iff.mp h
  | addDoneCallback entry | removeDoneCallback func => trivial

omit [DecidableEq C] in
theorem start_passes {c : FutureCall V C X} {state : FutureState V}
    (h : ¬ c.takesCallbacks state = true) : (start c).passes state := by
  cases c with
  | complete call => exact fun hpending => h (FutureState.isPending_iff.mpr hpending)
  | addDoneCallback entry | removeDoneCallback func => exact absurd rfl h

/-- A thread that runs a finaliser goes on with it or comes out of it. -/
theorem next_finalizes {i : Nat} {pc pc' : Pc V C X} {fut fut' : UringFuture V C X}
    (h : next i pc fut = some (fut', pc')) (hfinalizes : pc'.finalizes = true) :
    pc.finalizes = true := by
  cases pc with
  | idle => cases h
  | finalizing dropped inner => rfl
  | lockState | lockCallbacks | addLockCallbacks | addLockState | removeLock =>
    simp only [next, Option.ite_none_right_eq_some] at h
    cases h.2
    cases hfinalizes
  | checkState call | addCheck entry =>
    cases hset : fut.state <;> simp only [next, hset] at h <;> cases h <;> cases hfinalizes
  | schedule list | removeDrop list => cases list <;> cases h <;> cases hfinalizes
  | _ =>
    cases h
    cases hfinalizes

omit [DecidableEq C] in
/-- Finalisers do not nest. -/
theorem finalizes_of_nested {inner : Pc V C X} (h : inner.holdsCallbacks = false) :
    inner.finalizes = false ∧ inner.Nested := by
  cases inner with
  | finalizing dropped inner => cases h
  | _ => exact ⟨rfl, trivial⟩

/-- A call that passes goes on passing and leaves the future as it is, but a finaliser may be through. -/
theorem next_passes {i : Nat} {pc pc' : Pc V C X} {fut fut' : UringFuture V C X}
    (h : next i pc fut = some (fut', pc')) (hnested : pc.Nested) (hpasses : pc.passes fut.state) :
    fut'.state = fut.state ∧
      (pc'.passes fut.state ∨ pc.finalizes = true ∧ pc'.finalizes = false) := by
  induction pc generalizing pc' with
  | idle => cases h
  | schedule drained =>
    cases drained <;> cases h <;> exact ⟨rfl, .inl trivial⟩
  | lockState call =>
    simp only [next, Option.ite_none_right_eq_some] at h
    cases h.2
    exact ⟨rfl, .inl hpasses⟩
  | checkState call =>
    cases hset : fut.state with
    | pending => exact absurd hset hpasses
    | finished | failed | cancelled =>
      simp only [next, hset] at h
      cases h
      exact ⟨rfl, .inl trivial⟩
  | finalizing dropped inner ih =>
    obtain ⟨rfl, rfl, rfl⟩ | ⟨inner', hinner, rfl⟩ := next_finalizing h
    · exact ⟨rfl, .inr ⟨rfl, rfl⟩⟩
    · obtain ⟨hnot, hnested'⟩ := finalizes_of_nested hnested
      obtain ⟨hstate, hpasses' | ⟨hfinalizes, -⟩⟩ := ih hinner hnested' hpasses
      · exact ⟨hstate, .inl hpasses'⟩
      · exact absurd (hnot.symm.trans hfinalizes) (by decide)
  | _ => cases hpasses

/-- A call that seeks the callbacks lock goes on seeking it while another one has it; or it completes
the future. -/
theorem next_seeks {i : Nat} {pc pc' : Pc V C X} {fut fut' : UringFuture V C X}
    (h : next i pc fut = some (fut', pc')) (hlock : fut.callbacksLock ≠ none)
    (hseeks : pc.seeks fut.state) : pc'.seeks fut'.state := by
  induction pc generalizing pc' with
  | idle => cases h
  | lockCallbacks | addLockCallbacks entry | removeLock func =>
    simp only [next, Option.ite_none_right_eq_some] at h
    exact absurd h.1 hlock
  | lockState call =>
    simp only [next, Option.ite_none_right_eq_some] at h
    cases h.2
    exact hseeks
  | checkState call =>
    have hpending : fut.state = .pending := hseeks
    simp only [next, hpending] at h
    cases h
    trivial
  | unlockState =>
    cases h
    trivial
  | finalizing dropped inner ih =>
    obtain ⟨rfl, rfl, rfl⟩ | ⟨inner', hinner, rfl⟩ := next_finalizing h
    · cases hseeks
    · have hinner' := ih hinner hseeks
      exact hinner'
  | _ => cases hseeks

/-- A step that changes the state is that of a call which then seeks the callbacks lock. -/
theorem next_state {i : Nat} {pc pc' : Pc V C X} {fut fut' : UringFuture V C X}
    (h : next i pc fut = some (fut', pc')) :
    fut'.state = fut.state ∨ pc'.seeks fut'.state := by
  induction pc generalizing pc' with
  | idle => cases h
  | finalizing dropped inner ih =>
    obtain ⟨rfl, rfl, rfl⟩ | ⟨inner', hinner, rfl⟩ := next_finalizing h
    · exact .inl rfl
    · exact (ih hinner).imp_right id
  | lockState | lockCallbacks | addLockCallbacks | addLockState | removeLock =>
    simp only [next, Option.ite_none_right_eq_some] at h
    cases h.2
    exact .inl rfl
  | checkState call =>
    cases hset : fut.state <;> simp only [next, hset] at h <;> cases h
    · exact .inr trivial
    · exact .inl rfl
    · exact .inl rfl
    · exact .inl rfl
  | addCheck entry =>
    cases hset : fut.state <;> simp only [next, hset] at h <;> cases h
    · exact .inl rfl
    · exact .inl hset
    · exact .inl hset
    · exact .inl hset
  | schedule list | removeDrop list => cases list <;> cases h <;> exact .inl rfl
  | _ =>
    cases h
    exact .inl rfl

/-- Only the two locks can keep a call from going on. -/
theorem next_isSome {i : Nat} {pc : Pc V C X} {fut : UringFuture V C X} (hidle : pc ≠ .idle)
    (hnot : pc.finalizes = false) (hstate : fut.stateLock = none ∨ pc.holdsState)
    (hcallbacks : fut.callbacksLock = none ∨ pc.holdsCallbacks ∨ pc.holdsState) :
    (pc.next i fut).isSome := by
  cases pc with
  | idle => exact absurd rfl hidle
  | finalizing => cases hnot
  | checkState call => cases hset : fut.state <;> simp [next, hset]
  | addCheck entry => cases hset : fut.state <;> simp [next, hset]
  | schedule list | removeDrop list => cases list <;> rfl
  | lockState | lockCallbacks | addLockCallbacks | addLockState | removeLock =>
    simp_all [next, holdsState, holdsCallbacks]
  | _ => rfl

/-- A call that passes waits for the state lock at most. -/
theorem passes.next_isSome {i : Nat} {pc : Pc V C X} {fut : UringFuture V C X}
    (h : pc.passes fut.state) (hidle : pc ≠ .idle)
    (hstate : fut.stateLock = none ∨ pc.holdsState) : (pc.next i fut).isSome := by
  induction pc with
  | idle => exact absurd rfl hidle
  | finalizing dropped inner ih =>
    by_cases hinner : inner = .idle
    · rw [hinner]
      rfl
    · rw [next]
      · rw [Option.isSome_map]
        exact ih h hinner hstate
      · exact hinner
  | lockState call => simp_all [next, holdsState]
  | checkState call => cases hset : fut.state <;> simp [next, hset]
  | schedule list => cases list <;> rfl
  | _ => cases h

end Pc

namespace UringFuture
variable {V C X : Type} [DecidableEq C]

/-! ## What deadlocks are -/

/-- The calls in progress go on: no call begins. -/
def Act.goesOn : Act V C X → Bool
  | advance _ | finalize _ => true
  | call .. => false

/-- However the calls in progress go on, one of them can go on until all have returned. -/
def NoDeadlock (t : Threads (UringFuture V C X) (Pc V C X)) : Prop :=
  ∀ acts u, (Machine.mk step).run t acts = some u → (∀ a ∈ acts, a.goesOn = true) →
    (∃ pc ∈ u.locals, pc ≠ .idle) → ∃ i, (step u (.advance i)).isSome

/-- While a finaliser runs in `remove_done_callback`, no call begins that comes to the callbacks lock:
neither a call of its own nor one of a thread that gets the GIL meanwhile. -/
def KeepsFree (x : Threads (UringFuture V C X) (Pc V C X) × List (Event V C X)) :
    Act V C X → Prop
  | .call _ c => x.1.locals.any Pc.finalizes = true → ¬ c.takesCallbacks x.1.shared.state = true
  | .advance _ | .finalize _ => True

instance (x : Threads (UringFuture V C X) (Pc V C X) × List (Event V C X)) :
    ∀ a, Decidable (KeepsFree x a)
  | .call .. => inferInstanceAs (Decidable (_ → ¬ _))
  | .advance _ | .finalize _ => isTrue trivial

/-- While a finaliser runs, no call needs the callbacks lock. -/
def Free (s : Threads (UringFuture V C X) (Pc V C X)) : Prop :=
  (∃ pc ∈ s.locals, pc.finalizes = true) → ∀ pc ∈ s.locals, pc.passes s.shared.state

/-- A finaliser runs, and a call waits or is going to wait for the lock that its thread has. -/
def Stuck (s : Threads (UringFuture V C X) (Pc V C X)) : Prop :=
  (∃ pc ∈ s.locals, pc.finalizes = true) ∧ ∃ pc ∈ s.locals, pc.seeks s.shared.state

omit [DecidableEq C] in
theorem Free.not_stuck {s : Threads (UringFuture V C X) (Pc V C X)} (h : Free s) : ¬ Stuck s :=
  fun ⟨hfinalizes, pc, hpc, hseeks⟩ => (h hfinalizes pc hpc).not_seeks hseeks

section
variable {s t : Threads (UringFuture V C X) (Pc V C X)} {past : List (Event V C X)}
  {a : Act V C X}

omit [DecidableEq C] in
/-- Finalisers run in one thread at most: it has the callbacks lock. -/
theorem Consistent.finalizes_lock (h : Consistent s past) {i : Nat} {pc : Pc V C X}
    (hi : s.locals[i]? = some pc) (hfinalizes : pc.finalizes = true) :
    s.shared.callbacksLock = some i := by
  cases pc with
  | finalizing dropped inner => exact (h.locks i _ hi).2.2.mp rfl
  | _ => cases hfinalizes

omit [DecidableEq C] in
theorem hasGil_iff {i : Nat} :
    hasGil i s = true ↔ ∀ j pc, j ≠ i → s.locals[j]? = some pc → pc.outside = true := by
  simp only [hasGil, List.all_eq_true, List.mem_eraseIdx_iff_getElem?]
  constructor
  · intro h j pc hj hpc
    exact h pc ⟨j, hj, hpc⟩
  · rintro h pc ⟨j, hj, hpc⟩
    exact h j pc hj hpc

/-! ### Runs without a deadlock -/

theorem Free.step (h : Free s) (hs : Consistent s past) (hkeeps : KeepsFree (s, past) a)
    (hstep : step s a = some t) : Free t := by
  cases step_cases hstep with
  | @call i c pc pc' hi hbegins =>
    rintro ⟨p, hp, hfinalizes⟩
    have hbefore : ∃ p ∈ s.locals, p.finalizes = true := by
      rcases List.mem_or_eq_of_mem_set hp with hold | rfl
      · exact ⟨p, hold, hfinalizes⟩
      · cases hbegins with
        | plain => cases c <;> cases hfinalizes
        | nested dropped hgil => exact ⟨_, List.mem_of_getElem? hi, rfl⟩
    have hstart := Pc.start_passes (hkeeps (List.any_eq_true.mpr hbefore))
    intro q hq
    rcases List.mem_or_eq_of_mem_set hq with hold | rfl
    · exact h hbefore q hold
    · cases hbegins with
      | plain => exact hstart
      | nested dropped hgil => exact hstart
  | @advance i pc pc' fut' hi hnext hgil =>
    rintro ⟨p, hp, hfinalizes⟩
    have hbefore : ∃ p ∈ s.locals, p.finalizes = true := by
      rcases List.mem_or_eq_of_mem_set hp with hold | rfl
      · exact ⟨p, hold, hfinalizes⟩
      · exact ⟨pc, List.mem_of_getElem? hi, Pc.next_finalizes hnext hfinalizes⟩
    obtain ⟨hstate, hpasses⟩ :=
      Pc.next_passes hnext (hs.locks i pc hi).1 (h hbefore pc (List.mem_of_getElem? hi))
    intro q hq
    show q.passes fut'.state
    rw [hstate]
    rcases List.mem_or_eq_of_mem_set hq with hold | rfl
    · exact h hbefore q hold
    rcases hpasses with hpasses | ⟨hbefore', hafter⟩
    · exact hpasses
    -- the one thread that has run a finaliser is out of it
    obtain ⟨j, hj⟩ := List.mem_iff_getElem?.mp hp
    by_cases hij : i = j
    · subst hij
      rw [List.getElem?_set_self (List.getElem?_eq_some_iff.mp hi).1] at hj
      cases hj
      exact absurd (hafter.symm.trans hfinalizes) (by decide)
    · rw [List.getElem?_set_ne hij] at hj
      have hlock := (hs.finalizes_lock hi hbefore').symm.trans (hs.finalizes_lock hj hfinalizes)
      exact absurd (Option.some_inj.mp hlock) hij
  | @finalize i func context dropped hi hgil =>
    intro hfinalizes q hq
    obtain ⟨j, hj⟩ := List.mem_iff_getElem?.mp hq
    by_cases hij : i = j
    · subst hij
      rw [List.getElem?_set_self (List.getElem?_eq_some_iff.mp hi).1] at hj
      cases hj
      trivial
    · rw [List.getElem?_set_ne hij] at hj
      exact Pc.passes_of_outside (hasGil_iff.mp hgil j q (Ne.symm hij) hj) _

theorem advance_isSome {i : Nat} {pc : Pc V C X} (hi : s.locals[i]? = some pc)
    (hgil : ∀ dropped, pc = .finalizing dropped .idle → hasGil i s = true)
    (hsome : (pc.next i s.shared).isSome) : (UringFuture.step s (.advance i)).isSome := by
  obtain ⟨r, hr⟩ := Option.isSome_iff_exists.mp hsome
  have hmove : (s.advance Pc.next i).isSome := by simp [Threads.advance, hi, hr]
  simp only [UringFuture.step]
  split
  · rename_i dropped heq
    rw [hi] at heq
    rw [if_pos (hgil dropped (Option.some_inj.mp heq))]
    exact hmove
  · exact hmove

omit [DecidableEq C] in
/-- Who holds the state lock is in a call. -/
theorem Consistent.stateHolder (hs : Consistent s past) {k : Nat} (hk : s.shared.stateLock = some k) :
    ∃ pc, s.locals[k]? = some pc ∧ pc.holdsState = true ∧ pc ≠ .idle ∧
      ∀ dropped, pc ≠ .finalizing dropped .idle := by
  obtain ⟨pc, hpc⟩ : ∃ pc, s.locals[k]? = some pc :=
    ⟨_, List.getElem?_eq_getElem (hs.holders k (.inl hk))⟩
  have hholds : pc.holdsState = true := (hs.locks k pc hpc).2.1.mpr hk
  refine ⟨pc, hpc, hholds, ?_, ?_⟩
  · rintro rfl
    cases hholds
  · rintro dropped rfl
    cases hholds

/-- While a finaliser runs, a call goes on that waits for the state lock at most, or else the finaliser. -/
theorem Free.progress_finalizing (h : Free s) (hs : Consistent s past)
    (hfinalizes : ∃ pc ∈ s.locals, pc.finalizes = true) :
    ∃ i, (UringFuture.step s (.advance i)).isSome := by
  have hpasses := h hfinalizes
  by_cases hcall : ∃ (j : Nat) (pc : Pc V C X), s.locals[j]? = some pc ∧ pc.outside = false ∧
      ∀ dropped, pc ≠ .finalizing dropped .idle
  · cases hstate : s.shared.stateLock with
    | some k =>
      obtain ⟨pc, hk, hholds, hidle, hnot⟩ := hs.stateHolder hstate
      exact ⟨k, advance_isSome hk (fun dropped heq => absurd heq (hnot dropped))
        ((hpasses pc (List.mem_of_getElem? hk)).next_isSome hidle (.inr hholds))⟩
    | none =>
      obtain ⟨j, pc, hj, houtside, hnot⟩ := hcall
      have hidle : pc ≠ .idle := by
        rintro rfl
        cases houtside
      exact ⟨j, advance_isSome hj (fun dropped heq => absurd heq (hnot dropped))
        ((hpasses pc (List.mem_of_getElem? hj)).next_isSome hidle (.inl hstate))⟩
  · -- the finaliser is in no call, and nobody keeps the GIL from it
    push Not at hcall
    obtain ⟨pc, hpc, hfin⟩ := hfinalizes
    obtain ⟨k, hk⟩ := List.mem_iff_getElem?.mp hpc
    have houtside : pc.outside = false := by
      cases pc with
      | finalizing dropped inner => rfl
      | _ => cases hfin
    obtain ⟨dropped, rfl⟩ := hcall k pc hk houtside
    refine ⟨k, advance_isSome hk (fun _ _ => hasGil_iff.mpr fun j q hjk hj => ?_) rfl⟩
    by_contra hnot
    obtain ⟨dropped', rfl⟩ := hcall j q hj (Bool.eq_false_of_not_eq_true hnot)
    have hlock := (hs.finalizes_lock hj rfl).symm.trans (hs.finalizes_lock hk rfl)
    exact hjk (Option.some_inj.mp hlock)

/-- The locks are taken in one order: who holds the state lock goes on, or else who holds the callbacks
lock, or else anybody. -/
theorem Consistent.progress (hs : Consistent s past)
    (hplain : ∀ pc ∈ s.locals, pc.finalizes = false) (hbusy : ∃ pc ∈ s.locals, pc ≠ .idle) :
    ∃ i, (UringFuture.step s (.advance i)).isSome := by
  have hnot {i : Nat} {pc : Pc V C X} (hpc : pc ∈ s.locals) (dropped : List (Registration C X))
      (heq : pc = .finalizing dropped .idle) : hasGil i s = true := by
    subst heq
    cases hplain _ hpc
  cases hstate : s.shared.stateLock with
  | some k =>
    obtain ⟨pc, hk, hholds, hidle, -⟩ := hs.stateHolder hstate
    have hpc := List.mem_of_getElem? hk
    exact ⟨k, advance_isSome hk (hnot hpc)
      (Pc.next_isSome hidle (hplain pc hpc) (.inr hholds) (.inr (.inr hholds)))⟩
  | none =>
    cases hcallbacks : s.shared.callbacksLock with
    | some k =>
      obtain ⟨pc, hk⟩ : ∃ pc, s.locals[k]? = some pc :=
        ⟨_, List.getElem?_eq_getElem (hs.holders k (.inr hcallbacks))⟩
      have hholds : pc.holdsCallbacks = true := (hs.locks k pc hk).2.2.mpr hcallbacks
      have hidle : pc ≠ .idle := by
        rintro rfl
        cases hholds
      have hpc := List.mem_of_getElem? hk
      exact ⟨k, advance_isSome hk (hnot hpc)
        (Pc.next_isSome hidle (hplain pc hpc) (.inl hstate) (.inr (.inl hholds)))⟩
    | none =>
      obtain ⟨pc, hpc, hidle⟩ := hbusy
      obtain ⟨i, hi⟩ := List.mem_iff_getElem?.mp hpc
      exact ⟨i, advance_isSome hi (hnot hpc)
        (Pc.next_isSome hidle (hplain pc hpc) (.inl hstate) (.inl hcallbacks))⟩

/-- **No deadlock.** While a call is going on, some thread can take its next step. -/
theorem Free.progress (h : Free s) (hs : Consistent s past) (hbusy : ∃ pc ∈ s.locals, pc ≠ .idle) :
    ∃ i, (UringFuture.step s (.advance i)).isSome := by
  by_cases hfinalizes : ∃ pc ∈ s.locals, pc.finalizes = true
  · exact h.progress_finalizing hs hfinalizes
  · refine hs.progress (fun pc hpc => ?_) hbusy
    exact Bool.eq_false_of_not_eq_true fun hfin => hfinalizes ⟨pc, hpc, hfin⟩

/-! ### Runs with a deadlock -/

omit [DecidableEq C] in
/-- Where a finaliser runs in one thread, it does so after a step of another one. -/
theorem exists_finalizes_set {i k : Nat} {pc pc' p : Pc V C X} (hi : s.locals[i]? = some pc)
    (hk : s.locals[k]? = some p) (hp : p.finalizes = true) (hik : i = k → pc'.finalizes = true) :
    ∃ q ∈ s.locals.set i pc', q.finalizes = true := by
  by_cases heq : i = k
  · exact ⟨pc', List.mem_set (List.getElem?_eq_some_iff.mp hi).1 _, hik heq⟩
  · refine ⟨p, List.mem_iff_getElem?.mpr ⟨k, ?_⟩, hp⟩
    rw [List.getElem?_set_ne heq]
    exact hk

theorem stuck_of_call {i : Nat} {c : FutureCall V C X}
    (hfinalizes : s.locals.any Pc.finalizes = true)
    (htakes : c.takesCallbacks s.shared.state = true) (hstep : step s (.call i c) = some t) :
    Stuck t := by
  obtain ⟨p, hp, hfin⟩ := List.any_eq_true.mp hfinalizes
  obtain ⟨k, hk⟩ := List.mem_iff_getElem?.mp hp
  cases step_cases hstep with
  | @call _ _ pc pc' hi hbegins =>
    have hseeks : pc'.seeks s.shared.state := by
      cases hbegins with
      | plain => exact Pc.start_seeks htakes
      | nested dropped hgil => exact Pc.start_seeks htakes
    refine ⟨exists_finalizes_set hi hk hfin ?_, pc', ?_, hseeks⟩
    · rintro rfl
      rw [hk] at hi
      cases hi
      cases hbegins with
      | plain => cases hfin
      | nested dropped hgil => rfl
    · exact List.mem_set (List.getElem?_eq_some_iff.mp hi).1 _

/-- The lock is never given back, so the call waits for ever. -/
theorem Stuck.step (h : Stuck s) (hs : Consistent s past) (hstep : step s a = some t) : Stuck t := by
  obtain ⟨⟨p, hp, hfin⟩, q, hq, hseeks⟩ := h
  obtain ⟨k, hk⟩ := List.mem_iff_getElem?.mp hp
  obtain ⟨j, hj⟩ := List.mem_iff_getElem?.mp hq
  have hlock := hs.finalizes_lock hk hfin
  have hself {i : Nat} {pc' : Pc V C X} {pc : Pc V C X} (hi : s.locals[i]? = some pc) :
      pc' ∈ s.locals.set i pc' := List.mem_set (List.getElem?_eq_some_iff.mp hi).1 _
  have hother {i : Nat} {pc' : Pc V C X} (hij : i ≠ j) : q ∈ s.locals.set i pc' := by
    refine List.mem_iff_getElem?.mpr ⟨j, ?_⟩
    rw [List.getElem?_set_ne hij]
    exact hj
  cases step_cases hstep with
  | @call i c pc pc' hi hbegins =>
    refine ⟨exists_finalizes_set hi hk hfin ?_, q, hother ?_, hseeks⟩
    · rintro rfl
      rw [hk] at hi
      cases hi
      cases hbegins with
      | plain => cases hfin
      | nested dropped hgil => rfl
    · rintro rfl
      rw [hj] at hi
      cases hi
      cases hbegins with
      | plain => exact hseeks
      | nested dropped hgil => exact hseeks
  | @advance i pc pc' fut' hi hnext hgil =>
    refine ⟨exists_finalizes_set hi hk hfin ?_, ?_⟩
    · rintro rfl
      rw [hk] at hi
      cases hi
      cases p with
      | finalizing dropped inner =>
        obtain ⟨rfl, -, -⟩ | ⟨inner', -, rfl⟩ := Pc.next_finalizing hnext
        · -- the finaliser cannot return: the call keeps the GIL, or is its own
          by_cases hij : j = i
          · subst hij
            rw [hk] at hj
            cases hj
            cases hseeks
          · have houtside := hasGil_iff.mp (hgil dropped rfl) j q hij hj
            exact absurd hseeks (Pc.passes_of_outside houtside _).not_seeks
        · rfl
      | _ => cases hfin
    · have hne : s.shared.callbacksLock ≠ none := by
        rw [hlock]
        rintro ⟨⟩
      by_cases hij : i = j
      · subst hij
        rw [hj] at hi
        cases hi
        exact ⟨pc', hself hj, Pc.next_seeks hnext hne hseeks⟩
      · rcases Pc.next_state hnext with hstate | hseeks'
        · refine ⟨q, hother hij, ?_⟩
          rw [hstate]
          exact hseeks
        · exact ⟨pc', hself hi, hseeks'⟩
  | @finalize i func context dropped hi hgil =>
    have hown : s.shared.callbacksLock = some i := (hs.locks i _ hi).2.2.mp rfl
    obtain rfl := Option.some_inj.mp (hown.symm.trans hlock)
    rw [hk] at hi
    cases hi
    cases hfin

end

/-! ### Every call in progress ends -/

/-- How many steps a call has before it at most; listed callbacks are counted where they are. -/
def rank : Pc V C X → Nat
  | .idle => 0
  | .lockState _ | .addLockCallbacks _ => 7
  | .checkState _ | .addLockState _ => 6
  | .unlockState | .addCheck _ => 5
  | .lockCallbacks | .addDropCallbacks _ => 4
  | .drain | .addDropState _ | .removeLock _ => 3
  | .unlockCallbacks drained => drained.length + 2
  | .schedule drained => drained.length + 1
  | .addUnlockState | .removeRetain _ => 2
  | .removeDrop dropped => dropped.length + 1
  | .finalizing dropped inner => dropped.length + 2 + rank inner
  | .addUnlockCallbacks => 1

/-- The steps that all calls in progress have before them at most. -/
def remaining (s : Threads (UringFuture V C X) (Pc V C X)) : Nat :=
  (s.locals.map rank).sum + s.shared.callbacks.length

theorem next_rank {i : Nat} {pc pc' : Pc V C X} {fut fut' : UringFuture V C X}
    (h : pc.next i fut = some (fut', pc')) :
    rank pc' + fut'.callbacks.length < rank pc + fut.callbacks.length := by
  induction pc generalizing pc' with
  | idle => cases h
  | finalizing dropped inner ih =>
    obtain ⟨rfl, rfl, rfl⟩ | ⟨inner', hinner, rfl⟩ := Pc.next_finalizing h
    · simp only [rank]
      omega
    · have hrank := ih hinner
      simp only [rank]
      omega
  | lockState | lockCallbacks | addLockCallbacks | addLockState | removeLock =>
    simp only [Pc.next, Option.ite_none_right_eq_some] at h
    cases h.2
    simp [rank]
  | checkState call =>
    cases hset : fut.state <;> simp only [Pc.next, hset] at h <;> cases h <;> simp [rank]
  | addCheck entry =>
    cases hset : fut.state <;> simp only [Pc.next, hset] at h <;> cases h
    · simp only [rank, List.length_append, List.length_singleton]
      omega
    · simp [rank]
    · simp [rank]
    · simp [rank]
  | schedule list | removeDrop list => cases list <;> cases h <;> simp [rank]
  | removeRetain func =>
    cases h
    have hsplit := (List.filter_append_perm (·.1 = func) fut.callbacks).length_eq
    have hrest : fut.callbacks.filter (fun x => decide (x.1 ≠ func)) =
        fut.callbacks.filter fun x => !decide (x.1 = func) :=
      List.filter_congr fun x _ => decide_not ..
    rw [List.length_append] at hsplit
    simp only [rank, hrest]
    omega
  | _ =>
    cases h
    simp [rank]
    try omega

/-- Every step of a call in progress brings all calls nearer to their end. -/
theorem remaining_lt {s t : Threads (UringFuture V C X) (Pc V C X)} {i : Nat}
    (h : step s (.advance i) = some t) : remaining t < remaining s := by
  cases step_cases h with
  | @advance _ pc pc' fut' hi hnext hgil =>
    have hsum := Threads.sum_map_set hi pc' rank
    have hrank := next_rank hnext
    simp only [remaining]
    omega

/-- The calls in progress go on until none of them can. -/
theorem exists_exhausted (s : Threads (UringFuture V C X) (Pc V C X)) :
    ∃ acts u, (Machine.mk step).run s acts = some u ∧ (∀ a ∈ acts, a.goesOn = true) ∧
      ∀ i, step u (.advance i) = none := by
  induction hn : remaining s using Nat.strongRecOn generalizing s with
  | _ n ih =>
    by_cases hstop : ∀ i, step s (.advance i) = none
    · exact ⟨[], s, rfl, by simp, hstop⟩
    · push Not at hstop
      obtain ⟨i, hi⟩ := hstop
      obtain ⟨t, ht⟩ := Option.ne_none_iff_exists'.mp hi
      obtain ⟨acts, u, hrun, hacts, hu⟩ := ih _ (hn ▸ remaining_lt ht) t rfl
      refine ⟨.advance i :: acts, u, ?_, ?_, hu⟩
      · exact (Machine.run_cons_eq_some _).mpr ⟨t, ht, hrun⟩
      · exact List.forall_mem_cons.mpr ⟨rfl, hacts⟩

/-! ## The calls of a future -/

section
variable {n : Nat} {t : Threads (UringFuture V C X) (Pc V C X)} {past : List (Event V C X)}
  {acts : List (Act V C X)}

/-- A deadlock, or the certainty of one, comes from nothing but a call that begins while a finaliser
runs. -/
theorem noDeadlock_iff (hrun : machine.run (start n) acts = some (t, past)) :
    NoDeadlock t ↔ machine.Meets KeepsFree (start n) acts := by
  have hinit : Free (start (V := V) (C := C) (X := X) n).1 := by
    rintro ⟨pc, hpc, hfinalizes⟩
    rw [(List.mem_replicate.mp hpc).2] at hfinalizes
    cases hfinalizes
  have hstep : ∀ (x : Threads (UringFuture V C X) (Pc V C X) × List (Event V C X)) a y,
      Consistent x.1 x.2 ∧ (Free x.1 ∨ Stuck x.1) → machine.step x a = some y →
        (Consistent y.1 y.2 ∧ (Free y.1 ∨ Stuck y.1)) ∧ (Free y.1 ↔ Free x.1 ∧ KeepsFree x a) := by
    rintro ⟨s, past⟩ a ⟨u, past'⟩ ⟨hs, hor⟩ hnext
    obtain ⟨hcore, rfl⟩ := Machine.ghost_step_mk.mp hnext
    have hu := hs.step hcore
    by_cases hkeeps : KeepsFree (s, past) a
    · rcases hor with hfree | hstuck
      · have hfree' := hfree.step hs hkeeps hcore
        exact ⟨⟨hu, .inl hfree'⟩, iff_of_true hfree' ⟨hfree, hkeeps⟩⟩
      · have hstuck' := hstuck.step hs hcore
        exact ⟨⟨hu, .inr hstuck'⟩, iff_of_false (fun h => h.not_stuck hstuck')
          fun h => h.1.not_stuck hstuck⟩
    · cases a with
      | call i c =>
        obtain ⟨hfinalizes, htakes⟩ := Classical.not_imp.mp hkeeps
        have hstuck' := stuck_of_call hfinalizes (not_not.mp htakes) hcore
        exact ⟨⟨hu, .inr hstuck'⟩, iff_of_false (fun h => h.not_stuck hstuck') fun h => hkeeps h.2⟩
      | advance i | finalize i => exact absurd trivial hkeeps
  have hend := Machine.run_invariant' (fun x a y h hnext => (hstep x a y h hnext).1)
    (I := fun x => Consistent x.1 x.2 ∧ (Free x.1 ∨ Stuck x.1)) ⟨Consistent.init n, .inl hinit⟩ hrun
  have hiff := Machine.holds_iff_meets hstep ⟨Consistent.init n, .inl hinit⟩ hrun
  rw [and_iff_right hinit] at hiff
  rw [← hiff]
  constructor
  · intro hnodeadlock
    refine hend.2.resolve_right fun hstuck => ?_
    obtain ⟨acts', u, hrun', hacts', hstop⟩ := exists_exhausted t
    have hstuck' : ∃ past', Consistent u past' ∧ Stuck u := by
      refine Machine.run_invariant' (M := Machine.mk step) (I := fun u => ∃ past', Consistent u past' ∧ Stuck u)
        ?_ ⟨past, hend.1, hstuck⟩ hrun'
      rintro s a v ⟨past', hs, hstuck⟩ hnext
      exact ⟨_, hs.step hnext, hstuck.step hs hnext⟩
    obtain ⟨-, -, ⟨pc, hpc, hfinalizes⟩, -⟩ := hstuck'
    have hidle : pc ≠ .idle := by
      rintro rfl
      cases hfinalizes
    obtain ⟨i, hi⟩ := hnodeadlock acts' u hrun' hacts' ⟨pc, hpc, hidle⟩
    rw [hstop i] at hi
    cases hi
  · intro hfree acts' u hrun' hacts' hbusy
    have hfree' : ∃ past', Consistent u past' ∧ Free u := by
      refine Machine.run_invariant (M := Machine.mk step) (C := fun _ a => a.goesOn = true)
        (I := fun u => ∃ past', Consistent u past' ∧ Free u) ?_ ⟨past, hend.1, hfree⟩
        (Machine.meets_of_forall hacts') hrun'
      rintro s a v ⟨past', hs, hfree⟩ hgoes hnext
      refine ⟨_, hs.step hnext, hfree.step hs ?_ hnext⟩
      cases a with
      | call i c => cases hgoes
      | advance i | finalize i => trivial
    obtain ⟨past', hs, hfree'⟩ := hfree'
    exact hfree'.progress hs hbusy

/-- **One winner, nothing lost**, for any number of threads and any interleaving:

* at most one call completes the future, its value is the future's, and every other one that has come
  to its check was refused and has answered so;
* what a done future is, it stays;
* nothing is scheduled while the future is pending; every registration is listed, removed,
  scheduled or about to be scheduled, and when the future is done and no call is in progress, those
  not removed have been scheduled, each exactly once;
* each step brings the calls in progress nearer to their end, and some step is possible until all have
  returned, if and only if no call has begun that comes to the callbacks lock while a finaliser runs
  inside it. -/
theorem one_winner_all_scheduled (hrun : machine.run (start n) acts = some (t, past)) :
    ((past.filterMap Event.completed?).length ≤ 1 ∧
      (t.shared.state = .pending ↔ past.filterMap Event.completed? = []) ∧
      (∀ call ∈ past.filterMap Event.completed?, t.shared.state = call.state) ∧
      (past.filterMap Event.refused? ≠ [] → (past.filterMap Event.completed?).length = 1) ∧
      (∀ e ∈ past, e.Refusal) ∧
      (past.filterMap Event.called?).Perm (past.filterMap Event.completed? ++
        past.filterMap Event.refused? ++ t.locals.flatMap Pc.undecided)) ∧
    (∀ acts' u past', machine.run (t, past) acts' = some (u, past') →
      t.shared.state ≠ .pending → u.shared.state = t.shared.state) ∧
    (t.shared.state = .pending → past.filterMap Event.scheduled? = []) ∧
    (past.filterMap Event.added?).Perm (t.shared.callbacks ++ past.flatMap Event.removals ++
      past.filterMap Event.scheduled? ++ t.locals.flatMap Pc.hands) ∧
    (t.shared.state ≠ .pending → (∀ pc ∈ t.locals, pc = .idle) →
      (past.filterMap Event.added?).Perm
        (past.flatMap Event.removals ++ past.filterMap Event.scheduled?)) ∧
    (∀ i u, step t (.advance i) = some u → remaining u < remaining t) ∧
    (NoDeadlock t ↔ machine.Meets KeepsFree (start n) acts) := by
  have h := Consistent.of_run hrun
  refine ⟨⟨?_, ?_, ?_, ?_, h.refusals, h.decided⟩, ?_, fun hpending => (h.quiet hpending).1, h.kept,
    ?_, fun i u => remaining_lt, noDeadlock_iff hrun⟩
  · rcases h.winner with ⟨-, hnil⟩ | ⟨call, hone, -⟩
    · simp [hnil]
    · simp [hone]
  · rcases h.winner with ⟨hpending, hnil⟩ | ⟨call, hone, hset⟩
    · simp [hpending, hnil]
    · simp [hone, hset, Completing.state_ne_pending]
  · rcases h.winner with ⟨-, hnil⟩ | ⟨call, hone, hset⟩
    · simp [hnil]
    · simpa [hone] using hset
  · intro hrefused
    rcases h.winner with ⟨hpending, -⟩ | ⟨call, hone, -⟩
    · exact absurd hpending (h.refused hrefused)
    · simp [hone]
  · intro acts' u past' hrun' hdone
    refine Machine.run_invariant'
      (I := fun x : Threads (UringFuture V C X) (Pc V C X) × List (Event V C X) =>
        x.1.shared.state = t.shared.state) ?_ rfl hrun'
    rintro ⟨s, l⟩ a ⟨v, l'⟩ hs hstep
    have hcore := (Machine.ghost_step_mk.mp hstep).1
    exact (state_stays hcore (by rw [hs]; exact hdone)).trans hs
  · intro hdone hidle
    have hhands : t.locals.flatMap Pc.hands = [] := by
      rw [List.flatMap_eq_nil_iff]
      intro pc hpc
      rw [hidle pc hpc]
      rfl
    have hcallbacks : t.shared.callbacks = [] := by
      rcases h.drained hdone with hnil | ⟨pc, hpc, hdrain⟩
      · exact hnil
      · rw [hidle pc hpc] at hdrain
        cases hdrain
    simpa [hhands, hcallbacks] using h.kept

end

/-- Thread 0 adds callback 1; thread 1 sets the result; before it drains, thread 0 adds callback
2, and is then refused. -/
def gapRun : List (Act Nat Nat Unit) :=
  [.call 0 (.addDoneCallback (1, none))] ++ List.replicate 5 (.advance 0) ++
    [.call 1 (.complete (.setResult 42))] ++ List.replicate 3 (.advance 1) ++
    [.call 0 (.addDoneCallback (2, none))] ++ List.replicate 7 (.advance 0) ++
    [.call 0 (.complete .cancel)] ++ List.replicate 2 (.advance 0) ++
    List.replicate 5 (.advance 1)

theorem one_winner_gap :
    ∃ (t : Threads (UringFuture Nat Nat Unit) (Pc Nat Nat Unit)) (past : List (Event Nat Nat Unit)),
      machine.run (start 2) gapRun = some (t, past) ∧ t.shared.state = .finished 42 ∧
      past.filterMap Event.scheduled? = [(2, none), (1, none)] ∧
      past.filterMap Event.refused? = [.cancel] ∧
      (past.filterMap Event.added?).Perm
        (past.flatMap Event.removals ++ past.filterMap Event.scheduled?) ∧ NoDeadlock t := by
  obtain ⟨-, -, -, -, hscheduled, -, hnodeadlock⟩ :=
    one_winner_all_scheduled (show machine.run (start 2) gapRun = some (_, _) from rfl)
  exact ⟨_, _, rfl, rfl, rfl, rfl, hscheduled (by decide) (by decide), hnodeadlock.mpr (by decide)⟩

/-- The context of callback 1 goes with it, and has a finaliser. -/
def finalizerRun : List (Act Nat Nat Unit) :=
  [.call 0 (.addDoneCallback (1, some ()))] ++ List.replicate 5 (.advance 0) ++
    [.call 0 (.removeDoneCallback 1)] ++ List.replicate 2 (.advance 0) ++ [.finalize 0]

/-- The finaliser removes callback 2 from the same future; or thread 1, which has the GIL meanwhile,
adds one. No thread goes on any more. -/
theorem not_noDeadlock : ∃ (t u : Threads (UringFuture Nat Nat Unit) (Pc Nat Nat Unit))
    (past past' : List (Event Nat Nat Unit)),
    machine.run (start 1) (finalizerRun ++ [.call 0 (.removeDoneCallback 2)]) = some (t, past) ∧
    (∀ i, step t (.advance i) = none ∧ step t (.finalize i) = none) ∧ ¬ NoDeadlock t ∧
    machine.run (start 2) (finalizerRun ++ [.call 1 (.addDoneCallback (2, none))]) =
      some (u, past') ∧
    (∀ i, step u (.advance i) = none ∧ step u (.finalize i) = none) ∧ ¬ NoDeadlock u := by
  refine ⟨_, _, _, _, rfl, ?_, ?_, rfl, ?_, ?_⟩
  · rintro (_ | i) <;> exact ⟨rfl, rfl⟩
  · have hrun : machine.run (start 1) (finalizerRun ++ [.call 0 (.removeDoneCallback 2)]) =
        some (_, _) := rfl
    rw [noDeadlock_iff hrun]
    decide
  · rintro (_ | _ | i) <;> exact ⟨rfl, rfl⟩
  · have hrun : machine.run (start 2) (finalizerRun ++ [.call 1 (.addDoneCallback (2, none))]) =
        some (_, _) := rfl
    rw [noDeadlock_iff hrun]
    decide

end UringFuture

end Uringcore
