import Uringcore.Subprocess

/-!
# The waiters for the exit

A future in `_exit_waiters` is resolved at the end of `_process_exited`, which runs once: from the reader
of the pidfd, or from the handle that the waiting thread pushes. `Notice` is what of the transport takes
part in this. The exit is noticed, and every waiter told, unless `close` takes the pidfd away first or
an exception leaves `_process_exited` before its end (`keeps`): when it comes to a pipe that is closed, or
when the protocol raises something else than an `OSError` out of the drain.
-/

namespace Uringcore

namespace Subprocess

/-! ## What the exit concerns -/

/-- A handle that will call `_process_exited`. -/
def Task.isExit : Task → Bool
  | .readReady _ => false
  | .pidfdReady | .processExited _ => true

/-- `_process_exited` is at work. -/
def Frame.isExit : Frame → Bool
  | .dataReceived _ | .connectionLost .. => false
  | .draining .. | .drained .. | .processExited => true

structure Notice where
  exitWaiters : List ExitWaiter
  returncode : Option Int
  exited : Option Int
  pidfd : Bool
  thread : Bool
  /-- The notifications that are queued. -/
  queue : List Task
  /-- `_process_exited`, if it is at work. -/
  frame : Option Frame

def notice (s : Subprocess) : Notice where
  exitWaiters := s.exitWaiters
  returncode := s.returncode
  exited := s.exited
  pidfd := s.pidfd
  thread := s.thread
  queue := (s.ready ++ s.batch).filter Task.isExit
  frame := s.running.filter Frame.isExit

/-- Some waiter is not done. -/
def Notice.awaited (n : Notice) : Bool := n.exitWaiters.any (·.result.isNone)

/-- The exit will still be noticed without the pidfd: the thread waits for it, the notification is
queued, or it is being handled. -/
def Notice.underWay (n : Notice) : Bool := n.thread || !n.queue.isEmpty || n.frame.isSome

/-- `told` says that `process_exited` has been called. -/
structure Notice.Keeps (n : Notice) (told : Bool) : Prop where
  /-- No waiter is orphaned. -/
  armed : n.awaited = true → n.pidfd = true ∨ n.underWay = true
  /-- The exit has been handled, or is being handled, to its end. -/
  handled : n.returncode.isSome = true →
    n.returncode = n.exited ∧ (n.frame.isSome = true ∨ told = true ∧ ∀ w ∈ n.exitWaiters, w.result = n.exited)

/-- The step neither takes the notification from a waiter, nor adds a waiter where there is none to
come, nor cuts `_process_exited` short. -/
def keeps (s : Subprocess) : Act → Bool
  | .call .close => s.closed || !s.notice.awaited || s.notice.underWay
  | .call .wait => s.returncode.isSome || s.pidfd || s.notice.underWay
  | .drain _ => match s.running with
    | some (.draining p _) => s.isOpen p
    | _ => true
  | .ret .raised => match s.running with
    | some (.drained ..) => false
    | _ => true
  | _ => true

/-! ## The invariant -/

/-- There is one notification, and it is of the exit. -/
structure Notice.Sound (n : Notice) (told : Bool) : Prop where
  code : n.returncode.isSome = true → n.returncode = n.exited
  results : ∀ w ∈ n.exitWaiters, w.result.isSome = true → w.result = n.exited
  queued : ∀ code, .processExited code ∈ n.queue → n.exited = some code
  once : n.queue.length + n.thread.toNat ≤ 1
  polled : n.pidfd = true → n.thread = false ∧ ∀ task ∈ n.queue, task = .pidfdReady
  used : n.returncode.isSome = true → n.pidfd = false ∧ n.thread = false ∧ n.queue = []
  atWork : n.frame.isSome = true → n.returncode.isSome = true
  heard : told = true → n.returncode.isSome = true ∧ ∀ f ∈ n.frame, f = .processExited
  called : n.frame = some .processExited → told = true

/-- Has `process_exited` been called, after a step to `s`? -/
def toldAfter (s : Subprocess) (told : Bool) : Bool := told || s.running = some .processExited

/-- The machine with this history. -/
def heard : Machine (Subprocess × Bool) Act := machine.ghost fun _ _ t told => t.toldAfter told

namespace Notice
variable {n : Notice} {told : Bool}

theorem keeps_of_frame (h : n.Sound told) (hframe : n.frame.isSome = true) : n.Keeps told where
  armed _ := .inr (by simp [underWay, hframe])
  handled hcode := ⟨h.code hcode, .inl hframe⟩

/-- Nothing else is queued behind a notification. -/
theorem Sound.queue_eq (h : n.Sound told) {task : Task} (hmem : task ∈ n.queue) :
    n.queue = [task] ∧ n.thread = false := by
  have honce := h.once
  cases hqueue : n.queue with
  | nil => simp [hqueue] at hmem
  | cons task' rest =>
    rw [hqueue] at honce hmem
    simp only [List.length_cons] at honce
    obtain rfl : rest = [] := List.eq_nil_of_length_eq_zero (by omega)
    rw [List.mem_singleton.mp hmem]
    refine ⟨rfl, ?_⟩
    cases hthread : n.thread with
    | false => rfl
    | true =>
      simp only [hthread, Bool.toNat_true] at honce
      omega

theorem Sound.unwatch (h : n.Sound told) : Sound { n with pidfd := false } told :=
  { h with
    polled := by rintro ⟨⟩
    used := fun hcode => ⟨rfl, (h.used hcode).2⟩ }

theorem keeps_unwatch_iff (h : n.Keeps told) :
    Keeps { n with pidfd := false } told ↔ (!n.awaited || n.underWay) = true := by
  constructor
  · intro hafter
    cases hawaited : n.awaited with
    | false => rfl
    | true =>
      rcases hafter.armed hawaited with hpidfd | hunderWay
      · cases hpidfd
      · exact hunderWay
  · intro hfine
    refine ⟨fun hawaited => .inr ?_, h.handled⟩
    have hpending : n.awaited = true := hawaited
    rw [hpending] at hfine
    exact hfine

/-- The waiter that `_wait` adds. -/
theorem Sound.wait (h : n.Sound told) (id : Nat) :
    Sound { n with exitWaiters := n.exitWaiters ++ [⟨id, none⟩] } told :=
  { h with
    results := by
      intro w hw hdone
      rcases List.mem_append.mp hw with hw | hw
      · exact h.results w hw hdone
      · obtain rfl := List.mem_singleton.mp hw
        cases hdone }

theorem keeps_wait_iff (told : Bool) (hcode : n.returncode = none) (id : Nat) :
    Keeps { n with exitWaiters := n.exitWaiters ++ [⟨id, none⟩] } told ↔ (n.pidfd || n.underWay) = true := by
  constructor
  · intro hafter
    have harmed := hafter.armed (by simp [awaited])
    simpa [underWay] using harmed
  · intro hfine
    refine ⟨fun _ => by simpa [underWay] using hfine, fun hsome => ?_⟩
    simp [hcode] at hsome

theorem Sound.leave (h : n.Sound told) (p : ExitWaiter → Bool) :
    Sound { n with exitWaiters := n.exitWaiters.filter p } told :=
  { h with results := fun w hw => h.results w (List.mem_filter.mp hw).1 }

theorem Keeps.leave (h : n.Keeps told) (p : ExitWaiter → Bool) :
    Keeps { n with exitWaiters := n.exitWaiters.filter p } told where
  armed hawaited := by
    apply h.armed
    obtain ⟨w, hw, hpending⟩ := List.any_eq_true.mp hawaited
    exact List.any_eq_true.mpr ⟨w, (List.mem_filter.mp hw).1, hpending⟩
  handled hcode := by
    obtain ⟨hsame, hframe | ⟨htold, hall⟩⟩ := h.handled hcode
    · exact ⟨hsame, .inl hframe⟩
    · exact ⟨hsame, .inr ⟨htold, fun w hw => hall w (List.mem_filter.mp hw).1⟩⟩

/-- Before the exit there is no return code. -/
theorem Sound.returncode_none (h : n.Sound told) (hexited : n.exited = none) : n.returncode = none := by
  cases hcode : n.returncode with
  | none => rfl
  | some code =>
    have hsame := h.code (by rw [hcode]; rfl)
    rw [hcode, hexited] at hsame
    cases hsame

theorem Sound.exit (h : n.Sound told) (hexited : n.exited = none) (code : Int) :
    Sound { n with exited := some code } told :=
  have hcode := h.returncode_none hexited
  { h with
    code := fun hsome => by simp [hcode] at hsome
    results := fun w hw hdone => by
      have hsame := h.results w hw hdone
      rw [hexited] at hsame
      simp [hsame] at hdone
    queued := fun code' hmem => by
      have hsame := h.queued code' hmem
      rw [hexited] at hsame
      cases hsame }

theorem Keeps.exit (h : n.Keeps told) (hcode : n.returncode = none) (code : Int) :
    Keeps { n with exited := some code } told where
  armed := h.armed
  handled hsome := by simp [hcode] at hsome

/-- The thread has pushed `_process_exited`. -/
theorem Sound.report (h : n.Sound told) {code : Int} (hthread : n.thread = true)
    (hexited : n.exited = some code) :
    n.queue = [] ∧ Sound { n with thread := false, queue := [.processExited code] } told := by
  have hempty : n.queue = [] := by
    cases hqueue : n.queue with
    | nil => rfl
    | cons task rest =>
      have hmem : task ∈ n.queue := by simp [hqueue]
      have halone := (h.queue_eq hmem).2
      rw [hthread] at halone
      cases halone
  refine ⟨hempty, { h with queued := ?_, once := by simp, polled := ?_, used := ?_ }⟩
  · intro code' hmem
    simp only [List.mem_singleton, Task.processExited.injEq] at hmem
    rw [hexited, hmem]
  · intro hpidfd
    have hoff := (h.polled hpidfd).1
    rw [hthread] at hoff
    cases hoff
  · intro hcode
    have hoff := (h.used hcode).2.1
    rw [hthread] at hoff
    cases hoff

/-- The poll has reported the pidfd. -/
theorem Sound.poll (h : n.Sound told) (hpidfd : n.pidfd = true) :
    Sound { n with queue := [.pidfdReady] } told :=
  have hthread := (h.polled hpidfd).1
  { h with
    queued := fun code hmem => by simp at hmem
    once := by simp [hthread]
    polled := fun _ => ⟨hthread, fun task hmem => List.mem_singleton.mp hmem⟩
    used := fun hcode => by
      have hoff := (h.used hcode).1
      rw [hpidfd] at hoff
      cases hoff }

theorem keeps_queue (h : n.Keeps told) {m : Notice} (hqueue : m.queue ≠ [])
    (hsame : m.exitWaiters = n.exitWaiters ∧ m.returncode = n.returncode ∧ m.exited = n.exited ∧ m.frame = n.frame) :
    m.Keeps told where
  armed _ := .inr (by simp [underWay, hqueue])
  handled := by
    obtain ⟨hwaiters, hcode, hexited, hframe⟩ := hsame
    rw [hcode, hexited, hframe, hwaiters]
    exact h.handled

/-- A notification is taken from the queue, and `_process_exited` begins. -/
theorem Sound.start (h : n.Sound told) {task : Task} {code : Int} (hmem : task ∈ n.queue)
    (hexited : n.exited = some code) (f : Frame) :
    Sound { n with pidfd := false, queue := [], returncode := some code, frame := some f }
      (told || f = .processExited) :=
  have halone := h.queue_eq hmem
  have hfirst : told = false := by
    cases htold : told with
    | false => rfl
    | true =>
      have hempty := (h.used (h.heard htold).1).2.2
      simp [hempty] at hmem
  { code := fun _ => hexited.symm
    results := h.results
    queued := fun code' hin => by cases hin
    once := by simp [halone.2]
    polled := by rintro ⟨⟩
    used := fun _ => ⟨rfl, halone.2, rfl⟩
    atWork := fun _ => rfl
    heard := fun hafter => by
      refine ⟨rfl, ?_⟩
      rintro f' ⟨⟩
      simpa [hfirst] using hafter
    called := fun hf => by simpa using .inr (Option.some_inj.mp hf) }

/-- `_process_exited` goes on, before `process_exited` is called. -/
theorem Sound.work (h : n.Sound told) {f₀ : Frame} (hf₀ : n.frame = some f₀) (hbefore : f₀ ≠ .processExited)
    (f : Frame) : Sound { n with frame := some f } (told || f = .processExited) :=
  have hcode : n.returncode.isSome = true := h.atWork (by simp [hf₀])
  { h with
    atWork := fun _ => hcode
    heard := fun hafter => by
      refine ⟨hcode, ?_⟩
      rintro f' ⟨⟩
      rcases Bool.or_eq_true .. ▸ hafter with htold | hnow
      · exact absurd ((h.heard htold).2 f₀ hf₀) hbefore
      · simpa using hnow
    called := fun hf => by simpa using .inr (Option.some_inj.mp hf) }

/-- An exception leaves `_process_exited` before `process_exited` is called. -/
theorem Sound.cut (h : n.Sound told) {f : Frame} (hf : n.frame = some f) (hbefore : f ≠ .processExited) :
    Sound { n with frame := none } told ∧ ¬ Keeps { n with frame := none } told := by
  have hcode : n.returncode.isSome = true := h.atWork (by simp [hf])
  constructor
  · exact { h with
      atWork := by rintro ⟨⟩
      heard := fun htold => ⟨hcode, by rintro f' ⟨⟩⟩
      called := by rintro ⟨⟩ }
  · intro hkeeps
    obtain ⟨-, hframe | ⟨htold, -⟩⟩ := hkeeps.handled hcode
    · cases hframe
    · exact hbefore ((h.heard htold).2 f hf)

/-- `process_exited` has returned, and the waiters are told. -/
theorem Sound.finish (h : n.Sound told) (hf : n.frame = some .processExited) :
    Sound { n with frame := none, exitWaiters := n.exitWaiters.map fun w =>
      { w with result := w.result.or n.returncode } } told ∧
    Keeps { n with frame := none, exitWaiters := n.exitWaiters.map fun w =>
      { w with result := w.result.or n.returncode } } told := by
  have hcode : n.returncode.isSome = true := h.atWork (by simp [hf])
  have hall : ∀ w ∈ n.exitWaiters.map fun w => { w with result := w.result.or n.returncode },
      w.result = n.exited := by
    intro w hw
    obtain ⟨w, hmem, rfl⟩ := List.mem_map.mp hw
    cases hresult : w.result with
    | none => simpa [hresult] using h.code hcode
    | some code =>
      have hdone := h.results w hmem (by simp [hresult])
      simpa [hresult] using hdone
  have hexited : n.exited.isSome = true := h.code hcode ▸ hcode
  constructor
  · exact { h with
      results := fun w hw _ => hall w hw
      atWork := by rintro ⟨⟩
      heard := fun _ => ⟨hcode, by rintro f' ⟨⟩⟩
      called := by rintro ⟨⟩ }
  · refine ⟨fun hawaited => ?_, fun _ => ⟨h.code hcode, .inr ⟨h.called hf, hall⟩⟩⟩
    obtain ⟨w, hw, hpending⟩ := List.any_eq_true.mp hawaited
    rw [hall w hw] at hpending
    cases hexit : n.exited with
    | none => simp [hexit] at hexited
    | some code => simp [hexit] at hpending

end Notice

/-! ## The steps -/

/-- A step to `t` keeps the invariant, and what is due to the waiters exactly if it is `fine`. -/
structure KeepsIff (t : Subprocess) (told fine : Bool) : Prop where
  sound : t.notice.Sound (t.toldAfter told)
  keeps_iff : t.notice.Keeps (t.toldAfter told) ↔ fine = true

section
variable {s t : Subprocess} {told : Bool}

theorem toldAfter_eq (hsound : s.notice.Sound told) (hframe : t.notice.frame = s.notice.frame) :
    t.toldAfter told = told := by
  cases told with
  | true => rfl
  | false =>
    simp only [toldAfter, Bool.false_or, decide_eq_false_iff_not]
    intro hrunning
    have hcalled : t.notice.frame = some .processExited := by simp [notice, hrunning, Frame.isExit]
    rw [hframe] at hcalled
    cases hsound.called hcalled

/-- A step outside `_process_exited`. -/
theorem keepsIff_outside (hsound : s.notice.Sound told) {n : Notice} {fine : Bool} (hnotice : t.notice = n)
    (hframe : n.frame = s.notice.frame) (hn : n.Sound told) (hfine : n.Keeps told ↔ fine = true) :
    t.KeepsIff told fine := by
  have htold := toldAfter_eq (t := t) hsound (by rw [hnotice, hframe])
  refine ⟨?_, ?_⟩ <;> rw [htold, hnotice]
  · exact hn
  · exact hfine

/-- A step that is about something else. -/
theorem keepsIff_same (hsound : s.notice.Sound told) (hkeeps : s.notice.Keeps told)
    (hsame : t.notice = s.notice) : t.KeepsIff told true :=
  keepsIff_outside hsound hsame rfl hsound (iff_of_true hkeeps rfl)

/-! ### `_process_exited` -/

/-- Where `_process_exited` goes on. -/
def nextFrame : List ReadEnd → Frame
  | p :: rest => .draining p rest
  | [] => .processExited

theorem notice_drainNext (rest : List ReadEnd) (s : Subprocess) :
    (s.drainNext rest).notice = { s.notice with frame := some (nextFrame rest) } := by
  cases rest <;> rfl

theorem toldAfter_drainNext (rest : List ReadEnd) (s : Subprocess) (told : Bool) :
    (s.drainNext rest).toldAfter told = (told || nextFrame rest = .processExited) := by
  cases rest <;> simp [toldAfter, drainNext, nextFrame]

/-- `_process_exited` goes on. -/
theorem keepsIff_work (hsound : s.notice.Sound told) {f₀ : Frame} (hf₀ : s.notice.frame = some f₀)
    (hbefore : f₀ ≠ .processExited) {f : Frame} (hnotice : t.notice = { s.notice with frame := some f })
    (htold : t.toldAfter told = (told || f = .processExited)) : t.KeepsIff told true := by
  have hafter : t.notice.Sound (t.toldAfter told) := by
    rw [hnotice, htold]
    exact hsound.work hf₀ hbefore f
  refine ⟨hafter, iff_of_true ?_ rfl⟩
  exact Notice.keeps_of_frame hafter (by rw [hnotice]; rfl)

theorem keepsIff_cut (hsound : s.notice.Sound told) {f : Frame} (hf : s.notice.frame = some f)
    (hbefore : f ≠ .processExited) : KeepsIff { s with running := none } told false := by
  have htold : toldAfter { s with running := none } told = told := by simp [toldAfter]
  obtain ⟨hafter, hcut⟩ := hsound.cut hf hbefore
  refine ⟨?_, ?_⟩ <;> rw [htold]
  · exact hafter
  · exact iff_of_false hcut (by decide)

/-- `_process_exited` begins. -/
theorem keepsIff_processExited (hsound : s.notice.Sound told) {task : Task} {rest : List Task} {code : Int}
    (hbatch : s.batch = task :: rest) (hexit : task.isExit = true) (hexited : s.exited = some code)
    (hnext : t = processExited code { s with batch := rest, pidfd := false }) : t.KeepsIff told true := by
  have hqueue : s.notice.queue = s.ready.filter Task.isExit ++ task :: rest.filter Task.isExit := by
    simp [notice, hbatch, hexit]
  have hmem : task ∈ s.notice.queue := by simp [hqueue]
  obtain ⟨halone, -⟩ := hsound.queue_eq hmem
  -- no second notification is left behind
  have hleft : (s.ready ++ rest).filter Task.isExit = [] := by
    rw [hqueue] at halone
    have hlength := congrArg List.length halone
    simp only [List.length_append, List.length_cons, List.length_nil] at hlength
    rw [List.filter_append]
    apply List.eq_nil_of_length_eq_zero
    rw [List.length_append]
    omega
  have hnotice : t.notice = { s.notice with
      pidfd := false, queue := [], returncode := some code, frame := some (nextFrame s.readEnds) } := by
    rw [hnext, ← hleft]
    exact notice_drainNext _ _
  have htold : t.toldAfter told = (told || nextFrame s.readEnds = .processExited) := by
    rw [hnext]
    exact toldAfter_drainNext _ _ told
  have hafter : t.notice.Sound (t.toldAfter told) := by
    rw [hnotice, htold]
    exact hsound.start hmem hexited _
  refine ⟨hafter, iff_of_true ?_ rfl⟩
  exact Notice.keeps_of_frame hafter (by rw [hnotice]; rfl)

theorem keepsIff_drain (hsound : s.notice.Sound told) {answer : ReadAnswer}
    (h : s.step (.drain answer) = some t) : t.KeepsIff told (s.keeps (.drain answer)) := by
  simp only [step] at h
  split at h
  · rename_i p rest hrunning
    have hframe : s.notice.frame = some (.draining p rest) := by simp [notice, hrunning, Frame.isExit]
    have hfine : s.keeps (.drain answer) = s.isOpen p := by simp only [keeps, hrunning]
    rw [hfine]
    split at h <;> cases h
    unfold Subprocess.drain
    cases hopen : s.isOpen p with
    | false => exact keepsIff_cut hsound hframe (by rintro ⟨⟩)
    | true =>
      cases answer with
      | bytes n => exact keepsIff_work hsound hframe (by rintro ⟨⟩) (f := .drained p rest) rfl rfl
      | eof | osError =>
        exact keepsIff_work hsound hframe (by rintro ⟨⟩) (notice_drainNext rest s)
          (toldAfter_drainNext rest s told)
  · cases h

/-! ### The protocol returns -/

/-- What is at work is not `_process_exited`. -/
theorem notice_stop (hother : s.notice.frame = none) : notice { s with running := none } = s.notice := by
  have hstopped : notice { s with running := none } = { s.notice with frame := none } := rfl
  rw [hstopped, ← hother]

theorem notice_exceptOSError (p : ReadEnd) (hother : s.notice.frame = none) :
    (s.exceptOSError p).notice = s.notice := by
  unfold exceptOSError
  split
  · exact notice_stop hother
  · exact notice_stop hother

theorem keepsIff_drained (hsound : s.notice.Sound told) {p : ReadEnd} {rest : List ReadEnd}
    (hrunning : s.running = some (.drained p rest)) (r : ProtocolReturn) :
    (s.resume (.drained p rest) r).KeepsIff told (s.keeps (.ret r)) := by
  have hframe : s.notice.frame = some (.drained p rest) := by simp [notice, hrunning, Frame.isExit]
  cases r with
  | value => exact keepsIff_work hsound hframe (by rintro ⟨⟩) (f := .draining p rest) rfl rfl
  | osError =>
    exact keepsIff_work hsound hframe (by rintro ⟨⟩) (notice_drainNext rest s) (toldAfter_drainNext rest s told)
  | raised =>
    have hfine : s.keeps (.ret .raised) = false := by simp only [keeps, hrunning]
    rw [hfine]
    exact keepsIff_cut hsound hframe (by rintro ⟨⟩)

theorem keepsIff_ret (hsound : s.notice.Sound told) (hkeeps : s.notice.Keeps told) {r : ProtocolReturn}
    (h : s.step (.ret r) = some t) : t.KeepsIff told (s.keeps (.ret r)) := by
  simp only [step] at h
  split at h
  · cases h
  · cases h
  · rename_i frame hnot hrunning
    cases h
    cases frame with
    | dataReceived p =>
      have hother : s.notice.frame = none := by simp [notice, hrunning, Frame.isExit]
      have hfine : s.keeps (.ret r) = true := by cases r <;> simp [keeps, hrunning]
      rw [hfine]
      apply keepsIff_same hsound hkeeps
      cases r with
      | osError => exact notice_exceptOSError p hother
      | value | raised => exact notice_stop hother
    | connectionLost p again =>
      have hother : s.notice.frame = none := by simp [notice, hrunning, Frame.isExit]
      have hfine : s.keeps (.ret r) = true := by cases r <;> simp [keeps, hrunning]
      rw [hfine]
      apply keepsIff_same hsound hkeeps
      cases again with
      | false => cases r <;> exact notice_stop hother
      | true =>
        cases r with
        | osError => exact notice_exceptOSError p hother
        | value | raised => exact notice_stop hother
    | draining p rest => exact absurd rfl (hnot p rest)
    | drained p rest => exact keepsIff_drained hsound hrunning r
    | processExited =>
      have hframe : s.notice.frame = some .processExited := by simp [notice, hrunning, Frame.isExit]
      have hfine : s.keeps (.ret r) = true := by cases r <;> simp [keeps, hrunning]
      obtain ⟨hafter, hdone⟩ := hsound.finish hframe
      have htold : (s.resume .processExited r).toldAfter told = told := by
        cases r <;> simp [toldAfter, resume]
      have hnotice : (s.resume .processExited r).notice = { s.notice with
          frame := none
          exitWaiters := s.exitWaiters.map fun w => { w with result := w.result.or s.returncode } } := by
        cases r <;> rfl
      rw [hfine]
      refine ⟨?_, iff_of_true ?_ rfl⟩ <;> rw [htold, hnotice]
      · exact hafter
      · exact hdone

/-! ### The loop and the program -/

/-- `_read_ready` begins when nothing is at work. -/
theorem notice_readReady (p : ReadEnd) (answer : ReadAnswer) (hidle : s.running = none) :
    (s.readReady p answer).notice = s.notice := by
  unfold readReady
  split
  · rfl
  · cases answer <;> simp [notice, modifyPipe, hidle, Frame.isExit]

theorem keepsIff_runHandle (hsound : s.notice.Sound told) (hkeeps : s.notice.Keeps told) {answer : ReadAnswer}
    (h : s.step (.runHandle answer) = some t) : t.KeepsIff told true := by
  simp only [step] at h
  split at h
  · rename_i task rest hidle hbatch
    cases task with
    | readReady p =>
      simp only [execute] at h
      split at h <;> cases h
      apply keepsIff_same hsound hkeeps
      rw [notice_readReady (s := { s with batch := rest }) p answer hidle]
      simp [notice, hbatch, Task.isExit]
    | pidfdReady =>
      simp only [execute, Option.map_eq_some_iff] at h
      obtain ⟨code, hexited, rfl⟩ := h
      exact keepsIff_processExited hsound hbatch rfl hexited rfl
    | processExited code =>
      cases h
      have hmem : .processExited code ∈ s.notice.queue := by simp [notice, hbatch, Task.isExit]
      have hpidfd : s.pidfd = false := by
        cases hp : s.pidfd with
        | false => rfl
        | true => cases (hsound.polled hp).2 _ hmem
      apply keepsIff_processExited hsound hbatch rfl (hsound.queued code hmem)
      rw [← hpidfd]
  · cases h

/-- Of the notifications the poll only reports that of the pidfd. -/
theorem filter_tasks {tasks : List Task} (hreports : tasks.all s.reports = true) (hnodup : tasks.Nodup) :
    tasks.filter Task.isExit = [] ∨ tasks.filter Task.isExit = [.pidfdReady] ∧ s.pidfd = true := by
  have hall : ∀ task ∈ tasks.filter Task.isExit, task = .pidfdReady ∧ s.pidfd = true := by
    intro task hmem
    obtain ⟨hin, hexit⟩ := List.mem_filter.mp hmem
    have hreported := List.all_eq_true.mp hreports task hin
    cases task with
    | readReady p => cases hexit
    | pidfdReady =>
      simp only [reports, Bool.and_eq_true] at hreported
      exact ⟨rfl, hreported.1⟩
    | processExited code => cases hreported
  have hkept : (tasks.filter Task.isExit).Nodup := hnodup.filter _
  rcases hfilter : tasks.filter Task.isExit with _ | ⟨task, _ | ⟨task', rest⟩⟩
  · exact .inl rfl
  · obtain ⟨rfl, hpidfd⟩ := hall task (by simp [hfilter])
    exact .inr ⟨rfl, hpidfd⟩
  · have hsame := (hall task (by simp [hfilter])).1.trans (hall task' (by simp [hfilter])).1.symm
    simp [hfilter, hsame] at hkept

theorem keepsIff_startTick (hsound : s.notice.Sound told) (hkeeps : s.notice.Keeps told) {tasks : List Task}
    (h : s.step (.startTick tasks) = some t) : t.KeepsIff told true := by
  simp only [step] at h
  split at h
  · rename_i hstart
    cases h
    simp only [Bool.and_eq_true, decide_eq_true_eq, List.isEmpty_iff, Bool.or_eq_true] at hstart
    obtain ⟨⟨⟨⟨-, hbatch⟩, hpath⟩, hreports⟩, hnodup⟩ := hstart
    rcases filter_tasks hreports hnodup with hnone | ⟨hpolled, hpidfd⟩
    · apply keepsIff_same hsound hkeeps
      simp [notice, hbatch, hnone]
    · have hready : s.ready = [] := by
        rcases hpath with hready | htasks
        · exact hready
        · simp [htasks] at hpolled
      refine keepsIff_outside hsound (n := { s.notice with queue := [.pidfdReady] }) ?_ rfl (hsound.poll hpidfd) ?_
      · simp [notice, hready, hpolled]
      · exact iff_of_true (Notice.keeps_queue hkeeps (by simp) ⟨rfl, rfl, rfl, rfl⟩) rfl
  · cases h

theorem keepsIff_threadReports (hsound : s.notice.Sound told) (hkeeps : s.notice.Keeps told)
    (h : s.step .threadReports = some t) : t.KeepsIff told true := by
  simp only [step] at h
  split at h
  · rename_i code hexited
    split at h
    · rename_i hthread
      cases h
      obtain ⟨hempty, hafter⟩ := hsound.report hthread hexited
      refine keepsIff_outside hsound
        (n := { s.notice with thread := false, queue := [.processExited code] }) ?_ rfl hafter ?_
      · simp only [notice, List.filter_append, List.append_eq_nil_iff] at hempty ⊢
        simp [hempty.1, hempty.2, Task.isExit]
      · exact iff_of_true (Notice.keeps_queue hkeeps (by simp) ⟨rfl, rfl, rfl, rfl⟩) rfl
    · cases h
  · cases h

theorem keepsIff_call (hsound : s.notice.Sound told) (hkeeps : s.notice.Keeps told) (c : Call) :
    (s.call c).KeepsIff told (s.keeps (.call c)) := by
  cases c with
  | close =>
    simp only [call, Subprocess.close, keeps]
    cases hclosed : s.closed with
    | true => exact keepsIff_same hsound hkeeps rfl
    | false =>
      exact keepsIff_outside hsound (n := { s.notice with pidfd := false }) rfl rfl hsound.unwatch
        (Notice.keeps_unwatch_iff hkeeps)
  | wait =>
    simp only [call, Subprocess.wait, keeps]
    by_cases hcode : s.returncode.isSome
    · rw [if_pos hcode, hcode]
      exact keepsIff_same hsound hkeeps rfl
    · have hnone : s.returncode = none := by simpa using hcode
      have hfine : (s.returncode.isSome || s.pidfd || s.notice.underWay) = (s.pidfd || s.notice.underWay) := by
        simp [hnone]
      rw [if_neg hcode, hfine]
      exact keepsIff_outside hsound rfl rfl (hsound.wait s.nextWaiter)
        (Notice.keeps_wait_iff (n := s.notice) told hnone s.nextWaiter)
  | leave id =>
    exact keepsIff_outside hsound rfl rfl (hsound.leave (·.id ≠ id)) (iff_of_true (hkeeps.leave _) rfl)
  | pauseReading | resumeReading | closePipe | write | closeStdin | abortStdin =>
    exact keepsIff_same hsound hkeeps rfl

theorem keepsIff_step (hsound : s.notice.Sound told) (hkeeps : s.notice.Keeps told) {a : Act}
    (h : s.step a = some t) : t.KeepsIff told (s.keeps a) := by
  cases a with
  | written p data =>
    simp only [step] at h
    split at h <;> cases h
    exact keepsIff_same hsound hkeeps rfl
  | hangUp p =>
    cases h
    exact keepsIff_same hsound hkeeps rfl
  | exit code held =>
    simp only [step] at h
    split at h <;> cases h
    rename_i hexited
    have hnone : s.exited = none := by simpa using hexited
    exact keepsIff_outside hsound rfl rfl (hsound.exit hnone code)
      (iff_of_true (hkeeps.exit (hsound.returncode_none hnone) code) rfl)
  | threadReports => exact keepsIff_threadReports hsound hkeeps h
  | startTick tasks => exact keepsIff_startTick hsound hkeeps h
  | runHandle answer => exact keepsIff_runHandle hsound hkeeps h
  | drain answer => exact keepsIff_drain hsound h
  | ret r => exact keepsIff_ret hsound hkeeps h
  | call c =>
    simp only [step] at h
    split at h <;> cases h
    exact keepsIff_call hsound hkeeps c
  | writeReady result =>
    simp only [step] at h
    split at h
    · split at h <;> cases h
      exact keepsIff_same hsound hkeeps rfl
    · cases h

end

/-! ## Runs -/

theorem sound_new (stdin : Option WriteSubprocessPipe) (piped : ReadEnd → Bool) (usePidfd : Bool) :
    (new stdin piped usePidfd).notice.Sound false where
  code := by rintro ⟨⟩
  results w hw := by cases hw
  queued code hmem := by cases hmem
  once := by cases usePidfd <;> simp [new, notice]
  polled hpidfd := by
    obtain rfl : usePidfd = true := hpidfd
    exact ⟨rfl, fun task hmem => by cases hmem⟩
  used := by rintro ⟨⟩
  atWork := by rintro ⟨⟩
  heard := by rintro ⟨⟩
  called := by rintro ⟨⟩

theorem keeps_new (stdin : Option WriteSubprocessPipe) (piped : ReadEnd → Bool) (usePidfd : Bool) :
    (new stdin piped usePidfd).notice.Keeps false where
  armed := by rintro ⟨⟩
  handled := by rintro ⟨⟩

/-- The child writes a byte and exits while a `_wait` waits; the pidfd is reported, and stdout drained. -/
def awaitedRun : List Act :=
  [.call .wait, .written .stdout [1], .exit 7 fun _ => false, .startTick [.pidfdReady], .runHandle .eof,
    .drain (.bytes 1), .ret .value, .drain .eof, .ret .raised]

/-- With the thread, `close` only closes the pipes; but when the exit is reported, `fileno` of the closed
stdout raises. -/
def closedRun : List Act :=
  [.call .wait, .call .close, .exit 0 fun _ => false, .threadReports, .startTick [], .runHandle .eof, .drain .eof]

end Subprocess

end Uringcore
