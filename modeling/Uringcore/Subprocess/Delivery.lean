import Uringcore.Subprocess

/-!
# What the protocol hears of stdout and stderr

The bytes of a pipe should reach the protocol in order, and then its end, once. The reader of the pipe
tells both. `_process_exited` reads what is left, with its end, and closes the pipe, but it tells only
the bytes: so the pipe must have come to its end before (`delivers_iff`).
-/

namespace Uringcore

namespace ReadCall

def bytes : ReadCall → Bytes
  | dataReceived data => data
  | connectionLost _ => []

def isLost : ReadCall → Bool
  | dataReceived _ => false
  | connectionLost _ => true

end ReadCall

def ReadAnswer.isBytes : ReadAnswer → Bool
  | bytes _ => true
  | eof | osError _ => false

namespace ReadSubprocessPipe

/-- What the protocol has got. -/
def received (q : ReadSubprocessPipe) : Bytes := q.log.flatMap ReadCall.bytes

def isLost (q : ReadSubprocessPipe) : Bool := q.log.any ReadCall.isLost

/-- Nothing is to come. -/
def atEnd (q : ReadSubprocessPipe) : Bool := q.unread.isEmpty && !q.writers

/-- What the pipe and its reader owe the protocol. -/
structure Delivers (q : ReadSubprocessPipe) : Prop where
  bytes : q.received ++ q.unread = q.written
  /-- The end is told last, and so once. -/
  order : ∀ c ∈ q.log.dropLast, c.isLost = false
  ended : q.isLost = true → q.atEnd = true
  /-- A closed pipe owes nothing. -/
  closed : q.closing = true → q.isLost = true
  /-- A reader waits for what is to come, unless the program has taken it away. -/
  watched : q.closing = true ∨ q.isLost = true ∨ q.reader = true ∨ q.paused = true

/-- What may happen to a pipe while it is open and its end is not told. -/
inductive PipeMove (q : ReadSubprocessPipe) : ReadSubprocessPipe → Prop
  | kept : PipeMove q q
  | received {n : Nat} (h : q.admits (.bytes n) = true) : PipeMove q (q.receive n)
  | paused : PipeMove q q.pauseReading
  | resumed (refused : Bool) : PipeMove q (q.resumeReading refused)
  | written (data : Bytes) (h : q.writers = true) : PipeMove q (q.write data)
  | hungUp : PipeMove q q.hangUp

section
variable {q q' : ReadSubprocessPipe}

theorem delivers_new : Delivers new where
  bytes := rfl
  order c hc := by cases hc
  ended h := by cases h
  closed h := by cases h
  watched := .inr (.inr (.inl rfl))

@[simp] theorem isLost_lose (exc : Option LostExc) : (q.lose exc).isLost = true := by
  simp [isLost, lose, ReadCall.isLost]

theorem isLost_eq_false : q.isLost = false ↔ ∀ c ∈ q.log, c.isLost = false := by
  simp [isLost]

theorem Delivers.receive (h : q.Delivers) {n : Nat} (hn : q.admits (.bytes n) = true) :
    (q.receive n).Delivers := by
  simp only [admits, Bool.and_eq_true, decide_eq_true_eq] at hn
  obtain ⟨⟨hpos, hle⟩, -⟩ := hn
  -- after the end there would be nothing to read
  have hopen : q.isLost = false := by
    cases hlost : q.isLost with
    | false => rfl
    | true =>
      have hend := h.ended hlost
      simp only [atEnd, Bool.and_eq_true, List.isEmpty_iff] at hend
      rw [hend.1] at hle
      simp only [List.length_nil] at hle
      omega
  have hkept : (q.receive n).isLost = false := by
    simp only [isLost, ReadSubprocessPipe.receive, List.any_append, List.any_cons, ReadCall.isLost,
      List.any_nil, Bool.or_false]
    exact hopen
  constructor
  case bytes =>
    have hbytes := h.bytes
    show ((q.log ++ [_]).flatMap ReadCall.bytes) ++ q.unread.drop n = q.written
    rw [List.flatMap_append, ← hbytes]
    simp [ReadCall.bytes, received]
  case order =>
    intro c hc
    rw [ReadSubprocessPipe.receive, List.dropLast_concat] at hc
    exact isLost_eq_false.mp hopen c hc
  case ended =>
    intro hlost
    rw [hkept] at hlost
    cases hlost
  case closed =>
    intro hclosing
    rw [h.closed hclosing] at hopen
    cases hopen
  case watched =>
    rcases h.watched with hclosing | hlost | hwatched
    · exact .inl hclosing
    · rw [hopen] at hlost
      cases hlost
    · exact .inr (.inr hwatched)

/-- The end is told in its place exactly if it has come and was not told before. -/
theorem Delivers.lose_iff (h : q.Delivers) (exc : Option LostExc) :
    (q.lose exc).Delivers ↔ q.isLost = false ∧ q.atEnd = true := by
  constructor
  · intro hafter
    have hend := hafter.ended (isLost_lose exc)
    refine ⟨isLost_eq_false.mpr ?_, hend⟩
    intro c hc
    apply hafter.order c
    rw [lose, List.dropLast_concat]
    exact hc
  · rintro ⟨hopen, hend⟩
    refine ⟨?_, ?_, fun _ => hend, fun _ => isLost_lose exc, .inr (.inl (isLost_lose exc))⟩
    · have hbytes := h.bytes
      show ((q.log ++ [_]).flatMap ReadCall.bytes) ++ q.unread = q.written
      rw [List.flatMap_append, ← hbytes]
      simp [ReadCall.bytes, received]
    · intro c hc
      rw [lose, List.dropLast_concat] at hc
      exact isLost_eq_false.mp hopen c hc

theorem Delivers.close_iff (h : q.Delivers) : q.close.Delivers ↔ q.isLost = true := by
  by_cases hclosing : q.closing
  · have hsame : q.close = q := if_pos hclosing
    rw [hsame]
    exact iff_of_true h (h.closed hclosing)
  · have hclose : q.close = { q with closing := true, reader := false } := if_neg hclosing
    rw [hclose]
    constructor
    · intro hafter
      exact hafter.closed rfl
    · intro hlost
      exact ⟨h.bytes, h.order, h.ended, fun _ => hlost, .inl rfl⟩

theorem Delivers.move (h : q.Delivers) (hmove : PipeMove q q') : q'.Delivers := by
  cases hmove with
  | kept => exact h
  | received hn => exact h.receive hn
  | paused =>
    unfold pauseReading
    split
    · exact h
    · exact ⟨h.bytes, h.order, h.ended, h.closed, .inr (.inr (.inr rfl))⟩
  | resumed refused =>
    unfold resumeReading
    split
    · exact h
    · refine ⟨h.bytes, h.order, h.ended, h.closed, .inr (.inr ?_)⟩
      cases refused with
      | false => exact .inl rfl
      | true => exact .inr rfl
  | written data hwriters =>
    have hopen : q.isLost = true → False := by
      intro hlost
      have hend := h.ended hlost
      simp [atEnd, hwriters] at hend
    refine ⟨?_, h.order, fun hlost => (hopen hlost).elim, h.closed, h.watched⟩
    show q.received ++ (q.unread ++ data) = q.written ++ data
    rw [← List.append_assoc, h.bytes]
  | hungUp =>
    refine ⟨h.bytes, h.order, fun hlost => ?_, h.closed, h.watched⟩
    have hend := h.ended hlost
    simp only [atEnd, Bool.and_eq_true] at hend
    simp [atEnd, hangUp, hend.1]

end

end ReadSubprocessPipe

namespace Subprocess

def Delivers (s : Subprocess) : Prop := ∀ p, ∀ q ∈ s.pipes p, q.Delivers

/-- The pipe whose `pipe_connection_lost` a step calls. -/
def loses? (s : Subprocess) : Act → Option ReadEnd
  | .runHandle answer => match s.batch.head? with
    | some (.readReady p) => if s.isOpen p && !answer.isBytes then some p else none
    | _ => none
  | .ret .osError => match s.running with
    | some (.dataReceived p) | some (.connectionLost p true) => if s.isOpen p then some p else none
    | _ => none
  | _ => none

/-- The pipes that a step closes; `_process_exited` closes all when it has drained the last. -/
def closes (s : Subprocess) (a : Act) (p : ReadEnd) : Bool :=
  match a with
  | .drain answer => match s.running with
    | some (.draining last []) => s.isOpen last && !answer.isBytes
    | _ => false
  | .ret .osError => match s.running with
    | some (.drained _ []) => true
    | _ => false
  | .call .close => !s.closed
  | .call (.closePipe p') => p = p'
  | _ => false

/-- `pipe_connection_lost` is called for a pipe that is at its end, once; and a pipe is closed only
after that. -/
def ReportsEnd (s : Subprocess) (a : Act) : Prop :=
  (∀ p ∈ s.loses? a, ∀ q ∈ s.pipes p, q.isLost = false ∧ q.atEnd = true) ∧
    ∀ p, s.closes a p = true → ∀ q ∈ s.pipes p, q.isLost = true

instance (s : Subprocess) (a : Act) : Decidable (s.ReportsEnd a) :=
  have (p : ReadEnd) : Decidable (∀ q ∈ s.pipes p, q.isLost = true) := Option.decidableForallMem _
  have : Decidable (∀ p, s.closes a p = true → ∀ q ∈ s.pipes p, q.isLost = true) :=
    decidable_of_iff
      ((s.closes a .stdout = true → ∀ q ∈ s.pipes .stdout, q.isLost = true) ∧
        (s.closes a .stderr = true → ∀ q ∈ s.pipes .stderr, q.isLost = true))
      ⟨fun h p => match p with | .stdout => h.1 | .stderr => h.2, fun h => ⟨h .stdout, h .stderr⟩⟩
  have (p : ReadEnd) : Decidable (∀ q ∈ s.pipes p, q.isLost = false ∧ q.atEnd = true) :=
    Option.decidableForallMem _
  have : Decidable (∀ p ∈ s.loses? a, ∀ q ∈ s.pipes p, q.isLost = false ∧ q.atEnd = true) :=
    Option.decidableForallMem _
  inferInstanceAs (Decidable (_ ∧ _))

section
variable {s t : Subprocess} {a : Act} {p : ReadEnd} {q : ReadSubprocessPipe}

theorem modifyPipe_pipes (p p' : ReadEnd) (f : ReadSubprocessPipe → ReadSubprocessPipe) (s : Subprocess) :
    (s.modifyPipe p f).pipes p' = if p' = p then (s.pipes p').map f else s.pipes p' := by
  by_cases hp : p' = p
  · subst hp
    simp [modifyPipe]
  · simp [modifyPipe, hp]

theorem drainNext_pipes (rest : List ReadEnd) (s : Subprocess) (p : ReadEnd) :
    (s.drainNext rest).pipes p = if rest = [] then (s.pipes p).map .close else s.pipes p := by
  cases rest <;> rfl

/-- A step calls `pipe_connection_lost` for a pipe, or closes it, or moves it. -/
inductive PipeStep (s : Subprocess) (a : Act) (p : ReadEnd) (q : ReadSubprocessPipe) :
    ReadSubprocessPipe → Prop
  | lost (h : s.loses? a = some p) (exc : Option LostExc) (hcloses : s.closes a p = false) :
      PipeStep s a p q (q.lose exc)
  | closed (h : s.loses? a ≠ some p) (hcloses : s.closes a p = true) : PipeStep s a p q q.close
  | moved {q' : ReadSubprocessPipe} (h : s.loses? a ≠ some p) (hcloses : s.closes a p = false)
      (hmove : q.PipeMove q') : PipeStep s a p q q'

theorem mem_readEnds (h : s.pipes p = some q) : p ∈ s.readEnds := by
  cases p <;> simp [readEnds, h]

/-- There is a pipe to drain, so the exit closes none yet. -/
theorem processExited_pipes (code : Int) (h : s.pipes p = some q) :
    (s.processExited code).pipes p = s.pipes p := by
  have hne : s.readEnds ≠ [] := List.ne_nil_of_mem (mem_readEnds h)
  unfold processExited
  rw [drainNext_pipes, if_neg hne]

/-- Nothing happens to the pipe. -/
theorem pipeStep_kept (hq : s.pipes p = some q) (hpipes : t.pipes p = s.pipes p)
    (hloses : s.loses? a ≠ some p) (hcloses : s.closes a p = false) :
    ∃ q', t.pipes p = some q' ∧ PipeStep s a p q q' :=
  ⟨q, hpipes.trans hq, .moved hloses hcloses .kept⟩

/-- A change of the pipe `p'`. -/
theorem pipeStep_modify (hq : s.pipes p = some q) {p' : ReadEnd} (f : ReadSubprocessPipe → ReadSubprocessPipe)
    (hpipes : t.pipes = (s.modifyPipe p' f).pipes) (hother : p ≠ p' → s.loses? a ≠ some p ∧ s.closes a p = false)
    (hf : p = p' → PipeStep s a p q (f q)) : ∃ q', t.pipes p = some q' ∧ PipeStep s a p q q' := by
  by_cases hp : p = p'
  · refine ⟨f q, ?_, hf hp⟩
    rw [hpipes, modifyPipe_pipes, if_pos hp, hq]
    rfl
  · obtain ⟨hloses, hcloses⟩ := hother hp
    apply pipeStep_kept hq _ hloses hcloses
    rw [hpipes, modifyPipe_pipes, if_neg hp]

/-- What is left of `_process_exited` closes the pipes if none is left to drain. -/
theorem pipeStep_drainNext (hq : s.pipes p = some q) (rest : List ReadEnd)
    (hloses : s.loses? a ≠ some p) (hcloses : s.closes a p = rest.isEmpty) :
    ∃ q', (s.drainNext rest).pipes p = some q' ∧ PipeStep s a p q q' := by
  cases rest with
  | nil =>
    refine ⟨q.close, ?_, .closed hloses hcloses⟩
    rw [drainNext_pipes, if_pos rfl, hq]
    rfl
  | cons p' rest => exact pipeStep_kept hq (drainNext_pipes _ _ _) hloses hcloses

theorem pipeStep_readReady (hq : s.pipes p = some q) {p' : ReadEnd} {rest : List Task} {answer : ReadAnswer}
    (hbatch : s.batch = .readReady p' :: rest) (h : execute (.readReady p') answer { s with batch := rest } = some t) :
    ∃ q', t.pipes p = some q' ∧ PipeStep s (.runHandle answer) p q q' := by
  have hhead : s.batch.head? = some (.readReady p') := by rw [hbatch]; rfl
  have hloses : s.loses? (.runHandle answer) = if s.isOpen p' && !answer.isBytes then some p' else none := by
    simp only [loses?, hhead]
  have hopen' : isOpen p' { s with batch := rest } = s.isOpen p' := rfl
  simp only [execute, readReady, hopen'] at h
  split at h
  · cases h
  · rename_i hadmits
    cases h
    cases hopen : s.isOpen p' with
    | false =>
      apply pipeStep_kept hq _ _ rfl
      · simp
      · simp [hloses, hopen]
    | true =>
      -- whatever the answer is, it is about the pipe that was read
      have hother (hp : p ≠ p') : s.loses? (.runHandle answer) ≠ some p ∧
          s.closes (.runHandle answer) p = false := by
        refine ⟨?_, rfl⟩
        rw [hloses]
        split
        · simpa using Ne.symm hp
        · simp
      cases answer with
      | bytes n =>
        apply pipeStep_modify hq (.receive n) rfl hother
        rintro rfl
        refine .moved (by simp [hloses, ReadAnswer.isBytes]) rfl (.received ?_)
        simpa [hopen, hq] using hadmits
      | eof =>
        apply pipeStep_modify hq (.lose none) rfl hother
        rintro rfl
        exact .lost (by simp [hloses, hopen, ReadAnswer.isBytes]) none rfl
      | osError errno =>
        apply pipeStep_modify hq (.lose (some (.osError errno))) rfl hother
        rintro rfl
        exact .lost (by simp [hloses, hopen, ReadAnswer.isBytes]) _ rfl

theorem pipeStep_drain (hq : s.pipes p = some q) {answer : ReadAnswer} (h : s.step (.drain answer) = some t) :
    ∃ q', t.pipes p = some q' ∧ PipeStep s (.drain answer) p q q' := by
  have hloses : s.loses? (.drain answer) ≠ some p := by simp [loses?]
  simp only [step] at h
  split at h
  · rename_i p' rest hrunning
    have hcloses : s.closes (.drain answer) p = (rest.isEmpty && s.isOpen p' && !answer.isBytes) := by
      simp only [closes, hrunning]
      cases rest <;> simp
    split at h
    · cases h
    · rename_i hadmits
      cases h
      unfold drain
      cases hopen : s.isOpen p' with
      | false => exact pipeStep_kept hq rfl hloses (by simp [hcloses, hopen])
      | true =>
        cases answer with
        | bytes n =>
          have hkept : s.closes (.drain (.bytes n)) p = false := by simp [hcloses, ReadAnswer.isBytes]
          apply pipeStep_modify hq (.receive n) rfl fun _ => ⟨hloses, hkept⟩
          rintro rfl
          refine .moved hloses hkept (.received ?_)
          simpa [hopen, hq] using hadmits
        | eof => exact pipeStep_drainNext hq rest hloses (by simp [hcloses, hopen, ReadAnswer.isBytes])
        | osError errno =>
          exact pipeStep_drainNext hq rest hloses (by simp [hcloses, hopen, ReadAnswer.isBytes])
  · cases h

/-- The protocol has raised an `OSError` out of `_read_ready`. -/
theorem pipeStep_exceptOSError (hq : s.pipes p = some q) {p' : ReadEnd}
    (hloses : s.loses? (.ret .osError) = if s.isOpen p' then some p' else none)
    (hcloses : s.closes (.ret .osError) p = false) :
    ∃ q', (s.exceptOSError p').pipes p = some q' ∧ PipeStep s (.ret .osError) p q q' := by
  unfold exceptOSError
  cases hopen : s.isOpen p' with
  | false => exact pipeStep_kept hq rfl (by simp [hloses, hopen]) hcloses
  | true =>
    rw [hopen, if_pos rfl] at hloses
    apply pipeStep_modify hq (.lose (some .protocol)) rfl
    · intro hp
      refine ⟨?_, hcloses⟩
      rw [hloses]
      simpa using Ne.symm hp
    · rintro rfl
      exact .lost hloses _ hcloses

theorem pipeStep_ret (hq : s.pipes p = some q) {r : ProtocolReturn} (h : s.step (.ret r) = some t) :
    ∃ q', t.pipes p = some q' ∧ PipeStep s (.ret r) p q q' := by
  simp only [step] at h
  split at h
  · cases h
  · cases h
  · rename_i frame hnot hrunning
    cases h
    have hkept (hr : r ≠ .osError) (hpipes : (s.resume frame r).pipes p = s.pipes p) :
        ∃ q', (s.resume frame r).pipes p = some q' ∧ PipeStep s (.ret r) p q q' := by
      apply pipeStep_kept hq hpipes
      · cases r <;> simp_all [loses?]
      · cases r <;> simp_all [closes]
    cases r with
    | value =>
      apply hkept (by simp)
      cases frame with
      | connectionLost p' again => cases again <;> rfl
      | _ => rfl
    | raised =>
      apply hkept (by simp)
      cases frame with
      | connectionLost p' again => cases again <;> rfl
      | _ => rfl
    | osError =>
      cases frame with
      | dataReceived p' => exact pipeStep_exceptOSError hq (by simp [loses?, hrunning]) (by simp [closes, hrunning])
      | connectionLost p' again =>
        cases again with
        | true => exact pipeStep_exceptOSError hq (by simp [loses?, hrunning]) (by simp [closes, hrunning])
        | false => exact pipeStep_kept hq rfl (by simp [loses?, hrunning]) (by simp [closes, hrunning])
      | draining p' rest => exact absurd rfl (hnot p' rest)
      | drained p' rest =>
        have hclosed : s.closes (.ret .osError) p = rest.isEmpty := by
          simp only [closes, hrunning]
          cases rest <;> rfl
        exact pipeStep_drainNext hq rest (by simp [loses?, hrunning]) hclosed
      | processExited => exact pipeStep_kept hq rfl (by simp [loses?, hrunning]) (by simp [closes, hrunning])

theorem pipeStep_call (hq : s.pipes p = some q) (c : Call) :
    ∃ q', (s.call c).pipes p = some q' ∧ PipeStep s (.call c) p q q' := by
  have hloses : s.loses? (.call c) ≠ some p := by simp [loses?]
  cases c with
  | close =>
    have hcloses : s.closes (.call .close) p = !s.closed := rfl
    cases hclosed : s.closed with
    | true =>
      refine pipeStep_kept hq ?_ hloses (by simp [hcloses, hclosed])
      simp [call, close, hclosed]
    | false =>
      refine ⟨q.close, ?_, .closed hloses (by simp [hcloses, hclosed])⟩
      simp [call, close, hclosed, closePipes, hq]
  | wait =>
    refine pipeStep_kept hq ?_ hloses rfl
    unfold call wait
    dsimp only
    split <;> rfl
  | pauseReading p' =>
    exact pipeStep_modify hq .pauseReading rfl (fun _ => ⟨hloses, rfl⟩) fun _ => .moved hloses rfl .paused
  | resumeReading p' refused =>
    exact pipeStep_modify hq (.resumeReading refused) rfl (fun _ => ⟨hloses, rfl⟩)
      fun _ => .moved hloses rfl (.resumed refused)
  | closePipe p' =>
    apply pipeStep_modify hq .close rfl
    · intro hp
      exact ⟨hloses, by simp [closes, hp]⟩
    · rintro rfl
      exact .closed hloses (by simp [closes])
  | _ => exact pipeStep_kept hq rfl hloses rfl

/-- What a step does to a pipe. -/
theorem step_pipe (hq : s.pipes p = some q) (h : s.step a = some t) :
    ∃ q', t.pipes p = some q' ∧ PipeStep s a p q q' := by
  cases a with
  | written p' data =>
    simp only [step] at h
    split at h
    · rename_i hwriters
      cases h
      apply pipeStep_modify hq (.write data) rfl fun _ => ⟨by simp [loses?], rfl⟩
      rintro rfl
      refine .moved (by simp [loses?]) rfl (.written data ?_)
      simp only [hq, Option.any_some, Bool.and_eq_true] at hwriters
      exact hwriters.1
    · cases h
  | hangUp p' =>
    cases h
    apply pipeStep_modify hq .hangUp rfl fun _ => ⟨by simp [loses?], rfl⟩
    intro _
    exact .moved (by simp [loses?]) rfl .hungUp
  | exit code held =>
    simp only [step] at h
    split at h
    · cases h
      cases hheld : held p with
      | true =>
        apply pipeStep_kept hq _ (by simp [loses?]) rfl
        simp [exit, hheld]
      | false =>
        refine ⟨q.hangUp, ?_, .moved (by simp [loses?]) rfl .hungUp⟩
        simp [exit, hheld, hq]
    · cases h
  | threadReports =>
    simp only [step] at h
    split at h
    · split at h
      · cases h
        exact pipeStep_kept hq rfl (by simp [loses?]) rfl
      · cases h
    · cases h
  | startTick tasks =>
    simp only [step] at h
    split at h
    · cases h
      exact pipeStep_kept hq rfl (by simp [loses?]) rfl
    · cases h
  | runHandle answer =>
    simp only [step] at h
    split at h
    · rename_i task rest hrunning hbatch
      have hexit (htask : ∀ p', task ≠ .readReady p') : s.loses? (.runHandle answer) ≠ some p := by
        simp only [loses?, hbatch, List.head?_cons]
        split
        · rename_i p' htask'
          exact absurd (Option.some_inj.mp htask') (htask p')
        · simp
      cases task with
      | readReady p' => exact pipeStep_readReady hq hbatch h
      | pidfdReady =>
        obtain ⟨code, -, rfl⟩ := Option.map_eq_some_iff.mp h
        exact pipeStep_kept hq (processExited_pipes code hq) (hexit (by simp)) rfl
      | processExited code =>
        cases h
        exact pipeStep_kept hq (processExited_pipes code hq) (hexit (by simp)) rfl
    · cases h
  | drain answer => exact pipeStep_drain hq h
  | ret r => exact pipeStep_ret hq h
  | call c =>
    simp only [step] at h
    split at h
    · cases h
      exact pipeStep_call hq c
    · cases h
  | writeReady result =>
    simp only [step] at h
    split at h
    · split at h
      · cases h
        exact pipeStep_kept hq rfl (by simp [loses?]) rfl
      · cases h
    · cases h

/-! ## A pipe that is not there -/

theorem modifyPipe_none (hnone : s.pipes p = none) (p' : ReadEnd)
    (f : ReadSubprocessPipe → ReadSubprocessPipe) : (s.modifyPipe p' f).pipes p = none := by
  rw [modifyPipe_pipes]
  split <;> simp [hnone]

theorem drainNext_none (hnone : s.pipes p = none) (rest : List ReadEnd) :
    (s.drainNext rest).pipes p = none := by
  rw [drainNext_pipes]
  split <;> simp [hnone]

theorem processExited_none (hnone : s.pipes p = none) (code : Int) :
    (s.processExited code).pipes p = none :=
  drainNext_none (s := { s with returncode := some code }) hnone _

theorem exceptOSError_none (hnone : s.pipes p = none) (p' : ReadEnd) :
    (s.exceptOSError p').pipes p = none := by
  unfold exceptOSError
  split
  · exact hnone
  · exact modifyPipe_none hnone p' _

theorem call_none (hnone : s.pipes p = none) (c : Call) : (s.call c).pipes p = none := by
  cases c with
  | close =>
    unfold call close
    dsimp only
    split
    · exact hnone
    · simp [closePipes, hnone]
  | wait =>
    unfold call wait
    dsimp only
    split <;> exact hnone
  | pauseReading p' => exact modifyPipe_none hnone p' _
  | resumeReading p' refused => exact modifyPipe_none hnone p' _
  | closePipe p' => exact modifyPipe_none hnone p' _
  | _ => exact hnone

theorem execute_none {task : Task} {answer : ReadAnswer} (hnone : s.pipes p = none)
    (h : s.execute task answer = some t) : t.pipes p = none := by
  cases task with
  | readReady p' =>
    simp only [execute] at h
    split at h
    · cases h
    · cases h
      unfold readReady
      split
      · exact hnone
      · cases answer <;> exact modifyPipe_none hnone p' _
  | pidfdReady =>
    obtain ⟨code, -, rfl⟩ := Option.map_eq_some_iff.mp h
    exact processExited_none (s := { s with pidfd := false }) hnone code
  | processExited code =>
    cases h
    exact processExited_none hnone code

theorem resume_none (hnone : s.pipes p = none) (frame : Frame) (r : ProtocolReturn) :
    (s.resume frame r).pipes p = none := by
  unfold resume
  split
  · exact exceptOSError_none hnone _
  · exact exceptOSError_none hnone _
  · exact hnone
  · exact hnone
  · exact hnone
  · exact drainNext_none hnone _
  · exact hnone
  · exact hnone
  · exact hnone

theorem step_none (hnone : s.pipes p = none) (h : s.step a = some t) : t.pipes p = none := by
  cases a with
  | hangUp p' =>
    cases h
    exact modifyPipe_none hnone p' _
  | runHandle answer =>
    simp only [step] at h
    split at h
    · rename_i task rest hrunning hbatch
      exact execute_none (s := { s with batch := rest }) hnone h
    · cases h
  | drain answer =>
    simp only [step] at h
    split at h
    · split at h
      · cases h
      · cases h
        unfold drain
        split
        · exact hnone
        · cases answer with
          | bytes n => exact modifyPipe_none hnone _ _
          | _ => exact drainNext_none hnone _
    · cases h
  | ret r =>
    simp only [step] at h
    split at h
    · cases h
    · cases h
    · cases h
      exact resume_none hnone _ r
  | call c =>
    simp only [step] at h
    split at h
    · cases h
      exact call_none hnone c
    · cases h
  | written p' data =>
    simp only [step] at h
    split at h
    · cases h
      exact modifyPipe_none hnone p' _
    · cases h
  | exit code held =>
    simp only [step] at h
    split at h
    · cases h
      simp [exit, hnone]
    · cases h
  | threadReports =>
    simp only [step] at h
    split at h
    · split at h
      · cases h
        exact hnone
      · cases h
    · cases h
  | startTick tasks =>
    simp only [step] at h
    split at h
    · cases h
      exact hnone
    · cases h
  | writeReady result =>
    simp only [step] at h
    split at h
    · split at h
      · cases h
        exact hnone
      · cases h
    · cases h

/-! ## Whole runs -/

theorem delivers_init (stdin : Option WriteSubprocessPipe) (piped : ReadEnd → Bool) (usePidfd : Bool) :
    (new stdin piped usePidfd).Delivers := by
  intro p q hq
  simp only [new] at hq
  split at hq
  · cases hq
    exact ReadSubprocessPipe.delivers_new
  · cases hq

/-- One step: all is delivered as before if the ends that it tells, and the pipes that it closes, are
right. -/
theorem Delivers.step_iff (hs : s.Delivers) (h : s.step a = some t) : t.Delivers ↔ s.ReportsEnd a := by
  constructor
  · intro ht
    refine ⟨fun p hp q hq => ?_, fun p hp q hq => ?_⟩
    · obtain ⟨q', hq', hpipe⟩ := step_pipe hq h
      have hafter := ht p q' hq'
      cases hpipe with
      | lost hloses exc hcloses => exact ((hs p q hq).lose_iff exc).mp hafter
      | closed hloses hcloses => exact absurd hp hloses
      | moved hloses hcloses hmove => exact absurd hp hloses
    · obtain ⟨q', hq', hpipe⟩ := step_pipe hq h
      have hafter := ht p q' hq'
      cases hpipe with
      | lost hloses exc hcloses =>
        rw [hp] at hcloses
        cases hcloses
      | closed hloses hcloses => exact (hs p q hq).close_iff.mp hafter
      | moved hloses hcloses hmove =>
        rw [hp] at hcloses
        cases hcloses
  · rintro ⟨hends, hcloses⟩ p q' hq'
    cases hq : s.pipes p with
    | none =>
      rw [step_none hq h] at hq'
      cases hq'
    | some q =>
      obtain ⟨q'', hq'', hpipe⟩ := step_pipe hq h
      obtain rfl := Option.some_inj.mp (hq'.symm.trans hq'')
      have hbefore := hs p q hq
      cases hpipe with
      | lost hloses exc hkept => exact (hbefore.lose_iff exc).mpr (hends p hloses q hq)
      | closed hloses hclosed => exact hbefore.close_iff.mpr (hcloses p hclosed q hq)
      | moved hloses hkept hmove => exact hbefore.move hmove

/-- **Subprocess pipes.** All along a run, stdout and stderr are delivered as they should be if and only
if in every step ends are told, and pipes are closed, in their time. -/
theorem delivers_iff (stdin : Option WriteSubprocessPipe) (piped : ReadEnd → Bool) (usePidfd : Bool)
    {as : List Act} (hrun : machine.run (new stdin piped usePidfd) as = some t) :
    machine.Always Delivers (new stdin piped usePidfd) as ↔
      machine.Meets ReportsEnd (new stdin piped usePidfd) as := by
  refine Machine.always_iff_meets (I := fun _ => True) ?_ trivial (delivers_init stdin piped usePidfd) hrun
  intro s a t _ hs hstep
  exact ⟨trivial, hs.step_iff hstep⟩

/-- The child closes its ends, and exits when their readers have seen it. -/
def closingRun : List Act :=
  [.written .stdout [1, 2], .hangUp .stdout, .hangUp .stderr,
    .startTick [.readReady .stdout, .readReady .stderr], .runHandle (.bytes 2), .ret .value,
    .runHandle .eof, .ret .value, .startTick [.readReady .stdout], .runHandle .eof, .ret .value,
    .exit 0 fun _ => false, .startTick [.pidfdReady], .runHandle .eof, .drain .eof, .drain .eof, .ret .value]

theorem delivers_iff_closing : ∃ t, machine.run (new none (fun _ => true) true) closingRun = some t ∧
    machine.Always Delivers (new none (fun _ => true) true) closingRun ∧
    (t.pipes .stdout).map ReadSubprocessPipe.log = some [.dataReceived [1, 2], .connectionLost none] := by
  obtain ⟨t, hrun, hmeets, hlog⟩ : ∃ t, machine.run (new none (fun _ => true) true) closingRun = some t ∧
      machine.Meets ReportsEnd (new none (fun _ => true) true) closingRun ∧
      (t.pipes .stdout).map ReadSubprocessPipe.log = some [.dataReceived [1, 2], .connectionLost none] :=
    ⟨_, rfl, by decide, rfl⟩
  exact ⟨t, hrun, (delivers_iff none (fun _ => true) true hrun).mpr hmeets, hlog⟩

/-- The child writes and exits, and one poll reports both: the pipes are closed, and their ends are never
told. -/
theorem not_delivers_exited : ∃ t, machine.run (new none (fun _ => true) true)
      [.written .stdout [1], .exit 0 fun _ => false,
        .startTick [.readReady .stdout, .readReady .stderr, .pidfdReady], .runHandle (.bytes 1), .ret .value,
        .runHandle .eof, .ret .value, .runHandle .eof, .drain .eof, .drain .eof, .ret .value] = some t ∧
    (∃ q, t.pipes .stdout = some q ∧ q.closing = true ∧ q.log = [.dataReceived [1]]) ∧ ¬ t.Delivers := by
  refine ⟨_, rfl, ⟨_, rfl, rfl, rfl⟩, ?_⟩
  intro h
  have hlost := (h .stdout _ rfl).closed rfl
  revert hlost
  decide

/-- Nothing is under way, and no handle would be queued. -/
def quiescent (s : Subprocess) : Bool :=
  s.running.isNone && s.batch.isEmpty && s.ready.isEmpty &&
    !s.reports (.readReady .stdout) && !s.reports (.readReady .stderr) && !s.reports .pidfdReady

/-- When the child and its heirs are gone and the loop has nothing to do, the protocol has got all that
was written, and its end; but a pipe that the program has paused may wait. -/
theorem Delivers.complete (hs : s.Delivers) (hquiet : s.quiescent = true) (hq : s.pipes p = some q)
    (hwriters : q.writers = false) (hpaused : q.paused = false) :
    q.received = q.written ∧ ∃ calls exc, q.log = calls ++ [.connectionLost exc] ∧
      ∀ c ∈ calls, c.isLost = false := by
  have hreports : s.reports (.readReady p) = false := by
    simp only [quiescent, Bool.and_eq_true, Bool.not_eq_true'] at hquiet
    cases p with
    | stdout => exact hquiet.1.1.2
    | stderr => exact hquiet.1.2
  have hpipe := hs p q hq
  -- a quiet selector has no reader of a pipe without writers
  have hreader : q.reader = false := by
    simpa [reports, hq, ReadSubprocessPipe.readable, hwriters] using hreports
  have hlost : q.isLost = true := by
    rcases hpipe.watched with hclosing | hlost | hread | hread
    · exact hpipe.closed hclosing
    · exact hlost
    · rw [hreader] at hread
      cases hread
    · rw [hpaused] at hread
      cases hread
  have hend := hpipe.ended hlost
  simp only [ReadSubprocessPipe.atEnd, Bool.and_eq_true, List.isEmpty_iff] at hend
  have hbytes := hpipe.bytes
  rw [hend.1, List.append_nil] at hbytes
  refine ⟨hbytes, ?_⟩
  have hne : q.log ≠ [] := by
    intro hempty
    simp [ReadSubprocessPipe.isLost, hempty] at hlost
  have hlog := List.dropLast_concat_getLast hne
  -- the end was told, and not before the last call
  have hlast : (q.log.getLast hne).isLost = true := by
    rw [ReadSubprocessPipe.isLost, ← hlog, List.any_append, List.any_eq_false.mpr ?_] at hlost
    · simpa using hlost
    · intro c hc
      simp [hpipe.order c hc]
  obtain ⟨exc, hexc⟩ : ∃ exc, q.log.getLast hne = .connectionLost exc := by
    cases hcall : q.log.getLast hne with
    | connectionLost exc => exact ⟨exc, rfl⟩
    | dataReceived data =>
      rw [hcall] at hlast
      cases hlast
  exact ⟨q.log.dropLast, exc, by rw [← hexc, hlog], hpipe.order⟩

end

end Subprocess

end Uringcore
