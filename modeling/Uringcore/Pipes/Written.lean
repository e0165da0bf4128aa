import Uringcore.Subprocess

/-!
# Nothing that is written to a pipe is lost

`WritePipeTransport` and `WriteSubprocessPipeTransport` keep a buffer, a registration with the loop and
a flag for `close` in the same way. `PipeWriter` is what they have in common, with the operations that
their methods come to, and `PipeWriter.Sound` ties the three to what the program has written and what
the pipe has taken. The transports are then compared with it method by method.

A write error is either that of `os.write` or that of the registration for it.
-/

namespace Uringcore

/-! ## The writer of a pipe -/

/-- What happens to the data of a pipe. -/
inductive WriterEvent where
  | write (data : Bytes)
  | took (data : Bytes)
  | close
  | other
  deriving DecidableEq, Repr

/-- A history of both ends of a writer. -/
structure PipeHistory where
  /-- What `os.write` has taken. -/
  handed : Bytes
  /-- The data of all the writes made before `close`. -/
  accepted : Bytes
  closed : Bool
  deriving DecidableEq, Repr

namespace PipeHistory

def new : PipeHistory := ⟨[], [], false⟩

def after (h : PipeHistory) : WriterEvent → PipeHistory
  | .write data => if h.closed then h else { h with accepted := h.accepted ++ data }
  | .took data => { h with handed := h.handed ++ data }
  | .close => { h with closed := true }
  | .other => h

end PipeHistory

structure PipeWriter where
  buffer : Bytes
  closing : Bool
  pipeClosed : Bool
  writer : Bool
  deriving DecidableEq, Repr

namespace PipeWriter

def write (data : Bytes) (w : PipeWriter) : PipeWriter :=
  if w.closing then w else { w with buffer := w.buffer ++ data, writer := true }

def take (n : Nat) (w : PipeWriter) : PipeWriter := { w with buffer := w.buffer.drop n }

/-- The writer is no longer needed when the buffer is empty, nor is the pipe after `close`. -/
def finish (w : PipeWriter) : PipeWriter :=
  if w.buffer.isEmpty && !w.pipeClosed then { w with writer := false, pipeClosed := w.closing } else w

def close (w : PipeWriter) : PipeWriter :=
  if w.closing then w else { w with closing := true, pipeClosed := w.pipeClosed || w.buffer.isEmpty }

/-- `atWork` says that a `_write_ready` has not returned, which may still close the pipe. -/
structure LosesNothing (w : PipeWriter) (atWork : Prop) (h : PipeHistory) : Prop where
  bytes : h.handed ++ w.buffer = h.accepted
  watched : w.buffer ≠ [] → w.writer = true
  /-- The pipe is not closed too early, -/
  waits : w.pipeClosed = true → h.closed = true ∧ h.handed = h.accepted
  /-- nor is it left open. -/
  closes : h.closed = true → h.handed = h.accepted → ¬ atWork → w.pipeClosed = true

/-- What holds at every moment, inside a `_write_ready` too. -/
structure Sound (w : PipeWriter) (h : PipeHistory) : Prop where
  bytes : h.handed ++ w.buffer = h.accepted
  watched : w.buffer ≠ [] → w.writer = true
  closing : w.closing = h.closed
  drained : w.pipeClosed = true → w.buffer = [] ∧ w.closing = true

/-- The pipe is closed when it can be. -/
def Finished (w : PipeWriter) : Prop := w.closing = true → w.buffer = [] → w.pipeClosed = true

variable {w : PipeWriter} {h : PipeHistory}

theorem Sound.handed_eq_iff (hw : w.Sound h) : h.handed = h.accepted ↔ w.buffer = [] := by
  rw [← hw.bytes]
  constructor
  · intro heq
    exact List.self_eq_append_right.mp heq
  · intro hempty
    rw [hempty, List.append_nil]

theorem Sound.losesNothing (hw : w.Sound h) {atWork : Prop} (hfinished : ¬ atWork → w.Finished) :
    w.LosesNothing atWork h where
  bytes := hw.bytes
  watched := hw.watched
  waits hclosed := by
    obtain ⟨hempty, hclosing⟩ := hw.drained hclosed
    exact ⟨hw.closing ▸ hclosing, hw.handed_eq_iff.mpr hempty⟩
  closes hclosed hall hidle := by
    apply hfinished hidle
    · rw [hw.closing, hclosed]
    · exact hw.handed_eq_iff.mp hall

theorem Sound.write (hw : w.Sound h) (data : Bytes) : (w.write data).Sound (h.after (.write data)) := by
  by_cases hclosing : w.closing
  · have hclosed : h.closed = true := hw.closing ▸ hclosing
    simpa [PipeWriter.write, hclosing, PipeHistory.after, hclosed] using hw
  · have hopen : ¬ h.closed = true := hw.closing ▸ hclosing
    simp only [PipeWriter.write, if_neg hclosing, PipeHistory.after, if_neg hopen]
    refine ⟨?_, fun _ => rfl, hw.closing, ?_⟩
    · rw [← hw.bytes, List.append_assoc]
    · -- a closed pipe would be closing
      intro hclosed
      exact absurd (hw.drained hclosed).2 hclosing

theorem Sound.take (hw : w.Sound h) (n : Nat) :
    (w.take n).Sound (h.after (.took (w.buffer.take n))) where
  bytes := by
    show (h.handed ++ w.buffer.take n) ++ w.buffer.drop n = h.accepted
    rw [List.append_assoc, List.take_append_drop, hw.bytes]
  watched hrest := by
    apply hw.watched
    intro hempty
    apply hrest
    simp [PipeWriter.take, hempty]
  closing := hw.closing
  drained hclosed := by
    obtain ⟨hempty, hclosing⟩ := hw.drained hclosed
    exact ⟨by simp [PipeWriter.take, hempty], hclosing⟩

/-- An idle writer may be removed. -/
theorem Sound.idle (hw : w.Sound h) (hempty : w.buffer = []) : Sound { w with writer := false } h :=
  ⟨hw.bytes, fun hne => absurd hempty hne, hw.closing, hw.drained⟩

theorem Sound.finish (hw : w.Sound h) : w.finish.Sound h := by
  unfold PipeWriter.finish
  split
  · rename_i hdone
    obtain ⟨hempty, -⟩ : w.buffer = [] ∧ w.pipeClosed = false := by simpa using hdone
    exact ⟨hw.bytes, fun hne => absurd hempty hne, hw.closing, fun hclosing => ⟨hempty, hclosing⟩⟩
  · exact hw

theorem finish_finished (w : PipeWriter) : w.finish.Finished := by
  unfold PipeWriter.finish
  split
  · exact fun hclosing _ => hclosing
  · rename_i hdone
    intro _ hempty
    simpa [hempty] using hdone

theorem Sound.close (hw : w.Sound h) : w.close.Sound (h.after .close) := by
  unfold PipeWriter.close
  split
  · rename_i hclosing
    exact ⟨hw.bytes, hw.watched, hclosing, hw.drained⟩
  · refine ⟨hw.bytes, hw.watched, rfl, ?_⟩
    intro hclosed
    rcases Bool.or_eq_true .. ▸ hclosed with hbefore | hempty
    · exact ⟨(hw.drained hbefore).1, rfl⟩
    · exact ⟨List.isEmpty_iff.mp hempty, rfl⟩

theorem Finished.close (hw : w.Finished) : w.close.Finished := by
  unfold PipeWriter.close
  split
  · exact hw
  · intro _ hempty
    simp only at hempty ⊢
    simp [hempty]

end PipeWriter

/-! ## `WritePipeTransport` -/

namespace WritePipe
open PipeWriter (Sound Finished)

def toWriter (t : WritePipe) : PipeWriter := ⟨t.buffer, t.closing, t.pipeClosed, t.writer⟩

def event (t : WritePipe) : Act → WriterEvent
  | .write data _ => .write data
  | .writeReady (.wrote n) => if t.pipeClosed then .other else .took (t.buffer.take n)
  | .close => .close
  | .writeReady _ | .ret | .abort | .setWriteBufferLimits .. => .other

/-- The label is neither an error nor `abort`. -/
def Act.undisturbed : Act → Bool
  | .write _ refused => !refused
  | .writeReady (.osError _) | .abort => false
  | .writeReady _ | .ret | .close | .setWriteBufferLimits .. => true

variable {t u : WritePipe} {h : PipeHistory}

@[simp] theorem toWriter_callProtocol (e : PipeEvent) : (t.callProtocol e).toWriter = t.toWriter := rfl

theorem toWriter_write {data : Bytes} (hdata : data ≠ []) (hopen : t.pipeClosed = true → t.closing = true) :
    (t.write false data).toWriter = t.toWriter.write data := by
  have hne : data.isEmpty = false := by simpa using hdata
  by_cases hclosing : t.closing
  · simp [WritePipe.write, PipeWriter.write, toWriter, hclosing]
  · have hpipe : t.pipeClosed = false := by
      cases hp : t.pipeClosed with
      | false => rfl
      | true => exact absurd (hopen hp) hclosing
    simp only [WritePipe.write, PipeWriter.write, hne, hpipe, Bool.or_false, Bool.false_eq_true, if_false,
      if_neg hclosing, toWriter]
    split <;> rfl

theorem toWriter_written : t.written.toWriter = t.toWriter.finish := by
  by_cases hdone : t.buffer.isEmpty && !t.pipeClosed
  · have hfinish : t.toWriter.finish = { t.toWriter with writer := false, pipeClosed := t.closing } :=
      if_pos hdone
    have hopen : t.pipeClosed = false := by simp_all
    rw [hfinish, written, if_pos hdone]
    cases hclosing : t.closing <;> simp [toWriter, callProtocol, hclosing, hopen]
  · have hfinish : t.toWriter.finish = t.toWriter := if_neg hdone
    rw [hfinish, written, if_neg hdone]

theorem toWriter_close : t.close.toWriter = t.toWriter.close := by
  by_cases hclosing : t.closing
  · have hclose : t.toWriter.close = t.toWriter := if_pos hclosing
    rw [hclose, WritePipe.close, if_pos hclosing]
  · have hclose : t.toWriter.close =
        { t.toWriter with closing := true, pipeClosed := t.pipeClosed || t.buffer.isEmpty } := if_neg hclosing
    rw [hclose, WritePipe.close, if_neg hclosing]
    cases hempty : t.buffer.isEmpty <;> simp [toWriter, callProtocol, hempty]

/-- A `_write_ready` that has not returned goes on in `written`. -/
structure Inv (t : WritePipe) (h : PipeHistory) : Prop where
  sound : t.toWriter.Sound h
  finished : .resumeWriting ∉ t.stack → t.toWriter.Finished

theorem Inv.write (hinv : t.Inv h) (data : Bytes) :
    (t.write false data).Inv (h.after (.write data)) := by
  by_cases hdata : data = []
  · subst hdata
    have hsame : t.write false [] = t := by simp [WritePipe.write]
    have hhist : h.after (.write []) = h := by simp [PipeHistory.after]
    rw [hsame, hhist]
    exact hinv
  · have hwriter := toWriter_write hdata fun hclosed => (hinv.sound.drained hclosed).2
    refine ⟨hwriter ▸ hinv.sound.write data, fun hidle => ?_⟩
    rw [hwriter]
    by_cases hclosing : t.closing
    · have hsame : t.write false data = t := by simp [WritePipe.write, hclosing]
      have hkept : t.toWriter.write data = t.toWriter := if_pos hclosing
      rw [hkept]
      exact hinv.finished (hsame ▸ hidle)
    · -- the pipe need not be closed before `close`
      have hkept : (t.toWriter.write data).closing = t.closing := by
        simp [PipeWriter.write, toWriter, hclosing]
      exact fun hafter => absurd (hkept ▸ hafter) hclosing

theorem inv_written (hsound : t.toWriter.Sound h) : t.written.Inv h := by
  refine ⟨?_, fun _ => ?_⟩ <;> rw [toWriter_written]
  · exact hsound.finish
  · exact PipeWriter.finish_finished _

theorem Inv.writeReady (hinv : t.Inv h) {result : WriteResult}
    (hfine : (Act.writeReady result).undisturbed = true) :
    (t.writeReady result).Inv (h.after (t.event (.writeReady result))) := by
  by_cases hclosed : t.pipeClosed
  · have hevent : t.event (.writeReady result) = .other := by cases result <;> simp [event, hclosed]
    rw [hevent, WritePipe.writeReady.eq_def, if_pos hclosed]
    exact hinv
  · by_cases hempty : t.buffer = []
    · -- an idle writer is removed, whatever `os.write` would answer
      have hevent : h.after (t.event (.writeReady result)) = h := by
        cases result <;> simp [event, hclosed, hempty, PipeHistory.after]
      rw [hevent, WritePipe.writeReady.eq_def, if_neg hclosed, if_pos (List.isEmpty_iff.mpr hempty)]
      exact ⟨hinv.sound.idle hempty, hinv.finished⟩
    · rw [WritePipe.writeReady.eq_def, if_neg hclosed, if_neg fun hnil => hempty (List.isEmpty_iff.mp hnil)]
      cases result with
      | wrote n =>
        have hsound := hinv.sound.take n
        rw [event, if_neg hclosed]
        dsimp only
        split
        · -- `resume_writing` runs first, so the rest of the method is still to come
          refine ⟨hsound, fun hidle => ?_⟩
          exact absurd List.mem_cons_self hidle
        · exact inv_written hsound
      | wouldBlock => exact hinv
      | osError errno => cases hfine

theorem Inv.resume {call : PipeEvent} {rest : List PipeEvent} (hinv : t.Inv h) (hstack : t.stack = call :: rest) :
    (resume call { t with stack := rest }).Inv h := by
  cases call with
  | resumeWriting => exact inv_written (t := { t with stack := rest }) hinv.sound
  | pauseWriting | connectionLost errno =>
    refine ⟨hinv.sound, fun hidle => ?_⟩
    apply hinv.finished
    rw [hstack]
    simpa [WritePipe.resume] using hidle

theorem Inv.close (hinv : t.Inv h) : t.close.Inv (h.after .close) := by
  refine ⟨toWriter_close ▸ hinv.sound.close, fun hidle => ?_⟩
  rw [toWriter_close]
  apply (hinv.finished ?_).close
  intro hwork
  apply hidle
  unfold WritePipe.close
  split
  · exact hwork
  · dsimp only
    split
    · exact List.mem_cons_of_mem _ hwork
    · exact hwork

theorem Inv.step {a : Act} (hinv : t.Inv h) (hfine : a.undisturbed = true) (hstep : t.step a = some u) :
    u.Inv (h.after (t.event a)) := by
  cases a with
  | write data refused =>
    cases hstep
    obtain rfl : refused = false := by simpa [Act.undisturbed] using hfine
    exact hinv.write data
  | writeReady result =>
    simp only [WritePipe.step] at hstep
    split at hstep
    · cases hstep
      exact hinv.writeReady hfine
    · cases hstep
  | ret =>
    simp only [WritePipe.step] at hstep
    split at hstep
    · rename_i call rest hstack
      cases hstep
      exact hinv.resume hstack
    · cases hstep
  | close =>
    cases hstep
    exact hinv.close
  | abort => cases hfine
  | setWriteBufferLimits high low =>
    cases hstep
    exact ⟨hinv.sound, hinv.finished⟩

/-- With the history of its data. -/
def recorded : Machine (WritePipe × PipeHistory) Act := machine.ghost fun t a _ h => h.after (t.event a)

theorem inv_new : (new true).Inv .new where
  sound := ⟨rfl, fun hne => absurd rfl hne, rfl, fun hclosed => by cases hclosed⟩
  finished _ hclosing := by cases hclosing

theorem inv_run {acts : List Act} (hfine : ∀ a ∈ acts, a.undisturbed = true)
    (hrun : recorded.run (new true, .new) acts = some (t, h)) : t.Inv h := by
  refine Machine.run_invariant (I := fun s => s.1.Inv s.2) ?_ inv_new (Machine.meets_of_forall hfine) hrun
  rintro ⟨t, h⟩ a ⟨u, g⟩ hinv hundisturbed hstep
  obtain ⟨hnext, rfl⟩ := Machine.ghost_step_mk.mp hstep
  exact hinv.step hundisturbed hnext

end WritePipe

/-! ## `WriteSubprocessPipeTransport` -/

namespace WriteSubprocessPipe
open PipeWriter (Sound Finished)

def toWriter (t : WriteSubprocessPipe) : PipeWriter := ⟨t.buffer, t.closing, t.pipeClosed, t.writer⟩

def event (t : WriteSubprocessPipe) : Act → WriterEvent
  | .write data _ => .write data
  | .writeReady (.wrote n) => if t.pipeClosed then .other else .took (t.buffer.take n)
  | .close => .close
  | .writeReady _ | .abort => .other

/-- The label is neither an error nor `abort`. -/
def Act.undisturbed : Act → Bool
  | .write _ refused => !refused
  | .writeReady (.osError _) | .abort => false
  | .writeReady _ | .close => true

variable {t u : WriteSubprocessPipe} {h : PipeHistory}

theorem toWriter_write {data : Bytes} (hopen : t.pipeClosed = true → t.closing = true) :
    (t.write false data).toWriter = t.toWriter.write data := by
  by_cases hclosing : t.closing
  · simp [WriteSubprocessPipe.write, PipeWriter.write, toWriter, hclosing]
  · have hpipe : t.pipeClosed = false := by
      cases hp : t.pipeClosed with
      | false => rfl
      | true => exact absurd (hopen hp) hclosing
    simp [WriteSubprocessPipe.write, PipeWriter.write, toWriter, hclosing, hpipe]

theorem toWriter_wrote (n : Nat) (hopen : t.pipeClosed = false) (hfull : t.buffer.isEmpty = false) :
    (t.writeReady (.wrote n)).toWriter = (t.toWriter.take n).finish := by
  simp only [WriteSubprocessPipe.writeReady, hopen, hfull, Bool.false_eq_true, if_false, PipeWriter.take,
    PipeWriter.finish, toWriter]
  cases hempty : (t.buffer.drop n).isEmpty <;> simp

theorem toWriter_close : t.close.toWriter = t.toWriter.close := by
  by_cases hclosing : t.closing
  · have hclose : t.toWriter.close = t.toWriter := if_pos hclosing
    rw [hclose, WriteSubprocessPipe.close, if_pos hclosing]
  · have hclose : t.toWriter.close =
        { t.toWriter with closing := true, pipeClosed := t.pipeClosed || t.buffer.isEmpty } := if_neg hclosing
    rw [hclose, WriteSubprocessPipe.close, if_neg hclosing]
    rfl

/-- The methods do not call the program before they are done. -/
def Inv (t : WriteSubprocessPipe) (h : PipeHistory) : Prop := t.toWriter.Sound h ∧ t.toWriter.Finished

theorem Inv.write (hinv : t.Inv h) (data : Bytes) :
    (t.write false data).Inv (h.after (.write data)) := by
  obtain ⟨hsound, hfinished⟩ := hinv
  have hwriter : (t.write false data).toWriter = t.toWriter.write data :=
    toWriter_write fun hclosed => (hsound.drained hclosed).2
  unfold Inv
  rw [hwriter]
  refine ⟨hsound.write data, ?_⟩
  unfold PipeWriter.write
  split
  · exact hfinished
  · rename_i hclosing
    exact fun hafter => absurd hafter hclosing

theorem Inv.writeReady (hinv : t.Inv h) {result : WriteResult}
    (hfine : (Act.writeReady result).undisturbed = true) :
    (t.writeReady result).Inv (h.after (t.event (.writeReady result))) := by
  obtain ⟨hsound, hfinished⟩ := hinv
  by_cases hclosed : t.pipeClosed
  · have hevent : t.event (.writeReady result) = .other := by cases result <;> simp [event, hclosed]
    rw [hevent, WriteSubprocessPipe.writeReady.eq_def, if_pos hclosed]
    exact ⟨hsound, hfinished⟩
  · by_cases hempty : t.buffer = []
    · have hevent : h.after (t.event (.writeReady result)) = h := by
        cases result <;> simp [event, hclosed, hempty, PipeHistory.after]
      rw [hevent, WriteSubprocessPipe.writeReady.eq_def, if_neg hclosed,
        if_pos (List.isEmpty_iff.mpr hempty)]
      exact ⟨hsound.idle hempty, hfinished⟩
    · have hfull : t.buffer.isEmpty = false := by simpa using hempty
      have hopen : t.pipeClosed = false := by simpa using hclosed
      cases result with
      | wrote n =>
        unfold Inv
        rw [toWriter_wrote n hopen hfull]
        simp only [event, if_neg hclosed]
        exact ⟨(hsound.take n).finish, PipeWriter.finish_finished _⟩
      | wouldBlock =>
        simp only [WriteSubprocessPipe.writeReady, hclosed, hfull, Bool.false_eq_true, if_false]
        exact ⟨hsound, hfinished⟩
      | osError errno => cases hfine

theorem Inv.step {a : Act} (hinv : t.Inv h) (hfine : a.undisturbed = true) (hstep : t.step a = some u) :
    u.Inv (h.after (t.event a)) := by
  cases a with
  | write data refused =>
    cases hstep
    obtain rfl : refused = false := by simpa [Act.undisturbed] using hfine
    exact hinv.write data
  | writeReady result =>
    simp only [WriteSubprocessPipe.step] at hstep
    split at hstep
    · cases hstep
      exact hinv.writeReady hfine
    · cases hstep
  | close =>
    cases hstep
    unfold Inv
    rw [toWriter_close]
    exact ⟨hinv.1.close, hinv.2.close⟩
  | abort => cases hfine

/-- With the history of its data. -/
def recorded : Machine (WriteSubprocessPipe × PipeHistory) Act :=
  machine.ghost fun t a _ h => h.after (t.event a)

theorem inv_new : (new true).Inv .new :=
  ⟨⟨rfl, fun hne => absurd rfl hne, rfl, fun hclosed => by cases hclosed⟩, fun hclosing => by cases hclosing⟩

theorem inv_run {acts : List Act} (hfine : ∀ a ∈ acts, a.undisturbed = true)
    (hrun : recorded.run (new true, .new) acts = some (t, h)) : t.Inv h := by
  refine Machine.run_invariant (I := fun s => s.1.Inv s.2) ?_ inv_new (Machine.meets_of_forall hfine) hrun
  rintro ⟨t, h⟩ a ⟨u, g⟩ hinv hundisturbed hstep
  obtain ⟨hnext, rfl⟩ := Machine.ghost_step_mk.mp hstep
  exact hinv.step hundisturbed hnext

end WriteSubprocessPipe

/-! ## Both transports -/

namespace Subprocess
variable {s s' : Subprocess}

/-- What a step makes of stdin. -/
inductive StdinMove : Option WriteSubprocessPipe → Option WriteSubprocessPipe → Prop
  | kept (stdin : Option WriteSubprocessPipe) : StdinMove stdin stdin
  | moved {t t' : WriteSubprocessPipe} (a : WriteSubprocessPipe.Act)
      (h : WriteSubprocessPipe.machine.step t a = some t') : StdinMove (some t) (some t')

/-- A method that always returns. -/
theorem StdinMove.map {f : WriteSubprocessPipe → WriteSubprocessPipe} (a : WriteSubprocessPipe.Act)
    (h : ∀ t, WriteSubprocessPipe.machine.step t a = some (f t)) (stdin : Option WriteSubprocessPipe) :
    StdinMove stdin (stdin.map f) := by
  cases stdin with
  | none => exact .kept none
  | some t => exact .moved a (h t)

theorem stdin_close (stdin : Option WriteSubprocessPipe) : StdinMove stdin (stdin.map .close) :=
  .map .close (fun _ => rfl) stdin

theorem stdin_drainNext (rest : List ReadEnd) (s : Subprocess) :
    StdinMove s.stdin (s.drainNext rest).stdin := by
  cases rest with
  | nil => exact stdin_close s.stdin
  | cons p rest => exact .kept s.stdin

theorem stdin_processExited (code : Int) (s : Subprocess) :
    StdinMove s.stdin (s.processExited code).stdin :=
  stdin_drainNext s.readEnds { s with returncode := some code }

theorem stdin_readReady (p : ReadEnd) (answer : ReadAnswer) (s : Subprocess) :
    (s.readReady p answer).stdin = s.stdin := by
  unfold readReady
  split
  · rfl
  · cases answer <;> rfl

theorem stdin_resume (frame : Frame) (r : ProtocolReturn) (s : Subprocess) :
    StdinMove s.stdin (s.resume frame r).stdin := by
  unfold resume
  split
  · -- the exception is answered with `pipe_connection_lost`
    unfold exceptOSError
    split <;> exact .kept s.stdin
  · unfold exceptOSError
    split <;> exact .kept s.stdin
  all_goals first | exact .kept s.stdin | exact stdin_drainNext _ s

theorem stdin_call (c : Call) (s : Subprocess) : StdinMove s.stdin (s.call c).stdin := by
  cases c with
  | close =>
    simp only [call, Subprocess.close]
    split
    · exact .kept s.stdin
    · exact stdin_close s.stdin
  | wait =>
    simp only [call, wait]
    split <;> exact .kept s.stdin
  | write data refused => exact .map (.write data refused) (fun _ => rfl) s.stdin
  | closeStdin => exact stdin_close s.stdin
  | abortStdin => exact .map .abort (fun _ => rfl) s.stdin
  | leave | pauseReading | resumeReading | closePipe => exact .kept s.stdin

/-- In a subprocess, stdin moves as its transport does by itself. -/
theorem stdin_step {a : Act} (h : s.step a = some s') : StdinMove s.stdin s'.stdin := by
  cases a with
  | written p data =>
    simp only [step] at h
    split at h <;> cases h
    exact .kept s.stdin
  | hangUp p =>
    cases h
    exact .kept s.stdin
  | exit code held =>
    simp only [step] at h
    split at h <;> cases h
    exact .kept s.stdin
  | threadReports =>
    simp only [step] at h
    split at h
    · split at h <;> cases h
      exact .kept s.stdin
    · cases h
  | startTick tasks =>
    simp only [step] at h
    split at h <;> cases h
    exact .kept s.stdin
  | runHandle answer =>
    simp only [step] at h
    split at h
    · rename_i task rest _ hbatch
      cases task with
      | readReady p =>
        simp only [execute] at h
        split at h <;> cases h
        rw [stdin_readReady]
        exact .kept s.stdin
      | pidfdReady =>
        simp only [execute, Option.map_eq_some_iff] at h
        obtain ⟨code, -, rfl⟩ := h
        exact stdin_processExited code { s with batch := rest, pidfd := false }
      | processExited code =>
        cases h
        exact stdin_processExited code { s with batch := rest }
    · cases h
  | drain answer =>
    simp only [step] at h
    split at h
    · split at h <;> cases h
      unfold Subprocess.drain
      split
      · exact .kept s.stdin
      · cases answer with
        | bytes n => exact .kept s.stdin
        | eof | osError => exact stdin_drainNext _ s
    · cases h
  | ret r =>
    simp only [step] at h
    split at h <;> cases h
    exact stdin_resume _ r s
  | call c =>
    simp only [step] at h
    split at h <;> cases h
    exact stdin_call c s
  | writeReady result =>
    simp only [step] at h
    split at h
    · rename_i t _ hstdin
      split at h <;> cases h
      -- the loop calls a writer that it watches, and no other
      rw [hstdin]
      refine .moved (.writeReady result) ?_
      rename_i hoffers
      exact if_pos hoffers
    · cases h

/-- Every run of a subprocess is, at its stdin, a run of that transport. -/
theorem stdin_run {acts : List Act} {t : WriteSubprocessPipe} (ht : s.stdin = some t)
    (hrun : machine.run s acts = some s') :
    ∃ events t', WriteSubprocessPipe.machine.run t events = some t' ∧ s'.stdin = some t' := by
  refine Machine.run_invariant'
    (I := fun s => ∃ events t', WriteSubprocessPipe.machine.run t events = some t' ∧ s.stdin = some t')
    ?_ ⟨[], t, rfl, ht⟩ hrun
  rintro s a s' ⟨events, t', hevents, hstdin⟩ hstep
  have hmove := stdin_step hstep
  rw [hstdin] at hmove
  generalize hnext : s'.stdin = next at hmove
  cases hmove with
  | kept => exact ⟨events, t', hevents, rfl⟩
  | @moved _ t'' b h =>
    refine ⟨events ++ [b], t'', ?_, rfl⟩
    rw [Machine.run_append, hevents]
    exact (Machine.run_cons_eq_some _).mpr ⟨t'', h, rfl⟩

end Subprocess

end Uringcore
