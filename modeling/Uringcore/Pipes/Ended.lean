import Uringcore.Pipes

/-!
# The end of a pipe transport

`connection_lost` should be the last that a protocol hears of a pipe, and the pipe should be closed by
then. `close` and `abort` see to it, and so does `_write_ready` after the last byte. The branches for an
`OSError` call `connection_lost` and leave the transport as it was, open: the exact condition is that
they are not taken. In `ReadPipeTransport` one of them also catches a read that would block.
-/

namespace Uringcore

/-! ## What a protocol hears -/

/-- A call of the protocol of either transport. -/
inductive PipeNews where
  | data
  /-- `blocked`: the reason that is given is a `BlockingIOError`. -/
  | lost (blocked : Bool)
  | other
  deriving DecidableEq, Repr

namespace PipeNews

def isLost : PipeNews → Bool
  | lost _ => true
  | data | other => false

/-- A pipe that has told `news` comes to its end as it should. -/
structure EndsWell (news : List PipeNews) (pipeClosed : Bool) : Prop where
  /-- After `connection_lost` there is neither another one nor a `data_received`. -/
  last : news.Pairwise fun e later => e.isLost = true → later.isLost = false ∧ later ≠ data
  notBlocked : lost true ∉ news
  closed : (∃ e ∈ news, e.isLost = true) → pipeClosed = true

variable {news : List PipeNews} {pipeClosed : Bool}

theorem endsWell_nil (pipeClosed : Bool) : EndsWell [] pipeClosed where
  last := .nil
  notBlocked h := by cases h
  closed := by
    rintro ⟨e, he, -⟩
    cases he

theorem EndsWell.not_lost (h : EndsWell news false) {e : PipeNews} (he : e ∈ news) : e.isLost = false := by
  cases hlost : e.isLost with
  | false => rfl
  | true => cases h.closed ⟨e, he, hlost⟩

/-- A pipe that is open may tell anything but its end, and may tell that once it is closed. -/
theorem EndsWell.concat (h : EndsWell news false) {e : PipeNews} (hblocked : e ≠ lost true)
    (hclosed : e.isLost = true → pipeClosed = true) : EndsWell (news ++ [e]) pipeClosed where
  last := by
    rw [List.pairwise_append]
    refine ⟨h.last, List.pairwise_singleton .., ?_⟩
    intro e' he' _ _ hlost
    rw [h.not_lost he'] at hlost
    cases hlost
  notBlocked hmem := by
    rcases List.mem_append.mp hmem with hmem | hmem
    · exact h.notBlocked hmem
    · exact hblocked (List.mem_singleton.mp hmem).symm
  closed := by
    rintro ⟨e', he', hlost⟩
    rcases List.mem_append.mp he' with he' | he'
    · rw [h.not_lost he'] at hlost
      cases hlost
    · obtain rfl := List.mem_singleton.mp he'
      exact hclosed hlost

/-- The end of a pipe that stays open. -/
theorem not_endsWell_concat (blocked : Bool) : ¬ EndsWell (news ++ [lost blocked]) false := by
  intro h
  have hclosed := h.closed ⟨lost blocked, by simp, rfl⟩
  cases hclosed

end PipeNews

open PipeNews (EndsWell)

/-! ## `ReadPipeTransport` -/

def ReadExc.blocked : ReadExc → Bool
  | wouldBlock => true
  | osError errno => errno = eagain
  | protocol => false

def ReadPipeEvent.news : ReadPipeEvent → PipeNews
  | dataReceived _ => .data
  | eofReceived => .other
  | connectionLost exc => .lost (exc.any ReadExc.blocked)

namespace ReadPipe

/-- A call in which `_read_ready` is at work. -/
def underExcept : ReadPipeEvent → Bool
  | .dataReceived _ | .eofReceived => true
  | .connectionLost _ => false

/-- The step does not raise an `OSError` in `_read_ready` while the pipe is open. -/
def spares (t : ReadPipe) : Act → Bool
  | .readReady (.read _) => true
  | .readReady .wouldBlock | .readReady (.osError _) => t.paused || t.closing
  | .ret .osError => t.closing || !t.stack.head?.any underExcept
  | .ret _ | .pauseReading | .resumeReading _ | .close => true

/-- What `connection_lost` should mean, at a moment of a run. -/
def Ends (t : ReadPipe) : Prop := EndsWell (t.log.map ReadPipeEvent.news) t.closing

variable {t u : ReadPipe}

theorem ends_callProtocol (h : t.Ends) (hopen : t.closing = false) {e : ReadPipeEvent}
    (hlog : u.log = t.log ++ [e]) (hblocked : e.news ≠ .lost true)
    (hclosed : e.news.isLost = true → u.closing = true) : u.Ends := by
  unfold Ends at h ⊢
  rw [hopen] at h
  rw [hlog, List.map_append]
  exact h.concat hblocked hclosed

/-- A transport that is closed stays as it was, and one that is open calls `connection_lost` in vain. -/
theorem ends_exceptOSError_iff (h : t.Ends) (exc : ReadExc) :
    (t.exceptOSError exc).Ends ↔ t.closing = true := by
  cases hclosing : t.closing with
  | true =>
    have hsame : t.exceptOSError exc = t := if_pos hclosing
    rw [hsame]
    exact iff_of_true h rfl
  | false =>
    refine iff_of_false ?_ (by decide)
    have hcalled : t.exceptOSError exc = { t with reader := false }.callProtocol (.connectionLost (some exc)) :=
      if_neg (by rw [hclosing]; decide)
    rw [hcalled]
    unfold Ends callProtocol
    rw [List.map_append]
    dsimp only
    rw [hclosing]
    exact PipeNews.not_endsWell_concat _

theorem ends_readReady_iff (h : t.Ends) (result : ReadResult) :
    (t.readReady result).Ends ↔ t.spares (.readReady result) = true := by
  unfold readReady
  by_cases hidle : t.paused || t.closing
  · rw [if_pos hidle]
    apply iff_of_true h
    cases result <;> first | rfl | exact hidle
  · rw [if_neg hidle]
    obtain ⟨-, hopen⟩ : t.paused = false ∧ t.closing = false := by simpa using hidle
    have hexcept (exc : ReadExc) : (t.exceptOSError exc).Ends ↔ (t.paused || t.closing) = true := by
      rw [ends_exceptOSError_iff h, hopen]
      exact iff_of_false (by decide) (by rwa [hopen] at hidle)
    cases result with
    | read data =>
      refine iff_of_true ?_ rfl
      dsimp only
      split
      · exact ends_callProtocol h hopen rfl (by rintro ⟨⟩) (by rintro ⟨⟩)
      · exact ends_callProtocol h hopen rfl (by rintro ⟨⟩) (by rintro ⟨⟩)
    | wouldBlock => exact hexcept .wouldBlock
    | osError errno => exact hexcept (.osError errno)

theorem ends_close (h : t.Ends) : t.close.Ends := by
  unfold close
  split
  · exact h
  · rename_i hclosing
    exact ends_callProtocol h (by simpa using hclosing) rfl (by rintro ⟨⟩) (fun _ => rfl)

theorem ends_resume_iff (h : t.Ends) {call : ReadPipeEvent} {rest : List ReadPipeEvent}
    (hstack : t.stack = call :: rest) (r : PipeReturn) :
    (resume call r { t with stack := rest }).Ends ↔ t.spares (.ret r) = true := by
  have hrest : Ends { t with stack := rest } := h
  cases r with
  | osError =>
    simp only [spares, hstack, List.head?_cons, Option.any_some]
    cases call with
    | dataReceived data => simpa [resume, underExcept] using ends_exceptOSError_iff hrest .protocol
    | eofReceived => simpa [resume, underExcept] using ends_exceptOSError_iff hrest .protocol
    | connectionLost exc => simpa [resume, underExcept] using hrest
  | value truthy =>
    refine iff_of_true ?_ rfl
    cases call with
    | eofReceived =>
      cases truthy with
      | true => exact hrest
      | false => exact ends_close hrest
    | dataReceived data | connectionLost exc => exact hrest
  | raised =>
    refine iff_of_true ?_ rfl
    cases call <;> exact hrest

theorem ends_step_iff {a : Act} (h : t.Ends) (hstep : t.step a = some u) :
    u.Ends ↔ t.spares a = true := by
  cases a with
  | readReady result =>
    simp only [step] at hstep
    split at hstep <;> cases hstep
    exact ends_readReady_iff h result
  | ret r =>
    simp only [step] at hstep
    split at hstep
    · rename_i call rest hstack
      cases hstep
      exact ends_resume_iff h hstack r
    · cases hstep
  | pauseReading =>
    cases hstep
    refine iff_of_true ?_ rfl
    unfold pauseReading
    split <;> exact h
  | resumeReading refused =>
    cases hstep
    refine iff_of_true ?_ rfl
    unfold resumeReading
    split <;> exact h
  | close =>
    cases hstep
    exact iff_of_true (ends_close h) rfl

end ReadPipe

/-! ## `WritePipeTransport` -/

def PipeEvent.news : PipeEvent → PipeNews
  | pauseWriting | resumeWriting => .other
  | connectionLost errno => .lost (errno = some eagain)

namespace WritePipe

/-- `os.write`, if it is called, does not raise an `OSError` other than a `BlockingIOError`. -/
def spares (t : WritePipe) : Act → Bool
  | .writeReady (.osError _) => t.pipeClosed || t.buffer.isEmpty
  | .writeReady _ | .write .. | .ret | .close | .abort | .setWriteBufferLimits .. => true

def Ends (t : WritePipe) : Prop := EndsWell (t.log.map PipeEvent.news) t.pipeClosed

/-- Only a transport that is closing has closed its pipe. -/
def Closes (t : WritePipe) : Prop := t.pipeClosed = true → t.closing = true

/-- After `__init__`. -/
def Fresh (t : WritePipe) : Prop := t = new true ∨ t = new false ∨ t = newClosed

variable {t u : WritePipe}

theorem ends_calls (h : t.Ends) (hopen : t.pipeClosed = false) {e : PipeEvent}
    (hlog : u.log = t.log ++ [e]) (hblocked : e.news ≠ .lost true)
    (hclosed : e.news.isLost = true → u.pipeClosed = true) : u.Ends := by
  unfold Ends at h ⊢
  rw [hopen] at h
  rw [hlog, List.map_append]
  exact h.concat hblocked hclosed

theorem Ends.written (h : t.Ends) : t.written.Ends := by
  unfold WritePipe.written
  split
  · rename_i hdone
    obtain ⟨-, hopen⟩ : t.buffer = [] ∧ t.pipeClosed = false := by simpa using hdone
    dsimp only
    split
    · exact ends_calls h hopen rfl (by decide) (fun _ => rfl)
    · exact h
  · exact h

theorem Ends.write (h : t.Ends) (refused : Bool) (data : Bytes) :
    (t.write refused data).Ends := by
  unfold WritePipe.write
  split
  · exact h
  · dsimp only
    split
    · exact h
    · rename_i hopen
      split
      · exact h
      · split
        · exact ends_calls h (by simpa using hopen) rfl (by decide) (by rintro ⟨⟩)
        · exact h

theorem ends_writeReady_iff (h : t.Ends) (result : WriteResult) :
    (t.writeReady result).Ends ↔ t.spares (.writeReady result) = true := by
  by_cases hclosed : t.pipeClosed
  · rw [WritePipe.writeReady.eq_def, if_pos hclosed]
    apply iff_of_true h
    cases result <;> simp [spares, hclosed]
  · have hopen : t.pipeClosed = false := by simpa using hclosed
    rw [WritePipe.writeReady.eq_def, if_neg hclosed]
    by_cases hempty : t.buffer.isEmpty
    · rw [if_pos hempty]
      apply iff_of_true (show Ends { t with writer := false } from h)
      cases result <;> simp [spares, hempty]
    · rw [if_neg hempty]
      cases result with
      | wrote n =>
        refine iff_of_true ?_ rfl
        dsimp only
        split
        · exact ends_calls h hopen rfl (by decide) (by rintro ⟨⟩)
        · exact Ends.written (t := { t with buffer := t.buffer.drop n }) h
      | wouldBlock => exact iff_of_true h rfl
      | osError errno =>
        -- the call comes before anything is closed
        refine iff_of_false ?_ (by simp [spares, hclosed, hempty])
        unfold Ends callProtocol
        rw [List.map_append]
        dsimp only
        rw [hopen]
        exact PipeNews.not_endsWell_concat _

theorem Ends.close (h : t.Ends) (hcloses : t.Closes) : t.close.Ends := by
  unfold WritePipe.close
  split
  · exact h
  · rename_i hclosing
    have hopen : t.pipeClosed = false := by
      cases hp : t.pipeClosed with
      | false => rfl
      | true => exact absurd (hcloses hp) hclosing
    dsimp only
    split
    · exact ends_calls h hopen rfl (by decide) (fun _ => rfl)
    · exact h

theorem Ends.abort (h : t.Ends) : t.abort.Ends := by
  unfold WritePipe.abort
  dsimp only
  split
  · exact h
  · rename_i hopen
    exact ends_calls h (by simpa using hopen) rfl (by decide) (fun _ => rfl)

theorem Closes.written (h : t.Closes) : t.written.Closes := by
  unfold WritePipe.written
  split
  · dsimp only
    split
    · rename_i hclosing
      exact fun _ => hclosing
    · exact h
  · exact h

theorem Closes.step {a : Act} (h : t.Closes) (hstep : t.step a = some u) : u.Closes := by
  cases a with
  | write data refused =>
    cases hstep
    unfold WritePipe.write
    split
    · exact h
    · dsimp only
      split
      · exact h
      · split
        · exact h
        · split <;> exact h
  | writeReady result =>
    simp only [WritePipe.step] at hstep
    split at hstep <;> cases hstep
    unfold WritePipe.writeReady
    split
    · exact h
    · split
      · exact h
      · cases result with
        | wrote n =>
          dsimp only
          split
          · exact h
          · exact Closes.written (t := { t with buffer := t.buffer.drop n }) h
        | wouldBlock => exact h
        | osError errno => exact h
  | ret =>
    simp only [WritePipe.step] at hstep
    split at hstep
    · rename_i call rest hstack
      cases hstep
      cases call with
      | resumeWriting => exact Closes.written (t := { t with stack := rest }) h
      | pauseWriting | connectionLost errno => exact h
    · cases hstep
  | close =>
    cases hstep
    unfold WritePipe.close
    split
    · exact h
    · dsimp only
      split <;> exact fun _ => rfl
  | abort =>
    cases hstep
    unfold WritePipe.abort
    dsimp only
    split
    · exact h
    · exact fun _ => rfl
  | setWriteBufferLimits high low =>
    cases hstep
    exact h

theorem ends_step_iff {a : Act} (h : t.Ends) (hcloses : t.Closes) (hstep : t.step a = some u) :
    u.Ends ↔ t.spares a = true := by
  cases a with
  | writeReady result =>
    simp only [WritePipe.step] at hstep
    split at hstep <;> cases hstep
    exact ends_writeReady_iff h result
  | write data refused =>
    cases hstep
    exact iff_of_true (h.write refused data) rfl
  | ret =>
    refine iff_of_true ?_ rfl
    simp only [WritePipe.step] at hstep
    split at hstep
    · rename_i call rest hstack
      cases hstep
      cases call with
      | resumeWriting => exact Ends.written (t := { t with stack := rest }) h
      | pauseWriting | connectionLost errno => exact h
    · cases hstep
  | close =>
    cases hstep
    exact iff_of_true (h.close hcloses) rfl
  | abort =>
    cases hstep
    exact iff_of_true h.abort rfl
  | setWriteBufferLimits high low =>
    cases hstep
    exact iff_of_true h rfl

theorem Fresh.ends (h : t.Fresh) : t.Ends ∧ t.Closes := by
  rcases h with rfl | rfl | rfl
  · exact ⟨PipeNews.endsWell_nil _, by rintro ⟨⟩⟩
  · exact ⟨PipeNews.endsWell_nil _, by rintro ⟨⟩⟩
  · exact ⟨PipeNews.endsWell_nil _, fun _ => rfl⟩

end WritePipe

/-! ## Both transports -/

/-- **The end of a pipe.** All along a run `connection_lost` comes at most once, last, with a closed
pipe and never for a read that would block, if and only if the methods of the transport do not meet an
`OSError` while the pipe is open: no failed or blocked read, no `OSError` out of the protocol, no failed
write. -/
theorem pipes_end_well_iff {acts : List ReadPipe.Act} {r : ReadPipe}
    (hread : ReadPipe.machine.run .new acts = some r) {w₀ w : WritePipe} {events : List WritePipe.Act}
    (hfresh : w₀.Fresh) (hwrite : WritePipe.machine.run w₀ events = some w) :
    (ReadPipe.machine.Always ReadPipe.Ends .new acts ↔
      ReadPipe.machine.Meets (fun t a => t.spares a = true) .new acts) ∧
    (WritePipe.machine.Always WritePipe.Ends w₀ events ↔
      WritePipe.machine.Meets (fun t a => t.spares a = true) w₀ events) := by
  constructor
  · refine Machine.always_iff_meets (I := fun _ => True) ?_ trivial (PipeNews.endsWell_nil _) hread
    intro t a u _ hends hstep
    exact ⟨trivial, ReadPipe.ends_step_iff hends hstep⟩
  · obtain ⟨hends, hcloses⟩ := hfresh.ends
    refine Machine.always_iff_meets ?_ hcloses hends hwrite
    intro t a u hcloses hends hstep
    exact ⟨hcloses.step hstep, WritePipe.ends_step_iff hends hcloses hstep⟩

/-- Data, and an end of file for which the protocol does not keep the pipe. -/
def readRun : List ReadPipe.Act :=
  [.readReady (.read [1]), .ret .raised, .pauseReading, .readReady .wouldBlock, .resumeReading false,
    .readReady (.read []), .ret (.value false), .close, .ret (.value false)]

/-- Two bytes in two parts, with a `close` in between. -/
def writeRun : List WritePipe.Act :=
  [.write [1, 2] false, .writeReady (.wrote 1), .ret, .close, .writeReady .wouldBlock, .writeReady (.wrote 1),
    .ret, .ret, .abort]

theorem two_pipes_end_well : ∃ r w, ReadPipe.machine.run .new readRun = some r ∧
    WritePipe.machine.run (.new true) writeRun = some w ∧
    ReadPipe.machine.Always ReadPipe.Ends .new readRun ∧
    WritePipe.machine.Always WritePipe.Ends (.new true) writeRun := by
  have hread : ReadPipe.machine.run .new readRun = some _ := rfl
  have hwrite : WritePipe.machine.run (.new true) writeRun = some _ := rfl
  obtain ⟨hr, hw⟩ := pipes_end_well_iff hread (.inl rfl) hwrite
  exact ⟨_, _, hread, hwrite, hr.mpr (by decide), hw.mpr (by decide)⟩

/-- A read that would block, and a write to a pipe without a reader: `connection_lost` is called on an open
pipe, for the first with the `BlockingIOError`. -/
theorem not_pipes_end_well :
    (∃ t, ReadPipe.machine.run .new [.readReady .wouldBlock] = some t ∧ ¬ t.closing ∧
      PipeNews.lost true ∈ t.log.map ReadPipeEvent.news) ∧
    ¬ ReadPipe.machine.Always ReadPipe.Ends .new [.readReady .wouldBlock] ∧
    ¬ WritePipe.machine.Always WritePipe.Ends (.new true) [.write [1] false, .writeReady (.osError 32)] := by
  refine ⟨⟨_, rfl, by decide, by decide⟩, ?_, ?_⟩
  · intro hends
    have hlast : ReadPipe.Ends _ := hends.2 _ rfl
    exact hlast.notBlocked (by decide)
  · intro hends
    have hlast : WritePipe.Ends _ := (hends.2 _ rfl).2 _ rfl
    exact absurd (hlast.closed ⟨.lost false, by decide, rfl⟩) (by decide)

end Uringcore
