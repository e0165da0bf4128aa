import Uringcore.Lib.TextReader

/-!
# Metrics

`Metrics` is a snapshot of the counts of the core, and `to_prometheus` writes it down for a monitor: three
lines for each count, its help text, its type and the value, and an empty line between any two.

`readExposition` reads such a text again. It insists that every value is announced under its own name and
takes nothing but digits for a value. `exposition_read` says that it reads what `to_prometheus` writes.
-/

namespace Uringcore

structure Metrics where
  buffersTotal : Nat
  buffersFree : Nat
  buffersQuarantined : Nat
  buffersInUse : Nat
  fdCount : Nat
  fdInflight : Nat
  fdQueued : Nat
  fdPaused : Nat
  deriving DecidableEq, Repr

namespace Metrics

/-- One count: the lines of its help text, its type and its value. -/
def gauge (name help : String) (value : Nat) : List (List Char) :=
  ["# HELP ".toList ++ name.toList ++ ' ' :: help.toList,
    "# TYPE ".toList ++ name.toList ++ " gauge".toList,
    name.toList ++ ' ' :: Nat.toDigits 10 value]

/-- The counts as they are written, with their names and help texts. -/
def gauges (m : Metrics) : List (String × String × Nat) :=
  [("uringcore_buffers_total", "Total buffers in pool", m.buffersTotal),
    ("uringcore_buffers_free", "Available buffers", m.buffersFree),
    ("uringcore_buffers_quarantined", "Buffers in quarantine", m.buffersQuarantined),
    ("uringcore_buffers_in_use", "Buffers currently in use", m.buffersInUse),
    ("uringcore_fd_count", "Registered file descriptors", m.fdCount),
    ("uringcore_fd_inflight", "Operations in flight", m.fdInflight),
    ("uringcore_fd_queued", "Queued operations", m.fdQueued),
    ("uringcore_fd_paused", "Paused file descriptors", m.fdPaused)]

/-- The lines of `to_prometheus`. -/
def lines (m : Metrics) : List (List Char) :=
  [[]].intercalate (m.gauges.map fun g => gauge g.1 g.2.1 g.2.2)

def toPrometheus (m : Metrics) : List Char := ['\n'].intercalate m.lines

/-! ## Reading it -/

/-- The line is `front`, a name without blanks, a blank and a rest. -/
def readNamed (front : String) (line : List Char) : Option (List Char × List Char) :=
  if front.toList <+: line then
    let rest := line.drop front.toList.length
    match rest.dropWhile (· ≠ ' ') with
    | ' ' :: tail => some (rest.takeWhile (· ≠ ' '), tail)
    | _ => none
  else none

/-- A value of any size. -/
def readValue (digits : List Char) : Option Nat :=
  TextReader.parseWith (TextReader.readNumber 10 digits.length false (10 ^ digits.length)) digits

/-- A gauge that is announced under its own name. -/
def readGauge (help type sample : List Char) : Option (List Char × Nat) := do
  let (name, _) ← readNamed "# HELP " help
  let (name', kind) ← readNamed "# TYPE " type
  let (name'', digits) ← readNamed "" sample
  let value ← readValue digits
  if name' = name ∧ name'' = name ∧ kind = "gauge".toList then some (name, value) else none

def readLines : List (List Char) → Option (List (List Char × Nat))
  | [help, type, sample] => (readGauge help type sample).map ([·])
  | help :: type :: sample :: [] :: rest => do
      let g ← readGauge help type sample
      let gs ← readLines rest
      some (g :: gs)
  | _ => none

def readExposition (text : List Char) : Option (List (List Char × Nat)) :=
  readLines (text.splitOn '\n')

/-! ## The round trip -/

theorem readValue_toDigits (n : Nat) : readValue (Nat.toDigits 10 n) = some n := by
  have hpos : 0 < (Nat.toDigits 10 n).length := Nat.length_toDigits_pos
  have hlt := (Nat.length_toDigits_le_iff (by decide : 1 < 10) hpos).mp (Nat.le_refl _)
  have hread : TextReader.readNumber 10 _ false _ (Nat.toDigits 10 n ++ []) = some (n, []) :=
    TextReader.readNumber_toDigits (by decide) (by decide) hlt (Nat.le_refl _) hpos
      TextReader.noDigit_nil
  rw [List.append_nil] at hread
  unfold readValue TextReader.parseWith
  rw [hread]

theorem readNamed_append {front name : String} (hname : ' ' ∉ name.toList) (tail : List Char) :
    readNamed front (front.toList ++ name.toList ++ ' ' :: tail) = some (name.toList, tail) := by
  have hall : ∀ c ∈ name.toList, (decide (c ≠ ' ')) = true := by
    intro c hc
    rw [decide_eq_true_eq]
    intro heq
    obtain rfl := heq
    exact hname hc
  unfold readNamed
  rw [if_pos (by rw [List.append_assoc]; exact List.prefix_append _ _), List.append_assoc,
    List.drop_left]
  dsimp only
  rw [List.dropWhile_append_of_pos hall, List.takeWhile_append_of_pos hall]
  simp

/-- A name has no blank in it, and no text a line break. -/
def Plain (name help : String) : Prop := ' ' ∉ name.toList ∧ '\n' ∉ name.toList ∧ '\n' ∉ help.toList

theorem readGauge_gauge {name help : String} (h : Plain name help) (value : Nat) :
    readGauge ("# HELP ".toList ++ name.toList ++ ' ' :: help.toList)
      ("# TYPE ".toList ++ name.toList ++ " gauge".toList)
      (name.toList ++ ' ' :: Nat.toDigits 10 value) = some (name.toList, value) := by
  have hhelp : readNamed "# HELP " ("# HELP ".toList ++ name.toList ++ ' ' :: help.toList) =
      some (name.toList, help.toList) := readNamed_append h.1 help.toList
  have htype : readNamed "# TYPE " ("# TYPE ".toList ++ name.toList ++ " gauge".toList) =
      some (name.toList, "gauge".toList) := readNamed_append h.1 "gauge".toList
  have hsample : readNamed "" (name.toList ++ ' ' :: Nat.toDigits 10 value) =
      some (name.toList, Nat.toDigits 10 value) := readNamed_append h.1 (Nat.toDigits 10 value)
  unfold readGauge
  rw [hhelp, htype, hsample]
  simp [readValue_toDigits]

/-- The reader and the lines of many counts. -/
theorem readLines_gauges {gs : List (String × String × Nat)} (hne : gs ≠ [])
    (hplain : ∀ g ∈ gs, Plain g.1 g.2.1) :
    readLines ([[]].intercalate (gs.map fun g => gauge g.1 g.2.1 g.2.2)) =
      some (gs.map fun g => (g.1.toList, g.2.2)) := by
  induction gs with
  | nil => exact absurd rfl hne
  | cons g gs ih =>
    obtain ⟨name, help, value⟩ := g
    have hgauge := readGauge_gauge (hplain _ List.mem_cons_self) value
    cases gs with
    | nil =>
      simp only [List.map_cons, List.map_nil, List.intercalate_singleton, gauge, readLines, hgauge]
      rfl
    | cons g' gs =>
      have ih := ih (List.cons_ne_nil _ _) fun g hg => hplain g (List.mem_cons_of_mem _ hg)
      rw [List.map_cons] at ih ⊢
      rw [List.map_cons, List.intercalate_cons_cons, List.append_assoc]
      simp only [gauge, List.cons_append, List.nil_append, readLines] at ih ⊢
      rw [hgauge, ih]
      rfl

theorem plain_gauges (m : Metrics) : ∀ g ∈ m.gauges, Plain g.1 g.2.1 := by
  simp [gauges, Plain]

theorem newline_notMem_gauge {name help : String} (h : Plain name help) (value : Nat) :
    ∀ line ∈ gauge name help value, '\n' ∉ line := by
  have hdigits : '\n' ∉ Nat.toDigits 10 value := by
    intro hmem
    have hdigit := Nat.isDigit_of_mem_toDigits (by decide) (by decide) hmem
    revert hdigit
    decide
  simp [gauge, h.2.1, h.2.2, hdigits]

/-- What all parts and the separator have, the whole has. -/
theorem forall_mem_intercalate {α : Type} {P : α → Prop} {sep : α} {parts : List (List α)}
    (hsep : P sep) (hparts : ∀ part ∈ parts, ∀ a ∈ part, P a) :
    ∀ a ∈ [sep].intercalate parts, P a := by
  induction parts with
  | nil => simp
  | cons part parts ih =>
    have ih := ih fun part hpart => hparts part (List.mem_cons_of_mem _ hpart)
    have hpart := hparts part List.mem_cons_self
    cases parts with
    | nil => simpa using hpart
    | cons part' parts =>
      intro a ha
      rw [List.intercalate_cons_cons, List.mem_append, List.mem_append, List.mem_singleton] at ha
      obtain (hfirst | rfl) | hrest := ha
      · exact hpart a hfirst
      · exact hsep
      · exact ih a hrest

/-- No line has a line break in it. -/
theorem newline_notMem_lines (m : Metrics) : ∀ line ∈ m.lines, '\n' ∉ line := by
  refine forall_mem_intercalate (P := fun line => '\n' ∉ line) List.not_mem_nil ?_
  intro part hpart
  obtain ⟨g, hg, rfl⟩ := List.mem_map.mp hpart
  exact newline_notMem_gauge (plain_gauges m g hg) g.2.2

/-- **The text for a monitor.** What `to_prometheus` writes is read as the eight counts, each under its
name, whatever they are. -/
theorem exposition_read (m : Metrics) :
    readExposition m.toPrometheus = some (m.gauges.map fun g => (g.1.toList, g.2.2)) := by
  have hne : m.lines ≠ [] := by simp [lines, gauges, gauge, List.intercalate_cons_cons]
  unfold readExposition toPrometheus
  rw [List.splitOn_intercalate '\n' (newline_notMem_lines m) hne]
  exact readLines_gauges (by simp [gauges]) (plain_gauges m)

end Metrics

end Uringcore
