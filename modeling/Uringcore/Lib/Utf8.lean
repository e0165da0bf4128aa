import Mathlib.Data.List.Forall2
import Mathlib.Tactic.SplitIfs

/-!
# UTF-8, read with losses

`Utf8.lossy` reads bytes as UTF-8: a byte that a character cannot go on with ends what there is of it,
and everything that is no character becomes U+FFFD. What it gives back is always the encoding of a text
(`isText_lossy`), so it gives back exactly the encodings of texts unchanged (`lossy_eq_self_iff`).
-/

namespace Utf8

/-- U+FFFD, the replacement character. -/
def replacement : List UInt8 := [0xEF, 0xBF, 0xBD]

/-- The least and the greatest value of a byte. -/
abbrev Range := UInt8 × UInt8

def Range.holds (r : Range) (b : UInt8) : Prop := r.1 ≤ b ∧ b ≤ r.2

instance (r : Range) (b : UInt8) : Decidable (r.holds b) := inferInstanceAs (Decidable (_ ∧ _))

/-- Any byte that goes on. -/
def tail : Range := (0x80, 0xBF)

/-- The second byte after `a`. The narrower ranges leave out the encodings that are too long, the
surrogates and what is beyond U+10FFFF. -/
def second (a : UInt8) : Range :=
  (if a = 0xE0 then 0xA0 else if a = 0xF0 then 0x90 else 0x80,
    if a = 0xED then 0x9F else if a = 0xF4 then 0x8F else 0xBF)

/-- What follows in a character that begins with `a`. -/
def following (a : UInt8) : Option (List Range) :=
  if a < 0x80 then some []
  else if a < 0xC2 then none
  else if a < 0xE0 then some [second a]
  else if a < 0xF0 then some [second a, tail]
  else if a < 0xF5 then some [second a, tail, tail]
  else none

/-- What is to be written, the bytes that were seen of a character, and what is to follow. -/
abbrev State := List UInt8 × List UInt8 × List Range

/-- A byte where a character may begin. -/
def start (a : UInt8) : State :=
  match following a with
  | none => (replacement, [], [])
  | some [] => ([a], [], [])
  | some (r :: rs) => ([], [a], r :: rs)

/-- The next byte. One that does not go on begins something new. -/
def feed (seen : List UInt8) (ranges : List Range) (b : UInt8) : State :=
  match ranges with
  | [] => start b
  | r :: rs =>
      if r.holds b then
        if rs = [] then (seen ++ [b], [], []) else ([], seen ++ [b], rs)
      else (replacement ++ (start b).1, (start b).2)

def lossyFrom (seen : List UInt8) (ranges : List Range) : List UInt8 → List UInt8
  | [] => if ranges = [] then [] else replacement
  | b :: bs =>
      let r := feed seen ranges b
      r.1 ++ lossyFrom r.2.1 r.2.2 bs

def lossy (bytes : List UInt8) : List UInt8 := lossyFrom [] [] bytes

/-- The bytes are the encoding of a text. -/
def IsText (bytes : List UInt8) : Prop := ∃ text : List Char, bytes = text.flatMap String.utf8EncodeChar

/-! ## The bytes of one character -/

/-- A byte that begins a character, and bytes as they must follow. -/
def IsCharacter (bytes : List UInt8) : Prop :=
  ∃ a rest ranges, bytes = a :: rest ∧ following a = some ranges ∧ List.Forall₂ Range.holds ranges rest

theorem Range.holds_iff {r : Range} {b : UInt8} :
    r.holds b ↔ r.1.toNat ≤ b.toNat ∧ b.toNat ≤ r.2.toNat := by
  rw [holds, UInt8.le_iff_toNat_le, UInt8.le_iff_toNat_le]

theorem tail_holds {b : UInt8} : tail.holds b ↔ 128 ≤ b.toNat ∧ b.toNat ≤ 191 := Range.holds_iff

theorem second_holds {a b : UInt8} : (second a).holds b ↔
    128 ≤ b.toNat ∧ b.toNat ≤ 191 ∧ (a.toNat = 224 → 160 ≤ b.toNat) ∧ (a.toNat = 240 → 144 ≤ b.toNat) ∧
      (a.toNat = 237 → b.toNat ≤ 159) ∧ (a.toNat = 244 → b.toNat ≤ 143) := by
  simp only [Range.holds_iff, second, ← UInt8.toNat_inj, UInt8.reduceToNat]
  split_ifs <;> simp only [UInt8.reduceToNat] <;> omega

theorem following_eq (a : UInt8) : following a =
    if a.toNat < 128 then some []
    else if a.toNat < 194 then none
    else if a.toNat < 224 then some [second a]
    else if a.toNat < 240 then some [second a, tail]
    else if a.toNat < 245 then some [second a, tail, tail]
    else none := by
  simp only [following, UInt8.lt_iff_toNat_lt, UInt8.reduceToNat]

/-- The characters by their number of bytes. -/
theorem isCharacter_iff {bytes : List UInt8} : IsCharacter bytes ↔
    (∃ a, bytes = [a] ∧ a.toNat < 128) ∨
    (∃ a b, bytes = [a, b] ∧ 194 ≤ a.toNat ∧ a.toNat < 224 ∧ (second a).holds b) ∨
    (∃ a b c, bytes = [a, b, c] ∧ 224 ≤ a.toNat ∧ a.toNat < 240 ∧ (second a).holds b ∧ tail.holds c) ∨
    ∃ a b c d, bytes = [a, b, c, d] ∧ 240 ≤ a.toNat ∧ a.toNat < 245 ∧ (second a).holds b ∧
      tail.holds c ∧ tail.holds d := by
  constructor
  · rintro ⟨a, rest, ranges, rfl, hranges, hrest⟩
    rw [following_eq] at hranges
    split_ifs at hranges with h1 h2 h3 h4 h5 <;> cases hranges
    · cases hrest
      exact .inl ⟨a, rfl, h1⟩
    · cases hrest with | cons hb hnil =>
      cases hnil
      exact .inr (.inl ⟨a, _, rfl, Nat.not_lt.mp h2, h3, hb⟩)
    · cases hrest with | cons hb hrest =>
      cases hrest with | cons hc hnil =>
      cases hnil
      exact .inr (.inr (.inl ⟨a, _, _, rfl, Nat.not_lt.mp h3, h4, hb, hc⟩))
    · cases hrest with | cons hb hrest =>
      cases hrest with | cons hc hrest =>
      cases hrest with | cons hd hnil =>
      cases hnil
      exact .inr (.inr (.inr ⟨a, _, _, _, rfl, Nat.not_lt.mp h4, h5, hb, hc, hd⟩))
  · rintro (⟨a, rfl, h⟩ | ⟨a, b, rfl, h, h', hb⟩ | ⟨a, b, c, rfl, h, h', hb, hc⟩ |
      ⟨a, b, c, d, rfl, h, h', hb, hc, hd⟩)
    · exact ⟨a, _, [], rfl, by rw [following_eq, if_pos h], .nil⟩
    · refine ⟨a, _, _, rfl, ?_, .cons hb .nil⟩
      rw [following_eq, if_neg (by omega), if_neg (by omega), if_pos h']
    · refine ⟨a, _, _, rfl, ?_, .cons hb (.cons hc .nil)⟩
      rw [following_eq, if_neg (by omega), if_neg (by omega), if_neg (by omega), if_pos h']
    · refine ⟨a, _, _, rfl, ?_, .cons hb (.cons hc (.cons hd .nil))⟩
      rw [following_eq, if_neg (by omega), if_neg (by omega), if_neg (by omega), if_neg (by omega),
        if_pos h']

theorem isCharacter_encode (c : Char) : IsCharacter (String.utf8EncodeChar c) := by
  have hvalid : c.val.toNat < 55296 ∨ 57343 < c.val.toNat ∧ c.val.toNat < 1114112 := c.valid
  unfold String.utf8EncodeChar
  generalize c.val.toNat = v at hvalid
  rw [isCharacter_iff]
  simp only [second_holds, tail_holds]
  have hofNat {n : Nat} (h : n < 256) : (UInt8.ofNat n).toNat = n := UInt8.toNat_ofNat_of_lt' h
  split_ifs with h1 h2 h3
  · refine .inl ⟨_, rfl, ?_⟩
    rw [hofNat (by omega)]
    omega
  · refine .inr (.inl ⟨_, _, rfl, ?_⟩)
    rw [hofNat (by omega), hofNat (by omega)]
    omega
  · refine .inr (.inr (.inl ⟨_, _, _, rfl, ?_⟩))
    rw [hofNat (by omega), hofNat (by omega), hofNat (by omega)]
    omega
  · refine .inr (.inr (.inr ⟨_, _, _, _, rfl, ?_⟩))
    rw [hofNat (by omega), hofNat (by omega), hofNat (by omega), hofNat (by omega)]
    omega

/-- Every such sequence is the encoding of the character with its bits. -/
theorem exists_encode {bytes : List UInt8} (h : IsCharacter bytes) :
    ∃ c, bytes = String.utf8EncodeChar c := by
  have hofNat {n : Nat} {a : UInt8} (h : n = a.toNat) : a = UInt8.ofNat n := by
    rw [h, UInt8.ofNat_toNat]
  have hval {n : Nat} (h : n.isValidChar) : (Char.ofNat n).val.toNat = n := by
    rw [Char.ofNat, dif_pos h]
    rfl
  rw [isCharacter_iff] at h
  simp only [second_holds, tail_holds] at h
  rcases h with ⟨a, rfl, h⟩ | ⟨a, b, rfl, h⟩ | ⟨a, b, c, rfl, h⟩ | ⟨a, b, c, d, rfl, h⟩
  · refine ⟨Char.ofNat a.toNat, ?_⟩
    unfold String.utf8EncodeChar
    rw [hval (.inl (by omega))]
    dsimp only
    rw [if_pos (by omega), ← hofNat rfl]
  · refine ⟨Char.ofNat ((a.toNat - 192) * 64 + (b.toNat - 128)), ?_⟩
    unfold String.utf8EncodeChar
    rw [hval (.inl (by omega))]
    dsimp only
    rw [if_neg (by omega), if_pos (by omega)]
    simp only [List.cons.injEq, and_true]
    exact ⟨hofNat (by omega), hofNat (by omega)⟩
  · refine ⟨Char.ofNat ((a.toNat - 224) * 4096 + (b.toNat - 128) * 64 + (c.toNat - 128)), ?_⟩
    unfold String.utf8EncodeChar
    rw [hval (by unfold Nat.isValidChar; omega)]
    dsimp only
    rw [if_neg (by omega), if_neg (by omega), if_pos (by omega)]
    simp only [List.cons.injEq, and_true]
    exact ⟨hofNat (by omega), hofNat (by omega), hofNat (by omega)⟩
  · refine ⟨Char.ofNat ((a.toNat - 240) * 262144 + (b.toNat - 128) * 4096 + (c.toNat - 128) * 64 +
      (d.toNat - 128)), ?_⟩
    unfold String.utf8EncodeChar
    rw [hval (by unfold Nat.isValidChar; omega)]
    dsimp only
    rw [if_neg (by omega), if_neg (by omega), if_neg (by omega)]
    simp only [List.cons.injEq, and_true]
    exact ⟨hofNat (by omega), hofNat (by omega), hofNat (by omega), hofNat (by omega)⟩

/-! ## Reading -/

/-- The rest of a character is read to its end. -/
theorem lossyFrom_rest {ranges : List Range} {rest : List UInt8} (h : List.Forall₂ Range.holds ranges rest)
    (hne : ranges ≠ []) (seen bytes : List UInt8) :
    lossyFrom seen ranges (rest ++ bytes) = seen ++ rest ++ lossy bytes := by
  -- along the bytes that are to follow; the last of them ends the character
  induction h generalizing seen with
  | nil => exact absurd rfl hne
  | @cons r b rs rest hb hrest ih =>
    rw [List.cons_append, lossyFrom, feed, if_pos hb]
    cases hrest with
    | nil => simp [lossy]
    | cons hb' hrest' =>
      rw [if_neg (List.cons_ne_nil _ _), ih (List.cons_ne_nil _ _)]
      simp

theorem lossy_character {bytes : List UInt8} (h : IsCharacter bytes) (more : List UInt8) :
    lossy (bytes ++ more) = bytes ++ lossy more := by
  obtain ⟨a, rest, ranges, rfl, hranges, hrest⟩ := h
  rw [lossy, List.cons_append, lossyFrom, feed, start, hranges]
  cases hrest with
  | nil => rfl
  | cons hb hrest => exact lossyFrom_rest (.cons hb hrest) (List.cons_ne_nil _ _) _ _

/-- The encoding of a text is read as it is. -/
theorem lossy_encode (text : List Char) :
    lossy (text.flatMap String.utf8EncodeChar) = text.flatMap String.utf8EncodeChar := by
  induction text with
  | nil => rfl
  | cons c text ih => rw [List.flatMap_cons, lossy_character (isCharacter_encode c), ih]

theorem IsText.append {bytes more : List UInt8} (h : IsText bytes) (hmore : IsText more) :
    IsText (bytes ++ more) := by
  obtain ⟨text, rfl⟩ := h
  obtain ⟨text', rfl⟩ := hmore
  exact ⟨text ++ text', by rw [List.flatMap_append]⟩

theorem isText_character {bytes : List UInt8} (h : IsCharacter bytes) : IsText bytes := by
  obtain ⟨c, rfl⟩ := exists_encode h
  exact ⟨[c], by simp⟩

theorem isText_replacement : IsText replacement := ⟨['\uFFFD'], by decide⟩

/-- What was seen, with what is to follow, is part of a character. -/
def Midway (seen : List UInt8) (ranges : List Range) : Prop :=
  seen = [] ∧ ranges = [] ∨ ∃ a rest before, seen = a :: rest ∧ ranges ≠ [] ∧
    following a = some (before ++ ranges) ∧ List.Forall₂ Range.holds before rest

theorem start_spec (a : UInt8) : IsText (start a).1 ∧ Midway (start a).2.1 (start a).2.2 := by
  unfold start
  cases hranges : following a with
  | none => exact ⟨isText_replacement, .inl ⟨rfl, rfl⟩⟩
  | some ranges =>
    cases ranges with
    | nil => exact ⟨isText_character ⟨a, [], [], rfl, hranges, .nil⟩, .inl ⟨rfl, rfl⟩⟩
    | cons r rs =>
      exact ⟨⟨[], rfl⟩, .inr ⟨a, [], [], rfl, List.cons_ne_nil _ _, hranges, .nil⟩⟩

theorem feed_spec {seen : List UInt8} {ranges : List Range} (h : Midway seen ranges) (b : UInt8) :
    IsText (feed seen ranges b).1 ∧ Midway (feed seen ranges b).2.1 (feed seen ranges b).2.2 := by
  have hstart := start_spec b
  obtain ⟨rfl, rfl⟩ | ⟨a, rest, before, rfl, hne, hranges, hrest⟩ := h
  · exact hstart
  · obtain ⟨r, rs, rfl⟩ := List.exists_cons_of_ne_nil hne
    unfold feed
    dsimp only
    split_ifs with hb hrs
    · -- `b` ends the character, goes on with it, or cuts it off
      subst hrs
      refine ⟨isText_character ⟨a, rest ++ [b], before ++ [r], by simp, hranges, ?_⟩, .inl ⟨rfl, rfl⟩⟩
      exact List.rel_append hrest (.cons hb .nil)
    · refine ⟨⟨[], rfl⟩, .inr ⟨a, rest ++ [b], before ++ [r], by simp, hrs, by simpa using hranges, ?_⟩⟩
      exact List.rel_append hrest (.cons hb .nil)
    · exact ⟨isText_replacement.append hstart.1, hstart.2⟩

theorem isText_lossyFrom {seen : List UInt8} {ranges : List Range} (h : Midway seen ranges)
    (bytes : List UInt8) : IsText (lossyFrom seen ranges bytes) := by
  induction bytes generalizing seen ranges with
  | nil =>
    rw [lossyFrom]
    split
    · exact ⟨[], rfl⟩
    · exact isText_replacement
  | cons b bytes ih =>
    obtain ⟨htext, hmidway⟩ := feed_spec h b
    exact htext.append (ih hmidway)

theorem isText_lossy (bytes : List UInt8) : IsText (lossy bytes) :=
  isText_lossyFrom (.inl ⟨rfl, rfl⟩) bytes

/-- Exactly the encodings of texts are read without a loss. -/
theorem lossy_eq_self_iff {bytes : List UInt8} : lossy bytes = bytes ↔ IsText bytes := by
  constructor
  · intro h
    rw [← h]
    exact isText_lossy bytes
  · rintro ⟨text, rfl⟩
    exact lossy_encode text

instance : DecidablePred IsText := fun _ => decidable_of_iff _ lossy_eq_self_iff

theorem mem_feed {seen : List UInt8} {ranges : List Range} {a b : UInt8}
    (h : b ∈ (feed seen ranges a).1 ∨ b ∈ (feed seen ranges a).2.1) :
    b ∈ seen ∨ b = a ∨ b ∈ replacement := by
  have hstart (h : b ∈ (start a).1 ∨ b ∈ (start a).2.1) : b = a ∨ b ∈ replacement := by
    unfold start at h
    split at h
    · exact .inr (h.resolve_right (List.not_mem_nil))
    · exact .inl (List.mem_singleton.mp (h.resolve_right List.not_mem_nil))
    · exact .inl (List.mem_singleton.mp (h.resolve_left List.not_mem_nil))
  unfold feed at h
  split at h
  · exact .inr (hstart h)
  · split_ifs at h
    · have h := h.resolve_right List.not_mem_nil
      exact (List.mem_append.mp h).imp_right fun h => .inl (List.mem_singleton.mp h)
    · have h := h.resolve_left List.not_mem_nil
      exact (List.mem_append.mp h).imp_right fun h => .inl (List.mem_singleton.mp h)
    · rw [List.mem_append, or_assoc] at h
      rcases h with h | h
      · exact .inr (.inr h)
      · exact .inr (hstart h)

/-- Nothing is written but what was read and the replacement. -/
theorem mem_lossyFrom {seen : List UInt8} {ranges : List Range} {bytes : List UInt8} {b : UInt8}
    (h : b ∈ lossyFrom seen ranges bytes) : b ∈ seen ∨ b ∈ bytes ∨ b ∈ replacement := by
  induction bytes generalizing seen ranges with
  | nil =>
    rw [lossyFrom] at h
    split at h
    · cases h
    · exact .inr (.inr h)
  | cons a bytes ih =>
    have hread (h : b ∈ (feed seen ranges a).1 ∨ b ∈ (feed seen ranges a).2.1) :
        b ∈ seen ∨ b ∈ a :: bytes ∨ b ∈ replacement := by
      rcases mem_feed h with h | rfl | h
      · exact .inl h
      · exact .inr (.inl List.mem_cons_self)
      · exact .inr (.inr h)
    rw [lossyFrom, List.mem_append] at h
    rcases h with h | h
    · exact hread (.inl h)
    · rcases ih h with h | h | h
      · exact hread (.inr h)
      · exact .inr (.inl (List.mem_cons_of_mem _ h))
      · exact .inr (.inr h)

theorem mem_lossy {bytes : List UInt8} {b : UInt8} (h : b ∈ lossy bytes) :
    b ∈ bytes ∨ b ∈ replacement :=
  (mem_lossyFrom h).resolve_left List.not_mem_nil

example : lossy [0x61, 0xC3, 0xA9, 0xE2, 0x82, 0x61, 0xFF] =
    [0x61, 0xC3, 0xA9, 0xEF, 0xBF, 0xBD, 0x61, 0xEF, 0xBF, 0xBD] := by decide

end Utf8
