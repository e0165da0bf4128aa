import Mathlib.Data.List.Basic
import Mathlib.Data.Nat.Digits.Defs
import Mathlib.Tactic.IntervalCases

/-!
# Reading numbers off a text

A `TextReader` takes what it reads off the front of a text, or fails and takes nothing. `readNumber`
reads a number in some radix, with a bound on the digits and on the value; it takes every digit there
is. `Nat.toDigits` is the other direction.

* `readNumber_toDigits` — a number that is written is read, as long as no further digit follows.
* `readNumber_eq_some` — up to radix 10 and without leading zeros, what is read is the text of the
  number: a number has no second text.
-/

abbrev TextReader (α : Type*) := List Char → Option (α × List Char)

namespace TextReader
variable {α : Type*} {radix maxDigits bound : Nat} {allowZeroPrefix : Bool} {t rest w : List Char}

def digitValue (c : Char) : Option Nat :=
  if '0' ≤ c ∧ c ≤ '9' then some (c.toNat - 48)
  else if 'a' ≤ c ∧ c ≤ 'z' then some (c.toNat - 87)
  else if 'A' ≤ c ∧ c ≤ 'Z' then some (c.toNat - 55)
  else none

/-- The value of a digit, lower or upper case, in a radix of at most 36. -/
def toDigit (radix : Nat) (c : Char) : Option Nat := (digitValue c).filter (· < radix)

/-- The loop over the digits, with the value and the number of the digits so far; one digit too many
is a failure. -/
def digitLoop (radix maxDigits : Nat) :
    (result count : Nat) → List Char → Option (Nat × Nat × List Char)
  | result, count, [] => some (result, count, [])
  | result, count, c :: cs => match toDigit radix c with
    | none => some (result, count, c :: cs)
    | some d =>
        if maxDigits < count + 1 then none
        else digitLoop radix maxDigits (radix * result + d) (count + 1) cs

/-- A number below `bound`. -/
def readNumber (radix maxDigits : Nat) (allowZeroPrefix : Bool) (bound : Nat) : TextReader Nat :=
  fun t => match digitLoop radix maxDigits 0 0 t with
    | none => none
    | some (result, count, rest) =>
        if count = 0 then none
        else if !allowZeroPrefix && t.head? = some '0' && 1 < count then none
        else if result < bound then some (result, rest)
        else none

def readChar (c : Char) : TextReader Unit
  | [] => none
  | c' :: cs => if c' = c then some ((), cs) else none

/-- The part with number `index` of several: a separator comes before every part but the first. -/
def readSeparator (sep : Char) (index : Nat) (inner : TextReader α) : TextReader α := fun t =>
  if index = 0 then inner t else (readChar sep t).bind fun r => inner r.2

/-- The reader has to take the whole text. -/
def parseWith (reader : TextReader α) (t : List Char) : Option α :=
  match reader t with
  | some (a, []) => some a
  | _ => none

theorem readSeparator_succ {sep : Char} {i : Nat} {inner : TextReader α} {r : α × List Char} :
    readSeparator sep (i + 1) inner t = some r ↔ ∃ t', t = sep :: t' ∧ inner t' = some r := by
  unfold readSeparator
  cases t with
  | nil => simp [readChar]
  | cons c t =>
    by_cases hc : c = sep
    · simp [readChar, hc]
    · simp [readChar, hc]

/-! ## Digits -/

theorem toDigit_digitChar {d : Nat} (hd : d < radix) (hradix : radix ≤ 16) :
    toDigit radix d.digitChar = some d := by
  have hvalue : digitValue d.digitChar = some d := by
    have hlt : d < 16 := Nat.lt_of_lt_of_le hd hradix
    interval_cases d <;> rfl
  simp [toDigit, hvalue, hd]

theorem toDigit_eq_some {c : Char} {d : Nat} :
    toDigit radix c = some d ↔ digitValue c = some d ∧ d < radix := by
  simp [toDigit, Option.filter_eq_some_iff]

/-- Up to radix 10 a digit has one character. -/
theorem digitChar_of_toDigit {c : Char} {d : Nat} (hradix : radix ≤ 10)
    (h : toDigit radix c = some d) : d.digitChar = c := by
  obtain ⟨hvalue, hlt⟩ := toDigit_eq_some.mp h
  have hle {a b : Char} : a ≤ b ↔ a.toNat ≤ b.toNat := Iff.rfl
  have h0 : '0'.toNat = 48 := rfl
  have h9 : '9'.toNat = 57 := rfl
  have ha : 'a'.toNat = 97 := rfl
  have hA : 'A'.toNat = 65 := rfl
  have hd : c.toNat = 48 + d ∧ d < 10 := by
    unfold digitValue at hvalue
    simp only [hle, h0, h9, ha, hA] at hvalue
    grind
  apply Char.toNat_inj.mp
  rw [Nat.toNat_digitChar_of_lt_ten hd.2, hd.1]

/-- No digit comes next. -/
def NoDigit (radix : Nat) (t : List Char) : Prop := ∀ c ∈ t.head?, toDigit radix c = none

theorem noDigit_nil : NoDigit radix [] := by
  intro c hc
  cases hc

theorem noDigit_cons {c : Char} : NoDigit radix (c :: t) ↔ toDigit radix c = none := by
  simp [NoDigit]

/-! ## What is written is read -/

/-- The value of a text of digits. -/
def value (radix : Nat) (w : List Char) (start : Nat) : Nat :=
  w.foldl (fun v c => radix * v + (toDigit radix c).getD 0) start

theorem digitLoop_append {result count : Nat} (hw : ∀ c ∈ w, (toDigit radix c).isSome)
    (hrest : NoDigit radix rest) (hcount : count + w.length ≤ maxDigits) :
    digitLoop radix maxDigits result count (w ++ rest) =
      some (value radix w result, count + w.length, rest) := by
  induction w generalizing result count with
  | nil =>
    cases rest with
    | nil => rfl
    | cons c cs =>
      rw [List.nil_append, digitLoop, noDigit_cons.mp hrest]
      rfl
  | cons c w ih =>
    obtain ⟨d, hd⟩ := Option.isSome_iff_exists.mp (hw c List.mem_cons_self)
    rw [List.length_cons] at hcount
    rw [List.cons_append, digitLoop, hd]
    simp only [if_neg (show ¬ maxDigits < count + 1 by omega)]
    rw [ih (fun c hc => hw c (List.mem_cons_of_mem _ hc)) (by omega)]
    simp [value, hd]
    omega

theorem toDigits_digits {n : Nat} (h1 : 1 < radix) (hradix : radix ≤ 16) :
    (∀ c ∈ Nat.toDigits radix n, (toDigit radix c).isSome) ∧
      value radix (Nat.toDigits radix n) 0 = n := by
  induction n using Nat.base_induction radix h1 with
  | single m hm =>
    rw [Nat.toDigits_of_lt_base hm]
    simp [value, toDigit_digitChar hm hradix]
  | digit m k hk hm ih =>
    rw [← Nat.toDigits_append_toDigits h1 hm hk, Nat.toDigits_of_lt_base hk]
    obtain ⟨hall, hvalue⟩ := ih
    constructor
    · intro c hc
      rcases List.mem_append.mp hc with hc | hc
      · exact hall c hc
      · rw [List.mem_singleton.mp hc, toDigit_digitChar hk hradix]
        rfl
    · rw [value, List.foldl_append]
      show value radix [k.digitChar] (value radix (Nat.toDigits radix m) 0) = _
      rw [hvalue]
      simp [value, toDigit_digitChar hk hradix]

/-- Only zero begins with a zero. -/
theorem head?_toDigits {n : Nat} (h1 : 1 < radix) (hn : 0 < n) :
    (Nat.toDigits radix n).head? ≠ some '0' := by
  induction n using Nat.base_induction radix h1 with
  | single m hm =>
    rw [Nat.toDigits_of_lt_base hm]
    simp
    omega
  | digit m k hk hm ih =>
    rw [← Nat.toDigits_append_toDigits h1 hm hk, List.head?_append_of_ne_nil _ Nat.toDigits_ne_nil]
    exact ih hm

theorem readNumber_toDigits {n : Nat} (h1 : 1 < radix) (hradix : radix ≤ 16) (hn : n < bound)
    (hbound : bound ≤ radix ^ maxDigits) (hmax : 0 < maxDigits) (hrest : NoDigit radix rest) :
    readNumber radix maxDigits allowZeroPrefix bound (Nat.toDigits radix n ++ rest) =
      some (n, rest) := by
  obtain ⟨hall, hvalue⟩ := toDigits_digits (n := n) h1 hradix
  have hlength : (Nat.toDigits radix n).length ≤ maxDigits :=
    (Nat.length_toDigits_le_iff h1 hmax).mpr (Nat.lt_of_lt_of_le hn hbound)
  have hpos : (Nat.toDigits radix n).length ≠ 0 := Nat.ne_of_gt Nat.length_toDigits_pos
  have hzero : 1 < (Nat.toDigits radix n).length →
      (Nat.toDigits radix n ++ rest).head? ≠ some '0' := by
    intro hlong
    rw [List.head?_append_of_ne_nil _ Nat.toDigits_ne_nil]
    apply head?_toDigits h1
    apply Nat.pos_of_ne_zero
    intro heq
    obtain rfl := heq
    simp at hlong
  unfold readNumber
  rw [digitLoop_append hall hrest (by omega), hvalue]
  simp only [Nat.zero_add, hpos, if_false]
  rw [if_neg, if_pos hn]
  simp only [Bool.and_eq_true, decide_eq_true_eq, not_and]
  intro hhead hlong
  exact hzero hlong hhead.2

/-! ## What is read was written -/

/-- The loop stops before the first character that is no digit. -/
theorem digitLoop_eq_some {result count r n : Nat}
    (h : digitLoop radix maxDigits result count t = some (r, n, rest)) :
    ∃ w, t = w ++ rest ∧ n = count + w.length ∧ NoDigit radix rest ∧
      (∀ c ∈ w, (toDigit radix c).isSome) ∧ r = value radix w result := by
  induction t generalizing result count with
  | nil =>
    cases h
    exact ⟨[], rfl, rfl, noDigit_nil, by simp, rfl⟩
  | cons c cs ih =>
    rw [digitLoop] at h
    cases hd : toDigit radix c with
    | none =>
      rw [hd] at h
      cases h
      exact ⟨[], rfl, rfl, noDigit_cons.mpr hd, by simp, rfl⟩
    | some d =>
      rw [hd] at h
      simp only [Option.ite_none_left_eq_some] at h
      obtain ⟨w, hw, hn, hrest, hall, hr⟩ := ih h.2
      refine ⟨c :: w, by rw [hw, List.cons_append], ?_, hrest, ?_, ?_⟩
      · rw [hn, List.length_cons]
        omega
      · simpa [hd] using hall
      · rw [hr]
        simp [value, hd]

/-- A text of digits behind a number that is not zero makes it longer. -/
theorem toDigits_value {result : Nat} (h1 : 1 < radix) (hradix : radix ≤ 10) (hresult : 0 < result)
    (hw : ∀ c ∈ w, (toDigit radix c).isSome) :
    Nat.toDigits radix (value radix w result) = Nat.toDigits radix result ++ w := by
  induction w generalizing result with
  | nil => exact (List.append_nil _).symm
  | cons c w ih =>
    obtain ⟨d, hd⟩ := Option.isSome_iff_exists.mp (hw c List.mem_cons_self)
    have hlt := (toDigit_eq_some.mp hd).2
    have hchar := digitChar_of_toDigit hradix hd
    have hnext : 0 < radix * result + d := Nat.add_pos_left (Nat.mul_pos (by omega) hresult) d
    show Nat.toDigits radix (value radix w (radix * result + (toDigit radix c).getD 0)) = _
    rw [hd, Option.getD_some, ih hnext fun c hc => hw c (List.mem_cons_of_mem _ hc),
      ← Nat.toDigits_append_toDigits h1 hresult hlt, Nat.toDigits_of_lt_base hlt, hchar,
      List.append_assoc, List.singleton_append]

theorem readNumber_eq_some {n : Nat} (h1 : 1 < radix) (hradix : radix ≤ 10)
    (h : readNumber radix maxDigits false bound t = some (n, rest)) :
    t = Nat.toDigits radix n ++ rest ∧ n < bound ∧ NoDigit radix rest := by
  unfold readNumber at h
  split at h
  · cases h
  · rename_i result count rest' hloop
    obtain ⟨w, rfl, rfl, hrest, hall, hresult⟩ := digitLoop_eq_some hloop
    simp only [Option.ite_none_left_eq_some, Option.ite_none_right_eq_some, Nat.zero_add,
      List.length_eq_zero_iff] at h
    obtain ⟨hne, hzero, hn, heq⟩ := h
    cases heq
    refine ⟨?_, hn, hrest⟩
    congr 1
    obtain ⟨c, w, rfl⟩ := List.exists_cons_of_ne_nil hne
    obtain ⟨d, hd⟩ := Option.isSome_iff_exists.mp (hall c List.mem_cons_self)
    have hlt := (toDigit_eq_some.mp hd).2
    have hchar := digitChar_of_toDigit hradix hd
    have hall' : ∀ c ∈ w, (toDigit radix c).isSome := fun c hc => hall c (List.mem_cons_of_mem _ hc)
    have hvalue : value radix (c :: w) 0 = value radix w d := by simp [value, hd]
    rw [hresult, hvalue]
    rcases Nat.eq_zero_or_pos d with rfl | hpos
    · -- a zero is the only digit
      have hc : c = '0' := hchar.symm
      subst hc
      have hw : w = [] := by simpa using hzero
      subst hw
      exact (Nat.toDigits_zero radix).symm
    · rw [toDigits_value h1 hradix hpos hall', Nat.toDigits_of_lt_base hlt, hchar]
      rfl

end TextReader
