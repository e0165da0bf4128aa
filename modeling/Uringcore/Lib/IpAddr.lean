import Uringcore.Lib.TextReader

/-!
# Texts of Internet addresses

The textual forms of IPv4 and IPv6 addresses, written and read as Rust's standard library does. An
IPv4 address is four decimal numbers without leading zeros. An IPv6 address is eight hexadecimal groups,
of which the first longest run of zeros is left out if it is longer than one group; an address that
stands for an IPv4 address is written with its last two groups in the IPv4 form. The reader tries an
IPv4 address wherever two groups are left.

* `Ipv4Addr.parse_iff` — an IPv4 address has one text.
* `Ipv6Addr.parse_display` — the text of an IPv6 address is read as the address. It may have others.
-/

/-! ## IPv4 -/

structure Ipv4Addr where
  a : UInt8
  b : UInt8
  c : UInt8
  d : UInt8
  deriving DecidableEq, Repr

namespace Ipv4Addr
open TextReader

/-- `{}` of a `u8`. -/
def decimal (n : UInt8) : List Char := Nat.toDigits 10 n.toNat

def display (ip : Ipv4Addr) : List Char :=
  decimal ip.a ++ '.' :: (decimal ip.b ++ '.' :: (decimal ip.c ++ '.' :: decimal ip.d))

/-- At most three digits, and no octal ones. -/
def readOctet : TextReader UInt8 :=
  fun t => (readNumber 10 3 false 256 t).map fun r => (UInt8.ofNat r.1, r.2)

/-- `read_ipv4_addr`. -/
def read : TextReader Ipv4Addr := fun t => do
  let (a, t) ← readSeparator '.' 0 readOctet t
  let (b, t) ← readSeparator '.' 1 readOctet t
  let (c, t) ← readSeparator '.' 2 readOctet t
  let (d, t) ← readSeparator '.' 3 readOctet t
  return (⟨a, b, c, d⟩, t)

/-- `from_str`, which does not look at texts of more than 15 bytes. -/
def parse (t : List Char) : Option Ipv4Addr := if 15 < t.length then none else parseWith read t

theorem readOctet_eq_some {n : UInt8} {t rest : List Char} :
    readOctet t = some (n, rest) ↔ t = decimal n ++ rest ∧ NoDigit 10 rest := by
  unfold readOctet
  constructor
  · intro h
    obtain ⟨⟨m, rest'⟩, hread, heq⟩ := Option.map_eq_some_iff.mp h
    cases heq
    obtain ⟨ht, hm, hrest⟩ := readNumber_eq_some (by decide) (by decide) hread
    rw [ht, decimal, UInt8.toNat_ofNat_of_lt' hm]
    exact ⟨rfl, hrest⟩
  · intro hboth
    obtain ⟨rfl, hrest⟩ := hboth
    rw [decimal, readNumber_toDigits (by decide) (by decide) n.toNat_lt (by decide) (by decide) hrest]
    simp

theorem noDigit_dot {t : List Char} : NoDigit 10 ('.' :: t) := noDigit_cons.mpr (by decide)

/-- The reader takes exactly the text of the address. -/
theorem read_eq_some {ip : Ipv4Addr} {t rest : List Char} :
    read t = some (ip, rest) ↔ t = ip.display ++ rest ∧ NoDigit 10 rest := by
  obtain ⟨a, b, c, d⟩ := ip
  have hzero {t : List Char} : readSeparator '.' 0 readOctet t = readOctet t := rfl
  unfold read
  simp only [Option.bind_eq_bind, Option.bind_eq_some_iff, Prod.exists, readSeparator_succ, hzero,
    readOctet_eq_some, Option.pure_def, Option.some.injEq, Prod.mk.injEq, mk.injEq]
  constructor
  · intro hex
    obtain ⟨a', t₁, ⟨rfl, -⟩, b', t₂, ⟨t₁', rfl, rfl, -⟩, c', t₃, ⟨t₂', rfl, rfl, -⟩, d', t₄, ⟨t₃', rfl, rfl,
      hrest⟩, ⟨rfl, rfl, rfl, rfl⟩, rfl⟩ := hex
    exact ⟨by simp [display], hrest⟩
  · intro hboth
    obtain ⟨rfl, hrest⟩ := hboth
    refine ⟨a, _, ⟨?_, noDigit_dot⟩, b, _, ⟨_, rfl, rfl, noDigit_dot⟩, c, _,
      ⟨_, rfl, rfl, noDigit_dot⟩, d, rest, ⟨_, rfl, rfl, hrest⟩, ⟨rfl, rfl, rfl, rfl⟩, rfl⟩
    simp [display]

theorem length_decimal (n : UInt8) : (decimal n).length ≤ 3 :=
  (Nat.length_toDigits_le_iff (by decide) (by decide)).mpr (Nat.lt_trans n.toNat_lt (by decide))

/-- **The text of an IPv4 address.** A text is read as an address if and only if it is its text. -/
theorem parse_iff {ip : Ipv4Addr} {t : List Char} : parse t = some ip ↔ t = ip.display := by
  have hread : parseWith read t = some ip ↔ t = ip.display := by
    unfold parseWith
    constructor
    · intro h
      split at h
      · rename_i hr
        cases h
        exact (read_eq_some.mp hr).1.trans (List.append_nil _)
      · cases h
    · intro h
      rw [read_eq_some.mpr ⟨h.trans (List.append_nil _).symm, noDigit_nil⟩]
  unfold parse
  split
  · rename_i hlong
    simp only [reduceCtorEq, false_iff]
    intro heq
    obtain rfl := heq
    have ha := length_decimal ip.a
    have hb := length_decimal ip.b
    have hc := length_decimal ip.c
    have hd := length_decimal ip.d
    simp only [display, List.length_append, List.length_cons] at hlong
    omega
  · exact hread

example : parse ['1', '0', '.', '0', '.', '0', '.', '7'] = some ⟨10, 0, 0, 7⟩ := by decide

/-- An octal number is none. -/
example : parse ['1', '0', '.', '0', '.', '0', '.', '0', '7'] = none := by decide

end Ipv4Addr

/-! ## IPv6 -/

structure Ipv6Addr where
  segments : List UInt16
  length_eq : segments.length = 8
  deriving DecidableEq

namespace Ipv6Addr
open TextReader

/-- `u16::from_be_bytes`. -/
def ofBytes (high low : UInt8) : UInt16 := UInt16.ofNat (high.toNat * 256 + low.toNat)

def high (segment : UInt16) : UInt8 := UInt8.ofNat (segment.toNat / 256)

def low (segment : UInt16) : UInt8 := UInt8.ofNat (segment.toNat % 256)

/-- The last two groups of an IPv4-mapped address, `::ffff:a.b.c.d`. -/
def toIpv4Mapped (segments : List UInt16) : Option Ipv4Addr :=
  if segments.take 6 = [0, 0, 0, 0, 0, 0xffff] then
    match segments.drop 6 with
    | [s, s'] => some ⟨high s, low s, high s', low s'⟩
    | _ => none
  else none

/-- `{:x}` of a `u16`. -/
def hex (segment : UInt16) : List Char := Nat.toDigits 16 segment.toNat

structure Span where
  start : Nat
  len : Nat
  deriving DecidableEq, Repr

/-- The first longest run of zeros, from the group with number `i` on; `current` is the run that ends
before it. -/
def zeroes : (i : Nat) → (current longest : Span) → List UInt16 → Span
  | _, _, longest, [] => longest
  | i, current, longest, s :: segments =>
    if s = 0 then
      let current : Span := ⟨if current.len = 0 then i else current.start, current.len + 1⟩
      zeroes (i + 1) current (if longest.len < current.len then current else longest) segments
    else zeroes (i + 1) ⟨0, 0⟩ longest segments

/-- The groups of a part of the address, the first of which has number `i`. -/
def fmtSubslice : (i : Nat) → List UInt16 → List Char
  | _, [] => []
  | 0, s :: segments => hex s ++ fmtSubslice 1 segments
  | i + 1, s :: segments => ':' :: (hex s ++ fmtSubslice (i + 2) segments)

def display (ip : Ipv6Addr) : List Char :=
  match toIpv4Mapped ip.segments with
  | some ipv4 => [':', ':', 'f', 'f', 'f', 'f', ':'] ++ ipv4.display
  | none =>
      let zeroes := zeroes 0 ⟨0, 0⟩ ⟨0, 0⟩ ip.segments
      if 1 < zeroes.len then
        fmtSubslice 0 (ip.segments.take zeroes.start) ++
          [':', ':'] ++ fmtSubslice 0 (ip.segments.drop (zeroes.start + zeroes.len))
      else fmtSubslice 0 ip.segments

/-- `read_groups`: the groups read, `left` of them at most, and whether the last two are an IPv4
address. The first has number `i`. -/
def readGroups : (i left : Nat) → List Char → List UInt16 × Bool × List Char
  | _, 0, t => ([], false, t)
  | i, left + 1, t =>
    match if 0 < left then readSeparator ':' i Ipv4Addr.read t else none with
    | some (ipv4, t) => ([ofBytes ipv4.a ipv4.b, ofBytes ipv4.c ipv4.d], true, t)
    | none => match readSeparator ':' i (readNumber 16 4 true 65536) t with
      | some (group, t) =>
          let r := readGroups (i + 1) left t
          (UInt16.ofNat group :: r.1, r.2)
      | none => ([], false, t)

theorem length_readGroups (i left : Nat) (t : List Char) : (readGroups i left t).1.length ≤ left := by
  induction left generalizing i t with
  | zero => exact Nat.le_refl _
  | succ left ih =>
    unfold readGroups
    split
    · rename_i hread
      split at hread
      · simp only [List.length_cons, List.length_nil]
        omega
      · cases hread
    · split
      · rename_i group t' _
        exact Nat.succ_le_succ (ih (i + 1) t')
      · exact Nat.zero_le _

/-- `read_ipv6_addr`: a whole address, or the parts before and after a `::` that stands for one group
at least. -/
def read : TextReader Ipv6Addr := fun t =>
  let head := readGroups 0 8 t
  if h : head.1.length = 8 then some (⟨head.1, h⟩, head.2.2)
  -- an IPv4 address does not stand before `::`
  else if head.2.1 then none
  else match head.2.2 with
    | ':' :: ':' :: t' =>
        let tail := readGroups 0 (8 - (head.1.length + 1)) t'
        some (⟨head.1 ++ List.replicate (8 - head.1.length - tail.1.length) 0 ++ tail.1, by
          have hhead : head.1.length ≤ 8 := length_readGroups 0 8 t
          have htail : tail.1.length ≤ 8 - (head.1.length + 1) := length_readGroups _ _ t'
          simp only [List.length_append, List.length_replicate]
          omega⟩, tail.2.2)
    | _ => none

def parse (t : List Char) : Option Ipv6Addr := parseWith read t

theorem ofBytes_high_low (segment : UInt16) : ofBytes (high segment) (low segment) = segment := by
  have hlt := segment.toNat_lt
  apply UInt16.toNat_inj.mp
  simp only [ofBytes, high, low, UInt16.toNat_ofNat', UInt8.toNat_ofNat']
  omega

/-! ### The runs of zeros -/

/-- The groups of the run are zero, and it ends before the group with number `i`. -/
structure Span.IsZero (segments : List UInt16) (i : Nat) (span : Span) : Prop where
  le : span.start + span.len ≤ i
  zero : ∀ k, span.start ≤ k → k < span.start + span.len → segments[k]? = some 0

theorem zeroes_isZero {segments done rest : List UInt16} {current longest : Span}
    (hsegments : segments = done ++ rest) (hcurrent : current.IsZero segments done.length)
    (hends : current.len ≠ 0 → current.start + current.len = done.length)
    (hlongest : longest.IsZero segments done.length) :
    (zeroes done.length current longest rest).IsZero segments segments.length := by
  induction rest generalizing done current longest with
  | nil =>
    have hlength : segments.length = done.length := by rw [hsegments, List.append_nil]
    rw [zeroes, hlength]
    exact hlongest
  | cons s rest ih =>
    have hnext : segments = (done ++ [s]) ++ rest := by simp [hsegments]
    have hlength : (done ++ [s]).length = done.length + 1 := by simp
    have hmono {span : Span} (h : span.IsZero segments done.length) :
        span.IsZero segments (done ++ [s]).length := ⟨by have := h.le; omega, h.zero⟩
    have hs : segments[done.length]? = some s := by simp [hsegments]
    rw [zeroes]
    split
    · rename_i hzero
      subst hzero
      -- the run goes on, or a new one begins
      have hrun : (⟨if current.len = 0 then done.length else current.start, current.len + 1⟩ :
          Span).IsZero segments (done ++ [0]).length := by
        constructor
        · have := hcurrent.le
          simp only
          split <;> omega
        · intro k hk hlt
          simp only at hk hlt
          by_cases hlast : k = done.length
          · rw [hlast]
            exact hs
          · apply hcurrent.zero <;> grind
      rw [← hlength]
      apply ih hnext hrun
      · intro _
        simp only
        split <;> grind
      · by_cases hlonger : longest.len < current.len + 1
        · rw [if_pos hlonger]
          exact hrun
        · rw [if_neg hlonger]
          exact hmono hlongest
    · rw [← hlength]
      apply ih hnext ⟨by simp, by simp only; omega⟩ (fun h => absurd rfl h) (hmono hlongest)

/-! ### Groups -/

theorem dot_notMem_hex (segment : UInt16) : '.' ∉ hex segment := by
  intro hmem
  have hdigit := (toDigits_digits (by decide) (by decide)).1 _ hmem
  revert hdigit
  decide

theorem noDigit_colon {t : List Char} : NoDigit 16 (':' :: t) := noDigit_cons.mpr (by decide)

theorem fmtSubslice_cons (i : Nat) (s : UInt16) (segments : List UInt16) :
    fmtSubslice i (s :: segments) =
      (if i = 0 then [] else [':']) ++ (hex s ++ fmtSubslice (i + 1) segments) := by
  cases i <;> rfl

theorem fmtSubslice_nil (i : Nat) : fmtSubslice i [] = [] := by
  cases i <;> rfl

theorem dot_notMem_fmtSubslice (i : Nat) (segments : List UInt16) :
    '.' ∉ fmtSubslice i segments := by
  induction segments generalizing i with
  | nil => simp [fmtSubslice_nil]
  | cons s segments ih =>
    rw [fmtSubslice_cons]
    simp only [List.mem_append, not_or]
    refine ⟨?_, dot_notMem_hex s, ih (i + 1)⟩
    split <;> decide

/-- Without a dot there is no IPv4 address. -/
theorem readSeparator_read_of_notMem {i : Nat} {t : List Char} (h : '.' ∉ t) :
    readSeparator ':' i Ipv4Addr.read t = none := by
  have hread {t : List Char} (h : '.' ∉ t) : Ipv4Addr.read t = none := by
    apply Option.eq_none_iff_forall_ne_some.mpr
    intro answer hsome
    obtain ⟨ip, rest⟩ := answer
    apply h
    rw [(Ipv4Addr.read_eq_some.mp hsome).1]
    simp [Ipv4Addr.display]
  cases i with
  | zero => exact hread h
  | succ i =>
    apply Option.eq_none_iff_forall_ne_some.mpr
    intro r hsome
    obtain ⟨t', rfl, hr⟩ := readSeparator_succ.mp hsome
    rw [hread fun hmem => h (List.mem_cons_of_mem _ hmem)] at hr
    cases hr

theorem readSeparator_hex {i : Nat} {s : UInt16} {rest : List Char} (hrest : NoDigit 16 rest) :
    readSeparator ':' i (readNumber 16 4 true 65536)
      ((if i = 0 then [] else [':']) ++ (hex s ++ rest)) = some (s.toNat, rest) := by
  have hread : readNumber 16 4 true 65536 (hex s ++ rest) = some (s.toNat, rest) :=
    readNumber_toDigits (by decide) (by decide) s.toNat_lt (by decide) (by decide) hrest
  cases i with
  | zero => exact hread
  | succ i => exact readSeparator_succ.mpr ⟨_, rfl, hread⟩

/-- The groups that are written are read, up to where no further one begins. -/
theorem readGroups_fmtSubslice (segments : List UInt16) (i left : Nat) (rest : List Char)
    (hleft : segments.length ≤ left) (hrest : NoDigit 16 rest) (hdot : '.' ∉ rest)
    (hstop : segments.length < left →
      readSeparator ':' (i + segments.length) (readNumber 16 4 true 65536) rest = none) :
    readGroups i left (fmtSubslice i segments ++ rest) = (segments, false, rest) := by
  induction segments generalizing i left with
  | nil =>
    rw [fmtSubslice_nil, List.nil_append]
    cases left with
    | zero => rfl
    | succ left =>
      have hnone : readSeparator ':' i (readNumber 16 4 true 65536) rest = none :=
        hstop (Nat.succ_pos left)
      rw [readGroups, readSeparator_read_of_notMem hdot, hnone]
      simp
  | cons s segments ih =>
    obtain ⟨left, rfl⟩ := Nat.exists_eq_add_of_lt (Nat.lt_of_lt_of_le (Nat.succ_pos _) hleft)
    rw [Nat.zero_add, List.length_cons] at *
    have hmore : NoDigit 16 (fmtSubslice (i + 1) segments ++ rest) := by
      cases segments with
      | nil => exact hrest
      | cons s' segments => exact noDigit_colon
    have htext : fmtSubslice i (s :: segments) ++ rest =
        (if i = 0 then [] else [':']) ++ (hex s ++ (fmtSubslice (i + 1) segments ++ rest)) := by
      simp [fmtSubslice_cons]
    have hnodot : '.' ∉ fmtSubslice i (s :: segments) ++ rest := by
      rw [List.mem_append, not_or]
      exact ⟨dot_notMem_fmtSubslice _ _, hdot⟩
    have hnext := ih (i + 1) left (by omega)
      fun hlt => by rw [Nat.add_right_comm, Nat.add_assoc]; exact hstop (by omega)
    rw [readGroups, readSeparator_read_of_notMem hnodot, htext, readSeparator_hex hmore]
    simp [hnext]

/-- No group comes after the first colon of `::`, and none at the end of the text. -/
theorem no_group_of_colons (i : Nat) (t : List Char) :
    readSeparator ':' i (readNumber 16 4 true 65536) (':' :: ':' :: t) = none := by
  cases i <;> rfl

theorem no_group_of_nil (i : Nat) : readSeparator ':' i (readNumber 16 4 true 65536) [] = none := by
  cases i <;> rfl

/-! ### The round trip -/

/-- What `::` stands for. -/
theorem take_zeroes_drop {segments : List UInt16} {span : Span}
    (h : span.IsZero segments segments.length) :
    segments.take span.start ++ (List.replicate span.len 0 ++ segments.drop (span.start + span.len)) =
      segments := by
  have hzeros : (segments.drop span.start).take span.len = List.replicate span.len 0 := by
    have hle := h.le
    apply List.eq_replicate_iff.mpr
    constructor
    · simp
      omega
    · intro s hs
      obtain ⟨k, hk⟩ := List.mem_iff_getElem?.mp hs
      rw [List.getElem?_take, List.getElem?_drop] at hk
      split at hk
      · rw [h.zero _ (by omega) (by omega)] at hk
        exact (Option.some_inj.mp hk).symm
      · cases hk
  rw [← hzeros, ← List.drop_drop, List.take_append_drop, List.take_append_drop]

theorem toIpv4Mapped_eq_some {segments : List UInt16} {ipv4 : Ipv4Addr}
    (h : toIpv4Mapped segments = some ipv4) :
    segments = [0, 0, 0, 0, 0, 0xffff, ofBytes ipv4.a ipv4.b, ofBytes ipv4.c ipv4.d] := by
  unfold toIpv4Mapped at h
  split at h
  · rename_i htake
    split at h
    · rename_i s s' hdrop
      cases h
      rw [← List.take_append_drop 6 segments, htake, hdrop]
      simp [ofBytes_high_low]
    · cases h
  · cases h

theorem read_mapped (ipv4 : Ipv4Addr) :
    read ([':', ':', 'f', 'f', 'f', 'f', ':'] ++ ipv4.display) =
      some (⟨[0, 0, 0, 0, 0, 0xffff, ofBytes ipv4.a ipv4.b, ofBytes ipv4.c ipv4.d], rfl⟩, []) := by
  have hgroup : readSeparator ':' 0 (readNumber 16 4 true 65536)
      ('f' :: 'f' :: 'f' :: 'f' :: ':' :: ipv4.display) = some (65535, ':' :: ipv4.display) :=
    readSeparator_hex (i := 0) (s := 0xffff) noDigit_colon
  have hnone : readSeparator ':' 0 Ipv4Addr.read
      ('f' :: 'f' :: 'f' :: 'f' :: ':' :: ipv4.display) = none := rfl
  have hipv4 : readSeparator ':' 1 Ipv4Addr.read (':' :: ipv4.display) = some (ipv4, []) :=
    readSeparator_succ.mpr ⟨_, rfl,
      Ipv4Addr.read_eq_some.mpr ⟨(List.append_nil _).symm, noDigit_nil⟩⟩
  have htail : readGroups 0 7 ('f' :: 'f' :: 'f' :: 'f' :: ':' :: ipv4.display) =
      ([0xffff, ofBytes ipv4.a ipv4.b, ofBytes ipv4.c ipv4.d], true, []) := by
    rw [readGroups, hnone, hgroup]
    simp only [Nat.zero_add, readGroups, hipv4]
    rfl
  have hhead : readGroups 0 8 (':' :: ':' :: 'f' :: 'f' :: 'f' :: 'f' :: ':' :: ipv4.display) =
      ([], false, ':' :: ':' :: 'f' :: 'f' :: 'f' :: 'f' :: ':' :: ipv4.display) := rfl
  show read (':' :: ':' :: 'f' :: 'f' :: 'f' :: 'f' :: ':' :: ipv4.display) = _
  unfold read
  simp [hhead, htail, List.replicate]

theorem read_fmtSubslice {segments : List UInt16} (hlength : segments.length = 8) :
    read (fmtSubslice 0 segments) = some (⟨segments, hlength⟩, []) := by
  have hgroups := readGroups_fmtSubslice segments 0 8 [] (Nat.le_of_eq hlength) noDigit_nil
    (by simp) (fun hlt => absurd hlength (by omega))
  rw [List.append_nil] at hgroups
  unfold read
  simp [hgroups, hlength]

theorem read_colons {segments : List UInt16} (hlength : segments.length = 8) {span : Span}
    (hspan : span.IsZero segments segments.length) (hlen : 1 < span.len) :
    read (fmtSubslice 0 (segments.take span.start) ++
      [':', ':'] ++ fmtSubslice 0 (segments.drop (span.start + span.len))) =
      some (⟨segments, hlength⟩, []) := by
  have hle := hspan.le
  have hstart : (segments.take span.start).length = span.start := by
    rw [List.length_take]
    omega
  have hend : (segments.drop (span.start + span.len)).length = 8 - (span.start + span.len) := by
    rw [List.length_drop, hlength]
  have hhead := readGroups_fmtSubslice (segments.take span.start) 0 8
    (':' :: ':' :: fmtSubslice 0 (segments.drop (span.start + span.len)))
    (by omega) noDigit_colon (by simp [dot_notMem_fmtSubslice])
    (fun _ => no_group_of_colons _ _)
  have htail := readGroups_fmtSubslice (segments.drop (span.start + span.len)) 0
    (8 - (span.start + 1)) [] (by omega) noDigit_nil (by simp) (fun _ => no_group_of_nil _)
  rw [List.append_nil] at htail
  have hzeros : 8 - span.start - (8 - (span.start + span.len)) = span.len := by omega
  have hjoin := take_zeroes_drop hspan
  rw [List.append_assoc]
  show read (fmtSubslice 0 (segments.take span.start) ++ ':' :: ':' ::
    fmtSubslice 0 (segments.drop (span.start + span.len))) = _
  unfold read
  simp only [hhead, hstart, htail, hend, hzeros]
  rw [dif_neg (by omega)]
  simpa using hjoin

/-- **The text of an IPv6 address** is read as the address. -/
theorem parse_display (ip : Ipv6Addr) : parse ip.display = some ip := by
  obtain ⟨segments, hlength⟩ := ip
  have hread : read (display ⟨segments, hlength⟩) = some (⟨segments, hlength⟩, []) := by
    unfold display
    split
    · rename_i ipv4 hmapped
      have hsegments := toIpv4Mapped_eq_some hmapped
      subst hsegments
      exact read_mapped ipv4
    · dsimp only
      split
      · rename_i hlong
        apply read_colons hlength _ hlong
        exact zeroes_isZero (List.nil_append _).symm ⟨Nat.le_refl _, by simp⟩ (fun h => absurd rfl h)
          ⟨Nat.le_refl _, by simp⟩
      · exact read_fmtSubslice hlength
  rw [parse, parseWith, hread]

/-- `2001:db8::1`, and another text of it. -/
example : parse (display ⟨[0x2001, 0xdb8, 0, 0, 0, 0, 0, 1], rfl⟩) =
    parse ['2', '0', '0', '1', ':', 'D', 'B', '8', ':', ':', '0', ':', '1'] := by decide

end Ipv6Addr
