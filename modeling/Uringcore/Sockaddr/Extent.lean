import Uringcore.Sockaddr

/-!
# How far the decoding of a Unix address reads

`run_tick` copies the received address into a `sockaddr_un`, whose `sun_path` has 108 bytes, and reads
from the copy in one of two ways: an abstract name by its length, a path up to its NUL. `unixReads`
counts the bytes from `sun_path` on that are read, and `decodeAddr_congr` says that no others are.

The kernel counts a NUL behind every path, also behind one that fills `sun_path`; the copy does not
have that one. Such a path is the one kind of sender for which the decoding leaves the array.
-/

namespace Uringcore

/-- The number of bytes from `sun_path` on that the Unix branch of `decodeAddr` reads. -/
def unixReads (sunPath : Bytes) (namelen : Nat) : Nat :=
  let pathLen := (namelen + 2 ^ 64 - sunPathOffset) % 2 ^ 64
  if 0 < pathLen then
    -- the slice begins with the byte that was tested; `CStr` reads the NUL it stops at
    if sunPath.head? = some 0 then pathLen
    else (sunPath.takeWhile (· ≠ 0)).length + 1
  else 0

/-- The subtraction of the path offset does not underflow, and what is read is inside `sun_path`. -/
structure DecodesWithin (name behind : Bytes) (namelen : Nat) : Prop where
  subtraction : sunPathOffset ≤ namelen
  reads : unixReads (name ++ behind) namelen ≤ 108

/-! ## Only those bytes are read -/

theorem takeWhile_cons_ne {a : UInt8} (ha : a ≠ 0) (m : Bytes) :
    (a :: m).takeWhile (· ≠ 0) = a :: m.takeWhile (· ≠ 0) := by
  simp [ha]

/-- A C string ends at its first NUL, whatever is behind it. -/
theorem takeWhile_congr {m m' : Bytes}
    (h : m.take ((m.takeWhile (· ≠ 0)).length + 1) = m'.take ((m.takeWhile (· ≠ 0)).length + 1)) :
    m.takeWhile (· ≠ 0) = m'.takeWhile (· ≠ 0) := by
  induction m generalizing m' with
  | nil =>
    cases m' with
    | nil => rfl
    | cons b m' => cases h
  | cons a m ih =>
    cases m' with
    | nil => cases h
    | cons b m' =>
      rw [List.take_succ_cons, List.take_succ_cons] at h
      obtain ⟨rfl, htail⟩ := List.cons.inj h
      by_cases ha : a = 0
      · simp [ha]
      · rw [takeWhile_cons_ne ha, List.length_cons] at htail
        rw [takeWhile_cons_ne ha, takeWhile_cons_ne ha, ih htail]

theorem head?_congr {m m' : Bytes} {n : Nat} (hn : 0 < n) (h : m.take n = m'.take n) :
    m.head? = m'.head? := by
  have hhead := congrArg List.head? h
  rwa [List.head?_take, List.head?_take, if_neg (by omega), if_neg (by omega)] at hhead

/-- Two addresses that agree in the bytes that are read decode alike. -/
theorem decodeAddr_congr {m m' : Bytes} {namelen : Nat}
    (h : m.take (unixReads m namelen) = m'.take (unixReads m namelen)) :
    decodeAddr (.unix m) namelen = decodeAddr (.unix m') namelen := by
  unfold unixReads at h
  unfold decodeAddr
  dsimp only at h ⊢
  split
  · rename_i hpos
    rw [if_pos hpos] at h
    by_cases habstract : m.head? = some 0
    · rw [if_pos habstract] at h
      rw [if_pos habstract, if_pos ((head?_congr hpos h).symm.trans habstract), h]
    · rw [if_neg habstract] at h
      have hhead := head?_congr (Nat.succ_pos _) h
      rw [if_neg habstract, if_neg fun h' => habstract (hhead.trans h'), cstrToStringLossy,
        cstrToStringLossy, takeWhile_congr h]
  · rfl

/-! ## Inside `sun_path` -/

/-- With no NUL in the array a C string goes on behind it; with one it ends in the array. -/
theorem length_takeWhile_lt_iff {name : Bytes} (behind : Bytes) :
    ((name ++ behind).takeWhile (· ≠ 0)).length < name.length ↔ 0 ∈ name := by
  induction name with
  | nil => simp
  | cons a name ih =>
    rw [List.cons_append]
    by_cases ha : a = 0
    · simp [ha]
    · rw [takeWhile_cons_ne ha, List.length_cons, List.length_cons, Nat.add_lt_add_iff_right, ih]
      simp [Ne.symm ha]

/-- The count with `n` bytes in `sun_path`. -/
theorem unixReads_add (sunPath : Bytes) {n : Nat} (hn : n ≤ 109) :
    unixReads sunPath (sunPathOffset + n) =
      if 0 < n then
        if sunPath.head? = some 0 then n else (sunPath.takeWhile (· ≠ 0)).length + 1
      else 0 := by
  have hlen : (sunPathOffset + n + 2 ^ 64 - sunPathOffset) % 2 ^ 64 = n := by
    rw [sunPathOffset]
    omega
  unfold unixReads
  dsimp only
  rw [hlen]

/-- **The decoding.** From a bare family to a name that fills the array and one byte more: it stays
inside `sun_path` if and only if there is no name, or the name has a NUL in the array; and one that
begins with it is not counted longer than the array. -/
theorem decodesWithin_iff {name behind : Bytes} {namelen : Nat} (hname : name.length = 108)
    (hlow : 2 ≤ namelen) (hhigh : namelen ≤ 2 + 109) :
    DecodesWithin name behind namelen ↔
      namelen = 2 ∨ 0 ∈ name ∧ (name.head? = some 0 → namelen ≤ 110) := by
  obtain ⟨n, rfl⟩ := Nat.exists_eq_add_of_le hlow
  have hn : n ≤ 109 := Nat.le_of_add_le_add_left hhigh
  have hhead : (name ++ behind).head? = name.head? := by
    rw [List.head?_append_of_ne_nil]
    exact List.ne_nil_of_length_pos (by omega)
  have hreads : DecodesWithin name behind (2 + n) ↔
      unixReads (name ++ behind) (sunPathOffset + n) ≤ 108 :=
    ⟨fun h => h.reads, fun h => ⟨hlow, h⟩⟩
  rw [hreads, unixReads_add _ hn, hhead]
  cases n with
  | zero => simp
  | succ n =>
    rw [if_pos (Nat.succ_pos n)]
    by_cases habstract : name.head? = some 0
    · have hmem : 0 ∈ name := List.mem_of_mem_head? habstract
      rw [if_pos habstract]
      constructor
      · intro h
        exact .inr ⟨hmem, fun _ => by omega⟩
      · rintro (hzero | ⟨-, hle⟩)
        · omega
        · have := hle habstract
          omega
    · have hpath : ((name ++ behind).takeWhile (· ≠ 0)).length < name.length ↔ 0 ∈ name :=
        length_takeWhile_lt_iff behind
      rw [hname] at hpath
      rw [if_neg habstract]
      constructor
      · intro h
        exact .inr ⟨hpath.mp (by omega), fun h' => absurd h' habstract⟩
      · rintro (hzero | ⟨hmem, -⟩)
        · omega
        · have := hpath.mpr hmem
          omega

/-- A path of one letter. -/
theorem decodesWithin_path :
    DecodesWithin (97 :: List.replicate 107 0) [] 4 ↔
      4 = 2 ∨ 0 ∈ 97 :: List.replicate 107 (0 : UInt8) ∧
        ((97 :: List.replicate 107 (0 : UInt8)).head? = some 0 → 4 ≤ 110) :=
  decodesWithin_iff rfl (by decide) (by decide)

/-- A path that fills the array: the NUL the kernel counts is not in the copy. -/
theorem not_decodesWithin_full : ¬ DecodesWithin (List.replicate 108 97) [0] 111 := by
  intro h
  have hcount : unixReads (List.replicate 108 97 ++ [0]) 111 = 109 := by rfl
  have hreads := h.reads
  rw [hcount] at hreads
  omega

/-! ## Senders -/

/-- Of the senders that the kernel reports, only one bound to a path of 108 bytes takes the decoding
out of the array. -/
theorem Sender.reads_within_iff {sender : Sender} {sunPath : Bytes} {namelen : Nat}
    (h : sender.Reports (.unix sunPath) namelen) :
    unixReads sunPath namelen ≤ 108 ↔ ∀ path, sender = .named path → path.length < 108 := by
  cases sender with
  | inet => cases h.1
  | inet6 => cases h.1
  | unnamed => cases h.1
  | abstract name =>
    obtain ⟨hhead, hlen, rfl, behind, heq⟩ := h
    cases heq
    have hpos : 0 < name.length := by
      cases name with
      | nil => cases hhead
      | cons => exact Nat.succ_pos _
    have hhead' : (name ++ behind).head? = some 0 := by
      rw [List.head?_append, hhead]
      rfl
    rw [unixReads_add _ (by omega), if_pos hpos, if_pos hhead']
    exact iff_of_true hlen fun path hpath => by cases hpath
  | named path =>
    obtain ⟨hne, hlen, hzero, rfl, behind, heq, hbehind⟩ := h
    cases heq
    have hnonzero : ∀ b ∈ path, decide (b ≠ 0) = true := fun b hb =>
      decide_eq_true fun h => hzero (h ▸ hb)
    have hhead : (path ++ behind).head? ≠ some 0 := by
      obtain ⟨b, rest, rfl⟩ := List.exists_cons_of_ne_nil hne
      exact fun h => hzero (Option.some_inj.mp h ▸ List.mem_cons_self)
    rw [unixReads_add _ (by omega), if_pos (Nat.succ_pos _), if_neg hhead,
      List.takeWhile_append_of_pos hnonzero, List.length_append]
    constructor
    · intro h path' hpath
      cases hpath
      omega
    · intro h
      have hshort := h path rfl
      have hnul := hbehind hshort
      cases behind with
      | nil => cases hnul
      | cons b behind =>
        obtain rfl : b = 0 := Option.some_inj.mp hnul
        show path.length + 0 + 1 ≤ 108
        omega

end Uringcore
