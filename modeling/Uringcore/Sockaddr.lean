import Uringcore.Error
import Uringcore.Lib.Utf8
import Mathlib.Data.List.TakeWhile
import Mathlib.Tactic.IntervalCases

/-!
# Socket addresses

`Sockaddr` is the content of a `sockaddr_storage`, seen through its family; multi-byte fields are in
network order, as the kernel keeps them. `decodeAddr` is how `run_tick` turns the address of a
received message into the Python value that goes with its bytes, and `buildSockaddr` how
`submit_sendto` reads the address it is given.

What the second makes of an address the first does not always take back: `decodeAddr_same_iff`.
-/

namespace Uringcore

inductive Sockaddr where
  /-- All zero: `AF_UNSPEC`. -/
  | unspec
  | inet (sinPort : UInt16) (sAddr : UInt32)
  | inet6 (sin6Port : UInt16) (flowinfo : UInt32) (sin6Addr : List UInt8) (scopeId : UInt32)
  /-- The bytes from `sun_path` on: the 108 of the structure, then what memory holds behind it. -/
  | unix (sunPath : Bytes)
  | other (family : UInt16)
  deriving DecidableEq, Repr

/-- The Python address of a received message. Host numbers stand for their canonical text. -/
inductive PyAddr where
  | inet (host : UInt32) (port : UInt16)
  | inet6 (host : List UInt8) (port : UInt16) (flowinfo scopeId : UInt32)
  /-- `bytes`: an abstract Unix name. -/
  | abstract (name : Bytes)
  /-- `str`: a Unix path, by its UTF-8 bytes. -/
  | path (name : Bytes)
  /-- The empty `str`. -/
  | unnamed
  deriving DecidableEq, Repr

/-- `u16::from_be` and `u16::to_be` on a little-endian machine. -/
def swap16 (x : UInt16) : UInt16 := (x <<< 8) ||| (x >>> 8)

/-- `u32::from_be` and `u32::to_be` on a little-endian machine. -/
def swap32 (x : UInt32) : UInt32 :=
  (x <<< 24) ||| ((x &&& (0xFF00 : UInt32)) <<< 8) ||| ((x >>> 8) &&& (0xFF00 : UInt32)) ||| (x >>> 24)

/-- `offset_of!(sockaddr_un, sun_path)`. -/
def sunPathOffset : Nat := 2

/-- `CStr::from_ptr(..).to_string_lossy()`. -/
def cstrToStringLossy (bytes : Bytes) : Bytes := Utf8.lossy (bytes.takeWhile (· ≠ 0))

/-- The address part of the `RecvMsg` branch of `run_tick`. `namelen - sunPathOffset` is a `usize`
subtraction. -/
def decodeAddr (addr : Sockaddr) (namelen : Nat) : Option PyAddr :=
  match addr with
  | .inet sinPort sAddr => some (.inet (swap32 sAddr) (swap16 sinPort))
  | .inet6 sin6Port flowinfo sin6Addr scopeId =>
      some (.inet6 sin6Addr (swap16 sin6Port) flowinfo scopeId)
  | .unix sunPath =>
      let pathLen := (namelen + 2 ^ 64 - sunPathOffset) % 2 ^ 64
      if 0 < pathLen then
        if sunPath.head? = some 0 then some (.abstract (sunPath.take pathLen))
        else some (.path (cstrToStringLossy sunPath))
      else some .unnamed
  | .unspec | .other _ => none

/-- The address argument of `submit_sendto`. A component is `none` when it does not convert: a host
text that is no address, a number that does not fit. -/
inductive AddrArg where
  | tuple2 (host : Option UInt32) (port : Option UInt16)
  | tuple4 (host : Option (List UInt8)) (port : Option UInt16) (flowinfo scopeId : Option UInt32)
  /-- Two or four components of which the first that is refused is of another type. -/
  | wrongType
  /-- A tuple of another length. -/
  | tuple
  /-- A `str`, by its UTF-8 bytes. -/
  | str (path : Bytes)
  | bytes (path : Bytes)
  | other
  deriving DecidableEq, Repr

/-- `sun_path` of 108 bytes: the name, then zeros. -/
def sunPathOf (path : Bytes) : Except PyErr Sockaddr :=
  if 108 ≤ path.length then .error (.valueError "UNIX socket path too long")
  else .ok (.unix (path ++ List.replicate (108 - path.length) 0))

/-- The address handling of `submit_sendto`. -/
def buildSockaddr : AddrArg → Except PyErr Sockaddr
  | .tuple2 host port => match port, host with
      | none, _ => .error (.overflowError "out of range integral type conversion attempted")
      | _, none => .error (.valueError "Invalid IPv4 address")
      | some p, some h => .ok (.inet (swap16 p) (swap32 h))
  | .tuple4 host port flowinfo scopeId => match port, flowinfo, scopeId, host with
      | some p, some f, some s, some h => .ok (.inet6 (swap16 p) f h s)
      | some _, some _, some _, none => .error (.valueError "Invalid IPv6 address")
      | _, _, _, _ => .error (.overflowError "out of range integral type conversion attempted")
  | .wrongType => .error (.typeError "argument of another type")
  | .tuple => .error (.valueError "Address tuple must be length 2 (IPv4) or 4 (IPv6)")
  | .str path => sunPathOf path
  | .bytes path => sunPathOf path
  | .other => .error (.typeError "Address must be a tuple (IPv4/6) or string/bytes (UNIX)")

/-- A refused address is an error of its type, of its range or of its value. -/
theorem buildSockaddr_error {arg : AddrArg} {e : PyErr} (h : buildSockaddr arg = .error e) :
    e.isPlain = true := by
  have hpath {path : Bytes} (h : sunPathOf path = .error e) : e.isPlain = true := by
    unfold sunPathOf at h
    split at h <;> cases h
    rfl
  cases arg with
  | tuple2 host port => cases host <;> cases port <;> cases h <;> rfl
  | tuple4 host port flowinfo scopeId =>
    cases host <;> cases port <;> cases flowinfo <;> cases scopeId <;> cases h <;> rfl
  | tuple | wrongType =>
    cases h
    rfl
  | str path => exact hpath h
  | bytes path => exact hpath h
  | other =>
    cases h
    rfl

/-- `msg_namelen` as `submit_sendto` sets it: the size of the structure of the family. -/
def Sockaddr.namelen : Sockaddr → Nat
  | .inet .. => 16
  | .inet6 .. => 28
  | .unix .. => 110
  | .unspec | .other _ => 128

/-! ## Round trips -/

theorem swap16_swap16 (x : UInt16) : swap16 (swap16 x) = x := by
  apply UInt16.toBitVec_inj.mp
  apply BitVec.eq_of_getLsbD_eq
  intro i hi
  simp only [swap16, UInt16.toBitVec_or, UInt16.toBitVec_shiftLeft, UInt16.toBitVec_shiftRight]
  interval_cases i <;> simp

theorem swap32_swap32 (x : UInt32) : swap32 (swap32 x) = x := by
  apply UInt32.toBitVec_inj.mp
  apply BitVec.eq_of_getLsbD_eq
  intro i hi
  simp only [swap32, UInt32.toBitVec_or, UInt32.toBitVec_shiftLeft, UInt32.toBitVec_shiftRight,
    UInt32.toBitVec_and]
  -- bit by bit: the masks are different for the four bytes
  interval_cases i <;> simp

/-- The name of a Unix socket. -/
def PyAddr.unixName? : PyAddr → Option Bytes
  | abstract name | path name => some name
  | unnamed => some []
  | inet .. | inet6 .. => none

/-- The argument is the same address: the same numbers, or the same Unix name. -/
def AddrArg.Same : AddrArg → PyAddr → Prop
  | tuple2 host port, .inet host' port' => host = some host' ∧ port = some port'
  | tuple4 host port flowinfo scopeId, .inet6 host' port' flowinfo' scopeId' =>
      host = some host' ∧ port = some port' ∧ flowinfo = some flowinfo' ∧ scopeId = some scopeId'
  | str name, a | bytes name, a => a.unixName? = some name
  | _, _ => False

/-- The name of a Unix socket is a text, without a NUL in it. -/
def AddrArg.PlainName : AddrArg → Prop
  | str name | bytes name => name ≠ [] ∧ 0 ∉ name ∧ Utf8.IsText name
  | tuple2 .. | tuple4 .. | wrongType | tuple | other => True

theorem takeWhile_sunPath {name : Bytes} (h : 0 ∉ name) (n : Nat) :
    (name ++ List.replicate (n + 1) 0).takeWhile (· ≠ 0) = name := by
  induction name with
  | nil => rfl
  | cons b name ih =>
    have hb : b ≠ 0 := fun hb => h (hb ▸ List.mem_cons_self)
    rw [List.cons_append, List.takeWhile_cons_of_pos (by simpa using hb),
      ih fun hmem => h (List.mem_cons_of_mem _ hmem)]

/-- What is decoded of the address that a name was put into: an abstract name gets all of `sun_path`. -/
theorem decodeAddr_sunPathOf {name : Bytes} {sa : Sockaddr} (h : sunPathOf name = .ok sa) :
    name.length < 108 ∧ decodeAddr sa sa.namelen = some
      (if name.head?.getD 0 = 0 then .abstract (name ++ List.replicate (108 - name.length) 0)
      else .path (cstrToStringLossy (name ++ List.replicate (108 - name.length) 0))) := by
  unfold sunPathOf at h
  split at h
  · cases h
  · rename_i hlen
    cases h
    refine ⟨Nat.not_le.mp hlen, ?_⟩
    obtain ⟨n, hn⟩ : ∃ n, 108 - name.length = n + 1 := ⟨107 - name.length, by omega⟩
    have hhead : (name ++ List.replicate (108 - name.length) 0).head? = some (name.head?.getD 0) := by
      rw [hn]
      cases name <;> rfl
    have htake : (name ++ List.replicate (108 - name.length) 0).take 108 =
        name ++ List.replicate (108 - name.length) 0 :=
      List.take_of_length_le (by rw [List.length_append, List.length_replicate]; omega)
    have hpathLen : (110 + 2 ^ 64 - 2) % 2 ^ 64 = 108 := by norm_num
    simp only [decodeAddr, Sockaddr.namelen, sunPathOffset, hpathLen, hhead, htake, Option.some.injEq,
      Nat.ofNat_pos, if_true]
    split <;> rfl

theorem unixName_same_iff {name : Bytes} {sa : Sockaddr} (h : sunPathOf name = .ok sa) :
    (∃ a, decodeAddr sa sa.namelen = some a ∧ a.unixName? = some name) ↔
      name ≠ [] ∧ 0 ∉ name ∧ Utf8.IsText name := by
  obtain ⟨hlen, hdecode⟩ := decodeAddr_sunPathOf h
  obtain ⟨n, hn⟩ : ∃ n, 108 - name.length = n + 1 := ⟨107 - name.length, by omega⟩
  rw [hdecode]
  simp only [Option.some.injEq, exists_eq_left']
  rw [hn]
  constructor
  · intro hsame
    split at hsame
    · -- an abstract name has grown
      have hgrown := congrArg List.length (Option.some_inj.mp hsame)
      rw [List.length_append, List.length_replicate] at hgrown
      omega
    · rename_i hhead
      have hname : cstrToStringLossy (name ++ List.replicate (n + 1) 0) = name := Option.some_inj.mp hsame
      refine ⟨fun hnil => hhead (by rw [hnil]; rfl), fun hmem => ?_, ?_⟩
      · -- the path ends before the first NUL
        rw [← hname] at hmem
        rcases Utf8.mem_lossy hmem with hmem | hmem
        · simpa using List.mem_takeWhile_imp hmem
        · exact absurd hmem (by decide)
      · rw [← hname]
        exact Utf8.isText_lossy _
  · rintro ⟨hne, hzero, htext⟩
    obtain ⟨b, rest, rfl⟩ := List.exists_cons_of_ne_nil hne
    have hb : b ≠ 0 := fun hb => hzero (hb ▸ List.mem_cons_self)
    rw [if_neg (by simpa using hb)]
    show some (cstrToStringLossy _) = _
    rw [cstrToStringLossy, takeWhile_sunPath hzero, Utf8.lossy_eq_self_iff.mpr htext]

/-- **The round trip of an address.** The decoding of what `submit_sendto` builds is the address it was
given, unless that is a Unix address whose name is empty, has a NUL in it or is no text. -/
theorem decodeAddr_same_iff {arg : AddrArg} {sa : Sockaddr} (h : buildSockaddr arg = .ok sa) :
    (∃ a, decodeAddr sa sa.namelen = some a ∧ arg.Same a) ↔ arg.PlainName := by
  cases arg with
  | tuple2 host port =>
    refine iff_of_true ?_ trivial
    cases host <;> cases port <;> cases h
    exact ⟨_, rfl, by rw [swap32_swap32], by rw [swap16_swap16]⟩
  | tuple4 host port flowinfo scopeId =>
    refine iff_of_true ?_ trivial
    cases host <;> cases port <;> cases flowinfo <;> cases scopeId <;> cases h
    exact ⟨_, rfl, rfl, by rw [swap16_swap16], rfl, rfl⟩
  | tuple | wrongType => cases h
  | str name =>
    rw [AddrArg.PlainName, ← unixName_same_iff h]
    simp only [AddrArg.Same]
  | bytes name =>
    rw [AddrArg.PlainName, ← unixName_same_iff h]
    simp only [AddrArg.Same]
  | other => cases h

theorem decodeAddr_same_path : ∃ sa, buildSockaddr (.str [97, 46, 115]) = .ok sa ∧
    ∃ a, decodeAddr sa sa.namelen = some a ∧ AddrArg.Same (.str [97, 46, 115]) a :=
  ⟨_, rfl, (decodeAddr_same_iff rfl).mpr ⟨by decide, by decide, by decide⟩⟩

/-- The abstract name `a` comes back with 106 zeros. -/
theorem not_decodeAddr_same : ∃ sa, buildSockaddr (.bytes [0, 97]) = .ok sa ∧
    decodeAddr sa sa.namelen = some (.abstract ([0, 97] ++ List.replicate 106 0)) ∧
    ¬ ∃ a, decodeAddr sa sa.namelen = some a ∧ AddrArg.Same (.bytes [0, 97]) a := by
  have hdecode : decodeAddr (.unix ([0, 97] ++ List.replicate 106 0)) 110 =
      some (.abstract ([0, 97] ++ List.replicate 106 0)) := by decide
  refine ⟨.unix ([0, 97] ++ List.replicate 106 0), rfl, hdecode, ?_⟩
  rintro ⟨a, ha, hsame⟩
  cases hdecode.symm.trans ha
  have hlength := congrArg List.length (Option.some_inj.mp hsame)
  exact absurd hlength (by decide)

/-! ## Senders -/

/-- The address that the sender of a message is bound to. -/
inductive Sender where
  | inet (host : UInt32) (port : UInt16)
  | inet6 (host : List UInt8) (port : UInt16) (flowinfo scopeId : UInt32)
  /-- A Unix socket bound to a path. -/
  | named (path : Bytes)
  | abstract (name : Bytes)
  | unnamed
  deriving DecidableEq, Repr

namespace Sender

/-- What the kernel writes into `msg_name` and `msg_namelen` for the sender. -/
def Reports : Sender → Sockaddr → Nat → Prop
  | inet host port, addr, namelen => addr = .inet (swap16 port) (swap32 host) ∧ namelen = 16
  | inet6 host port flowinfo scopeId, addr, namelen =>
      addr = .inet6 (swap16 port) flowinfo host scopeId ∧ namelen = 28
  -- the NUL behind the path is counted; there is no room for it behind one of 108 bytes
  | named path, addr, namelen => path ≠ [] ∧ path.length ≤ 108 ∧ 0 ∉ path ∧
      namelen = sunPathOffset + (path.length + 1) ∧
      ∃ behind, addr = .unix (path ++ behind) ∧ (path.length < 108 → behind.head? = some 0)
  | abstract name, addr, namelen => name.head? = some 0 ∧ name.length ≤ 108 ∧
      namelen = sunPathOffset + name.length ∧ ∃ behind, addr = .unix (name ++ behind)
  | unnamed, addr, namelen => addr = .unspec ∧ namelen = 0

/-- The second component of the pair says who the sender is. -/
def IdentifiedBy : Sender → Option PyAddr → Prop
  | inet host port, a => a = some (.inet host port)
  | inet6 host port flowinfo scopeId, a => a = some (.inet6 host port flowinfo scopeId)
  | named path, a => a = some (.path path)
  | abstract name, a => a = some (.abstract name)
  | unnamed, a => a = none ∨ a = some .unnamed

end Sender

/-- Only an unnamed sender has no address. -/
theorem Sender.identifiedBy_none {sender : Sender} {namelen : Nat}
    (h : sender.Reports .unspec namelen) : sender.IdentifiedBy none := by
  cases sender with
  | unnamed => exact .inl rfl
  | inet => cases h.1
  | inet6 => cases h.1
  | named path =>
    obtain ⟨-, -, -, -, behind, heq, -⟩ := h
    cases heq
  | abstract name =>
    obtain ⟨-, -, -, behind, heq⟩ := h
    cases heq

/-- The path in `sun_path`, up to the NUL. -/
def sunPathName (sunPath : Bytes) : Bytes := (sunPath.take 108).takeWhile (· ≠ 0)

/-- An Internet address, an abstract name, or a path that is a text and ends inside `sun_path`. -/
def Sockaddr.Plain : Sockaddr → Prop
  | inet .. | inet6 .. => True
  | unix sunPath => sunPath.head? = some 0 ∨
      (sunPathName sunPath).length < 108 ∧ Utf8.IsText (sunPathName sunPath)
  | unspec | other _ => False

instance : ∀ addr : Sockaddr, Decidable addr.Plain
  | .inet .. | .inet6 .. => .isTrue trivial
  | .unix _ => inferInstanceAs (Decidable (_ ∨ _ ∧ _))
  | .unspec | .other _ => .isFalse id

/-- The decoding of a Unix address with `n` bytes in `sun_path`. -/
theorem decodeAddr_unix (sunPath : Bytes) {n : Nat} (hn : n ≤ 109) :
    decodeAddr (.unix sunPath) (sunPathOffset + n) =
      if 0 < n then
        if sunPath.head? = some 0 then some (.abstract (sunPath.take n))
        else some (.path (cstrToStringLossy sunPath))
      else some .unnamed := by
  have hlen : (sunPathOffset + n + 2 ^ 64 - sunPathOffset) % 2 ^ 64 = n := by
    rw [sunPathOffset]
    omega
  unfold decodeAddr
  dsimp only
  rw [hlen]

theorem decodeAddr_plain {addr : Sockaddr} (h : addr.Plain) (namelen : Nat) :
    ∃ a, decodeAddr addr namelen = some a := by
  cases addr with
  | inet => exact ⟨_, rfl⟩
  | inet6 => exact ⟨_, rfl⟩
  | unix sunPath =>
    unfold decodeAddr
    dsimp only
    split
    · split <;> exact ⟨_, rfl⟩
    · exact ⟨_, rfl⟩
  | unspec => cases h
  | other family => cases h

/-- What is decoded of a plain address identifies its sender. -/
theorem decodeAddr_identifies {sender : Sender} {addr : Sockaddr} {namelen : Nat} {a : PyAddr}
    (hreports : sender.Reports addr namelen) (hplain : addr.Plain)
    (ha : decodeAddr addr namelen = some a) : sender.IdentifiedBy (some a) := by
  cases sender with
  | inet host port =>
    obtain ⟨rfl, -⟩ := hreports
    cases ha
    rw [swap32_swap32, swap16_swap16]
    rfl
  | inet6 host port flowinfo scopeId =>
    obtain ⟨rfl, -⟩ := hreports
    cases ha
    rw [swap16_swap16]
    rfl
  | named path =>
    obtain ⟨hne, hlen, hzero, rfl, behind, rfl, hbehind⟩ := hreports
    have hnonzero : ∀ b ∈ path, decide (b ≠ 0) = true := fun b hb =>
      decide_eq_true fun h => hzero (h ▸ hb)
    have hhead : (path ++ behind).head? ≠ some 0 := by
      obtain ⟨b, rest, rfl⟩ := List.exists_cons_of_ne_nil hne
      exact fun h => hzero (Option.some_inj.mp h ▸ List.mem_cons_self)
    obtain ⟨hshort, htext⟩ := hplain.resolve_left hhead
    have hname : sunPathName (path ++ behind) = path ∧ (path ++ behind).takeWhile (· ≠ 0) = path := by
      by_cases hfull : path.length < 108
      · obtain ⟨n, hn⟩ : ∃ n, 108 - path.length = n + 1 := ⟨107 - path.length, by omega⟩
        have hnul := hbehind hfull
        cases behind with
        | nil => cases hnul
        | cons b behind =>
          obtain rfl : b = 0 := Option.some_inj.mp hnul
          constructor
          · rw [sunPathName, List.take_append, hn, List.take_of_length_le (by omega),
              List.takeWhile_append_of_pos hnonzero]
            exact List.append_nil path
          · rw [List.takeWhile_append_of_pos hnonzero]
            exact List.append_nil path
      · -- nothing ends a path of 108 bytes
        have hfilled : sunPathName (path ++ behind) = path := by
          rw [sunPathName, List.take_append_of_le_length (by omega), List.take_of_length_le (by omega)]
          exact List.takeWhile_eq_self_iff.mpr hnonzero
        rw [hfilled] at hshort
        exact absurd hshort hfull
    rw [hname.1] at htext
    rw [decodeAddr_unix _ (Nat.succ_le_succ hlen), if_pos (Nat.succ_pos _), if_neg hhead,
      cstrToStringLossy, hname.2, Utf8.lossy_eq_self_iff.mpr htext] at ha
    exact ha.symm
  | abstract name =>
    obtain ⟨hhead, hlen, rfl, behind, rfl⟩ := hreports
    cases name with
    | nil => cases hhead
    | cons b name =>
      obtain rfl : b = 0 := Option.some_inj.mp hhead
      have hpos : 0 < (0 :: name).length := List.length_pos_of_ne_nil (List.cons_ne_nil _ _)
      have hfirst : (0 :: name ++ behind).head? = some 0 := rfl
      rw [decodeAddr_unix _ (Nat.le_succ_of_le hlen), if_pos hpos, if_pos hfirst, List.take_left] at ha
      exact ha.symm
  | unnamed =>
    obtain ⟨rfl, -⟩ := hreports
    cases hplain

end Uringcore
