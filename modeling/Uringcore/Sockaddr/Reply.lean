import Uringcore.Lib.IpAddr
import Uringcore.Sockaddr

/-!
# Answering a datagram

`sock_recvfrom` hands out the sender as a tuple whose host is a text, and a server gives that tuple to
`sock_sendto`. Here the hosts are the texts themselves: `PyAddr.tuple?` writes them as `run_tick` does,
`AddrTuple.arg` is what `submit_sendto` extracts from a tuple.

* `reply_same` — the answer goes to the very address the kernel has reported.
* `accepted_iff_reported` — for IPv4 the tuples that are accepted are those that are reported, and for
  IPv6 every accepted tuple is the same address as a reported one.
-/

namespace Uringcore

/-- An Internet address in Python; a number may be any `int`. -/
inductive AddrTuple where
  | inet (host : List Char) (port : Int)
  | inet6 (host : List Char) (port flowinfo scopeId : Int)
  deriving DecidableEq, Repr

/-- `Ipv4Addr::from` of a `u32`. -/
def ipv4OfU32 (host : UInt32) : Ipv4Addr where
  a := UInt8.ofNat (host.toNat / 2 ^ 24)
  b := UInt8.ofNat (host.toNat / 2 ^ 16)
  c := UInt8.ofNat (host.toNat / 2 ^ 8)
  d := UInt8.ofNat host.toNat

/-- `u32::from` of an `Ipv4Addr`. -/
def u32OfIpv4 (ip : Ipv4Addr) : UInt32 :=
  UInt32.ofNat (ip.a.toNat * 2 ^ 24 + ip.b.toNat * 2 ^ 16 + ip.c.toNat * 2 ^ 8 + ip.d.toNat)

/-- The groups of 16 bytes, in network order. -/
def segmentsOf : List UInt8 → List UInt16
  | high :: low :: octets => Ipv6Addr.ofBytes high low :: segmentsOf octets
  | _ => []

/-- `Ipv6Addr::octets`. -/
def octetsOf (segments : List UInt16) : List UInt8 :=
  segments.flatMap fun s => [Ipv6Addr.high s, Ipv6Addr.low s]

theorem length_segmentsOf {octets : List UInt8} {n : Nat} (h : octets.length = 2 * n) :
    (segmentsOf octets).length = n := by
  induction n generalizing octets with
  | zero =>
    rw [List.length_eq_zero_iff.mp h]
    rfl
  | succ n ih =>
    match octets, h with
    | high :: low :: octets, h =>
      simp only [List.length_cons] at h
      rw [segmentsOf, List.length_cons, ih (by omega)]

/-- The tuple of `run_tick`. -/
def PyAddr.tuple? : PyAddr → Option AddrTuple
  | .inet host port => some (.inet (ipv4OfU32 host).display port.toNat)
  | .inet6 host port flowinfo scopeId =>
      if h : host.length = 16 then
        some (.inet6 (Ipv6Addr.display ⟨segmentsOf host, length_segmentsOf (n := 8) h⟩)
          port.toNat flowinfo.toNat scopeId.toNat)
      else none
  | .abstract _ | .path _ | .unnamed => none

/-- `extract::<u16>`. -/
def extractU16 (n : Int) : Option UInt16 :=
  if 0 ≤ n ∧ n < 2 ^ 16 then some (UInt16.ofNat n.toNat) else none

/-- `extract::<u32>`. -/
def extractU32 (n : Int) : Option UInt32 :=
  if 0 ≤ n ∧ n < 2 ^ 32 then some (UInt32.ofNat n.toNat) else none

/-- What `submit_sendto` extracts from a tuple and parses. -/
def AddrTuple.arg : AddrTuple → AddrArg
  | inet host port => .tuple2 ((Ipv4Addr.parse host).map u32OfIpv4) (extractU16 port)
  | inet6 host port flowinfo scopeId =>
      .tuple4 ((Ipv6Addr.parse host).map fun ip => octetsOf ip.segments) (extractU16 port)
        (extractU32 flowinfo) (extractU32 scopeId)

/-- `submit_sendto` builds an address of the tuple. -/
def AddrTuple.Names (t : AddrTuple) (sa : Sockaddr) : Prop := buildSockaddr t.arg = .ok sa

/-- `run_tick` reports the address as the tuple. -/
def AddrTuple.Reports (t : AddrTuple) (sa : Sockaddr) : Prop :=
  ∃ a, decodeAddr sa sa.namelen = some a ∧ a.tuple? = some t

/-- A socket address of the Internet; `sin6_addr` has its 16 bytes. -/
def Sockaddr.IsInternet : Sockaddr → Prop
  | inet .. => True
  | inet6 _ _ sin6Addr _ => sin6Addr.length = 16
  | unspec | unix _ | other _ => False

/-! ## Numbers and bytes -/

theorem u32OfIpv4_ipv4OfU32 (host : UInt32) : u32OfIpv4 (ipv4OfU32 host) = host := by
  have hlt := host.toNat_lt
  apply UInt32.toNat_inj.mp
  simp only [u32OfIpv4, ipv4OfU32, UInt32.toNat_ofNat', UInt8.toNat_ofNat']
  omega

theorem ipv4OfU32_u32OfIpv4 (ip : Ipv4Addr) : ipv4OfU32 (u32OfIpv4 ip) = ip := by
  obtain ⟨a, b, c, d⟩ := ip
  have ha := a.toNat_lt
  have hb := b.toNat_lt
  have hc := c.toNat_lt
  have hd := d.toNat_lt
  simp only [ipv4OfU32, u32OfIpv4, Ipv4Addr.mk.injEq, ← UInt8.toNat_inj, UInt32.toNat_ofNat',
    UInt8.toNat_ofNat']
  omega

theorem octetsOf_segmentsOf {octets : List UInt8} {n : Nat} (h : octets.length = 2 * n) :
    octetsOf (segmentsOf octets) = octets := by
  induction n generalizing octets with
  | zero =>
    rw [List.length_eq_zero_iff.mp h]
    rfl
  | succ n ih =>
    match octets, h with
    | high :: low :: octets, h =>
      have hhigh := high.toNat_lt
      have hlow := low.toNat_lt
      have hbytes : Ipv6Addr.high (Ipv6Addr.ofBytes high low) = high ∧
          Ipv6Addr.low (Ipv6Addr.ofBytes high low) = low := by
        simp only [Ipv6Addr.high, Ipv6Addr.low, Ipv6Addr.ofBytes, ← UInt8.toNat_inj,
          UInt16.toNat_ofNat', UInt8.toNat_ofNat']
        omega
      simp only [List.length_cons] at h
      have ih := @ih octets (by omega)
      unfold octetsOf at ih ⊢
      rw [segmentsOf, List.flatMap_cons, hbytes.1, hbytes.2, ih]
      rfl

theorem segmentsOf_octetsOf (segments : List UInt16) : segmentsOf (octetsOf segments) = segments := by
  induction segments with
  | nil => rfl
  | cons s segments ih =>
    show Ipv6Addr.ofBytes (Ipv6Addr.high s) (Ipv6Addr.low s) :: segmentsOf (octetsOf segments) = _
    rw [Ipv6Addr.ofBytes_high_low, ih]

theorem length_octetsOf (segments : List UInt16) : (octetsOf segments).length = 2 * segments.length := by
  induction segments with
  | nil => rfl
  | cons s segments ih =>
    show (octetsOf segments).length + 2 = _
    rw [ih, List.length_cons]
    omega

theorem extractU16_toNat (n : UInt16) : extractU16 n.toNat = some n := by
  have hlt := n.toNat_lt
  simp [extractU16]
  omega

theorem extractU32_toNat (n : UInt32) : extractU32 n.toNat = some n := by
  have hlt := n.toNat_lt
  simp [extractU32]
  omega

theorem extractU16_eq_some {n : Int} {m : UInt16} (h : extractU16 n = some m) : n = m.toNat := by
  unfold extractU16 at h
  split at h
  · cases h
    rw [UInt16.toNat_ofNat']
    omega
  · cases h

/-! ## There and back -/

namespace AddrTuple

theorem arg_inet (host : UInt32) (port : UInt16) :
    (inet (ipv4OfU32 host).display port.toNat).arg = .tuple2 (some host) (some port) := by
  rw [arg, Ipv4Addr.parse_iff.mpr rfl, Option.map_some, u32OfIpv4_ipv4OfU32, extractU16_toNat]

theorem arg_inet6 (ip : Ipv6Addr) (port : UInt16) (flowinfo scopeId : UInt32) :
    (inet6 ip.display port.toNat flowinfo.toNat scopeId.toNat).arg =
      .tuple4 (some (octetsOf ip.segments)) (some port) (some flowinfo) (some scopeId) := by
  rw [arg, Ipv6Addr.parse_display, Option.map_some, extractU16_toNat, extractU32_toNat,
    extractU32_toNat]

theorem reports_inet {host : UInt32} {port : UInt16} {t : AddrTuple} :
    t.Reports (.inet (swap16 port) (swap32 host)) ↔
      t = .inet (ipv4OfU32 host).display port.toNat := by
  simp only [Reports, decodeAddr, swap16_swap16, swap32_swap32, Option.some.injEq, exists_eq_left',
    PyAddr.tuple?]
  exact eq_comm

theorem reports_inet6 {ip : Ipv6Addr} {port : UInt16} {flowinfo scopeId : UInt32} {t : AddrTuple} :
    t.Reports (.inet6 (swap16 port) flowinfo (octetsOf ip.segments) scopeId) ↔
      t = .inet6 ip.display port.toNat flowinfo.toNat scopeId.toNat := by
  have hlength : (octetsOf ip.segments).length = 16 := by rw [length_octetsOf, ip.length_eq]
  simp only [Reports, decodeAddr, swap16_swap16, Option.some.injEq, exists_eq_left', PyAddr.tuple?,
    dif_pos hlength, segmentsOf_octetsOf]
  exact eq_comm

/-- A tuple with two components is accepted if it is the one an IPv4 address has. -/
theorem names_inet {host : List Char} {port : Int} {sa : Sockaddr} (h : (inet host port).Names sa) :
    ∃ (ip : UInt32) (p : UInt16), inet host port = .inet (ipv4OfU32 ip).display p.toNat ∧
      sa = .inet (swap16 p) (swap32 ip) := by
  unfold Names at h
  rw [arg] at h
  cases hip : Ipv4Addr.parse host with
  | none =>
    rw [hip] at h
    cases hport : extractU16 port <;> rw [hport] at h <;> cases h
  | some ip =>
    cases hport : extractU16 port with
    | none =>
      rw [hip, hport] at h
      cases h
    | some p =>
      rw [hip, hport] at h
      cases h
      refine ⟨u32OfIpv4 ip, p, ?_, rfl⟩
      rw [ipv4OfU32_u32OfIpv4, Ipv4Addr.parse_iff.mp hip, extractU16_eq_some hport]

theorem names_inet6 {host : List Char} {port flowinfo scopeId : Int} {sa : Sockaddr}
    (h : (inet6 host port flowinfo scopeId).Names sa) :
    ∃ (ip : Ipv6Addr) (p : UInt16) (f s : UInt32),
      sa = .inet6 (swap16 p) f (octetsOf ip.segments) s := by
  unfold Names at h
  rw [arg] at h
  cases hip : Ipv6Addr.parse host <;> cases hport : extractU16 port <;>
    cases hflowinfo : extractU32 flowinfo <;> cases hscope : extractU32 scopeId <;>
    rw [hip, hport, hflowinfo, hscope] at h <;> cases h
  exact ⟨_, _, _, _, rfl⟩

end AddrTuple

/-- The addresses a tuple can be given for, with the tuple that is reported for each. -/
theorem Sockaddr.IsInternet.cases {sa : Sockaddr} (h : sa.IsInternet) :
    (∃ host port, sa = .inet (swap16 port) (swap32 host)) ∨
      ∃ (ip : Ipv6Addr) (port : UInt16) (flowinfo scopeId : UInt32),
        sa = .inet6 (swap16 port) flowinfo (octetsOf ip.segments) scopeId := by
  cases sa with
  | inet sinPort sAddr =>
    exact .inl ⟨swap32 sAddr, swap16 sinPort, by rw [swap16_swap16, swap32_swap32]⟩
  | inet6 sin6Port flowinfo sin6Addr scopeId =>
    have hlength : sin6Addr.length = 2 * 8 := h
    refine .inr ⟨⟨segmentsOf sin6Addr, length_segmentsOf hlength⟩, swap16 sin6Port, flowinfo,
      scopeId, ?_⟩
    rw [swap16_swap16, octetsOf_segmentsOf hlength]
  | unspec => cases h
  | unix sunPath => cases h
  | other family => cases h

/-- **The reply.** A datagram from the Internet has a tuple for its sender, and a datagram sent to that
tuple goes to the address the kernel has reported. -/
theorem reply_same {sa : Sockaddr} (h : sa.IsInternet) :
    ∃ t : AddrTuple, t.Reports sa ∧ t.Names sa := by
  rcases h.cases with ⟨host, port, rfl⟩ | ⟨ip, port, flowinfo, scopeId, rfl⟩
  · refine ⟨_, AddrTuple.reports_inet.mpr rfl, ?_⟩
    rw [AddrTuple.Names, AddrTuple.arg_inet]
    rfl
  · refine ⟨_, AddrTuple.reports_inet6.mpr rfl, ?_⟩
    rw [AddrTuple.Names, AddrTuple.arg_inet6]
    rfl

theorem reply_same_localhost : ∃ t : AddrTuple,
    t.Reports (.inet6 0x3905 0 (List.replicate 15 0 ++ [1]) 0) ∧
      t.Names (.inet6 0x3905 0 (List.replicate 15 0 ++ [1]) 0) :=
  reply_same rfl

/-- **What can be sent to.** For IPv4 a tuple is accepted for an address exactly if it is the one that is
reported for it. For IPv6 there are others, but every address that a tuple names is one that is reported,
as a tuple that names it too. -/
theorem names_iff_reports :
    (∀ (host : List Char) (port : Int) (sa : Sockaddr),
      (AddrTuple.inet host port).Names sa ↔ (AddrTuple.inet host port).Reports sa) ∧
    ∀ (t : AddrTuple) (sa : Sockaddr), t.Names sa →
      ∃ t' : AddrTuple, t'.Reports sa ∧ t'.Names sa := by
  have hinternet {t : AddrTuple} {sa : Sockaddr} (h : t.Names sa) : sa.IsInternet := by
    cases t with
    | inet host port =>
      obtain ⟨ip, p, -, rfl⟩ := AddrTuple.names_inet h
      trivial
    | inet6 host port flowinfo scopeId =>
      obtain ⟨ip, p, f, s, rfl⟩ := AddrTuple.names_inet6 h
      show (octetsOf ip.segments).length = 16
      rw [length_octetsOf, ip.length_eq]
  refine ⟨fun host port sa => ⟨fun h => ?_, fun h => ?_⟩, fun t sa h => reply_same (hinternet h)⟩
  · obtain ⟨ip, p, heq, rfl⟩ := AddrTuple.names_inet h
    rw [heq]
    exact AddrTuple.reports_inet.mpr rfl
  · -- only an IPv4 address is reported as a pair
    obtain ⟨a, hdecode, htuple⟩ := h
    cases a with
    | inet ip p =>
      cases htuple
      cases sa with
      | inet sinPort sAddr =>
        cases hdecode
        rw [AddrTuple.Names, AddrTuple.arg_inet]
        show Except.ok (Sockaddr.inet (swap16 (swap16 sinPort)) (swap32 (swap32 sAddr))) = _
        rw [swap16_swap16, swap32_swap32]
      | inet6 | unspec | other => cases hdecode
      | unix sunPath =>
        unfold decodeAddr at hdecode
        dsimp only at hdecode
        split at hdecode
        · split at hdecode <;> cases hdecode
        · cases hdecode
    | inet6 hostOctets p f s =>
      unfold PyAddr.tuple? at htuple
      dsimp only at htuple
      split at htuple <;> cases htuple
    | abstract | path | unnamed => cases htuple

end Uringcore
