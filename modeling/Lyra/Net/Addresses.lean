import Lyra.Dav.Xml

/-!
# Blocked addresses

The classification of `netsec.rs`: which addresses must not be an outbound destination.  An
IPv6 address that embeds an IPv4 address is classified as that address.

* `isBlockedAddr_embedded`: whatever the rest of the address is.
-/

namespace Lyra.Net

/-! ## Addresses -/

structure Ipv4Addr where
  a : UInt8
  b : UInt8
  c : UInt8
  d : UInt8
  deriving DecidableEq, Repr

/-- The eight segments. -/
structure Ipv6Addr where
  s0 : UInt16
  s1 : UInt16
  s2 : UInt16
  s3 : UInt16
  s4 : UInt16
  s5 : UInt16
  s6 : UInt16
  s7 : UInt16
  deriving DecidableEq, Repr

inductive IpAddr
  | v4 (addr : Ipv4Addr)
  | v6 (addr : Ipv6Addr)
  deriving DecidableEq, Repr

/-- `u16::to_be_bytes`. -/
def toBeBytes (s : UInt16) : UInt8 × UInt8 := (UInt8.ofNat (s.toNat / 256), UInt8.ofNat s.toNat)

def fromBeBytes (a b : UInt8) : UInt16 := UInt16.ofNat (a.toNat * 256 + b.toNat)

/-- The address of two segments. -/
def Ipv4Addr.ofSegments (hi lo : UInt16) : Ipv4Addr where
  a := (toBeBytes hi).1
  b := (toBeBytes hi).2
  c := (toBeBytes lo).1
  d := (toBeBytes lo).2

/-- `Ipv4Addr::from_bits`. -/
def Ipv4Addr.fromBits (bits : Nat) : Ipv4Addr where
  a := UInt8.ofNat (bits / 2 ^ 24)
  b := UInt8.ofNat (bits / 2 ^ 16)
  c := UInt8.ofNat (bits / 2 ^ 8)
  d := UInt8.ofNat bits

/-! ## IPv4 -/

namespace Ipv4Addr

def isLoopback (ip : Ipv4Addr) : Bool := ip.a == 127

def isPrivate (ip : Ipv4Addr) : Bool :=
  ip.a == 10 || (ip.a == 172 && 16 ≤ ip.b && ip.b ≤ 31) || (ip.a == 192 && ip.b == 168)

def isLinkLocal (ip : Ipv4Addr) : Bool := ip.a == 169 && ip.b == 254

def isUnspecified (ip : Ipv4Addr) : Bool := ip == ⟨0, 0, 0, 0⟩

def isBroadcast (ip : Ipv4Addr) : Bool := ip == ⟨255, 255, 255, 255⟩

def isDocumentation (ip : Ipv4Addr) : Bool :=
  (ip.a == 192 && ip.b == 0 && ip.c == 2) || (ip.a == 198 && ip.b == 51 && ip.c == 100) ||
    (ip.a == 203 && ip.b == 0 && ip.c == 113)

def isMulticast (ip : Ipv4Addr) : Bool := 224 ≤ ip.a && ip.a ≤ 239

/-- The IPv4 branch of `is_blocked_addr`. -/
def isBlocked (ip : Ipv4Addr) : Bool :=
  ip.isLoopback || ip.isPrivate || ip.isLinkLocal || ip.isUnspecified || ip.a == 0 ||
    ip.isBroadcast || (ip.a == 100 && 64 ≤ ip.b && ip.b ≤ 127) || ip.isDocumentation ||
    (ip.a == 198 && ip.b &&& 0xfe == 18) || 240 ≤ ip.a || ip.isMulticast

end Ipv4Addr

/-! ## IPv6 -/

namespace Ipv6Addr

def toIpv4Mapped (ip : Ipv6Addr) : Option Ipv4Addr :=
  if ip.s0 = 0 ∧ ip.s1 = 0 ∧ ip.s2 = 0 ∧ ip.s3 = 0 ∧ ip.s4 = 0 ∧ ip.s5 = 0xffff then
    some (.ofSegments ip.s6 ip.s7)
  else none

/-- Mapped addresses and compatible ones. -/
def toIpv4 (ip : Ipv6Addr) : Option Ipv4Addr :=
  if ip.s0 = 0 ∧ ip.s1 = 0 ∧ ip.s2 = 0 ∧ ip.s3 = 0 ∧ ip.s4 = 0 ∧ (ip.s5 = 0 ∨ ip.s5 = 0xffff) then
    some (.ofSegments ip.s6 ip.s7)
  else none

def isLoopback (ip : Ipv6Addr) : Bool := ip == ⟨0, 0, 0, 0, 0, 0, 0, 1⟩

def isUnspecified (ip : Ipv6Addr) : Bool := ip == ⟨0, 0, 0, 0, 0, 0, 0, 0⟩

def isMulticast (ip : Ipv6Addr) : Bool := ip.s0 &&& 0xff00 == 0xff00

def isUniqueLocal (ip : Ipv6Addr) : Bool := ip.s0 &&& 0xfe00 == 0xfc00

def isUnicastLinkLocal (ip : Ipv6Addr) : Bool := ip.s0 &&& 0xffc0 == 0xfe80

end Ipv6Addr

def isBlockedAddr : IpAddr → Bool
  | .v4 ip => ip.isBlocked
  | .v6 ip =>
    match ip.toIpv4Mapped.or ip.toIpv4 with
    | some v4 => v4.isBlocked
    | none =>
      if ip.s0 = 0x2002 then (Ipv4Addr.ofSegments ip.s1 ip.s2).isBlocked
      else if ip.s0 = 0x2001 ∧ ip.s1 = 0 then
        (Ipv4Addr.fromBits (2 ^ 32 - 1 - (ip.s6.toNat * 2 ^ 16 + ip.s7.toNat))).isBlocked
      else
        ip.isLoopback || ip.isUnspecified || ip.isMulticast || ip.isUniqueLocal ||
          ip.isUnicastLinkLocal || (ip.s0 == 0x2001 && ip.s1 == 0x0db8) ||
          (ip.s0 == 0x0064 && ip.s1 == 0xff9b && ip.s2 == 0x0001)

def filterPublicAddrs (addrs : List IpAddr) : List IpAddr := addrs.filter fun a => !isBlockedAddr a

/-! ## Embedded addresses -/

theorem toNat_fromBeBytes (a b : UInt8) :
    (fromBeBytes a b).toNat = a.toNat * 256 + b.toNat := by
  have ha := a.toNat_lt
  have hb := b.toNat_lt
  unfold fromBeBytes
  rw [UInt16.toNat_ofNat', Nat.mod_eq_of_lt]
  omega

theorem toBeBytes_fromBeBytes (a b : UInt8) : toBeBytes (fromBeBytes a b) = (a, b) := by
  have ha := a.toNat_lt
  have hb := b.toNat_lt
  unfold toBeBytes
  rw [toNat_fromBeBytes]
  refine Prod.ext (UInt8.toNat_inj.mp ?_) (UInt8.toNat_inj.mp ?_)
  · rw [UInt8.toNat_ofNat']
    show _ = a.toNat
    omega
  · rw [UInt8.toNat_ofNat']
    show _ = b.toNat
    omega

theorem ofSegments_fromBeBytes (ip : Ipv4Addr) :
    Ipv4Addr.ofSegments (fromBeBytes ip.a ip.b) (fromBeBytes ip.c ip.d) = ip := by
  unfold Ipv4Addr.ofSegments
  rw [toBeBytes_fromBeBytes, toBeBytes_fromBeBytes]

theorem toNat_inverted (x : UInt8) : (255 - x).toNat = 255 - x.toNat :=
  UInt8.toNat_sub_of_le 255 x (UInt8.le_iff_toNat_le.mpr (Nat.le_of_lt_succ x.toNat_lt))

theorem fromBits_inverted (ip : Ipv4Addr) :
    Ipv4Addr.fromBits (2 ^ 32 - 1 -
      ((fromBeBytes (255 - ip.a) (255 - ip.b)).toNat * 2 ^ 16 +
        (fromBeBytes (255 - ip.c) (255 - ip.d)).toNat)) = ip := by
  have ha := ip.a.toNat_lt
  have hb := ip.b.toNat_lt
  have hc := ip.c.toNat_lt
  have hd := ip.d.toNat_lt
  have hbits : 2 ^ 32 - 1 - ((fromBeBytes (255 - ip.a) (255 - ip.b)).toNat * 2 ^ 16 +
        (fromBeBytes (255 - ip.c) (255 - ip.d)).toNat) =
      ip.a.toNat * 2 ^ 24 + ip.b.toNat * 2 ^ 16 + ip.c.toNat * 2 ^ 8 + ip.d.toNat := by
    rw [toNat_fromBeBytes, toNat_fromBeBytes, toNat_inverted, toNat_inverted, toNat_inverted,
      toNat_inverted]
    omega
  rw [hbits]
  obtain ⟨a, b, c, d⟩ := ip
  unfold Ipv4Addr.fromBits
  dsimp only at ha hb hc hd ⊢
  congr 1
  · rw [← UInt8.toNat_inj, UInt8.toNat_ofNat']
    omega
  · rw [← UInt8.toNat_inj, UInt8.toNat_ofNat']
    omega
  · rw [← UInt8.toNat_inj, UInt8.toNat_ofNat']
    omega
  · rw [← UInt8.toNat_inj, UInt8.toNat_ofNat']
    omega

/-- A mapped, a compatible, a 6to4 and a Teredo address are classified as the IPv4 address in them,
whatever the rest is. -/
theorem isBlockedAddr_embedded (ip : Ipv4Addr) (s2 s3 s4 s5 s6 s7 : UInt16) :
    let hi := fromBeBytes ip.a ip.b
    let lo := fromBeBytes ip.c ip.d
    isBlockedAddr (.v6 ⟨0, 0, 0, 0, 0, 0xffff, hi, lo⟩) = isBlockedAddr (.v4 ip) ∧
      isBlockedAddr (.v6 ⟨0, 0, 0, 0, 0, 0, hi, lo⟩) = isBlockedAddr (.v4 ip) ∧
      isBlockedAddr (.v6 ⟨0x2002, hi, lo, s3, s4, s5, s6, s7⟩) = isBlockedAddr (.v4 ip) ∧
      isBlockedAddr (.v6 ⟨0x2001, 0, s2, s3, s4, s5, fromBeBytes (255 - ip.a) (255 - ip.b),
        fromBeBytes (255 - ip.c) (255 - ip.d)⟩) = isBlockedAddr (.v4 ip) := by
  have hplain := congrArg Ipv4Addr.isBlocked (ofSegments_fromBeBytes ip)
  exact ⟨hplain, hplain, hplain, congrArg Ipv4Addr.isBlocked (fromBits_inverted ip)⟩

end Lyra.Net
