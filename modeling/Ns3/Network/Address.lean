import Mathlib.Algebra.Group.Nat.Defs

/-!
# Addresses and identifiers

The address types of `network/utils` and the `Identifier` of `pmip6`, as the octets they hold.
-/

namespace Ns3

/-- `Ipv6Address`: the 16 octets of `m_address`. Comparison is `memcmp` over them. -/
structure Ipv6Address where
  address : Vector UInt8 16
  deriving DecidableEq

namespace Ipv6Address

/-- `Ipv6Address ()`, `GetZero ()` and `GetAny ()`: `::`. -/
def zero : Ipv6Address := ⟨Vector.replicate 16 0⟩

variable (a : Ipv6Address)

/-- The address `::`. -/
def isAny : Bool := a = zero

/-- `fe80::`, the network of every link-local address. -/
def linkLocal : Ipv6Address := ⟨((Vector.replicate 16 0).set 0 0xfe).set 1 0x80⟩

/-- It begins with `ff`. -/
def isMulticast : Bool := a.address[0] = 0xff

/-- `IsLinkLocal`: `CombinePrefix (Ipv6Prefix (64))` leaves the first eight octets. -/
def isLinkLocal : Bool :=
  !a.isMulticast && a.address.toList.take 8 = linkLocal.address.toList.take 8

/-- `ff02::n`. -/
def linkMulticast (n : UInt8) : Ipv6Address :=
  ⟨(((Vector.replicate 16 0).set 0 0xff).set 1 2).set 15 n⟩

/-- `ff02::1`. -/
def isAllNodesMulticast : Bool := a = linkMulticast 1

/-- `ff02::2`. -/
def isAllRoutersMulticast : Bool := a = linkMulticast 2

/-- `ff02::3`. -/
def isAllHostsMulticast : Bool := a = linkMulticast 3

/-- `ff02`, with `01:ff` in its place. -/
def isSolicitedMulticast : Bool :=
  a.address[0] = 0xff && a.address[1] = 2 && a.address[11] = 1 && a.address[12] = 0xff

/-- The network `hi:lo::`, for concrete runs. -/
def ofOctets (hi lo : UInt8) : Ipv6Address := ⟨((Vector.replicate 16 0).set 0 hi).set 1 lo⟩

theorem isAny_iff {a : Ipv6Address} : a.isAny = true ↔ a = zero := by simp [isAny]

/-- Bit `i` of an address, the first the most significant one. -/
def bit (i : Nat) : Bool := (a.address[i / 8]?.getD 0).toNat.testBit (7 - i % 8)

end Ipv6Address

/-- `Ipv6Prefix`: the 16 octets of `m_prefix`, in which any bits may be set. Comparison is `memcmp` over
them. -/
structure Ipv6Prefix where
  /-- `m_prefix`. -/
  octets : Vector UInt8 16
  deriving DecidableEq

namespace Ipv6Prefix

/-- `Ipv6Prefix (uint8_t prefix)`: the first `n` bits. -/
def ofLength (n : UInt8) : Ipv6Prefix :=
  ⟨Vector.ofFn fun i =>
    if i.val < n.toNat / 8 then 0xff
    -- a shift by eight in C++ leaves none of the octet
    else if i.val = n.toNat / 8 ∧ n.toNat % 8 ≠ 0 then 0xff <<< (8 - n % 8)
    else 0⟩

/-- The constructor converts a number. -/
instance (n : Nat) : OfNat Ipv6Prefix n := ⟨ofLength (UInt8.ofNat n)⟩

/-- `GetOnes ()`. -/
def ones : Ipv6Prefix := 128

/-- `Ipv6Prefix ()` and `GetZero ()`. -/
def zero : Ipv6Prefix := ⟨Vector.replicate 16 0⟩

/-- The addresses are the same where the prefix has ones. -/
def isMatch (p : Ipv6Prefix) (a b : Ipv6Address) : Bool :=
  decide (∀ i : Fin 16, a.address[i] &&& p.octets[i] = b.address[i] &&& p.octets[i])

/-- The loop of `GetPrefixLength` over an octet: how often it can be shifted until it is zero, at most
`fuel` times. -/
def shifts : Nat → UInt8 → Nat
  | 0, _ => 0
  | fuel + 1, mask => if mask ≠ 0 then shifts fuel (mask <<< 1) + 1 else 0

/-- How often the octets can be shifted, taken together. -/
def getPrefixLength (p : Ipv6Prefix) : Nat :=
  p.octets.toList.foldl (fun prefixLength mask => prefixLength + shifts 8 mask) 0

end Ipv6Prefix

/-- The address where the prefix has ones, zeros elsewhere. -/
def Ipv6Address.combinePrefix (a : Ipv6Address) (p : Ipv6Prefix) : Ipv6Address :=
  ⟨Vector.ofFn fun i => a.address[i] &&& p.octets[i]⟩

/-- An address of 32 bits. -/
structure Ipv4Address where
  address : BitVec 32
  deriving DecidableEq

namespace Ipv4Address

/-- `GetAny ()` and `GetZero ()`: `0.0.0.0`. -/
def any : Ipv4Address := ⟨0⟩

/-- The default `Ipv4Address`: `102.102.102.102`. -/
def uninitialized : Ipv4Address := ⟨0x66666666⟩

variable (a : Ipv4Address)

/-- The address where the mask has ones, zeros elsewhere. -/
def combineMask (mask : BitVec 32) : Ipv4Address := ⟨a.address &&& mask⟩

/-- `255.255.255.255`. -/
def isBroadcast : Bool := a.address = 0xffffffff

/-- All ones where the mask has zeros. -/
def isSubnetDirectedBroadcast (mask : BitVec 32) : Bool :=
  if mask = 0xffffffff then false else a.address ||| ~~~mask = a.address

end Ipv4Address

/-- `Ipv4InterfaceAddress`: an address of an interface, and the broadcast address that goes with it. -/
structure Ipv4InterfaceAddress where
  /-- `GetLocal`. -/
  localAddress : Ipv4Address
  broadcast : Ipv4Address
  deriving DecidableEq

/-- `Mac48Address`: its 6 octets. -/
structure Mac48Address where
  address : Vector UInt8 6
  deriving DecidableEq

/-- The address whose last octet is `x` and whose others are zero, for concrete runs. -/
def Mac48Address.ofOctet (x : UInt8) : Mac48Address := ⟨⟨#[0, 0, 0, 0, 0, x], rfl⟩⟩

/-- `Identifier`: up to `MAX_SIZE = 255` octets, the length kept in a `uint8_t`. Comparison is of
the lengths and then `memcmp`. -/
structure Identifier where
  /-- The first `m_len` octets of `m_identifier`. -/
  octets : List UInt8
  /-- `m_len` is a `uint8_t`. -/
  length_le : octets.length ≤ 255
  deriving DecidableEq

namespace Identifier

/-- `Identifier ()`. -/
def empty : Identifier := ⟨[], by decide⟩

/-- It has no octets. -/
def isEmpty (i : Identifier) : Bool := i.octets.length = 0

/-- `Identifier (Mac48Address addr)`. -/
def ofMac48Address (addr : Mac48Address) : Identifier := ⟨addr.address.toList, by simp⟩

/-- The identifier of one octet, for concrete runs. -/
def ofOctet (x : UInt8) : Identifier := ⟨[x], by simp⟩

end Identifier

end Ns3
