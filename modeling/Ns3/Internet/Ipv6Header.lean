import Ns3.Network.Address

/-!
# IPv6 headers

`Ipv6Header` (`internet/model/ipv6-header.h`), without the version, the traffic class and the flow label. A packet is
its IP header with the octets behind it.
-/

namespace Ns3

/-- The fields of the header that are looked at. -/
structure Ipv6Header where
  /-- `m_sourceAddress`. -/
  source : Ipv6Address
  /-- `m_destinationAddress`. -/
  destination : Ipv6Address
  nextHeader : UInt8
  hopLimit : UInt8
  payloadLength : ℕ
  deriving DecidableEq

namespace Ipv6Header

/-- `GetSerializedSize`. -/
def serializedSize : ℕ := 40

/-- `IPV6_EXT_HOP_BY_HOP`. -/
def extHopByHop : UInt8 := 0

/-- `IPV6_EXT_ROUTING`. -/
def extRouting : UInt8 := 43

/-- `IPV6_EXT_FRAGMENTATION`. -/
def extFragmentation : UInt8 := 44

/-- `IPV6_EXT_DESTINATION`. -/
def extDestination : UInt8 := 60

/-- What follows the header. -/
def setNextHeader (h : Ipv6Header) (nextHeader : UInt8) : Ipv6Header := { h with nextHeader }

/-- The hop limit. -/
def setHopLimit (h : Ipv6Header) (hopLimit : UInt8) : Ipv6Header := { h with hopLimit }

/-- A length of 16 bits. -/
def setPayloadLength (h : Ipv6Header) (len : ℕ) : Ipv6Header := { h with payloadLength := len % 2 ^ 16 }

end Ipv6Header

/-- A packet with its IP header. -/
structure Ipv6Packet where
  header : Ipv6Header
  octets : List UInt8
  deriving DecidableEq

/-- `GetSize` of the packet with its header. -/
def Ipv6Packet.size (p : Ipv6Packet) : ℕ := Ipv6Header.serializedSize + p.octets.length

end Ns3
