import Ns3.Internet.Ipv6ExtensionHeader

/-!
# IPv6 routing headers

`Ipv6ExtensionRouting` and `Ipv6ExtensionLooseRouting` (`internet/model/ipv6-extension.cc`). A packet is given by the
octets behind its IP header, with the offset of the routing header.
-/

namespace Ns3

open Ipv6ExtensionHeader

/-- What `Process` of a routing header makes of a packet. -/
structure RoutingProcessed where
  size : UInt8
  nextHeader : UInt8
  isDropped : Bool
  /-- The packet that is sent to the next router. -/
  resent : Option Ipv6Packet

namespace Ipv6ExtensionLooseRouting

/-- `GetTypeRouting`. -/
def typeRouting : UInt8 := 0

/-- `Process`. Nothing where it reads past the end of the packet. The ICMP errors are left out. -/
def process (packet : List UInt8) (offset : UInt8) (ipv6Header : Ipv6Header) : Option RoutingProcessed := do
  let p := packet.drop offset.toNat
  let numberAddress := (← p[1]?) / 2
  let (routingHeader, p) ← removeHeader (Ipv6ExtensionLooseRoutingHeader.deserialize numberAddress.toNat)
    Ipv6ExtensionLooseRoutingHeader.serializedSize p
  let size := UInt8.ofNat routingHeader.serializedSize
  let dropped : RoutingProcessed := ⟨size, routingHeader.nextHeader, true, none⟩
  let segmentsLeft := routingHeader.segmentsLeft
  let length := ofLength (getLength routingHeader.length)
  let nbAddress := length / 2
  if segmentsLeft = 0 then some ⟨size, routingHeader.nextHeader, false, none⟩
  else if length % 2 ≠ 0 then some dropped
  else if segmentsLeft > nbAddress then some dropped
  else
    let nextAddressIndex := (nbAddress - segmentsLeft).toNat
    let nextAddress ← routingHeader.routersAddress[nextAddressIndex]?
    if nextAddress.isMulticast || ipv6Header.destination.isMulticast then some dropped
    else if ipv6Header.hopLimit ≤ 1 then some dropped
    else
      let routersAddress := routingHeader.routersAddress.set nextAddressIndex ipv6Header.destination
      let routingHeader :=
        { routingHeader with segmentsLeft := segmentsLeft - 1, routersAddress, length := ofLength 88 }
      let ipv6Header := { ipv6Header with destination := nextAddress, hopLimit := ipv6Header.hopLimit - 1 }
      some ⟨size, routingHeader.nextHeader, true, some ⟨ipv6Header, routingHeader.serialize ++ p⟩⟩

/-- A packet goes on with a hop limit that is one less, and not zero. -/
theorem hopLimit_resent {packet : List UInt8} {offset : UInt8} {ipv6Header : Ipv6Header} {r : RoutingProcessed}
    {q : Ipv6Packet} (h : process packet offset ipv6Header = some r) (hq : r.resent = some q) :
    q.header.hopLimit = ipv6Header.hopLimit - 1 ∧ 1 < ipv6Header.hopLimit := by
  have hnone : ∀ {size nextHeader : UInt8} {isDropped : Bool},
      (some ⟨size, nextHeader, isDropped, none⟩ : Option RoutingProcessed) ≠ some r := by
    intro size nextHeader isDropped heq
    cases heq
    exact absurd hq (by simp)
  obtain ⟨length, -, h⟩ := Option.bind_eq_some_iff.mp h
  obtain ⟨⟨routingHeader, p⟩, -, h⟩ := Option.bind_eq_some_iff.mp h
  dsimp only at h
  split at h
  · exact absurd h hnone
  split at h
  · exact absurd h hnone
  split at h
  · exact absurd h hnone
  obtain ⟨nextAddress, -, h⟩ := Option.bind_eq_some_iff.mp h
  split at h
  · exact absurd h hnone
  split at h
  · exact absurd h hnone
  · rename_i hhop
    cases h
    cases hq
    exact ⟨rfl, UInt8.not_le.mp hhop⟩

/-- When the header can be read, its size is returned, and the packet is dropped if there are segments left. -/
theorem process_of_removeHeader {packet : List UInt8} {offset length : UInt8} {ipv6Header : Ipv6Header}
    {routingHeader : Ipv6ExtensionLooseRoutingHeader} {p : List UInt8}
    (hlength : (packet.drop offset.toNat)[1]? = some length) (hheader : routingHeader.length = length)
    (hnumber : routingHeader.routersAddress.length = (length / 2).toNat)
    (hread : removeHeader (Ipv6ExtensionLooseRoutingHeader.deserialize (length / 2).toNat)
      Ipv6ExtensionLooseRoutingHeader.serializedSize (packet.drop offset.toNat) = some (routingHeader, p)) :
    ∃ r, process packet offset ipv6Header = some r ∧ r.size = UInt8.ofNat routingHeader.serializedSize ∧
      r.isDropped = decide (routingHeader.segmentsLeft ≠ 0) := by
  rw [process]
  dsimp only
  rw [hlength, Option.bind_eq_bind, Option.bind_some, hread, Option.bind_eq_bind, Option.bind_some, hheader,
    ofLength_getLength]
  by_cases hzero : routingHeader.segmentsLeft = 0
  · exact ⟨_, if_pos hzero, rfl, (decide_eq_false (not_not.mpr hzero)).symm⟩
  have hdropped := (decide_eq_true hzero).symm
  rw [if_neg hzero]
  split
  · exact ⟨_, rfl, rfl, hdropped⟩
  split
  · exact ⟨_, rfl, rfl, hdropped⟩
  rename_i hgreater
  have hindex : (length / 2 - routingHeader.segmentsLeft).toNat < routingHeader.routersAddress.length := by
    have hle : routingHeader.segmentsLeft ≤ length / 2 := UInt8.not_lt.mp hgreater
    have hpos : routingHeader.segmentsLeft.toNat ≠ 0 := fun h => hzero (UInt8.toNat_inj.mp h)
    rw [hnumber, UInt8.toNat_sub_of_le _ _ hle]
    rw [UInt8.le_iff_toNat_le] at hle
    omega
  rw [List.getElem?_eq_getElem hindex, Option.bind_eq_bind, Option.bind_some]
  split
  · exact ⟨_, rfl, rfl, hdropped⟩
  split
  · exact ⟨_, rfl, rfl, hdropped⟩
  · exact ⟨_, rfl, rfl, hdropped⟩

end Ipv6ExtensionLooseRouting

namespace Ipv6ExtensionRouting

/-- `Process`. The fields are read from the start of the packet, not from the offset, and a loose routing header is
not asked for the next header. -/
def process (packet : List UInt8) (offset : UInt8) (ipv6Header : Ipv6Header) : Option RoutingProcessed := do
  let routingNextHeader ← packet[0]?
  let routingLength ← packet[1]?
  let routingTypeRouting ← packet[2]?
  let routingSegmentsLeft ← packet[3]?
  if routingTypeRouting = Ipv6ExtensionLooseRouting.typeRouting then
    let processed ← Ipv6ExtensionLooseRouting.process packet offset ipv6Header
    some { processed with nextHeader := routingNextHeader }
  else some ⟨routingLength, routingNextHeader, routingSegmentsLeft ≠ 0, none⟩

end Ipv6ExtensionRouting

end Ns3
