import Ns3.Internet.Ipv6ExtensionHeader
import Ns3.Lib.Pieces
import Mathlib.Algebra.BigOperators.Group.List.Basic
import Mathlib.Algebra.Order.Ring.Nat
import Mathlib.Data.List.AList

/-!
# IPv6 fragmentation

What `Ipv6ExtensionFragment` (`internet/model/ipv6-extension.cc`) does to take packets apart, `GetFragments`, and to
put them together, `Process`, `HandleFragmentsTimeout` and the class `Fragments`.
-/

namespace Ns3

open Lib

/-- A header of the unfragmentable part, with its kind. -/
inductive ChainHeader where
  /-- `IPV6_EXT_HOP_BY_HOP`. -/
  | hopByHop (h : Ipv6OptionsHeader)
  /-- `IPV6_EXT_ROUTING`. -/
  | routing (h : Ipv6ExtensionLooseRoutingHeader)
  /-- `IPV6_EXT_DESTINATION`. -/
  | destination (h : Ipv6OptionsHeader)

namespace ChainHeader

/-- The value of a next-header field before such a header. -/
def number : ChainHeader → UInt8
  | hopByHop _ => Ipv6Header.extHopByHop
  | routing _ => Ipv6Header.extRouting
  | destination _ => Ipv6Header.extDestination

/-- `GetNextHeader`. -/
def nextHeader : ChainHeader → UInt8
  | hopByHop h => h.nextHeader
  | routing h => h.nextHeader
  | destination h => h.nextHeader

/-- The header, followed by another one. -/
def setNextHeader (nextHeader : UInt8) : ChainHeader → ChainHeader
  | hopByHop h => hopByHop { h with nextHeader }
  | routing h => routing { h with nextHeader }
  | destination h => destination { h with nextHeader }

/-- The octets that a header takes. -/
def getLength : ChainHeader → ℕ
  | hopByHop h => Ipv6ExtensionHeader.getLength h.length
  | routing h => Ipv6ExtensionHeader.getLength h.length
  | destination h => Ipv6ExtensionHeader.getLength h.length

/-- The octets of a header. -/
def serialize : ChainHeader → List UInt8
  | hopByHop h => h.serialize
  | routing h => h.serialize
  | destination h => h.serialize

end ChainHeader

namespace Ipv6ExtensionFragment

/-- The test for one more header of the unfragmentable part. -/
def moreHeader (nextHeader : UInt8) (type : Option UInt8) : Bool :=
  nextHeader = Ipv6Header.extHopByHop || nextHeader = Ipv6Header.extRouting ||
    (nextHeader = Ipv6Header.extDestination && type = some Ipv6Header.extRouting)

/-- Takes a header of the unfragmentable part off a packet. -/
def removeChainHeader (nextHeader : UInt8) (p : List UInt8) : Option (ChainHeader × List UInt8) :=
  if nextHeader = Ipv6Header.extHopByHop then
    (removeHeader Ipv6OptionsHeader.deserialize Ipv6OptionsHeader.serializedSize p).map (Prod.map .hopByHop id)
  else if nextHeader = Ipv6Header.extRouting then do
    let numberAddress := (← p[1]?) / 2
    (removeHeader (Ipv6ExtensionLooseRoutingHeader.deserialize numberAddress.toNat)
      Ipv6ExtensionLooseRoutingHeader.serializedSize p).map (Prod.map .routing id)
  else
    (removeHeader Ipv6OptionsHeader.deserialize Ipv6OptionsHeader.serializedSize p).map (Prod.map .destination id)

/-- The first loop of `GetFragments`, for a number of rounds: the headers of the unfragmentable part, of which the last
announces a fragment header, what it announced before, and the fragmentable part. -/
def unfragmentableLoop : ℕ → UInt8 → List UInt8 → Option (List ChainHeader × UInt8 × List UInt8)
  | 0, _, _ => none
  | rounds + 1, nextHeader, p => do
    let (header, p) ← removeChainHeader nextHeader p
    if moreHeader header.nextHeader p.head? then
      let (unfragmentablePart, nextHeader, p) ← unfragmentableLoop rounds header.nextHeader p
      some (header :: unfragmentablePart, nextHeader, p)
    else some ([header.setNextHeader Ipv6Header.extFragmentation], header.nextHeader, p)

/-- The second loop of `GetFragments`, for a number of rounds. `AddHeader` puts each header of the unfragmentable
part in front of those before it. -/
def fragmentLoop (ipv6Header : Ipv6Header) (unfragmentablePart : List ChainHeader) (nextHeader : UInt8)
    (p : List UInt8) (maxFragmentablePartSize identification : ℕ) :
    ℕ → ℕ → Ipv6ExtensionFragmentHeader → Option (List Ipv6Packet)
  | 0, _, _ => none
  | rounds + 1, offset, fragmentHeader =>
    let moreFragment : Bool := p.length > (offset + maxFragmentablePartSize) % 2 ^ 32
    let size := if moreFragment then maxFragmentablePartSize else p.length - offset
    let currentFragmentablePartSize := size - size % 8
    let fragmentHeader := { fragmentHeader with
      nextHeader, length := Ipv6ExtensionHeader.ofLength (currentFragmentablePartSize % 2 ^ 16), identification }
    let fragmentHeader := (fragmentHeader.setOffset offset).setMoreFragment moreFragment
    let fragment := fragmentHeader.serialize ++ (p.drop offset).take currentFragmentablePartSize
    let fragment := unfragmentablePart.foldl (fun fragment header => header.serialize ++ fragment) fragment
    let fragment : Ipv6Packet := ⟨ipv6Header.setPayloadLength fragment.length, fragment⟩
    if moreFragment then
      (fragmentLoop ipv6Header unfragmentablePart nextHeader p maxFragmentablePartSize identification rounds
        ((offset + currentFragmentablePartSize) % 2 ^ 16) fragmentHeader).map (fragment :: ·)
    else some [fragment]

/-- The first half of `GetFragments`: the IP header of the fragments, and what the loop finds. -/
def unfragmentablePart (packet : Ipv6Packet) : Option (Ipv6Header × List ChainHeader × UInt8 × List UInt8) :=
  let nextHeader := packet.header.nextHeader
  if moreHeader nextHeader packet.octets.head? then
    (unfragmentableLoop (packet.octets.length + 1) nextHeader packet.octets).map (packet.header, ·)
  else some (packet.header.setNextHeader Ipv6Header.extFragmentation, [], nextHeader, packet.octets)

/-- `maxFragmentablePartSize` in `GetFragments`, in 32 bits. -/
def maxFragmentablePartSize (maxFragmentSize : ℕ) (unfragmentablePart : List ChainHeader) : ℕ :=
  let unfragmentablePartSize := (unfragmentablePart.map ChainHeader.getLength).sum
  let headerSize := Ipv6Header.serializedSize + unfragmentablePartSize + Ipv6ExtensionFragmentHeader.serializedSize
  (maxFragmentSize + 2 ^ 32 - headerSize % 2 ^ 32) % 2 ^ 32

/-- `GetFragments`, with the identification that it draws. -/
def getFragments (packet : Ipv6Packet) (maxFragmentSize identification : ℕ) : Option (List Ipv6Packet) := do
  let (ipv6Header, unfragmentablePart, nextHeader, p) ← unfragmentablePart packet
  fragmentLoop ipv6Header unfragmentablePart nextHeader p (maxFragmentablePartSize maxFragmentSize unfragmentablePart)
    identification (p.length + 1) 0 .new

/-- The fragments of a packet that came. -/
structure Fragments where
  moreFragment : Bool
  /-- `m_unfragmentable`, if it is set. -/
  unfragmentable : Option (List UInt8)
  /-- `m_fragments`: the fragments with their offsets. -/
  fragments : List (List UInt8 × ℕ)

namespace Fragments

/-- `Fragments ()`. -/
def new : Fragments := ⟨false, none, []⟩

variable (f : Fragments)

/-- The headers in front of the fragments. -/
def setUnfragmentablePart (unfragmentablePart : List UInt8) : Fragments :=
  { f with unfragmentable := some unfragmentablePart }

/-- `AddFragment`: before the first fragment with a greater offset. -/
def addFragment (fragment : List UInt8) (fragmentOffset : ℕ) (moreFragment : Bool) : Fragments where
  moreFragment := if f.fragments.all (·.2 ≤ fragmentOffset) then moreFragment else f.moreFragment
  unfragmentable := f.unfragmentable
  fragments := Pieces.insert (fragment, fragmentOffset) f.fragments

/-- The loop of `IsEntire`. -/
def contiguous (lastEndOffset : ℕ) : List (List UInt8 × ℕ) → Bool
  | [] => true
  | it :: rest =>
    if lastEndOffset ≠ it.2 then false else contiguous ((lastEndOffset + it.1.length) % 2 ^ 16) rest

/-- The fragments are all there, without gaps. -/
def isEntire : Bool := !f.moreFragment && f.fragments ≠ [] && contiguous 0 f.fragments

/-- `GetPacket`: nothing where the unfragmentable part is a null pointer. -/
def getPacket : Option (List UInt8) := f.unfragmentable.map (· ++ f.fragments.flatMap Prod.fst)

/-- The loop of `GetPartialPacket`. -/
def partialLoop (lastEndOffset : ℕ) : List (List UInt8 × ℕ) → List UInt8
  | [] => []
  | it :: rest =>
    if lastEndOffset ≠ it.2 then [] else it.1 ++ partialLoop ((lastEndOffset + it.1.length) % 2 ^ 16) rest

/-- `GetPartialPacket`: a null pointer where the unfragmentable part is one. -/
def getPartialPacket : Option (List UInt8) := f.unfragmentable.map (· ++ partialLoop 0 f.fragments)

end Fragments

/-- The key of `m_fragments`: the source and the identification. -/
abbrev FragmentsId := Ipv6Address × ℕ

/-- `m_fragments`. Every entry has a timer. -/
abbrev MapFragments := AList fun _ : FragmentsId => Fragments

/-- What `Process` leaves behind. -/
structure Processed where
  /-- The packet, if it is complete; if not, `isDropped` is set. -/
  packet : Option (List UInt8)
  nextHeader : UInt8
  fragments : MapFragments

/-- `Process`, of the packet behind its IP header with a fragment header at an offset. The size that it returns is
zero. Nothing where it reads past the end of the packet or finds a null pointer. -/
def process (w : MapFragments) (packet : List UInt8) (offset : UInt8) (ipv6Header : Ipv6Header) : Option Processed := do
  let (fragmentHeader, p) ← removeHeader Ipv6ExtensionFragmentHeader.deserialize
    (fun _ => Ipv6ExtensionFragmentHeader.serializedSize) (packet.drop offset.toNat)
  let fragmentOffset := fragmentHeader.getOffset
  let fragmentsId : FragmentsId := (ipv6Header.source, fragmentHeader.identification)
  let fragments := (w.lookup fragmentsId).getD .new
  let fragments :=
    if fragmentOffset = 0 then fragments.setUnfragmentablePart (packet.take offset.toNat) else fragments
  let fragments := fragments.addFragment p fragmentOffset fragmentHeader.getMoreFragment
  if fragments.isEntire then
    let packet ← fragments.getPacket
    some ⟨some packet, fragmentHeader.nextHeader, w.erase fragmentsId⟩
  else some ⟨none, fragmentHeader.nextHeader, w.insert fragmentsId fragments⟩

/-- `HandleFragmentsTimeout`, for an entry of the map: the part of the packet that it drops; nothing where it finds a
null pointer. -/
def handleFragmentsTimeout (w : MapFragments) (fragmentsId : FragmentsId) : Option (List UInt8 × MapFragments) := do
  let fragments ← w.lookup fragmentsId
  let packet ← fragments.getPartialPacket
  some (packet, w.erase fragmentsId)

end Ipv6ExtensionFragment

end Ns3
