import Ns3.Internet.Ipv6ExtensionRouting
import Ns3.Internet.Ipv6Fragments
import Ns3.Lib.Machine

/-!
# Local delivery of IPv6 packets

`Ipv6L3Protocol::LocalDeliver` (`internet/model/ipv6-l3-protocol.cc`) goes through the extension headers of a packet
with the `Process` of each (`internet/model/ipv6-extension.cc`, `ipv6-option.cc`), and hands what is behind them to the
upper layer. It keeps the position of the next header in eight bits. A step of the machine is one round of its loop,
or one round of the loop over the options of a header. ICMP errors and traces are left out.
-/

namespace Ns3

open Lib Ipv6ExtensionHeader

/-- The options that `RegisterOptions` inserts. -/
inductive Ipv6Option where
  /-- `Ipv6OptionPad1`. -/
  | pad1
  /-- `Ipv6OptionPadn`. -/
  | padn
  /-- `Ipv6OptionJumbogram`. -/
  | jumbogram
  /-- `Ipv6OptionRouterAlert`. -/
  | routerAlert
  deriving DecidableEq

namespace Ipv6Option

/-- `GetOptionNumber`. -/
def optionNumber : Ipv6Option → UInt8
  | pad1 => 0
  | padn => 60
  | jumbogram => 44
  | routerAlert => 43

/-- The option of the type, if it is known. -/
def getOption (optionType : UInt8) : Option Ipv6Option :=
  [pad1, padn, jumbogram, routerAlert].find? fun o => o.optionNumber = optionType

/-- How many octets `Deserialize` reads. -/
def octetsRead : Ipv6Option → ℕ
  | pad1 => 1
  | padn => 2
  | jumbogram => 4
  | routerAlert => 4

/-- `Process`: the size of the option. Nothing where it reads past the end of the packet. -/
def process (o : Ipv6Option) (packet : List UInt8) (offset : UInt8) : Option UInt8 :=
  let p := packet.drop offset.toNat
  if p.length < o.octetsRead then none
  else
    match o with
    | pad1 => some 1
    | padn | jumbogram | routerAlert => p[1]?.map (· + 2)

end Ipv6Option

/-- What a round of `ProcessOptions` comes to. -/
inductive OptionRound where
  /-- `optionLength`. -/
  | advance (optionLength : UInt8)
  /-- `isDropped` is set. -/
  | dropped

/-- A round of the loop of `ProcessOptions`. Nothing where it reads past the end of the packet. -/
def Ipv6Extension.processOption (packet : List UInt8) (offset processedSize : UInt8) : Option OptionRound := do
  let data := packet.drop offset.toNat
  let optionType ← data[processedSize.toNat]?
  match Ipv6Option.getOption optionType with
  | none =>
    if optionType >>> 6 = 0 then data[processedSize.toNat + 1]?.map fun length => .advance (length + 2)
    else some .dropped
  | some ipv6Option => (ipv6Option.process packet (offset + processedSize)).map .advance

/-- The extensions that `RegisterExtensions` inserts. -/
inductive Ipv6Extension where
  /-- `Ipv6ExtensionHopByHop`. -/
  | hopByHop
  /-- `Ipv6ExtensionDestination`. -/
  | destination
  /-- `Ipv6ExtensionFragment`. -/
  | fragment
  /-- `Ipv6ExtensionRouting`. -/
  | routing

namespace Ipv6Extension

/-- `GetExtensionNumber`. -/
def extensionNumber : Ipv6Extension → UInt8
  | hopByHop => Ipv6Header.extHopByHop
  | destination => Ipv6Header.extDestination
  | fragment => Ipv6Header.extFragmentation
  | routing => Ipv6Header.extRouting

/-- The extension of the number, if it is known. -/
def getExtension (nextHeader : UInt8) : Option Ipv6Extension :=
  [hopByHop, destination, fragment, routing].find? fun e => e.extensionNumber = nextHeader

end Ipv6Extension

namespace Ipv6L3Protocol

/-- The variables of `LocalDeliver`. -/
structure Walk where
  /-- `p`. -/
  packet : List UInt8
  nextHeader : UInt8
  /-- `nextHeaderPosition`. -/
  position : UInt8
  /-- The fragments that the node keeps. -/
  fragments : Ipv6ExtensionFragment.MapFragments

/-- Where `LocalDeliver` is. -/
inductive DeliverState where
  | received (packet : List UInt8) (fragments : Ipv6ExtensionFragment.MapFragments)
  /-- It asks for the extension of the next header. -/
  | walk (w : Walk)
  /-- It is in `ProcessOptions` of the header at the position. -/
  | options (w : Walk) (length processedSize : UInt8)
  /-- The upper layer has got the octets. -/
  | delivered (protocol : UInt8) (octets : List UInt8)
  /-- There is no such upper layer. -/
  | unknownProtocol
  /-- An extension has dropped the packet. -/
  | dropped
  /-- It has read past the end of the packet, or has found a null pointer. -/
  | failed

namespace DeliverState

/-- `LocalDeliver` has come to an end. -/
def isOver : DeliverState → Bool
  | received .. | walk _ | options .. => false
  | delivered .. | unknownProtocol | dropped | failed => true

end DeliverState

open DeliverState

/-- `Process` of a hop-by-hop or destination header, up to `ProcessOptions`. -/
def processOptionsHeader (w : Walk) : DeliverState :=
  match removeHeader Ipv6OptionsHeader.deserialize Ipv6OptionsHeader.serializedSize
      (w.packet.drop w.position.toNat) with
  | none => failed
  | some (header, _) =>
    options { w with nextHeader := header.nextHeader }
      (UInt8.ofNat (getLength header.length - Ipv6OptionsHeader.optionsOffset)) 0

/-- `Process` of an extension. -/
def processExtension (ip : Ipv6Header) (w : Walk) : Ipv6Extension → DeliverState
  | .hopByHop | .destination => processOptionsHeader w
  | .fragment =>
    match Ipv6ExtensionFragment.process w.fragments w.packet w.position ip with
    | none => failed
    | some ⟨none, _, _⟩ => dropped
    | some ⟨some packet, nextHeader, fragments⟩ => walk ⟨packet, nextHeader, w.position, fragments⟩
  | .routing =>
    match Ipv6ExtensionRouting.process w.packet w.position ip with
    | none => failed
    | some r =>
      if r.isDropped then dropped else walk { w with nextHeader := r.nextHeader, position := w.position + r.size }

/-- A step of `LocalDeliver`, on a node with the given upper layers. -/
def deliverStep (protocols : UInt8 → Bool) (ip : Ipv6Header) : DeliverState → DeliverState
  | received packet fragments =>
    if ip.nextHeader = Ipv6Header.extHopByHop then
      match packet with
      | buf0 :: buf1 :: _ => walk ⟨packet, buf0, buf1, fragments⟩
      | _ => failed
    else walk ⟨packet, ip.nextHeader, 0, fragments⟩
  | walk w =>
    match Ipv6Extension.getExtension w.nextHeader with
    | some ipv6Extension => processExtension ip w ipv6Extension
    | none =>
      if protocols w.nextHeader then delivered w.nextHeader (w.packet.drop w.position.toNat) else unknownProtocol
  | options w length processedSize =>
    if length > processedSize then
      match Ipv6Extension.processOption w.packet (w.position + UInt8.ofNat Ipv6OptionsHeader.optionsOffset)
          processedSize with
      | none => failed
      | some .dropped => dropped
      | some (.advance optionLength) => options w length (processedSize + optionLength)
    else walk { w with position := w.position + (UInt8.ofNat Ipv6OptionsHeader.optionsOffset + processedSize) }
  | s => s

/-- The rounds of `LocalDeliver`. -/
def localDeliver (protocols : UInt8 → Bool) (ip : Ipv6Header) : Machine DeliverState Unit where
  enabled s _ := s.isOver = false
  exec s _ := some (deliverStep protocols ip s)

end Ipv6L3Protocol

end Ns3
