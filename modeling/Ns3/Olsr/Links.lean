import Ns3.Olsr.Topology

/-!
# The link set and the neighbour set of OLSR

What HELLO and MID messages and the timers do to the link set, the neighbour set and the interface association set
(`olsr/model/olsr-routing-protocol.cc`, `olsr/model/olsr-state.cc`). These do not depend on the 2-hop, MPR and MPR
selector sets, whose changes are left out. Where the code writes through a pointer into a vector, the first tuple with
the address is updated; `none` is a failed assertion or `NS_FATAL_ERROR`.
-/

namespace Ns3.Olsr

open Lib

/-- The link types. -/
inductive LinkType where
  | unspec | asym | sym | lost
  deriving DecidableEq

/-- The neighbour types, with the value that is none. -/
inductive NeighborType where
  | notNeigh | symNeigh | mprNeigh | invalid
  deriving DecidableEq

/-- The neighbours of one link code. -/
structure LinkMessage where
  linkCode : UInt8
  neighborInterfaceAddresses : List Ipv4Address
  deriving DecidableEq

namespace LinkMessage

variable (m : LinkMessage)

/-- The link type: `linkCode & 0x03`. -/
def linkType : LinkType :=
  match (m.linkCode &&& 3).toNat with
  | 0 => .unspec
  | 1 => .asym
  | 2 => .sym
  | _ => .lost

/-- The neighbour type: `(linkCode >> 2) & 0x03`. -/
def neighborType : NeighborType :=
  match (m.linkCode >>> 2 &&& 3).toNat with
  | 0 => .notNeigh
  | 1 => .symNeigh
  | 2 => .mprNeigh
  | _ => .invalid

/-- A link message that is not ignored and names the interface. -/
def Names (receiverIface : Ipv4Address) : Prop :=
  ¬ (m.linkType = .sym ∧ m.neighborType = .notNeigh ∨ m.neighborType = .invalid) ∧
    receiverIface ∈ m.neighborInterfaceAddresses
deriving Decidable

end LinkMessage

/-- What of a `HELLO_MESSAGE` is used here. -/
structure HelloMessage where
  /-- `GetOriginatorAddress ()`. -/
  originatorAddress : Ipv4Address
  /-- `GetVTime ()`. -/
  vTime : ℕ
  linkMessages : List LinkMessage
  willingness : UInt8

/-- What of a `MID_MESSAGE` is used here. -/
structure MidMessage where
  /-- `GetOriginatorAddress ()`. -/
  originatorAddress : Ipv4Address
  /-- `GetVTime ()`. -/
  vTime : ℕ
  interfaceAddresses : List Ipv4Address

/-- A second. -/
def second : ℤ := 1000000000

/-- `OLSR_NEIGHB_HOLD_TIME`. -/
def neighbHoldTime : ℤ := 3 * (2 * second)

/-- `OLSR_WILL_DEFAULT`. -/
def willDefault : UInt8 := 3

namespace OlsrState

/-! ### The repositories -/

variable (s : OlsrState)

/-- The first link to the interface. -/
def findLinkTuple (ifaceAddr : Ipv4Address) : Option LinkTuple :=
  s.linkSet.find? fun tuple => tuple.neighborIfaceAddr = ifaceAddr

variable (tuple : LinkTuple)

/-- The first link between the interfaces is removed. -/
def eraseLinkTuple : OlsrState :=
  { s with linkSet := s.linkSet.eraseP fun other =>
      other.localIfaceAddr = tuple.localIfaceAddr ∧ other.neighborIfaceAddr = tuple.neighborIfaceAddr }

/-- A link more. -/
def insertLinkTuple : OlsrState := { s with linkSet := s.linkSet ++ [tuple] }

/-- The tuple with the address of its neighbour is written. -/
def writeLinkTuple : OlsrState :=
  { s with
    linkSet := updateFirst (fun old => old.neighborIfaceAddr = tuple.neighborIfaceAddr) (fun _ => tuple) s.linkSet }

/-- The first neighbour with the main address. -/
def findNeighborTuple (mainAddr : Ipv4Address) : Option NeighborTuple :=
  s.neighborSet.find? fun tuple => tuple.neighborMainAddr = mainAddr

/-- The first neighbour with the main address is removed. -/
def eraseNeighborTuple (mainAddr : Ipv4Address) : OlsrState :=
  { s with neighborSet := s.neighborSet.eraseP fun tuple => tuple.neighborMainAddr = mainAddr }

/-- The neighbour replaces the first with its address, or is a new one. -/
def insertNeighborTuple (tuple : NeighborTuple) : OlsrState :=
  match s.findNeighborTuple tuple.neighborMainAddr with
  | some _ =>
    { s with
      neighborSet := updateFirst (fun old => old.neighborMainAddr = tuple.neighborMainAddr) (fun _ => tuple)
        s.neighborSet }
  | none => { s with neighborSet := s.neighborSet ++ [tuple] }

/-- The first such association is removed. -/
def eraseIfaceAssocTuple (tuple : IfaceAssocTuple) : OlsrState :=
  { s with ifaceAssocSet := s.ifaceAssocSet.eraseP fun other =>
      other.ifaceAddr = tuple.ifaceAddr ∧ other.mainAddr = tuple.mainAddr }

/-! ### Links -/

variable (now : ℤ)

/-- A neighbour has a link whose symmetric time is not over. -/
def HasSymLink (mainAddr : Ipv4Address) : Prop :=
  ∃ link ∈ s.linkSet, s.getMainAddress link.neighborIfaceAddr = mainAddr ∧ now ≤ link.symTime
deriving Decidable

/-- The neighbour of a new link, symmetric if the link is. -/
def linkTupleAdded (tuple : LinkTuple) (willingness : UInt8) : OlsrState :=
  s.insertNeighborTuple
    ⟨s.getMainAddress tuple.neighborIfaceAddr, if now ≤ tuple.symTime then .sym else .notSym, willingness⟩

/-- The neighbour of a link is as symmetric as the link. -/
def linkTupleUpdated (tuple : LinkTuple) (willingness : UInt8) : OlsrState :=
  let mainAddr := s.getMainAddress tuple.neighborIfaceAddr
  let s := match s.findNeighborTuple mainAddr with
    | some _ => s
    | none => s.linkTupleAdded now tuple willingness
  { s with
    neighborSet := updateFirst (fun nb => nb.neighborMainAddr = mainAddr)
      (fun nb => { nb with status := if s.HasSymLink now nb.neighborMainAddr then .sym else .notSym }) s.neighborSet }

/-- A link message of `LinkSensing`. The `Bool` is whether the tuple is updated. -/
def senseLink (vTime : ℕ) (receiverIface : Ipv4Address) (x : LinkTuple × Bool) (m : LinkMessage) :
    Option (LinkTuple × Bool) :=
  if m.Names receiverIface then
    match m.linkType with
    | .lost => some ({ x.1 with symTime := now - second }, true)
    | .sym | .asym => some ({ x.1 with symTime := now + vTime, time := now + vTime + neighbHoldTime }, true)
    | .unspec => none
  else some x

/-- The link tuple that `LinkSensing` starts from: the one to the sender, or a new one. -/
def sensedLink (vTime : ℕ) (receiverIface senderIface : Ipv4Address) : LinkTuple :=
  (s.findLinkTuple senderIface).getD
    { localIfaceAddr := receiverIface, neighborIfaceAddr := senderIface, symTime := now - second, asymTime := 0,
      time := now + vTime }

/-- The link of a HELLO is made or renewed. -/
def linkSensing (msg : HelloMessage) (receiverIface senderIface : Ipv4Address) :
    Option OlsrState :=
  if 0 < msg.vTime then
    let created := (s.findLinkTuple senderIface).isNone
    let tuple := s.sensedLink now msg.vTime receiverIface senderIface
    let s := if created then s.insertLinkTuple tuple else s
    match msg.linkMessages.foldlM (senseLink now msg.vTime receiverIface)
      ({ tuple with asymTime := now + msg.vTime }, !created) with
    | none => none
    | some (tuple, updated) =>
      let tuple := { tuple with time := max tuple.time tuple.asymTime }
      let s := s.writeLinkTuple tuple
      let s := if updated then s.linkTupleUpdated now tuple msg.willingness else s
      some (if created then s.linkTupleAdded now tuple msg.willingness else s)
  else none

/-- The neighbour's willingness is that of the HELLO. -/
def populateNeighborSet (msg : HelloMessage) : OlsrState :=
  { s with
    neighborSet := updateFirst (fun nb => nb.neighborMainAddr = msg.originatorAddress)
      (fun nb => { nb with willingness := msg.willingness }) s.neighborSet }

/-- A HELLO senses its link and sets the willingness. -/
def processHello (msg : HelloMessage) (receiverIface senderIface : Ipv4Address) :
    Option OlsrState :=
  (s.linkSensing now msg receiverIface senderIface).map fun s => s.populateNeighborSet msg

/-- `RemoveLinkTuple`. The tuple is passed by reference into the vector: when it is erased, the next one is in its
place, and behind the last one the value is still there. -/
def removeLinkTuple : OlsrState :=
  let place := s.linkSet.idxOf tuple
  let s := s.eraseLinkTuple tuple
  let tuple := s.linkSet.getD place tuple
  s.eraseNeighborTuple (s.getMainAddress tuple.neighborIfaceAddr)

/-- `LinkTupleTimerExpire`, with `m_linkTupleTimerFirstTime`; `NeighborLoss` is `LinkTupleUpdated` here. -/
def linkTupleTimerExpire (firstTime : Bool) (neighborIfaceAddr : Ipv4Address) :
    OlsrState × Bool :=
  match s.findLinkTuple neighborIfaceAddr with
  | none => (s, firstTime)
  | some tuple =>
    if tuple.time < now then (s.removeLinkTuple tuple, firstTime)
    else if tuple.symTime < now then
      if firstTime then (s, false) else (s.linkTupleUpdated now tuple willDefault, firstTime)
    else (s, firstTime)

/-! ### Interface associations -/

/-- An interface address of `ProcessMid`. -/
def associate (msg : MidMessage) (s : OlsrState) (ifaceAddr : Ipv4Address) : OlsrState :=
  if ∃ tuple ∈ s.ifaceAssocSet, tuple.ifaceAddr = ifaceAddr ∧ tuple.mainAddr = msg.originatorAddress then
    { s with ifaceAssocSet := s.ifaceAssocSet.map fun tuple =>
        if tuple.ifaceAddr = ifaceAddr ∧ tuple.mainAddr = msg.originatorAddress then
          { tuple with time := now + msg.vTime }
        else tuple }
  else { s with ifaceAssocSet := s.ifaceAssocSet ++ [⟨ifaceAddr, msg.originatorAddress, now + msg.vTime⟩] }

/-- The interface addresses of a message. -/
def associateAll (msg : MidMessage) : OlsrState :=
  msg.interfaceAddresses.foldl (associate now msg) s

/-- The interfaces are associated, and neighbours renamed in place. -/
def processMid (msg : MidMessage) (senderIface : Ipv4Address) : OlsrState :=
  match s.findSymLinkTuple senderIface now with
  | none => s
  | some _ =>
    let s := s.associateAll now msg
    { s with
      neighborSet := s.neighborSet.map fun nb =>
        { nb with neighborMainAddr := s.getMainAddress nb.neighborMainAddr } }

/-- The association is removed if its time is over. -/
def ifaceAssocTupleTimerExpire (ifaceAddr : Ipv4Address) : OlsrState :=
  match s.findIfaceAssocTuple ifaceAddr with
  | none => s
  | some tuple => if tuple.time < now then s.eraseIfaceAssocTuple tuple else s

end OlsrState

end Ns3.Olsr
