import Ns3.Dsdv.RoutingTable
import Ns3.Lib.Machine

/-!
# The DSDV routing protocol

`RoutingProtocol` (`dsdv/model/dsdv-routing-protocol.cc`): a table for forwarding and a table of what is to be
advertised. When a settling time is over, which the code computes with floating point, is left open: an event that is
running may expire at any time. Queued packets and the routes of packets only read the tables.
-/

namespace Ns3.Dsdv

/-- An interface that DSDV uses. -/
abbrev Interface := Ipv4InterfaceAddress

/-- The address, hop count and number that a route is advertised with. -/
structure DsdvHeader where
  dst : Ipv4Address
  hopCount : UInt32
  dstSeqno : UInt32
  deriving DecidableEq

/-- A packet of updates, and the address of the interface that sends it to all. -/
structure Packet where
  sender : Ipv4Address
  /-- The headers, outermost first. -/
  headers : List DsdvHeader
  deriving DecidableEq

/-- What of `RoutingProtocol` is used here. -/
structure RoutingProtocol where
  /-- `GetAddress (1, 0)`. -/
  main : Interface
  /-- `m_socketAddresses`. -/
  interfaces : List Interface
  routingTable : RoutingTable
  advRoutingTable : RoutingTable
  /-- The gateways of the `Ipv4Route`s. -/
  gateways : Gateways
  /-- The next `Ipv4Route` that is created. -/
  nextRoute : ℕ
  /-- `m_ipv4Events` of the advertised table: whether the event is running. -/
  events : Ipv4Address → Option Bool
  /-- The calls of `SendTriggeredUpdate` that are scheduled without a settling time. -/
  scheduled : ℕ

namespace RoutingProtocol

/-- `127.0.0.1`. -/
def loopback : Ipv4Address := ⟨0x7f000001⟩

/-- After `SetIpv4`, and `NotifyInterfaceUp` for each interface. -/
def new (main : Interface) (others : List Interface) (maximumSimulationTime : ℤ) : RoutingProtocol where
  main
  interfaces := main :: others
  routingTable := (main :: others).foldl (fun t iface => t.addRoute iface.broadcast
      ⟨0, 0, maximumSimulationTime, 0, .valid, false⟩)
    (RoutingTable.addRoute ∅ loopback ⟨0, 0, maximumSimulationTime, 0, .invalid, false⟩)
  advRoutingTable := ∅
  gateways dst _ := dst
  nextRoute := 1
  events _ := none
  scheduled := 0

variable (n : RoutingProtocol)

variable (dst : Ipv4Address)

/-- An update is for an address of the node. -/
def IsOwn : Prop := ∃ iface ∈ n.interfaces, dst = iface.localAddress
deriving Decidable

/-- A settling event runs for the destination. -/
def AnyRunningEvent : Prop := n.events dst = some true
deriving Decidable

/-- A number is that of a broken route. -/
def Broken (seqNo : UInt32) : Prop := seqNo % 2 = 1
deriving Decidable

/-- `GetNextHop`. -/
def nextHop (rt : RoutingTableEntry) : Ipv4Address :=
  n.gateways dst rt.ipv4Route

variable (now : ℤ)

/-- A route that is new: it is added to both tables. -/
def addNewRoute (sender : Ipv4Address) (h : DsdvHeader) : RoutingProtocol :=
  let newEntry : RoutingTableEntry := ⟨h.dstSeqno, h.hopCount, now, n.nextRoute, .valid, true⟩
  { n with
    routingTable := n.routingTable.addRoute h.dst newEntry
    advRoutingTable := n.advRoutingTable.addRoute h.dst newEntry
    gateways := Function.update n.gateways h.dst (Function.update (n.gateways h.dst) n.nextRoute sender)
    nextRoute := n.nextRoute + 1 }

/-- The entry of the advertised table that is looked at: where there is none, that of the forwarding table is added. -/
def withAdvertised (fwdTableEntry : RoutingTableEntry) :
    RoutingTableEntry × RoutingProtocol :=
  match n.advRoutingTable.lookup dst with
  | some advTableEntry => (advTableEntry, n)
  | none => (fwdTableEntry, { n with advRoutingTable := n.advRoutingTable.addRoute dst fwdTableEntry })

/-- The entry with what an update says, whose next hop is set. -/
def setEntry (sender : Ipv4Address) (h : DsdvHeader)
    (advTableEntry : RoutingTableEntry) : RoutingTableEntry × RoutingProtocol :=
  ({ advTableEntry with
      seqNo := h.dstSeqno, lifeTime := now, flag := .valid, entriesChanged := true, hops := h.hopCount },
    { n with
      gateways := Function.update n.gateways h.dst
        (Function.update (n.gateways h.dst) advTableEntry.ipv4Route sender) })

/-- A changed metric is used, and advertised only after the settling time. -/
def useAndSettle (sender : Ipv4Address) (h : DsdvHeader)
    (advTableEntry : RoutingTableEntry) : RoutingProtocol :=
  let (rt, n) := n.setEntry now sender h advTableEntry
  { n with
    events := Function.update n.events h.dst (some true)
    routingTable := n.routingTable.update h.dst rt
    advRoutingTable := n.advRoutingTable.update h.dst rt }

/-- A newer number with the same metric is advertised. -/
def advertiseOnly (sender : Ipv4Address) (h : DsdvHeader)
    (advTableEntry : RoutingTableEntry) : RoutingProtocol :=
  let (rt, n) := n.setEntry now sender h advTableEntry
  { n with
    events := Function.update n.events h.dst none
    advRoutingTable := n.advRoutingTable.update h.dst rt }

/-- An update is discarded, and with it the entry to be advertised, unless an event is running for it. -/
def discard : RoutingProtocol :=
  if n.AnyRunningEvent dst then n else { n with advRoutingTable := n.advRoutingTable.deleteRoute dst }

/-- An update with the same number and no better metric renews the entry, if it is from its next hop. -/
def renew (sender : Ipv4Address) (dst : Ipv4Address)
    (advTableEntry : RoutingTableEntry) : RoutingProtocol :=
  if ¬ n.AnyRunningEvent dst ∧ n.nextHop dst advTableEntry = sender then
    { n with routingTable := n.routingTable.update dst { advTableEntry with lifeTime := now } }
  else n

variable (x : Ipv4Address × RoutingTableEntry)

/-- A route is deleted that is reached by a broken one, and is to be advertised as broken. -/
def breakEntry : RoutingProtocol :=
  { n with
    advRoutingTable := n.advRoutingTable.addRoute x.1 { x.2 with seqNo := x.2.seqNo + 1, entriesChanged := true }
    routingTable := n.routingTable.deleteRoute x.1 }

/-- A route is deleted as its next hop says that it is broken, with those that are reached by its destination. -/
def breakRoute (h : DsdvHeader) (advTableEntry : RoutingTableEntry) : RoutingProtocol :=
  let dstsWithNextHopSrc := n.routingTable.getListOfDestinationWithNextHop n.gateways h.dst
  dstsWithNextHopSrc.foldl breakEntry
    { n with
      routingTable := n.routingTable.deleteRoute h.dst
      advRoutingTable := n.advRoutingTable.update h.dst
        { advTableEntry with seqNo := h.dstSeqno, entriesChanged := true } }

/-- An update for which there is an entry. -/
def updateEntry (sender : Ipv4Address) (h : DsdvHeader)
    (advTableEntry : RoutingTableEntry) : RoutingProtocol :=
  if ¬ Broken h.dstSeqno then
    if advTableEntry.seqNo < h.dstSeqno then
      if h.hopCount ≠ advTableEntry.hops then n.useAndSettle now sender h advTableEntry
      else n.advertiseOnly now sender h advTableEntry
    else if h.dstSeqno = advTableEntry.seqNo then
      if h.hopCount < advTableEntry.hops then n.useAndSettle now sender h advTableEntry
      else (n.renew now sender h.dst advTableEntry).discard h.dst
    else n.discard h.dst
  else if sender = n.nextHop h.dst advTableEntry then n.breakRoute h advTableEntry
  else n.discard h.dst

/-- What `RecvDsdv` does with one update. -/
def recvHeader (sender : Ipv4Address) (n : RoutingProtocol) (h : DsdvHeader) : RoutingProtocol :=
  if n.IsOwn h.dst then n
  else
    match n.routingTable.lookup h.dst with
    | none => if ¬ Broken h.dstSeqno then n.addNewRoute now sender h else n
    | some fwdTableEntry =>
      let (advTableEntry, n) := n.withAdvertised h.dst fwdTableEntry
      n.updateEntry now sender h advTableEntry

/-- The updates of a packet, one after the other. -/
def recvDsdv (packet : Packet) : RoutingProtocol :=
  let n := packet.headers.foldl (recvHeader now packet.sender) n
  { n with scheduled := n.scheduled + 1 }

/-- An entry that is advertised now. -/
def Advertises : Prop :=
  x.2.entriesChanged = true ∧ ¬ n.AnyRunningEvent x.1

instance (n : RoutingProtocol) : DecidablePred n.Advertises := fun _ => inferInstanceAs (Decidable (_ ∧ _))

/-- What goes from the advertised table to the forwarding table, unless it is broken. -/
def mergeEntry : RoutingProtocol :=
  if n.Advertises x then
    { n with
      routingTable :=
        if ¬ Broken x.2.seqNo then n.routingTable.update x.1 { x.2 with flag := .valid, entriesChanged := false }
        else n.routingTable
      advRoutingTable := n.advRoutingTable.deleteRoute x.1 }
  else n

/-- The entry of an event that does not run is removed. -/
def deleteIpv4Event : RoutingProtocol :=
  if n.AnyRunningEvent dst then n else { n with events := Function.update n.events dst none }

/-- What `SendTriggeredUpdate` does with an entry. -/
def advertise : RoutingProtocol :=
  if n.Advertises x then (n.deleteIpv4Event x.1).mergeEntry x else n

/-- The node's own update. -/
def ownHeader : DsdvHeader :=
  match n.routingTable.lookup n.main.broadcast with
  | some rt => ⟨n.main.localAddress, rt.hops + 1, rt.seqNo⟩
  | none => ⟨n.main.localAddress, 1, 0⟩

/-- The update for an entry. -/
def header : DsdvHeader := ⟨x.1, x.2.hops + 1, x.2.seqNo⟩

/-- The assertion in `SendTriggeredUpdate`: an entry that has to wait has an event. -/
def HasEvent : Prop :=
  n.Advertises x ∨ n.events x.1 ≠ none

instance (n : RoutingProtocol) : DecidablePred n.HasEvent := fun _ => inferInstanceAs (Decidable (_ ∨ _))

/-- `SendTriggeredUpdate`, on the interfaces one after the other; `none` where the assertion fails. -/
def sendTriggeredUpdateOn (allRoutes : List (Ipv4Address × RoutingTableEntry)) :
    List Interface → RoutingProtocol → Option (RoutingProtocol × List Packet)
  | [], n => some (n, [])
  | iface :: ifaces, n =>
    if ∀ x ∈ allRoutes, n.HasEvent x then
      let headers := (allRoutes.filter n.Advertises).map header
      let n := allRoutes.foldl advertise n
      (sendTriggeredUpdateOn allRoutes ifaces n).map fun (n', packets) =>
        (n', if headers = [] then packets else ⟨iface.localAddress, n.ownHeader :: headers.reverse⟩ :: packets)
    else none

/-- The routes that have settled are sent on each interface. -/
def sendTriggeredUpdate : Option (RoutingProtocol × List Packet) :=
  sendTriggeredUpdateOn n.advRoutingTable.getListOfAllRoutes n.interfaces n

/-- Advertised routes that have settled go into the forwarding table. -/
def mergeTriggerPeriodicUpdates : RoutingProtocol :=
  n.advRoutingTable.getListOfAllRoutes.foldl mergeEntry n

/-- The update for an entry in `SendPeriodicUpdate`: for one of no hops it is the node's own. -/
def periodicHeader : DsdvHeader :=
  if x.2.hops = 0 then ⟨n.main.localAddress, x.2.hops + 1, x.2.seqNo + 2⟩ else header x

/-- For an entry of no hops the node's own number is set. Where the entry for it is missing, the code updates that of an
address that was not initialized. -/
def setOwnSeqNo (n : RoutingProtocol) (x : Ipv4Address × RoutingTableEntry) : RoutingProtocol :=
  if x.2.hops = 0 then
    match n.routingTable.lookup n.main.broadcast with
    | some ownEntry =>
      { n with routingTable := n.routingTable.update n.main.broadcast { ownEntry with seqNo := x.2.seqNo + 2 } }
    | none =>
      { n with
        routingTable := n.routingTable.update .uninitialized ⟨x.2.seqNo + 2, 0, now, n.nextRoute, .valid, false⟩
        gateways := Function.update n.gateways .uninitialized
          (Function.update (n.gateways .uninitialized) n.nextRoute .uninitialized)
        nextRoute := n.nextRoute + 1 }
  else n

/-- The update for a removed entry. -/
def removedHeader : DsdvHeader := ⟨x.1, x.2.hops + 1, x.2.seqNo + 1⟩

/-- `SendPeriodicUpdate`. The headers of the removed entries are the outermost. -/
def sendPeriodicUpdate (holddownTime : ℕ) : RoutingProtocol × List Packet :=
  let (routingTable, removedAddresses) := n.routingTable.purge n.gateways now holddownTime
  let n := mergeTriggerPeriodicUpdates { n with routingTable }
  let allRoutes := n.routingTable.getListOfAllRoutes
  let headers := ((allRoutes.map n.periodicHeader) ++ removedAddresses.map removedHeader).reverse
  (n.interfaces.foldl (fun n _ => allRoutes.foldl (setOwnSeqNo now) n) n,
    n.interfaces.map fun iface => ⟨iface.localAddress, headers⟩)

/-- What `RouteOutput` does to the tables: a removed entry is to be advertised as broken. -/
def routeOutput (holddownTime : ℕ) : RoutingProtocol :=
  let (routingTable, removedAddresses) := n.routingTable.purge n.gateways now holddownTime
  { n with
    routingTable
    advRoutingTable := removedAddresses.foldl
      (fun t x => t.addRoute x.1 { x.2 with seqNo := x.2.seqNo + 1, entriesChanged := true }) n.advRoutingTable
    scheduled := if removedAddresses = [] then n.scheduled else n.scheduled + 1 }

/-- What happens at a node when no packet comes. -/
inductive Event where
  /-- The settling time for a destination is over. -/
  | settle (dst : Ipv4Address)
  /-- A scheduled `SendTriggeredUpdate`. -/
  | sendTriggeredUpdate
  | sendPeriodicUpdate
  | routeOutput
  deriving DecidableEq

/-- An event can happen. -/
def Enabled : Event → Prop
  | .settle dst => n.AnyRunningEvent dst
  | .sendTriggeredUpdate => 0 < n.scheduled
  | .sendPeriodicUpdate | .routeOutput => True

/-- The handlers; `none` where an assertion fails. -/
def handle (holddownTime : ℕ) : Event → Option (RoutingProtocol × List Packet)
  | .settle dst => sendTriggeredUpdate { n with events := Function.update n.events dst (some false) }
  | .sendTriggeredUpdate => sendTriggeredUpdate { n with scheduled := n.scheduled - 1 }
  | .sendPeriodicUpdate => some (n.sendPeriodicUpdate now holddownTime)
  | .routeOutput => some (n.routeOutput now holddownTime, [])

instance (n : RoutingProtocol) : DecidablePred n.Enabled
  | .settle _ => inferInstanceAs (Decidable (AnyRunningEvent _ _))
  | .sendTriggeredUpdate => inferInstanceAs (Decidable (_ < _))
  | .sendPeriodicUpdate | .routeOutput => .isTrue trivial

end RoutingProtocol

end Ns3.Dsdv
