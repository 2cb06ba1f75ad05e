import Ns3.Aodv.RoutingTable
import Ns3.Lib.Machine

/-!
# The AODV routing protocol

`RoutingProtocol` (`aodv/model/aodv-routing-protocol.cc`): what a node does with the messages that it receives, and when
its timers expire. A handler is given the time. What is in a RERR beyond the destinations is not used by its receivers;
the messages that a node sends are RREQs, RREPs and RREP-ACKs, while RERRs may come at any time. Queued packets, rate
limits and the list of neighbours decide only when requests are made and links are found broken. `AckTimerExpire` is
never called, because its timer is not started.
-/

namespace Ns3.Aodv

/-- The attributes. -/
structure Attributes where
  activeRouteTimeout : ℕ
  nodeTraversalTime : ℕ
  netTraversalTime : ℕ
  pathDiscoveryTime : ℕ
  myRouteTimeout : ℕ
  deletePeriod : ℕ
  /-- `AllowedHelloLoss * HelloInterval`. -/
  helloLifetime : ℕ
  rreqRetries : ℕ
  gratuitousReply : Bool
  destinationOnly : Bool

/-- The attributes as they are by default. -/
def Attributes.default : Attributes where
  activeRouteTimeout := 3000000000
  nodeTraversalTime := 40000000
  netTraversalTime := 2800000000
  pathDiscoveryTime := 5600000000
  myRouteTimeout := 11200000000
  deletePeriod := 15000000000
  helloLifetime := 2000000000
  rreqRetries := 2
  gratuitousReply := true
  destinationOnly := false

/-- A route request. -/
structure RreqHeader where
  hopCount : ℕ
  /-- `m_requestID`. -/
  id : UInt32
  dst : Ipv4Address
  dstSeqno : UInt32
  unknownSeqno : Bool
  origin : Ipv4Address
  originSeqno : UInt32
  gratiousRrep : Bool
  destinationOnly : Bool
  deriving DecidableEq

/-- A route reply, or a hello. -/
structure RrepHeader where
  hopCount : ℕ
  dst : Ipv4Address
  dstSeqno : UInt32
  origin : Ipv4Address
  /-- `m_lifeTime`, in milliseconds. -/
  lifeTime : UInt32
  ackRequired : Bool
  deriving DecidableEq

/-- `uint32_t (lifeTime.GetMilliSeconds ())`. -/
def milliSeconds (lifeTime : ℤ) : UInt32 := UInt32.ofNat (lifeTime.tdiv 1000000 % 2 ^ 32).toNat

/-- The life time, in nanoseconds. -/
def RrepHeader.getLifeTime (h : RrepHeader) : ℤ := h.lifeTime.toNat * 1000000

/-- What is sent. -/
inductive Message where
  /-- `AODVTYPE_RREQ`. -/
  | rreq (h : RreqHeader)
  /-- `AODVTYPE_RREP`. -/
  | rrep (h : RrepHeader)
  /-- `AODVTYPE_RREP_ACK`. -/
  | rrepAck
  deriving DecidableEq

/-- A message on its way: from the address of an interface, to an address or to all. -/
structure Packet where
  /-- The address that it is sent from. -/
  sender : Ipv4Address
  /-- The address that it is sent to, if it is one. -/
  destination : Option Ipv4Address
  message : Message
  deriving DecidableEq

/-- What of `RoutingProtocol` is used here. -/
structure RoutingProtocol where
  /-- `m_socketAddresses`. -/
  interfaces : List Interface
  routingTable : RoutingTable
  requestId : UInt32
  seqNo : UInt32
  /-- `m_rreqIdCache`: with the time until which an entry is kept. -/
  rreqIdCache : List (Ipv4Address × UInt32 × ℤ)

namespace RoutingProtocol

/-- `127.0.0.1`. -/
def loopback : Ipv4Address := ⟨0x7f000001⟩

/-- After `SetIpv4`, and `NotifyInterfaceUp` for each interface. -/
def new (interfaces : List Interface) (maximumSimulationTime : ℤ) : RoutingProtocol where
  interfaces
  routingTable := interfaces.foldl (fun t iface => t.addRoute iface.broadcast
      (.new 0 true 0 (some iface) 1 iface.broadcast maximumSimulationTime))
    (RoutingTable.addRoute (fun _ => none) loopback
      (.new 0 true 0 (some ⟨loopback, ⟨0x7fffffff⟩⟩) 1 loopback maximumSimulationTime))
  requestId := 0
  seqNo := 0
  rreqIdCache := []

variable (attrs : Attributes) (now : ℤ) (n : RoutingProtocol)

/-- An interface of the node has the address. -/
def IsMyOwnAddress (src : Ipv4Address) : Prop :=
  ∃ iface ∈ n.interfaces, iface.localAddress = src
deriving Decidable

/-- `m_routingTable.Purge`. -/
def purge (n : RoutingProtocol) : RoutingProtocol :=
  { n with routingTable := n.routingTable.purge now attrs.deletePeriod }

/-- `m_routingTable.Update`. -/
def update (n : RoutingProtocol) (dst : Ipv4Address) (rt : RoutingTableEntry) : RoutingProtocol :=
  { n with routingTable := n.routingTable.update dst rt }

/-- `m_routingTable.AddRoute`. -/
def addRoute (n : RoutingProtocol) (dst : Ipv4Address) (rt : RoutingTableEntry) : RoutingProtocol :=
  { n with routingTable := n.routingTable.addRoute dst rt }

/-- `m_rreqIdCache.IsDuplicate`. -/
def isDuplicate (addr : Ipv4Address) (id : UInt32) : Bool × RoutingProtocol :=
  let cache := n.rreqIdCache.filter fun x => now ≤ x.2.2
  if cache.any fun x => x.1 = addr && x.2.1 = id then (true, { n with rreqIdCache := cache })
  else (false, { n with rreqIdCache := cache ++ [(addr, id, attrs.pathDiscoveryTime + now)] })

/-- A valid route lives longer because it is used. -/
def updateRouteLifeTime (addr : Ipv4Address) (lifeTime : ℕ) : RoutingProtocol :=
  let n := n.purge attrs now
  match n.routingTable.lookupValidRoute addr with
  | none => n
  | some rt => n.update addr (rt.setLifeTime now (max (lifeTime : ℤ) (rt.getLifeTime now)))

/-- `UpdateRouteToNeighbor`. Where the entry is kept, its lifetime is set on a copy. -/
def updateRouteToNeighbor (sender : Ipv4Address) (receiver : Interface) : RoutingProtocol :=
  let n := n.purge attrs now
  match n.routingTable sender with
  | none => n.addRoute sender (.new now false 0 (some receiver) 1 sender attrs.activeRouteTimeout)
  | some toNeighbor =>
    if toNeighbor.validSeqNo = true ∧ toNeighbor.hops = 1 ∧ toNeighbor.iface = some receiver then n
    else n.update sender
      (.new now false 0 (some receiver) 1 sender (max (attrs.activeRouteTimeout : ℤ) (toNeighbor.getLifeTime now)))

/-- `2 * NetTraversalTime - 2 * hop * NodeTraversalTime`. -/
def minimalLifetime (hop : ℕ) : ℤ := 2 * attrs.netTraversalTime - 2 * hop * attrs.nodeTraversalTime

/-- The reverse route in `RecvRequest`, where there is an entry for the origin. -/
def toOrigin (rt : RoutingTableEntry) (h : RreqHeader) (hop : ℕ) (receiver : Interface) (src : Ipv4Address) :
    RoutingTableEntry :=
  { rt with
    seqNo := if rt.validSeqNo = true ∧ ¬ Newer h.originSeqno rt.seqNo then rt.seqNo else h.originSeqno
    validSeqNo := true
    nextHop := src
    iface := some receiver
    hops := hop
    lifeTime := max (minimalLifetime attrs hop) (rt.getLifeTime now) + now }

variable (h : RreqHeader)

/-- The reverse route in `RecvRequest`. -/
def reverseRoute (hop : ℕ) (receiver : Interface) (src : Ipv4Address) :
    RoutingProtocol :=
  let n := n.purge attrs now
  match n.routingTable h.origin with
  | none => n.addRoute h.origin (.new now true h.originSeqno (some receiver) hop src (minimalLifetime attrs hop))
  | some rt => n.update h.origin (toOrigin attrs now rt h hop receiver src)

/-- `SendTo` by the socket that `FindSocketWithInterfaceAddress` finds for the interface of an entry. The code asserts
that there is one. -/
def sendFrom (rt : RoutingTableEntry) (destination : Ipv4Address) (message : Message) :
    List Packet :=
  (rt.iface.filter fun iface => iface ∈ n.interfaces).toList.map fun iface =>
    ⟨iface.localAddress, some destination, message⟩

/-- The destination answers, with its own number. -/
def sendReply (toOrigin : RoutingTableEntry) : RoutingProtocol × List Packet :=
  let seqNo := if h.unknownSeqno = false ∧ h.dstSeqno = n.seqNo + 1 then n.seqNo + 1 else n.seqNo
  ({ n with seqNo }, n.sendFrom toOrigin toOrigin.nextHop
    (.rrep ⟨0, h.dst, seqNo, h.origin, milliSeconds attrs.myRouteTimeout, false⟩))

/-- `SendReplyByIntermediateNode`. Apart from precursors the entries stay as they are. -/
def sendReplyByIntermediateNode (toDst toOrigin : RoutingTableEntry) :
    List Packet :=
  n.sendFrom toOrigin toOrigin.nextHop (.rrep ⟨toDst.hops % 256, h.dst, toDst.seqNo, h.origin,
    milliSeconds (toDst.getLifeTime now), toDst.hops = 1⟩) ++
    if h.gratiousRrep then
      n.sendFrom toDst toDst.nextHop (.rrep ⟨toOrigin.hops % 256, h.origin, toOrigin.seqNo, h.dst,
        milliSeconds (toOrigin.getLifeTime now), false⟩)
    else []

/-- A message to all, from each interface. -/
def broadcast (message : Interface → Message) : List Packet :=
  n.interfaces.map fun iface => ⟨iface.localAddress, none, message iface⟩

/-- What `RecvRequest` does when the reverse route is there. -/
def answerRequest (src : Ipv4Address) : RoutingProtocol × List Packet :=
  let n := n.purge attrs now
  match n.routingTable h.origin with
  | none => (n, [])
  | some toOrigin =>
    if n.IsMyOwnAddress h.dst then n.sendReply attrs h toOrigin
    else
      match n.routingTable h.dst with
      | none => (n, n.broadcast fun _ => .rreq h)
      | some toDst =>
        if toDst.nextHop = src then (n, [])
        else if (h.unknownSeqno = true ∨ NotOlder toDst.seqNo h.dstSeqno) ∧ toDst.validSeqNo = true then
          if h.destinationOnly = false ∧ toDst.flag = .valid then
            (n, n.sendReplyByIntermediateNode now h toDst toOrigin)
          else (n, n.broadcast fun _ => .rreq { h with dstSeqno := toDst.seqNo, unknownSeqno := false })
        else (n, n.broadcast fun _ => .rreq h)

/-- A request comes in: the reverse route, then an answer or the request again. -/
def recvRequest (receiver : Interface) (src : Ipv4Address) :
    RoutingProtocol × List Packet :=
  let n := n.purge attrs now
  if (n.routingTable src).any fun toPrev => toPrev.blackListState then (n, [])
  else
    let (duplicate, n) := n.isDuplicate attrs now h.origin h.id
    if duplicate then (n, [])
    else
      let hop := (h.hopCount + 1) % 256
      (n.reverseRoute attrs now h hop receiver src).answerRequest attrs now { h with hopCount := hop } src

/-- A hello makes or renews the route to the neighbour. -/
def processHello (h : RrepHeader) (receiver : Interface) : RoutingProtocol :=
  let n := n.purge attrs now
  match n.routingTable h.dst with
  | none => n.addRoute h.dst (.new now true h.dstSeqno (some receiver) 1 h.dst h.getLifeTime)
  | some toNeighbor => n.update h.dst
      { toNeighbor with
        lifeTime := max (attrs.helloLifetime : ℤ) (toNeighbor.getLifeTime now) + now
        seqNo := h.dstSeqno
        validSeqNo := true
        flag := .valid
        iface := some receiver }

/-- The conditions in `RecvReply` for an entry to be updated. -/
def Updates (toDst : RoutingTableEntry) (h : RrepHeader) (hop : ℕ) : Prop :=
  toDst.validSeqNo = false ∨ Newer h.dstSeqno toDst.seqNo ∨
    h.dstSeqno = toDst.seqNo ∧ (toDst.flag ≠ .valid ∨ hop < toDst.hops)
deriving Decidable

/-- The route to the destination in `RecvReply`; the origin of the request updates its entry in any case where it
searches for it. -/
def forwardRoute (h : RrepHeader) (hop : ℕ) (receiver : Interface) (sender : Ipv4Address) :
    RoutingProtocol :=
  let newEntry := RoutingTableEntry.new now true h.dstSeqno (some receiver) hop sender h.getLifeTime
  match n.routingTable h.dst with
  | none => n.addRoute h.dst newEntry
  | some toDst =>
    if Updates toDst h hop ∨ n.IsMyOwnAddress h.origin ∧ toDst.flag = .inSearch then n.update h.dst newEntry else n

/-- What is sent by `RecvReply`, when the route is there: the RREP goes on to the origin. -/
def forwardReply (h : RrepHeader) : RoutingProtocol × List Packet :=
  if n.IsMyOwnAddress h.origin then (n.purge attrs now, [])
  else
    let n := n.purge attrs now
    match n.routingTable h.origin with
    | none => (n, [])
    | some toOrigin =>
      if toOrigin.flag = .inSearch then (n, [])
      else
        (n.update h.origin (toOrigin.setLifeTime now (max (attrs.activeRouteTimeout : ℤ) (toOrigin.getLifeTime now))),
          n.sendFrom toOrigin toOrigin.nextHop (.rrep { h with ackRequired := false }))

/-- The acknowledgement that a reply asked for. -/
def sendReplyAck (neighbor : Ipv4Address) : List Packet :=
  (n.routingTable neighbor).toList.flatMap fun toNeighbor => n.sendFrom toNeighbor neighbor .rrepAck

/-- A reply comes in: the forward route, then the reply goes on to the origin. -/
def recvReply (h : RrepHeader) (receiver : Interface) (sender : Ipv4Address) :
    RoutingProtocol × List Packet :=
  let hop := (h.hopCount + 1) % 256
  if h.dst = h.origin then (n.processHello attrs now h receiver, [])
  else
    let n := (n.purge attrs now).forwardRoute now h hop receiver sender
    let acks := if h.ackRequired then (n.purge attrs now).sendReplyAck sender else []
    let (n, packets) := n.forwardReply attrs now { h with hopCount := hop }
    (n, acks ++ packets)

/-- The neighbour's route is valid, now that it acknowledged. -/
def recvReplyAck (neighbor : Ipv4Address) : RoutingProtocol :=
  let n := n.purge attrs now
  match n.routingTable neighbor with
  | none => n
  | some rt => n.update neighbor { rt with flag := .valid }

/-- `RecvError`: of the destinations in the RERR those are unreachable that are reached by its sender. -/
def recvError (unreachable : List Ipv4Address) (src : Ipv4Address) : RoutingProtocol :=
  let n := n.purge attrs now
  { n with routingTable := n.routingTable.invalidateRoutesWithDst now attrs.deletePeriod fun dst =>
      dst ∈ unreachable ∧ (n.routingTable dst).any fun rt => rt.nextHop = src }

/-- `SendRerrWhenBreaksLinkToNextHop`. -/
def breakLink (nextHop : Ipv4Address) : RoutingProtocol :=
  let n := n.purge attrs now
  if (n.routingTable nextHop).isSome then
    { n with routingTable := n.routingTable.invalidateRoutesWithDst now attrs.deletePeriod fun dst =>
        dst = nextHop ∨ (n.routingTable dst).any fun rt => rt.nextHop = nextHop }
  else n

variable (dst : Ipv4Address)

/-- The header in `SendRequest`, with what is known of the destination. -/
def requestHeader (rt : Option RoutingTableEntry) (origin : Ipv4Address) :
    RreqHeader where
  hopCount := 0
  id := n.requestId
  dst
  dstSeqno := ((rt.filter fun rt => rt.validSeqNo).map RoutingTableEntry.seqNo).getD 0
  unknownSeqno := !rt.any fun rt => rt.validSeqNo
  origin
  originSeqno := n.seqNo
  gratiousRrep := attrs.gratuitousReply
  destinationOnly := attrs.destinationOnly

/-- The entry for the destination in `SendRequest`, and the number of requests in `ScheduleRreqRetry`. -/
def searchRoute : RoutingProtocol :=
  match n.routingTable dst with
  | some rt => n.update dst { rt with flag := .inSearch, reqCount := (rt.reqCount + 1) % 256 }
  | none =>
    n.addRoute dst { RoutingTableEntry.new now false 0 none 0 .uninitialized 0 with flag := .inSearch, reqCount := 1 }

/-- A request for a route to the destination, on each interface. -/
def sendRequest : RoutingProtocol × List Packet :=
  let n := n.purge attrs now
  let rt := n.routingTable dst
  let n := n.searchRoute now dst
  let n := { n with seqNo := n.seqNo + 1, requestId := n.requestId + 1 }
  let packets := n.broadcast fun iface => .rreq (n.requestHeader attrs dst rt iface.localAddress)
  (n.interfaces.foldl (fun n iface => (n.isDuplicate attrs now iface.localAddress n.requestId).2) n, packets)

/-- `RouteRequestTimerExpire`. Where there is no entry, the code goes on with a new one that is valid. -/
def routeRequestTimerExpire : RoutingProtocol × List Packet :=
  let n := n.purge attrs now
  match n.routingTable dst with
  | none => (n, [])
  | some toDst =>
    if toDst.flag = .valid then (n, [])
    else if toDst.reqCount = attrs.rreqRetries then
      ({ n with routingTable := n.routingTable.deleteRoute dst }, [])
    else if toDst.flag = .inSearch then n.sendRequest attrs now dst
    else ({ n with routingTable := n.routingTable.deleteRoute dst }, [])

/-- A hello on each interface. -/
def sendHello : List Packet :=
  n.broadcast fun iface => .rrep ⟨0, iface.localAddress, n.seqNo, iface.localAddress, milliSeconds attrs.helloLifetime,
    false⟩

/-- `RecvAodv`, for all messages but RERRs. -/
def recvAodv (message : Message) (receiver : Interface) (sender : Ipv4Address) :
    RoutingProtocol × List Packet :=
  let n := n.updateRouteToNeighbor attrs now sender receiver
  match message with
  | .rreq h => n.recvRequest attrs now h receiver sender
  | .rrep h => n.recvReply attrs now h receiver sender
  | .rrepAck => (n.recvReplyAck attrs now sender, [])

/-- What a node does when no message comes. -/
inductive Event where
  | recvError (unreachable : List Ipv4Address) (receiver : Interface) (sender : Ipv4Address)
  /-- A route is used for a packet, and `UpdateRouteLifeTime` called with the time that the route is active. -/
  | updateRouteLifeTime (addr : Ipv4Address)
  | sendRequest (dst : Ipv4Address)
  | routeRequestTimerExpire (dst : Ipv4Address)
  | helloTimerExpire
  /-- `SendRerrWhenBreaksLinkToNextHop`. -/
  | breakLink (nextHop : Ipv4Address)

/-- The handlers. -/
def handle : Event → RoutingProtocol × List Packet
  | .recvError unreachable receiver sender =>
    ((n.updateRouteToNeighbor attrs now sender receiver).recvError attrs now unreachable sender, [])
  | .updateRouteLifeTime addr => (n.updateRouteLifeTime attrs now addr attrs.activeRouteTimeout, [])
  | .sendRequest dst => n.sendRequest attrs now dst
  | .routeRequestTimerExpire dst => n.routeRequestTimerExpire attrs now dst
  | .helloTimerExpire => (n, n.sendHello attrs)
  | .breakLink nextHop => (n.breakLink attrs now nextHop, [])

end RoutingProtocol

end Ns3.Aodv
