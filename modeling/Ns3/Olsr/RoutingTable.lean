import Ns3.Olsr.State

/-!
# The routing table of OLSR

`RoutingTableComputation`, and how entries are looked up (`olsr/model/olsr-routing-protocol.cc`). The loop over the
distances has no bound in the code: here it has fuel. Distances are natural numbers, as they are not greater than the
number of topology tuples and two.
-/

namespace Ns3.Olsr

/-- A route. -/
structure RoutingTableEntry where
  destAddr : Ipv4Address
  nextAddr : Ipv4Address
  interface : ℕ
  distance : ℕ
  deriving DecidableEq

/-- The route to each destination. -/
abbrev Table := Ipv4Address → Option RoutingTableEntry

namespace Table

/-- `AddEntry`, with the index of the interface. -/
def addEntry (t : Table) (dest next : Ipv4Address) (interface distance : ℕ) : Table :=
  Function.update t dest (some ⟨dest, next, interface, distance⟩)

/-- `FindSendEntry`, with fuel: whether it finds an entry. -/
def findSendEntry (t : Table) : ℕ → RoutingTableEntry → Option (Option RoutingTableEntry)
  | 0, _ => none
  | fuel + 1, entry =>
    if entry.destAddr ≠ entry.nextAddr then
      match t entry.nextAddr with
      | some outEntry => findSendEntry t fuel outEntry
      | none => some none
    else some (some entry)

/-- A topology tuple in the search for distance `h + 1`, and whether one was added. -/
def addTopology (h : ℕ) (x : Table × Bool) (tuple : TopologyTuple) : Table × Bool :=
  match x.1 tuple.destAddr, x.1 tuple.lastAddr with
  | none, some lastAddrEntry =>
    if lastAddrEntry.distance = h then
      (x.1.addEntry tuple.destAddr lastAddrEntry.nextAddr lastAddrEntry.interface (h + 1), true)
    else x
  | _, _ => x

/-- The loop over the distances, from `h` on. -/
def addTopologies (topology : List TopologyTuple) : ℕ → ℕ → Table → Option Table
  | 0, _, _ => none
  | fuel + 1, h, t =>
    let (t, added) := topology.foldl (addTopology h) (t, false)
    if added then addTopologies topology fuel (h + 1) t else some t

/-- An interface association tuple. -/
def addIfaceAssoc (t : Table) (tuple : IfaceAssocTuple) : Table :=
  match t tuple.mainAddr, t tuple.ifaceAddr with
  | some entry, none => t.addEntry tuple.ifaceAddr entry.nextAddr entry.interface entry.distance
  | _, _ => t

end Table

/-- What of `RoutingProtocol` is used here. -/
structure RoutingProtocol where
  mainAddress : Ipv4Address
  /-- The addresses of the interfaces. -/
  addresses : List (List Ipv4Address)
  state : OlsrState

namespace RoutingProtocol

variable (n : RoutingProtocol)

/-- The index of the interface with an address. Where there is none, `AddEntry` stops at `NS_ASSERT (false)`; here 0. -/
def interfaceIndex (interfaceAddress : Ipv4Address) : ℕ :=
  (n.addresses.findIdx? fun addresses => interfaceAddress ∈ addresses).getD 0

/-- The links to a neighbour that are not expired. -/
def liveLinks (now : ℤ) (tuple : NeighborTuple) : List LinkTuple :=
  n.state.linkSet.filter fun link =>
    n.state.getMainAddress link.neighborIfaceAddr = tuple.neighborMainAddr ∧ now ≤ link.time

/-- A neighbor tuple: an entry for each of its links, and for its main address if that is none of them. -/
def addNeighbor (now : ℤ) (t : Table) (tuple : NeighborTuple) : Table :=
  if tuple.status = .sym then
    let links := n.liveLinks now tuple
    let t := links.foldl (fun t link => t.addEntry link.neighborIfaceAddr link.neighborIfaceAddr
      (n.interfaceIndex link.localIfaceAddr) 1) t
    match links.getLast? with
    | some lt =>
      if ¬ ∃ link ∈ links, link.neighborIfaceAddr = tuple.neighborMainAddr then
        t.addEntry tuple.neighborMainAddr lt.neighborIfaceAddr (n.interfaceIndex lt.localIfaceAddr) 1
      else t
    | none => t
  else t

/-- A 2-hop tuple is not skipped. -/
def Considers (tuple : TwoHopNeighborTuple) : Prop :=
  n.state.findSymNeighborTuple tuple.twoHopNeighborAddr = none ∧ tuple.twoHopNeighborAddr ≠ n.mainAddress ∧
    ∃ neighbor ∈ n.state.neighborSet,
      neighbor.neighborMainAddr = tuple.neighborMainAddr ∧ neighbor.willingness ≠ willNever

instance (n : RoutingProtocol) : DecidablePred n.Considers :=
  fun _ => inferInstanceAs (Decidable (_ ∧ _ ∧ ∃ _ ∈ _, _))

/-- A 2-hop tuple. -/
def addTwoHop (t : Table) (tuple : TwoHopNeighborTuple) : Table :=
  if n.Considers tuple then
    match t tuple.neighborMainAddr with
    | some entry => t.addEntry tuple.twoHopNeighborAddr entry.nextAddr entry.interface 2
    | none => t
  else t

/-- Neighbours first, then 2-hop neighbours, topology and interfaces. -/
def routingTableComputation (now : ℤ) (fuel : ℕ) : Option Table :=
  let t := n.state.neighborSet.foldl (n.addNeighbor now) fun _ => none
  let t := n.state.twoHopNeighborSet.foldl n.addTwoHop t
  (t.addTopologies n.state.topologySet fuel 2).map fun t => n.state.ifaceAssocSet.foldl Table.addIfaceAssoc t

end RoutingProtocol

end Ns3.Olsr
