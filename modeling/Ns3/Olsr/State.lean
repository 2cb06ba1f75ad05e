import Ns3.Network.Address
import Mathlib.Data.List.Basic

/-!
# The repositories of an OLSR node

The tuples (`olsr/model/olsr-repositories.h`) and the operations of `OlsrState` (`olsr/model/olsr-state.cc`) that are
used here. The sets are vectors, which are searched from the first tuple on. Times are in nanoseconds.
-/

namespace Ns3.Olsr

/-- An interface and the main address of its node. -/
structure IfaceAssocTuple where
  ifaceAddr : Ipv4Address
  mainAddr : Ipv4Address
  time : ℤ
  deriving DecidableEq

/-- A link, with the times until which it is heard and symmetric. -/
structure LinkTuple where
  localIfaceAddr : Ipv4Address
  neighborIfaceAddr : Ipv4Address
  symTime : ℤ
  asymTime : ℤ
  time : ℤ
  deriving DecidableEq

/-- Whether the links to a neighbour are symmetric. -/
inductive Status where
  | notSym | sym
  deriving DecidableEq

/-- A neighbour. -/
structure NeighborTuple where
  neighborMainAddr : Ipv4Address
  status : Status
  willingness : UInt8
  deriving DecidableEq

/-- A neighbour of a neighbour. -/
structure TwoHopNeighborTuple where
  neighborMainAddr : Ipv4Address
  twoHopNeighborAddr : Ipv4Address
  deriving DecidableEq

/-- A link that a TC message advertised. -/
structure TopologyTuple where
  destAddr : Ipv4Address
  lastAddr : Ipv4Address
  sequenceNumber : UInt16
  expirationTime : ℤ
  deriving DecidableEq

/-- What of `OlsrState` is used here. -/
structure OlsrState where
  linkSet : List LinkTuple
  neighborSet : List NeighborTuple
  twoHopNeighborSet : List TwoHopNeighborTuple
  topologySet : List TopologyTuple
  ifaceAssocSet : List IfaceAssocTuple

/-- `OLSR_WILL_NEVER`. -/
def willNever : UInt8 := 0

namespace OlsrState

/-- The first association of the interface. -/
def findIfaceAssocTuple (s : OlsrState) (ifaceAddr : Ipv4Address) : Option IfaceAssocTuple :=
  s.ifaceAssocSet.find? fun tuple => tuple.ifaceAddr = ifaceAddr

/-- The main address of the interface, or itself. -/
def getMainAddress (s : OlsrState) (ifaceAddr : Ipv4Address) : Ipv4Address :=
  match s.findIfaceAssocTuple ifaceAddr with
  | some tuple => tuple.mainAddr
  | none => ifaceAddr

/-- The first symmetric neighbour with the main address. -/
def findSymNeighborTuple (s : OlsrState) (mainAddr : Ipv4Address) : Option NeighborTuple :=
  s.neighborSet.find? fun tuple => tuple.neighborMainAddr = mainAddr ∧ tuple.status = .sym

end OlsrState

end Ns3.Olsr
