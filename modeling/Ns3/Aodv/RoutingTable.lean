import Ns3.Network.Address
import Ns3.Lib.Ring

/-!
# The routing table of AODV

`RoutingTable` (`aodv/model/aodv-rtable.cc`): for each destination at most one entry. Times are in nanoseconds.
Precursors, which only the receivers of RERRs are taken from, are left out.
-/

namespace Ns3.Aodv

open Lib

/-- `int32_t (a) - int32_t (b) > 0`, with the difference as 32 bits have it. -/
def Newer (a b : UInt32) : Prop :=
  0 < Ring.ahead (2 ^ 32) b.toNat a.toNat ∧ Ring.ahead (2 ^ 32) b.toNat a.toNat < 2 ^ 31
deriving Decidable

/-- `int32_t (a) - int32_t (b) >= 0`. -/
def NotOlder (a b : UInt32) : Prop := Ring.ahead (2 ^ 32) b.toNat a.toNat < 2 ^ 31
deriving Decidable

/-- What a route is: usable, broken, or looked for. -/
inductive RouteFlags where
  | valid | invalid | inSearch
  deriving DecidableEq

/-- An interface that AODV uses, with its device: its address. -/
abbrev Interface := Ipv4InterfaceAddress

/-- `RoutingTableEntry`, for a destination. -/
structure RoutingTableEntry where
  validSeqNo : Bool
  seqNo : UInt32
  hops : ℕ
  /-- The gateway of `m_ipv4Route`. -/
  nextHop : Ipv4Address
  /-- `m_iface`, and the output device of `m_ipv4Route`. -/
  iface : Option Interface
  lifeTime : ℤ
  flag : RouteFlags
  reqCount : ℕ
  blackListState : Bool
  deriving DecidableEq

namespace RoutingTableEntry

/-- `RoutingTableEntry (…)`. -/
def new (now : ℤ) (validSeqNo : Bool) (seqNo : UInt32) (iface : Option Interface) (hops : ℕ) (nextHop : Ipv4Address)
    (lifeTime : ℤ) : RoutingTableEntry :=
  ⟨validSeqNo, seqNo, hops, nextHop, iface, lifeTime + now, .valid, 0, false⟩

variable (rt : RoutingTableEntry)

/-- The route is broken, and kept for a while. -/
def invalidate (now : ℤ) (badLinkLifetime : ℕ) : RoutingTableEntry :=
  if rt.flag = .invalid then rt
  else { rt with flag := .invalid, reqCount := 0, lifeTime := badLinkLifetime + now }

/-- The time that is left to the route. -/
def getLifeTime (now : ℤ) : ℤ := rt.lifeTime - now

/-- The route, to live so long from now. -/
def setLifeTime (now lifeTime : ℤ) : RoutingTableEntry :=
  { rt with lifeTime := lifeTime + now }

/-- What `Purge` does with an entry. -/
def purge (now : ℤ) (badLinkLifetime : ℕ) : Option RoutingTableEntry :=
  if rt.getLifeTime now < 0 then
    match rt.flag with
    | .invalid => none
    | .valid => some (rt.invalidate now badLinkLifetime)
    | .inSearch => some rt
  else some rt

/-- What `AddRoute` and `Update` store: there is no request for a route that is not searched for. -/
def stored : RoutingTableEntry :=
  if rt.flag = .inSearch then rt else { rt with reqCount := 0 }

end RoutingTableEntry

/-- `m_ipv4AddressEntry`. -/
abbrev RoutingTable := Ipv4Address → Option RoutingTableEntry

namespace RoutingTable

/-- Outdated routes are removed if broken, and broken if not. -/
def purge (t : RoutingTable) (now : ℤ) (badLinkLifetime : ℕ) : RoutingTable :=
  fun dst => (t dst).bind fun rt => rt.purge now badLinkLifetime

/-- `AddRoute`, of a table that was purged. -/
def addRoute (t : RoutingTable) (dst : Ipv4Address) (rt : RoutingTableEntry) : RoutingTable :=
  if (t dst).isSome then t else Function.update t dst (some rt.stored)

/-- A route that is there is replaced. -/
def update (t : RoutingTable) (dst : Ipv4Address) (rt : RoutingTableEntry) : RoutingTable :=
  if (t dst).isSome then Function.update t dst (some rt.stored) else t

/-- `DeleteRoute`, of a table that was purged. -/
def deleteRoute (t : RoutingTable) (dst : Ipv4Address) : RoutingTable := Function.update t dst none

/-- `LookupValidRoute`, in a table that was purged. -/
def lookupValidRoute (t : RoutingTable) (dst : Ipv4Address) : Option RoutingTableEntry :=
  (t dst).filter fun rt => rt.flag = .valid

/-- `InvalidateRoutesWithDst`, of a table that was purged. -/
def invalidateRoutesWithDst (t : RoutingTable) (now : ℤ) (badLinkLifetime : ℕ) (Unreachable : Ipv4Address → Prop)
    [DecidablePred Unreachable] : RoutingTable :=
  fun dst => (t dst).map fun rt =>
    if Unreachable dst ∧ rt.flag = .valid then rt.invalidate now badLinkLifetime else rt

end RoutingTable

end Ns3.Aodv
