import Ns3.Pmip6.MagSteps

/-!
# The tables of the gateway

An entry of the binding update list has routes in two tables: for each prefix one through the link of
the mobile node in the routing table, and one through the tunnel in the source routing table. `Table`
tells the two apart, so that what is done to both is said once.

## What is proved

* `Table.net_setUp`, `Table.ofTunnels_setUp` — what `SetupTunnelAndRouting` adds.
* `Table.ofMag_clearTunnel`, `Table.count_clearTunnel` — what `ClearTunnelAndRouting` removes: the
  routes that the fields of the entry name, and exactly those where `RemoveRoute` takes no other for
  one of them.
-/

namespace Ns3.Pmip6

open BindingUpdateList (Entry)

namespace Mag

/-! ### Routes of an entry -/

/-- The tables an entry has routes in. -/
inductive Table where
  /-- That of `Ipv6StaticRouting`. -/
  | routes
  /-- That of `Ipv6StaticSourceRouting`. -/
  | sourceRoutes

namespace Table

/-- The routes in the table. -/
def ofMag (mag : Mag) : Table → NetworkRoutes
  | routes => mag.node.staticRouting
  | sourceRoutes => mag.sourceRouting

/-- The routes in the table that the interfaces of the tunnels brought. -/
def ofTunnels (mag : Mag) : Table → NetworkRoutes
  | routes => mag.node.tunnelRoutes
  | sourceRoutes => []

/-- How often a route is in the table, the routes of the tunnel interfaces apart. -/
def net (t : Table) (mag : Mag) (r : NetworkRoute) : ℤ := (t.ofMag mag).count r - (t.ofTunnels mag).count r

/-- The interface of the routes of an entry. -/
def ifIndex (bule : Entry) : Table → BitVec 16
  | routes => bule.ifIndex
  | sourceRoutes => bule.tunnelIfIndex

/-- The routes that the fields of an entry name. -/
def named (t : Table) (bule : Entry) : NetworkRoutes :=
  .ofPrefixes bule.homeNetworkPrefixes ((t.ifIndex bule).signExtend 32)

/-- Which of two lists is about the table. -/
def select (inRoutes inSourceRoutes : NetworkRoutes) : Table → NetworkRoutes
  | routes => inRoutes
  | sourceRoutes => inSourceRoutes

/-- The routes `SetupTunnelAndRouting` adds for an entry. -/
def newRoutes (mag : Mag) (bule : Entry) (t : Table) : NetworkRoutes :=
  t.select (.ofPrefixes bule.homeNetworkPrefixes (bule.ifIndex.signExtend 32))
    (.ofPrefixes bule.homeNetworkPrefixes ((mag.node.addTunnel bule.lmaAddress .zero).2.signExtend 32))

end Table

/-- `RemoveRoute` takes no other route for one of the entry. -/
def Clearable (mag : Mag) (bule : Entry) : Prop :=
  ∀ a ∈ bule.homeNetworkPrefixes,
    mag.node.staticRouting.Unambiguous a (bule.ifIndex.signExtend 32) ∧
      mag.sourceRouting.Unambiguous a (bule.tunnelIfIndex.signExtend 32)
deriving Decidable

namespace Table

theorem count_named {bule bule' : Entry} (htunnel : bule'.tunnelIfIndex = bule.tunnelIfIndex)
    (hperm : bule'.homeNetworkPrefixes.Perm bule.homeNetworkPrefixes) (hlink : bule'.ifIndex = bule.ifIndex)
    (t : Table) (r : NetworkRoute) : (t.named bule').count r = (t.named bule).count r := by
  have hif : t.ifIndex bule' = t.ifIndex bule := by
    cases t with
    | routes => exact hlink
    | sourceRoutes => exact htunnel
  rw [named, hif]
  exact (hperm.map _).count_eq r

theorem congr {mag mag' : Mag} (hnode : mag'.node = mag.node)
    (hsource : mag'.sourceRouting = mag.sourceRouting) (t : Table) :
    t.ofMag mag' = t.ofMag mag ∧ t.ofTunnels mag' = t.ofTunnels mag := by
  cases t with
  | routes => exact ⟨congrArg Node.staticRouting hnode, congrArg Node.tunnelRoutes hnode⟩
  | sourceRoutes => exact ⟨hsource, rfl⟩

/-! ### What is done to the tables -/

theorem net_setUp (t : Table) (mag : Mag) (bule : Entry) (r : NetworkRoute) :
    t.net (mag.setUp bule) r = t.net mag r + (t.newRoutes mag bule).count r := by
  cases t with
  | routes =>
    obtain ⟨new, hs, ht⟩ := mag.node.routes_addTunnel bule.lmaAddress .zero
    have hroutes : (mag.setUp bule).node.staticRouting =
        (mag.node.addTunnel bule.lmaAddress .zero).1.staticRouting ++ newRoutes mag bule .routes :=
      NetworkRoutes.addNetworkRoutesTo_eq _ _ _
    have htunnels : (mag.setUp bule).node.tunnelRoutes =
        (mag.node.addTunnel bule.lmaAddress .zero).1.tunnelRoutes := rfl
    simp only [net, ofMag, ofTunnels, hroutes, htunnels, hs, ht, List.count_append]
    push_cast
    omega
  | sourceRoutes =>
    have hroutes : (mag.setUp bule).sourceRouting = mag.sourceRouting ++ newRoutes mag bule .sourceRoutes :=
      NetworkRoutes.addNetworkRoutesTo_eq _ _ _
    simp only [net, ofMag, ofTunnels, hroutes, List.count_append]
    push_cast
    omega

theorem ofTunnels_setUp (t : Table) (mag : Mag) (bule : Entry) (r : NetworkRoute) :
    (t.ofTunnels mag).count r ≤ (t.ofTunnels (mag.setUp bule)).count r := by
  cases t with
  | routes =>
    obtain ⟨new, -, ht⟩ := mag.node.routes_addTunnel bule.lmaAddress .zero
    have htunnels : (mag.setUp bule).node.tunnelRoutes =
        (mag.node.addTunnel bule.lmaAddress .zero).1.tunnelRoutes := rfl
    rw [ofTunnels, ofTunnels, htunnels, ht, List.count_append]
    exact Nat.le_add_right _ _
  | sourceRoutes => exact Nat.le_refl _

theorem ofTunnels_clearTunnel (t : Table) (mag : Mag) (bule : Entry) :
    t.ofTunnels (mag.clearTunnel bule) = t.ofTunnels mag := by
  cases t with
  | routes => exact (Node.routes_removeTunnel _ bule.lmaAddress).2
  | sourceRoutes => rfl

/-- `ClearTunnelAndRouting` removes the routes that the fields of the entry name. -/
theorem ofMag_clearTunnel (t : Table) (mag : Mag) (bule : Entry) :
    t.ofMag (mag.clearTunnel bule) =
      (t.ofMag mag).removeRoutes bule.homeNetworkPrefixes ((t.ifIndex bule).signExtend 32) := by
  cases t with
  | routes => exact (Node.routes_removeTunnel _ bule.lmaAddress).1
  | sourceRoutes => rfl

theorem count_clearTunnel_le (t : Table) (mag : Mag) (bule : Entry) (r : NetworkRoute) :
    (t.ofMag (mag.clearTunnel bule)).count r ≤ (t.ofMag mag).count r := by
  rw [ofMag_clearTunnel]
  exact NetworkRoutes.count_removeRoutes_le _ _ _ r

theorem count_clearTunnel (t : Table) {mag : Mag} {bule : Entry} (h : Clearable mag bule) (r : NetworkRoute) :
    (t.ofMag (mag.clearTunnel bule)).count r = (t.ofMag mag).count r - (t.named bule).count r := by
  rw [ofMag_clearTunnel]
  refine NetworkRoutes.count_removeRoutes (fun a ha => ?_) r
  cases t with
  | routes => exact (h a ha).1
  | sourceRoutes => exact (h a ha).2

end Table

end Mag

end Ns3.Pmip6
