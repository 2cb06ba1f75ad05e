import Ns3.Network.Address
import Mathlib.Data.List.Count

/-!
# Static routing tables

`Ipv6StaticRouting` (`internet/model/ipv6-static-routing.cc`) and `Ipv6StaticSourceRouting`
(`pmip6/model/ipv6-static-source-routing.cc`) keep the same list of routes with their metrics,
and add and remove routes in the same way; one table type serves for both.

`removeRoute` takes out the first route with a given destination, interface and
prefix-to-use. It is passed a prefix and does not look at it, so it can take out a
route of another prefix; `Unambiguous` says that the table has no such route.
-/

namespace Ns3

/-- A route. -/
structure Ipv6RoutingTableEntry where
  dest : Ipv6Address
  destNetworkPrefix : Ipv6Prefix
  gateway : Ipv6Address
  interface : BitVec 32
  prefixToUse : Ipv6Address
  deriving DecidableEq

/-- `CreateNetworkRouteTo (network, networkPrefix, interface)`. -/
def Ipv6RoutingTableEntry.createNetworkRouteTo (network : Ipv6Address) (networkPrefix : Ipv6Prefix)
    (interface : BitVec 32) : Ipv6RoutingTableEntry :=
  ⟨network, networkPrefix, .zero, interface, network⟩

/-- A route and its metric. -/
abbrev NetworkRoute := Ipv6RoutingTableEntry × BitVec 32

/-- The routes in order, each with its metric. -/
abbrev NetworkRoutes := List NetworkRoute

/-- The `/64` route to `network` through `interface` with the default metric: what the agents
install. -/
def networkRoute (network : Ipv6Address) (interface : BitVec 32) : NetworkRoute :=
  (.createNetworkRouteTo network 64 interface, 0)

namespace NetworkRoutes

/-- `AddNetworkRouteTo (network, networkPrefix, interface)`, and `AddNetworkRouteFrom` of the
source routing table. -/
def addNetworkRouteTo (t : NetworkRoutes) (network : Ipv6Address) (networkPrefix : Ipv6Prefix)
    (interface : BitVec 32) : NetworkRoutes :=
  t ++ [(.createNetworkRouteTo network networkPrefix interface, 0)]

/-- The loops that add a route for each of a list of prefixes. -/
def addNetworkRoutesTo (t : NetworkRoutes) (hnpList : List Ipv6Address) (interface : BitVec 32) :
    NetworkRoutes :=
  hnpList.foldl (fun t hnp => t.addNetworkRouteTo hnp 64 interface) t

/-- The test `RemoveRoute` makes on a route. It does not compare the prefix length. -/
def Removes (network : Ipv6Address) (ifIndex : BitVec 32) (prefixToUse : Ipv6Address)
    (r : NetworkRoute) : Prop :=
  network = r.1.dest ∧ r.1.interface = ifIndex ∧ r.1.prefixToUse = prefixToUse
deriving Decidable

/-- `RemoveRoute (network, prefix, ifIndex, prefixToUse)`. -/
def removeRoute (t : NetworkRoutes) (network : Ipv6Address) (_networkPrefix : Ipv6Prefix) (ifIndex : BitVec 32)
    (prefixToUse : Ipv6Address) : NetworkRoutes :=
  t.eraseP fun r => Removes network ifIndex prefixToUse r

/-- The loops that remove the route of each of a list of prefixes. -/
def removeRoutes (t : NetworkRoutes) (hnpList : List Ipv6Address) (ifIndex : BitVec 32) :
    NetworkRoutes :=
  hnpList.foldl (fun t hnp => t.removeRoute hnp 64 ifIndex hnp) t

/-- The loop that moves the route of each of a list of prefixes to another interface. -/
def moveRoutes (t : NetworkRoutes) (hnpList : List Ipv6Address) (oldIf newIf : BitVec 32) :
    NetworkRoutes :=
  hnpList.foldl (fun t hnp => (t.removeRoute hnp 64 oldIf hnp).addNetworkRouteTo hnp 64 newIf) t

/-- Every route of the table that `RemoveRoute` would take for the route the agents install to
`network` through `interface` is that route. -/
def Unambiguous (t : NetworkRoutes) (network : Ipv6Address) (interface : BitVec 32) : Prop :=
  ∀ r ∈ t, Removes network interface network r → r = networkRoute network interface
deriving Decidable

theorem addNetworkRouteTo_64 (t : NetworkRoutes) (a : Ipv6Address) (i : BitVec 32) :
    t.addNetworkRouteTo a 64 i = t ++ [networkRoute a i] := rfl

theorem removes_networkRoute (a : Ipv6Address) (i : BitVec 32) : Removes a i a (networkRoute a i) :=
  ⟨rfl, rfl, rfl⟩

theorem removes_networkRoute_iff {a b : Ipv6Address} {i j : BitVec 32} :
    Removes a i a (networkRoute b j) ↔ networkRoute b j = networkRoute a i := by
  constructor
  · rintro ⟨h, h', -⟩
    have hab : a = b := h
    have hij : j = i := h'
    rw [hab, hij]
  · rintro h
    rw [h]
    exact removes_networkRoute a i

theorem networkRoute_inj {a b : Ipv6Address} {i j : BitVec 32} :
    networkRoute a i = networkRoute b j ↔ a = b ∧ i = j := by
  simp only [networkRoute, Ipv6RoutingTableEntry.createNetworkRouteTo, Prod.mk.injEq,
    Ipv6RoutingTableEntry.mk.injEq, and_true, true_and]
  constructor
  · rintro ⟨h, h', -⟩
    exact ⟨h, h'⟩
  · rintro ⟨h, h'⟩
    exact ⟨h, h', h⟩

variable {t : NetworkRoutes}

theorem Unambiguous.removeRoute {a : Ipv6Address} {i : BitVec 32} (h : Unambiguous t a i) (b : Ipv6Address)
    (n : Ipv6Prefix) (j : BitVec 32) (c : Ipv6Address) : Unambiguous (t.removeRoute b n j c) a i :=
  fun r hr => h r (List.mem_of_mem_eraseP hr)

theorem count_addNetworkRouteTo (t : NetworkRoutes) (a : Ipv6Address) (i : BitVec 32) (r : NetworkRoute) :
    (t.addNetworkRouteTo a 64 i).count r = t.count r + if r = networkRoute a i then 1 else 0 := by
  rw [addNetworkRouteTo_64, List.count_append, List.count_singleton]
  simp only [beq_iff_eq, @eq_comm _ r]

/-- Removing a route takes at most one copy of one route out of the table. -/
theorem count_le_count_removeRoute (t : NetworkRoutes) (a : Ipv6Address) (n : Ipv6Prefix) (i : BitVec 32)
    (c : Ipv6Address) (r : NetworkRoute) :
    t.count r ≤ (t.removeRoute a n i c).count r + if Removes a i c r then 1 else 0 := by
  unfold removeRoute
  induction t with
  | nil => simp
  | cons x t ih =>
    by_cases hx : Removes a i c x
    · rw [List.eraseP_cons_of_pos (by simpa using hx), List.count_cons]
      by_cases hxr : x = r
      · subst hxr
        simp [hx]
      · simp [hxr]
    · rw [List.eraseP_cons_of_neg (by simpa using hx), List.count_cons, List.count_cons]
      omega

theorem count_removeRoute_le (t : NetworkRoutes) (a : Ipv6Address) (n : Ipv6Prefix) (i : BitVec 32)
    (c : Ipv6Address) (r : NetworkRoute) : (t.removeRoute a n i c).count r ≤ t.count r :=
  List.Sublist.count_le r List.eraseP_sublist

/-- Removing an unambiguous route that is there takes out one copy of it and nothing else. -/
theorem count_removeRoute {a : Ipv6Address} {i : BitVec 32} (h : Unambiguous t a i) (hmem : networkRoute a i ∈ t)
    (n : Ipv6Prefix) (r : NetworkRoute) :
    (t.removeRoute a n i a).count r + (if r = networkRoute a i then 1 else 0) = t.count r := by
  unfold removeRoute
  induction t with
  | nil => exact absurd hmem List.not_mem_nil
  | cons x t ih =>
    by_cases hx : Removes a i a x
    · have hxa : x = networkRoute a i := h x List.mem_cons_self hx
      rw [List.eraseP_cons_of_pos (by simpa using hx), List.count_cons]
      subst hxa
      simp only [beq_iff_eq, @eq_comm _ r]
    · have hne : networkRoute a i ≠ x := by
        rintro rfl
        exact hx (removes_networkRoute a i)
      have ht := ih (fun r hr => h r (List.mem_cons_of_mem _ hr))
        ((List.mem_cons.mp hmem).resolve_left hne)
      rw [List.eraseP_cons_of_neg (by simpa using hx), List.count_cons, List.count_cons]
      omega

/-! ### The loops -/

/-- The routes of the prefixes `hnpList` through `interface`. -/
def ofPrefixes (hnpList : List Ipv6Address) (interface : BitVec 32) : NetworkRoutes :=
  hnpList.map (networkRoute · interface)

theorem addNetworkRoutesTo_eq (t : NetworkRoutes) (hnpList : List Ipv6Address) (i : BitVec 32) :
    t.addNetworkRoutesTo hnpList i = t ++ ofPrefixes hnpList i := by
  unfold addNetworkRoutesTo
  induction hnpList generalizing t with
  | nil => simp [ofPrefixes]
  | cons a l ih =>
    rw [List.foldl_cons, ih, addNetworkRouteTo_64, List.append_assoc]
    rfl

theorem count_ofPrefixes_cons (a : Ipv6Address) (l : List Ipv6Address) (i : BitVec 32) (r : NetworkRoute) :
    (ofPrefixes (a :: l) i).count r = (ofPrefixes l i).count r + if r = networkRoute a i then 1 else 0 := by
  rw [ofPrefixes, List.map_cons, List.count_cons, ofPrefixes]
  simp only [beq_iff_eq, @eq_comm _ r]

/-- The route of a prefix is there as often as the prefix is in the list. -/
theorem count_ofPrefixes (l : List Ipv6Address) (a : Ipv6Address) (i j : BitVec 32) :
    (ofPrefixes l i).count (networkRoute a j) = if i = j then l.count a else 0 := by
  induction l with
  | nil => simp [ofPrefixes]
  | cons b l ih =>
    rw [count_ofPrefixes_cons, ih, List.count_cons]
    simp only [networkRoute_inj, beq_iff_eq, @eq_comm _ j, @eq_comm _ a]
    by_cases hij : i = j <;> simp [hij]

theorem count_removeRoutes_le (t : NetworkRoutes) (l : List Ipv6Address) (i : BitVec 32) (r : NetworkRoute) :
    (t.removeRoutes l i).count r ≤ t.count r := by
  unfold removeRoutes
  induction l generalizing t with
  | nil => exact Nat.le_refl _
  | cons b l ih => exact Nat.le_trans (ih _) (count_removeRoute_le t b 64 i b r)

/-- Removing unambiguous routes takes out one copy of each and nothing else. -/
theorem count_removeRoutes {l : List Ipv6Address} {i : BitVec 32} (h : ∀ a ∈ l, Unambiguous t a i) (r : NetworkRoute) :
    (t.removeRoutes l i).count r = t.count r - (ofPrefixes l i).count r := by
  unfold removeRoutes
  induction l generalizing t with
  | nil => rfl
  | cons b l ih =>
    have hb := h b List.mem_cons_self
    have hl := ih fun a ha => (h a (List.mem_cons_of_mem _ ha)).removeRoute b 64 i b
    have hone : (t.removeRoute b 64 i b).count r = t.count r - if r = networkRoute b i then 1 else 0 := by
      by_cases hmem : networkRoute b i ∈ t
      · have := count_removeRoute hb hmem 64 r
        omega
      · have hsame : t.removeRoute b 64 i b = t :=
          List.eraseP_of_forall_not fun x hx hrem => hmem (hb x hx (of_decide_eq_true hrem) ▸ hx)
        rw [hsame]
        split
        · rename_i hr
          rw [hr, List.count_eq_zero.mpr hmem]
        · rfl
    rw [List.foldl_cons, hl, hone, count_ofPrefixes_cons]
    omega

/-- Moving routes takes out at most the routes through the old interface, and adds those through
the new one. -/
theorem count_moveRoutes (t : NetworkRoutes) (l : List Ipv6Address) (i j : BitVec 32)
    (a : Ipv6Address) (k : BitVec 32) :
    t.count (networkRoute a k) + (ofPrefixes l j).count (networkRoute a k) ≤
      (t.moveRoutes l i j).count (networkRoute a k) + (ofPrefixes l i).count (networkRoute a k) := by
  unfold moveRoutes
  induction l generalizing t with
  | nil => simp [ofPrefixes]
  | cons b l ih =>
    have hrem := count_le_count_removeRoute t b 64 i b (networkRoute a k)
    have hadd := count_addNetworkRouteTo (t.removeRoute b 64 i b) b j (networkRoute a k)
    have hrest := ih ((t.removeRoute b 64 i b).addNetworkRouteTo b 64 j)
    rw [List.foldl_cons, count_ofPrefixes_cons, count_ofPrefixes_cons]
    simp only [removes_networkRoute_iff] at hrem
    omega

end NetworkRoutes

end Ns3
