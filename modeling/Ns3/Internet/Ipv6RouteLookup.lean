import Ns3.Internet.Ipv6StaticRouting
import Ns3.Lib.Best
import Mathlib.Data.Prod.Lex
import Mathlib.Data.List.Induction

/-!
# Looking up a static route

`LookupStatic` of `Ipv6StaticRouting` (`internet/model/ipv6-static-routing.cc`), which looks for a route to a
destination, and of `Ipv6StaticSourceRouting` (`pmip6/model/ipv6-static-source-routing.cc`), which looks for one
from a source. Both go once through the table, with the length of the longest prefix that matched and the shortest
metric among the routes of that length, and make a new `Ipv6Route` whenever they find a better route.

## What is proved

Which route is better is an order on routes (`preference`): a longer prefix, then a shorter metric.
`Search.scan_eq_after` says what a pass of either kind finds, `lookup_longestPrefix` what the two methods return.
-/

namespace Ns3

open Lib

/-- An address of an interface, with its prefix. -/
structure Ipv6InterfaceAddress where
  address : Ipv6Address
  /-- `m_prefix`. -/
  mask : Ipv6Prefix

/-- What the routing tables ask their `Ipv6` object. -/
structure Ipv6 (Device : Type) where
  getNetDevice : BitVec 32 → Device
  getInterfaceForDevice : Device → BitVec 32
  getNAddresses : BitVec 32 → ℕ
  getAddress : BitVec 32 → ℕ → Ipv6InterfaceAddress
  isUp : BitVec 32 → Bool

/-- The route that is found. -/
structure Ipv6Route (Device : Type) where
  source : Ipv6Address
  dest : Ipv6Address
  gateway : Ipv6Address
  outputDevice : Device

/-- The addresses that `LookupStatic` does not look for in the table. -/
def Ipv6Address.isLinkLocalMulticast (a : Ipv6Address) : Bool :=
  a.isAllNodesMulticast || a.isSolicitedMulticast || a.isAllRoutersMulticast || a.isAllHostsMulticast

/-- The locals of the loop. -/
structure Search (Device : Type) where
  rtentry : Option (Ipv6Route Device)
  longestMask : ℕ
  shortestMetric : BitVec 32

namespace Search

variable {Device : Type}

/-- Before the loop. -/
def start : Search Device := ⟨none, 0, 0xffffffff⟩

/-- A round of the loop, for a route that matches and that `route` makes an `Ipv6Route` of. -/
def consider (s : Search Device) (maskLen : ℕ) (metric : BitVec 32) (route : Ipv6Route Device) : Search Device :=
  if maskLen < s.longestMask then s
  else
    let s := if maskLen > s.longestMask then { s with shortestMetric := 0xffffffff } else s
    let s := { s with longestMask := maskLen }
    if metric > s.shortestMetric then s
    else { s with shortestMetric := metric, rtentry := some route }

/-- The loop over the table. -/
def scan (Matches : NetworkRoute → Prop) [DecidablePred Matches] (toRoute : Ipv6RoutingTableEntry → Ipv6Route Device)
    (t : NetworkRoutes) : Search Device :=
  t.foldl (fun (s : Search Device) r =>
    if Matches r then s.consider r.1.destNetworkPrefix.getPrefixLength r.2 (toRoute r.1) else s) start

end Search

namespace Ipv6StaticRouting

variable {Device : Type} (ipv6 : Ipv6 Device)

/-- The address of the interface that shares its prefix with the destination, or the first. -/
def sourceAddressSelection (interface : BitVec 32) (dest : Ipv6Address) : Ipv6Address :=
  let ret := (ipv6.getAddress interface 0).address
  if dest.isAllNodesMulticast || dest.isAllRoutersMulticast || dest.isAllHostsMulticast then ret
  else
    let tests := (List.range' 1 (ipv6.getNAddresses interface - 1)).map (ipv6.getAddress interface)
    match tests.find? fun test => test.address.combinePrefix test.mask = dest.combinePrefix test.mask with
    | some test => test.address
    | none => ret

/-- The `Ipv6Route` that is made of a route. -/
def toRoute (route : Ipv6RoutingTableEntry) : Ipv6Route Device where
  source :=
    if route.gateway.isAny then sourceAddressSelection ipv6 route.interface route.dest
    else if route.dest.isAny then
      sourceAddressSelection ipv6 route.interface
        (if route.prefixToUse.isAny then route.gateway else route.prefixToUse)
    else sourceAddressSelection ipv6 route.interface route.gateway
  dest := route.dest
  gateway := route.gateway
  outputDevice := ipv6.getNetDevice route.interface

/-- The route matches the destination, and goes out through the device if one is given. -/
def Matches [DecidableEq Device] (dst : Ipv6Address) (interface : Option Device) (r : NetworkRoute) : Prop :=
  r.1.destNetworkPrefix.isMatch dst r.1.dest ∧ ∀ device ∈ interface, device = ipv6.getNetDevice r.1.interface

instance [DecidableEq Device] (dst : Ipv6Address) (interface : Option Device) :
    DecidablePred (Matches ipv6 dst interface) :=
  fun _ => inferInstanceAs (Decidable (_ ∧ ∀ device ∈ interface, _))

/-- `LookupStatic (dst, interface)`, with the null pointer as `none`: first for the pointer to the route, then for
`interface`. `none` outside where the assertion fails. -/
def lookupStatic [DecidableEq Device] (t : NetworkRoutes) (dst : Ipv6Address) (interface : Option Device) :
    Option (Option (Ipv6Route Device)) :=
  if dst.isLinkLocalMulticast then
    match interface with
    | none => none
    | some device => some <| some {
        source := sourceAddressSelection ipv6 (ipv6.getInterfaceForDevice device) dst
        dest := dst
        gateway := .zero
        outputDevice := device }
  else
    some (Search.scan (Matches ipv6 dst interface) (toRoute ipv6) t).rtentry

end Ipv6StaticRouting

namespace Ipv6StaticSourceRouting

variable {Device : Type} (ipv6 : Ipv6 Device)

/-- The `Ipv6Route` that is made of a route. -/
def toRoute (dst : Ipv6Address) (route : Ipv6RoutingTableEntry) : Ipv6Route Device :=
  ⟨route.dest, dst, route.gateway, ipv6.getNetDevice route.interface⟩

/-- The route matches the source. -/
def Matches (src : Ipv6Address) (r : NetworkRoute) : Prop := r.1.destNetworkPrefix.isMatch src r.1.dest

instance (src : Ipv6Address) : DecidablePred (Matches src) := fun _ => inferInstanceAs (Decidable (_ = _))

/-- `LookupStatic (src, dst)`. -/
def lookupStatic (t : NetworkRoutes) (src dst : Ipv6Address) : Option (Ipv6Route Device) :=
  if src.isLinkLocalMulticast then none
  else (Search.scan (Matches src) (toRoute ipv6 dst) t).rtentry

end Ipv6StaticSourceRouting

namespace NetworkRoutes

/-! ### The order on routes -/

/-- What makes a route better: first the length of its prefix, then a metric that is small. -/
def preference (r : NetworkRoute) : ℕ ×ₗ ℕᵒᵈ :=
  toLex (r.1.destNetworkPrefix.getPrefixLength, OrderDual.toDual r.2.toNat)

theorem preference_le_iff {r r' : NetworkRoute} :
    preference r ≤ preference r' ↔
      r.1.destNetworkPrefix.getPrefixLength < r'.1.destNetworkPrefix.getPrefixLength ∨
        r.1.destNetworkPrefix.getPrefixLength = r'.1.destNetworkPrefix.getPrefixLength ∧ r'.2 ≤ r.2 := by
  rw [preference, preference, Prod.Lex.toLex_le_toLex]
  rfl

theorem preference_lt_iff {r r' : NetworkRoute} :
    preference r < preference r' ↔
      r.1.destNetworkPrefix.getPrefixLength < r'.1.destNetworkPrefix.getPrefixLength ∨
        r.1.destNetworkPrefix.getPrefixLength = r'.1.destNetworkPrefix.getPrefixLength ∧ r'.2 < r.2 := by
  rw [preference, preference, Prod.Lex.toLex_lt_toLex]
  rfl

end NetworkRoutes

/-! ### What a pass finds -/

namespace Search

open NetworkRoutes

variable {Device : Type} {Matches : NetworkRoute → Prop} {toRoute : Ipv6RoutingTableEntry → Ipv6Route Device}
  {r : NetworkRoute} {metric : BitVec 32} {maskLen : ℕ} {route : Ipv6Route Device}

/-- The locals after a pass that has found `best`. -/
def after (toRoute : Ipv6RoutingTableEntry → Ipv6Route Device) : Option NetworkRoute → Search Device
  | none => start
  | some best => ⟨some (toRoute best.1), best.1.destNetworkPrefix.getPrefixLength, best.2⟩

theorem not_max_lt (metric : BitVec 32) : ¬ (0xffffffff : BitVec 32) < metric := by
  bv_omega

theorem consider_start : (start : Search Device).consider maskLen metric route = ⟨some route, maskLen, metric⟩ := by
  simp only [consider, start, Nat.not_lt_zero, if_false, gt_iff_lt]
  split_ifs with hlen hmetric hmetric
  · exact absurd hmetric (not_max_lt metric)
  · rfl
  · exact absurd hmetric (not_max_lt metric)
  · rfl

theorem consider_after_of_lt {best : NetworkRoute} (h : preference r < preference best) :
    (after toRoute (some best)).consider r.1.destNetworkPrefix.getPrefixLength r.2 route =
      after toRoute (some best) := by
  rcases preference_lt_iff.mp h with hlen | ⟨hlen, hmetric⟩
  · exact if_pos hlen
  · simp only [consider, after, hlen, lt_irrefl, if_false, gt_iff_lt, hmetric, if_true]

theorem consider_after_of_le {best : NetworkRoute} (h : preference best ≤ preference r) :
    (after toRoute (some best)).consider r.1.destNetworkPrefix.getPrefixLength r.2 (toRoute r.1) =
      after toRoute (some r) := by
  rcases preference_le_iff.mp h with hlen | ⟨hlen, hmetric⟩
  · simp only [consider, after, gt_iff_lt, hlen, Nat.lt_asymm hlen, if_true, if_false, not_max_lt]
  · simp only [consider, after, hlen, lt_irrefl, if_false, gt_iff_lt, BitVec.not_lt.mpr hmetric]

variable [DecidablePred Matches]

theorem scan_append (t : NetworkRoutes) (r : NetworkRoute) :
    scan Matches toRoute (t ++ [r]) =
      if Matches r then (scan Matches toRoute t).consider r.1.destNetworkPrefix.getPrefixLength r.2 (toRoute r.1)
      else scan Matches toRoute t := by
  rw [scan, List.foldl_append, List.foldl_cons, List.foldl_nil]
  rfl

/-- A pass finds the last of the best routes. -/
theorem scan_eq_after (t : NetworkRoutes) :
    ∃ best, IsLastBest Matches preference t best ∧ scan Matches toRoute t = after toRoute best := by
  induction t using List.reverseRecOn with
  | nil => exact ⟨none, .absent fun a ha => absurd ha List.not_mem_nil, rfl⟩
  | append_singleton t r ih =>
    obtain ⟨best, hbest, hscan⟩ := ih
    rw [scan_append, hscan]
    split_ifs with hr
    · cases best with
      | none =>
        refine ⟨some r, hbest.take hr fun b hb => absurd hb (Option.not_mem_none b), ?_⟩
        exact consider_start
      | some b =>
        by_cases hlt : preference r < preference b
        · exact ⟨some b, hbest.keep hlt, consider_after_of_lt hlt⟩
        · have hle : preference b ≤ preference r := not_lt.mp hlt
          refine ⟨some r, hbest.take hr fun c hc => ?_, consider_after_of_le hle⟩
          rwa [← Option.some.inj hc]
    · exact ⟨best, hbest.skip hr, rfl⟩

/-- No route is found exactly if none matches; else the route is made of the one with the longest prefix, of those
with the shortest metric, and of those the last. -/
def Finds (Matches : NetworkRoute → Prop) (toRoute : Ipv6RoutingTableEntry → Ipv6Route Device) (t : NetworkRoutes)
    (found : Option (Ipv6Route Device)) : Prop :=
  (found = none ↔ ∀ r ∈ t, ¬ Matches r) ∧
    ∀ route, found = some route → ∃ r, IsLastBest Matches preference t (some r) ∧ route = toRoute r.1

theorem finds_scan (t : NetworkRoutes) : Finds Matches toRoute t (scan Matches toRoute t).rtentry := by
  obtain ⟨best, hbest, hscan⟩ := @scan_eq_after Device Matches toRoute _ t
  rw [hscan]
  cases best with
  | none =>
    constructor
    · exact Iff.trans (iff_of_true rfl rfl) hbest.eq_none_iff
    · intro route hroute
      cases hroute
  | some r =>
    constructor
    · refine Iff.trans ?_ hbest.eq_none_iff
      exact iff_of_false (Option.some_ne_none _) (Option.some_ne_none _)
    · intro route hroute
      exact ⟨r, hbest, (Option.some.inj hroute).symm⟩

end Search

/-- **Longest-prefix match**: what the two methods return for an address that is looked for in the table. -/
theorem lookup_longestPrefix {Device : Type} [DecidableEq Device] (ipv6 : Ipv6 Device) (t : NetworkRoutes)
    (a : Ipv6Address) (ha : a.isLinkLocalMulticast = false) :
    (∀ dst, Search.Finds (Ipv6StaticSourceRouting.Matches a) (Ipv6StaticSourceRouting.toRoute ipv6 dst) t
      (Ipv6StaticSourceRouting.lookupStatic ipv6 t a dst)) ∧
    ∀ interface, ∃ found, Ipv6StaticRouting.lookupStatic ipv6 t a interface = some found ∧
      Search.Finds (Ipv6StaticRouting.Matches ipv6 a interface) (Ipv6StaticRouting.toRoute ipv6) t found := by
  constructor
  · intro dst
    simp only [Ipv6StaticSourceRouting.lookupStatic, ha, Bool.false_eq_true, if_false]
    exact Search.finds_scan t
  · intro interface
    refine ⟨_, ?_, Search.finds_scan t⟩
    simp only [Ipv6StaticRouting.lookupStatic, ha, Bool.false_eq_true, if_false]

namespace Ipv6

/-- A node with the device `i` on the interface `i`, up and without addresses, for concrete runs. -/
def bareNode : Ipv6 (BitVec 32) where
  getNetDevice := id
  getInterfaceForDevice := id
  getNAddresses _ := 0
  getAddress _ _ := ⟨.zero, .zero⟩
  isUp _ := true

/-- A default route of the largest metric, and three routes of the same length on the interfaces 2, 3 and 4. -/
def lookupTable : NetworkRoutes :=
  [(.createNetworkRouteTo .zero 0 1, 0xffffffff), (.createNetworkRouteTo (.ofOctets 0x20 1) 16 2, 7),
    (.createNetworkRouteTo (.ofOctets 0x20 1) 16 3, 5), (.createNetworkRouteTo (.ofOctets 0x20 1) 16 4, 5)]

end Ipv6

/-- `lookup_longestPrefix` for an address in the network of the three routes: the last of the shortest metric is
taken, unless another device is given. -/
theorem lookup_longestPrefix_lookupTable :
    ((∀ dst, Search.Finds (Ipv6StaticSourceRouting.Matches (.ofOctets 0x20 1))
        (Ipv6StaticSourceRouting.toRoute Ipv6.bareNode dst) Ipv6.lookupTable
        (Ipv6StaticSourceRouting.lookupStatic Ipv6.bareNode Ipv6.lookupTable (.ofOctets 0x20 1) dst)) ∧
      ∀ interface, ∃ found,
        Ipv6StaticRouting.lookupStatic Ipv6.bareNode Ipv6.lookupTable (.ofOctets 0x20 1) interface =
          some found ∧
        Search.Finds (Ipv6StaticRouting.Matches Ipv6.bareNode (.ofOctets 0x20 1) interface)
          (Ipv6StaticRouting.toRoute Ipv6.bareNode) Ipv6.lookupTable found) ∧
    (Ipv6StaticRouting.lookupStatic Ipv6.bareNode Ipv6.lookupTable (.ofOctets 0x20 1) none).map
      (Option.map Ipv6Route.outputDevice) = some (some 4) ∧
    (Ipv6StaticRouting.lookupStatic Ipv6.bareNode Ipv6.lookupTable (.ofOctets 0x20 1) (some 1)).map
      (Option.map Ipv6Route.outputDevice) = some (some 1) :=
  ⟨lookup_longestPrefix Ipv6.bareNode Ipv6.lookupTable (.ofOctets 0x20 1) (by decide), by decide +kernel,
    by decide +kernel⟩

end Ns3
