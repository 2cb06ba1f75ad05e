import Ns3.Olsr.RoutingTable

/-!
# Routes to host networks

The last step of `RoutingTableComputation`: the routing table of the networks that gateways announce. It is emptied by
index while it becomes shorter, so that half of the routes stay. The routes to a network only depend on those that
stayed and on the tuples of this network.

* `clearRoutes_eq`, `routesTo_addAssociation` — the emptying, and what one tuple does to the routes to a network.
* `reflects_iff` — when the routes are those of the current tuples.
-/

namespace Ns3.Olsr

/-- `Association`: a network and its mask. -/
structure Association where
  networkAddr : Ipv4Address
  netmask : BitVec 32
  deriving DecidableEq

/-- A network behind a gateway. -/
structure AssociationTuple where
  gatewayAddr : Ipv4Address
  /-- `networkAddr` and `netmask`. -/
  network : Association
  expirationTime : ℤ

/-- A route of `m_hnaRoutingTable`. -/
structure HnaRoute where
  /-- `GetDestNetwork` and `GetDestNetworkMask`. -/
  network : Association
  gateway : Ipv4Address
  interface : ℕ
  metric : ℕ

namespace HnaRoute

/-- The route of `AddNetworkRouteTo` to a network by the entry of its gateway. -/
def via (network : Association) (gatewayEntry : RoutingTableEntry) : HnaRoute :=
  ⟨network, gatewayEntry.nextAddr, gatewayEntry.interface, gatewayEntry.distance⟩

end HnaRoute

/-- The loop that empties the table, from `i` on: as long as `i` is below the number of routes the first is removed. -/
def clearRoutes : ℕ → List HnaRoute → List HnaRoute
  | _, [] => []
  | i, route :: routes => if i < routes.length + 1 then clearRoutes (i + 1) routes else route :: routes

/-- The networks and the gateways: `m_associations` and `m_associationSet`. -/
structure HostNetworks where
  /-- `m_associations`: what the node announces itself. -/
  associations : List Association
  associationSet : List AssociationTuple

namespace HostNetworks

variable (n : HostNetworks) (t : Table)

/-- A tuple of the association set. -/
def addAssociation (routes : List HnaRoute) (tuple : AssociationTuple) : List HnaRoute :=
  if tuple.network ∈ n.associations then routes
  else
    let routeIndex := routes.findIdx fun route => route.network = tuple.network
    match routes[routeIndex]?, t tuple.gatewayAddr with
    | none, some gatewayEntry => routes ++ [.via tuple.network gatewayEntry]
    | some route, some gatewayEntry =>
      if route.metric > gatewayEntry.distance then routes.eraseIdx routeIndex ++ [.via tuple.network gatewayEntry]
      else routes
    | _, none => routes

/-- `m_hnaRoutingTable` after the last step, with the routing table of the steps before. -/
def computeRoutes (routes : List HnaRoute) : List HnaRoute :=
  n.associationSet.foldl (n.addAssociation t) (clearRoutes 0 routes)

/-- The entries of the gateways of a network that the node does not announce itself. -/
def gatewayEntries (network : Association) : List RoutingTableEntry :=
  if network ∈ n.associations then []
  else (n.associationSet.filter (·.network = network)).filterMap fun tuple => t tuple.gatewayAddr

/-- The routes to a network. -/
def routesTo (network : Association) (routes : List HnaRoute) : List HnaRoute :=
  routes.filter (·.network = network)

/-- A route is by a gateway at the least distance. -/
def Nearest (network : Association) (route : HnaRoute) : Prop :=
  ∃ e ∈ n.gatewayEntries t network, route = .via network e ∧ ∀ e' ∈ n.gatewayEntries t network, e.distance ≤ e'.distance

/-- To each network that has a gateway there is one route, by a nearest one, and there is no other route. -/
def Reflects (routes : List HnaRoute) : Prop :=
  ∀ network, (n.gatewayEntries t network = [] → routesTo network routes = []) ∧
    (n.gatewayEntries t network ≠ [] → ∃ route, routesTo network routes = [route] ∧ n.Nearest t network route)

/-- Of the routes that stayed there is none to the network, or one that is by a nearest gateway or gives way to one. -/
def GivesWay (network : Association) (left : List HnaRoute) : Prop :=
  routesTo network left = [] ∨ ∃ route, routesTo network left = [route] ∧
    (n.Nearest t network route ∨ ∃ e ∈ n.gatewayEntries t network, e.distance < route.metric)

/-! ### What stays -/

theorem clearRoutes_eq (i : ℕ) (routes : List HnaRoute) :
    clearRoutes i routes = routes.drop ((routes.length - i + 1) / 2) := by
  induction routes generalizing i with
  | nil => rw [clearRoutes, List.drop_nil]
  | cons route routes ih =>
    rw [clearRoutes, List.length_cons]
    split_ifs with hlt
    · have hcount : (routes.length + 1 - i + 1) / 2 = (routes.length - (i + 1) + 1) / 2 + 1 := by omega
      rw [ih, hcount, List.drop_succ_cons]
    · have hcount : (routes.length + 1 - i + 1) / 2 = 0 := by omega
      rw [hcount, List.drop_zero]

/-! ### The routes to a network -/

variable {n t} {network : Association} {routes : List HnaRoute} {tuple : AssociationTuple} {e : RoutingTableEntry}

/-- What an entry of a gateway does to the routes to its network: the first route gives way if it is longer. -/
def replace (network : Association) : List HnaRoute → RoutingTableEntry → List HnaRoute
  | [], e => [.via network e]
  | route :: rest, e => if route.metric > e.distance then rest ++ [.via network e] else route :: rest

theorem filter_eraseIdx_findIdx {α : Type} (p : α → Bool) (as : List α) :
    (as.eraseIdx (as.findIdx p)).filter p = (as.filter p).tail := by
  induction as with
  | nil => rfl
  | cons a as ih => cases h : p a <;> simp [List.findIdx_cons, h, ih]

theorem filter_eraseIdx_findIdx_of_disjoint {α : Type} {p q : α → Bool} (hpq : ∀ a, p a = true → q a = false)
    (as : List α) : (as.eraseIdx (as.findIdx p)).filter q = as.filter q := by
  induction as with
  | nil => rfl
  | cons a as ih =>
    cases h : p a with
    | false => simp [List.findIdx_cons, h, List.filter_cons, ih]
    | true => simp [List.findIdx_cons, h, hpq a h]

theorem getElem?_findIdx {α : Type} (p : α → Bool) (as : List α) : as[as.findIdx p]? = (as.filter p).head? := by
  induction as with
  | nil => rfl
  | cons a as ih => cases h : p a <;> simp [List.findIdx_cons, h, ih]

/-- A tuple with a gateway that has an entry. -/
theorem routesTo_addAssociation (hlocal : tuple.network ∉ n.associations) (hentry : t tuple.gatewayAddr = some e) :
    routesTo tuple.network (n.addAssociation t routes tuple) =
      replace tuple.network (routesTo tuple.network routes) e := by
  have hnew : (HnaRoute.via tuple.network e).network = tuple.network := rfl
  have hadd : ∀ l : List HnaRoute, routesTo tuple.network (l ++ [.via tuple.network e]) =
      routesTo tuple.network l ++ [.via tuple.network e] := fun l => by
    simp [routesTo, hnew]
  have hfind := getElem?_findIdx (fun route : HnaRoute => decide (route.network = tuple.network)) routes
  have herase := filter_eraseIdx_findIdx (fun route : HnaRoute => decide (route.network = tuple.network)) routes
  rw [addAssociation, if_neg hlocal]
  simp only [hfind, hentry]
  change routesTo _ _ = _ at herase
  rw [← routesTo] at herase ⊢
  cases hroutes : routesTo tuple.network routes with
  | nil =>
    rw [List.head?_nil]
    change routesTo _ (routes ++ _) = _
    rw [hadd, hroutes]
    rfl
  | cons route rest =>
    rw [List.head?_cons]
    change routesTo _ (if _ then _ else _) = if _ then _ else _
    rw [hroutes] at herase
    split_ifs
    · rw [hadd, herase]
      rfl
    · exact hroutes

/-- A tuple of another network, or of one the node announces itself, or without an entry of its gateway. -/
theorem routesTo_addAssociation_of_not
    (hnot : tuple.network = network → network ∈ n.associations ∨ t tuple.gatewayAddr = none) :
    routesTo network (n.addAssociation t routes tuple) = routesTo network routes := by
  by_cases hlocal : tuple.network ∈ n.associations
  · rw [addAssociation, if_pos hlocal]
  · rw [addAssociation, if_neg hlocal]
    dsimp only
    cases hentry : t tuple.gatewayAddr with
    | none => cases routes[routes.findIdx fun route => decide (route.network = tuple.network)]? <;> rfl
    | some e =>
      have hother : tuple.network ≠ network := fun heq => by
        rcases hnot heq with h | h
        · exact hlocal (heq ▸ h)
        · rw [hentry] at h
          cases h
      have hadd : ∀ l, routesTo network (l ++ [.via tuple.network e]) = routesTo network l := fun l => by
        simp [routesTo, HnaRoute.via, hother]
      have hdisjoint : ∀ route : HnaRoute, decide (route.network = tuple.network) = true →
          decide (route.network = network) = false := fun route h =>
        decide_eq_false ((of_decide_eq_true h).symm ▸ hother)
      cases routes[routes.findIdx fun route => decide (route.network = tuple.network)]? with
      | none => exact hadd routes
      | some route =>
        simp only
        split_ifs
        · exact (hadd _).trans (filter_eraseIdx_findIdx_of_disjoint hdisjoint routes)
        · rfl

theorem gatewayEntries_cons (associations : List Association) (tuples : List AssociationTuple) :
    gatewayEntries ⟨associations, tuple :: tuples⟩ t network =
      (if tuple.network = network ∧ network ∉ associations then (t tuple.gatewayAddr).toList else []) ++
        gatewayEntries ⟨associations, tuples⟩ t network := by
  by_cases hlocal : network ∈ associations
  · simp [gatewayEntries, hlocal]
  · by_cases hnetwork : tuple.network = network
    · cases hentry : t tuple.gatewayAddr <;> simp [gatewayEntries, hlocal, hnetwork, hentry]
    · simp [gatewayEntries, hlocal, hnetwork]

/-- What all tuples do to the routes to a network. -/
theorem routesTo_foldl (tuples : List AssociationTuple) (routes : List HnaRoute) :
    routesTo network (tuples.foldl (n.addAssociation t) routes) =
      (gatewayEntries ⟨n.associations, tuples⟩ t network).foldl (replace network) (routesTo network routes) := by
  induction tuples generalizing routes with
  | nil =>
    have hnone : gatewayEntries ⟨n.associations, []⟩ t network = [] := by simp [gatewayEntries]
    rw [hnone]
    rfl
  | cons tuple tuples ih =>
    rw [List.foldl_cons, ih, gatewayEntries_cons, List.foldl_append]
    congr 1
    split_ifs with h
    · obtain ⟨rfl, hlocal⟩ := h
      cases hentry : t tuple.gatewayAddr with
      | none => exact routesTo_addAssociation_of_not fun _ => .inr hentry
      | some e => exact routesTo_addAssociation hlocal hentry
    · refine routesTo_addAssociation_of_not fun hnetwork => .inl ?_
      exact Decidable.of_not_not fun hlocal => h ⟨hnetwork, hlocal⟩

/-! ### One route, and several -/

theorem foldl_replace_cons (es : List RoutingTableEntry) (route : HnaRoute) (rest : List HnaRoute) :
    (es.foldl (replace network) (route :: rest)).length = rest.length + 1 := by
  induction es generalizing route rest with
  | nil => rfl
  | cons e es ih =>
    rw [List.foldl_cons, replace]
    split_ifs
    · cases rest with
      | nil => exact ih _ _
      | cons route rest =>
        rw [List.cons_append, ih]
        simp
    · exact ih _ _

/-- A single route stays, or gives way to one by the nearest gateway. -/
theorem foldl_replace_singleton (es : List RoutingTableEntry) (route : HnaRoute) :
    (es.foldl (replace network) [route] = [route] ∧ ∀ e ∈ es, route.metric ≤ e.distance) ∨
      ∃ e ∈ es, es.foldl (replace network) [route] = [.via network e] ∧ e.distance < route.metric ∧
        ∀ e' ∈ es, e.distance ≤ e'.distance := by
  induction es generalizing route with
  | nil => exact .inl ⟨rfl, fun e he => absurd he List.not_mem_nil⟩
  | cons e es ih =>
    rw [List.foldl_cons, replace]
    split_ifs with hlonger
    · right
      rcases ih (.via network e) with ⟨hstays, hle⟩ | ⟨e', he', hgives, hlt, hle⟩
      · exact ⟨e, List.mem_cons_self, hstays, hlonger, List.forall_mem_cons.mpr ⟨Nat.le_refl _, hle⟩⟩
      · have hle' : e'.distance ≤ e.distance := Nat.le_of_lt hlt
        exact ⟨e', List.mem_cons_of_mem _ he', hgives, Nat.lt_of_le_of_lt hle' hlonger,
          List.forall_mem_cons.mpr ⟨hle', hle⟩⟩
    · rcases ih route with ⟨hstays, hle⟩ | ⟨e', he', hgives, hlt, hle⟩
      · exact .inl ⟨hstays, List.forall_mem_cons.mpr ⟨Nat.le_of_not_lt hlonger, hle⟩⟩
      · have hle' : e'.distance ≤ e.distance := Nat.le_trans (Nat.le_of_lt hlt) (Nat.le_of_not_lt hlonger)
        exact .inr ⟨e', List.mem_cons_of_mem _ he', hgives, hlt, List.forall_mem_cons.mpr ⟨hle', hle⟩⟩

/-- From no route. -/
theorem foldl_replace_nil {es : List RoutingTableEntry} (hne : es ≠ []) :
    ∃ e ∈ es, es.foldl (replace network) [] = [.via network e] ∧ ∀ e' ∈ es, e.distance ≤ e'.distance := by
  cases es with
  | nil => exact absurd rfl hne
  | cons e es =>
    rw [List.foldl_cons, replace]
    rcases @foldl_replace_singleton network es (.via network e) with
      ⟨hstays, hle⟩ | ⟨e', he', hgives, hlt, hle⟩
    · exact ⟨e, List.mem_cons_self, hstays, List.forall_mem_cons.mpr ⟨Nat.le_refl _, hle⟩⟩
    · exact ⟨e', List.mem_cons_of_mem _ he', hgives, List.forall_mem_cons.mpr ⟨Nat.le_of_lt hlt, hle⟩⟩

/-- The routes are those of the current tuples exactly if those that stayed give way to them. -/
theorem reflects_iff (n : HostNetworks) (t : Table) (routes : List HnaRoute) :
    n.Reflects t (n.computeRoutes t routes) ↔
      ∀ network, n.GivesWay t network (routes.drop ((routes.length + 1) / 2)) := by
  refine forall_congr' fun network => ?_
  have hroutes : routesTo network (n.computeRoutes t routes) = _ :=
    routesTo_foldl n.associationSet (clearRoutes 0 routes)
  rw [clearRoutes_eq, Nat.sub_zero] at hroutes
  rw [hroutes, GivesWay]
  change (gatewayEntries n t network = [] → (gatewayEntries n t network).foldl _ _ = []) ∧
    (gatewayEntries n t network ≠ [] → ∃ route, (gatewayEntries n t network).foldl _ _ = [route] ∧ _) ↔ _
  generalize hleft : routesTo network (routes.drop ((routes.length + 1) / 2)) = left
  rcases left with - | ⟨route, - | ⟨route', rest⟩⟩
  · refine iff_of_true ⟨fun hnone => by rw [hnone]; rfl, fun hsome => ?_⟩ (.inl rfl)
    obtain ⟨e, he, hfold, hle⟩ := foldl_replace_nil hsome
    exact ⟨_, hfold, e, he, rfl, hle⟩
  · simp only [reduceCtorEq, false_or, List.cons.injEq, and_true, exists_eq_left']
    rcases foldl_replace_singleton (n.gatewayEntries t network) route with ⟨hstays, hle⟩ | ⟨e, he, hgives, hlt, hle⟩
    · rw [hstays]
      constructor
      · rintro ⟨hnone, hsome⟩
        obtain ⟨route', heq, hnearest⟩ := hsome fun h => absurd (hnone h) (List.cons_ne_nil _ _)
        cases heq
        exact .inl hnearest
      · rintro (⟨e, he, hnearest⟩ | ⟨e, he, hlt⟩)
        · exact ⟨fun h => absurd (h ▸ he) List.not_mem_nil, fun _ => ⟨route, rfl, e, he, hnearest⟩⟩
        · exact absurd hlt (Nat.not_lt.mpr (hle e he))
    · rw [hgives]
      refine iff_of_true ⟨fun h => absurd (h ▸ he) List.not_mem_nil, fun _ => ⟨_, rfl, e, he, rfl, hle⟩⟩ ?_
      exact .inr ⟨e, he, hlt⟩
  · have hlength := @foldl_replace_cons network (n.gatewayEntries t network) route (route' :: rest)
    refine iff_of_false (fun h => ?_) (by simp)
    by_cases hnone : n.gatewayEntries t network = []
    · rw [h.1 hnone] at hlength
      cases hlength
    · obtain ⟨one, hone, -⟩ := h.2 hnone
      rw [hone] at hlength
      simp at hlength

/-- Of two routes to networks that are no longer announced one stays. -/
theorem not_reflects_two : ¬ Reflects ⟨[], []⟩ (fun _ => none)
    (computeRoutes ⟨[], []⟩ (fun _ => none) [⟨⟨⟨1⟩, 255⟩, ⟨2⟩, 1, 1⟩, ⟨⟨⟨3⟩, 255⟩, ⟨2⟩, 1, 1⟩]) := by
  intro h
  exact absurd ((h ⟨⟨3⟩, 255⟩).1 (by decide)) (by decide)

end HostNetworks

end Ns3.Olsr
