import Ns3.Internet.GlobalRouting

/-!
# The shortcut for stub nodes

`CheckForStubNode` against the whole of `SPFCalculate`, for a root whose only link to a router is a point-to-point link
(`internet/model/global-route-manager-impl.cc`).

Whatever the calculation finds behind the link it finds through the neighbour, with the exit of the neighbour (`Sound`).
The address of the neighbour is read twice. The shortcut takes the first point-to-point record of the neighbour that
names the root; `SPFGetNextLink`, which is to return the first point-to-point link, looks at the type of no record, and
the record of a stub network whose number is the router id of the root has a mask in the place of the address
(`agrees_iff`).
-/

namespace Ns3

namespace GlobalRouteManagerLSDB

/-- A link of the router is a stub, or it is answered from its other end. -/
def Answered (db : GlobalRouteManagerLSDB) (v : GlobalRoutingLSA) (l : TypedLinkRecord) : Prop :=
  l.linkType = .stubNetwork ∨
  (l.linkType = .pointToPoint ∧ ∃ w ∈ db.database, w.linkStateId = l.linkId ∧ w.lsType = .routerLSA ∧
    ∃ back ∈ w.links, back.linkType = .pointToPoint ∧ back.linkId = v.linkStateId) ∨
  (l.linkType = .transitNetwork ∧ ∃ w ∈ db.database, w.linkStateId = l.linkId ∧ w.lsType = .networkLSA ∧
    l.linkData ∈ w.attachedRouters)
deriving Decidable

/-- The links are those of routers, and all of them are bidirectional. -/
def Bidirectional (db : GlobalRouteManagerLSDB) : Prop :=
  ∀ v ∈ db.database, ∀ l ∈ v.links, v.lsType = .routerLSA ∧ db.Answered v l
deriving Decidable

variable {db : GlobalRouteManagerLSDB} {addr : Ipv4Address} {lsa : GlobalRoutingLSA}

theorem of_getLSA (h : db.getLSA addr = some lsa) : lsa ∈ db.database ∧ lsa.linkStateId = addr :=
  ⟨List.mem_of_find?_eq_some h, by simpa using List.find?_some h⟩

theorem nodup_linkStateId (db : GlobalRouteManagerLSDB) :
    (db.database.map GlobalRoutingLSA.linkStateId).Nodup := by
  refine List.Pairwise.map _ (fun a b hlt heq => ?_) db.ordered
  rw [heq] at hlt
  exact BitVec.lt_irrefl _ hlt

theorem getLSA_of_mem (h : lsa ∈ db.database) : db.getLSA lsa.linkStateId = some lsa := by
  have hsome : (db.getLSA lsa.linkStateId).isSome := by
    rw [getLSA, List.find?_isSome]
    exact ⟨lsa, h, by simp⟩
  obtain ⟨found, hfound⟩ := Option.isSome_iff_exists.mp hsome
  obtain ⟨hmem, hid⟩ := of_getLSA hfound
  rw [hfound, List.inj_on_of_nodup_map db.nodup_linkStateId hmem h hid]

theorem of_getLSAByLinkData (h : db.getLSAByLinkData addr = some lsa) : lsa ∈ db.database :=
  List.mem_of_find?_eq_some h

theorem Answered.getLSA {v : GlobalRoutingLSA} {l : TypedLinkRecord} (h : db.Answered v l)
    (hstub : l.linkType ≠ .stubNetwork) : ∃ w ∈ db.database, db.getLSA l.linkId = some w := by
  rcases h with h | ⟨-, w, hw, hid, -⟩ | ⟨-, w, hw, hid, -⟩
  · exact absurd h hstub
  · exact ⟨w, hw, hid ▸ getLSA_of_mem hw⟩
  · exact ⟨w, hw, hid ▸ getLSA_of_mem hw⟩

end GlobalRouteManagerLSDB

namespace Ipv4GlobalRouting

/-- Every destination that the second table reaches the first one sends to the same next hop, by the same interface. -/
def Agrees (stub all : Ipv4GlobalRouting) : Prop :=
  ∀ out dest, ∀ r ∈ all.lookupGlobal out dest, stub.lookupGlobal out dest ≠ [] ∧
    ∀ d ∈ stub.lookupGlobal out dest, d.gateway = r.gateway ∧ d.interface = r.interface

variable {t : Ipv4GlobalRouting} {out : UInt32 → Bool} {dest : Ipv4Address} {r : Ipv4RoutingTableEntry}

theorem mem_routes : r ∈ t.routes ↔ r ∈ t.hostRoutes ∨ r ∈ t.networkRoutes ∨ r ∈ t.asExternalRoutes := by
  rw [routes, List.mem_append, List.mem_append, or_assoc]

theorem of_isMatch (h : isMatch out dest r = true) : out r.interface = true := by
  rw [isMatch, decide_eq_true_eq] at h
  exact h.2

theorem of_mem_lookupGlobal (h : r ∈ t.lookupGlobal out dest) : r ∈ t.routes ∧ out r.interface = true := by
  rw [lookupGlobal] at h
  rw [mem_routes]
  split at h
  · split at h
    · rw [Option.mem_toList] at h
      exact ⟨.inr (.inr (List.mem_of_find?_eq_some h)), of_isMatch (List.find?_some h)⟩
    · obtain ⟨hmem, hmatch⟩ := List.mem_filter.mp h
      exact ⟨.inr (.inl hmem), of_isMatch hmatch⟩
  · obtain ⟨hmem, hmatch⟩ := List.mem_filter.mp h
    rw [decide_eq_true_eq] at hmatch
    exact ⟨.inl hmem, hmatch.2⟩

/-- A host route is found. -/
theorem mem_lookupGlobal (h : r ∈ t.hostRoutes) : r ∈ t.lookupGlobal (fun _ => true) r.dest := by
  have hmem : r ∈ t.hostRoutes.filter fun x => x.dest = r.dest ∧ (fun _ => true) x.interface = true :=
    List.mem_filter.mpr ⟨h, by simp⟩
  rw [lookupGlobal]
  split
  · rename_i hnil
    rw [hnil] at hmem
    exact absurd hmem List.not_mem_nil
  · exact hmem

theorem lookupGlobal_default (gateway : Ipv4Address) (i : UInt32) (out : UInt32 → Bool) (dest : Ipv4Address)
    (h : out i = true) :
    (empty.addNetworkRoutes [⟨.any, 0, gateway, i⟩]).lookupGlobal out dest = [⟨.any, 0, gateway, i⟩] := by
  have hmatch : isMatch out dest ⟨.any, 0, gateway, i⟩ = true := by
    simp [isMatch, Ipv4Address.combineMask, h]
  have hfilter : [Ipv4RoutingTableEntry.mk .any 0 gateway i].filter (isMatch out dest) = [⟨.any, 0, gateway, i⟩] := by
    rw [List.filter_cons_of_pos hmatch, List.filter_nil]
  rw [lookupGlobal]
  dsimp only [empty, addNetworkRoutes, List.filter_nil, List.nil_append]
  rw [hfilter]

/-- All routes leave by the exit, and its interface is not negative. The host routes of `first` are among them. -/
structure Through (exit : Ipv4Address × UInt32) (first : List Ipv4RoutingTableEntry) (t : Ipv4GlobalRouting) :
    Prop where
  routes : ∀ r ∈ t.routes, (r.gateway, r.interface) = exit ∧ 0 ≤ exit.2.toInt32
  installed : ∀ r ∈ first, r ∈ t.hostRoutes

namespace Through

variable {exit : Ipv4Address × UInt32} {first l : List Ipv4RoutingTableEntry}

theorem addHostRoutes (ht : t.Through exit first)
    (hl : ∀ r ∈ l, (r.gateway, r.interface) = exit ∧ 0 ≤ exit.2.toInt32) : (t.addHostRoutes l).Through exit first where
  routes r hr := by
    rcases mem_routes.mp hr with h | h | h
    · rcases List.mem_append.mp h with h | h
      · exact ht.routes r (mem_routes.mpr (.inl h))
      · exact hl r h
    · exact ht.routes r (mem_routes.mpr (.inr (.inl h)))
    · exact ht.routes r (mem_routes.mpr (.inr (.inr h)))
  installed r hr := List.mem_append_left _ (ht.installed r hr)

theorem addNetworkRoutes (ht : t.Through exit first)
    (hl : ∀ r ∈ l, (r.gateway, r.interface) = exit ∧ 0 ≤ exit.2.toInt32) :
    (t.addNetworkRoutes l).Through exit first where
  routes r hr := by
    rcases mem_routes.mp hr with h | h | h
    · exact ht.routes r (mem_routes.mpr (.inl h))
    · rcases List.mem_append.mp h with h | h
      · exact ht.routes r (mem_routes.mpr (.inr (.inl h)))
      · exact hl r h
    · exact ht.routes r (mem_routes.mpr (.inr (.inr h)))
  installed := ht.installed

theorem addASExternalRoutes (ht : t.Through exit first)
    (hl : ∀ r ∈ l, (r.gateway, r.interface) = exit ∧ 0 ≤ exit.2.toInt32) :
    (t.addASExternalRoutes l).Through exit first where
  routes r hr := by
    rcases mem_routes.mp hr with h | h | h
    · exact ht.routes r (mem_routes.mpr (.inl h))
    · exact ht.routes r (mem_routes.mpr (.inr (.inl h)))
    · rcases List.mem_append.mp h with h | h
      · exact ht.routes r (mem_routes.mpr (.inr (.inr h)))
      · exact hl r h
  installed := ht.installed

end Through

end Ipv4GlobalRouting

namespace GlobalRouteManagerImpl

open Ipv4GlobalRouting

/-! ### What a vertex installs -/

variable {exit : Ipv4Address × UInt32} {first : List Ipv4RoutingTableEntry} {t : Ipv4GlobalRouting} {v w : Vertex}
  {root : Ipv4Address}

theorem of_mem_exitRoutes (hv : v.ecmpRootExits = [exit]) {dest : Ipv4Address} {mask : BitVec 32}
    {r : Ipv4RoutingTableEntry} (hr : r ∈ exitRoutes v dest mask) :
    (r.gateway, r.interface) = exit ∧ 0 ≤ exit.2.toInt32 := by
  rw [exitRoutes, hv] at hr
  obtain ⟨x, hx, rfl⟩ := List.mem_map.mp hr
  obtain ⟨hmem, hle⟩ := List.mem_filter.mp hx
  obtain rfl := List.mem_singleton.mp hmem
  exact ⟨rfl, by simpa using hle⟩

theorem through_spfIntraAddRouter (ht : t.Through exit first) (hv : v.ecmpRootExits = [exit]) :
    (spfIntraAddRouter v t).Through exit first := by
  refine ht.addHostRoutes fun r hr => ?_
  obtain ⟨lr, -, hr⟩ := List.mem_flatMap.mp hr
  exact of_mem_exitRoutes hv hr

theorem through_spfIntraAddTransit (ht : t.Through exit first) (hv : v.ecmpRootExits = [exit]) :
    (spfIntraAddTransit v t).Through exit first :=
  ht.addNetworkRoutes fun _ hr => of_mem_exitRoutes hv hr

theorem through_processStubs (ht : t.Through exit first) (hv : v.vertexId = root ∨ v.ecmpRootExits = [exit]) :
    (processStubs root v t).Through exit first := by
  rw [processStubs]
  split_ifs
  · induction v.lsa.links.filter fun l => l.linkType = .stubNetwork generalizing t with
    | nil => exact ht
    | cons l links ih =>
      refine ih (t := spfIntraAddStub root l v t) ?_
      rw [spfIntraAddStub]
      split_ifs with hroot
      · exact ht
      · exact ht.addNetworkRoutes fun _ hr => of_mem_exitRoutes (hv.resolve_left hroot) hr
  · exact ht

theorem through_processASExternal (extlsa : GlobalRoutingLSA) (ht : t.Through exit first)
    (hv : v.vertexId = root ∨ v.ecmpRootExits = [exit]) : (processASExternal root extlsa v t).Through exit first := by
  rw [processASExternal, spfAddASExternal]
  split_ifs with _ hroot
  · exact ht
  · exact ht.addASExternalRoutes fun _ hr => of_mem_exitRoutes (hv.resolve_left hroot) hr
  · exact ht

/-! ### What is found behind the link -/

/-- A vertex that is not the root, and was reached through the exit. -/
structure Found (db : GlobalRouteManagerLSDB) (root : Ipv4Address) (exit : Ipv4Address × UInt32) (tree : List Vertex)
    (v : Vertex) : Prop where
  lsa : v.lsa ∈ db.database
  exits : v.ecmpRootExits = [exit]
  parents : ∀ p ∈ v.parents, p ∈ tree.map Vertex.vertexId
  /-- No network is a neighbour of the root. -/
  network : ¬ v.IsRouter → root ∉ v.parents

/-- A calculation behind the first link: all there is was found through the exit. -/
structure Sound (db : GlobalRouteManagerLSDB) (root : Ipv4Address) (exit : Ipv4Address × UInt32)
    (first : List Ipv4RoutingTableEntry) (s : Calculation) : Prop where
  nodup : ((s.tree ++ s.candidates).map Vertex.vertexId).Nodup
  inTree : ∀ id, s.status id = .inSPFTree ↔ id ∈ s.tree.map Vertex.vertexId
  candidate : ∀ id, s.status id = .candidate ↔ id ∈ s.candidates.map Vertex.vertexId
  root_mem : root ∈ s.tree.map Vertex.vertexId
  tree : ∀ v ∈ s.tree, v.lsa ∈ db.database ∧ (v.vertexId = root ∨ Found db root exit s.tree v)
  candidates : ∀ v ∈ s.candidates, Found db root exit s.tree v
  /-- Children come into the tree behind their parents. -/
  children : ∀ p, ∀ c ∈ s.children p, c ∈ s.tree.map Vertex.vertexId ∧
    (s.tree.map Vertex.vertexId).idxOf p < (s.tree.map Vertex.vertexId).idxOf c
  table : s.table.Through exit first

variable {db : GlobalRouteManagerLSDB} {s : Calculation} {tree rest l : List Vertex}

theorem Found.mono (hv : Found db root exit tree v) (w : Vertex) : Found db root exit (tree ++ [w]) v where
  lsa := hv.lsa
  exits := hv.exits
  parents p hp := by
    rw [List.map_append]
    exact List.mem_append_left _ (hv.parents p hp)
  network := hv.network

theorem found_reached (hv : v.vertexId ∈ tree.map Vertex.vertexId) (hne : v.vertexId ≠ root) (hw : w.lsa ∈ db.database)
    (distance : UInt32) : Found db root exit tree (w.reached [exit] distance v) where
  lsa := hw
  exits := rfl
  parents p hp := by
    obtain rfl := List.mem_singleton.mp hp
    exact hv
  network _ hp := hne (List.mem_singleton.mp hp).symm

theorem mem_of_mem_sortUnique {α : Type} [DecidableEq α] {le : α → α → Bool} {x : α} {l : List α}
    (h : x ∈ Vertex.sortUnique le l) : x ∈ l :=
  (List.perm_insertionSort _ l).subset ((List.destutter_sublist _ _).subset h)

/-- The same exit again is no other one. -/
theorem found_merge (pointer : Ipv4Address → ℕ) (hv : Found db root exit tree v) (hw : Found db root exit tree w)
    (hroot : root ∉ w.parents) : Found db root exit tree (v.merge pointer w) where
  lsa := hv.lsa
  exits := by
    have hsort : Vertex.sortUnique Vertex.exitLE [exit, exit] = [exit] := by
      simp [Vertex.sortUnique, List.destutter]
    rw [Vertex.merge, hv.exits, hw.exits]
    exact hsort
  parents p hp := by
    rcases List.mem_append.mp (mem_of_mem_sortUnique hp) with h | h
    · exact hv.parents p h
    · exact hw.parents p h
  network hrouter hp := by
    rcases List.mem_append.mp (mem_of_mem_sortUnique hp) with h | h
    · exact hv.network hrouter h
    · exact hroot h

theorem map_vertexId_replace (cw : Vertex) (l : List Vertex) :
    (CandidateQueue.replace cw l).map Vertex.vertexId = l.map Vertex.vertexId := by
  rw [CandidateQueue.replace, List.map_map]
  refine List.map_congr_left fun v _ => ?_
  rw [Function.comp_apply]
  split_ifs with h
  · exact h.symm
  · rfl

theorem mem_of_mem_replace {cw : Vertex} (h : v ∈ CandidateQueue.replace cw l) : v = cw ∨ v ∈ l := by
  obtain ⟨x, hx, rfl⟩ := List.mem_map.mp h
  split_ifs
  · exact .inl rfl
  · exact .inr hx

theorem perm_push (v : Vertex) (l : List Vertex) : (CandidateQueue.push v l).Perm (v :: l) :=
  List.perm_orderedInsert _ v l

theorem perm_reorder (l : List Vertex) : (CandidateQueue.reorder l).Perm l := List.perm_insertionSort _ l

theorem exists_find {id : Ipv4Address} (h : id ∈ l.map Vertex.vertexId) :
    ∃ v, CandidateQueue.find id l = some v ∧ v ∈ l ∧ v.vertexId = id := by
  obtain ⟨x, hx, rfl⟩ := List.mem_map.mp h
  have hsome : (CandidateQueue.find x.vertexId l).isSome := by
    rw [CandidateQueue.find, List.find?_isSome]
    exact ⟨x, hx, by simp⟩
  obtain ⟨v, hv⟩ := Option.isSome_iff_exists.mp hsome
  exact ⟨v, hv, List.mem_of_find?_eq_some hv, by simpa using List.find?_some hv⟩

/-- Candidates change in their places. -/
theorem Sound.setCandidates (hs : Sound db root exit first s)
    (hids : (l.map Vertex.vertexId).Perm (s.candidates.map Vertex.vertexId))
    (hl : ∀ v ∈ l, Found db root exit s.tree v) : Sound db root exit first { s with candidates := l } where
  nodup := by
    have hperm := (List.Perm.refl (s.tree.map Vertex.vertexId)).append hids
    rw [List.map_append]
    exact hperm.nodup_iff.mpr (List.map_append ▸ hs.nodup)
  inTree := hs.inTree
  candidate id := (hs.candidate id).trans hids.mem_iff.symm
  root_mem := hs.root_mem
  tree := hs.tree
  candidates := hl
  children := hs.children
  table := hs.table

/-- A vertex becomes a candidate. -/
theorem Sound.pushed (hs : Sound db root exit first s) (hv : Found db root exit s.tree v)
    (hnew : s.status v.vertexId = .notExplored) :
    Sound db root exit first { s with
      status := Function.update s.status v.vertexId .candidate
      candidates := CandidateQueue.push v s.candidates } where
  nodup := by
    have hperm : ((s.tree ++ CandidateQueue.push v s.candidates).map Vertex.vertexId).Perm
        (v.vertexId :: (s.tree ++ s.candidates).map Vertex.vertexId) := by
      rw [← List.map_cons]
      exact (((List.Perm.refl s.tree).append (perm_push v s.candidates)).trans List.perm_middle).map _
    refine hperm.nodup_iff.mpr (List.nodup_cons.mpr ⟨fun hmem => ?_, hs.nodup⟩)
    rw [List.map_append, List.mem_append, ← hs.inTree, ← hs.candidate, hnew] at hmem
    rcases hmem with h | h <;> exact SPFStatus.noConfusion h
  inTree id := by
    dsimp only
    by_cases hid : id = v.vertexId
    · subst hid
      rw [Function.update_self, ← hs.inTree, hnew]
      exact iff_of_false SPFStatus.noConfusion SPFStatus.noConfusion
    · rw [Function.update_of_ne hid]
      exact hs.inTree id
  candidate id := by
    dsimp only
    rw [((perm_push v s.candidates).map _).mem_iff, List.map_cons, List.mem_cons]
    by_cases hid : id = v.vertexId
    · subst hid
      rw [Function.update_self]
      exact iff_of_true rfl (.inl rfl)
    · rw [Function.update_of_ne hid, hs.candidate]
      exact (or_iff_right hid).symm
  root_mem := hs.root_mem
  tree := hs.tree
  candidates x hx := by
    rcases List.mem_cons.mp ((perm_push v s.candidates).mem_iff.mp hx) with rfl | hx
    · exact hv
    · exact hs.candidates x hx
  children := hs.children
  table := hs.table

theorem mem_foldl_children {parents : List Ipv4Address} {children : Ipv4Address → List Ipv4Address}
    {id c p : Ipv4Address} (h : c ∈ parents.foldl (fun c p => Function.update c p (c p ++ [id])) children p) :
    c ∈ children p ∨ c = id ∧ p ∈ parents := by
  induction parents generalizing children with
  | nil => exact .inl h
  | cons q parents ih =>
    rw [List.foldl_cons] at h
    rcases ih h with h | ⟨rfl, hparent⟩
    · by_cases hp : p = q
      · subst hp
        rw [Function.update_self, List.mem_append, List.mem_singleton] at h
        exact h.imp_right fun h => ⟨h, List.mem_cons_self⟩
      · rw [Function.update_of_ne hp] at h
        exact .inl h
    · exact .inr ⟨rfl, List.mem_cons_of_mem _ hparent⟩

/-- The first candidate comes into the tree. -/
theorem Sound.pop (hs : Sound db root exit first s) (hcandidates : s.candidates = v :: rest) :
    Sound db root exit first (pop v rest s) := by
  have hv : Found db root exit s.tree v := hs.candidates v (hcandidates ▸ List.mem_cons_self)
  have hnodup : ((s.tree ++ v :: rest).map Vertex.vertexId).Nodup := hcandidates ▸ hs.nodup
  have hids : (s.tree ++ [v]).map Vertex.vertexId = s.tree.map Vertex.vertexId ++ [v.vertexId] := by
    rw [List.map_append, List.map_singleton]
  have hnotin : v.vertexId ∉ s.tree.map Vertex.vertexId := by
    rw [← hs.inTree, (hs.candidate v.vertexId).mpr (by rw [hcandidates]; exact List.mem_cons_self)]
    exact SPFStatus.noConfusion
  have hrest : v.vertexId ∉ rest.map Vertex.vertexId := by
    rw [List.map_append, List.map_cons] at hnodup
    exact (List.nodup_cons.mp (List.nodup_append.mp hnodup).2.1).1
  constructor
  case nodup => rwa [tree_pop, candidates_pop, List.append_assoc, List.singleton_append]
  case inTree =>
    intro id
    rw [status_pop, tree_pop, hids, List.mem_append, List.mem_singleton]
    by_cases hid : id = v.vertexId
    · subst hid
      rw [Function.update_self]
      exact iff_of_true rfl (.inr rfl)
    · rw [Function.update_of_ne hid, hs.inTree]
      exact (or_iff_left hid).symm
  case candidate =>
    intro id
    rw [status_pop, candidates_pop]
    by_cases hid : id = v.vertexId
    · subst hid
      rw [Function.update_self]
      exact iff_of_false SPFStatus.noConfusion hrest
    · rw [Function.update_of_ne hid, hs.candidate, hcandidates, List.map_cons, List.mem_cons]
      exact or_iff_right hid
  case root_mem =>
    rw [tree_pop, hids]
    exact List.mem_append_left _ hs.root_mem
  case tree =>
    intro x hx
    rcases List.mem_append.mp hx with hx | hx
    · obtain ⟨hlsa, hfound⟩ := hs.tree x hx
      exact ⟨hlsa, hfound.imp_right fun h => h.mono v⟩
    · obtain rfl := List.mem_singleton.mp hx
      exact ⟨hv.lsa, .inr (hv.mono x)⟩
  case candidates =>
    intro x hx
    exact (hs.candidates x (hcandidates ▸ List.mem_cons_of_mem _ hx)).mono v
  case children =>
    intro p c hc
    rw [tree_pop, hids]
    rcases mem_foldl_children hc with hc | ⟨rfl, hp⟩
    · obtain ⟨hmem, hlt⟩ := hs.children p c hc
      have hp : p ∈ s.tree.map Vertex.vertexId :=
        List.idxOf_lt_length_iff.mp (Nat.lt_of_lt_of_le hlt List.idxOf_le_length)
      rw [List.idxOf_append_of_mem hmem, List.idxOf_append_of_mem hp]
      exact ⟨List.mem_append_left _ hmem, hlt⟩
    · refine ⟨List.mem_append_right _ List.mem_cons_self, ?_⟩
      rw [List.idxOf_append_of_mem (hv.parents p hp), List.idxOf_append_of_notMem hnotin]
      exact Nat.lt_of_lt_of_le (List.idxOf_lt_length_iff.mpr (hv.parents p hp)) (Nat.le_add_right _ _)
  case table =>
    rw [GlobalRouteManagerImpl.pop]
    split_ifs
    · exact through_spfIntraAddRouter hs.table hv.exits
    · exact through_spfIntraAddTransit hs.table hv.exits

theorem Sound.installs {l : List Ipv4RoutingTableEntry} (hs : Sound db root exit l s)
    (h : ∀ r ∈ first, r ∈ s.table.hostRoutes) : Sound db root exit first s :=
  { hs with table := ⟨hs.table.routes, h⟩ }

theorem Sound.length_tree_le (hs : Sound db root exit first s) : s.tree.length ≤ db.database.length := by
  have hnodup : (s.tree.map Vertex.vertexId).Nodup := by
    have h := hs.nodup
    rw [List.map_append] at h
    exact (List.nodup_append.mp h).1
  have hsub : s.tree.map Vertex.vertexId ⊆ db.database.map GlobalRoutingLSA.linkStateId := by
    intro id hid
    obtain ⟨v, hv, rfl⟩ := List.mem_map.mp hid
    exact List.mem_map_of_mem (hs.tree v hv).1
  simpa using (List.subperm_of_subset hnodup hsub).length_le

/-! ### The rounds -/

variable (interfaces : Interfaces) (pointer : Ipv4Address → ℕ) (rounds : ℕ)

/-- From a vertex other than the root, and not from a network at the root, the exit is inherited. -/
theorem spfNexthopCalculation_of_ne (hv : Found db root exit tree v) (hne : v.vertexId ≠ root)
    (l : Option TypedLinkRecord) (distance : UInt32) :
    spfNexthopCalculation interfaces rounds root v w l distance = some (w.reached [exit] distance v) := by
  rw [spfNexthopCalculation, if_neg hne]
  by_cases hrouter : v.IsRouter
  · rw [if_neg (not_not_intro hrouter), hv.exits]
  · have hparent : v.parents.head? ≠ some root := fun h => hv.network hrouter (List.mem_of_head? h)
    have hexit : v.getRootExitDirection = some exit := by
      rw [Vertex.getRootExitDirection, hv.exits]
      rfl
    rw [if_pos hrouter, if_neg hparent, hexit]
    rfl

/-- A round of `SPFNext` from a vertex of the tree other than the root. -/
theorem Sound.spfExamine (hs : Sound db root exit first s) (hmem : v ∈ s.tree) (hne : v.vertexId ≠ root)
    {wLsa : GlobalRoutingLSA} (hw : wLsa ∈ db.database) (l : Option TypedLinkRecord) (distance : UInt32) :
    ∃ s', spfExamine interfaces pointer rounds root v l wLsa distance s = some s' ∧
      Sound db root exit first s' ∧ s'.tree = s.tree := by
  have hv : Found db root exit s.tree v := ((hs.tree v hmem).2).resolve_left hne
  have hid : v.vertexId ∈ s.tree.map Vertex.vertexId := List.mem_map_of_mem hmem
  have hreached : ∀ w : Vertex, w.lsa ∈ db.database → Found db root exit s.tree (w.reached [exit] distance v) :=
    fun w hw => found_reached hid hne hw distance
  rw [GlobalRouteManagerImpl.spfExamine]
  cases hstatus : s.status wLsa.linkStateId with
  | inSPFTree => exact ⟨s, rfl, hs, rfl⟩
  | notExplored =>
    dsimp only
    rw [spfNexthopCalculation_of_ne interfaces rounds hv hne]
    exact ⟨_, rfl, hs.pushed (hreached (.new wLsa) hw) hstatus, rfl⟩
  | candidate =>
    obtain ⟨cw, hfind, hcw, hcwid⟩ := exists_find ((hs.candidate wLsa.linkStateId).mp hstatus)
    have hfound := hs.candidates cw hcw
    -- a candidate in the place of another one with its id
    have hreplace : ∀ x : Vertex, Found db root exit s.tree x → ∀ y ∈ CandidateQueue.replace x s.candidates,
        Found db root exit s.tree y := by
      intro x hx y hy
      rcases mem_of_mem_replace hy with rfl | hy
      · exact hx
      · exact hs.candidates y hy
    dsimp only
    rw [hfind]
    dsimp only [Option.bind_eq_bind, Option.bind_some]
    split_ifs
    · exact ⟨s, rfl, hs, rfl⟩
    · rw [spfNexthopCalculation_of_ne interfaces rounds hv hne]
      have hmerge := found_merge pointer hfound (hreached (.new wLsa) hw) fun h => hne (List.mem_singleton.mp h).symm
      refine ⟨_, rfl, hs.setCandidates (List.Perm.of_eq (map_vertexId_replace _ _)) (hreplace _ hmerge), rfl⟩
    · rw [spfNexthopCalculation_of_ne interfaces rounds hv hne]
      have hcloser := hreached cw hfound.lsa
      refine ⟨_, rfl, hs.setCandidates (((perm_reorder _).map _).trans
        (List.Perm.of_eq (map_vertexId_replace _ _))) (fun y hy => ?_), rfl⟩
      exact hreplace _ hcloser y ((perm_reorder _).mem_iff.mp hy)

/-- `SPFNext` for a vertex of the tree other than the root. -/
theorem Sound.spfNext (hbi : db.Bidirectional) (hs : Sound db root exit first s) (hmem : v ∈ s.tree)
    (hne : v.vertexId ≠ root) :
    ∃ s', spfNext db interfaces pointer rounds root v s = some s' ∧ Sound db root exit first s' ∧ s'.tree = s.tree := by
  have hlsa := (hs.tree v hmem).1
  rw [GlobalRouteManagerImpl.spfNext]
  split_ifs with hrouter
  · refine Lib.foldlM_spec (Q := fun x => Sound db root exit first x ∧ x.tree = s.tree) _ ?_ ⟨hs, rfl⟩
    rintro l hl x ⟨hx, htree⟩
    obtain ⟨-, hanswered⟩ := hbi v.lsa hlsa l hl
    have hexamine : l.linkType ≠ .stubNetwork → ∃ s', (do
        let wLsa ← db.getLSA l.linkId
        GlobalRouteManagerImpl.spfExamine interfaces pointer rounds root v (some l) wLsa
          (v.distanceFromRoot + l.metric.toUInt32) x) = some s' ∧ Sound db root exit first s' ∧ s'.tree = s.tree := by
      intro hstub
      obtain ⟨w, hw, hget⟩ := hanswered.getLSA hstub
      obtain ⟨s', heq, hs', htree'⟩ := hx.spfExamine interfaces pointer rounds
        (htree ▸ hmem) hne hw (some l) (v.distanceFromRoot + l.metric.toUInt32)
      rw [hget]
      exact ⟨s', heq, hs', htree'.trans htree⟩
    rw [spfNextLink]
    rcases hanswered with h | ⟨h, -⟩ | ⟨h, -⟩
    · rw [h]
      exact ⟨x, rfl, hx, htree⟩
    · rw [h] at hexamine ⊢
      exact hexamine LinkType.noConfusion
    · rw [h] at hexamine ⊢
      exact hexamine LinkType.noConfusion
  · refine Lib.foldlM_spec (Q := fun x => Sound db root exit first x ∧ x.tree = s.tree) _ ?_ ⟨hs, rfl⟩
    rintro addr - x ⟨hx, htree⟩
    rw [spfNextRouter]
    cases hget : db.getLSAByLinkData addr with
    | none => exact ⟨x, rfl, hx, htree⟩
    | some wLsa =>
      obtain ⟨s', heq, hs', htree'⟩ := hx.spfExamine interfaces pointer rounds
        (htree ▸ hmem) hne (GlobalRouteManagerLSDB.of_getLSAByLinkData hget) none v.distanceFromRoot
      exact ⟨s', heq, hs', htree'.trans htree⟩

/-- The loop of `SPFCalculate` from there on: each round takes a LSA of the database into the tree. -/
theorem Sound.spfLoop (hbi : db.Bidirectional) {n : ℕ} (hs : Sound db root exit first s) (hmem : v ∈ s.tree)
    (hne : v.vertexId ≠ root) (hn : db.database.length < n + s.tree.length) :
    ∃ s', spfLoop db interfaces pointer rounds root n v s = some s' ∧ Sound db root exit first s' := by
  induction n generalizing v s with
  | zero =>
    have := hs.length_tree_le
    omega
  | succ n ih =>
    obtain ⟨s', hnext, hs', htree⟩ := hs.spfNext interfaces pointer rounds hbi hmem hne
    rw [GlobalRouteManagerImpl.spfLoop, hnext]
    dsimp only [Option.bind_eq_bind, Option.bind_some]
    cases hcandidates : s'.candidates with
    | nil => exact ⟨s', rfl, hs'⟩
    | cons w rest =>
      have hwne : w.vertexId ≠ root := by
        have hw := (hs'.candidate w.vertexId).mpr (by rw [hcandidates]; exact List.mem_cons_self)
        intro heq
        rw [heq, (hs'.inTree root).mpr hs'.root_mem] at hw
        exact SPFStatus.noConfusion hw
      refine ih (hs'.pop hcandidates) ?_ hwne ?_
      · exact List.mem_append_right _ List.mem_cons_self
      · rw [tree_pop, List.length_append, List.length_singleton, htree]
        omega

/-- A walk through the tree. -/
theorem Sound.processTree (hs : Sound db root exit first s) (hrounds : db.database.length < rounds)
    {process : Vertex → Ipv4GlobalRouting → Ipv4GlobalRouting}
    (hprocess : ∀ v, v.vertexId = root ∨ v.ecmpRootExits = [exit] → ∀ t, t.Through exit first →
      (process v t).Through exit first) (ht : t.Through exit first) :
    ∃ t', processTree rounds root s process t = some t' ∧ t'.Through exit first := by
  have hwalk : ∃ s', Lib.markedWalk (fun id t => (CandidateQueue.find id s.tree).map fun v => process v t) s.children
      rounds root (t, fun _ => false) = some s' ∧ s'.1.Through exit first := by
    refine Lib.markedWalk_spec (P := fun id => id ∈ s.tree.map Vertex.vertexId) (Q := Through exit first)
      (fun id => (s.tree.map Vertex.vertexId).idxOf id) s.tree.length (fun id hid t ht => ?_)
      (fun id _ c hc => hs.children id c hc) (fun id hid => ?_) hs.root_mem
      (Nat.le_add_right_of_le (Nat.le_trans hs.length_tree_le (Nat.le_of_lt hrounds))) ht
    · obtain ⟨v, hfind, hv, -⟩ := exists_find hid
      refine ⟨process v t, by rw [hfind]; rfl, hprocess v ?_ t ht⟩
      exact (hs.tree v hv).2.imp_right fun h => h.exits
    · have hlt := List.idxOf_lt_length_iff.mpr hid
      rwa [List.length_map] at hlt
  obtain ⟨s', heq, ht'⟩ := hwalk
  refine ⟨s'.1, ?_, ht'⟩
  rw [GlobalRouteManagerImpl.processTree, heq]
  rfl

/-! ### The first link -/

variable {interfaces pointer rounds} {rlsa wLsa : GlobalRoutingLSA} {link lr : TypedLinkRecord}
  {route : Ipv4RoutingTableEntry}

/-- What `CheckForStubNode` finds where it installs a default route: the LSA of the root, its only link to a router, the
LSA of the neighbour and the record of the neighbour for the link. -/
structure StubNode (db : GlobalRouteManagerLSDB) (root : Ipv4Address) (rlsa : GlobalRoutingLSA) (link : TypedLinkRecord)
    (wLsa : GlobalRoutingLSA) (lr : TypedLinkRecord) : Prop where
  getLSA_root : db.getLSA root = some rlsa
  transitLinks : transitLinks rlsa = [link]
  pointToPoint : link.linkType = .pointToPoint
  getLSA_link : db.getLSA link.linkId = some wLsa
  find : (wLsa.links.find? fun lr => lr.linkType = .pointToPoint ∧ lr.linkId = root) = some lr

theorem of_checkForStubNode (h : checkForStubNode db interfaces root = some (true, some route)) :
    ∃ rlsa link wLsa lr, StubNode db root rlsa link wLsa lr ∧
      route = ⟨.any, 0, lr.linkData, findOutgoingInterfaceId interfaces link.linkData 0xffffffff⟩ := by
  rw [checkForStubNode] at h
  obtain ⟨rlsa, hroot, h⟩ := Option.bind_eq_some_iff.mp h
  obtain ⟨-, hid⟩ := GlobalRouteManagerLSDB.of_getLSA hroot
  split at h
  · simp at h
  · rename_i link hlinks
    have htype : link.linkType = .transitNetwork ∨ link.linkType = .pointToPoint := by
      have hmem : link ∈ transitLinks rlsa := by rw [hlinks]; exact List.mem_cons_self
      simpa using (List.mem_filter.mp hmem).2
    split_ifs at h with htransit
    · simp at h
    · obtain ⟨wLsa, hneighbour, h⟩ := Option.bind_eq_some_iff.mp h
      rw [hid] at h
      split at h
      · simp at h
      · rename_i lr hfind
        simp only [Option.some.injEq, Prod.mk.injEq, true_and] at h
        exact ⟨rlsa, link, wLsa, lr, ⟨hroot, hlinks, htype.resolve_left htransit, hneighbour, hfind⟩, h.symm⟩
  · simp at h

theorem map_find?_zipIdx {α β : Type} (p : α → Bool) (f : α → β) (l : List α) (k : ℕ) :
    ((l.zipIdx k).find? fun x => p x.1).map (fun x => f x.1) = (l.find? p).map f := by
  induction l generalizing k with
  | nil => rfl
  | cons a l ih =>
    rw [List.zipIdx_cons]
    by_cases hp : p a = true
    · rw [List.find?_cons_of_pos (p := fun x : α × ℕ => p x.1) hp, List.find?_cons_of_pos hp]
      rfl
    · rw [List.find?_cons_of_neg (p := fun x : α × ℕ => p x.1) hp, List.find?_cons_of_neg hp]
      exact ih (k + 1)

/-- Without a previous link, `SPFGetNextLink` takes the first record that names the vertex, of whatever type. -/
theorem map_spfGetNextLink (w v : Vertex) :
    (spfGetNextLink w.toSPFVertex v.toSPFVertex none).map (fun l => l.1.linkData) =
      (w.lsa.links.find? fun lr => lr.linkId = v.vertexId).map fun lr => lr.linkData := by
  have hlinks : w.toSPFVertex.links = (w.lsa.links.map TypedLinkRecord.toGlobalRoutingLinkRecord).zipIdx := by
    rw [SPFVertex.links, SPFVertex.getNLinkRecords, Vertex.toSPFVertex, GlobalRoutingLSA.links, List.map_take,
      List.length_map]
  rw [spfGetNextLink_eq, Option.isSome_none, if_neg Bool.false_ne_true, pointing, hlinks, ← List.head?_eq_getElem?,
    List.head?_filter]
  refine (map_find?_zipIdx (fun l : GlobalRoutingLinkRecord => decide (l.linkId = v.vertexId))
    (fun l => l.linkData) _ 0).trans ?_
  rw [List.find?_map, Option.map_map]
  rfl

theorem foldlM_stubs (v : Vertex) {links : List TypedLinkRecord} (h : ∀ l ∈ links, l.linkType = .stubNetwork)
    (s : Calculation) : links.foldlM (spfNextLink db interfaces pointer rounds root v) s = some s := by
  induction links with
  | nil => rfl
  | cons l links ih =>
    rw [List.foldlM_cons, spfNextLink, h l List.mem_cons_self]
    exact ih fun x hx => h x (List.mem_cons_of_mem _ hx)

/-- The root by itself. -/
theorem sound_start (exit : Ipv4Address × UInt32) (hrlsa : rlsa ∈ db.database) (hid : rlsa.linkStateId = root) :
    Sound db root exit [] (start rlsa) where
  nodup := List.nodup_singleton _
  inTree id := by
    rw [start, List.map_singleton, List.mem_singleton]
    dsimp only
    by_cases h : id = rlsa.linkStateId
    · subst h
      rw [Function.update_self]
      exact iff_of_true rfl rfl
    · rw [Function.update_of_ne h]
      exact iff_of_false SPFStatus.noConfusion h
  candidate id := by
    refine iff_of_false (fun h => ?_) List.not_mem_nil
    rw [start] at h
    dsimp only at h
    by_cases hroot : id = rlsa.linkStateId
    · rw [hroot, Function.update_self] at h
      exact SPFStatus.noConfusion h
    · rw [Function.update_of_ne hroot] at h
      exact SPFStatus.noConfusion h
  root_mem := by
    rw [← hid]
    exact List.mem_cons_self
  tree v hv := by
    obtain rfl := List.mem_singleton.mp hv
    exact ⟨hrlsa, .inl hid⟩
  candidates _ hv := absurd hv List.not_mem_nil
  children _ _ hc := absurd hc List.not_mem_nil
  table := ⟨fun _ hr => absurd hr List.not_mem_nil, fun _ hr => absurd hr List.not_mem_nil⟩

namespace StubNode

variable (h : StubNode db root rlsa link wLsa lr)

include h

theorem rlsa_mem : rlsa ∈ db.database := (GlobalRouteManagerLSDB.of_getLSA h.getLSA_root).1

theorem linkStateId_eq : rlsa.linkStateId = root := (GlobalRouteManagerLSDB.of_getLSA h.getLSA_root).2

theorem wLsa_mem : wLsa ∈ db.database := (GlobalRouteManagerLSDB.of_getLSA h.getLSA_link).1

theorem lr_mem : lr ∈ wLsa.links := List.mem_of_find?_eq_some h.find

theorem lr_spec : lr.linkType = .pointToPoint ∧ lr.linkId = root := by
  simpa using List.find?_some h.find

/-- From the root, `SPFNext` looks at one vertex. -/
theorem spfNext_start (hbi : db.Bidirectional) (s : Calculation) :
    spfNext db interfaces pointer rounds root (spfroot rlsa) s =
      spfExamine interfaces pointer rounds root (spfroot rlsa) (some link) wLsa
        ((spfroot rlsa).distanceFromRoot + link.metric.toUInt32) s := by
  obtain ⟨before, behind, hlinks, hbefore, -, hbehind⟩ := List.filter_eq_cons_iff.mp h.transitLinks
  have hstub : ∀ l ∈ rlsa.links, ¬ (decide (l.linkType = .transitNetwork ∨ l.linkType = .pointToPoint)) = true →
      l.linkType = .stubNetwork := by
    intro l hl hnot
    rcases (hbi rlsa h.rlsa_mem l hl).2 with hs | ⟨hp, -⟩ | ⟨ht, -⟩
    · exact hs
    · exact absurd (by simp [hp]) hnot
    · exact absurd (by simp [ht]) hnot
  have hfirst : ∀ l ∈ before, l.linkType = .stubNetwork :=
    fun l hl => hstub l (by rw [hlinks]; simp [hl]) (hbefore l hl)
  have hlast : ∀ l ∈ behind, l.linkType = .stubNetwork :=
    fun l hl => hstub l (by rw [hlinks]; simp [hl]) (List.filter_eq_nil_iff.mp hbehind l hl)
  have hrouter : (spfroot rlsa).IsRouter := (hbi rlsa h.rlsa_mem link (by rw [hlinks]; simp)).1
  have hlsa : (spfroot rlsa).lsa.links = before ++ link :: behind := hlinks
  rw [GlobalRouteManagerImpl.spfNext, if_pos hrouter, hlsa, List.foldlM_append, foldlM_stubs _ hfirst]
  dsimp only [Option.bind_eq_bind, Option.bind_some]
  rw [List.foldlM_cons, spfNextLink, h.pointToPoint]
  dsimp only [Option.bind_eq_bind, Option.bind_some]
  rw [h.getLSA_link]
  dsimp only [Option.bind_some]
  cases GlobalRouteManagerImpl.spfExamine interfaces pointer rounds root (spfroot rlsa) (some link) wLsa
    ((spfroot rlsa).distanceFromRoot + link.metric.toUInt32) s with
  | none => rfl
  | some x => exact foldlM_stubs _ hlast x

theorem spfLoop_of_eq (hbi : db.Bidirectional) (hself : wLsa.linkStateId = root) (n : ℕ) :
    spfLoop db interfaces pointer rounds root (n + 1) (spfroot rlsa) (start rlsa) = some (start rlsa) := by
  have hstatus : (start rlsa).status wLsa.linkStateId = .inSPFTree := by
    rw [hself, ← h.linkStateId_eq, start]
    dsimp only
    rw [Function.update_self]
  rw [spfLoop, h.spfNext_start hbi, spfExamine, hstatus]
  rfl

variable {next : TypedLinkRecord}

/-- The neighbour is reached from the root with the address in its first record that names the root. -/
theorem spfNexthopCalculation_start (hbi : db.Bidirectional)
    (hnext : (wLsa.links.find? fun lr => lr.linkId = root) = some next) (distance : UInt32) :
    spfNexthopCalculation interfaces rounds root (spfroot rlsa) (.new wLsa) (some link) distance =
      some ((Vertex.new wLsa).reached
        [(next.linkData, findOutgoingInterfaceId interfaces link.linkData 0xffffffff)] distance (spfroot rlsa)) := by
  have hroot : (spfroot rlsa).vertexId = root := h.linkStateId_eq
  have hrouter : (Vertex.new wLsa).IsRouter := (hbi wLsa h.wLsa_mem lr h.lr_mem).1
  have hremote := map_spfGetNextLink (.new wLsa) (spfroot rlsa)
  rw [hroot] at hremote
  obtain ⟨linkRemote, hlink, hdata⟩ := Option.map_eq_some_iff.mp (hremote.trans (congrArg _ hnext))
  rw [spfNexthopCalculation, if_pos hroot, if_pos hrouter]
  dsimp only [Option.bind_eq_bind, Option.bind_some]
  rw [hlink]
  dsimp only [Option.bind_some]
  rw [hdata]

/-- Otherwise the loop finds all there is through the neighbour, and the host routes to the neighbour are among what it
installs. -/
theorem spfLoop_of_ne (hbi : db.Bidirectional) (hne : wLsa.linkStateId ≠ root)
    (hnext : (wLsa.links.find? fun lr => lr.linkId = root) = some next) {exit : Ipv4Address × UInt32}
    (hexit : exit = (next.linkData, findOutgoingInterfaceId interfaces link.linkData 0xffffffff)) {n : ℕ}
    (hn : db.database.length < n + 1) :
    ∃ s, spfLoop db interfaces pointer rounds root (n + 1) (spfroot rlsa) (start rlsa) = some s ∧
      Sound db root exit (if 0 ≤ exit.2.toInt32 then [⟨lr.linkData, 0xffffffff, exit.1, exit.2⟩] else []) s := by
  have hstart := sound_start exit h.rlsa_mem h.linkStateId_eq
  have hroot : (spfroot rlsa).vertexId = root := h.linkStateId_eq
  have hrouter : (Vertex.new wLsa).IsRouter := (hbi wLsa h.wLsa_mem lr h.lr_mem).1
  have hstatus : (start rlsa).status wLsa.linkStateId = .notExplored := by
    rw [start]
    dsimp only
    rw [Function.update_of_ne (h.linkStateId_eq ▸ hne)]
  rw [spfLoop, h.spfNext_start hbi, spfExamine, hstatus]
  dsimp only
  rw [h.spfNexthopCalculation_start hbi hnext, ← hexit]
  dsimp only [Option.bind_eq_bind, Option.bind_some]
  -- the neighbour becomes the only candidate
  generalize hw : (Vertex.new wLsa).reached [exit] _ (spfroot rlsa) = w
  have hid : w.vertexId = wLsa.linkStateId := by
    rw [← hw]
    rfl
  have hfound : Found db root exit (start rlsa).tree w := by
    subst hw
    refine ⟨h.wLsa_mem, rfl, fun p hp => ?_, fun hnot => absurd hrouter hnot⟩
    obtain rfl := List.mem_singleton.mp hp
    exact List.mem_cons_self
  have hpushed := hstart.pushed hfound (hid ▸ hstatus)
  have hpopped := hpushed.pop (show CandidateQueue.push w [] = [w] from rfl)
  have hinstalled : ∀ r ∈ (if 0 ≤ exit.2.toInt32 then [Ipv4RoutingTableEntry.mk lr.linkData 0xffffffff exit.1 exit.2]
      else []), r ∈ (spfIntraAddRouter w .empty).hostRoutes := by
    intro r hr
    split_ifs at hr with hle
    · refine List.mem_flatMap.mpr ⟨lr, List.mem_filter.mpr ⟨?_, by simpa using h.lr_spec.1⟩, ?_⟩
      · rw [← hw]
        exact h.lr_mem
      · rw [exitRoutes, ← hw, List.mem_singleton.mp hr]
        simp [Vertex.reached, hle]
    · exact absurd hr List.not_mem_nil
  rw [hid] at hpopped
  refine Sound.spfLoop interfaces pointer rounds hbi (v := w) (hpopped.installs ?_) ?_ (hid ▸ hne) ?_
  · have hwrouter : w.IsRouter := by
      rw [← hw]
      exact hrouter
    rw [pop, if_pos hwrouter]
    exact hinstalled
  · exact List.mem_append_right _ List.mem_cons_self
  · rw [tree_pop, List.length_append, List.length_singleton]
    exact Nat.lt_of_lt_of_le hn (Nat.add_le_add_left (Nat.le_add_left 1 _) n)

/-- The whole calculation ends, and its routes leave by the exit of the neighbour; there are none where the root is its
own neighbour. -/
theorem spfCalculateAll_spec (interfaces pointer) (hbi : db.Bidirectional) (hrounds : db.database.length < rounds)
    (hnext : (wLsa.links.find? fun lr => lr.linkId = root) = some next) (exit : Ipv4Address × UInt32)
    (hexit : exit = (next.linkData, findOutgoingInterfaceId interfaces link.linkData 0xffffffff) ∨
      wLsa.linkStateId = root) :
    ∃ t, spfCalculateAll db interfaces pointer rounds root = some t ∧
      t.Through exit (if wLsa.linkStateId ≠ root ∧ 0 ≤ exit.2.toInt32 then
        [⟨lr.linkData, 0xffffffff, exit.1, exit.2⟩] else []) := by
  generalize hfirst : (if wLsa.linkStateId ≠ root ∧ 0 ≤ exit.2.toInt32 then
    [Ipv4RoutingTableEntry.mk lr.linkData 0xffffffff exit.1 exit.2] else []) = first
  have hloop : ∃ s, spfLoop db interfaces pointer rounds root rounds (spfroot rlsa) (start rlsa) = some s ∧
      Sound db root exit first s := by
    obtain ⟨n, rfl⟩ : ∃ n, rounds = n + 1 := ⟨rounds - 1, by omega⟩
    by_cases hself : wLsa.linkStateId = root
    · rw [if_neg (fun h => h.1 hself)] at hfirst
      subst hfirst
      exact ⟨_, h.spfLoop_of_eq hbi hself n, sound_start exit h.rlsa_mem h.linkStateId_eq⟩
    · simp only [ne_eq, hself, not_false_eq_true, true_and] at hfirst
      subst hfirst
      exact h.spfLoop_of_ne hbi hself hnext (hexit.resolve_right hself) hrounds
  obtain ⟨s, heq, hs⟩ := hloop
  obtain ⟨t, hstubs, ht⟩ := hs.processTree rounds hrounds
    (fun v hv t ht => through_processStubs (t := t) ht hv) hs.table
  obtain ⟨t', hexternals, ht'⟩ := Lib.foldlM_spec (Q := fun t => t.Through exit first)
    (f := fun t extlsa => processTree rounds root s (processASExternal root extlsa) t) db.extdatabase
    (fun extlsa _ t ht => hs.processTree rounds hrounds
      (fun v hv t ht => through_processASExternal extlsa (t := t) ht hv) ht) ht
  refine ⟨t', ?_, ht'⟩
  rw [spfCalculateAll, h.getLSA_root]
  dsimp only [Option.bind_eq_bind, Option.bind_some]
  rw [heq]
  dsimp only [Option.bind_some]
  rw [hstubs]
  exact hexternals

end StubNode

/-! ### The shortcut -/

/-- What the shortcut installs sends to the same next hop, by the same interface, every destination that the whole
calculation reaches. -/
def ShortcutAgrees (db : GlobalRouteManagerLSDB) (interfaces : Interfaces) (pointer : Ipv4Address → ℕ) (rounds : ℕ)
    (root : Ipv4Address) : Prop :=
  ∀ stub ∈ spfCalculate db interfaces pointer rounds root, ∀ all ∈ spfCalculateAll db interfaces pointer rounds root,
    stub.Agrees all

/-- The root is its own neighbour, or its interface to the neighbour is not found, or the first record of the neighbour
that names the root has the address of the first point-to-point record that does. -/
def SameAddress (db : GlobalRouteManagerLSDB) (interfaces : Interfaces) (root : Ipv4Address) : Prop :=
  ∀ rlsa ∈ db.getLSA root, ∀ link ∈ transitLinks rlsa, ∀ wLsa ∈ db.getLSA link.linkId,
    wLsa.linkStateId = root ∨ (findOutgoingInterfaceId interfaces link.linkData 0xffffffff).toInt32 < 0 ∨
    (wLsa.links.find? fun lr => lr.linkId = root).map (fun lr => lr.linkData) =
      (wLsa.links.find? fun lr => lr.linkType = .pointToPoint ∧ lr.linkId = root).map fun lr => lr.linkData
deriving Decidable

theorem StubNode.sameAddress_iff (h : StubNode db root rlsa link wLsa lr) {next : TypedLinkRecord}
    (hnext : (wLsa.links.find? fun lr => lr.linkId = root) = some next) :
    SameAddress db interfaces root ↔ wLsa.linkStateId = root ∨
      (findOutgoingInterfaceId interfaces link.linkData 0xffffffff).toInt32 < 0 ∨ next.linkData = lr.linkData := by
  constructor
  · intro hsame
    have hlink : link ∈ GlobalRouteManagerImpl.transitLinks rlsa := by
      rw [h.transitLinks]
      exact List.mem_cons_self
    have hcases := hsame rlsa h.getLSA_root link hlink wLsa h.getLSA_link
    rw [hnext, h.find] at hcases
    exact hcases.imp_right fun hcases => hcases.imp_right fun heq => Option.some.inj heq
  · intro hcases rlsa' hroot link' hlink wLsa' hneighbour
    obtain rfl := Option.some.inj (hroot.symm.trans h.getLSA_root)
    rw [h.transitLinks, List.mem_singleton] at hlink
    subst hlink
    obtain rfl := Option.some.inj (hneighbour.symm.trans h.getLSA_link)
    rw [hnext, h.find]
    exact hcases.imp_right fun hcases => hcases.imp_right fun heq => congrArg some heq

/-- A default route by the exit agrees with routes that all leave by it. -/
theorem agrees_of_through {gateway : Ipv4Address} {i : UInt32} (ht : t.Through (gateway, i) first) :
    (Ipv4GlobalRouting.empty.addNetworkRoutes [⟨.any, 0, gateway, i⟩]).Agrees t := by
  intro out dest r hr
  obtain ⟨hmem, hout⟩ := of_mem_lookupGlobal hr
  obtain ⟨hgateway, hinterface⟩ := Prod.mk.inj (ht.routes r hmem).1
  rw [hinterface] at hout
  rw [lookupGlobal_default gateway i out dest hout]
  refine ⟨List.cons_ne_nil _ _, fun d hd => ?_⟩
  rw [List.mem_singleton.mp hd]
  exact ⟨hgateway.symm, hinterface.symm⟩

/-- The shortcut and the whole calculation end, and they agree exactly if the records do. -/
theorem agrees_iff (hbi : db.Bidirectional) (hstub : checkForStubNode db interfaces root = some (true, some route))
    (hrounds : db.database.length < rounds) :
    ((spfCalculate db interfaces pointer rounds root).isSome ∧
      (spfCalculateAll db interfaces pointer rounds root).isSome) ∧
    (ShortcutAgrees db interfaces pointer rounds root ↔ SameAddress db interfaces root) := by
  have hshort : spfCalculate db interfaces pointer rounds root =
      some (Ipv4GlobalRouting.empty.addNetworkRoutes [route]) := by
    rw [spfCalculate, hstub]
    rfl
  obtain ⟨rlsa, link, wLsa, lr, h, rfl⟩ := of_checkForStubNode hstub
  obtain ⟨next, hnext⟩ : ∃ next, (wLsa.links.find? fun lr => lr.linkId = root) = some next := by
    refine Option.isSome_iff_exists.mp (List.find?_isSome.mpr ⟨lr, h.lr_mem, ?_⟩)
    simpa using h.lr_spec.2
  rw [h.sameAddress_iff hnext]
  set outIf := findOutgoingInterfaceId interfaces link.linkData 0xffffffff with houtIf
  by_cases hself : wLsa.linkStateId = root
  · obtain ⟨t, hall, ht⟩ := h.spfCalculateAll_spec interfaces pointer hbi hrounds hnext (lr.linkData, outIf)
      (.inr hself)
    refine ⟨⟨by rw [hshort]; rfl, by rw [hall]; rfl⟩, iff_of_true ?_ (.inl hself)⟩
    intro stub hs all ha
    obtain rfl := Option.some.inj (hs.symm.trans hshort)
    obtain rfl := Option.some.inj (ha.symm.trans hall)
    exact agrees_of_through ht
  · obtain ⟨t, hall, ht⟩ := h.spfCalculateAll_spec interfaces pointer hbi hrounds hnext (next.linkData, outIf)
      (.inl rfl)
    refine ⟨⟨by rw [hshort]; rfl, by rw [hall]; rfl⟩, ?_, ?_⟩
    · intro hagrees
      refine .inr ?_
      by_contra hnot
      obtain ⟨hlt, hne⟩ := not_or.mp hnot
      have hle : 0 ≤ outIf.toInt32 := Int32.not_lt.mp hlt
      have hhost := ht.installed ⟨lr.linkData, 0xffffffff, next.linkData, outIf⟩ (by simp [hself, hle])
      have hagree := (hagrees _ hshort _ hall _ _ _ (mem_lookupGlobal hhost)).2
      rw [lookupGlobal_default lr.linkData outIf (fun _ => true) _ rfl] at hagree
      exact hne (hagree _ List.mem_cons_self).1.symm
    · intro hcases stub hs all ha
      obtain rfl := Option.some.inj (hs.symm.trans hshort)
      obtain rfl := Option.some.inj (ha.symm.trans hall)
      rcases hcases with heq | hlt | heq
      · exact absurd heq hself
      · have hnone : Through (lr.linkData, outIf) [] all :=
          ⟨fun r hr => absurd (ht.routes r hr).2 (Int32.not_le.mpr hlt), fun r hr => absurd hr List.not_mem_nil⟩
        exact agrees_of_through hnone
      · rw [heq] at ht
        exact agrees_of_through ht

/-! ### Two databases -/

/-- A point-to-point record: the router id of the neighbour and the own address. -/
def pointToPointRecord (linkId linkData : BitVec 32) : TypedLinkRecord := ⟨⟨⟨linkId⟩, ⟨linkData⟩⟩, .pointToPoint, 1⟩

/-- A stub record: the address of the neighbour and the mask. -/
def stubRecord (linkId linkData : BitVec 32) : TypedLinkRecord := ⟨⟨⟨linkId⟩, ⟨linkData⟩⟩, .stubNetwork, 1⟩

/-- The LSA of a router. -/
def routerLSA (id : BitVec 32) (l : List TypedLinkRecord) : GlobalRoutingLSA := ⟨.routerLSA, ⟨id⟩, ⟨id⟩, l, 0, []⟩

/-- The interfaces of the first router: `127.0.0.1` and `10.1.1.1`. -/
def firstInterfaces : Interfaces := [[⟨⟨0x7f000001⟩, ⟨0x7fffffff⟩⟩], [⟨⟨0x0a010101⟩, ⟨0x0a0101ff⟩⟩]]

/-- Three routers in a line. -/
def line : GlobalRouteManagerLSDB where
  database :=
    [routerLSA 1 [pointToPointRecord 2 0x0a010101, stubRecord 0x0a010102 0xffffff00],
      routerLSA 2 [pointToPointRecord 1 0x0a010102, stubRecord 0x0a010101 0xffffff00,
        pointToPointRecord 3 0x0a010201, stubRecord 0x0a010202 0xffffff00],
      routerLSA 3 [pointToPointRecord 2 0x0a010202, stubRecord 0x0a010201 0xffffff00]]
  extdatabase := []
  ordered := by decide
  separate := by decide

theorem agrees_line : ShortcutAgrees line firstInterfaces (fun _ => 0) 4 ⟨1⟩ :=
  (agrees_iff (show line.Bidirectional by decide +kernel)
    (show checkForStubNode line firstInterfaces ⟨1⟩ = some (true, some ⟨.any, 0, ⟨0x0a010102⟩, 1⟩) by decide +kernel)
    (show line.database.length < 4 by decide)).2.mpr (by decide +kernel)

/-- Two routers. The second one has an interface whose other end is down and has the address `0.0.0.1`, which is the
router id of the first one. -/
def stubNumbered : GlobalRouteManagerLSDB where
  database :=
    [routerLSA 1 [pointToPointRecord 2 0x0a010101, stubRecord 0x0a010102 0xffffff00],
      routerLSA 2 [stubRecord 1 0xfffffffc, pointToPointRecord 1 0x0a010102, stubRecord 0x0a010101 0xffffff00]]
  extdatabase := []
  ordered := by decide
  separate := by decide

/-- What the calculation installs there: the next hop is the mask of the stub network. -/
def maskRoutes : Ipv4GlobalRouting where
  hostRoutes := [⟨⟨0x0a010102⟩, 0xffffffff, ⟨0xfffffffc⟩, 1⟩]
  networkRoutes := [⟨⟨0⟩, 0xfffffffc, ⟨0xfffffffc⟩, 1⟩, ⟨⟨0x0a010100⟩, 0xffffff00, ⟨0xfffffffc⟩, 1⟩]
  asExternalRoutes := []

theorem not_agrees_stubNumbered :
    stubNumbered.Bidirectional ∧
    checkForStubNode stubNumbered firstInterfaces ⟨1⟩ = some (true, some ⟨.any, 0, ⟨0x0a010102⟩, 1⟩) ∧
    ¬ ShortcutAgrees stubNumbered firstInterfaces (fun _ => 0) 4 ⟨1⟩ := by
  refine ⟨by decide +kernel, by decide +kernel, fun hagrees => ?_⟩
  have hshort : spfCalculate stubNumbered firstInterfaces (fun _ => 0) 4 ⟨1⟩ =
      some (Ipv4GlobalRouting.empty.addNetworkRoutes [⟨.any, 0, ⟨0x0a010102⟩, 1⟩]) := by decide +kernel
  have hall : spfCalculateAll stubNumbered firstInterfaces (fun _ => 0) 4 ⟨1⟩ = some maskRoutes := by decide +kernel
  have hagree := (hagrees _ hshort _ hall (fun _ => true) _ _
    (mem_lookupGlobal (r := ⟨⟨0x0a010102⟩, 0xffffffff, ⟨0xfffffffc⟩, 1⟩) (by decide))).2
  rw [lookupGlobal_default ⟨0x0a010102⟩ 1 (fun _ => true) _ rfl] at hagree
  exact absurd (hagree _ List.mem_cons_self).1 (by decide)

end GlobalRouteManagerImpl

end Ns3
