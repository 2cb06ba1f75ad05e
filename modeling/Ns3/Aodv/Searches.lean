import Ns3.Aodv.Routes

/-!
# The searches for routes in AODV

A route is searched for while its entry is in search, and the entry counts the requests that were made. Only
`SendRequest` begins a search or counts: every other handler leaves a search with its count, or ends it.

* `SearchesKept` — what such a handler does to the searches of a table, with one lemma for each handler.
* `requests_searchRoute` — what `SendRequest` does to them.
-/

namespace Ns3.Aodv

namespace RoutingTable

/-- The number of requests that were made for a destination, if it is searched for. -/
def requests (t : RoutingTable) (dst : Ipv4Address) : Option ℕ :=
  ((t dst).filter fun rt => rt.flag = .inSearch).map RoutingTableEntry.reqCount

/-- No request is counted where there is no search. -/
def Counted (t : RoutingTable) : Prop := ∀ dst, ∀ rt ∈ t dst, rt.flag ≠ .inSearch → rt.reqCount = 0

/-- Searches are left as they are, or end. -/
structure SearchesKept (t t' : RoutingTable) : Prop where
  requests : ∀ dst, t'.requests dst = none ∨ t'.requests dst = t.requests dst
  counted : t.Counted → t'.Counted

variable {t t' t'' : RoutingTable} {now : ℤ} {period : ℕ} {dst : Ipv4Address} {rt rt' : RoutingTableEntry}

theorem requests_eq_some {count : ℕ} :
    t.requests dst = some count ↔ ∃ rt, t dst = some rt ∧ rt.flag = .inSearch ∧ rt.reqCount = count := by
  rw [requests, Option.map_eq_some_iff]
  simp only [Option.filter_eq_some_iff, decide_eq_true_eq, and_assoc]

theorem requests_eq_none : t.requests dst = none ↔ ∀ rt ∈ t dst, rt.flag ≠ .inSearch := by
  rw [requests, Option.map_eq_none_iff, Option.filter_eq_none_iff]
  simp only [decide_eq_true_eq, ne_eq, Option.mem_def]

theorem SearchesKept.refl (t : RoutingTable) : SearchesKept t t := ⟨fun _ => .inr rfl, id⟩

theorem SearchesKept.trans (h : SearchesKept t t') (h' : SearchesKept t' t'') : SearchesKept t t'' := by
  refine ⟨fun dst => ?_, fun hcounted => h'.counted (h.counted hcounted)⟩
  rcases h'.requests dst with hnone | hsame
  · exact .inl hnone
  · rw [hsame]
    exact h.requests dst

/-- What each entry becomes decides: one in search was so before, with the same count. -/
theorem SearchesKept.of_entries
    (h : ∀ dst, ∀ rt' ∈ t' dst, (rt'.flag = .inSearch ∧ t.requests dst = some rt'.reqCount) ∨
      (rt'.flag ≠ .inSearch ∧ (t.Counted → rt'.reqCount = 0))) : SearchesKept t t' := by
  refine ⟨fun dst => ?_, fun hcounted dst rt' hrt' hflag => ?_⟩
  · cases hrequests : t'.requests dst with
    | none => exact .inl rfl
    | some count =>
      obtain ⟨rt', hrt', hsearch, rfl⟩ := requests_eq_some.mp hrequests
      rcases h dst rt' hrt' with ⟨-, hsame⟩ | ⟨hflag, -⟩
      · exact .inr hsame.symm
      · exact absurd hsearch hflag
  · rcases h dst rt' hrt' with ⟨hsearch, -⟩ | ⟨-, hzero⟩
    · exact absurd hsearch hflag
    · exact hzero hcounted

theorem searchesKept_entry (h : rt ∈ t dst) : (rt.flag = .inSearch ∧ t.requests dst = some rt.reqCount) ∨
    (rt.flag ≠ .inSearch ∧ (t.Counted → rt.reqCount = 0)) := by
  by_cases hflag : rt.flag = .inSearch
  · exact .inl ⟨hflag, requests_eq_some.mpr ⟨rt, h, hflag, rfl⟩⟩
  · exact .inr ⟨hflag, fun hcounted => hcounted dst rt h hflag⟩

theorem searchesKept_purge (t : RoutingTable) (now : ℤ) (period : ℕ) : SearchesKept t (t.purge now period) := by
  refine .of_entries fun dst rt' hrt' => ?_
  obtain ⟨rt, hrt, hpurge⟩ := Option.bind_eq_some_iff.mp hrt'
  rw [RoutingTableEntry.purge] at hpurge
  split_ifs at hpurge with hexpired
  · cases hflag : rt.flag with
    | invalid =>
      rw [hflag] at hpurge
      cases hpurge
    | valid =>
      simp only [hflag, RoutingTableEntry.invalidate, Option.some.injEq] at hpurge
      rw [if_neg (by simp)] at hpurge
      subst hpurge
      exact .inr ⟨by simp, fun _ => rfl⟩
    | inSearch =>
      simp only [hflag, Option.some.injEq] at hpurge
      exact hpurge ▸ searchesKept_entry hrt
  · exact Option.some.inj hpurge ▸ searchesKept_entry hrt

/-- A search that is purged is left as it is. -/
theorem requests_purge (t : RoutingTable) (now : ℤ) (period : ℕ) (dst : Ipv4Address) :
    (t.purge now period).requests dst = t.requests dst := by
  rcases (searchesKept_purge t now period).requests dst with hnone | hsame
  · cases hrequests : t.requests dst with
    | none => exact hnone
    | some count =>
      obtain ⟨rt, hrt, hsearch, -⟩ := requests_eq_some.mp hrequests
      have hpurge : t.purge now period dst = some rt := by
        rw [purge, hrt, Option.bind_some, RoutingTableEntry.purge, hsearch]
        split_ifs <;> rfl
      exact absurd hsearch (requests_eq_none.mp hnone rt hpurge)
  · exact hsame

theorem stored_of_inSearch (h : rt.flag = .inSearch) : rt.stored = rt := by
  rw [RoutingTableEntry.stored, if_pos h]

theorem reqCount_stored_of_ne (h : rt.flag ≠ .inSearch) : rt.stored.reqCount = 0 := by
  rw [RoutingTableEntry.stored, if_neg h]

/-- An entry is stored. -/
theorem searchesKept_set (h : rt'.flag = .inSearch → t.requests dst = some rt'.reqCount) :
    SearchesKept t (Function.update t dst (some rt'.stored)) := by
  refine .of_entries fun dst' rt hrt => ?_
  by_cases hdst : dst' = dst
  · subst hdst
    rw [Function.update_self] at hrt
    cases hrt
    rw [flag_stored]
    by_cases hflag : rt'.flag = .inSearch
    · rw [stored_of_inSearch hflag]
      exact .inl ⟨hflag, h hflag⟩
    · exact .inr ⟨hflag, fun _ => reqCount_stored_of_ne hflag⟩
  · rw [Function.update_of_ne hdst] at hrt
    exact searchesKept_entry hrt

/-- There is no search after an entry is stored that is not in search. -/
theorem requests_set_of_ne (h : rt.flag ≠ .inSearch) :
    RoutingTable.requests (Function.update t dst (some rt.stored)) dst = none := by
  rw [requests_eq_none, Function.update_self]
  intro rt' hrt'
  cases hrt'
  rwa [flag_stored]

theorem searchesKept_update (h : rt'.flag = .inSearch → t.requests dst = some rt'.reqCount) :
    SearchesKept t (t.update dst rt') := by
  rw [update]
  split_ifs
  · exact searchesKept_set h
  · exact .refl t

theorem searchesKept_update_of_eq (hrt : t dst = some rt) (hflag : rt'.flag = rt.flag)
    (hcount : rt'.reqCount = rt.reqCount) : SearchesKept t (t.update dst rt') :=
  searchesKept_update fun hsearch => requests_eq_some.mpr ⟨rt, hrt, hflag.symm.trans hsearch, hcount.symm⟩

theorem searchesKept_update_valid (h : rt'.flag = .valid) : SearchesKept t (t.update dst rt') :=
  searchesKept_update fun hsearch => by simp [h] at hsearch

theorem searchesKept_addRoute_valid (h : rt'.flag = .valid) : SearchesKept t (t.addRoute dst rt') := by
  rw [addRoute]
  split_ifs
  · exact .refl t
  · exact searchesKept_set fun hsearch => by simp [h] at hsearch

theorem searchesKept_deleteRoute (t : RoutingTable) (dst : Ipv4Address) : SearchesKept t (t.deleteRoute dst) := by
  refine .of_entries fun dst' rt hrt => ?_
  by_cases hdst : dst' = dst
  · subst hdst
    rw [deleteRoute, Function.update_self] at hrt
    cases hrt
  · rw [deleteRoute, Function.update_of_ne hdst] at hrt
    exact searchesKept_entry hrt

theorem searchesKept_invalidateRoutesWithDst {Unreachable : Ipv4Address → Prop} [DecidablePred Unreachable] :
    SearchesKept t (t.invalidateRoutesWithDst now period Unreachable) := by
  refine .of_entries fun dst rt' hrt' => ?_
  obtain ⟨rt, hrt, rfl⟩ := Option.map_eq_some_iff.mp hrt'
  split_ifs with hunreachable
  · rw [RoutingTableEntry.invalidate, if_neg (by simp [hunreachable.2])]
    exact .inr ⟨by simp, fun _ => rfl⟩
  · exact searchesKept_entry hrt

end RoutingTable

namespace RoutingProtocol

open RoutingTable

variable (attrs : Attributes) (now : ℤ) (n : RoutingProtocol)

theorem searchesKept_purge : SearchesKept n.routingTable (n.purge attrs now).routingTable :=
  RoutingTable.searchesKept_purge _ _ _

theorem routingTable_isDuplicate (addr : Ipv4Address) (id : UInt32) :
    (n.isDuplicate attrs now addr id).2.routingTable = n.routingTable := by
  rw [isDuplicate]
  split_ifs <;> rfl

theorem searchesKept_updateRouteLifeTime (addr : Ipv4Address) (lifeTime : ℕ) :
    SearchesKept n.routingTable (n.updateRouteLifeTime attrs now addr lifeTime).routingTable := by
  refine (n.searchesKept_purge attrs now).trans ?_
  rw [updateRouteLifeTime]
  split
  case h_1 => exact .refl _
  case h_2 rt hrt =>
    obtain ⟨hrt, -⟩ := Option.filter_eq_some_iff.mp hrt
    exact searchesKept_update_of_eq hrt rfl rfl

theorem searchesKept_updateRouteToNeighbor (sender : Ipv4Address) (receiver : Interface) :
    SearchesKept n.routingTable (n.updateRouteToNeighbor attrs now sender receiver).routingTable := by
  refine (n.searchesKept_purge attrs now).trans ?_
  rw [updateRouteToNeighbor]
  split
  case h_1 => exact searchesKept_addRoute_valid rfl
  case h_2 =>
    split_ifs
    · exact .refl _
    · exact searchesKept_update_valid rfl

theorem searchesKept_reverseRoute (h : RreqHeader) (hop : ℕ) (receiver : Interface) (src : Ipv4Address) :
    SearchesKept n.routingTable (n.reverseRoute attrs now h hop receiver src).routingTable := by
  refine (n.searchesKept_purge attrs now).trans ?_
  rw [reverseRoute]
  split
  case h_1 => exact searchesKept_addRoute_valid rfl
  case h_2 rt hrt => exact searchesKept_update_of_eq hrt rfl rfl

theorem searchesKept_answerRequest (h : RreqHeader) (src : Ipv4Address) :
    SearchesKept n.routingTable (n.answerRequest attrs now h src).1.routingTable := by
  refine (n.searchesKept_purge attrs now).trans ?_
  rw [answerRequest]
  split
  case h_1 => exact .refl _
  case h_2 =>
    split_ifs
    · exact .refl _
    · split
      case h_1 => exact .refl _
      case h_2 => split_ifs <;> exact .refl _

theorem searchesKept_recvRequest (h : RreqHeader) (receiver : Interface) (src : Ipv4Address) :
    SearchesKept n.routingTable (n.recvRequest attrs now h receiver src).1.routingTable := by
  refine (n.searchesKept_purge attrs now).trans ?_
  rw [recvRequest]
  dsimp only
  split_ifs
  · exact .refl _
  · rw [routingTable_isDuplicate]
    exact .refl _
  · refine SearchesKept.trans ?_ (searchesKept_answerRequest _ _ _ _ _)
    refine SearchesKept.trans ?_ (searchesKept_reverseRoute _ _ _ _ _ _ _)
    rw [routingTable_isDuplicate]
    exact .refl _

theorem searchesKept_processHello (h : RrepHeader) (receiver : Interface) :
    SearchesKept n.routingTable (n.processHello attrs now h receiver).routingTable := by
  refine (n.searchesKept_purge attrs now).trans ?_
  rw [processHello]
  split
  case h_1 => exact searchesKept_addRoute_valid rfl
  case h_2 => exact searchesKept_update_valid rfl

theorem searchesKept_forwardRoute (h : RrepHeader) (hop : ℕ) (receiver : Interface) (sender : Ipv4Address) :
    SearchesKept n.routingTable (n.forwardRoute now h hop receiver sender).routingTable := by
  rw [forwardRoute]
  split
  case h_1 => exact searchesKept_addRoute_valid rfl
  case h_2 =>
    split_ifs
    · exact searchesKept_update_valid rfl
    · exact .refl _

theorem searchesKept_forwardReply (h : RrepHeader) :
    SearchesKept n.routingTable (n.forwardReply attrs now h).1.routingTable := by
  refine (n.searchesKept_purge attrs now).trans ?_
  rw [forwardReply]
  dsimp only
  split_ifs
  · exact .refl _
  · split
    case h_1 => exact .refl _
    case h_2 rt hrt =>
      split_ifs
      · exact .refl _
      · exact searchesKept_update_of_eq hrt rfl rfl

theorem searchesKept_recvReply (h : RrepHeader) (receiver : Interface) (sender : Ipv4Address) :
    SearchesKept n.routingTable (n.recvReply attrs now h receiver sender).1.routingTable := by
  rw [recvReply]
  dsimp only
  split_ifs
  · exact n.searchesKept_processHello attrs now h receiver
  · exact ((n.searchesKept_purge attrs now).trans (searchesKept_forwardRoute _ _ _ _ _ _)).trans
      (searchesKept_forwardReply _ _ _ _)
  · exact ((n.searchesKept_purge attrs now).trans (searchesKept_forwardRoute _ _ _ _ _ _)).trans
      (searchesKept_forwardReply _ _ _ _)

theorem searchesKept_recvReplyAck (neighbor : Ipv4Address) :
    SearchesKept n.routingTable (n.recvReplyAck attrs now neighbor).routingTable := by
  refine (n.searchesKept_purge attrs now).trans ?_
  rw [recvReplyAck]
  split
  case h_1 => exact .refl _
  case h_2 => exact searchesKept_update_valid rfl

theorem searchesKept_recvError (unreachable : List Ipv4Address) (src : Ipv4Address) :
    SearchesKept n.routingTable (n.recvError attrs now unreachable src).routingTable :=
  (n.searchesKept_purge attrs now).trans searchesKept_invalidateRoutesWithDst

theorem searchesKept_breakLink (nextHop : Ipv4Address) :
    SearchesKept n.routingTable (n.breakLink attrs now nextHop).routingTable := by
  refine (n.searchesKept_purge attrs now).trans ?_
  rw [breakLink]
  split_ifs
  · exact searchesKept_invalidateRoutesWithDst
  · exact .refl _

theorem searchesKept_recvAodv (message : Message) (receiver : Interface) (sender : Ipv4Address) :
    SearchesKept n.routingTable (n.recvAodv attrs now message receiver sender).1.routingTable := by
  refine (n.searchesKept_updateRouteToNeighbor attrs now sender receiver).trans ?_
  cases message with
  | rreq h => exact searchesKept_recvRequest _ _ _ _ _ _
  | rrep h => exact searchesKept_recvReply _ _ _ _ _ _
  | rrepAck => exact searchesKept_recvReplyAck _ _ _ _

/-! ### Requests -/

theorem routingTable_sendRequest (dst : Ipv4Address) :
    (n.sendRequest attrs now dst).1.routingTable = ((n.purge attrs now).searchRoute now dst).routingTable := by
  have hcache : ∀ (interfaces : List Interface) (n : RoutingProtocol), (interfaces.foldl
      (fun n iface => (n.isDuplicate attrs now iface.localAddress n.requestId).2) n).routingTable = n.routingTable := by
    intro interfaces
    induction interfaces with
    | nil => exact fun _ => rfl
    | cons iface interfaces ih =>
      intro n
      rw [List.foldl_cons, ih, routingTable_isDuplicate]
  rw [sendRequest]
  dsimp only
  rw [hcache]

theorem routingTable_searchRoute_of_ne {dst dst' : Ipv4Address} (h : dst' ≠ dst) :
    (n.searchRoute now dst).routingTable dst' = n.routingTable dst' := by
  rw [searchRoute]
  split
  case h_1 rt hrt =>
    rw [update, update_eq hrt]
    exact Function.update_of_ne h _ _
  case h_2 hrt =>
    rw [addRoute, addRoute_eq hrt]
    exact Function.update_of_ne h _ _

/-- `SendRequest` counts one request more, from none if there was no search. -/
theorem requests_searchRoute (hcounted : n.routingTable.Counted) (dst : Ipv4Address) :
    (n.searchRoute now dst).routingTable.requests dst =
      some (((n.routingTable.requests dst).getD 0 + 1) % 256) := by
  rw [searchRoute]
  split
  case h_1 rt hrt =>
    have hcount : (n.routingTable.requests dst).getD 0 = rt.reqCount := by
      by_cases hflag : rt.flag = .inSearch
      · rw [requests_eq_some.mpr ⟨rt, hrt, hflag, rfl⟩, Option.getD_some]
      · rw [requests_eq_none.mpr, Option.getD_none, hcounted dst rt hrt hflag]
        intro rt' hrt'
        obtain rfl := Option.some.inj (hrt.symm.trans hrt')
        exact hflag
    rw [hcount, update, update_eq hrt, stored_of_inSearch rfl]
    exact requests_eq_some.mpr ⟨_, Function.update_self .., rfl, rfl⟩
  case h_2 hrt =>
    have hnone : n.routingTable.requests dst = none := by
      rw [RoutingTable.requests, hrt, Option.filter_none, Option.map_none]
    rw [hnone, addRoute, addRoute_eq hrt, stored_of_inSearch rfl]
    exact requests_eq_some.mpr ⟨_, Function.update_self .., rfl, rfl⟩

theorem counted_searchRoute (hcounted : n.routingTable.Counted) (dst : Ipv4Address) :
    (n.searchRoute now dst).routingTable.Counted := by
  intro dst' rt hrt hflag
  by_cases hdst : dst' = dst
  · subst hdst
    obtain ⟨rt', hrt', hsearch, -⟩ := requests_eq_some.mp (n.requests_searchRoute now hcounted dst')
    obtain rfl := Option.some.inj (hrt.symm.trans hrt')
    exact absurd hsearch hflag
  · rw [routingTable_searchRoute_of_ne _ _ hdst] at hrt
    exact hcounted dst' rt hrt hflag

end RoutingProtocol

end Ns3.Aodv
