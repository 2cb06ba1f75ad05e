import Ns3.Aodv.RoutingProtocol

/-!
# What the handlers of AODV do to routes

Of an entry the destination sequence number, the hop count and the next hop say which route it is. Each handler purges
the table when it begins, and the tables that it has after that are `Purged`: purging them again changes nothing, or, in
`RecvRequest`, no route.

* `routes_updateRouteToNeighbor`, `routes_recvRequest`, `routes_recvReply`, … — the routes that each handler leaves.
-/

namespace Ns3.Aodv

/-- The route of an entry. -/
structure Route where
  validSeqNo : Bool
  seqNo : UInt32
  hops : ℕ
  nextHop : Ipv4Address
  deriving DecidableEq

/-- The route of an entry. -/
def RoutingTableEntry.route (rt : RoutingTableEntry) : Route := ⟨rt.validSeqNo, rt.seqNo, rt.hops, rt.nextHop⟩

namespace RoutingTable

/-- The routes in a table. -/
def routes (t : RoutingTable) : Ipv4Address → Option Route := fun dst => (t dst).map RoutingTableEntry.route

variable {t : RoutingTable} {now : ℤ} {period : ℕ} {dst : Ipv4Address} {rt : RoutingTableEntry}

/-- Nothing in the table has expired, apart from what is searched for. -/
def Purged (t : RoutingTable) (now : ℤ) : Prop := ∀ dst rt, t dst = some rt → now ≤ rt.lifeTime ∨ rt.flag = .inSearch

/-- Nothing in the table is to be deleted. -/
def Kept (t : RoutingTable) (now : ℤ) : Prop := ∀ dst rt, t dst = some rt → rt.flag = .invalid → now ≤ rt.lifeTime

theorem Purged.kept (h : Purged t now) : Kept t now := by
  intro dst rt hrt hflag
  rcases h dst rt hrt with hle | hsearch
  · exact hle
  · exact absurd (hflag.symm.trans hsearch) (by simp)

theorem purge_eq_some {rt' : RoutingTableEntry} (h : rt.purge now period = some rt') :
    rt'.route = rt.route ∧ rt'.iface = rt.iface ∧ (rt'.flag = rt.flag ∨ rt'.flag = .invalid) ∧
      (now ≤ rt'.lifeTime ∨ rt'.flag = .inSearch) := by
  rw [RoutingTableEntry.purge, RoutingTableEntry.getLifeTime] at h
  split_ifs at h with hlt
  · cases hflag : rt.flag with
    | invalid => simp [hflag] at h
    | valid =>
      simp only [hflag, RoutingTableEntry.invalidate, Option.some.injEq] at h
      rw [if_neg (by simp)] at h
      subst h
      exact ⟨rfl, rfl, .inr rfl, .inl (by simp)⟩
    | inSearch =>
      simp only [hflag, Option.some.injEq] at h
      subst h
      exact ⟨rfl, rfl, .inl hflag, .inr hflag⟩
  · cases h
    exact ⟨rfl, rfl, .inl rfl, .inl (by omega)⟩

theorem purged_purge (t : RoutingTable) (now : ℤ) (period : ℕ) : Purged (t.purge now period) now := by
  intro dst rt hrt
  obtain ⟨rt₀, -, hpurge⟩ := Option.bind_eq_some_iff.mp hrt
  exact (purge_eq_some hpurge).2.2.2

theorem purge_eq_self (h : Purged t now) : t.purge now period = t := by
  funext dst
  rw [purge]
  cases hrt : t dst with
  | none => rfl
  | some rt =>
    rw [Option.bind_some, RoutingTableEntry.purge, RoutingTableEntry.getLifeTime]
    split_ifs with hlt
    · rcases h dst rt hrt with hle | hsearch
      · omega
      · rw [hsearch]
    · rfl

/-- Purging a table from which nothing is to be deleted leaves the routes. -/
theorem routes_purge (h : Kept t now) : (t.purge now period).routes = t.routes := by
  funext dst
  rw [routes, routes, purge]
  cases hrt : t dst with
  | none => rfl
  | some rt =>
    rw [Option.bind_some]
    cases hpurge : rt.purge now period with
    | none =>
      rw [RoutingTableEntry.purge, RoutingTableEntry.getLifeTime] at hpurge
      split_ifs at hpurge with hlt
      cases hflag : rt.flag with
      | invalid =>
        have hle := h dst rt hrt hflag
        omega
      | valid => simp [hflag] at hpurge
      | inSearch => simp [hflag] at hpurge
    | some rt' => rw [Option.map_some, Option.map_some, (purge_eq_some hpurge).1]

@[simp] theorem route_stored (rt : RoutingTableEntry) : rt.stored.route = rt.route := by
  rw [RoutingTableEntry.stored]
  split_ifs <;> rfl

@[simp] theorem lifeTime_stored (rt : RoutingTableEntry) : rt.stored.lifeTime = rt.lifeTime := by
  rw [RoutingTableEntry.stored]
  split_ifs <;> rfl

@[simp] theorem flag_stored (rt : RoutingTableEntry) : rt.stored.flag = rt.flag := by
  rw [RoutingTableEntry.stored]
  split_ifs <;> rfl

theorem routes_set (t : RoutingTable) (dst : Ipv4Address) (rt : RoutingTableEntry) :
    routes (Function.update t dst (some rt.stored)) = Function.update t.routes dst (some rt.route) := by
  funext dst'
  by_cases h : dst' = dst
  · subst h
    simp [routes]
  · simp [routes, h]

theorem addRoute_eq (h : t dst = none) : t.addRoute dst rt = Function.update t dst (some rt.stored) := by
  rw [addRoute, h]
  rfl

theorem update_eq {rt₀ : RoutingTableEntry} (h : t dst = some rt₀) :
    t.update dst rt = Function.update t dst (some rt.stored) := by
  rw [update, h]
  rfl

theorem Purged.set (h : Purged t now) (hrt : now ≤ rt.lifeTime ∨ rt.flag = .inSearch) :
    Purged (Function.update t dst (some rt.stored)) now := by
  intro dst' rt' hrt'
  by_cases hdst : dst' = dst
  · subst hdst
    rw [Function.update_self] at hrt'
    cases hrt'
    simpa using hrt
  · rw [Function.update_of_ne hdst] at hrt'
    exact h dst' rt' hrt'

end RoutingTable

namespace RoutingProtocol

open RoutingTable

/-- The routes of a node. -/
def routes (n : RoutingProtocol) : Ipv4Address → Option Route := n.routingTable.routes

variable {attrs : Attributes} {now : ℤ} {n : RoutingProtocol} {receiver : Interface} {sender dst : Ipv4Address}

theorem purge_eq_self (h : Purged n.routingTable now) : n.purge attrs now = n := by
  rw [purge, RoutingTable.purge_eq_self h]

theorem purged_purge (n : RoutingProtocol) (attrs : Attributes) (now : ℤ) :
    Purged (n.purge attrs now).routingTable now :=
  RoutingTable.purged_purge _ _ _

/-- The entry for the neighbour stays as it is. -/
def KeepsNeighbor (n : RoutingProtocol) (receiver : Interface) (sender : Ipv4Address) : Prop :=
  ∃ rt, n.routingTable sender = some rt ∧ rt.validSeqNo = true ∧ rt.hops = 1 ∧ rt.iface = some receiver

/-- `UpdateRouteToNeighbor` keeps the neighbour's entry or makes a route without a number of it. -/
theorem updateRouteToNeighbor_spec (n : RoutingProtocol) (attrs : Attributes) (now : ℤ) (receiver : Interface)
    (sender : Ipv4Address) :
    Purged (n.updateRouteToNeighbor attrs now sender receiver).routingTable now ∧
      ((n.purge attrs now).KeepsNeighbor receiver sender ∧
          n.updateRouteToNeighbor attrs now sender receiver = n.purge attrs now ∨
        ¬ (n.purge attrs now).KeepsNeighbor receiver sender ∧
          ∃ rt : RoutingTableEntry, rt.route = ⟨false, 0, 1, sender⟩ ∧ rt.flag = .valid ∧ rt.blackListState = false ∧
            n.updateRouteToNeighbor attrs now sender receiver = { n.purge attrs now with
              routingTable := Function.update (n.purge attrs now).routingTable sender (some rt.stored) }) := by
  have hpurged := n.purged_purge attrs now
  rw [updateRouteToNeighbor]
  generalize n.purge attrs now = n₁ at hpurged ⊢
  cases hrt : n₁.routingTable sender with
  | none =>
    dsimp only
    rw [addRoute, addRoute_eq hrt]
    refine ⟨hpurged.set (.inl (by simp [RoutingTableEntry.new])), .inr ⟨?_, _, rfl, rfl, rfl, rfl⟩⟩
    rintro ⟨rt, hrt', -⟩
    cases hrt.symm.trans hrt'
  | some rt =>
    dsimp only
    split_ifs with hkeeps
    · exact ⟨hpurged, .inl ⟨⟨rt, hrt, hkeeps⟩, rfl⟩⟩
    · rw [update, update_eq hrt]
      refine ⟨hpurged.set (.inl ?_), .inr ⟨?_, _, rfl, rfl, rfl, rfl⟩⟩
      · simp only [RoutingTableEntry.new]
        omega
      · rintro ⟨rt', hrt', hkeeps'⟩
        obtain rfl := Option.some.inj (hrt.symm.trans hrt')
        exact hkeeps hkeeps'

variable (attrs)

/-! ### Requests -/

/-- The number of the reverse route. -/
def reverseSeqNo (r : Option Route) (originSeqno : UInt32) : UInt32 :=
  match r with
  | some r => if r.validSeqNo = true ∧ ¬ Newer originSeqno r.seqNo then r.seqNo else originSeqno
  | none => originSeqno

theorem reverseRoute_spec (hpurged : Purged n.routingTable now) (h : RreqHeader) (hop : ℕ) (receiver : Interface)
    (src : Ipv4Address) : ∃ t : RoutingTable,
      n.reverseRoute attrs now h hop receiver src = { n with routingTable := t } ∧ Kept t now ∧
        t.routes = Function.update n.routes h.origin
          (some ⟨true, reverseSeqNo (n.routes h.origin) h.originSeqno, hop, src⟩) := by
  rw [reverseRoute, purge_eq_self hpurged, routes, RoutingTable.routes]
  cases hrt : n.routingTable h.origin with
  | none =>
    refine ⟨_, rfl, fun dst rt hrt' hflag => ?_, ?_⟩
    · rw [addRoute_eq hrt] at hrt'
      by_cases hdst : dst = h.origin
      · subst hdst
        rw [Function.update_self] at hrt'
        cases hrt'
        simp [RoutingTableEntry.new] at hflag
      · rw [Function.update_of_ne hdst] at hrt'
        exact hpurged.kept dst rt hrt' hflag
    · rw [addRoute_eq hrt, routes_set]
      rfl
  | some rt =>
    refine ⟨_, rfl, ?_, ?_⟩
    · rw [update_eq hrt]
      refine (hpurged.set ?_).kept
      rcases hpurged _ rt hrt with hle | hsearch
      · refine .inl ?_
        simp only [toOrigin, RoutingTableEntry.getLifeTime]
        omega
      · exact .inr hsearch
    · rw [update_eq hrt, routes_set]
      rfl

/-- `RecvRequest` ignores the request: its sender is in the blacklist, or it has come before. -/
def Ignores (n : RoutingProtocol) (now : ℤ) (h : RreqHeader) (src : Ipv4Address) : Prop :=
  ((n.routingTable src).any fun toPrev => toPrev.blackListState) = true ∨
    (n.rreqIdCache.filter fun x => now ≤ x.2.2).any (fun x => x.1 = h.origin && x.2.1 = h.id) = true

/-- What the packets say that are sent in answer to a request: about the origin, or about the destination. -/
def Answers (n n' : RoutingProtocol) (h : RreqHeader) (hop : ℕ) (packet : Packet) : Prop :=
  n.IsMyOwnAddress packet.sender ∧
    ((∃ h' : RreqHeader, packet.message = .rreq h' ∧ h'.hopCount = hop ∧ h'.origin = h.origin ∧
        h'.originSeqno = h.originSeqno) ∨
      (∃ h' : RrepHeader, packet.message = .rrep h' ∧ n.IsMyOwnAddress h'.dst ∧ h'.hopCount = 0 ∧
        h'.dstSeqno = n'.seqNo) ∨
      ∃ (h' : RrepHeader) (r : Route), packet.message = .rrep h' ∧ n'.routes h'.dst = some r ∧ r.validSeqNo = true ∧
        h'.hopCount = r.hops % 256 ∧ h'.dstSeqno = r.seqNo)

theorem mem_sendFrom {rt : RoutingTableEntry} {destination : Ipv4Address} {message : Message} {packet : Packet}
    (h : packet ∈ n.sendFrom rt destination message) : n.IsMyOwnAddress packet.sender ∧ packet.message = message := by
  obtain ⟨iface, hiface, rfl⟩ := List.mem_map.mp h
  have hmem := (Option.mem_filter_iff.mp (Option.mem_toList.mp hiface)).2
  exact ⟨⟨iface, of_decide_eq_true hmem, rfl⟩, rfl⟩

theorem mem_broadcast {message : Interface → Message} {packet : Packet} (h : packet ∈ n.broadcast message) :
    ∃ iface ∈ n.interfaces, packet = ⟨iface.localAddress, none, message iface⟩ := by
  obtain ⟨iface, hiface, rfl⟩ := List.mem_map.mp h
  exact ⟨iface, hiface, rfl⟩

/-- When the reverse route is there, no route is changed by the answer. -/
theorem answerRequest_spec (hkept : Kept n.routingTable now) (h : RreqHeader) (src : Ipv4Address)
    (horigin : ∃ r, n.routes h.origin = some r ∧ r.validSeqNo = true) :
    (n.answerRequest attrs now h src).1.routes = n.routes ∧
      (n.answerRequest attrs now h src).1.interfaces = n.interfaces ∧
      ((n.answerRequest attrs now h src).1.seqNo = n.seqNo ∨ (n.answerRequest attrs now h src).1.seqNo = n.seqNo + 1) ∧
        ∀ packet ∈ (n.answerRequest attrs now h src).2,
          Answers n (n.answerRequest attrs now h src).1 h h.hopCount packet := by
  have hroutes : (n.purge attrs now).routes = n.routes := routes_purge hkept
  have hrequest : ∀ (n' : RoutingProtocol) (h' : RreqHeader), h'.hopCount = h.hopCount → h'.origin = h.origin →
      h'.originSeqno = h.originSeqno → ∀ packet ∈ (n.purge attrs now).broadcast fun _ => .rreq h',
        Answers n n' h h.hopCount packet := by
    intro n' h' hhop horigin' hseq packet hpacket
    obtain ⟨iface, hiface, rfl⟩ := mem_broadcast hpacket
    exact ⟨⟨iface, hiface, rfl⟩, .inl ⟨h', rfl, hhop, horigin', hseq⟩⟩
  rw [answerRequest]
  rw [← hroutes] at horigin ⊢
  obtain ⟨r, hr, hvalid⟩ := horigin
  have hmine : ∀ addr, (n.purge attrs now).IsMyOwnAddress addr ↔ n.IsMyOwnAddress addr := fun _ => Iff.rfl
  have hinterfaces : (n.purge attrs now).interfaces = n.interfaces := rfl
  have hseqNo : (n.purge attrs now).seqNo = n.seqNo := rfl
  rw [← hinterfaces, ← hseqNo]
  generalize n.purge attrs now = n₁ at hr hrequest hmine ⊢
  obtain ⟨toOrigin, htoOrigin, rfl⟩ := Option.map_eq_some_iff.mp hr
  have hnone : ∀ packet ∈ ([] : List Packet), Answers n n₁ h h.hopCount packet := fun _ hp => absurd hp List.not_mem_nil
  simp only [htoOrigin]
  split_ifs with howns
  · refine ⟨rfl, rfl, ?_, fun packet hpacket => ?_⟩
    · simp only [sendReply]
      split_ifs
      · exact .inr rfl
      · exact .inl rfl
    · obtain ⟨hsender, hmessage⟩ := mem_sendFrom hpacket
      exact ⟨(hmine _).mp hsender, .inr (.inl ⟨_, hmessage, (hmine _).mp howns, rfl, rfl⟩)⟩
  · cases htoDst : n₁.routingTable h.dst with
    | none => exact ⟨rfl, rfl, .inl rfl, hrequest _ h rfl rfl rfl⟩
    | some toDst =>
      dsimp only
      split_ifs with hback hfresh hreply
      · exact ⟨rfl, rfl, .inl rfl, hnone⟩
      · refine ⟨rfl, rfl, .inl rfl, fun packet hpacket => ?_⟩
        have hknown : ∀ {dst : Ipv4Address} {rt : RoutingTableEntry}, n₁.routingTable dst = some rt →
            n₁.routes dst = some rt.route := fun hrt => by rw [routes, RoutingTable.routes, hrt, Option.map_some]
        rcases List.mem_append.mp hpacket with hpacket | hpacket
        · obtain ⟨hsender, hmessage⟩ := mem_sendFrom hpacket
          exact ⟨(hmine _).mp hsender, .inr (.inr ⟨_, _, hmessage, hknown htoDst, hfresh.2, rfl, rfl⟩)⟩
        · split_ifs at hpacket with hgratuitous
          · obtain ⟨hsender, hmessage⟩ := mem_sendFrom hpacket
            exact ⟨(hmine _).mp hsender, .inr (.inr ⟨_, _, hmessage, hknown htoOrigin, hvalid, rfl, rfl⟩)⟩
          · exact absurd hpacket List.not_mem_nil
      · exact ⟨rfl, rfl, .inl rfl, hrequest _ _ rfl rfl rfl⟩
      · exact ⟨rfl, rfl, .inl rfl, hrequest _ h rfl rfl rfl⟩

/-- `RecvRequest` makes the reverse route, unless it ignores the request. -/
theorem recvRequest_spec (hpurged : Purged n.routingTable now) (h : RreqHeader) (receiver : Interface)
    (src : Ipv4Address) :
    let x := n.recvRequest attrs now h receiver src
    let hop := (h.hopCount + 1) % 256
    x.1.interfaces = n.interfaces ∧ (x.1.seqNo = n.seqNo ∨ x.1.seqNo = n.seqNo + 1) ∧
      (n.Ignores now h src ∧ x.1.routes = n.routes ∧ x.2 = [] ∨
        ¬ n.Ignores now h src ∧
          x.1.routes = Function.update n.routes h.origin
            (some ⟨true, reverseSeqNo (n.routes h.origin) h.originSeqno, hop, src⟩) ∧
          ∀ packet ∈ x.2, Answers n x.1 h hop packet) := by
  intro x hop
  by_cases hblack : ((n.routingTable src).any fun toPrev => toPrev.blackListState) = true
  · have hx : x = (n, []) := by
      simp only [x, recvRequest, purge_eq_self hpurged]
      rw [if_pos hblack]
    rw [hx]
    exact ⟨rfl, .inl rfl, .inl ⟨.inl hblack, rfl, rfl⟩⟩
  by_cases hduplicate : (n.rreqIdCache.filter fun x => now ≤ x.2.2).any (fun x => x.1 = h.origin && x.2.1 = h.id) = true
  · have hx : x = ({ n with rreqIdCache := n.rreqIdCache.filter fun x => now ≤ x.2.2 }, []) := by
      simp only [x, recvRequest, purge_eq_self hpurged, isDuplicate]
      rw [if_neg hblack, if_pos hduplicate, if_pos rfl]
    rw [hx]
    exact ⟨rfl, .inl rfl, .inl ⟨.inr hduplicate, rfl, rfl⟩⟩
  · obtain ⟨n₁, hn₁, hx⟩ : ∃ n₁ : RoutingProtocol,
        (n₁.routingTable = n.routingTable ∧ n₁.interfaces = n.interfaces ∧ n₁.seqNo = n.seqNo) ∧
        x = (n₁.reverseRoute attrs now h hop receiver src).answerRequest attrs now { h with hopCount := hop } src := by
      refine ⟨{ n with rreqIdCache := (n.rreqIdCache.filter fun x => now ≤ x.2.2) ++
        [(h.origin, h.id, attrs.pathDiscoveryTime + now)] }, ⟨rfl, rfl, rfl⟩, ?_⟩
      simp only [x, hop, recvRequest, purge_eq_self hpurged, isDuplicate]
      rw [if_neg hblack, if_neg hduplicate, if_neg Bool.false_ne_true]
    obtain ⟨htable, hinterfaces, hseqNo⟩ := hn₁
    obtain ⟨t, hreverse, hkept, hroutes⟩ :=
      reverseRoute_spec attrs (n := n₁) (by rw [htable]; exact hpurged) h hop receiver src
    have hsame : n₁.routes = n.routes := by rw [routes, routes, htable]
    rw [hreverse] at hx
    have horigin : RoutingProtocol.routes { n₁ with routingTable := t } h.origin =
        some ⟨true, reverseSeqNo (n.routes h.origin) h.originSeqno, hop, src⟩ := by
      rw [← hsame]
      exact (congrFun hroutes h.origin).trans (Function.update_self _ _ _)
    obtain ⟨hx₁, hx₂, hx₃, hx₄⟩ := answerRequest_spec attrs (n := { n₁ with routingTable := t }) hkept
      { h with hopCount := hop } src ⟨_, horigin, rfl⟩
    rw [← hx] at hx₁ hx₂ hx₃ hx₄
    refine ⟨hx₂.trans hinterfaces, hseqNo ▸ hx₃, .inr ⟨fun hignores => ?_, ?_, fun packet hpacket => ?_⟩⟩
    · rcases hignores with hb | hd
      · exact hblack hb
      · exact hduplicate hd
    · rw [hx₁, ← hsame]
      exact hroutes
    · have hanswers := hx₄ packet hpacket
      rwa [Answers, IsMyOwnAddress, hinterfaces] at hanswers

/-! ### Replies -/

/-- `RecvReply` changes the route to the destination. -/
def Forwards (n : RoutingProtocol) (h : RrepHeader) (hop : ℕ) : Prop :=
  ∀ toDst, n.routingTable h.dst = some toDst →
    Updates toDst h hop ∨ n.IsMyOwnAddress h.origin ∧ toDst.flag = .inSearch

theorem forwardRoute_spec (hpurged : Purged n.routingTable now) (h : RrepHeader) (hop : ℕ) (receiver : Interface)
    (sender : Ipv4Address) : ∃ t : RoutingTable,
      n.forwardRoute now h hop receiver sender = { n with routingTable := t } ∧ Purged t now ∧
        (n.Forwards h hop ∧ t.routes = Function.update n.routes h.dst (some ⟨true, h.dstSeqno, hop, sender⟩) ∨
          ¬ n.Forwards h hop ∧ t.routes = n.routes) := by
  have hlife : now ≤ (RoutingTableEntry.new now true h.dstSeqno (some receiver) hop sender h.getLifeTime).lifeTime := by
    simp only [RoutingTableEntry.new, RrepHeader.getLifeTime]
    omega
  rw [forwardRoute]
  cases hrt : n.routingTable h.dst with
  | none =>
    refine ⟨_, rfl, ?_, .inl ⟨fun toDst htoDst => (by cases hrt.symm.trans htoDst), ?_⟩⟩
    · rw [addRoute_eq hrt]
      exact hpurged.set (.inl hlife)
    · rw [addRoute_eq hrt, routes_set]
      rfl
  | some toDst =>
    have hiff : n.Forwards h hop ↔ Updates toDst h hop ∨ n.IsMyOwnAddress h.origin ∧ toDst.flag = .inSearch := by
      refine ⟨fun hforwards => hforwards toDst hrt, fun hupdates rt hrt' => ?_⟩
      rwa [← Option.some.inj (hrt.symm.trans hrt')]
    rw [hiff]
    dsimp only
    split_ifs with hupdates
    · refine ⟨_, rfl, ?_, .inl ⟨hupdates, ?_⟩⟩
      · rw [update_eq hrt]
        exact hpurged.set (.inl hlife)
      · rw [update_eq hrt, routes_set]
        rfl
    · exact ⟨_, rfl, hpurged, .inr ⟨hupdates, rfl⟩⟩

/-- The reply goes on as it is; no route is changed by that. -/
theorem forwardReply_spec (hpurged : Purged n.routingTable now) (h : RrepHeader) :
    (n.forwardReply attrs now h).1.routes = n.routes ∧
      (n.forwardReply attrs now h).1.interfaces = n.interfaces ∧
      (n.forwardReply attrs now h).1.seqNo = n.seqNo ∧
        ∀ packet ∈ (n.forwardReply attrs now h).2, n.IsMyOwnAddress packet.sender ∧
          packet.message = .rrep { h with ackRequired := false } := by
  rw [forwardReply, purge_eq_self hpurged]
  split_ifs with hmine
  · exact ⟨rfl, rfl, rfl, fun packet hp => absurd hp List.not_mem_nil⟩
  · dsimp only
    cases hrt : n.routingTable h.origin with
    | none => exact ⟨rfl, rfl, rfl, fun packet hp => absurd hp List.not_mem_nil⟩
    | some toOrigin =>
      dsimp only
      split_ifs with hsearch
      · exact ⟨rfl, rfl, rfl, fun packet hp => absurd hp List.not_mem_nil⟩
      · refine ⟨?_, rfl, rfl, fun packet hp => mem_sendFrom hp⟩
        rw [update, routes, update_eq hrt, routes_set]
        refine (congrArg _ ?_).trans (Function.update_eq_self h.origin n.routes)
        rw [routes, RoutingTable.routes, hrt]
        rfl

/-- The route to a neighbour that says hello. -/
def helloRoute (r : Option Route) (h : RrepHeader) : Route :=
  match r with
  | some r => ⟨true, h.dstSeqno, r.hops, r.nextHop⟩
  | none => ⟨true, h.dstSeqno, 1, h.dst⟩

theorem processHello_spec (hpurged : Purged n.routingTable now) (h : RrepHeader) (receiver : Interface) :
    (n.processHello attrs now h receiver).interfaces = n.interfaces ∧
      (n.processHello attrs now h receiver).seqNo = n.seqNo ∧
        (n.processHello attrs now h receiver).routes =
          Function.update n.routes h.dst (some (helloRoute (n.routes h.dst) h)) := by
  rw [processHello, purge_eq_self hpurged]
  cases hrt : n.routingTable h.dst with
  | none =>
    refine ⟨rfl, rfl, ?_⟩
    rw [addRoute, routes, addRoute_eq hrt, routes_set, routes, RoutingTable.routes, hrt]
    rfl
  | some toNeighbor =>
    refine ⟨rfl, rfl, ?_⟩
    dsimp only
    rw [update, routes, update_eq hrt, routes_set, routes, RoutingTable.routes, hrt]
    rfl

/-- `RecvReply`: hello messages, and replies. -/
theorem recvReply_spec (hpurged : Purged n.routingTable now) (h : RrepHeader) (receiver : Interface)
    (sender : Ipv4Address) :
    let x := n.recvReply attrs now h receiver sender
    let hop := (h.hopCount + 1) % 256
    x.1.interfaces = n.interfaces ∧ x.1.seqNo = n.seqNo ∧
      (h.dst = h.origin ∧
          x.1.routes = Function.update n.routes h.dst (some (helloRoute (n.routes h.dst) h)) ∧ x.2 = [] ∨
        h.dst ≠ h.origin ∧
          (n.Forwards h hop ∧ x.1.routes = Function.update n.routes h.dst (some ⟨true, h.dstSeqno, hop, sender⟩) ∨
            ¬ n.Forwards h hop ∧ x.1.routes = n.routes) ∧
          ∀ packet ∈ x.2, n.IsMyOwnAddress packet.sender ∧ (packet.message = .rrepAck ∨
            packet.message = .rrep { h with hopCount := hop, ackRequired := false })) := by
  intro x hop
  by_cases hhello : h.dst = h.origin
  · have hx : x = (n.processHello attrs now h receiver, []) := by
      simp only [x, recvReply]
      rw [if_pos hhello]
    obtain ⟨hinterfaces, hseqNo, hroutes⟩ := processHello_spec attrs hpurged h receiver
    rw [hx]
    exact ⟨hinterfaces, hseqNo, .inl ⟨hhello, hroutes, rfl⟩⟩
  · obtain ⟨t, hforward, ht, hroutes⟩ := forwardRoute_spec hpurged h hop receiver sender
    obtain ⟨hreply, hinterfaces, hseqNo, hpackets⟩ := forwardReply_spec attrs (n := { n with routingTable := t }) ht
      { h with hopCount := hop }
    have hx : x =
        (({ n with routingTable := t } : RoutingProtocol).forwardReply attrs now { h with hopCount := hop } |>.1,
        (if h.ackRequired then sendReplyAck { n with routingTable := t } sender else []) ++
          (({ n with routingTable := t } : RoutingProtocol).forwardReply attrs now { h with hopCount := hop }).2) := by
      simp only [x, recvReply]
      rw [if_neg hhello, purge_eq_self hpurged, hforward, purge_eq_self (n := { n with routingTable := t }) ht]
    rw [hx]
    refine ⟨hinterfaces, hseqNo, .inr ⟨hhello, ?_, fun packet hpacket => ?_⟩⟩
    · rw [hreply]
      exact hroutes
    · rcases List.mem_append.mp hpacket with hpacket | hpacket
      · split_ifs at hpacket with hack
        · obtain ⟨toNeighbor, -, hpacket⟩ := List.mem_flatMap.mp hpacket
          obtain ⟨hsender, hmessage⟩ := mem_sendFrom hpacket
          exact ⟨hsender, .inl hmessage⟩
        · exact absurd hpacket List.not_mem_nil
      · obtain ⟨hsender, hmessage⟩ := hpackets packet hpacket
        exact ⟨hsender, .inr hmessage⟩

theorem recvReplyAck_spec (hpurged : Purged n.routingTable now) (neighbor : Ipv4Address) :
    (n.recvReplyAck attrs now neighbor).interfaces = n.interfaces ∧
      (n.recvReplyAck attrs now neighbor).seqNo = n.seqNo ∧ (n.recvReplyAck attrs now neighbor).routes = n.routes := by
  rw [recvReplyAck, purge_eq_self hpurged]
  cases hrt : n.routingTable neighbor with
  | none => exact ⟨rfl, rfl, rfl⟩
  | some rt =>
    refine ⟨rfl, rfl, ?_⟩
    dsimp only
    rw [update, routes, update_eq hrt, routes_set]
    refine (congrArg _ ?_).trans (Function.update_eq_self neighbor n.routes)
    rw [routes, RoutingTable.routes, hrt]
    rfl

/-! ### What is done without a message -/

theorem routes_invalidateRoutesWithDst (t : RoutingTable) (now : ℤ) (period : ℕ) (Unreachable : Ipv4Address → Prop)
    [DecidablePred Unreachable] : (t.invalidateRoutesWithDst now period Unreachable).routes = t.routes := by
  funext dst
  rw [RoutingTable.routes, RoutingTable.routes, invalidateRoutesWithDst, Option.map_map]
  refine congrFun (congrArg Option.map (funext fun rt => ?_)) _
  simp only [Function.comp_apply, RoutingTableEntry.invalidate]
  split_ifs <;> rfl

theorem recvError_routes (hpurged : Purged n.routingTable now) (unreachable : List Ipv4Address) (src : Ipv4Address) :
    (n.recvError attrs now unreachable src).routes = n.routes := by
  rw [recvError, purge_eq_self hpurged]
  exact routes_invalidateRoutesWithDst _ _ _ _

theorem breakLink_routes (n : RoutingProtocol) (nextHop : Ipv4Address) :
    (n.breakLink attrs now nextHop).routes = (n.purge attrs now).routes := by
  rw [breakLink]
  split_ifs
  · exact routes_invalidateRoutesWithDst _ _ _ _
  · rfl

theorem updateRouteLifeTime_routes (n : RoutingProtocol) (addr : Ipv4Address) (lifeTime : ℕ) :
    (n.updateRouteLifeTime attrs now addr lifeTime).routes = (n.purge attrs now).routes := by
  rw [updateRouteLifeTime]
  cases hvalid : (n.purge attrs now).routingTable.lookupValidRoute addr with
  | none => rfl
  | some rt =>
    have hrt : (n.purge attrs now).routingTable addr = some rt := (Option.mem_filter_iff.mp hvalid).1
    dsimp only
    rw [update, routes, update_eq hrt, routes_set]
    refine (congrArg _ ?_).trans (Function.update_eq_self addr (n.purge attrs now).routes)
    rw [routes, RoutingTable.routes, hrt]
    rfl

/-- The routes when a destination is searched for. -/
def searched (routes : Ipv4Address → Option Route) (dst : Ipv4Address) : Ipv4Address → Option Route :=
  Function.update routes dst (some ((routes dst).getD ⟨false, 0, 0, .uninitialized⟩))

theorem searchRoute_spec (now : ℤ) (n : RoutingProtocol) (dst : Ipv4Address) : ∃ t : RoutingTable,
    n.searchRoute now dst = { n with routingTable := t } ∧ t.routes = searched n.routes dst := by
  rw [searchRoute, searched]
  cases hrt : n.routingTable dst with
  | none =>
    refine ⟨_, rfl, ?_⟩
    rw [addRoute_eq hrt, routes_set, routes, RoutingTable.routes, hrt]
    rfl
  | some rt =>
    refine ⟨_, rfl, ?_⟩
    rw [update_eq hrt, routes_set, routes, RoutingTable.routes, hrt]
    rfl

theorem isDuplicate_spec (now : ℤ) (n : RoutingProtocol) (addr : Ipv4Address) (id : UInt32) :
    (n.isDuplicate attrs now addr id).2.routingTable = n.routingTable ∧
      (n.isDuplicate attrs now addr id).2.interfaces = n.interfaces ∧
      (n.isDuplicate attrs now addr id).2.seqNo = n.seqNo := by
  rw [isDuplicate]
  split_ifs <;> exact ⟨rfl, rfl, rfl⟩

/-- `SendRequest` begins a search, and sends the node's own next number. -/
theorem sendRequest_spec (now : ℤ) (n : RoutingProtocol) (dst : Ipv4Address) :
    let x := n.sendRequest attrs now dst
    x.1.interfaces = n.interfaces ∧ x.1.seqNo = n.seqNo + 1 ∧
      x.1.routes = searched (n.purge attrs now).routes dst ∧
        ∀ packet ∈ x.2, ∃ h : RreqHeader, packet.message = .rreq h ∧ n.IsMyOwnAddress packet.sender ∧
          h.origin = packet.sender ∧ h.hopCount = 0 ∧ h.originSeqno = n.seqNo + 1 := by
  intro x
  obtain ⟨t, hsearch, hroutes⟩ := searchRoute_spec now (n.purge attrs now) dst
  simp only [x, sendRequest, hsearch]
  have hfold : ∀ (l : List Interface) (n' : RoutingProtocol),
      (l.foldl (fun n iface => (n.isDuplicate attrs now iface.localAddress n.requestId).2) n').routingTable =
        n'.routingTable ∧
      (l.foldl (fun n iface => (n.isDuplicate attrs now iface.localAddress n.requestId).2) n').interfaces =
        n'.interfaces ∧
      (l.foldl (fun n iface => (n.isDuplicate attrs now iface.localAddress n.requestId).2) n').seqNo = n'.seqNo := by
    intro l
    induction l with
    | nil => exact fun n' => ⟨rfl, rfl, rfl⟩
    | cons iface l ih =>
      intro n'
      obtain ⟨h₁, h₂, h₃⟩ := isDuplicate_spec attrs now n' iface.localAddress n'.requestId
      obtain ⟨ih₁, ih₂, ih₃⟩ := ih (n'.isDuplicate attrs now iface.localAddress n'.requestId).2
      exact ⟨ih₁.trans h₁, ih₂.trans h₂, ih₃.trans h₃⟩
  obtain ⟨htable, hinterfaces, hseqNo⟩ := hfold (n.purge attrs now).interfaces { n.purge attrs now with
    routingTable := t, seqNo := (n.purge attrs now).seqNo + 1, requestId := (n.purge attrs now).requestId + 1 }
  refine ⟨hinterfaces, hseqNo, ?_, fun packet hpacket => ?_⟩
  · rw [routes, htable]
    exact hroutes
  · obtain ⟨iface, hiface, rfl⟩ := mem_broadcast hpacket
    exact ⟨_, rfl, ⟨iface, hiface, rfl⟩, rfl, rfl, rfl⟩

end RoutingProtocol

end Ns3.Aodv
