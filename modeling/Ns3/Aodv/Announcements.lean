import Ns3.Aodv.SequenceNumbers
import Ns3.Lib.DistanceVector

/-!
# What AODV nodes say of destinations, and learn

A RREQ says of its origin, and a RREP of its destination, a number and how far the sender is from there. `Accepts` is
the condition on a message under which the route that a node takes from it is feasible: what the message says is better
than all that the node has said itself.

* `recvAodv_handled`, `handle_handled` — the routes that a node has, and what it says, after an event.
-/

namespace Ns3.Aodv

open Lib RoutingTable

/-- The number and the hop count. -/
def Route.label (r : Route) : Label := ⟨r.seqNo.toNat, r.hops⟩

/-- What a message says of a destination. -/
def Message.claim : Message → Option (Ipv4Address × Label)
  | .rreq h => some (h.origin, ⟨h.originSeqno.toNat, h.hopCount⟩)
  | .rrep h => some (h.dst, ⟨h.dstSeqno.toNat, h.hopCount⟩)
  | .rrepAck => none

namespace RoutingProtocol

/-- A route to a destination may be taken: the destination is not the node itself, and of the messages sent those of the
node say worse. -/
def Better (n : RoutingProtocol) (packets : List Packet) (dst : Ipv4Address) (c : Label) : Prop :=
  ¬ n.IsMyOwnAddress dst ∧ ∀ packet ∈ packets, n.IsMyOwnAddress packet.sender →
    ∀ x ∈ packet.message.claim, x.1 = dst → x.2 < c

/-- The number of a request is not older than that of the entry for its origin, after `UpdateRouteToNeighbor`. -/
def NotOutdated (n : RoutingProtocol) (h : RreqHeader) (receiver : Interface) (sender : Ipv4Address) : Prop :=
  sender = h.origin ∧ ¬ n.KeepsNeighbor receiver sender ∨ n.FreshFor h.origin h.originSeqno

/-- `RecvReply` changes the route to the destination, after `UpdateRouteToNeighbor`. -/
def Rewrites (n : RoutingProtocol) (h : RrepHeader) (receiver : Interface) (sender : Ipv4Address) : Prop :=
  sender = h.dst ∧ ¬ n.KeepsNeighbor receiver sender ∨ n.Forwards h ((h.hopCount + 1) % 256)

/-- The condition on a message, for a node whose table was purged. -/
def Accepts (attrs : Attributes) (now : ℤ) (n : RoutingProtocol) (packets : List Packet) (receiver : Interface)
    (sender : Ipv4Address) : Message → Prop
  | .rreq h => (n.isDuplicate attrs now h.origin h.id).1 = false →
      h.hopCount < 255 ∧ n.NotOutdated h receiver sender ∧
        n.Better packets h.origin ⟨h.originSeqno.toNat, h.hopCount⟩
  | .rrep h =>
    if h.dst = h.origin then sender = h.dst ∧ n.Better packets h.dst ⟨h.dstSeqno.toNat, h.hopCount⟩
    else h.hopCount < 255 ∧
      (n.Rewrites h receiver sender → n.Better packets h.dst ⟨h.dstSeqno.toNat, h.hopCount⟩)
  | .rrepAck => True

instance decidableKeepsNeighbor (n : RoutingProtocol) (receiver : Interface) (sender : Ipv4Address) :
    Decidable (n.KeepsNeighbor receiver sender) :=
  inferInstanceAs (Decidable (∃ _ ∈ n.routingTable sender, _ ∧ _ ∧ _))

instance decidableForwards (n : RoutingProtocol) (h : RrepHeader) (hop : ℕ) : Decidable (n.Forwards h hop) :=
  inferInstanceAs (Decidable (∀ _ ∈ n.routingTable h.dst, Updates _ _ _ ∨ IsMyOwnAddress _ _ ∧ _))

instance decidableBetter (n : RoutingProtocol) (packets : List Packet) (dst : Ipv4Address) (c : Label) :
    Decidable (n.Better packets dst c) :=
  decidable_of_iff (¬ n.IsMyOwnAddress dst ∧ ∀ packet ∈ packets, n.IsMyOwnAddress packet.sender →
    ∀ x ∈ packet.message.claim, x.1 = dst → x.2.number < c.number ∨ x.2.number = c.number ∧ c.distance < x.2.distance)
    (by simp only [Better, Label.lt_iff])

instance decidableNotOutdated (n : RoutingProtocol) (h : RreqHeader) (receiver : Interface) (sender : Ipv4Address) :
    Decidable (n.NotOutdated h receiver sender) :=
  inferInstanceAs (Decidable (_ ∧ _ ∨ _))

instance decidableAccepts (attrs : Attributes) (now : ℤ) (n : RoutingProtocol) (packets : List Packet)
    (receiver : Interface) (sender : Ipv4Address) : DecidablePred (Accepts attrs now n packets receiver sender)
  | .rreq _ => inferInstanceAs (Decidable (_ → _ < _ ∧ NotOutdated _ _ _ _ ∧ Better _ _ _ _))
  | .rrep h =>
    have : Decidable (n.Rewrites h receiver sender) := inferInstanceAs (Decidable (_ ∧ _ ∨ _))
    inferInstanceAs (Decidable (if h.dst = h.origin then _ ∧ Better _ _ _ _ else _ ∧ (_ → Better _ _ _ _)))
  | .rrepAck => .isTrue trivial

/-- The routes with known numbers are to others, of at most 255 hops. -/
def Known (n : RoutingProtocol) : Prop :=
  ∀ dst r, n.routes dst = some r → r.validSeqNo = true →
    ¬ n.IsMyOwnAddress dst ∧ 1 ≤ r.hops ∧ r.hops < 256 ∧ r.seqNo.toNat < 2 ^ 31

/-- A route that is learnt from what its next hop says, or that was direct and got a new number from a hello message. -/
structure Learnt (n : RoutingProtocol) (packets : List Packet) (sender dst : Ipv4Address) (c : Label) (r : Route) :
    Prop where
  /-- The number is from the message. -/
  seqNo : r.seqNo.toNat = c.number
  /-- The message says better than the node has. -/
  better : n.Better packets dst c
  pos : 1 ≤ r.hops
  /-- The hop count is one of eight bits. -/
  hops_lt : r.hops < 256
  nextHop : r.hops = c.distance + 1 ∧ r.nextHop = sender ∨
    sender = dst ∧ r.hops = 1 ∧ (r.nextHop = dst ∨
      ∃ r₀, n.routes dst = some r₀ ∧ r₀.validSeqNo = true ∧ r₀.hops = 1 ∧ r₀.nextHop = r.nextHop)

/-- What an event leaves, that may be a message with a claim from a sender. -/
structure Handled (n : RoutingProtocol) (packets : List Packet) (sender : Ipv4Address)
    (claim : Option (Ipv4Address × Label)) (x : RoutingProtocol × List Packet) : Prop where
  interfaces : x.1.interfaces = n.interfaces
  seqNo : x.1.seqNo = n.seqNo ∨ x.1.seqNo = n.seqNo + 1
  /-- The routes with known numbers. -/
  routes : ∀ dst r, x.1.routes dst = some r → r.validSeqNo = true →
    n.routes dst = some r ∨ ∃ c, claim = some (dst, c) ∧ Learnt n packets sender dst c r
  /-- The messages are about the node itself, or about a destination to which it has a route. -/
  packets : ∀ packet ∈ x.2, n.IsMyOwnAddress packet.sender ∧ ∀ dst c, packet.message.claim = some (dst, c) →
    n.IsMyOwnAddress dst ∧ c = ⟨x.1.seqNo.toNat, 0⟩ ∨
      ¬ n.IsMyOwnAddress dst ∧ 1 ≤ c.distance ∧ ∃ r, x.1.routes dst = some r ∧ r.validSeqNo = true ∧ c ≤ r.label

variable {attrs : Attributes} {now : ℤ} {n : RoutingProtocol} {packets : List Packet}
  {receiver : Interface} {sender : Ipv4Address}

variable {r : Route}

theorem routes_of_purge {dst : Ipv4Address} (h : (n.purge attrs now).routes dst = some r) : n.routes dst = some r := by
  obtain ⟨rt, hrt, rfl⟩ := Option.map_eq_some_iff.mp h
  obtain ⟨rt₀, hrt₀, hpurge⟩ := Option.bind_eq_some_iff.mp hrt
  rw [routes, RoutingTable.routes, hrt₀, (purge_eq_some hpurge).1]
  rfl

theorem newer_iff {a b : UInt32} (ha : a.toNat < 2 ^ 31) (hb : b.toNat < 2 ^ 31) : Newer a b ↔ b.toNat < a.toNat := by
  have hbound := a.toNat_lt
  rw [Newer, Ring.ahead_eq_ite (by omega) (by omega)]
  split_ifs <;> omega

theorem notOlder_iff {a b : UInt32} (ha : a.toNat < 2 ^ 31) (hb : b.toNat < 2 ^ 31) :
    NotOlder a b ↔ b.toNat ≤ a.toNat := by
  rw [NotOlder, Ring.ahead_eq_ite (by omega) (by omega)]
  split_ifs <;> omega

/-- A request that is not outdated has the number of the reverse route. -/
theorem reverseSeqNo_eq {r : Option Route} {seqNo : UInt32} (hseq : seqNo.toNat < 2 ^ 31)
    (h : ∀ r₀, r = some r₀ → r₀.validSeqNo = true → r₀.seqNo.toNat < 2 ^ 31 ∧ NotOlder seqNo r₀.seqNo) :
    reverseSeqNo r seqNo = seqNo := by
  cases r with
  | none => rfl
  | some r =>
    rw [reverseSeqNo]
    split_ifs with hkept
    · obtain ⟨hlt, hfresh⟩ := h r rfl hkept.1
      rw [newer_iff hseq hlt] at hkept
      have hle := (notOlder_iff hseq hlt).mp hfresh
      exact UInt32.toNat_inj.mp (by omega)
    · rfl

theorem updateRouteToNeighbor_kept (n : RoutingProtocol) (attrs : Attributes) (now : ℤ) (receiver : Interface)
    (sender : Ipv4Address) :
    (n.updateRouteToNeighbor attrs now sender receiver).interfaces = n.interfaces ∧
      (n.updateRouteToNeighbor attrs now sender receiver).seqNo = n.seqNo ∧
      (n.updateRouteToNeighbor attrs now sender receiver).rreqIdCache = n.rreqIdCache ∧
      ∀ dst r, (n.updateRouteToNeighbor attrs now sender receiver).routes dst = some r → r.validSeqNo = true →
        n.routes dst = some r := by
  obtain ⟨-, ⟨-, hn₁⟩ | ⟨-, rt, hroute, -, -, hn₁⟩⟩ := n.updateRouteToNeighbor_spec attrs now receiver sender
  · rw [hn₁]
    exact ⟨rfl, rfl, rfl, fun dst r hr _ => routes_of_purge hr⟩
  · rw [hn₁]
    refine ⟨rfl, rfl, rfl, fun dst r hr hvalid => ?_⟩
    rw [routes, routes_set, hroute] at hr
    by_cases hdst : dst = sender
    · subst hdst
      rw [Function.update_self] at hr
      cases hr
      cases hvalid
    · rw [Function.update_of_ne hdst] at hr
      exact routes_of_purge hr

theorem notOlder_of_notOutdated {h : RreqHeader} (hfresh : (n.purge attrs now).NotOutdated h receiver sender)
    (hr : (n.updateRouteToNeighbor attrs now sender receiver).routes h.origin = some r) (hvalid : r.validSeqNo = true) :
    NotOlder h.originSeqno r.seqNo := by
  obtain ⟨-, ⟨hkeeps, hn₁⟩ | ⟨hkeeps, rt, hroute, -, -, hn₁⟩⟩ :=
    n.updateRouteToNeighbor_spec attrs now receiver sender
  · rw [hn₁] at hr
    obtain ⟨rt, hrt, rfl⟩ := Option.map_eq_some_iff.mp hr
    exact hfresh.resolve_left (fun hand => hand.2 hkeeps) rt hrt hvalid
  · rw [hn₁, routes, routes_set, hroute] at hr
    by_cases horigin : h.origin = sender
    · rw [horigin, Function.update_self] at hr
      cases hr
      cases hvalid
    · rw [Function.update_of_ne horigin] at hr
      obtain ⟨rt', hrt', rfl⟩ := Option.map_eq_some_iff.mp hr
      exact hfresh.resolve_left (fun hand => horigin hand.1.symm) rt' hrt' hvalid

/-- A message that is refused, or taken without a route being written. -/
theorem Handled.of_routes {claim : Option (Ipv4Address × Label)} {x : RoutingProtocol × List Packet}
    (hinterfaces : x.1.interfaces = n.interfaces) (hseqNo : x.1.seqNo = n.seqNo)
    (hroutes : ∀ dst r, x.1.routes dst = some r → r.validSeqNo = true → n.routes dst = some r) (hx : x.2 = []) :
    Handled n packets sender claim x where
  interfaces := hinterfaces
  seqNo := .inl hseqNo
  routes dst r hr hvalid := .inl (hroutes dst r hr hvalid)
  packets packet hpacket := by
    rw [hx] at hpacket
    exact absurd hpacket List.not_mem_nil

theorem recvRequest_handled (hknown : n.Known) (h : RreqHeader) (hseq : h.originSeqno.toNat < 2 ^ 31)
    (haccepts : Accepts attrs now (n.purge attrs now) packets receiver sender (.rreq h)) :
    Handled n packets sender (Message.rreq h).claim (n.recvAodv attrs now (.rreq h) receiver sender) := by
  obtain ⟨hpurged, -⟩ := n.updateRouteToNeighbor_spec attrs now receiver sender
  obtain ⟨hinterfaces₁, hseqNo₁, hcache₁, hroutes₁⟩ := n.updateRouteToNeighbor_kept attrs now receiver sender
  obtain ⟨hinterfaces, hseqNo, hrecv⟩ := recvRequest_spec attrs hpurged h receiver sender
  rw [recvAodv]
  rw [hinterfaces₁] at hinterfaces
  rw [hseqNo₁] at hseqNo
  rcases hrecv with ⟨-, hroutes, hx⟩ | ⟨hignores, hroutes, hpackets⟩
  · refine ⟨hinterfaces, hseqNo, fun dst r hr hvalid => .inl ?_, fun packet hpacket => ?_⟩
    · rw [hroutes] at hr
      exact hroutes₁ dst r hr hvalid
    · rw [hx] at hpacket
      exact absurd hpacket List.not_mem_nil
  · have hduplicate : ((n.purge attrs now).isDuplicate attrs now h.origin h.id).1 = false := by
      rw [not_duplicate_iff]
      refine fun hd => hignores (.inr ?_)
      rw [hcache₁]
      exact hd
    obtain ⟨hhop, hfresh, hbetter⟩ := haccepts hduplicate
    have hmod : (h.hopCount + 1) % 256 = h.hopCount + 1 := Nat.mod_eq_of_lt (by omega)
    rw [hmod] at hroutes hpackets
    have hreverse : reverseSeqNo ((n.updateRouteToNeighbor attrs now sender receiver).routes h.origin) h.originSeqno =
        h.originSeqno := by
      refine reverseSeqNo_eq hseq fun r₀ hr₀ hvalid => ?_
      obtain ⟨-, -, -, hlt⟩ := hknown _ _ (hroutes₁ _ _ hr₀ hvalid) hvalid
      exact ⟨hlt, notOlder_of_notOutdated hfresh hr₀ hvalid⟩
    rw [hreverse] at hroutes
    have hlearnt : Learnt n packets sender h.origin ⟨h.originSeqno.toNat, h.hopCount⟩
        ⟨true, h.originSeqno, h.hopCount + 1, sender⟩ :=
      ⟨rfl, hbetter, by dsimp only; omega, by dsimp only; omega, .inl ⟨rfl, rfl⟩⟩
    have hnew : ∀ dst r, (recvRequest attrs now (n.updateRouteToNeighbor attrs now sender receiver) h receiver
        sender).1.routes dst = some r → r.validSeqNo = true →
        n.routes dst = some r ∨ ∃ c, (Message.rreq h).claim = some (dst, c) ∧ Learnt n packets sender dst c r := by
      intro dst r hr hvalid
      rw [hroutes] at hr
      by_cases hdst : dst = h.origin
      · subst hdst
        rw [Function.update_self] at hr
        cases hr
        exact .inr ⟨_, rfl, hlearnt⟩
      · rw [Function.update_of_ne hdst] at hr
        exact .inl (hroutes₁ dst r hr hvalid)
    refine ⟨hinterfaces, hseqNo, hnew, fun packet hpacket => ?_⟩
    have hmine : ∀ addr, (n.updateRouteToNeighbor attrs now sender receiver).IsMyOwnAddress addr ↔
        n.IsMyOwnAddress addr := by
      intro addr
      rw [IsMyOwnAddress, hinterfaces₁]
      rfl
    obtain ⟨hsender, hanswers⟩ := hpackets packet hpacket
    refine ⟨(hmine _).mp hsender, fun dst c hclaim => ?_⟩
    rcases hanswers with ⟨h', hmessage, hhop', horigin', hseq'⟩ | ⟨h', hmessage, hdst', hhop', hseq'⟩ |
      ⟨h', r, hmessage, hr, hvalid, hhop', hseq'⟩
    · -- the request goes on
      rw [hmessage, Message.claim, hhop', horigin', hseq', Option.some.injEq, Prod.mk.injEq] at hclaim
      obtain ⟨rfl, rfl⟩ := hclaim
      refine .inr ⟨hbetter.1, Nat.le_add_left 1 _, ⟨true, h.originSeqno, h.hopCount + 1, sender⟩, ?_, rfl, le_refl _⟩
      rw [hroutes]
      exact Function.update_self _ _ _
    · -- the node is the destination
      rw [hmessage, Message.claim, hhop', hseq', Option.some.injEq, Prod.mk.injEq] at hclaim
      obtain ⟨rfl, rfl⟩ := hclaim
      exact .inl ⟨(hmine _).mp hdst', rfl⟩
    · -- the node has a route to the destination, or to the origin
      obtain ⟨hother, hpos, hlt⟩ : ¬ n.IsMyOwnAddress h'.dst ∧ 1 ≤ r.hops ∧ r.hops < 256 := by
        rcases hnew _ _ hr hvalid with hold | ⟨c', -, hl⟩
        · obtain ⟨hother, hpos, hlt, -⟩ := hknown _ _ hold hvalid
          exact ⟨hother, hpos, hlt⟩
        · exact ⟨hl.better.1, hl.pos, hl.hops_lt⟩
      rw [hmessage, Message.claim, hhop', hseq', Nat.mod_eq_of_lt hlt, Option.some.injEq, Prod.mk.injEq] at hclaim
      obtain ⟨rfl, rfl⟩ := hclaim
      exact .inr ⟨hother, hpos, r, hr, hvalid, le_refl _⟩

theorem helloRoute_learnt (h : RrepHeader) (hbetter : n.Better packets h.dst ⟨h.dstSeqno.toNat, h.hopCount⟩) :
    Learnt n packets h.dst h.dst ⟨h.dstSeqno.toNat, h.hopCount⟩
      (helloRoute ((n.updateRouteToNeighbor attrs now h.dst receiver).routes h.dst) h) := by
  obtain ⟨-, ⟨hkeeps, hn₁⟩ | ⟨-, rt, hroute, -, -, hn₁⟩⟩ := n.updateRouteToNeighbor_spec attrs now receiver h.dst
  · obtain ⟨rt, hrt, hvalid, hhops, -⟩ := hkeeps
    have hr : (n.purge attrs now).routes h.dst = some rt.route := by
      rw [routes, RoutingTable.routes, hrt, Option.map_some]
    have hhello : helloRoute (some rt.route) h = ⟨true, h.dstSeqno, 1, rt.nextHop⟩ := by
      rw [helloRoute, RoutingTableEntry.route, hhops]
    rw [hn₁, hr, hhello]
    exact ⟨rfl, hbetter, le_refl _, by dsimp only; omega,
      .inr ⟨rfl, rfl, .inr ⟨_, routes_of_purge hr, hvalid, hhops, rfl⟩⟩⟩
  · have hr : (n.updateRouteToNeighbor attrs now h.dst receiver).routes h.dst = some ⟨false, 0, 1, h.dst⟩ := by
      rw [hn₁, routes, routes_set, Function.update_self, hroute]
    rw [hr]
    exact ⟨rfl, hbetter, le_refl _, by dsimp only [helloRoute]; omega, .inr ⟨rfl, rfl, .inl rfl⟩⟩

theorem rewrites_of_forwards {h : RrepHeader}
    (hf : (n.updateRouteToNeighbor attrs now sender receiver).Forwards h ((h.hopCount + 1) % 256)) :
    (n.purge attrs now).Rewrites h receiver sender := by
  obtain ⟨-, ⟨-, hn₁⟩ | ⟨hkeeps, rt, -, -, -, hn₁⟩⟩ := n.updateRouteToNeighbor_spec attrs now receiver sender
  · rw [hn₁] at hf
    exact .inr hf
  · by_cases hsender : sender = h.dst
    · exact .inl ⟨hsender, hkeeps⟩
    · refine .inr fun toDst htoDst => ?_
      rw [hn₁] at hf
      exact hf toDst ((Function.update_of_ne (Ne.symm hsender) _ _).trans htoDst)

/-- A reply that changes no route says nothing better than the route that is there. -/
theorem exists_route_of_not_forwards {h : RrepHeader} {hop : ℕ} (hf : ¬ n.Forwards h hop)
    (hseq : h.dstSeqno.toNat < 2 ^ 31)
    (hlt : ∀ dst r, n.routes dst = some r → r.validSeqNo = true → r.seqNo.toNat < 2 ^ 31) :
    ∃ r, n.routes h.dst = some r ∧ r.validSeqNo = true ∧ (⟨h.dstSeqno.toNat, hop⟩ : Label) ≤ r.label := by
  rw [Forwards] at hf
  push Not at hf
  obtain ⟨toDst, htoDst, hupdates, -⟩ := hf
  rw [Updates] at hupdates
  push Not at hupdates
  obtain ⟨hvalid, hnewer, hsame⟩ := hupdates
  have hr : n.routes h.dst = some toDst.route := by rw [routes, RoutingTable.routes, htoDst, Option.map_some]
  have hknown : toDst.validSeqNo = true := by simpa using hvalid
  refine ⟨toDst.route, hr, hknown, ?_⟩
  have hless : ¬ toDst.seqNo.toNat < h.dstSeqno.toNat := mt (newer_iff hseq (hlt _ _ hr hknown)).mpr hnewer
  rcases Nat.lt_or_ge h.dstSeqno.toNat toDst.seqNo.toNat with hold | hge
  · exact Label.le_iff.mpr (.inl hold)
  · have heq : h.dstSeqno.toNat = toDst.seqNo.toNat := Nat.le_antisymm (Nat.le_of_not_lt hless) hge
    exact Label.le_iff.mpr (.inr ⟨heq, (hsame (UInt32.toNat_inj.mp heq)).2⟩)

theorem recvReply_handled (hknown : n.Known) (h : RrepHeader) (hseq : h.dstSeqno.toNat < 2 ^ 31)
    (haccepts : Accepts attrs now (n.purge attrs now) packets receiver sender (.rrep h)) :
    Handled n packets sender (Message.rrep h).claim (n.recvAodv attrs now (.rrep h) receiver sender) := by
  obtain ⟨hpurged, -⟩ := n.updateRouteToNeighbor_spec attrs now receiver sender
  obtain ⟨hinterfaces₁, hseqNo₁, -, hroutes₁⟩ := n.updateRouteToNeighbor_kept attrs now receiver sender
  obtain ⟨hinterfaces, hseqNo, hrecv⟩ := recvReply_spec attrs hpurged h receiver sender
  rw [recvAodv]
  rw [hinterfaces₁] at hinterfaces
  rw [hseqNo₁] at hseqNo
  rw [Accepts] at haccepts
  rcases hrecv with ⟨hhello, hroutes, hx⟩ | ⟨hhello, hforwards, hpackets⟩
  · rw [if_pos hhello] at haccepts
    obtain ⟨rfl, hbetter⟩ := haccepts
    refine ⟨hinterfaces, .inl hseqNo, fun dst r hr hvalid => ?_, fun packet hpacket => ?_⟩
    · rw [hroutes] at hr
      by_cases hdst : dst = h.dst
      · subst hdst
        rw [Function.update_self] at hr
        cases hr
        exact .inr ⟨_, rfl, helloRoute_learnt (n := n) h hbetter⟩
      · rw [Function.update_of_ne hdst] at hr
        exact .inl (hroutes₁ dst r hr hvalid)
    · rw [hx] at hpacket
      exact absurd hpacket List.not_mem_nil
  · rw [if_neg hhello] at haccepts
    obtain ⟨hhop, hrewrites⟩ := haccepts
    have hmod : (h.hopCount + 1) % 256 = h.hopCount + 1 := Nat.mod_eq_of_lt (by omega)
    have hpacket : ∀ r, (recvReply attrs now (n.updateRouteToNeighbor attrs now sender receiver) h receiver
        sender).1.routes h.dst = some r → r.validSeqNo = true → ¬ n.IsMyOwnAddress h.dst →
        (⟨h.dstSeqno.toNat, h.hopCount + 1⟩ : Label) ≤ r.label →
        ∀ packet ∈ (recvReply attrs now (n.updateRouteToNeighbor attrs now sender receiver) h receiver sender).2,
        n.IsMyOwnAddress packet.sender ∧ ∀ dst c, packet.message.claim = some (dst, c) →
          n.IsMyOwnAddress dst ∧ c = ⟨(recvReply attrs now (n.updateRouteToNeighbor attrs now sender receiver) h
              receiver sender).1.seqNo.toNat, 0⟩ ∨
            ¬ n.IsMyOwnAddress dst ∧ 1 ≤ c.distance ∧ ∃ r, (recvReply attrs now
              (n.updateRouteToNeighbor attrs now sender receiver) h receiver sender).1.routes dst = some r ∧
              r.validSeqNo = true ∧ c ≤ r.label := by
      intro r hr hvalid howns hle packet hp
      obtain ⟨hsender, hmessage⟩ := hpackets packet hp
      rw [IsMyOwnAddress, hinterfaces₁] at hsender
      refine ⟨hsender, fun dst c hclaim => ?_⟩
      rcases hmessage with hmessage | hmessage
      · rw [hmessage, Message.claim] at hclaim
        cases hclaim
      · rw [hmessage, Message.claim, hmod, Option.some.injEq, Prod.mk.injEq] at hclaim
        obtain ⟨rfl, rfl⟩ := hclaim
        exact .inr ⟨howns, Nat.le_add_left 1 _, r, hr, hvalid, hle⟩
    rcases hforwards with ⟨hf, hroutes⟩ | ⟨hf, hroutes⟩
    · have hbetter := hrewrites (rewrites_of_forwards hf)
      rw [hmod] at hroutes
      refine ⟨hinterfaces, .inl hseqNo, fun dst r hr hvalid => ?_,
        hpacket ⟨true, h.dstSeqno, h.hopCount + 1, sender⟩ ?_ rfl hbetter.1 (le_refl _)⟩
      · rw [hroutes] at hr
        by_cases hdst : dst = h.dst
        · subst hdst
          rw [Function.update_self] at hr
          cases hr
          exact .inr ⟨_, rfl, rfl, hbetter, Nat.le_add_left 1 _, by dsimp only; omega, .inl ⟨rfl, rfl⟩⟩
        · rw [Function.update_of_ne hdst] at hr
          exact .inl (hroutes₁ dst r hr hvalid)
      · rw [hroutes, Function.update_self]
    · have hknown₁ : ∀ dst r, (n.updateRouteToNeighbor attrs now sender receiver).routes dst = some r →
          r.validSeqNo = true → r.seqNo.toNat < 2 ^ 31 := fun dst r hr hvalid =>
        (hknown dst r (hroutes₁ dst r hr hvalid) hvalid).2.2.2
      obtain ⟨r, hr, hvalid, hle⟩ := exists_route_of_not_forwards hf hseq hknown₁
      obtain ⟨howns, -, -, -⟩ := hknown _ _ (hroutes₁ _ _ hr hvalid) hvalid
      rw [hmod] at hle
      rw [← hroutes] at hr
      refine ⟨hinterfaces, .inl hseqNo, fun dst r hr hvalid => .inl ?_, hpacket r hr hvalid howns hle⟩
      rw [hroutes] at hr
      exact hroutes₁ dst r hr hvalid

theorem recvAodv_handled (hknown : n.Known) (message : Message)
    (hseq : ∀ dst c, message.claim = some (dst, c) → c.number < 2 ^ 31)
    (haccepts : Accepts attrs now (n.purge attrs now) packets receiver sender message) :
    Handled n packets sender message.claim (n.recvAodv attrs now message receiver sender) := by
  cases message with
  | rreq h => exact recvRequest_handled hknown h (hseq _ _ rfl) haccepts
  | rrep h => exact recvReply_handled hknown h (hseq _ _ rfl) haccepts
  | rrepAck =>
    obtain ⟨hpurged, -⟩ := n.updateRouteToNeighbor_spec attrs now receiver sender
    obtain ⟨hinterfaces₁, hseqNo₁, -, hroutes₁⟩ := n.updateRouteToNeighbor_kept attrs now receiver sender
    obtain ⟨hinterfaces, hseqNo, hroutes⟩ := recvReplyAck_spec attrs hpurged sender
    refine .of_routes (hinterfaces.trans hinterfaces₁) (hseqNo.trans hseqNo₁) (fun dst r hr hvalid => ?_) rfl
    rw [recvAodv, hroutes] at hr
    exact hroutes₁ dst r hr hvalid

theorem searched_known {routes : Ipv4Address → Option Route} {dst dst' : Ipv4Address}
    (hr : searched routes dst dst' = some r) (hvalid : r.validSeqNo = true) : routes dst' = some r := by
  by_cases hdst : dst' = dst
  · subst hdst
    rw [searched, Function.update_self] at hr
    cases hold : routes dst' with
    | none =>
      rw [hold] at hr
      cases hr
      cases hvalid
    | some r₀ => rwa [hold] at hr
  · rwa [searched, Function.update_of_ne hdst] at hr

theorem sendRequest_handled (n : RoutingProtocol) (attrs : Attributes) (now : ℤ) (packets : List Packet)
    (sender dst : Ipv4Address) : Handled n packets sender none (n.sendRequest attrs now dst) := by
  obtain ⟨hinterfaces, hseqNo, hroutes, hpackets⟩ := sendRequest_spec attrs now n dst
  refine ⟨hinterfaces, .inr hseqNo, fun dst' r hr hvalid => .inl ?_, fun packet hpacket => ?_⟩
  · rw [hroutes] at hr
    exact routes_of_purge (searched_known hr hvalid)
  · obtain ⟨h, hmessage, hsender, horigin, hhop, hseq⟩ := hpackets packet hpacket
    refine ⟨hsender, fun dst' c hclaim => .inl ?_⟩
    rw [hmessage, Message.claim, hhop, hseq, ← hseqNo, Option.some.injEq, Prod.mk.injEq] at hclaim
    obtain ⟨rfl, rfl⟩ := hclaim
    rw [horigin]
    exact ⟨hsender, rfl⟩

theorem routes_of_deleteRoute {dst dst' : Ipv4Address}
    (h : ((n.purge attrs now).routingTable.deleteRoute dst).routes dst' = some r) : n.routes dst' = some r := by
  by_cases hdst : dst' = dst
  · subst hdst
    rw [RoutingTable.routes, deleteRoute, Function.update_self] at h
    cases h
  · rw [RoutingTable.routes, deleteRoute, Function.update_of_ne hdst] at h
    exact routes_of_purge h

theorem handle_handled (n : RoutingProtocol) (attrs : Attributes) (now : ℤ) (packets : List Packet)
    (sender : Ipv4Address) (event : Event) : Handled n packets sender none (n.handle attrs now event) := by
  cases event with
  | recvError unreachable receiver src =>
    obtain ⟨hpurged, -⟩ := n.updateRouteToNeighbor_spec attrs now receiver src
    obtain ⟨hinterfaces₁, hseqNo₁, -, hroutes₁⟩ := n.updateRouteToNeighbor_kept attrs now receiver src
    refine .of_routes hinterfaces₁ hseqNo₁ (fun dst r hr hvalid => ?_) rfl
    rw [handle, recvError_routes attrs hpurged] at hr
    exact hroutes₁ dst r hr hvalid
  | updateRouteLifeTime addr =>
    have hsame : (n.updateRouteLifeTime attrs now addr attrs.activeRouteTimeout).interfaces = n.interfaces ∧
        (n.updateRouteLifeTime attrs now addr attrs.activeRouteTimeout).seqNo = n.seqNo := by
      rw [updateRouteLifeTime]
      cases (n.purge attrs now).routingTable.lookupValidRoute addr with
      | none => exact ⟨rfl, rfl⟩
      | some rt => exact ⟨rfl, rfl⟩
    refine .of_routes hsame.1 hsame.2 (fun dst r hr _ => ?_) rfl
    rw [handle, updateRouteLifeTime_routes] at hr
    exact routes_of_purge hr
  | sendRequest dst => exact n.sendRequest_handled attrs now packets sender dst
  | routeRequestTimerExpire dst =>
    rw [handle, routeRequestTimerExpire]
    cases hrt : (n.purge attrs now).routingTable dst with
    | none => exact .of_routes rfl rfl (fun dst r hr _ => routes_of_purge hr) rfl
    | some toDst =>
      dsimp only
      split_ifs with hvalid hretries hsearch
      · exact .of_routes rfl rfl (fun dst r hr _ => routes_of_purge hr) rfl
      · exact .of_routes rfl rfl (fun dst' r hr _ => routes_of_deleteRoute hr) rfl
      · obtain ⟨hinterfaces, hseqNo, hroutes, hpackets⟩ :=
          (n.purge attrs now).sendRequest_handled attrs now packets sender dst
        refine ⟨hinterfaces, hseqNo, fun dst' r hr hvalid => .inl ?_, hpackets⟩
        rcases hroutes dst' r hr hvalid with hold | ⟨c, hclaim, -⟩
        · exact routes_of_purge hold
        · cases hclaim
      · exact .of_routes rfl rfl (fun dst' r hr _ => routes_of_deleteRoute hr) rfl
  | helloTimerExpire =>
    refine ⟨rfl, .inl rfl, fun dst r hr _ => .inl hr, fun packet hpacket => ?_⟩
    obtain ⟨iface, hiface, rfl⟩ := mem_broadcast hpacket
    refine ⟨⟨iface, hiface, rfl⟩, fun dst c hclaim => .inl ?_⟩
    rw [Message.claim, Option.some.injEq, Prod.mk.injEq] at hclaim
    obtain ⟨rfl, rfl⟩ := hclaim
    exact ⟨⟨iface, hiface, rfl⟩, rfl⟩
  | breakLink nextHop =>
    have hsame : (n.breakLink attrs now nextHop).interfaces = n.interfaces ∧
        (n.breakLink attrs now nextHop).seqNo = n.seqNo := by
      rw [breakLink]
      split_ifs <;> exact ⟨rfl, rfl⟩
    refine .of_routes hsame.1 hsame.2 (fun dst r hr _ => ?_) rfl
    rw [handle, breakLink_routes] at hr
    exact routes_of_purge hr

end RoutingProtocol

end Ns3.Aodv
