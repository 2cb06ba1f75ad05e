import Ns3.Dsdv.Updates
import Ns3.Lib.DistanceVector

/-!
# What a DSDV node has said, and its routes

What a node has said of a destination is never better than its routes to it, as long as it takes no new route that is
not better than what it has said: the number and the hop count of an entry are compared only where there is one.

* `Tidy` — the invariant of a node, with what it has said so far; `Tidy.recvHeader` and `Tidy.handle` — it is kept, and
  routes are new only by a sender that says better than all that the node has said.
-/

namespace Ns3.Dsdv

open Lib

/-- The number and the hop count of an entry. -/
def RoutingTableEntry.label (rt : RoutingTableEntry) : Label := ⟨rt.seqNo.toNat, rt.hops.toNat⟩

/-- What an update says: its hop count is that of the node that gets it. -/
def DsdvHeader.claim (h : DsdvHeader) : Label := ⟨h.dstSeqno.toNat, h.hopCount.toNat - 1⟩

namespace RoutingProtocol

/-- An update of some packets that is not about a broken route. -/
def Said (packets : List Packet) (sender dst : Ipv4Address) (c : Label) : Prop :=
  ∃ packet ∈ packets, packet.sender = sender ∧ ∃ h ∈ packet.headers, ¬ Broken h.dstSeqno ∧ h.dst = dst ∧ h.claim = c

/-- A node has a route, as in the forwarding table or with what waits for it. -/
def HasRoute (n : RoutingProtocol) (d nextHop : Ipv4Address) (l : Label) : Prop :=
  d ≠ n.main.broadcast ∧ ∃ fwd, n.routingTable.lookup d = some fwd ∧ n.nextHop d fwd = nextHop ∧
    (l = fwd.label ∨ ∃ adv, n.advRoutingTable.lookup d = some adv ∧ l = adv.label)

/-- The condition on an update: its hop count can be increased, and where it makes a new route, nothing waits for the
destination, and the node has said nothing of it that is as good. -/
def Admits (n : RoutingProtocol) (packets : List Packet) (h : DsdvHeader) : Prop :=
  h.hopCount.toNat + 1 < 2 ^ 32 ∧ (n.IsOwn h.dst ∨ Broken h.dstSeqno ∨ (n.routingTable.lookup h.dst).isSome ∨
    n.advRoutingTable.lookup h.dst = none ∧ ∀ packet ∈ packets, packet.sender = n.main.localAddress →
      ∀ g ∈ packet.headers, ¬ Broken g.dstSeqno → g.dst = h.dst → g.claim < h.claim)

/-- The invariant of a node, with what it has said. -/
structure Tidy (n : RoutingProtocol) (known : Ipv4Address → Prop) (said : Ipv4Address → Label → Prop) : Prop where
  /-- What waits has the route of the entry for forwarding, and is better. -/
  shared : ∀ d fwd adv, n.routingTable.lookup d = some fwd → n.advRoutingTable.lookup d = some adv →
    adv.ipv4Route = fwd.ipv4Route ∧ ¬ Broken adv.seqNo ∧ fwd.label ≤ adv.label
  /-- A route is not broken, and its hop count can be increased. -/
  fwd : ∀ d rt, n.routingTable.lookup d = some rt →
    (d ≠ n.main.broadcast → known d) ∧ ¬ Broken rt.seqNo ∧ rt.hops.toNat + 1 < 2 ^ 32
  /-- The hop count of what waits can be increased. -/
  adv : ∀ d rt, n.advRoutingTable.lookup d = some rt → known d ∧ rt.hops.toNat + 1 < 2 ^ 32
  own : ∃ rt, n.routingTable.lookup n.main.broadcast = some rt ∧ rt.hops = 0 ∧
    n.nextHop n.main.broadcast rt = n.main.broadcast
  single : n.interfaces = [n.main]
  main : known n.main.localAddress ∧ ¬ known n.main.broadcast ∧ n.routingTable.lookup n.main.localAddress = none
  said : ∀ d c, said d c → known d ∧ ∀ rt, n.routingTable.lookup d = some rt → c ≤ rt.label

variable {n n' : RoutingProtocol} {known : Ipv4Address → Prop} {said : Ipv4Address → Label → Prop}
  {now : ℤ} {sender : Ipv4Address} {h : DsdvHeader}

/-! ### Received updates -/

/-- An update that keeps the entry for its destination, or makes one. -/
theorem Tidy.changes {fwd : RoutingTableEntry} {adv : Option RoutingTableEntry} (hn : n.Tidy known said)
    (hchanges : Changes n n' h.dst (some fwd) adv) (hother : ¬ n.IsOwn h.dst) (hknown : known h.dst)
    (hlive : ¬ Broken fwd.seqNo) (hbound : fwd.hops.toNat + 1 < 2 ^ 32)
    (hadv : ∀ rt, adv = some rt → rt.ipv4Route = fwd.ipv4Route ∧ ¬ Broken rt.seqNo ∧ fwd.label ≤ rt.label ∧
      rt.hops.toNat + 1 < 2 ^ 32)
    (hsaid : ∀ c, said h.dst c → c ≤ fwd.label) : n'.Tidy known said := by
  obtain ⟨hlocal, hbroadcast, hnone⟩ := hn.main
  have hne : n.main.broadcast ≠ h.dst := fun heq => hbroadcast (heq ▸ hknown)
  have hne' : n.main.localAddress ≠ h.dst := by
    intro heq
    refine hother ⟨n.main, ?_, heq.symm⟩
    rw [hn.single]
    exact List.mem_singleton_self _
  obtain ⟨own, hown, hops, hself⟩ := hn.own
  refine ⟨fun d f a hf ha => ?_, fun d rt hrt => ?_, fun d rt hrt => ?_, ⟨own, ?_, hops, ?_⟩, ?_, ?_,
    fun d c hc => ⟨(hn.said d c hc).1, fun rt hrt => ?_⟩⟩
  · rw [hchanges.fwd] at hf
    rw [hchanges.adv] at ha
    split_ifs at hf ha with hd
    · cases hf
      obtain ⟨hroute, hseq, hle, -⟩ := hadv a ha
      exact ⟨hroute, hseq, hle⟩
    · exact hn.shared d f a hf ha
  · rw [hchanges.fwd] at hrt
    rw [hchanges.main]
    split_ifs at hrt with hd
    · cases hrt
      exact ⟨fun _ => hd ▸ hknown, hlive, hbound⟩
    · exact hn.fwd d rt hrt
  · rw [hchanges.adv] at hrt
    split_ifs at hrt with hd
    · exact ⟨hd ▸ hknown, (hadv rt hrt).2.2.2⟩
    · exact hn.adv d rt hrt
  · rwa [hchanges.main, hchanges.fwd, if_neg hne]
  · rw [hchanges.main, nextHop, hchanges.gateways _ hne]
    exact hself
  · rw [hchanges.interfaces, hchanges.main, hn.single]
  · rw [hchanges.main, hchanges.fwd, if_neg hne']
    exact hn.main
  · rw [hchanges.fwd] at hrt
    split_ifs at hrt with hd
    · subst hd
      cases hrt
      exact hsaid c hc
    · exact (hn.said d c hc).2 rt hrt

/-- The routes after such an update. -/
theorem hasRoute_of_changes {fwd : RoutingTableEntry} {adv : Option RoutingTableEntry}
    (hchanges : Changes n n' h.dst (some fwd) adv) {d nextHop : Ipv4Address} {l : Label}
    (hroute : n'.HasRoute d nextHop l) : n.HasRoute d nextHop l ∨ d = h.dst ∧ n'.nextHop h.dst fwd = nextHop ∧
      (l = fwd.label ∨ ∃ rt, adv = some rt ∧ l = rt.label) := by
  obtain ⟨hne, f, hf, hnext, hl⟩ := hroute
  rw [hchanges.main] at hne
  rw [hchanges.fwd] at hf
  rw [hchanges.adv] at hl
  split_ifs at hf hl with hd
  · subst hd
    cases hf
    exact .inr ⟨rfl, hnext, hl⟩
  · refine .inl ⟨hne, f, hf, ?_, hl⟩
    rw [← hnext, RoutingProtocol.nextHop, RoutingProtocol.nextHop, hchanges.gateways d hd]

/-- What an update says is better than the entry that is made of it. -/
theorem label_lt_claim (hpos : 0 < h.hopCount.toNat) {l : Label} (hnumber : l.number = h.dstSeqno.toNat)
    (hdistance : l.distance = h.hopCount.toNat) : l < h.claim := by
  rw [Label.lt_iff]
  refine .inr ⟨hnumber, ?_⟩
  rw [hdistance]
  exact Nat.sub_lt hpos one_pos

theorem Takes.label_lt {adv : RoutingTableEntry} (htakes : Takes h adv) : adv.label < (taken now h adv).label := by
  rw [Label.lt_iff]
  rcases htakes with hlt | ⟨heq, hlt⟩
  · exact .inl (UInt32.lt_iff_toNat_lt.mp hlt)
  · refine .inr ⟨?_, UInt32.lt_iff_toNat_lt.mp hlt⟩
    rw [RoutingTableEntry.label, RoutingTableEntry.label, taken, heq]

/-- What is worse than what an update says is not better than the entry that is made of it. -/
theorem le_newEntry_label {c : Label} (hc : c < h.claim) : c ≤ (n.newEntry now h).label := by
  rw [Label.le_iff]
  rw [Label.lt_iff] at hc
  refine hc.imp_right fun ⟨hnumber, hdistance⟩ => ⟨hnumber, ?_⟩
  have hclaim : h.hopCount.toNat - 1 < c.distance := hdistance
  change h.hopCount.toNat ≤ c.distance
  omega

theorem Tidy.compared {fwd adv : RoutingTableEntry} (hn : n.Tidy known said) (hcompared : n.Compared h.dst fwd adv) :
    adv.ipv4Route = fwd.ipv4Route ∧ ¬ Broken adv.seqNo ∧ fwd.label ≤ adv.label ∧ adv.hops.toNat + 1 < 2 ^ 32 := by
  obtain ⟨hfwd, hadv | ⟨-, rfl⟩⟩ := hcompared
  · obtain ⟨hroute, hseq, hle⟩ := hn.shared h.dst fwd adv hfwd hadv
    exact ⟨hroute, hseq, hle, (hn.adv h.dst adv hadv).2⟩
  · obtain ⟨-, hseq, hbound⟩ := hn.fwd h.dst adv hfwd
    exact ⟨rfl, hseq, le_refl _, hbound⟩

theorem Compared.hasRoute {fwd adv : RoutingTableEntry} (hcompared : n.Compared h.dst fwd adv)
    (hne : h.dst ≠ n.main.broadcast) : n.HasRoute h.dst (n.nextHop h.dst fwd) adv.label := by
  obtain ⟨hfwd, hadv | ⟨-, rfl⟩⟩ := hcompared
  · exact ⟨hne, fwd, hfwd, rfl, .inr ⟨adv, hadv, rfl⟩⟩
  · exact ⟨hne, adv, hfwd, rfl, .inl rfl⟩

/-- A route is new by a sender who says better than it, and than all that the node has said. -/
def Learns (n n' : RoutingProtocol) (said : Ipv4Address → Label → Prop) (sender : Ipv4Address) (h : DsdvHeader) :
    Prop :=
  ∀ d nextHop l, n'.HasRoute d nextHop l → n.HasRoute d nextHop l ∨
    d = h.dst ∧ nextHop = sender ∧ ¬ Broken h.dstSeqno ∧ l < h.claim ∧ ∀ c, said d c → c < h.claim

/-- An update that breaks a route. -/
theorem Tidy.breaks {adv : RoutingTableEntry} (hn : n.Tidy known said) (hbreaks : Breaks n n' h adv)
    (hknown : known h.dst) (hbound : adv.hops.toNat + 1 < 2 ^ 32) :
    n'.Tidy known said ∧ Learns n n' said sender h := by
  obtain ⟨hlocal, hbroadcast, hnone⟩ := hn.main
  have hleft : ∀ {d rt}, n'.routingTable.lookup d = some rt →
      n.routingTable.lookup d = some rt ∧ n'.advRoutingTable.lookup d = n.advRoutingTable.lookup d := by
    intro d rt hrt
    rw [hbreaks.fwd] at hrt
    split_ifs at hrt with hd
    exact ⟨hrt, hbreaks.advStays d (fun heq => hd (.inl heq)) fun hby => hd (.inr hby)⟩
  obtain ⟨own, hown, hops, hself⟩ := hn.own
  have hstays : ¬ (n.main.broadcast = h.dst ∨ n.GoesBy h.dst n.main.broadcast) := by
    rintro (heq | ⟨rt, hrt, hnext⟩)
    · exact hbroadcast (heq ▸ hknown)
    · obtain rfl := Option.some.inj (hown.symm.trans hrt)
      exact hbroadcast ((hself.symm.trans hnext) ▸ hknown)
  refine ⟨⟨fun d f a hf ha => ?_, fun d rt hrt => ?_, fun d rt hrt => ?_, ⟨own, ?_, hops, ?_⟩, ?_, ?_,
    fun d c hc => ⟨(hn.said d c hc).1, fun rt hrt => (hn.said d c hc).2 rt (hleft hrt).1⟩⟩, fun d nh l hroute => ?_⟩
  · obtain ⟨hold, hsame⟩ := hleft hf
    exact hn.shared d f a hold (hsame ▸ ha)
  · rw [hbreaks.main]
    exact hn.fwd d rt (hleft hrt).1
  · rcases hbreaks.adv_cases hrt with ⟨rfl, rfl⟩ | ⟨old, hold, hnext, rfl⟩ | hrt
    · exact ⟨hknown, hbound⟩
    · obtain ⟨hdst, -, hfwdBound⟩ := hn.fwd d old hold
      exact ⟨hdst fun heq => hstays (.inr ⟨old, heq ▸ hold, heq ▸ hnext⟩), hfwdBound⟩
    · exact hn.adv d rt hrt
  · rwa [hbreaks.main, hbreaks.fwd, if_neg hstays]
  · rw [hbreaks.main, nextHop, hbreaks.gateways]
    exact hself
  · rw [hbreaks.interfaces, hbreaks.main, hn.single]
  · refine ⟨by rwa [hbreaks.main], by rwa [hbreaks.main], ?_⟩
    rw [hbreaks.main, hbreaks.fwd]
    split_ifs
    · rfl
    · exact hnone
  · obtain ⟨hne, f, hf, hnext, hl⟩ := hroute
    obtain ⟨hold, hsame⟩ := hleft hf
    refine .inl ⟨by rwa [hbreaks.main] at hne, f, hold, ?_, by rwa [hsame] at hl⟩
    rw [← hnext, nextHop, nextHop, hbreaks.gateways]

variable {packets : List Packet}

theorem Admits.said_lt (hadmits : n.Admits packets h) (hother : ¬ n.IsOwn h.dst) (hseq : ¬ Broken h.dstSeqno)
    (hnone : n.routingTable.lookup h.dst = none) :
    n.advRoutingTable.lookup h.dst = none ∧ ∀ c, Said packets n.main.localAddress h.dst c → c < h.claim := by
  obtain hown | hbroken | hsome | ⟨hadv, hworse⟩ := hadmits.2
  · exact absurd hown hother
  · exact absurd hbroken hseq
  · rw [hnone] at hsome
    cases hsome
  · refine ⟨hadv, ?_⟩
    rintro c ⟨packet, hpacket, hsender, g, hg, hlive, hdst, rfl⟩
    exact hworse packet hpacket hsender g hg hlive hdst

theorem Tidy.recvHeader (hn : n.Tidy known (Said packets n.main.localAddress)) (hknown : known h.dst)
    (hpos : ¬ Broken h.dstSeqno → 0 < h.hopCount.toNat) (hadmits : n.Admits packets h) (now : ℤ)
    (sender : Ipv4Address) :
    (recvHeader now sender n h).Tidy known (Said packets n.main.localAddress) ∧
      Learns n (recvHeader now sender n h) (Said packets n.main.localAddress) sender h := by
  have hne : h.dst ≠ n.main.broadcast := fun heq => hn.main.2.1 (heq ▸ hknown)
  have houtcome := recvHeader_outcome n now sender h
  generalize RoutingProtocol.recvHeader now sender n h = n' at houtcome ⊢
  cases houtcome with
  | ignored hwhy heq =>
    subst heq
    exact ⟨hn, fun d nh l hroute => .inl hroute⟩
  | new hother hnone hseq hchanges hgateway hevents =>
    obtain ⟨hadv, hworse⟩ := hadmits.said_lt hother hseq hnone
    rw [hadv] at hchanges
    refine ⟨hn.changes hchanges hother hknown hseq hadmits.1 ?_ fun c hc => le_newEntry_label (hworse c hc), ?_⟩
    · rintro rt ⟨⟩
      exact ⟨rfl, hseq, le_refl _, hadmits.1⟩
    · intro d nh l hroute
      refine (hasRoute_of_changes hchanges hroute).imp_right ?_
      rintro ⟨rfl, rfl, hl⟩
      refine ⟨rfl, hgateway, hseq, ?_, hworse⟩
      rcases hl with rfl | ⟨rt, ⟨⟩, rfl⟩
      · exact label_lt_claim (hpos hseq) rfl rfl
      · exact label_lt_claim (hpos hseq) rfl rfl
  | settles hother fwd adv hcompared hseq htakes hchanges hgateway =>
    obtain ⟨-, -, hle, -⟩ := hn.compared hcompared
    have hlt : fwd.label < (taken now h adv).label := hle.trans_lt htakes.label_lt
    have hworse : ∀ c, Said packets n.main.localAddress h.dst c → c < (taken now h adv).label :=
      fun c hc => ((hn.said h.dst c hc).2 fwd hcompared.1).trans_lt hlt
    have hclaim : (taken now h adv).label < h.claim := label_lt_claim (hpos hseq) rfl rfl
    refine ⟨hn.changes hchanges hother hknown hseq hadmits.1 ?_ fun c hc => (hworse c hc).le, ?_⟩
    · rintro rt ⟨⟩
      exact ⟨rfl, hseq, le_refl _, hadmits.1⟩
    · intro d nh l hroute
      refine (hasRoute_of_changes hchanges hroute).imp_right ?_
      rintro ⟨rfl, rfl, hl⟩
      refine ⟨rfl, hgateway, hseq, ?_, fun c hc => (hworse c hc).trans hclaim⟩
      rcases hl with rfl | ⟨rt, ⟨⟩, rfl⟩
      · exact hclaim
      · exact hclaim
  | advertises hother fwd adv hcompared hseq htakes hchanges hgateway hevents =>
    obtain ⟨hroute, -, hle, -⟩ := hn.compared hcompared
    obtain ⟨-, hlive, hbound⟩ := hn.fwd h.dst fwd hcompared.1
    have hlt : fwd.label < (taken now h adv).label := hle.trans_lt (Takes.label_lt (.inl htakes))
    have hclaim : (taken now h adv).label < h.claim := label_lt_claim (hpos hseq) rfl rfl
    have hsaid := fun c hc => (hn.said h.dst c hc).2 fwd hcompared.1
    refine ⟨hn.changes hchanges hother hknown hlive hbound ?_ hsaid, ?_⟩
    · rintro rt ⟨⟩
      exact ⟨hroute, hseq, hlt.le, hadmits.1⟩
    · intro d nh l hnew
      refine (hasRoute_of_changes hchanges hnew).imp_right ?_
      rintro ⟨rfl, rfl, hl⟩
      refine ⟨rfl, ?_, hseq, ?_, fun c hc => (hsaid c hc).trans_lt (hlt.trans hclaim)⟩
      · rw [nextHop, ← hroute]
        exact hgateway
      · rcases hl with rfl | ⟨rt, ⟨⟩, rfl⟩
        · exact hlt.trans hclaim
        · exact hclaim
  | renews hother fwd adv hcompared hseq hsame hchanges hgateways hevents hrunning =>
    obtain ⟨hroute, hlive, hle, hbound⟩ := hn.compared hcompared
    refine ⟨hn.changes hchanges hother hknown hlive hbound (fun rt hrt => by cases hrt) fun c hc =>
      ((hn.said h.dst c hc).2 fwd hcompared.1).trans hle, ?_⟩
    intro d nh l hnew
    refine .inl ((hasRoute_of_changes hchanges hnew).elim id ?_)
    rintro ⟨rfl, rfl, hl⟩
    have hold := hcompared.hasRoute hne
    rw [nextHop, hgateways,
      show ({ adv with lifeTime := now } : RoutingTableEntry).ipv4Route = fwd.ipv4Route from hroute]
    rcases hl with rfl | ⟨rt, hrt, -⟩
    · exact hold
    · cases hrt
  | discards hother fwd adv hcompared hchanges hgateways hevents =>
    obtain ⟨hroute, hlive, hle, hbound⟩ := hn.compared hcompared
    obtain ⟨-, hliveFwd, hboundFwd⟩ := hn.fwd h.dst fwd hcompared.1
    refine ⟨hn.changes hchanges hother hknown hliveFwd hboundFwd (fun rt hrt => ?_)
      (fun c hc => (hn.said h.dst c hc).2 fwd hcompared.1), ?_⟩
    · split_ifs at hrt
      cases hrt
      exact ⟨hroute, hlive, hle, hbound⟩
    · intro d nh l hnew
      refine .inl ((hasRoute_of_changes hchanges hnew).elim id ?_)
      rintro ⟨rfl, rfl, hl⟩
      rw [nextHop, hgateways]
      rcases hl with rfl | ⟨rt, hrt, rfl⟩
      · exact ⟨hne, fwd, hcompared.1, rfl, .inl rfl⟩
      · split_ifs at hrt
        cases hrt
        exact hcompared.hasRoute hne
  | breaks hother fwd adv hcompared hseq hsender hbreaks =>
    exact hn.breaks hbreaks hknown (hn.compared hcompared).2.2.2

/-! ### Sent updates -/

/-- An update is not better than the routes of the node. -/
def Fair (n : RoutingProtocol) (known : Ipv4Address → Prop) (h : DsdvHeader) : Prop :=
  known h.dst ∧ (¬ Broken h.dstSeqno → 0 < h.hopCount.toNat ∧ ∀ nextHop l, n.HasRoute h.dst nextHop l → h.claim ≤ l)

/-- A node keeps the invariant and makes no new routes, and what it sends is fair. -/
structure Sends (n n' : RoutingProtocol) (packets : List Packet) (known : Ipv4Address → Prop)
    (said : Ipv4Address → Label → Prop) : Prop where
  tidy : n'.Tidy known said
  routes : ∀ d nextHop l, n'.HasRoute d nextHop l → n.HasRoute d nextHop l
  main : n'.main = n.main
  packets : ∀ packet ∈ packets, packet.sender = n.main.localAddress ∧ ∀ h ∈ packet.headers, n'.Fair known h

/-- What is merged or removed. -/
theorem Tidy.narrows (hn : n.Tidy known said) (hgateways : n'.gateways = n.gateways) (hmain : n'.main = n.main)
    (hinterfaces : n'.interfaces = n.interfaces)
    (hfwd : ∀ d rt, n'.routingTable.lookup d = some rt →
      n.routingTable.lookup d = some rt ∧ n'.advRoutingTable.lookup d = n.advRoutingTable.lookup d ∨
      ∃ f a, n.routingTable.lookup d = some f ∧ n.advRoutingTable.lookup d = some a ∧
        n'.advRoutingTable.lookup d = none ∧ rt.ipv4Route = f.ipv4Route ∧ rt.seqNo = a.seqNo ∧ rt.hops = a.hops)
    (hadv : ∀ d rt, n'.advRoutingTable.lookup d = some rt →
      n.advRoutingTable.lookup d = some rt ∨ known d ∧ rt.hops.toNat + 1 < 2 ^ 32)
    (hown : n'.routingTable.lookup n.main.broadcast = n.routingTable.lookup n.main.broadcast) :
    n'.Tidy known said ∧ ∀ d nextHop l, n'.HasRoute d nextHop l → n.HasRoute d nextHop l := by
  obtain ⟨own, hownRt, hops, hself⟩ := hn.own
  have hlabel : ∀ {rt a : RoutingTableEntry}, rt.seqNo = a.seqNo → rt.hops = a.hops → rt.label = a.label := by
    intro rt a hseq hhops
    rw [RoutingTableEntry.label, RoutingTableEntry.label, hseq, hhops]
  refine ⟨⟨fun d f a hf ha => ?_, fun d rt hrt => ?_, fun d rt hrt => ?_, ⟨own, ?_, hops, ?_⟩, ?_, ?_,
    fun d c hc => ⟨(hn.said d c hc).1, fun rt hrt => ?_⟩⟩, fun d nh l hroute => ?_⟩
  · rcases hfwd d f hf with ⟨hold, hsame⟩ | ⟨-, -, -, -, hnone, -⟩
    · exact hn.shared d f a hold (hsame ▸ ha)
    · cases hnone.symm.trans ha
  · rw [hmain]
    rcases hfwd d rt hrt with ⟨hold, -⟩ | ⟨f, a, hf, ha, -, -, hseq, hhops⟩
    · exact hn.fwd d rt hold
    · rw [hseq, hhops]
      exact ⟨(hn.fwd d f hf).1, (hn.shared d f a hf ha).2.1, (hn.adv d a ha).2⟩
  · exact (hadv d rt hrt).elim (hn.adv d rt) id
  · rwa [hmain, hown]
  · rw [hmain, RoutingProtocol.nextHop, hgateways]
    exact hself
  · rw [hinterfaces, hmain, hn.single]
  · obtain ⟨hlocal, hbroadcast, hnone⟩ := hn.main
    rw [hmain]
    refine ⟨hlocal, hbroadcast, Option.eq_none_iff_forall_not_mem.mpr fun rt hrt => ?_⟩
    rcases hfwd _ rt hrt with ⟨hold, -⟩ | ⟨f, -, hf, -⟩
    · cases hnone.symm.trans hold
    · cases hnone.symm.trans hf
  · rcases hfwd d rt hrt with ⟨hold, -⟩ | ⟨f, a, hf, ha, -, -, hseq, hhops⟩
    · exact (hn.said d c hc).2 rt hold
    · rw [hlabel hseq hhops]
      exact ((hn.said d c hc).2 f hf).trans (hn.shared d f a hf ha).2.2
  · obtain ⟨hne, rt, hrt, hnext, hl⟩ := hroute
    rw [hmain] at hne
    rw [RoutingProtocol.nextHop, hgateways] at hnext
    rcases hfwd d rt hrt with ⟨hold, hsame⟩ | ⟨f, a, hf, ha, hnone, hroute, hseq, hhops⟩
    · exact ⟨hne, rt, hold, hnext, by rwa [hsame] at hl⟩
    · rw [hroute] at hnext
      refine ⟨hne, f, hf, hnext, .inr ⟨a, ha, ?_⟩⟩
      rcases hl with rfl | ⟨b, hb, -⟩
      · exact hlabel hseq hhops
      · cases hnone.symm.trans hb

/-- All that waits and is not settling is merged. -/
theorem Tidy.foldl_merged {f : RoutingProtocol → Ipv4Address × RoutingTableEntry → RoutingProtocol}
    (hf : ∀ n x, Merged n (f n x) x) (hn : n.Tidy known said) :
    let n' := n.advRoutingTable.getListOfAllRoutes.foldl f n
    (n'.Tidy known said ∧ ∀ d nextHop l, n'.HasRoute d nextHop l → n.HasRoute d nextHop l) ∧ n'.main = n.main ∧
      ∀ x ∈ n.advRoutingTable.getListOfAllRoutes, n.Advertises x →
        ∀ nextHop l, n'.HasRoute x.1 nextHop l → l = x.2.label := by
  have hnodup : (n.advRoutingTable.getListOfAllRoutes.map Prod.fst).Nodup :=
    (RoutingTable.nodup_list _).sublist (List.filter_sublist.map Prod.fst)
  obtain ⟨hstays, hmerges, hgateways, hmain, hinterfaces⟩ := RoutingProtocol.foldl_merged hf _ n hnodup
  -- what is there for a destination after the entries are merged
  have hcases : ∀ x ∈ n.advRoutingTable.getListOfAllRoutes, n.Advertises x → ∀ rt,
      (n.advRoutingTable.getListOfAllRoutes.foldl f n).routingTable.lookup x.1 = some rt →
      ∃ old, n.routingTable.lookup x.1 = some old ∧ rt.ipv4Route = old.ipv4Route ∧ rt.seqNo = x.2.seqNo ∧
        rt.hops = x.2.hops := by
    intro x hx hadvertises rt hrt
    have hadv := RoutingTable.mem_getListOfAllRoutes hx
    rw [(hmerges x hx hadvertises).2] at hrt
    split_ifs at hrt with hseq
    · exact absurd hseq (hn.shared x.1 rt x.2 hrt hadv).2.1
    · obtain ⟨old, hold, rfl⟩ := Option.map_eq_some_iff.mp hrt
      exact ⟨old, hold, (hn.shared x.1 old x.2 hold hadv).1, rfl, rfl⟩
  refine ⟨hn.narrows hgateways hmain hinterfaces (fun d rt hrt => ?_) (fun d rt hrt => .inl ?_) ?_, hmain, ?_⟩
  · by_cases hd : ∃ x ∈ n.advRoutingTable.getListOfAllRoutes, x.1 = d ∧ n.Advertises x
    · obtain ⟨x, hx, rfl, hadvertises⟩ := hd
      obtain ⟨old, hold, hroute, hseq, hhops⟩ := hcases x hx hadvertises rt hrt
      exact .inr ⟨old, x.2, hold, RoutingTable.mem_getListOfAllRoutes hx, (hmerges x hx hadvertises).1, hroute, hseq,
        hhops⟩
    · obtain ⟨hfwd, hadv⟩ := hstays d fun x hx heq hadvertises => hd ⟨x, hx, heq, hadvertises⟩
      exact .inl ⟨hfwd.symm.trans hrt, hadv⟩
  · by_cases hd : ∃ x ∈ n.advRoutingTable.getListOfAllRoutes, x.1 = d ∧ n.Advertises x
    · obtain ⟨x, hx, rfl, hadvertises⟩ := hd
      cases (hmerges x hx hadvertises).1.symm.trans hrt
    · obtain ⟨-, hadv⟩ := hstays d fun x hx heq hadvertises => hd ⟨x, hx, heq, hadvertises⟩
      exact hadv.symm.trans hrt
  · refine (hstays _ fun x hx heq _ => ?_).1
    exact hn.main.2.1 (heq ▸ (hn.adv x.1 x.2 (RoutingTable.mem_getListOfAllRoutes hx)).1)
  · rintro x hx hadvertises nh l ⟨-, rt, hrt, -, hl⟩
    obtain ⟨-, -, -, hseq, hhops⟩ := hcases x hx hadvertises rt hrt
    rcases hl with rfl | ⟨b, hb, -⟩
    · rw [RoutingTableEntry.label, RoutingTableEntry.label, hseq, hhops]
    · cases (hmerges x hx hadvertises).1.symm.trans hb

variable {x : Ipv4Address × RoutingTableEntry}

theorem header_claim (hbound : x.2.hops.toNat + 1 < 2 ^ 32) :
    (header x).claim = x.2.label ∧ 0 < (header x).hopCount.toNat := by
  have hhops : (x.2.hops + 1).toNat = x.2.hops.toNat + 1 := by
    rw [UInt32.toNat_add, UInt32.toNat_one, Nat.mod_eq_of_lt hbound]
  refine ⟨?_, ?_⟩
  · rw [DsdvHeader.claim, RoutingTableEntry.label, header, hhops, Nat.add_sub_cancel]
  · rw [header, hhops]
    exact Nat.succ_pos _

theorem Tidy.fair_own (hn : n.Tidy known said) {h : DsdvHeader} (hdst : h.dst = n.main.localAddress)
    (hpos : 0 < h.hopCount.toNat) : n.Fair known h := by
  obtain ⟨hlocal, -, hnone⟩ := hn.main
  rw [Fair, hdst]
  refine ⟨hlocal, fun _ => ⟨hpos, ?_⟩⟩
  rintro nh l ⟨-, rt, hrt, -⟩
  cases hnone.symm.trans hrt

theorem Tidy.fair_ownHeader (hn : n.Tidy known said) : n.Fair known n.ownHeader := by
  obtain ⟨own, hown, hops, -⟩ := hn.own
  rw [ownHeader, hown]
  refine hn.fair_own rfl ?_
  dsimp only
  rw [hops]
  decide

theorem Tidy.sendTriggeredUpdate (hn : n.Tidy known said) (hsend : n.sendTriggeredUpdate = some (n', packets)) :
    Sends n n' packets known said := by
  obtain ⟨⟨htidy, hroutes⟩, hmain, hmerged⟩ := hn.foldl_merged advertise_merged
  rw [RoutingProtocol.sendTriggeredUpdate, hn.single, sendTriggeredUpdateOn] at hsend
  split_ifs at hsend with hevents
  simp only [sendTriggeredUpdateOn, Option.map_some, Option.some.injEq, Prod.mk.injEq] at hsend
  obtain ⟨rfl, rfl⟩ := hsend
  refine ⟨htidy, hroutes, hmain, fun packet hpacket => ?_⟩
  split_ifs at hpacket with hnone
  · exact absurd hpacket List.not_mem_nil
  · obtain rfl := List.mem_singleton.mp hpacket
    refine ⟨rfl, fun h hh => ?_⟩
    rcases List.mem_cons.mp hh with rfl | hh
    · exact htidy.fair_ownHeader
    · obtain ⟨x, hx, rfl⟩ := List.mem_map.mp (List.mem_reverse.mp hh)
      obtain ⟨hx, hadvertises⟩ := List.mem_filter.mp hx
      obtain ⟨hknown, hbound⟩ := hn.adv x.1 x.2 (RoutingTable.mem_getListOfAllRoutes hx)
      obtain ⟨hclaim, hpos⟩ := header_claim hbound
      refine ⟨hknown, fun _ => ⟨hpos, fun nh l hroute => ?_⟩⟩
      rw [hclaim, hmerged x hx (of_decide_eq_true hadvertises) nh l hroute]

theorem Tidy.purge (hn : n.Tidy known said) (now : ℤ) (holddownTime : ℕ) :
    let n' : RoutingProtocol :=
      { n with routingTable := (n.routingTable.purge n.gateways now holddownTime).1 }
    n'.Tidy known said ∧ ∀ d nextHop l, n'.HasRoute d nextHop l → n.HasRoute d nextHop l := by
  obtain ⟨own, hown, hops, hself⟩ := hn.own
  refine hn.narrows rfl rfl rfl (fun d rt hrt => .inl ⟨RoutingTable.lookup_purge hrt, rfl⟩)
    (fun d rt hrt => .inl hrt) ?_
  rw [hown]
  exact lookup_purge_own hown hops hself

variable {holddownTime : ℕ}

section

variable (hn : n.Tidy known said)
include hn

theorem Tidy.known_of_mem_purge (hx : x ∈ (n.routingTable.purge n.gateways now holddownTime).2) :
    known x.1 ∧ ¬ Broken x.2.seqNo ∧ x.2.hops.toNat + 1 < 2 ^ 32 := by
  obtain ⟨hwas, hgone⟩ := RoutingTable.mem_purge hx
  obtain ⟨own, hown, hops, hself⟩ := hn.own
  obtain ⟨hknown, hlive, hbound⟩ := hn.fwd x.1 x.2 hwas
  refine ⟨hknown fun heq => ?_, hlive, hbound⟩
  rw [heq, lookup_purge_own hown hops hself] at hgone
  cases hgone

theorem Tidy.setOwnSeqNo (hx : ¬ Broken x.2.seqNo) :
    (setOwnSeqNo now n x).Tidy known said ∧
      (∀ d nextHop l, (setOwnSeqNo now n x).HasRoute d nextHop l → n.HasRoute d nextHop l) ∧
      (setOwnSeqNo now n x).main = n.main := by
  obtain ⟨own, hown, hops, hself⟩ := hn.own
  obtain ⟨hlocal, hbroadcast, hnone⟩ := hn.main
  obtain ⟨seqNo, hseq, hlookup, heq⟩ := lookup_setOwnSeqNo now x hown
  have hlive : ¬ Broken seqNo := by
    rcases hseq with rfl | rfl
    · exact (hn.fwd _ own hown).2.1
    · exact not_broken_add_two hx
  generalize (RoutingProtocol.setOwnSeqNo now n x).routingTable = t at hlookup heq
  rw [heq]
  have hother : ∀ {d}, d ≠ n.main.broadcast → t.lookup d = n.routingTable.lookup d := fun hd => by
    rw [hlookup, if_neg hd]
  have hne : ∀ {d}, known d → d ≠ n.main.broadcast := fun hd heq => hbroadcast (heq ▸ hd)
  refine ⟨⟨fun d f a hf ha => ?_, fun d rt hrt => ?_, hn.adv, ⟨{ own with seqNo }, ?_, hops, hself⟩, hn.single,
    ⟨hlocal, hbroadcast, (hother (hne hlocal)).trans hnone⟩, fun d c hc => ⟨(hn.said d c hc).1, fun rt hrt => ?_⟩⟩,
    ?_, rfl⟩
  · exact hn.shared d f a ((hother (hne (hn.adv d a ha).1)).symm.trans hf) ha
  · by_cases hd : d = n.main.broadcast
    · subst hd
      obtain rfl := Option.some.inj (((hlookup _).trans (if_pos rfl)).symm.trans hrt)
      exact ⟨fun hd => absurd rfl hd, hlive, (hn.fwd _ own hown).2.2⟩
    · exact hn.fwd d rt ((hother hd).symm.trans hrt)
  · exact (hlookup _).trans (if_pos rfl)
  · obtain ⟨hknown, hsaid⟩ := hn.said d c hc
    exact hsaid rt ((hother (hne hknown)).symm.trans hrt)
  · rintro d nh l ⟨hd, rt, hrt, hnext, hl⟩
    exact ⟨hd, rt, (hother hd).symm.trans hrt, hnext, hl⟩

theorem Tidy.setOwnSeqNos (now : ℤ) (ifaces : List Interface) :
    let n' := ifaces.foldl (fun n' _ => n.routingTable.getListOfAllRoutes.foldl (RoutingProtocol.setOwnSeqNo now) n') n
    n'.Tidy known said ∧ (∀ d nextHop l, n'.HasRoute d nextHop l → n.HasRoute d nextHop l) ∧ n'.main = n.main := by
  refine foldl_setOwnSeqNo (p := fun n' => n'.Tidy known said ∧
    (∀ d nextHop l, n'.HasRoute d nextHop l → n.HasRoute d nextHop l) ∧ n'.main = n.main) ?_ ifaces
    ⟨hn, fun _ _ _ h => h, rfl⟩
  rintro n' x hx ⟨hn', hroutes, hmain⟩
  obtain ⟨htidy, hroutes', hmain'⟩ :=
    hn'.setOwnSeqNo (hn.fwd x.1 x.2 (RoutingTable.mem_getListOfAllRoutes hx)).2.1
  exact ⟨htidy, fun d nh l hroute => hroutes d nh l (hroutes' d nh l hroute), hmain'.trans hmain⟩

/-- The entry for forwarding is not better than a route of the node. -/
theorem Tidy.label_le {d nextHop : Ipv4Address} {rt : RoutingTableEntry} {l : Label}
    (hrt : n.routingTable.lookup d = some rt) (hroute : n.HasRoute d nextHop l) : rt.label ≤ l := by
  obtain ⟨-, f, hf, -, rfl | ⟨a, ha, rfl⟩⟩ := hroute
  · obtain rfl := Option.some.inj (hrt.symm.trans hf)
    exact le_refl _
  · exact (hn.shared d rt a hrt ha).2.2

theorem Tidy.fair_periodicHeader (hn' : n'.Tidy known said)
    (hroutes : ∀ d nextHop l, n'.HasRoute d nextHop l → n.HasRoute d nextHop l) (hmain : n'.main = n.main)
    (hx : n.routingTable.lookup x.1 = some x.2) : n'.Fair known (n.periodicHeader x) := by
  obtain ⟨hknown, -, hbound⟩ := hn.fwd x.1 x.2 hx
  rw [periodicHeader]
  split_ifs with hhops
  · refine hn'.fair_own (by rw [hmain]) ?_
    dsimp only
    rw [hhops]
    decide
  · obtain ⟨hclaim, hpos⟩ := header_claim hbound
    refine ⟨hknown fun heq => ?_, fun _ => ⟨hpos, fun nh l hroute => ?_⟩⟩
    · obtain ⟨own, hown, hops, -⟩ := hn.own
      rw [heq] at hx
      obtain rfl := Option.some.inj (hown.symm.trans hx)
      exact hhops hops
    · rw [hclaim]
      exact hn.label_le hx (hroutes _ nh l hroute)

theorem Tidy.sendPeriodicUpdate :
    Sends n (n.sendPeriodicUpdate now holddownTime).1 (n.sendPeriodicUpdate now holddownTime).2 known said := by
  obtain ⟨htidy₁, hroutes₁⟩ := hn.purge now holddownTime
  obtain ⟨⟨htidy₂, hroutes₂⟩, hmain₂, -⟩ := htidy₁.foldl_merged mergeEntry_merged
  rw [RoutingProtocol.sendPeriodicUpdate]
  dsimp only [mergeTriggerPeriodicUpdates]
  generalize hn₂ : List.foldl RoutingProtocol.mergeEntry _ _ = n₂ at htidy₂ hroutes₂ hmain₂ ⊢
  obtain ⟨htidy₃, hroutes₃, hmain₃⟩ := htidy₂.setOwnSeqNos now n₂.interfaces
  refine ⟨htidy₃, fun d nh l hroute => hroutes₁ d nh l (hroutes₂ d nh l (hroutes₃ d nh l hroute)),
    hmain₃.trans hmain₂, fun packet hpacket => ?_⟩
  obtain ⟨iface, hiface, rfl⟩ := List.mem_map.mp hpacket
  rw [htidy₂.single] at hiface
  obtain rfl := List.mem_singleton.mp hiface
  refine ⟨by rw [hmain₂], fun h hh => ?_⟩
  rcases List.mem_append.mp (List.mem_reverse.mp hh) with hh | hh
  · obtain ⟨x, hx, rfl⟩ := List.mem_map.mp hh
    exact htidy₂.fair_periodicHeader htidy₃ hroutes₃ hmain₃ (RoutingTable.mem_getListOfAllRoutes hx)
  · obtain ⟨x, hx, rfl⟩ := List.mem_map.mp hh
    obtain ⟨hknown, hlive, -⟩ := hn.known_of_mem_purge hx
    exact ⟨hknown, fun hnot => absurd (broken_add_one hlive) hnot⟩

theorem Tidy.routeOutput : Sends n (n.routeOutput now holddownTime) [] known said := by
  obtain ⟨htidy, hroutes⟩ := hn.purge now holddownTime
  obtain ⟨own, hown, -, -⟩ := htidy.own
  have hadd := lookup_foldl_addRoute broken (n.routingTable.purge n.gateways now holddownTime).2 n.advRoutingTable
  obtain ⟨htidy', hroutes'⟩ : (n.routeOutput now holddownTime).Tidy known said ∧
      ∀ d nh l, (n.routeOutput now holddownTime).HasRoute d nh l →
        RoutingProtocol.HasRoute
          { n with routingTable := (n.routingTable.purge n.gateways now holddownTime).1 } d nh l := by
    refine htidy.narrows rfl rfl rfl (fun d rt hrt => .inl ⟨hrt, ?_⟩) (fun d rt hrt => ?_) rfl
    · cases hadv : n.advRoutingTable.lookup d with
      | some a => exact ((hadd d).2 (Option.isSome_iff_exists.mpr ⟨a, hadv⟩)).trans hadv
      | none =>
        refine Option.eq_none_iff_forall_not_mem.mpr fun a ha => ?_
        rcases (hadd d).1 a ha with hold | ⟨x, hx, rfl, -⟩
        · cases hadv.symm.trans hold
        · cases (RoutingTable.mem_purge hx).2.symm.trans hrt
    · rcases (hadd d).1 rt hrt with hold | ⟨x, hx, rfl, rfl⟩
      · exact .inl hold
      · obtain ⟨hknown, -, hbound⟩ := hn.known_of_mem_purge hx
        exact .inr ⟨hknown, hbound⟩
  exact ⟨htidy', fun d nh l hroute => hroutes d nh l (hroutes' d nh l hroute), rfl,
    fun packet hpacket => absurd hpacket List.not_mem_nil⟩

theorem Tidy.handle {event : Event} (hhandle : n.handle now holddownTime event = some (n', packets)) :
    Sends n n' packets known said := by
  have hsend : ∀ {events : Ipv4Address → Option Bool} {scheduled : ℕ},
      RoutingProtocol.sendTriggeredUpdate { n with events, scheduled } = some (n', packets) →
        Sends n n' packets known said := by
    intro events scheduled hsend
    have htidy : ({ n with events, scheduled } : RoutingProtocol).Tidy known said := { hn with }
    have hsends := htidy.sendTriggeredUpdate hsend
    exact { hsends with }
  cases event with
  | settle dst => exact hsend hhandle
  | sendTriggeredUpdate => exact hsend hhandle
  | sendPeriodicUpdate =>
    obtain ⟨rfl, rfl⟩ := Prod.mk.inj (Option.some.inj hhandle)
    exact hn.sendPeriodicUpdate
  | routeOutput =>
    obtain ⟨rfl, rfl⟩ := Prod.mk.inj (Option.some.inj hhandle)
    exact hn.routeOutput

theorem Tidy.saying {said' : Ipv4Address → Label → Prop}
    (hfair : ∀ d c, said' d c → said d c ∨ known d ∧ ∀ nextHop l, n.HasRoute d nextHop l → c ≤ l) :
    n.Tidy known said' := by
  refine { hn with said := fun d c hc => ?_ }
  rcases hfair d c hc with hold | ⟨hknown, hle⟩
  · exact hn.said d c hold
  · refine ⟨hknown, fun rt hrt => hle _ _ ⟨fun heq => hn.main.2.1 (heq ▸ hknown), rt, hrt, rfl, .inl rfl⟩⟩

end

theorem lookup_new_single {main : Interface} (hne : main.broadcast ≠ loopback) (maximumSimulationTime : ℤ)
    (d : Ipv4Address) : (RoutingProtocol.new main [] maximumSimulationTime).routingTable.lookup d =
      if d = main.broadcast then some ⟨0, 0, maximumSimulationTime, 0, .valid, false⟩
      else if d = loopback then some ⟨0, 0, maximumSimulationTime, 0, .invalid, false⟩ else none := by
  have hnone : (RoutingTable.addRoute ∅ loopback ⟨0, 0, maximumSimulationTime, 0, .invalid, false⟩).lookup
      main.broadcast = none := by
    rw [RoutingTable.lookup_addRoute, if_neg hne, AList.lookup_empty]
  change (RoutingTable.addRoute _ main.broadcast _).lookup d = _
  rw [RoutingTable.lookup_addRoute, hnone, RoutingTable.lookup_addRoute, AList.lookup_empty, AList.lookup_empty]
  rfl

theorem tidy_new {main : Interface} {maximumSimulationTime : ℤ} (hlocal : known main.localAddress)
    (hbroadcast : ¬ known main.broadcast) (hloopback : known loopback) (hne : main.localAddress ≠ loopback)
    (hsaid : ∀ d c, ¬ said d c) : (RoutingProtocol.new main [] maximumSimulationTime).Tidy known said := by
  have hne' : main.broadcast ≠ loopback := fun heq => hbroadcast (heq ▸ hloopback)
  have hne'' : main.localAddress ≠ main.broadcast := fun heq => hbroadcast (heq ▸ hlocal)
  have hzero : ¬ Broken 0 ∧ (0 : UInt32).toNat + 1 < 2 ^ 32 := by decide
  refine ⟨fun d f a _ ha => (by cases ha), fun d rt hrt => ?_, fun d rt hrt => (by cases hrt),
    ⟨_, (lookup_new_single hne' _ _).trans (if_pos rfl), rfl, rfl⟩, rfl, ⟨hlocal, hbroadcast, ?_⟩,
    fun d c hc => absurd hc (hsaid d c)⟩
  · rw [lookup_new_single hne'] at hrt
    split_ifs at hrt with hd hd'
    · cases hrt
      exact ⟨fun hd' => absurd hd hd', hzero⟩
    · cases hrt
      exact ⟨fun _ => hd' ▸ hloopback, hzero⟩
  · exact (lookup_new_single hne' _ main.localAddress).trans (by rw [if_neg hne'', if_neg hne])

end RoutingProtocol

end Ns3.Dsdv
