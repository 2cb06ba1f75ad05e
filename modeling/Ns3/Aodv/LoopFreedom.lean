import Ns3.Aodv.Announcements

/-!
# Routing loops in a network of AODV nodes

Nodes that run `RoutingProtocol` and whatever messages they have sent: each may be received by any node that it is for,
at any time, any number of times or never.

* `loopFree_of_accepts` — where the steps of a run meet the condition, there is never a routing loop: what nodes have
  had is a sound `Lib.View`.
* `not_loopFree` — an old request that comes late makes one.
-/

namespace Ns3.Aodv

open Lib

universe u

/-- Nodes, and the messages sent. -/
structure Network (ι : Type u) where
  node : ι → RoutingProtocol
  now : ℤ
  /-- The messages that were sent. -/
  packets : List Packet

/-- What happens at a node. -/
structure NetworkEvent (ι : Type u) where
  node : ι
  now : ℤ
  /-- A message is received on an interface, or something else happens. -/
  event : (Packet × Interface) ⊕ RoutingProtocol.Event

namespace Network

variable {ι : Type u}

/-- The nodes when they are set up. -/
def init (interfaces : ι → List Interface) (maximumSimulationTime : ℤ) : Network ι where
  node i := .new (interfaces i) maximumSimulationTime
  now := 0
  packets := []

/-- An event can happen: a message was sent, and to the node, and comes by one of its interfaces. -/
def Enabled (s : Network ι) (e : NetworkEvent ι) : Prop :=
  s.now ≤ e.now ∧
    match e.event with
    | .inl (packet, receiver) => packet ∈ s.packets ∧ receiver ∈ (s.node e.node).interfaces ∧
        ∀ addr ∈ packet.destination, (s.node e.node).IsMyOwnAddress addr
    | .inr event => Node.Received (s.node e.node) (.inr event)

/-- The handler, and what it sends. -/
def handler (attrs : Attributes) (n : RoutingProtocol) (now : ℤ) :
    (Packet × Interface) ⊕ RoutingProtocol.Event → RoutingProtocol × List Packet
  | .inl (packet, receiver) => n.recvAodv attrs now packet.message receiver packet.sender
  | .inr event => n.handle attrs now event

/-- What an event leaves. -/
def exec [DecidableEq ι] (attrs : ι → Attributes) (s : Network ι) (e : NetworkEvent ι) : Network ι :=
  let (n, packets) := handler (attrs e.node) (s.node e.node) e.now e.event
  ⟨Function.update s.node e.node n, e.now, s.packets ++ packets⟩

/-- A network whose nodes run AODV. -/
def machine [DecidableEq ι] (attrs : ι → Attributes) : Machine (Network ι) (NetworkEvent ι) where
  enabled := Enabled
  exec s e := some (exec attrs s e)

/-- A node has a valid entry with a known number, by a neighbour. -/
def Next (s : Network ι) (dst : Ipv4Address) (i j : ι) : Prop :=
  ∃ rt, (s.node i).routingTable dst = some rt ∧ rt.flag = .valid ∧ rt.validSeqNo = true ∧
    (s.node j).IsMyOwnAddress rt.nextHop

/-- There is no routing loop. -/
def LoopFree (s : Network ι) : Prop := ∀ dst i, ¬ Relation.TransGen (s.Next dst) i i

/-- The numbers stay within half of the 32-bit space. -/
def WithinHalf (s : Network ι) (e : NetworkEvent ι) : Prop := (s.node e.node).seqNo.toNat + 1 < 2 ^ 31
deriving Decidable

/-- The condition on the messages that are received. -/
def Accepts (attrs : ι → Attributes) (s : Network ι) (e : NetworkEvent ι) : Prop :=
  match e.event with
  | .inl (packet, receiver) => ((s.node e.node).purge (attrs e.node) e.now).Accepts (attrs e.node) e.now
      s.packets receiver packet.sender packet.message
  | .inr _ => True

/-- No two nodes have an address in common, and none has a broadcast or loopback address. -/
structure Separate (interfaces : ι → List Interface) : Prop where
  /-- An address is that of one node. -/
  unique : ∀ i j, ∀ iface ∈ interfaces i, ∀ iface' ∈ interfaces j, iface.localAddress = iface'.localAddress → i = j
  /-- It is not that of a broadcast. -/
  broadcast : ∀ i j, ∀ iface ∈ interfaces i, ∀ iface' ∈ interfaces j, iface'.localAddress ≠ iface.broadcast
  /-- It is not `127.0.0.1`. -/
  loopback : ∀ i, ∀ iface ∈ interfaces i, iface.localAddress ≠ RoutingProtocol.loopback

/-- An address is a node's. -/
def Owns (interfaces : ι → List Interface) (i : ι) (addr : Ipv4Address) : Prop :=
  ∃ iface ∈ interfaces i, iface.localAddress = addr

theorem Separate.owner {interfaces : ι → List Interface} (h : Separate interfaces) {i j : ι} {addr : Ipv4Address}
    (hi : Owns interfaces i addr) (hj : Owns interfaces j addr) : i = j := by
  obtain ⟨iface, hiface, rfl⟩ := hi
  obtain ⟨iface', hiface', heq⟩ := hj
  exact h.unique i j iface hiface iface' hiface' heq.symm

/-- What nodes have said, and their routes. -/
def view (interfaces : ι → List Interface) (s : Network ι) : View ι Ipv4Address where
  claims j dst c := ∃ packet ∈ s.packets, Owns interfaces j packet.sender ∧ packet.message.claim = some (dst, c)
  route i dst j l := ∃ r, (s.node i).routes dst = some r ∧ r.validSeqNo = true ∧ Owns interfaces j r.nextHop ∧
    r.label = l

/-- The invariant. -/
structure Sound (interfaces : ι → List Interface) (s : Network ι) : Prop where
  own : ∀ i, (s.node i).interfaces = interfaces i
  seqNo : ∀ i, (s.node i).seqNo.toNat < 2 ^ 31
  known : ∀ i, (s.node i).Known
  /-- A route of one hop leads to the destination. -/
  direct : ∀ i j dst r, (s.node i).routes dst = some r → r.validSeqNo = true → r.hops = 1 →
    Owns interfaces j r.nextHop → Owns interfaces j dst
  /-- The messages are from nodes, and a distance of zero is that of the destination. -/
  packets : ∀ packet ∈ s.packets, ∃ j, Owns interfaces j packet.sender ∧
    ∀ dst c, packet.message.claim = some (dst, c) → c.number < 2 ^ 31 ∧ (c.distance = 0 ↔ Owns interfaces j dst)
  view : (view interfaces s).Sound

variable {interfaces : ι → List Interface} {s s' : Network ι} {e : NetworkEvent ι} {attrs : ι → Attributes}

theorem Sound.owns_iff (h : Sound interfaces s) {i : ι} {addr : Ipv4Address} :
    (s.node i).IsMyOwnAddress addr ↔ Owns interfaces i addr := by
  rw [RoutingProtocol.IsMyOwnAddress, h.own i]
  rfl

/-- What an event leaves, and the message that it may be. -/
theorem handler_handled (h : Sound interfaces s) (henabled : Enabled s e) (haccepts : Accepts attrs s e) :
    ∃ sender claim, RoutingProtocol.Handled (s.node e.node) s.packets sender claim
        (handler (attrs e.node) (s.node e.node) e.now e.event) ∧
      ∀ dst c, claim = some (dst, c) →
        ∃ packet ∈ s.packets, packet.sender = sender ∧ packet.message.claim = some (dst, c) := by
  obtain ⟨i, now, event⟩ := e
  cases event with
  | inl x =>
    obtain ⟨packet, receiver⟩ := x
    obtain ⟨-, hpacket, -, -⟩ := henabled
    obtain ⟨j, -, hclaims⟩ := h.packets packet hpacket
    refine ⟨packet.sender, packet.message.claim, RoutingProtocol.recvAodv_handled (h.known i) packet.message
      (fun dst c hc => (hclaims dst c hc).1) haccepts, fun dst c hc => ⟨packet, hpacket, rfl, hc⟩⟩
  | inr event =>
    exact ⟨.any, none, RoutingProtocol.handle_handled _ _ _ _ _ _, fun dst c hc => by cases hc⟩

section Step

variable {i : ι} {sender : Ipv4Address} {claim : Option (Ipv4Address × Label)} {x : RoutingProtocol × List Packet}

theorem toNat_lt_of_handled (hlt : (s.node i).seqNo.toNat + 1 < 2 ^ 31)
    (hx : RoutingProtocol.Handled (s.node i) s.packets sender claim x) : x.1.seqNo.toNat < 2 ^ 31 := by
  rcases hx.seqNo with hsame | hnext
  · rw [hsame]
    omega
  · rw [hnext, UInt32.toNat_add, UInt32.toNat_one, Nat.mod_eq_of_lt (by omega)]
    omega

/-- The routes of the node, after the event. -/
theorem known_of_handled (h : Sound interfaces s)
    (hx : RoutingProtocol.Handled (s.node i) s.packets sender claim x)
    (hclaim : ∀ dst c, claim = some (dst, c) →
      ∃ packet ∈ s.packets, packet.sender = sender ∧ packet.message.claim = some (dst, c)) : x.1.Known := by
  intro dst r hr hvalid
  have hmine : x.1.IsMyOwnAddress dst ↔ (s.node i).IsMyOwnAddress dst := by
    rw [RoutingProtocol.IsMyOwnAddress, hx.interfaces]
    rfl
  rw [hmine]
  rcases hx.routes dst r hr hvalid with hold | ⟨c, hc, hlearnt⟩
  · exact h.known i dst r hold hvalid
  · obtain ⟨packet, hpacket, -, hc'⟩ := hclaim dst c hc
    obtain ⟨j, -, hclaims⟩ := h.packets packet hpacket
    refine ⟨hlearnt.better.1, hlearnt.pos, hlearnt.hops_lt, ?_⟩
    rw [hlearnt.seqNo]
    exact (hclaims dst c hc').1

/-- The route that is learnt from a message leads to the node that sent it, which is nearer. -/
theorem claims_of_learnt (hseparate : Separate interfaces) (h : Sound interfaces s) {dst : Ipv4Address} {c : Label}
    {r : Route} (hlearnt : RoutingProtocol.Learnt (s.node i) s.packets sender dst c r)
    (hclaim : ∃ packet ∈ s.packets, packet.sender = sender ∧ packet.message.claim = some (dst, c)) {j : ι}
    (hj : Owns interfaces j r.nextHop) :
    r.label < c ∧ (view interfaces s).claims j dst c ∧ (r.hops = 1 → Owns interfaces j dst) := by
  obtain ⟨packet, hpacket, rfl, hc⟩ := hclaim
  obtain ⟨j', hj', hclaims⟩ := h.packets packet hpacket
  obtain ⟨-, hzero⟩ := hclaims dst c hc
  rcases hlearnt.nextHop with ⟨hhops, hnextHop⟩ | ⟨hsender, hhops, hnextHop⟩
  · rw [hnextHop] at hj
    obtain rfl := hseparate.owner hj hj'
    refine ⟨Label.lt_iff.mpr (.inr ⟨hlearnt.seqNo, ?_⟩), ⟨packet, hpacket, hj, hc⟩, fun hone => ?_⟩
    · rw [Route.label, hhops]
      exact Nat.lt_succ_self _
    · exact hzero.mp (by omega)
  · rw [hsender] at hj'
    have howns : Owns interfaces j dst := by
      rcases hnextHop with hnextHop | ⟨r₀, hr₀, hvalid, hone, hnextHop⟩
      · rwa [hnextHop] at hj
      · rw [← hnextHop] at hj
        exact h.direct i j dst r₀ hr₀ hvalid hone hj
    obtain rfl := hseparate.owner howns hj'
    refine ⟨Label.lt_iff.mpr (.inr ⟨hlearnt.seqNo, ?_⟩), ⟨packet, hpacket, by rwa [hsender], hc⟩, fun _ => howns⟩
    rw [Route.label, hhops, hzero.mpr howns]
    exact Nat.one_pos

/-- The network after an event that leaves a node as `x` says. -/
def after [DecidableEq ι] (s : Network ι) (i : ι) (now : ℤ) (x : RoutingProtocol × List Packet) : Network ι where
  node := Function.update s.node i x.1
  now
  packets := s.packets ++ x.2

variable [DecidableEq ι] {now : ℤ}

theorem node_after : (after s i now x).node i = x.1 := Function.update_self _ _ _

theorem node_after_of_ne {j : ι} (h : j ≠ i) : (after s i now x).node j = s.node j := Function.update_of_ne h _ _

/-- What the node says is about itself, or not better than the route that it has. -/
theorem claims_of_after (hseparate : Separate interfaces) (h : Sound interfaces s)
    (hx : RoutingProtocol.Handled (s.node i) s.packets sender claim x) {j : ι} {dst : Ipv4Address} {c : Label}
    (hc : (view interfaces (after s i now x)).claims j dst c) :
    (view interfaces s).claims j dst c ∨ j = i ∧ ((s.node i).IsMyOwnAddress dst ∨
      ∃ r, x.1.routes dst = some r ∧ r.validSeqNo = true ∧ c ≤ r.label) := by
  obtain ⟨packet, hpacket, howns, hclaim⟩ := hc
  rcases List.mem_append.mp hpacket with hold | hnew
  · exact .inl ⟨packet, hold, howns, hclaim⟩
  · obtain ⟨hmine, hsays⟩ := hx.packets packet hnew
    refine .inr ⟨hseparate.owner howns (h.owns_iff.mp hmine), ?_⟩
    rcases hsays dst c hclaim with ⟨hdst, -⟩ | ⟨-, -, hr⟩
    · exact .inl hdst
    · exact .inr hr

/-- What nodes have said, and their routes, make a step. -/
theorem view_step (hseparate : Separate interfaces) (h : Sound interfaces s)
    (hx : RoutingProtocol.Handled (s.node i) s.packets sender claim x)
    (hclaim : ∀ dst c, claim = some (dst, c) →
      ∃ packet ∈ s.packets, packet.sender = sender ∧ packet.message.claim = some (dst, c)) :
    View.Step i (view interfaces s) (view interfaces (after s i now x)) where
  claims := by
    rintro j dst c ⟨packet, hpacket, hrest⟩
    exact ⟨packet, List.mem_append_left _ hpacket, hrest⟩
  claims_other j dst c hj hc := (claims_of_after hseparate h hx hc).resolve_right fun hi => hj hi.1
  route_other j hj := by
    funext dst k l
    simp only [view, node_after_of_ne hj]
  route := by
    rintro dst j l ⟨r, hr, hvalid, hj, rfl⟩
    rw [node_after] at hr
    rcases hx.routes dst r hr hvalid with hold | ⟨c, hc, hlearnt⟩
    · exact .inl ⟨r, hold, hvalid, hj, rfl⟩
    · obtain ⟨hlt, hclaims, -⟩ := claims_of_learnt hseparate h hlearnt (hclaim dst c hc) hj
      refine .inr ⟨c, hclaims, hlt, ?_⟩
      rintro c' ⟨packet, hpacket, hmine, hc'⟩
      exact hlearnt.better.2 packet hpacket (h.owns_iff.mpr hmine) (dst, c') hc' rfl
  said := by
    intro dst c hc
    refine (claims_of_after hseparate h hx hc).imp_right ?_
    rintro ⟨-, hsays⟩ j l ⟨r, hr, hvalid, -, rfl⟩
    rw [node_after] at hr
    rcases hsays with hmine | ⟨r', hr', -, hle⟩
    · refine absurd hmine ?_
      rcases hx.routes dst r hr hvalid with hold | ⟨c, -, hlearnt⟩
      · exact (h.known i dst r hold hvalid).1
      · exact hlearnt.better.1
    · obtain rfl := Option.some.inj (hr.symm.trans hr')
      exact hle

/-- A step that meets the condition keeps the invariant. -/
theorem sound_after (hseparate : Separate interfaces) (h : Sound interfaces s)
    (hlt : (s.node i).seqNo.toNat + 1 < 2 ^ 31) (hx : RoutingProtocol.Handled (s.node i) s.packets sender claim x)
    (hclaim : ∀ dst c, claim = some (dst, c) →
      ∃ packet ∈ s.packets, packet.sender = sender ∧ packet.message.claim = some (dst, c)) :
    Sound interfaces (after s i now x) where
  own j := by
    by_cases hj : j = i
    · subst hj
      rw [node_after, hx.interfaces, h.own]
    · rw [node_after_of_ne hj, h.own]
  seqNo j := by
    by_cases hj : j = i
    · subst hj
      rw [node_after]
      exact toNat_lt_of_handled hlt hx
    · rw [node_after_of_ne hj]
      exact h.seqNo j
  known j := by
    by_cases hj : j = i
    · subst hj
      rw [node_after]
      exact known_of_handled h hx hclaim
    · rw [node_after_of_ne hj]
      exact h.known j
  direct j k dst r hr hvalid hone hk := by
    by_cases hj : j = i
    · subst hj
      rw [node_after] at hr
      rcases hx.routes dst r hr hvalid with hold | ⟨c, hc, hlearnt⟩
      · exact h.direct j k dst r hold hvalid hone hk
      · exact (claims_of_learnt hseparate h hlearnt (hclaim dst c hc) hk).2.2 hone
    · rw [node_after_of_ne hj] at hr
      exact h.direct j k dst r hr hvalid hone hk
  packets packet hpacket := by
    rcases List.mem_append.mp hpacket with hold | hnew
    · exact h.packets packet hold
    · obtain ⟨hmine, hclaims⟩ := hx.packets packet hnew
      refine ⟨i, h.owns_iff.mp hmine, fun dst c hc => ?_⟩
      rcases hclaims dst c hc with ⟨hdst, rfl⟩ | ⟨hdst, hpos, r, hr, hvalid, hle⟩
      · exact ⟨toNat_lt_of_handled hlt hx, iff_of_true rfl (h.owns_iff.mp hdst)⟩
      · obtain ⟨-, -, -, hnumber⟩ := known_of_handled h hx hclaim dst r hr hvalid
        refine ⟨?_, iff_of_false (by omega) (mt h.owns_iff.mpr hdst)⟩
        have hlabel : c.number ≤ r.seqNo.toNat := by
          rcases Label.le_iff.mp hle with hless | ⟨heq, -⟩
          · exact Nat.le_of_lt hless
          · exact Nat.le_of_eq heq
        omega
  view := h.view.step (view_step hseparate h hx hclaim)

end Step

/-- The entries of a node that was just set up. -/
theorem new_routes {ifaces : List Interface} {maximumSimulationTime : ℤ} {dst : Ipv4Address} {r : Route}
    (hr : (RoutingProtocol.new ifaces maximumSimulationTime).routes dst = some r) :
    r = ⟨true, 0, 1, dst⟩ ∧ (dst = RoutingProtocol.loopback ∨ ∃ iface ∈ ifaces, iface.broadcast = dst) := by
  have hadd : ∀ (t : RoutingTable) (dst' : Ipv4Address) (rt : RoutingTableEntry),
      (t.addRoute dst' rt).routes dst = some r → t.routes dst = some r ∨ dst = dst' ∧ r = rt.route := by
    intro t dst' rt h
    rw [RoutingTable.addRoute] at h
    split_ifs at h
    · exact .inl h
    · rw [RoutingTable.routes_set] at h
      by_cases hdst : dst = dst'
      · rw [hdst, Function.update_self] at h
        exact .inr ⟨hdst, (Option.some.inj h).symm⟩
      · rw [Function.update_of_ne hdst] at h
        exact .inl h
  have hfold : ∀ (l : List Interface) (t : RoutingTable),
      (l.foldl (fun t iface => t.addRoute iface.broadcast
        (.new 0 true 0 (some iface) 1 iface.broadcast maximumSimulationTime)) t).routes dst = some r →
      t.routes dst = some r ∨ r = ⟨true, 0, 1, dst⟩ ∧ ∃ iface ∈ l, iface.broadcast = dst := by
    intro l
    induction l with
    | nil => exact fun t h => .inl h
    | cons iface l ih =>
      intro t h
      rcases ih _ h with h | ⟨hroute, iface', hmem, hdst⟩
      · rcases hadd t _ _ h with h | ⟨hdst, hroute⟩
        · exact .inl h
        · subst hdst
          exact .inr ⟨hroute, iface, List.mem_cons_self, rfl⟩
      · exact .inr ⟨hroute, iface', List.mem_cons_of_mem _ hmem, hdst⟩
  rcases hfold ifaces _ hr with h | ⟨hroute, hiface⟩
  · rcases hadd (fun _ => none) _ _ h with h | ⟨hdst, hroute⟩
    · cases h
    · subst hdst
      exact ⟨hroute, .inl rfl⟩
  · exact ⟨hroute, .inr hiface⟩

theorem sound_init (hseparate : Separate interfaces) (maximumSimulationTime : ℤ) :
    Sound interfaces (init interfaces maximumSimulationTime) := by
  have hown : ∀ i dst r, (RoutingProtocol.new (interfaces i) maximumSimulationTime).routes dst = some r →
      r.nextHop = dst ∧ r.hops = 1 ∧ r.seqNo = 0 ∧ ∀ j, ¬ Owns interfaces j dst := by
    intro i dst r hr
    obtain ⟨rfl, hdst⟩ := new_routes hr
    refine ⟨rfl, rfl, rfl, ?_⟩
    rintro j ⟨iface', hiface', heq⟩
    rcases hdst with hloop | ⟨iface, hiface, hbroadcast⟩
    · exact hseparate.loopback j iface' hiface' (heq.trans hloop)
    · exact hseparate.broadcast i j iface hiface iface' hiface' (heq.trans hbroadcast.symm)
  refine ⟨fun i => rfl, fun i => Nat.two_pow_pos 31, fun i dst r hr hvalid => ?_, fun i j dst r hr _ _ hj => ?_,
    fun packet hpacket => absurd hpacket List.not_mem_nil, fun i dst j l hroute => ?_⟩
  · obtain ⟨-, hhops, hseqNo, howns⟩ := hown i dst r hr
    rw [hhops, hseqNo]
    exact ⟨howns i, le_refl 1, by omega, Nat.two_pow_pos 31⟩
  · obtain ⟨hnextHop, -, -, howns⟩ := hown i dst r hr
    exact hnextHop ▸ hj
  · obtain ⟨r, hr, -, hj, -⟩ := hroute
    obtain ⟨hnextHop, -, -, howns⟩ := hown i dst r hr
    exact absurd (hnextHop ▸ hj) (howns j)

theorem Sound.loopFree (h : Sound interfaces s) : LoopFree s := by
  intro dst i hcycle
  refine h.view.acyclic dst i (Relation.TransGen.mono (fun j k hn => ?_) i i hcycle)
  obtain ⟨rt, hrt, -, hvalid, hk⟩ := hn
  refine ⟨rt.route.label, rt.route, ?_, hvalid, h.owns_iff.mp hk, rfl⟩
  rw [RoutingProtocol.routes, RoutingTable.routes, hrt, Option.map_some]

variable [DecidableEq ι]

theorem exec_eq_after : exec attrs s e =
    after s e.node e.now (handler (attrs e.node) (s.node e.node) e.now e.event) := rfl

/-- Where every message of a run that changes a route (a request that is no duplicate, a reply, a hello message) is not
outdated, says better of the destination than all that the node has said itself, and there are at most 255 hops, there
is no routing loop. -/
theorem loopFree_of_accepts (attrs : ι → Attributes) (interfaces : ι → List Interface)
    (hseparate : Separate interfaces) (maximumSimulationTime : ℤ) (tr : List (Network ι × NetworkEvent ι))
    (s : Network ι) (h : (machine attrs).Run (init interfaces maximumSimulationTime) tr s)
    (hhalf : Machine.Meets WithinHalf tr) (haccepts : Machine.Meets (Accepts attrs) tr) :
    Machine.EveryState LoopFree tr s := by
  have hboth : Machine.Meets (fun s e => WithinHalf s e ∧ Accepts attrs s e) tr :=
    fun x hx => ⟨hhalf x hx, haccepts x hx⟩
  have hsound : Machine.EveryState (Sound interfaces) tr s := by
    refine h.everyState_of_meets hboth (sound_init hseparate maximumSimulationTime) ?_
    rintro s e s' hs ⟨hlt, hacc⟩ ⟨henabled, hexec⟩
    cases hexec
    obtain ⟨sender, claim, hx, hclaim⟩ := handler_handled hs henabled hacc
    rw [exec_eq_after]
    exact sound_after hseparate hs hlt hx hclaim
  exact ⟨fun x hx => (hsound.1 x hx).loopFree, hsound.2.loopFree⟩

instance (s : Network ι) (e : NetworkEvent ι) : Decidable (Enabled s e) :=
  match h : e.event with
  | .inl (packet, receiver) => decidable_of_iff (s.now ≤ e.now ∧ packet ∈ s.packets ∧
      receiver ∈ (s.node e.node).interfaces ∧ ∀ addr ∈ packet.destination, (s.node e.node).IsMyOwnAddress addr)
      (by rw [Enabled, h])
  | .inr event => decidable_of_iff (s.now ≤ e.now ∧ Node.Received (s.node e.node) (.inr event)) (by rw [Enabled, h])

instance (attrs : ι → Attributes) (s : Network ι) (e : NetworkEvent ι) :
    Decidable ((machine attrs).enabled s e) :=
  inferInstanceAs (Decidable (Enabled s e))

instance (attrs : ι → Attributes) (s : Network ι) (e : NetworkEvent ι) : Decidable (Accepts attrs s e) :=
  match h : e.event with
  | .inl (packet, receiver) => decidable_of_iff (((s.node e.node).purge (attrs e.node) e.now).Accepts (attrs e.node)
      e.now s.packets receiver packet.sender packet.message) (by rw [Accepts, h])
  | .inr _ => .isTrue (by rw [Accepts, h]; trivial)

/-- Three nodes, `10.1.1.1` to `10.1.1.3`. -/
def interface (i : Fin 3) : Interface := ⟨⟨BitVec.ofNat 32 (0x0a010101 + i)⟩, ⟨0x0a0101ff⟩⟩

/-- Each has one interface. -/
def single (i : Fin 3) : List Interface := [interface i]

/-- The first or second request of the third node for `10.1.1.9`, as a node passes it on. -/
def request (k : UInt32) (sender : Fin 3) (hopCount : ℕ) : Packet :=
  ⟨(interface sender).localAddress, none,
    .rreq ⟨hopCount, k, ⟨0x0a010109⟩, 0, true, (interface 2).localAddress, k, true, false⟩⟩

/-- The request comes over the first node to the second one. -/
theorem loopFree_of_accepts_request : ∃ out,
    (machine fun _ => .default).replay (init single 0) [⟨2, 0, .inr (.sendRequest ⟨0x0a010109⟩)⟩,
      ⟨0, 1, .inl (request 1 2 0, interface 0)⟩, ⟨1, 2, .inl (request 1 0 1, interface 1)⟩] = some out ∧
      Machine.EveryState LoopFree out.1 out.2 := by
  obtain ⟨out, hout, hrun, hhalf, haccepts⟩ := Machine.exists_replay (M := machine fun _ => .default)
    (init single 0) [⟨2, 0, .inr (.sendRequest ⟨0x0a010109⟩)⟩, ⟨0, 1, .inl (request 1 2 0, interface 0)⟩,
      ⟨1, 2, .inl (request 1 0 1, interface 1)⟩]
    (P := fun out => Machine.Meets WithinHalf out.1 ∧ Machine.Meets (Accepts fun _ => .default) out.1)
    (by decide +kernel)
  exact ⟨out, hout, loopFree_of_accepts (fun _ => .default) single
    ⟨by decide +kernel, by decide +kernel, by decide +kernel⟩ 0 out.1 out.2 hrun hhalf haccepts⟩

/-- The first request reaches the first node, and the second one the second node and then the first; then the second
node receives the first request from the first node. -/
theorem not_loopFree : ¬ ∀ (tr : List (Network (Fin 3) × NetworkEvent (Fin 3))) (s : Network (Fin 3)),
    (machine fun _ => .default).Run (init single 0) tr s → Machine.Meets WithinHalf tr →
      Machine.EveryState LoopFree tr s := by
  intro h
  obtain ⟨out, -, hrun, hhalf, ⟨rt₀, hrt₀, hnext₀⟩, ⟨rt₁, hrt₁, hnext₁⟩⟩ :=
    Machine.exists_replay (M := machine fun _ => .default) (init single 0)
      [⟨2, 0, .inr (.sendRequest ⟨0x0a010109⟩)⟩, ⟨0, 1, .inl (request 1 2 0, interface 0)⟩,
        ⟨2, 2, .inr (.sendRequest ⟨0x0a010109⟩)⟩, ⟨1, 3, .inl (request 2 2 0, interface 1)⟩,
        ⟨0, 4, .inl (request 2 1 1, interface 0)⟩, ⟨1, 5, .inl (request 1 0 1, interface 1)⟩]
      (P := fun out => Machine.Meets WithinHalf out.1 ∧
        (∃ rt ∈ (out.2.node 0).routingTable (interface 2).localAddress, rt.flag = .valid ∧ rt.validSeqNo = true ∧
          (out.2.node 1).IsMyOwnAddress rt.nextHop) ∧
        ∃ rt ∈ (out.2.node 1).routingTable (interface 2).localAddress, rt.flag = .valid ∧ rt.validSeqNo = true ∧
          (out.2.node 0).IsMyOwnAddress rt.nextHop) (by decide +kernel)
  have hloop := (h out.1 out.2 hrun hhalf).2 (interface 2).localAddress 0
  exact hloop (.tail (.single ⟨rt₀, hrt₀, hnext₀⟩) ⟨rt₁, hrt₁, hnext₁⟩)

end Network

end Ns3.Aodv
