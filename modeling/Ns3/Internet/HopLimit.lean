import Ns3.Internet.Ipv4Fragments
import Ns3.Internet.Ipv6ExtensionRouting
import Ns3.Internet.Ipv6Fragments

/-!
# Hop limits

What sends a packet on that came to a node: unicast and multicast forwarding of `Ipv4L3Protocol` and
`Ipv6L3Protocol` (`internet/model/ipv4-l3-protocol.cc`, `ipv6-l3-protocol.cc`), loose source routing, and
`Ipv6TunnelL4Protocol::Receive` (`pmip6/model/ipv6-tunnel-l4-protocol.cc`). The hop limit is an 8-bit number that is
decremented first; forwarding then compares it with zero, the tunnel does not compare it.

* `Forwarding.copies` — the copies of a packet that are sent on; `hopLimit_copy` says what their hop limit is.
* `hopLimit_iff` — on its way from node to node the hop limit of a packet decreases and does not come to zero, if and
  only if it is not zero where it is forwarded, and at least two where it leaves a tunnel; and then it is forwarded
  254 times at most.
-/

namespace Ns3

open Lib

/-- The interface of a route. -/
structure OutInterface where
  isUp : Bool
  /-- `GetMtu` of its device. -/
  mtu : ℕ

namespace Ipv4L3Protocol

/-- `SendRealOut`: what is sent, with no route for a null pointer. -/
def sendRealOut (route : Option OutInterface) (p : Ipv4Packet) : List Ipv4Packet :=
  match route with
  | none => []
  | some outInterface =>
    if outInterface.isUp then
      if Ipv4Header.serializedSize + p.payload.length > outInterface.mtu then
        (doFragmentation p outInterface.mtu).getD []
      else [p]
    else []

/-- `IpForward`: what is sent on. -/
def ipForward (rtentry : Option OutInterface) (p : Ipv4Packet) : List Ipv4Packet :=
  let ipHeader := { p.header with ttl := p.header.ttl - 1 }
  if ipHeader.ttl = 0 then [] else sendRealOut rtentry { p with header := ipHeader }

/-- The loop of `IpMulticastForward` over the interfaces of the route. -/
def ipMulticastForward (p : Ipv4Packet) : List OutInterface → List Ipv4Packet
  | [] => []
  | outInterface :: ttlMap =>
    let h := { p.header with ttl := p.header.ttl - 1 }
    if h.ttl = 0 then [] else sendRealOut (some outInterface) { p with header := h } ++ ipMulticastForward p ttlMap

end Ipv4L3Protocol

namespace Ipv6L3Protocol

/-- What `SendRealOut` needs of a node. -/
structure Node where
  ipForward : Bool
  defaultTtl : UInt8
  /-- The identification that `GetFragments` draws. -/
  identification : ℕ

/-- `SendRealOut`: what is sent, with no route for a null pointer. -/
def sendRealOut (node : Node) (route : Option OutInterface) (p : Ipv6Packet) : List Ipv6Packet :=
  match route with
  | none => []
  | some outInterface =>
    if p.octets.length > outInterface.mtu + 40 then
      if node.ipForward then []
      else
        let fragments :=
          (Ipv6ExtensionFragment.getFragments p outInterface.mtu node.identification).getD []
        if outInterface.isUp then fragments else []
    else if outInterface.isUp then [p] else []

/-- `IpForward`: what is sent on. The ICMP messages are left out. -/
def ipForward (node : Node) (rtentry : Option OutInterface) (p : Ipv6Packet) : List Ipv6Packet :=
  let ipHeader := p.header.setHopLimit (p.header.hopLimit - 1)
  if ipHeader.source.isLinkLocal then []
  else if ipHeader.hopLimit = 0 then []
  else sendRealOut node rtentry { p with header := ipHeader }

/-- The loop of `IpMulticastForward` over the interfaces of the route. -/
def ipMulticastForward (node : Node) (p : Ipv6Packet) : List OutInterface → List Ipv6Packet
  | [] => []
  | outInterface :: ttlMap =>
    let h := p.header.setHopLimit (p.header.hopLimit - 1)
    if h.hopLimit = 0 then []
    else sendRealOut node (some outInterface) { p with header := h } ++ ipMulticastForward node p ttlMap

/-- The header of a packet to send. -/
def buildHeader (src dst : Ipv6Address) (protocol : UInt8) (payloadSize : ℕ) (ttl : UInt8) : Ipv6Header :=
  ⟨src, dst, protocol, ttl, payloadSize % 2 ^ 16⟩

/-- `Send`, of a packet with a tag for the hop limit or without one. Where there is no route with the packet, it is
the one of `RouteOutput`. -/
def send (node : Node) (packet : List UInt8) (tag : Option UInt8) (source destination : Ipv6Address)
    (protocol : UInt8) (route newRoute : Option OutInterface) : List Ipv6Packet :=
  let ttl := tag.getD node.defaultTtl
  let hdr := buildHeader source destination protocol packet.length ttl
  match route with
  | some outInterface => sendRealOut node (some outInterface) ⟨hdr, packet⟩
  | none => sendRealOut node newRoute ⟨hdr, packet⟩

end Ipv6L3Protocol

namespace Ipv6TunnelL4Protocol

/-- `Receive` of a packet in a packet: what is sent on, with the route of the static routing and that of the node. -/
def receive (node : Ipv6L3Protocol.Node) (route newRoute : Option OutInterface) (inner : Ipv6Packet) :
    List Ipv6Packet :=
  let source := inner.header.source
  let destination := inner.header.destination
  if source.isLinkLocal || destination.isLinkLocal || destination.isAllNodesMulticast ||
      destination.isAllRoutersMulticast || destination.isAllHostsMulticast || destination.isSolicitedMulticast then []
  else
    let tag := inner.header.hopLimit - 1
    Ipv6L3Protocol.send node inner.octets (some tag) source destination inner.header.nextHeader route newRoute

end Ipv6TunnelL4Protocol

/-! ### Copies keep the hop limit of their header -/

namespace Ipv4L3Protocol

theorem ttl_fragmentLoop {packet g : Ipv4Packet} {size original rounds offset : ℕ} {more : Bool} {gs : List Ipv4Packet}
    (h : fragmentLoop packet size more original rounds offset = some gs) (hg : g ∈ gs) :
    g.header.ttl = packet.header.ttl := by
  induction rounds generalizing offset gs with
  | zero => exact absurd h (by simp [fragmentLoop])
  | succ rounds ih =>
    rw [fragmentLoop] at h
    dsimp only at h
    split at h
    · exact absurd h (by simp)
    · rename_i fragmentHeader hheader
      have hfragment : fragmentHeader.ttl = packet.header.ttl := by
        rw [Ipv4Header.setFragmentOffset] at hheader
        split at hheader
        · cases hheader
          dsimp only
          split <;> rfl
        · exact absurd hheader (by simp)
      split at h
      · obtain ⟨rest, hrest, rfl⟩ := Option.map_eq_some_iff.mp h
        rcases List.mem_cons.mp hg with rfl | hg
        · exact hfragment
        · exact ih hrest hg
      · cases h
        rw [List.mem_singleton.mp hg]
        exact hfragment

variable {p q : Ipv4Packet}

theorem ttl_sendRealOut {route : Option OutInterface} (hq : q ∈ sendRealOut route p) : q.header.ttl = p.header.ttl := by
  cases route with
  | none => exact absurd hq List.not_mem_nil
  | some outInterface =>
    rw [sendRealOut] at hq
    split_ifs at hq
    · cases hgs : doFragmentation p outInterface.mtu with
      | none =>
        rw [hgs] at hq
        exact absurd hq List.not_mem_nil
      | some gs =>
        rw [hgs] at hq
        exact ttl_fragmentLoop hgs hq
    · rw [List.mem_singleton.mp hq]
    · exact absurd hq List.not_mem_nil

theorem ttl_ipForward {rtentry : Option OutInterface} (hq : q ∈ ipForward rtentry p) :
    q.header.ttl = p.header.ttl - 1 ∧ p.header.ttl - 1 ≠ 0 := by
  rw [ipForward] at hq
  dsimp only at hq
  split_ifs at hq with hzero
  · exact absurd hq List.not_mem_nil
  · exact ⟨ttl_sendRealOut hq, hzero⟩

theorem ttl_ipMulticastForward {ttlMap : List OutInterface} (hq : q ∈ ipMulticastForward p ttlMap) :
    q.header.ttl = p.header.ttl - 1 ∧ p.header.ttl - 1 ≠ 0 := by
  induction ttlMap with
  | nil => exact absurd hq List.not_mem_nil
  | cons outInterface ttlMap ih =>
    rw [ipMulticastForward] at hq
    dsimp only at hq
    split_ifs at hq with hzero
    · exact absurd hq List.not_mem_nil
    · rcases List.mem_append.mp hq with hq | hq
      · exact ⟨ttl_sendRealOut hq, hzero⟩
      · exact ih hq

end Ipv4L3Protocol

namespace Ipv6ExtensionFragment

theorem hopLimit_fragmentLoop {ipv6Header : Ipv6Header} {unfragmentablePart : List ChainHeader} {nextHeader : UInt8}
    {p : List UInt8} {max identification rounds offset : ℕ} {fragmentHeader : Ipv6ExtensionFragmentHeader}
    {gs : List Ipv6Packet} {g : Ipv6Packet} (h : fragmentLoop ipv6Header unfragmentablePart nextHeader p max
      identification rounds offset fragmentHeader = some gs) (hg : g ∈ gs) :
    g.header.hopLimit = ipv6Header.hopLimit := by
  induction rounds generalizing offset fragmentHeader gs with
  | zero => exact absurd h (by simp [fragmentLoop])
  | succ rounds ih =>
    rw [fragmentLoop] at h
    split at h
    · obtain ⟨rest, hrest, rfl⟩ := Option.map_eq_some_iff.mp h
      rcases List.mem_cons.mp hg with rfl | hg
      · rfl
      · exact ih hrest hg
    · cases h
      rw [List.mem_singleton.mp hg]
      rfl

theorem hopLimit_getFragments {p g : Ipv6Packet} {maxFragmentSize identification : ℕ} {gs : List Ipv6Packet}
    (h : getFragments p maxFragmentSize identification = some gs) (hg : g ∈ gs) :
    g.header.hopLimit = p.header.hopLimit := by
  obtain ⟨⟨ipv6Header, unfragmentable, nextHeader, rest⟩, hpart, h⟩ := Option.bind_eq_some_iff.mp h
  refine (hopLimit_fragmentLoop h hg).trans ?_
  rw [unfragmentablePart] at hpart
  split at hpart
  · obtain ⟨x, -, hx⟩ := Option.map_eq_some_iff.mp hpart
    obtain ⟨rfl, -⟩ := Prod.mk.inj hx
    rfl
  · obtain ⟨rfl, -⟩ := Prod.mk.inj (Option.some.inj hpart)
    rfl

end Ipv6ExtensionFragment

namespace Ipv6L3Protocol

variable {node : Node} {p q : Ipv6Packet}

theorem hopLimit_sendRealOut {route : Option OutInterface} (hq : q ∈ sendRealOut node route p) :
    q.header.hopLimit = p.header.hopLimit := by
  cases route with
  | none => exact absurd hq List.not_mem_nil
  | some outInterface =>
    rw [sendRealOut] at hq
    dsimp only at hq
    split_ifs at hq
    · exact absurd hq List.not_mem_nil
    · cases hgs : Ipv6ExtensionFragment.getFragments p outInterface.mtu node.identification with
      | none =>
        rw [hgs] at hq
        exact absurd hq List.not_mem_nil
      | some gs =>
        rw [hgs] at hq
        exact Ipv6ExtensionFragment.hopLimit_getFragments hgs hq
    · exact absurd hq List.not_mem_nil
    · rw [List.mem_singleton.mp hq]
    · exact absurd hq List.not_mem_nil

theorem hopLimit_ipForward {rtentry : Option OutInterface} (hq : q ∈ ipForward node rtentry p) :
    q.header.hopLimit = p.header.hopLimit - 1 ∧ p.header.hopLimit - 1 ≠ 0 := by
  rw [ipForward] at hq
  split_ifs at hq with hlocal hzero
  · exact absurd hq List.not_mem_nil
  · exact absurd hq List.not_mem_nil
  · exact ⟨hopLimit_sendRealOut hq, hzero⟩

theorem hopLimit_ipMulticastForward {ttlMap : List OutInterface} (hq : q ∈ ipMulticastForward node p ttlMap) :
    q.header.hopLimit = p.header.hopLimit - 1 ∧ p.header.hopLimit - 1 ≠ 0 := by
  induction ttlMap with
  | nil => exact absurd hq List.not_mem_nil
  | cons outInterface ttlMap ih =>
    rw [ipMulticastForward] at hq
    split_ifs at hq with hzero
    · exact absurd hq List.not_mem_nil
    · rcases List.mem_append.mp hq with hq | hq
      · exact ⟨hopLimit_sendRealOut hq, hzero⟩
      · exact ih hq

theorem hopLimit_send {packet : List UInt8} {ttl protocol : UInt8} {source destination : Ipv6Address}
    {route newRoute : Option OutInterface} {q : Ipv6Packet}
    (hq : q ∈ send node packet (some ttl) source destination protocol route newRoute) : q.header.hopLimit = ttl := by
  cases route with
  | none =>
    have hsent : q ∈ sendRealOut node newRoute
        ⟨buildHeader source destination protocol packet.length ttl, packet⟩ := hq
    exact hopLimit_sendRealOut hsent
  | some outInterface =>
    have hsent : q ∈ sendRealOut node (some outInterface)
        ⟨buildHeader source destination protocol packet.length ttl, packet⟩ := hq
    exact hopLimit_sendRealOut hsent

end Ipv6L3Protocol

theorem Ipv6TunnelL4Protocol.hopLimit_receive {node : Ipv6L3Protocol.Node} {route newRoute : Option OutInterface}
    {inner q : Ipv6Packet} (hq : q ∈ receive node route newRoute inner) :
    q.header.hopLimit = inner.header.hopLimit - 1 := by
  rw [receive] at hq
  dsimp only at hq
  split_ifs at hq
  · exact absurd hq List.not_mem_nil
  · exact Ipv6L3Protocol.hopLimit_send hq

/-! ### From node to node -/

/-- A packet. -/
inductive IpPacket where
  | v4 (p : Ipv4Packet)
  | v6 (p : Ipv6Packet)
  deriving DecidableEq

/-- The TTL or hop limit of a packet. -/
def IpPacket.hopLimit : IpPacket → UInt8
  | v4 p => p.header.ttl
  | v6 p => p.header.hopLimit

/-- What a node does with a packet that it has received, with the routes it finds. -/
inductive Forwarding where
  /-- `Ipv4L3Protocol::IpForward`. -/
  | unicast4 (rtentry : Option OutInterface)
  /-- `Ipv4L3Protocol::IpMulticastForward`. -/
  | multicast4 (ttlMap : List OutInterface)
  /-- `Ipv6L3Protocol::IpForward`. -/
  | unicast6 (node : Ipv6L3Protocol.Node) (rtentry : Option OutInterface)
  /-- `Ipv6L3Protocol::IpMulticastForward`. -/
  | multicast6 (node : Ipv6L3Protocol.Node) (ttlMap : List OutInterface)
  /-- `Ipv6ExtensionLooseRouting::Process`. -/
  | looseRouting (node : Ipv6L3Protocol.Node) (offset : UInt8) (rtentry : Option OutInterface)
  /-- `Ipv6TunnelL4Protocol::Receive`, of what carries the packet. -/
  | tunnel (node : Ipv6L3Protocol.Node) (route newRoute : Option OutInterface)

namespace Forwarding

/-- The copies that are sent on. -/
def copies : Forwarding → IpPacket → List IpPacket
  | unicast4 rtentry, .v4 p => (Ipv4L3Protocol.ipForward rtentry p).map .v4
  | multicast4 ttlMap, .v4 p => (Ipv4L3Protocol.ipMulticastForward p ttlMap).map .v4
  | unicast6 node rtentry, .v6 p => (Ipv6L3Protocol.ipForward node rtentry p).map .v6
  | multicast6 node ttlMap, .v6 p => (Ipv6L3Protocol.ipMulticastForward node p ttlMap).map .v6
  | looseRouting node offset rtentry, .v6 p =>
    match (Ipv6ExtensionLooseRouting.process p.octets offset p.header).bind RoutingProcessed.resent with
    | none => []
    | some q => (Ipv6L3Protocol.sendRealOut node rtentry q).map .v6
  | tunnel node route newRoute, .v6 p => (Ipv6TunnelL4Protocol.receive node route newRoute p).map .v6
  | _, _ => []

/-- The hop limit with which a packet is sent on. -/
def Sends (hopLimit : UInt8) : Forwarding → Prop
  | looseRouting _ _ _ => 1 < hopLimit
  | tunnel _ _ _ => True
  | _ => hopLimit - 1 ≠ 0

/-- A copy has a hop limit that is one less in eight bits. -/
theorem hopLimit_copy {f : Forwarding} {p q : IpPacket} (hq : q ∈ f.copies p) :
    q.hopLimit = p.hopLimit - 1 ∧ f.Sends p.hopLimit := by
  cases p with
  | v4 p =>
    cases f with
    | unicast4 rtentry =>
      obtain ⟨r, hr, rfl⟩ := List.mem_map.mp hq
      exact Ipv4L3Protocol.ttl_ipForward hr
    | multicast4 ttlMap =>
      obtain ⟨r, hr, rfl⟩ := List.mem_map.mp hq
      exact Ipv4L3Protocol.ttl_ipMulticastForward hr
    | unicast6 | multicast6 | looseRouting | tunnel => exact absurd hq List.not_mem_nil
  | v6 p =>
    cases f with
    | unicast4 | multicast4 => exact absurd hq List.not_mem_nil
    | unicast6 node rtentry =>
      obtain ⟨r, hr, rfl⟩ := List.mem_map.mp hq
      exact Ipv6L3Protocol.hopLimit_ipForward hr
    | multicast6 node ttlMap =>
      obtain ⟨r, hr, rfl⟩ := List.mem_map.mp hq
      exact Ipv6L3Protocol.hopLimit_ipMulticastForward hr
    | looseRouting node offset rtentry =>
      rw [copies] at hq
      split at hq
      · exact absurd hq List.not_mem_nil
      · rename_i resent hresent
        obtain ⟨processed, hprocessed, hresent⟩ := Option.bind_eq_some_iff.mp hresent
        obtain ⟨r, hr, rfl⟩ := List.mem_map.mp hq
        obtain ⟨hlimit, hlt⟩ := Ipv6ExtensionLooseRouting.hopLimit_resent hprocessed hresent
        exact ⟨(Ipv6L3Protocol.hopLimit_sendRealOut hr).trans hlimit, hlt⟩
    | tunnel node route newRoute =>
      obtain ⟨r, hr, rfl⟩ := List.mem_map.mp hq
      exact ⟨Ipv6TunnelL4Protocol.hopLimit_receive hr, trivial⟩

/-- A copy is followed on its way. -/
structure Event where
  forwarding : Forwarding
  /-- Which of the copies is followed. -/
  copy : ℕ

/-- A packet goes from node to node. -/
def machine : Machine IpPacket Event where
  enabled p e := e.copy < (e.forwarding.copies p).length
  exec p e := (e.forwarding.copies p)[e.copy]?

instance (p : IpPacket) (e : Event) : Decidable (machine.enabled p e) :=
  inferInstanceAs (Decidable (_ < _))

/-- The hop limit becomes smaller, and is at least one. -/
def Decreases (p : IpPacket) (_ : Event) (q : IpPacket) : Prop := q.hopLimit < p.hopLimit ∧ 1 ≤ q.hopLimit
deriving Decidable

/-- The hop limit is not zero where a packet is forwarded, and at least two where it leaves a tunnel. -/
def Enough (p : IpPacket) (e : Event) : Prop :=
  match e.forwarding with
  | looseRouting _ _ _ => True
  | tunnel _ _ _ => 2 ≤ p.hopLimit
  | _ => p.hopLimit ≠ 0

instance (p : IpPacket) : (e : Event) → Decidable (Enough p e)
  | ⟨looseRouting _ _ _, _⟩ => .isTrue trivial
  | ⟨tunnel _ _ _, _⟩ => inferInstanceAs (Decidable (_ ≤ _))
  | ⟨unicast4 _, _⟩ | ⟨multicast4 _, _⟩ | ⟨unicast6 _ _, _⟩ | ⟨multicast6 _ _, _⟩ => inferInstanceAs (Decidable (_ ≠ _))

theorem sub_one_decreases_iff (h : UInt8) : h - 1 < h ∧ 1 ≤ h - 1 ↔ 2 ≤ h := by
  have hlt := h.toNat_lt
  have hsub : (h - 1).toNat = (2 ^ 8 - 1 + h.toNat) % 2 ^ 8 := UInt8.toNat_sub h 1
  rw [UInt8.lt_iff_toNat_lt, UInt8.le_iff_toNat_le, UInt8.le_iff_toNat_le, hsub]
  change (2 ^ 8 - 1 + h.toNat) % 2 ^ 8 < h.toNat ∧ 1 ≤ (2 ^ 8 - 1 + h.toNat) % 2 ^ 8 ↔ 2 ≤ h.toNat
  omega

theorem two_le_iff (h : UInt8) (hone : h - 1 ≠ 0) : 2 ≤ h ↔ h ≠ 0 := by
  have hlt := h.toNat_lt
  have hsub : (h - 1).toNat = (2 ^ 8 - 1 + h.toNat) % 2 ^ 8 := UInt8.toNat_sub h 1
  rw [ne_eq, ← UInt8.toNat_inj, hsub] at hone
  rw [ne_eq, ← UInt8.toNat_inj, UInt8.le_iff_toNat_le]
  change ¬ (2 ^ 8 - 1 + h.toNat) % 2 ^ 8 = 0 at hone
  change 2 ≤ h.toNat ↔ ¬ h.toNat = 0
  omega

theorem decreases_iff {p q : IpPacket} {e : Event} (h : machine.Step p e q) : Decreases p e q ↔ Enough p e := by
  obtain ⟨f, copy⟩ := e
  obtain ⟨hlimit, hsends⟩ := hopLimit_copy (List.mem_of_getElem? h.2)
  rw [Decreases, hlimit, sub_one_decreases_iff]
  cases f with
  | unicast4 | multicast4 | unicast6 | multicast6 => exact two_le_iff _ hsends
  | looseRouting => exact iff_of_true hsends trivial
  | tunnel => exact Iff.rfl

/-- While there is enough of it, the hop limit counts the forwards. -/
theorem length_le {p q : IpPacket} {tr : List (IpPacket × Event)} (hrun : machine.Run p tr q)
    (h : Machine.Meets Enough tr) : tr.length ≤ 254 := by
  have hle : tr.length + q.hopLimit.toNat ≤ p.hopLimit.toNat :=
    hrun.length_add_le (M := machine) h fun _ _ _ he hs => UInt8.lt_iff_toNat_lt.mp ((decreases_iff hs).mpr he).1
  have hlt := p.hopLimit.toNat_lt
  cases hrun with
  | nil => exact Nat.zero_le _
  | snoc _ hs =>
    have hone := ((decreases_iff hs).mpr (Machine.meets_snoc.mp h).2).2
    rw [UInt8.le_iff_toNat_le] at hone
    change 1 ≤ _ at hone
    omega

/-- The hop limit of a packet decreases on its way and does not come to zero if and only if it is enough at every node;
then the packet is forwarded 254 times at most. -/
theorem hopLimit_iff {p q : IpPacket} {tr : List (IpPacket × Event)} (hrun : machine.Run p tr q) :
    (Machine.EveryStep Decreases tr q ↔ Machine.Meets Enough tr) ∧ (Machine.Meets Enough tr → tr.length ≤ 254) := by
  exact ⟨hrun.everyStep_iff fun _ _ _ => decreases_iff, length_le hrun⟩

/-- A packet from `2001::` to `2002::` with a payload of one octet. -/
def packetOf (hopLimit : UInt8) : IpPacket :=
  .v6 ⟨⟨.ofOctets 0x20 0x01, .ofOctets 0x20 0x02, 17, hopLimit, 1⟩, [7]⟩

/-- A router with an interface that is up. -/
def router : Ipv6L3Protocol.Node := ⟨true, 64, 0⟩

/-- An interface that is up, with an MTU of 1500 octets. -/
def outInterface : OutInterface := ⟨true, 1500⟩

/-- A packet with hop limit 64 that is forwarded, leaves a tunnel, and is forwarded again. -/
theorem hopLimit_of_64 : ∃ out, machine.replay (packetOf 64) [⟨unicast6 router outInterface, 0⟩,
      ⟨tunnel router outInterface none, 0⟩, ⟨multicast6 router [outInterface, outInterface], 1⟩] = some out ∧
    Machine.EveryStep Decreases out.1 out.2 ∧ out.2 = packetOf 61 := by
  obtain ⟨out, hout, hrun, hmeets, hlast⟩ := Machine.exists_replay (M := machine) (packetOf 64)
    [⟨unicast6 router outInterface, 0⟩, ⟨tunnel router outInterface none, 0⟩,
      ⟨multicast6 router [outInterface, outInterface], 1⟩]
    (P := fun out => Machine.Meets Enough out.1 ∧ out.2 = packetOf 61) (by decide +kernel)
  exact ⟨out, hout, (hopLimit_iff hrun).1.mpr hmeets, hlast⟩

/-- A packet that comes out of a tunnel with hop limit 1 goes on with 0, and the next router forwards it with 255. -/
theorem not_decreases : ¬ ∀ (p q : IpPacket) (tr : List (IpPacket × Event)), machine.Run p tr q →
    Machine.EveryStep Decreases tr q ∧ tr.length ≤ 254 := by
  intro h
  obtain ⟨out, -, hrun, hnot⟩ := Machine.exists_replay (M := machine) (packetOf 1)
    [⟨tunnel router outInterface none, 0⟩, ⟨unicast6 router outInterface, 0⟩]
    (P := fun out => ¬ Machine.EveryStep Decreases out.1 out.2) (by decide +kernel)
  exact hnot (h _ _ _ hrun).1

end Forwarding

end Ns3
