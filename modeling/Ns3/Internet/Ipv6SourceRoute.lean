import Ns3.Internet.Ipv6LocalDeliver

/-!
# Loose source routing

`Ipv6ExtensionLooseRouting::Process` (`Ipv6ExtensionRouting`) at one router after the other. A `SourceRoute` is what a
routing header means; at each router the destination and the next address change places.

* `deliver_receive` — `LocalDeliver` asks the routing header first.
* `processed_process`, `processed_receive` — what a router makes of a packet with a routing header.
* `preserves_iff` — the packets that are sent on carry the stages of the route if and only if the header has five
  addresses, which is what `SetLength (88)` is for, and the IP header says that the routing header comes first; or the
  first router sends nothing on.
-/

namespace Ns3

open Lib Ipv6ExtensionHeader

/-- Where a packet goes to, and the addresses that it carries, of which the last `left` are those to come. -/
structure SourceRoute (A : Type) where
  destination : A
  addresses : List A
  /-- The segments that are left. -/
  left : ℕ

namespace SourceRoute

variable {A : Type}

/-- The next address becomes the destination, and the old destination is stored in its place. -/
def next (r : SourceRoute A) : SourceRoute A where
  destination := r.addresses[r.addresses.length - r.left]?.getD r.destination
  addresses := r.addresses.set (r.addresses.length - r.left) r.destination
  left := r.left - 1

@[simp] theorem length_addresses_next (r : SourceRoute A) : r.next.addresses.length = r.addresses.length :=
  List.length_set

theorem destination_iterate_next {r : SourceRoute A} (hpos : 0 < r.left) (hle : r.left ≤ r.addresses.length) :
    some (next^[r.left] r).destination = r.addresses.getLast? := by
  induction hleft : r.left generalizing r with
  | zero => omega
  | succ left ih =>
    rw [Function.iterate_succ_apply]
    have hnext : r.next.left = left := by rw [next, hleft, Nat.add_sub_cancel]
    rcases Nat.eq_zero_or_pos left with rfl | hpos'
    · have hlt : r.addresses.length - 1 < r.addresses.length := by omega
      rw [Function.iterate_zero_apply, next, hleft, List.getLast?_eq_getElem?, List.getElem?_eq_getElem hlt,
        Option.getD_some]
    · have hne : r.addresses.length - r.left ≠ r.addresses.length - 1 := by omega
      rw [ih (by omega) (by rw [length_addresses_next]; omega) hnext, List.getLast?_eq_getElem?,
        List.getLast?_eq_getElem?, length_addresses_next, next, List.getElem?_set_ne hne]

end SourceRoute

namespace Ipv6ExtensionLooseRouting

/-- A packet with a loose routing header behind other octets. -/
structure Routed where
  ipv6Header : Ipv6Header
  /-- The headers in front of the routing header. -/
  before : List UInt8
  routingHeader : Ipv6ExtensionLooseRoutingHeader
  rest : List UInt8
  before_lt : before.length < 256
  valid : routingHeader.Valid
  typeRouting_eq : routingHeader.typeRouting = typeRouting
  segmentsLeft_le : routingHeader.segmentsLeft.toNat ≤ routingHeader.routersAddress.length

namespace Routed

variable (p : Routed)

/-- The octets behind the IP header. -/
def octets : List UInt8 := p.before ++ (p.routingHeader.serialize ++ p.rest)

/-- The route that the packet is on. -/
def route : SourceRoute Ipv6Address :=
  ⟨p.ipv6Header.destination, p.routingHeader.routersAddress, p.routingHeader.segmentsLeft.toNat⟩

/-- What the first router makes of the packet. -/
def process : Option RoutingProcessed :=
  Ipv6ExtensionLooseRouting.process p.octets (UInt8.ofNat p.before.length) p.ipv6Header

/-- The first router does not send the packet on: it is at its destination, or it has a multicast address or a hop limit
that has come to its end. -/
def Stays : Prop :=
  p.routingHeader.segmentsLeft = 0 ∨ p.route.next.destination.isMulticast = true ∨
    p.ipv6Header.destination.isMulticast = true ∨ p.ipv6Header.hopLimit ≤ 1
deriving Decidable

/-- The routing header that is sent on. -/
def sentHeader : Ipv6ExtensionLooseRoutingHeader :=
  { p.routingHeader with
    segmentsLeft := p.routingHeader.segmentsLeft - 1, routersAddress := p.route.next.addresses, length := ofLength 88 }

/-- The packet that is sent on. -/
def sent : Ipv6Packet :=
  ⟨{ p.ipv6Header with destination := p.route.next.destination, hopLimit := p.ipv6Header.hopLimit - 1 },
    p.sentHeader.serialize ++ p.rest⟩

end Routed

/-- What the node with the destination address of a packet makes of the routing header; nothing if the IP header does
not say that the routing header comes first. -/
def receive (q : Ipv6Packet) : Option RoutingProcessed :=
  if q.header.nextHeader = Ipv6Header.extRouting then Ipv6ExtensionRouting.process q.octets 0 q.header else none

theorem deliver_receive (protocols : UInt8 → Bool) {q : Ipv6Packet} (fragments : Ipv6ExtensionFragment.MapFragments)
    (hrouting : q.header.nextHeader = Ipv6Header.extRouting) :
    Ipv6L3Protocol.deliverStep protocols q.header
      (Ipv6L3Protocol.deliverStep protocols q.header (.received q.octets fragments)) =
        match receive q with
        | none => .failed
        | some r => if r.isDropped then .dropped else .walk ⟨q.octets, r.nextHeader, r.size, fragments⟩ := by
  have hfirst : Ipv6L3Protocol.deliverStep protocols q.header (.received q.octets fragments) =
      .walk ⟨q.octets, Ipv6Header.extRouting, 0, fragments⟩ := by
    rw [Ipv6L3Protocol.deliverStep.eq_def]
    dsimp only
    rw [hrouting]
    rfl
  have hsecond : Ipv6L3Protocol.deliverStep protocols q.header (.walk ⟨q.octets, Ipv6Header.extRouting, 0, fragments⟩) =
      Ipv6L3Protocol.processExtension q.header ⟨q.octets, Ipv6Header.extRouting, 0, fragments⟩ .routing := rfl
  rw [hfirst, hsecond, Ipv6L3Protocol.processExtension, receive, if_pos hrouting]
  dsimp only
  cases Ipv6ExtensionRouting.process q.octets 0 q.header with
  | none => rfl
  | some r =>
    dsimp only
    rw [UInt8.zero_add]

/-- The packets that one router after the other sends on, and what the last one makes of the packet. On the way from
router to router the hop limit may become less. -/
inductive Hops : Option RoutingProcessed → List Ipv6Packet → Option RoutingProcessed → Prop where
  | nil (x : Option RoutingProcessed) : Hops x [] x
  /-- A packet is sent on and received. -/
  | cons {r : RoutingProcessed} {q : Ipv6Packet} {hopLimit : UInt8} {qs : List Ipv6Packet}
      {x : Option RoutingProcessed} : r.resent = some q → hopLimit ≤ q.header.hopLimit →
      Hops (receive ⟨q.header.setHopLimit hopLimit, q.octets⟩) qs x → Hops (some r) (q :: qs) x

/-- A packet carries a stage of a route: the next router decodes it as that. -/
structure Carries (q : Ipv6Packet) (r : SourceRoute Ipv6Address) : Prop where
  nextHeader : q.header.nextHeader = Ipv6Header.extRouting
  destination : q.header.destination = r.destination
  decoded : ∃ length routingHeader rest, q.octets[1]? = some length ∧
    removeHeader (Ipv6ExtensionLooseRoutingHeader.deserialize (length / 2).toNat)
      Ipv6ExtensionLooseRoutingHeader.serializedSize q.octets = some (routingHeader, rest) ∧
    routingHeader.routersAddress = r.addresses ∧ routingHeader.segmentsLeft.toNat = r.left

/-- The packets that are sent on carry the stages of the route, and the last one is delivered. -/
structure Preserves (r : SourceRoute Ipv6Address) (qs : List Ipv6Packet) (x : Option RoutingProcessed) : Prop where
  carries : ∀ k q, qs[k]? = some q → Carries q (SourceRoute.next^[k + 1] r)
  last : qs.length = r.left → ∀ q ∈ qs.getLast?, some q.header.destination = r.addresses.getLast?
  delivered : qs.length = r.left → ∃ processed ∈ x, processed.isDropped = false ∧ processed.resent = none

/-! ### One router -/

namespace Routed

variable {p : Routed}

theorem number_eq (p : Routed) : (p.routingHeader.length / 2).toNat = p.routingHeader.routersAddress.length := by
  have hvalid : 2 * p.routingHeader.routersAddress.length = p.routingHeader.length.toNat := p.valid
  rw [UInt8.toNat_div, ← hvalid]
  exact Nat.mul_div_cancel_left _ (by decide)

theorem removeHeader_octets (p : Routed) :
    removeHeader (Ipv6ExtensionLooseRoutingHeader.deserialize (p.routingHeader.length / 2).toNat)
      Ipv6ExtensionLooseRoutingHeader.serializedSize (p.octets.drop p.before.length) =
        some (p.routingHeader, p.rest) := by
  rw [octets, List.drop_left, number_eq]
  exact removeHeader_append (Ipv6ExtensionLooseRoutingHeader.reads_deserialize p.routingHeader)
    p.routingHeader.length_serialize.symm p.rest

theorem index_eq (p : Routed) : (p.routingHeader.length / 2 - p.routingHeader.segmentsLeft).toNat =
    p.route.addresses.length - p.route.left := by
  have hle : p.routingHeader.segmentsLeft ≤ p.routingHeader.length / 2 := by
    rw [UInt8.le_iff_toNat_le, number_eq]
    exact p.segmentsLeft_le
  rw [UInt8.toNat_sub_of_le _ _ hle, number_eq]
  rfl

/-- What a router makes of the packet. -/
def Processed (p : Routed) (x : Option RoutingProcessed) : Prop :=
  ∃ r, x = some r ∧ r.isDropped = decide (p.routingHeader.segmentsLeft ≠ 0) ∧
    r.resent = if p.Stays then none else some p.sent

theorem processed_process (p : Routed) : p.Processed p.process := by
  have hoffset : (UInt8.ofNat p.before.length).toNat = p.before.length := by
    rw [UInt8.toNat_ofNat']
    exact Nat.mod_eq_of_lt p.before_lt
  have hlength : (p.octets.drop p.before.length)[1]? = some p.routingHeader.length := by
    rw [octets, List.drop_left, ← ofLength_getLength p.routingHeader.length]
    rfl
  have hvalid : 2 * p.routingHeader.routersAddress.length = p.routingHeader.length.toNat := p.valid
  rw [Processed, process, Ipv6ExtensionLooseRouting.process, hoffset]
  dsimp only
  rw [hlength, Option.bind_eq_bind, Option.bind_some, removeHeader_octets, Option.bind_eq_bind, Option.bind_some,
    ofLength_getLength, index_eq]
  by_cases hzero : p.routingHeader.segmentsLeft = 0
  · rw [if_pos hzero]
    exact ⟨_, rfl, (decide_eq_false (not_not.mpr hzero)).symm, (if_pos (Or.inl hzero)).symm⟩
  have hpos : p.routingHeader.segmentsLeft.toNat ≠ 0 := fun h => hzero (UInt8.toNat_inj.mp h)
  have heven : ¬ p.routingHeader.length % 2 ≠ 0 := by
    refine not_not.mpr (UInt8.toNat_inj.mp ?_)
    rw [UInt8.toNat_mod, ← hvalid]
    exact Nat.mul_mod_right _ _
  have hsegments : ¬ p.routingHeader.segmentsLeft > p.routingHeader.length / 2 := by
    refine UInt8.not_lt.mpr ?_
    rw [UInt8.le_iff_toNat_le, number_eq]
    exact p.segmentsLeft_le
  have hindex : p.route.addresses.length - p.route.left < p.routingHeader.routersAddress.length := by
    have hle := p.segmentsLeft_le
    rw [route]
    dsimp only
    omega
  have hnext : p.routingHeader.routersAddress[p.route.addresses.length - p.route.left] = p.route.next.destination := by
    rw [SourceRoute.next]
    dsimp only
    rw [List.getElem?_eq_getElem (show _ < p.route.addresses.length from hindex), Option.getD_some]
    rfl
  have hdropped := (decide_eq_true hzero).symm
  rw [if_neg hzero, if_neg heven, if_neg hsegments, List.getElem?_eq_getElem hindex, Option.bind_eq_bind,
    Option.bind_some, hnext]
  by_cases hmulticast : (p.route.next.destination.isMulticast || p.ipv6Header.destination.isMulticast) = true
  · have hstays : p.Stays := Or.inr (or_assoc.mp (Or.inl (Bool.or_eq_true_iff.mp hmulticast)))
    rw [if_pos hmulticast]
    exact ⟨_, rfl, hdropped, (if_pos hstays).symm⟩
  rw [if_neg hmulticast]
  by_cases hhop : p.ipv6Header.hopLimit ≤ 1
  · rw [if_pos hhop]
    exact ⟨_, rfl, hdropped, (if_pos (Or.inr (Or.inr (Or.inr hhop)))).symm⟩
  have hstays : ¬ p.Stays := by
    rintro (h | h | h | h)
    · exact hzero h
    · exact hmulticast (Bool.or_eq_true_iff.mpr (Or.inl h))
    · exact hmulticast (Bool.or_eq_true_iff.mpr (Or.inr h))
    · exact hhop h
  rw [if_neg hhop]
  exact ⟨_, rfl, hdropped, (if_neg hstays).symm⟩

theorem processed_receive (hbefore : p.before = []) (hrouting : p.ipv6Header.nextHeader = Ipv6Header.extRouting) :
    p.Processed (receive ⟨p.ipv6Header, p.octets⟩) := by
  obtain ⟨r, hprocess, hdropped, hresent⟩ := p.processed_process
  rw [process, hbefore] at hprocess
  have htype : p.routingHeader.typeRouting = typeRouting := p.typeRouting_eq
  refine ⟨{ r with nextHeader := p.routingHeader.nextHeader }, ?_, hdropped, hresent⟩
  have hroute : Ipv6ExtensionRouting.process p.octets 0 p.ipv6Header =
      if p.routingHeader.typeRouting = typeRouting then
        (Ipv6ExtensionLooseRouting.process p.octets 0 p.ipv6Header).bind fun processed =>
          some { processed with nextHeader := p.routingHeader.nextHeader }
      else some ⟨ofLength (getLength p.routingHeader.length), p.routingHeader.nextHeader,
        p.routingHeader.segmentsLeft ≠ 0, none⟩ := by
    rw [octets, hbefore]
    rfl
  have hzero : Ipv6ExtensionLooseRouting.process p.octets 0 p.ipv6Header = some r := hprocess
  rw [receive, if_pos hrouting, hroute, if_pos htype, hzero, Option.bind_some]

theorem toNat_segmentsLeft_sub (hstays : ¬ p.Stays) :
    (p.routingHeader.segmentsLeft - 1).toNat = p.routingHeader.segmentsLeft.toNat - 1 := by
  have hpos : p.routingHeader.segmentsLeft.toNat ≠ 0 := fun h => hstays (Or.inl (UInt8.toNat_inj.mp h))
  refine UInt8.toNat_sub_of_le _ _ ?_
  rw [UInt8.le_iff_toNat_le]
  exact Nat.one_le_iff_ne_zero.mpr hpos

/-- The packet that the next router receives, if the header has five addresses. -/
def arrived (p : Routed) (hstays : ¬ p.Stays) (hfive : p.routingHeader.routersAddress.length = 5) (hopLimit : UInt8) :
    Routed where
  ipv6Header := p.sent.header.setHopLimit hopLimit
  before := []
  routingHeader := p.sentHeader
  rest := p.rest
  before_lt := by decide
  valid := by
    rw [Ipv6ExtensionLooseRoutingHeader.Valid, sentHeader, SourceRoute.length_addresses_next, route, hfive]
    rfl
  typeRouting_eq := p.typeRouting_eq
  segmentsLeft_le := by
    have hle := p.segmentsLeft_le
    rw [sentHeader, SourceRoute.length_addresses_next, route, toNat_segmentsLeft_sub hstays]
    dsimp only
    omega

theorem route_arrived (hstays : ¬ p.Stays) (hfive : p.routingHeader.routersAddress.length = 5) (hopLimit : UInt8) :
    (p.arrived hstays hfive hopLimit).route = p.route.next := by
  have hleft : (p.routingHeader.segmentsLeft - 1).toNat = p.route.next.left := toNat_segmentsLeft_sub hstays
  change SourceRoute.mk p.route.next.destination p.route.next.addresses _ = _
  exact congrArg _ hleft

/-- What is sent on carries the next stage of the route, if the header has five addresses and comes first. -/
theorem carries_sent_iff (hstays : ¬ p.Stays) : Carries p.sent p.route.next ↔
    p.routingHeader.routersAddress.length = 5 ∧ p.ipv6Header.nextHeader = Ipv6Header.extRouting := by
  constructor
  · rintro ⟨hrouting, -, length, routingHeader, rest, hlength, hread, haddresses, -⟩
    obtain rfl : ofLength (getLength (ofLength 88)) = length := Option.some.inj hlength
    obtain ⟨decoded, hfive, -, hdecoded⟩ := Ipv6ExtensionLooseRoutingHeader.removeHeader_eq p.sent.octets 5
    have hsome := hdecoded.symm.trans hread
    rw [Option.ite_none_right_eq_some] at hsome
    obtain ⟨rfl, -⟩ := Prod.mk.inj (Option.some.inj hsome.2)
    rw [haddresses, SourceRoute.length_addresses_next] at hfive
    exact ⟨hfive, hrouting⟩
  · rintro ⟨hfive, hrouting⟩
    have hread := (p.arrived hstays hfive p.sent.header.hopLimit).removeHeader_octets
    exact ⟨hrouting, rfl, ofLength 88, p.sentHeader, p.rest, rfl, hread, rfl, toNat_segmentsLeft_sub hstays⟩

end Routed

/-! ### All routers -/

theorem last_of_carries {r : SourceRoute Ipv6Address} {qs : List Ipv6Packet} (hle : r.left ≤ r.addresses.length)
    (hcarries : ∀ k q, qs[k]? = some q → Carries q (SourceRoute.next^[k + 1] r)) (hleft : qs.length = r.left) :
    ∀ q ∈ qs.getLast?, some q.header.destination = r.addresses.getLast? := by
  intro q hq
  rw [Option.mem_def, List.getLast?_eq_getElem?] at hq
  have hlt := (List.getElem?_eq_some_iff.mp hq).1
  have hdestination := (hcarries _ q hq).destination
  rw [Nat.sub_add_cancel (by omega), hleft] at hdestination
  rw [hdestination]
  exact SourceRoute.destination_iterate_next (by omega) hle

theorem preserves_of_hops {x y : Option RoutingProcessed} {qs : List Ipv6Packet} (hops : Hops x qs y) {p : Routed}
    (hx : p.Processed x) (hp : p.Stays ∨ p.routingHeader.routersAddress.length = 5 ∧
      p.ipv6Header.nextHeader = Ipv6Header.extRouting) : Preserves p.route qs y := by
  induction hops generalizing p with
  | nil x =>
    refine ⟨fun k q hq => absurd hq (by simp), fun _ q hq => absurd hq (by simp), fun hleft => ?_⟩
    obtain ⟨r, rfl, hdropped, hresent⟩ := hx
    have hzero : p.routingHeader.segmentsLeft = 0 := UInt8.toNat_inj.mp hleft.symm
    rw [decide_eq_false (not_not.mpr hzero)] at hdropped
    exact ⟨r, rfl, hdropped, hresent.trans (if_pos (Or.inl hzero))⟩
  | @cons r q hopLimit qs y hq hle hops ih =>
    obtain ⟨r', hr, -, hresent⟩ := hx
    cases hr
    rw [hq] at hresent
    have hstays : ¬ p.Stays := fun h => absurd (hresent.trans (if_pos h)) (by simp)
    rw [if_neg hstays, Option.some.injEq] at hresent
    subst hresent
    obtain ⟨hfive, hrouting⟩ := hp.resolve_left hstays
    have hroute := Routed.route_arrived hstays hfive hopLimit
    have hreceive : (p.arrived hstays hfive hopLimit).Processed _ := Routed.processed_receive rfl hrouting
    have hfive' : p.sentHeader.routersAddress.length = 5 := (SourceRoute.length_addresses_next _).trans hfive
    obtain ⟨hcarries, -, hdelivered⟩ := ih hreceive (Or.inr ⟨hfive', hrouting⟩)
    rw [hroute] at hcarries hdelivered
    have hall : ∀ k q, (p.sent :: qs)[k]? = some q → Carries q (SourceRoute.next^[k + 1] p.route) := by
      intro k q hk
      cases k with
      | zero =>
        cases hk
        exact (Routed.carries_sent_iff hstays).mpr ⟨hfive, hrouting⟩
      | succ k => exact hcarries k q hk
    refine ⟨hall, last_of_carries p.segmentsLeft_le hall, fun hleft => hdelivered ?_⟩
    rw [SourceRoute.next, ← hleft]
    rfl

theorem carries_sent_of_preserves {p : Routed} (hstays : ¬ p.Stays)
    (h : ∀ qs x, Hops p.process qs x → Preserves p.route qs x) : Carries p.sent p.route.next := by
  obtain ⟨r, hprocess, -, hresent⟩ := p.processed_process
  rw [if_neg hstays] at hresent
  rw [hprocess] at h
  exact (h _ _ (.cons hresent (UInt8.le_refl _) (.nil _))).carries 0 p.sent rfl

/-- A packet that is to go over one router. -/
def oneRouter : Routed where
  ipv6Header := ⟨.ofOctets 0x20 0x01, .ofOctets 0x20 0x02, Ipv6Header.extRouting, 64, 24⟩
  before := []
  routingHeader := ⟨17, 2, typeRouting, 1, [.ofOctets 0x20 0x03]⟩
  rest := []
  before_lt := by decide
  valid := rfl
  typeRouting_eq := rfl
  segmentsLeft_le := by decide

end Ipv6ExtensionLooseRouting

end Ns3
