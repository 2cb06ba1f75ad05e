import Ns3.Aodv.Routes

/-!
# Destination sequence numbers of an AODV node

A node that receives messages and handles its timers, from when it is set up. While there is an entry for a destination,
its number should not go back in the circular order, nor be forgotten.

* `recvAodv_keeps_iff`, `handle_keeps_iff` — when a message or another event does that to no entry. The request, reply
  and hello handlers compare numbers in some branches only, and `UpdateRouteToNeighbor` forgets them.
* `keepsNumbers_iff` — the same for the steps of a run.
-/

namespace Ns3.Aodv

open Lib RoutingTable

theorem NotOlder.refl (a : UInt32) : NotOlder a a := by
  rw [NotOlder, Ring.ahead_self]
  omega

theorem Newer.notOlder {a b : UInt32} (h : Newer a b) : NotOlder a b := h.2

/-- What may become of an entry, as long as there is one: its number is not forgotten and does not go back. -/
def KeepsNumber (before after : Option Route) : Prop :=
  ∀ r r', before = some r → after = some r' → r.validSeqNo = true →
    r'.validSeqNo = true ∧ NotOlder r'.seqNo r.seqNo

/-- No entry's number is forgotten or goes back. -/
def KeepsNumbers (before after : Ipv4Address → Option Route) : Prop := ∀ dst, KeepsNumber (before dst) (after dst)

theorem KeepsNumber.refl (r : Option Route) : KeepsNumber r r := by
  intro a b ha hb hvalid
  obtain rfl := Option.some.inj (ha.symm.trans hb)
  exact ⟨hvalid, NotOlder.refl _⟩

theorem KeepsNumber.of_none (r : Option Route) : KeepsNumber r none := fun _ _ _ h => absurd h nofun

theorem KeepsNumbers.refl (routes : Ipv4Address → Option Route) : KeepsNumbers routes routes := fun _ => .refl _

variable {r : Option Route}

theorem keepsNumbers_update_iff {routes : Ipv4Address → Option Route} {dst : Ipv4Address} :
    KeepsNumbers routes (Function.update routes dst r) ↔ KeepsNumber (routes dst) r := by
  constructor
  · intro h
    simpa using h dst
  · intro h dst'
    by_cases hdst : dst' = dst
    · subst hdst
      simpa using h
    · rw [Function.update_of_ne hdst]
      exact .refl _

/-- Where two entries are written. -/
theorem keepsNumbers_update_update_iff {routes : Ipv4Address → Option Route} {sender dst : Ipv4Address}
    {r₁ r₂ : Option Route} (hne : sender ≠ dst) :
    KeepsNumbers routes (Function.update (Function.update routes sender r₁) dst r₂) ↔
      KeepsNumber (routes sender) r₁ ∧ KeepsNumber (routes dst) r₂ := by
  constructor
  · intro h
    have hsender := h sender
    rw [Function.update_of_ne hne, Function.update_self] at hsender
    exact ⟨hsender, by simpa using h dst⟩
  · rintro ⟨h₁, h₂⟩ dst'
    by_cases hdst : dst' = dst
    · subst hdst
      simpa using h₂
    · rw [Function.update_of_ne hdst]
      exact keepsNumbers_update_iff.mpr h₁ dst'

theorem keepsNumber_some_iff {seqNo : UInt32} {hops : ℕ} {nextHop : Ipv4Address} :
    KeepsNumber r (some ⟨true, seqNo, hops, nextHop⟩) ↔
      ∀ r₀, r = some r₀ → r₀.validSeqNo = true → NotOlder seqNo r₀.seqNo := by
  constructor
  · intro h r₀ hr hvalid
    exact (h r₀ _ hr rfl hvalid).2
  · intro h r₀ r' hr hr' hvalid
    cases hr'
    exact ⟨rfl, h r₀ hr hvalid⟩

theorem keepsNumber_unknown_iff {nextHop : Ipv4Address} :
    KeepsNumber r (some ⟨false, 0, 1, nextHop⟩) ↔ ∀ r₀, r = some r₀ → r₀.validSeqNo = false := by
  constructor
  · intro h r₀ hr
    by_contra hvalid
    cases (h r₀ _ hr rfl (by simpa using hvalid)).1
  · intro h r₀ r' hr _ hvalid
    cases (h r₀ hr).symm.trans hvalid

namespace RoutingProtocol

/-- If the number of the neighbour is known, `UpdateRouteToNeighbor` keeps the entry. -/
def KnownKept (n : RoutingProtocol) (receiver : Interface) (sender : Ipv4Address) : Prop :=
  ∀ rt, n.routingTable sender = some rt → rt.validSeqNo = true → rt.hops = 1 ∧ rt.iface = some receiver

/-- A number is not older than that of the entry, if that is known. -/
def FreshFor (n : RoutingProtocol) (dst : Ipv4Address) (seqNo : UInt32) : Prop :=
  ∀ rt, n.routingTable dst = some rt → rt.validSeqNo = true → NotOlder seqNo rt.seqNo

/-- The origin of a request searches for the destination. -/
def Searches (n : RoutingProtocol) (h : RrepHeader) : Prop :=
  n.IsMyOwnAddress h.origin ∧ ∃ rt, n.routingTable h.dst = some rt ∧ rt.flag = .inSearch

/-- When a message does no harm to the numbers of a node, whose table was purged. -/
def Harmless (attrs : Attributes) (now : ℤ) (n : RoutingProtocol) (receiver : Interface) (sender : Ipv4Address) :
    Message → Prop
  | .rreq h => n.KnownKept receiver sender ∨
      sender = h.origin ∧ (n.isDuplicate attrs now h.origin h.id).1 = false ∧ n.FreshFor sender h.originSeqno
  | .rrep h => (n.KnownKept receiver sender ∨ sender = h.dst) ∧
      (h.dst = h.origin ∨ ¬ n.KnownKept receiver sender ∨ n.Searches h → n.FreshFor h.dst h.dstSeqno)
  | .rrepAck => n.KnownKept receiver sender

instance decidableKnownKept (n : RoutingProtocol) (receiver : Interface) (sender : Ipv4Address) :
    Decidable (n.KnownKept receiver sender) :=
  match h : n.routingTable sender with
  | none => .isTrue fun _ hrt => absurd (h.symm.trans hrt) nofun
  | some rt => decidable_of_iff (rt.validSeqNo = true → rt.hops = 1 ∧ rt.iface = some receiver)
      ⟨fun hrt _ h' => Option.some.inj (h.symm.trans h') ▸ hrt, fun hkept => hkept rt h⟩

instance decidableFreshFor (n : RoutingProtocol) (dst : Ipv4Address) (seqNo : UInt32) :
    Decidable (n.FreshFor dst seqNo) :=
  match h : n.routingTable dst with
  | none => .isTrue fun _ hrt => absurd (h.symm.trans hrt) nofun
  | some rt => decidable_of_iff (rt.validSeqNo = true → NotOlder seqNo rt.seqNo)
      ⟨fun hrt _ h' => Option.some.inj (h.symm.trans h') ▸ hrt, fun hfresh => hfresh rt h⟩

instance decidableSearches (n : RoutingProtocol) (h : RrepHeader) : Decidable (n.Searches h) :=
  inferInstanceAs (Decidable (_ ∧ ∃ _ ∈ n.routingTable h.dst, _))

instance decidableHarmless (attrs : Attributes) (now : ℤ) (n : RoutingProtocol) (receiver : Interface)
    (sender : Ipv4Address) : DecidablePred (n.Harmless attrs now receiver sender)
  | .rreq _ => inferInstanceAs (Decidable (_ ∨ _ ∧ _ ∧ _))
  | .rrep _ => inferInstanceAs (Decidable (_ ∧ (_ → _)))
  | .rrepAck => inferInstanceAs (Decidable (KnownKept _ _ _))

variable {attrs : Attributes} {now : ℤ} {n : RoutingProtocol} {receiver : Interface} {sender : Ipv4Address}

theorem freshFor_iff {dst : Ipv4Address} {seqNo : UInt32} {hops : ℕ} {nextHop : Ipv4Address} :
    n.FreshFor dst seqNo ↔ KeepsNumber (n.routes dst) (some ⟨true, seqNo, hops, nextHop⟩) := by
  rw [keepsNumber_some_iff]
  constructor
  · rintro h r hr hvalid
    obtain ⟨rt, hrt, rfl⟩ := Option.map_eq_some_iff.mp hr
    exact h rt hrt hvalid
  · intro h rt hrt hvalid
    exact h rt.route (by rw [routes, RoutingTable.routes, hrt, Option.map_some]) hvalid

theorem KeepsNeighbor.knownKept (h : n.KeepsNeighbor receiver sender) : n.KnownKept receiver sender := by
  obtain ⟨rt, hrt, -, hhops, hiface⟩ := h
  intro rt' hrt' _
  obtain rfl := Option.some.inj (hrt.symm.trans hrt')
  exact ⟨hhops, hiface⟩

/-- An entry that is not kept may be replaced if its number is unknown. -/
theorem knownKept_iff_of_not_keeps (h : ¬ n.KeepsNeighbor receiver sender) :
    n.KnownKept receiver sender ↔ KeepsNumber (n.routes sender) (some ⟨false, 0, 1, sender⟩) := by
  rw [keepsNumber_unknown_iff]
  constructor
  · intro hkept r hr
    obtain ⟨rt, hrt, rfl⟩ := Option.map_eq_some_iff.mp hr
    by_contra hvalid
    have hknown : rt.validSeqNo = true := by simpa [RoutingTableEntry.route] using hvalid
    exact h ⟨rt, hrt, hknown, hkept rt hrt hknown⟩
  · intro hunknown rt hrt hvalid
    have hnone := hunknown rt.route (by rw [routes, RoutingTable.routes, hrt, Option.map_some])
    cases hnone.symm.trans hvalid

theorem freshFor_of_knownKept (h : ¬ n.KeepsNeighbor receiver sender) (hkept : n.KnownKept receiver sender)
    {seqNo : UInt32} : n.FreshFor sender seqNo := by
  intro rt hrt hvalid
  exact absurd ⟨rt, hrt, hvalid, hkept rt hrt hvalid⟩ h

@[simp] theorem stored_blackListState (rt : RoutingTableEntry) : rt.stored.blackListState = rt.blackListState := by
  rw [RoutingTableEntry.stored]
  split_ifs <;> rfl

theorem keepsNumber_reverse (r : Option Route) (originSeqno : UInt32) (hop : ℕ) (src : Ipv4Address) :
    KeepsNumber r (some ⟨true, reverseSeqNo r originSeqno, hop, src⟩) := by
  rw [keepsNumber_some_iff]
  rintro r rfl hvalid
  simp only [reverseSeqNo]
  split_ifs with hnewer
  · exact NotOlder.refl _
  · have h : Newer originSeqno r.seqNo := by
      by_contra hnot
      exact hnewer ⟨hvalid, hnot⟩
    exact h.notOlder

theorem not_duplicate_iff {h : RreqHeader} : (n.isDuplicate attrs now h.origin h.id).1 = false ↔
    ¬ (n.rreqIdCache.filter fun x => now ≤ x.2.2).any (fun x => x.1 = h.origin && x.2.1 = h.id) = true := by
  rw [isDuplicate]
  split_ifs with hd
  · exact iff_of_false (by simp) (by simpa using hd)
  · exact iff_of_true rfl hd

/-- What becomes of the numbers, after `UpdateRouteToNeighbor`, in `RecvRequest`. -/
theorem recvRequest_keeps_iff (h : RreqHeader) :
    KeepsNumbers (n.purge attrs now).routes (n.recvAodv attrs now (.rreq h) receiver sender).1.routes ↔
      (n.purge attrs now).Harmless attrs now receiver sender (.rreq h) := by
  obtain ⟨hpurged, hcases⟩ := n.updateRouteToNeighbor_spec attrs now receiver sender
  obtain ⟨-, -, hrecv⟩ := recvRequest_spec attrs hpurged h receiver sender
  rw [recvAodv, Harmless, not_duplicate_iff]
  generalize n.purge attrs now = n₀ at hcases ⊢
  rcases hcases with ⟨hkeeps, hn₁⟩ | ⟨hkeeps, rt, hroute, -, hblack, hn₁⟩
  · refine iff_of_true ?_ (.inl hkeeps.knownKept)
    rw [hn₁] at hrecv ⊢
    rcases hrecv with ⟨-, hroutes, -⟩ | ⟨-, hroutes, -⟩
    · rw [hroutes]
      exact .refl _
    · rw [hroutes, keepsNumbers_update_iff]
      exact keepsNumber_reverse _ _ _ _
  · have hroutes₁ : (n.updateRouteToNeighbor attrs now sender receiver).routes =
        Function.update n₀.routes sender (some ⟨false, 0, 1, sender⟩) := by
      rw [hn₁, ← hroute]
      exact routes_set _ _ _
    rw [hroutes₁] at hrecv
    rcases hrecv with ⟨hignores, hroutes, -⟩ | ⟨hignores, hroutes, -⟩
    · -- the request is ignored, and not for the blacklist
      have hduplicate : (n₀.rreqIdCache.filter fun x => now ≤ x.2.2).any
          (fun x => x.1 = h.origin && x.2.1 = h.id) = true := by
        rw [hn₁] at hignores
        refine hignores.resolve_left ?_
        simp only [Function.update_self, Option.any_some, stored_blackListState, hblack]
        exact Bool.false_ne_true
      rw [hroutes, keepsNumbers_update_iff, ← knownKept_iff_of_not_keeps hkeeps]
      refine ⟨.inl, fun hor => hor.resolve_right fun hand => hand.2.1 hduplicate⟩
    · have hduplicate : ¬ (n₀.rreqIdCache.filter fun x => now ≤ x.2.2).any
          (fun x => x.1 = h.origin && x.2.1 = h.id) = true := by
        rw [hn₁] at hignores
        exact fun hd => hignores (.inr hd)
      rw [hroutes]
      by_cases hsender : sender = h.origin
      · subst hsender
        rw [Function.update_idem, Function.update_self, keepsNumbers_update_iff]
        refine freshFor_iff.symm.trans ⟨fun hfresh => .inr ⟨rfl, hduplicate, hfresh⟩, ?_⟩
        rintro (hkept | hand)
        · exact freshFor_of_knownKept hkeeps hkept
        · exact hand.2.2
      · rw [keepsNumbers_update_update_iff hsender, Function.update_of_ne (Ne.symm hsender),
          ← knownKept_iff_of_not_keeps hkeeps]
        constructor
        · exact fun hand => .inl hand.1
        · exact fun hor => ⟨hor.resolve_right fun hand => hsender hand.1, keepsNumber_reverse _ _ _ _⟩

theorem Searches.forwards {h : RrepHeader} (hs : n.Searches h) (hop : ℕ) : n.Forwards h hop := by
  obtain ⟨hmine, rt, hrt, hflag⟩ := hs
  intro toDst htoDst
  obtain rfl := Option.some.inj (hrt.symm.trans htoDst)
  exact .inr ⟨hmine, hflag⟩

/-- Where the origin does not search for it, the entry is updated with a number that is not older. -/
theorem Forwards.freshFor {h : RrepHeader} {hop : ℕ} (hf : n.Forwards h hop)
    (hs : n.Searches h → n.FreshFor h.dst h.dstSeqno) : n.FreshFor h.dst h.dstSeqno := by
  intro rt hrt hvalid
  rcases hf rt hrt with (hunknown | hnewer | ⟨heq, -⟩) | ⟨hmine, hflag⟩
  · cases hunknown.symm.trans hvalid
  · exact hnewer.notOlder
  · rw [heq]
    exact NotOlder.refl _
  · exact hs ⟨hmine, rt, hrt, hflag⟩ rt hrt hvalid

theorem keepsNumber_hello_iff (r : Option Route) (h : RrepHeader) (dst : Ipv4Address) :
    KeepsNumber (n.routes dst) (some (helloRoute r h)) ↔ n.FreshFor dst h.dstSeqno := by
  cases r with
  | none => exact freshFor_iff.symm
  | some r => exact freshFor_iff.symm

/-- What becomes of the numbers in `RecvReply`, where `UpdateRouteToNeighbor` changes nothing. -/
theorem recvReply_keeps_iff_of_kept (hpurged : Purged n.routingTable now) (h : RrepHeader) :
    KeepsNumbers n.routes (n.recvReply attrs now h receiver sender).1.routes ↔
      (h.dst = h.origin ∨ n.Searches h → n.FreshFor h.dst h.dstSeqno) := by
  obtain ⟨-, -, hrecv⟩ := recvReply_spec attrs hpurged h receiver sender
  rcases hrecv with ⟨hhello, hroutes, -⟩ | ⟨hhello, ⟨hforwards, hroutes⟩ | ⟨hforwards, hroutes⟩, -⟩
  · rw [hroutes, keepsNumbers_update_iff, keepsNumber_hello_iff]
    exact ⟨fun hfresh _ => hfresh, fun hfresh => hfresh (.inl hhello)⟩
  · rw [hroutes, keepsNumbers_update_iff, ← freshFor_iff]
    exact ⟨fun hfresh _ => hfresh, fun hfresh => hforwards.freshFor fun hs => hfresh (.inr hs)⟩
  · rw [hroutes]
    refine iff_of_true (.refl _) ?_
    rintro (hdst | hs)
    · exact absurd hdst hhello
    · exact absurd (hs.forwards _) hforwards

/-- What becomes of the numbers in `RecvReply`, where `UpdateRouteToNeighbor` writes another entry than it. -/
theorem recvReply_keeps_iff_of_ne {n₁ : RoutingProtocol} (hpurged : Purged n₁.routingTable now) (h : RrepHeader)
    (hkeeps : ¬ n.KeepsNeighbor receiver sender) (hne : sender ≠ h.dst) {rt : RoutingTableEntry}
    (hrt : rt.route = ⟨false, 0, 1, sender⟩)
    (hn₁ : n₁ = { n with routingTable := Function.update n.routingTable sender (some rt.stored) }) :
    KeepsNumbers n.routes (n₁.recvReply attrs now h receiver sender).1.routes ↔
      n.KnownKept receiver sender ∧ (h.dst = h.origin ∨ n.Searches h → n.FreshFor h.dst h.dstSeqno) := by
  have hroutes₁ : n₁.routes = Function.update n.routes sender (some ⟨false, 0, 1, sender⟩) := by
    rw [hn₁, ← hrt]
    exact routes_set _ _ _
  have hforwards₁ : ∀ hop, n₁.Forwards h hop ↔ n.Forwards h hop := by
    intro hop
    rw [hn₁, Forwards, Forwards]
    simp only [Function.update_of_ne (Ne.symm hne), IsMyOwnAddress]
  obtain ⟨-, -, hrecv⟩ := recvReply_spec attrs hpurged h receiver sender
  rw [hforwards₁, hroutes₁] at hrecv
  rw [knownKept_iff_of_not_keeps hkeeps]
  rcases hrecv with ⟨hhello, hroutes, -⟩ | ⟨hhello, ⟨hforwards, hroutes⟩ | ⟨hforwards, hroutes⟩, -⟩
  · rw [hroutes, keepsNumbers_update_update_iff hne, keepsNumber_hello_iff]
    exact and_congr_right fun _ => ⟨fun hfresh _ => hfresh, fun hfresh => hfresh (.inl hhello)⟩
  · rw [hroutes, keepsNumbers_update_update_iff hne, ← freshFor_iff]
    exact and_congr_right fun _ =>
      ⟨fun hfresh _ => hfresh, fun hfresh => hforwards.freshFor fun hs => hfresh (.inr hs)⟩
  · rw [hroutes, keepsNumbers_update_iff]
    refine ⟨fun hkept => ⟨hkept, ?_⟩, And.left⟩
    rintro (hdst | hs)
    · exact absurd hdst hhello
    · exact absurd (hs.forwards _) hforwards

/-- What becomes of the numbers in `RecvReply`, where `UpdateRouteToNeighbor` writes the same entry. -/
theorem recvReply_keeps_iff_of_eq {n₁ : RoutingProtocol} (h : RrepHeader) (hpurged : Purged n₁.routingTable now)
    {rt : RoutingTableEntry} (hrt : rt.route = ⟨false, 0, 1, h.dst⟩)
    (hn₁ : n₁ = { n with routingTable := Function.update n.routingTable h.dst (some rt.stored) }) :
    KeepsNumbers n.routes (n₁.recvReply attrs now h receiver h.dst).1.routes ↔ n.FreshFor h.dst h.dstSeqno := by
  have hroutes₁ : n₁.routes = Function.update n.routes h.dst (some ⟨false, 0, 1, h.dst⟩) := by
    rw [hn₁, ← hrt]
    exact routes_set _ _ _
  obtain ⟨-, -, hrecv⟩ := recvReply_spec attrs hpurged h receiver h.dst
  rw [hroutes₁, Function.update_idem, Function.update_idem] at hrecv
  rcases hrecv with ⟨hhello, hroutes, -⟩ | ⟨hhello, ⟨hforwards, hroutes⟩ | ⟨hforwards, hroutes⟩, -⟩
  · rw [hroutes, keepsNumbers_update_iff, keepsNumber_hello_iff]
  · rw [hroutes, keepsNumbers_update_iff, ← freshFor_iff]
  · refine absurd (fun toDst htoDst => ?_) hforwards
    simp only [hn₁, Function.update_self, Option.some.injEq] at htoDst
    subst htoDst
    have hunknown : rt.stored.validSeqNo = false :=
      congrArg Route.validSeqNo ((route_stored rt).trans hrt)
    exact .inl (.inl hunknown)

/-- When a message takes no entry's number back. -/
theorem recvAodv_keeps_iff (message : Message) :
    KeepsNumbers (n.purge attrs now).routes (n.recvAodv attrs now message receiver sender).1.routes ↔
      (n.purge attrs now).Harmless attrs now receiver sender message := by
  obtain ⟨hpurged, hcases⟩ := n.updateRouteToNeighbor_spec attrs now receiver sender
  cases message with
  | rreq h => exact recvRequest_keeps_iff h
  | rrep h =>
    rw [recvAodv, Harmless]
    generalize n.purge attrs now = n₀ at hcases ⊢
    rcases hcases with ⟨hkeeps, hn₁⟩ | ⟨hkeeps, rt, hroute, -, -, hn₁⟩
    · rw [hn₁] at hpurged ⊢
      have hkept := hkeeps.knownKept
      simp only [recvReply_keeps_iff_of_kept hpurged, hkept, true_or, true_and, not_true, false_or]
    · by_cases hsender : sender = h.dst
      · subst hsender
        simp only [recvReply_keeps_iff_of_eq h hpurged hroute hn₁, or_true, true_and]
        refine ⟨fun hfresh _ => hfresh, fun hfresh => ?_⟩
        by_cases hkept : n₀.KnownKept receiver h.dst
        · exact freshFor_of_knownKept hkeeps hkept
        · exact hfresh (.inr (.inl hkept))
      · rw [recvReply_keeps_iff_of_ne hpurged h hkeeps hsender hroute hn₁, or_iff_left hsender]
        refine and_congr_right fun hkept => ?_
        simp only [hkept, not_true, false_or]
  | rrepAck =>
    rw [recvAodv, Harmless, (recvReplyAck_spec attrs hpurged sender).2.2]
    generalize n.purge attrs now = n₀ at hcases ⊢
    rcases hcases with ⟨hkeeps, hn₁⟩ | ⟨hkeeps, rt, hroute, -, -, hn₁⟩
    · rw [hn₁]
      exact iff_of_true (.refl _) hkeeps.knownKept
    · rw [hn₁, knownKept_iff_of_not_keeps hkeeps, ← keepsNumbers_update_iff, ← hroute]
      exact Iff.of_eq (congrArg _ (routes_set _ _ _))

/-- When an event that is not a message of the other kinds does no harm. -/
def HarmlessEvent (n : RoutingProtocol) : Event → Prop
  | .recvError _ receiver sender => n.KnownKept receiver sender
  | _ => True

instance decidableHarmlessEvent (n : RoutingProtocol) : DecidablePred n.HarmlessEvent
  | .recvError _ _ _ => inferInstanceAs (Decidable (KnownKept _ _ _))
  | .updateRouteLifeTime _ | .sendRequest _ | .routeRequestTimerExpire _ | .helloTimerExpire | .breakLink _ =>
    .isTrue trivial

theorem keepsNumbers_purge (n : RoutingProtocol) : KeepsNumbers (n.purge attrs now).routes n.routes := by
  intro dst r r' hr hr' hvalid
  obtain ⟨rt, hrt, rfl⟩ := Option.map_eq_some_iff.mp hr
  obtain ⟨rt₀, hrt₀, hpurge⟩ := Option.bind_eq_some_iff.mp hrt
  rw [routes, RoutingTable.routes, hrt₀] at hr'
  cases hr'
  rw [(purge_eq_some hpurge).1] at hvalid ⊢
  exact ⟨hvalid, NotOlder.refl _⟩

theorem keepsNumbers_searched (routes : Ipv4Address → Option Route) (dst : Ipv4Address) :
    KeepsNumbers routes (searched routes dst) := by
  rw [searched, keepsNumbers_update_iff]
  cases hr : routes dst with
  | none => exact fun r r' hr _ => by cases hr
  | some r => exact .refl _

theorem sendRequest_keeps (n : RoutingProtocol) (attrs : Attributes) (now : ℤ) (dst : Ipv4Address) :
    KeepsNumbers (n.purge attrs now).routes (n.sendRequest attrs now dst).1.routes := by
  obtain ⟨-, -, hroutes, -⟩ := sendRequest_spec attrs now n dst
  rw [hroutes]
  exact keepsNumbers_searched _ _

theorem keepsNumbers_deleteRoute (n : RoutingProtocol) (dst : Ipv4Address) :
    KeepsNumbers n.routes (n.routingTable.deleteRoute dst).routes := by
  have hroutes : (n.routingTable.deleteRoute dst).routes = Function.update n.routes dst none := by
    funext dst'
    by_cases hdst : dst' = dst
    · subst hdst
      simp [RoutingTable.routes, deleteRoute]
    · simp [RoutingTable.routes, deleteRoute, routes, hdst]
  rw [hroutes, keepsNumbers_update_iff]
  exact .of_none _

theorem routeRequestTimerExpire_keeps (dst : Ipv4Address) :
    KeepsNumbers (n.purge attrs now).routes (n.routeRequestTimerExpire attrs now dst).1.routes := by
  have hpurge : (n.purge attrs now).purge attrs now = n.purge attrs now := purge_eq_self (n.purged_purge attrs now)
  rw [routeRequestTimerExpire]
  cases hrt : (n.purge attrs now).routingTable dst with
  | none => exact .refl _
  | some toDst =>
    dsimp only
    split_ifs with hvalid hretries hsearch
    · exact .refl _
    · exact keepsNumbers_deleteRoute _ _
    · have hkeeps := (n.purge attrs now).sendRequest_keeps attrs now dst
      rwa [hpurge] at hkeeps
    · exact keepsNumbers_deleteRoute _ _

theorem handle_keeps_iff (event : Event) :
    KeepsNumbers (n.purge attrs now).routes (n.handle attrs now event).1.routes ↔
      (n.purge attrs now).HarmlessEvent event := by
  cases event with
  | recvError unreachable receiver sender =>
    obtain ⟨hpurged, hcases⟩ := n.updateRouteToNeighbor_spec attrs now receiver sender
    rw [handle, HarmlessEvent, recvError_routes attrs hpurged]
    rcases hcases with ⟨hkeeps, hn₁⟩ | ⟨hkeeps, rt, hroute, -, -, hn₁⟩
    · rw [hn₁]
      exact iff_of_true (.refl _) hkeeps.knownKept
    · rw [hn₁, knownKept_iff_of_not_keeps hkeeps, ← keepsNumbers_update_iff, ← hroute]
      exact Iff.of_eq (congrArg _ (routes_set _ _ _))
  | updateRouteLifeTime addr =>
    rw [handle, updateRouteLifeTime_routes]
    exact iff_of_true (.refl _) trivial
  | sendRequest dst => exact iff_of_true (n.sendRequest_keeps attrs now dst) trivial
  | routeRequestTimerExpire dst => exact iff_of_true (routeRequestTimerExpire_keeps dst) trivial
  | helloTimerExpire => exact iff_of_true n.keepsNumbers_purge trivial
  | breakLink nextHop =>
    rw [handle, breakLink_routes]
    exact iff_of_true (.refl _) trivial

end RoutingProtocol

/-! ### Runs -/

/-- A node, and the time of the last event. -/
structure Node where
  protocol : RoutingProtocol
  now : ℤ

/-- What happens at a node, and when. -/
structure NodeEvent where
  now : ℤ
  /-- A message that is received on an interface from an address, or another event. -/
  event : (Message × Interface × Ipv4Address) ⊕ RoutingProtocol.Event

namespace Node

/-- The interface that an event comes by is one of the node's. -/
def Received (n : RoutingProtocol) : (Message × Interface × Ipv4Address) ⊕ RoutingProtocol.Event → Prop
  | .inl (_, receiver, _) => receiver ∈ n.interfaces
  | .inr (.recvError _ receiver _) => receiver ∈ n.interfaces
  | .inr _ => True

variable (attrs : Attributes)

/-- The handler of an event. -/
def exec (n : RoutingProtocol) (e : NodeEvent) : RoutingProtocol :=
  match e.event with
  | .inl (message, receiver, sender) => (n.recvAodv attrs e.now message receiver sender).1
  | .inr event => (n.handle attrs e.now event).1

/-- A node that runs `RoutingProtocol`. -/
def machine : Machine Node NodeEvent where
  enabled s e := s.now ≤ e.now ∧ Received s.protocol e.event
  exec s e := some ⟨exec attrs s.protocol e, e.now⟩

instance decidableReceived (n : RoutingProtocol) : DecidablePred (Received n)
  | .inl (_, _, _) => inferInstanceAs (Decidable (_ ∈ _))
  | .inr (.recvError _ _ _) => inferInstanceAs (Decidable (_ ∈ _))
  | .inr (.updateRouteLifeTime _) | .inr (.sendRequest _) | .inr (.routeRequestTimerExpire _)
  | .inr .helloTimerExpire | .inr (.breakLink _) => .isTrue trivial

instance (attrs : Attributes) (s : Node) (e : NodeEvent) : Decidable ((machine attrs).enabled s e) :=
  inferInstanceAs (Decidable (_ ∧ Received _ _))

/-- The condition on an event, and on the table when what has expired is purged. -/
def Harmless (attrs : Attributes) (s : Node) (e : NodeEvent) : Prop :=
  match e.event with
  | .inl (message, receiver, sender) =>
    (s.protocol.purge attrs e.now).Harmless attrs e.now receiver sender message
  | .inr event => (s.protocol.purge attrs e.now).HarmlessEvent event

instance (attrs : Attributes) (s : Node) (e : NodeEvent) : Decidable (Harmless attrs s e) :=
  match h : e.event with
  | .inl (message, receiver, sender) => decidable_of_iff
      ((s.protocol.purge attrs e.now).Harmless attrs e.now receiver sender message) (by rw [Harmless, h])
  | .inr event => decidable_of_iff ((s.protocol.purge attrs e.now).HarmlessEvent event) (by rw [Harmless, h])

/-- No number goes back in a step, of the entries that the purge leaves. -/
def Keeps (s : Node) (e : NodeEvent) (s' : Node) : Prop :=
  KeepsNumbers (s.protocol.purge attrs e.now).routes s'.protocol.routes

theorem keeps_iff_harmless {attrs : Attributes} {s s' : Node} {e : NodeEvent} (h : (machine attrs).Step s e s') :
    Keeps attrs s e s' ↔ Harmless attrs s e := by
  obtain ⟨-, hexec⟩ := h
  cases hexec
  obtain ⟨now, event⟩ := e
  cases event with
  | inl x => exact RoutingProtocol.recvAodv_keeps_iff x.1
  | inr event => exact RoutingProtocol.handle_keeps_iff event

/-- In a run the number of no entry is forgotten or goes back, exactly if every step meets the condition: the entry of a
neighbour whose number is known is direct and by the interface that the message comes by, or gets a number that is not
older from the message; and a hello message, or a reply that the node itself searches for, has no older number. -/
theorem keepsNumbers_iff (interfaces : List Interface) (maximumSimulationTime : ℤ)
    (tr : List (Node × NodeEvent)) (s : Node)
    (h : (machine attrs).Run ⟨.new interfaces maximumSimulationTime, 0⟩ tr s) :
    Machine.EveryStep (Keeps attrs) tr s ↔ Machine.Meets (Harmless attrs) tr :=
  h.everyStep_iff fun _ _ _ => keeps_iff_harmless

/-- An interface of the node `10.1.1.1`. -/
def interface : Interface := ⟨⟨0x0a010101⟩, ⟨0x0a0101ff⟩⟩

/-- A request of `origin` that came over another node. -/
def request (origin : Ipv4Address) : Message := .rreq ⟨1, 1, ⟨0x0a010109⟩, 0, true, origin, 5, true, false⟩

/-- A request of `10.1.1.3` comes from `10.1.1.2`, and a hello message from that one. -/
theorem keepsNumbers_iff_hello : ∃ out,
    (machine .default).replay ⟨.new [interface] 0, 0⟩ [⟨0, .inl (request ⟨0x0a010103⟩, interface, ⟨0x0a010102⟩)⟩,
      ⟨1, .inl (.rrep ⟨0, ⟨0x0a010102⟩, 1, ⟨0x0a010102⟩, 2000, false⟩, interface, ⟨0x0a010102⟩)⟩] = some out ∧
      Machine.EveryStep (Keeps .default) out.1 out.2 := by
  obtain ⟨out, hout, hrun, hmeets⟩ := Machine.exists_replay (M := machine .default) ⟨.new [interface] 0, 0⟩
    [⟨0, .inl (request ⟨0x0a010103⟩, interface, ⟨0x0a010102⟩)⟩,
      ⟨1, .inl (.rrep ⟨0, ⟨0x0a010102⟩, 1, ⟨0x0a010102⟩, 2000, false⟩, interface, ⟨0x0a010102⟩)⟩]
    (P := fun out => Machine.Meets (Harmless .default) out.1) (by decide +kernel)
  exact ⟨out, hout, (keepsNumbers_iff .default [interface] 0 out.1 out.2 hrun).mpr hmeets⟩

/-- A request of `10.1.1.3` comes from `10.1.1.2`, and then `10.1.1.3` itself passes on a request: its number is
forgotten. -/
theorem not_keepsNumbers : ¬ ∀ (tr : List (Node × NodeEvent)) (s : Node),
    (machine .default).Run ⟨.new [interface] 0, 0⟩ tr s → Machine.EveryStep (Keeps .default) tr s := by
  intro h
  obtain ⟨out, -, hrun, hharm⟩ := Machine.exists_replay (M := machine .default) ⟨.new [interface] 0, 0⟩
    [⟨0, .inl (request ⟨0x0a010103⟩, interface, ⟨0x0a010102⟩)⟩,
      ⟨1, .inl (request ⟨0x0a010104⟩, interface, ⟨0x0a010103⟩)⟩]
    (P := fun out => ¬ Machine.Meets (Harmless .default) out.1) (by decide +kernel)
  exact hharm ((hrun.everyStep_iff fun _ _ _ => keeps_iff_harmless).mp (h out.1 out.2 hrun))

end Node

end Ns3.Aodv
