import Ns3.Dsdv.Updates

/-!
# The two tables of a DSDV node

Every next hop in the forwarding table should have an entry there, a route that waits to be advertised as broken should
have no entry in it, and what has to wait should have an event. Neither of the first two holds: an update is taken from
a sender to which there is no route, and a route that is relearned before it was advertised as broken goes to the
forwarding table only.

* `Sound` — the invariant; `Sound.recvHeader`, `Sound.sendTriggeredUpdateOn`, `Sound.sendPeriodicUpdate` and
  `Sound.routeOutput` — it is kept under conditions on the updates and on what is outdated.
* `Node.consistent_of_accepts` — the tables of a node whose steps meet the conditions.
-/

namespace Ns3.Dsdv

open Lib

namespace RoutingProtocol

/-- The tables go together. -/
structure Consistent (n : RoutingProtocol) : Prop where
  /-- The next hop of an entry has an entry, whose route is taken for queued packets. -/
  nextHop : ∀ d rt, n.routingTable.lookup d = some rt → (n.routingTable.lookup (n.nextHop d rt)).isSome
  /-- What waits to be advertised as broken has no route. -/
  broken : ∀ d rt, n.advRoutingTable.lookup d = some rt → Broken rt.seqNo → n.routingTable.lookup d = none
  unchanged : ∀ d rt, n.advRoutingTable.lookup d = some rt → rt.entriesChanged = false → n.events d ≠ none
  assertion : ∀ now holddownTime event, n.Enabled event → (n.handle now holddownTime event).isSome

/-- The tables go together but for next hops whose updates are still to come in a packet. -/
structure Sound (n : RoutingProtocol) (coming : Ipv4Address → Prop) : Prop where
  /-- The next hop of an entry has an entry. -/
  nextHop : ∀ d rt, n.routingTable.lookup d = some rt →
    (n.routingTable.lookup (n.nextHop d rt)).isSome ∨ coming (n.nextHop d rt)
  /-- What waits to be advertised as broken has no route. -/
  broken : ∀ d rt, n.advRoutingTable.lookup d = some rt → Broken rt.seqNo → n.routingTable.lookup d = none
  changed : ∀ d rt, n.advRoutingTable.lookup d = some rt → rt.entriesChanged = true
  running : ∀ d, n.AnyRunningEvent d → (n.advRoutingTable.lookup d).isSome
  live : ∀ d rt, n.routingTable.lookup d = some rt → ¬ Broken rt.seqNo
  /-- Both tables have the same route. -/
  shared : ∀ d fwd adv, n.routingTable.lookup d = some fwd → n.advRoutingTable.lookup d = some adv →
    adv.ipv4Route = fwd.ipv4Route
  own : ∃ rt, n.routingTable.lookup n.main.broadcast = some rt ∧ rt.hops = 0 ∧
    n.nextHop n.main.broadcast rt = n.main.broadcast
  ownAdv : n.advRoutingTable.lookup n.main.broadcast = none

/-- The update for a sender is among some. -/
def Introduces (n : RoutingProtocol) (sender : Ipv4Address) (hs : List DsdvHeader) : Prop :=
  ¬ n.IsOwn sender ∧ ∃ h ∈ hs, h.dst = sender ∧ ¬ Broken h.dstSeqno
deriving Decidable

/-- There is a route to the sender, or there will be. -/
def Reaches (n : RoutingProtocol) (sender : Ipv4Address) (hs : List DsdvHeader) : Prop :=
  (n.routingTable.lookup sender).isSome ∨ n.Introduces sender hs
deriving Decidable

/-- The entries that are left when a route is broken go by others that are. -/
def BreaksCleanly (n : RoutingProtocol) (dst : Ipv4Address) : Prop :=
  ∀ x ∈ n.routingTable.list, x.1 ≠ dst → n.nextHop x.1 x.2 ≠ dst → ¬ n.GoesBy dst (n.nextHop x.1 x.2)
deriving Decidable

/-- The condition on an update for an entry. -/
def AcceptsFor (n : RoutingProtocol) (sender : Ipv4Address) (h : DsdvHeader) (hs : List DsdvHeader)
    (adv : RoutingTableEntry) : Prop :=
  (¬ Broken h.dstSeqno → Takes h adv → n.Reaches sender (h :: hs)) ∧
    (Broken h.dstSeqno → sender = n.nextHop h.dst adv → n.BreaksCleanly h.dst)
deriving Decidable

/-- The condition on an update, which others follow: a new route, for which nothing waits, or a better one is from a
sender to which there is a route, and a broken one leaves no entry without its next hop. -/
def AcceptsHeader (n : RoutingProtocol) (sender : Ipv4Address) (h : DsdvHeader) (hs : List DsdvHeader) : Prop :=
  n.IsOwn h.dst ∨ h.dst ≠ n.main.broadcast ∧
    match n.routingTable.lookup h.dst with
    | none => Broken h.dstSeqno ∨ n.advRoutingTable.lookup h.dst = none ∧ n.Reaches sender (h :: hs)
    | some fwd => n.AcceptsFor sender h hs ((n.advRoutingTable.lookup h.dst).getD fwd)

/-- Each update of a packet meets the condition in the tables as they are when it is read. -/
def AcceptsHeaders (now : ℤ) (sender : Ipv4Address) : List DsdvHeader → RoutingProtocol → Prop
  | [], _ => True
  | h :: hs, n => n.AcceptsHeader sender h hs ∧ AcceptsHeaders now sender hs (recvHeader now sender n h)

/-- What goes by an entry that `Purge` may remove is removed too. -/
def PurgesCleanly (n : RoutingProtocol) (now : ℤ) (holddownTime : ℕ) : Prop :=
  ∀ x ∈ n.routingTable.list, ∀ next ∈ n.routingTable.lookup (n.nextHop x.1 x.2),
    n.routingTable.MayGo n.gateways now holddownTime (n.nextHop x.1 x.2) next →
      n.routingTable.SurelyGoes n.gateways now holddownTime x.1 x.2
deriving Decidable

/-- The condition on another event. -/
def AcceptsEvent (n : RoutingProtocol) (now : ℤ) (holddownTime : ℕ) : Event → Prop
  | .sendPeriodicUpdate | .routeOutput => n.PurgesCleanly now holddownTime
  | .settle _ | .sendTriggeredUpdate => True

instance (n : RoutingProtocol) (sender : Ipv4Address) (h : DsdvHeader) (hs : List DsdvHeader) :
    Decidable (n.AcceptsHeader sender h hs) :=
  have : Decidable (match n.routingTable.lookup h.dst with
      | none => Broken h.dstSeqno ∨ n.advRoutingTable.lookup h.dst = none ∧ n.Reaches sender (h :: hs)
      | some fwd => n.AcceptsFor sender h hs ((n.advRoutingTable.lookup h.dst).getD fwd)) :=
    match n.routingTable.lookup h.dst with
    | none => inferInstanceAs (Decidable (_ ∨ _ ∧ _))
    | some _ => inferInstanceAs (Decidable (AcceptsFor _ _ _ _ _))
  inferInstanceAs (Decidable (_ ∨ _ ∧ _))

instance decidableAcceptsHeaders (now : ℤ) (sender : Ipv4Address) :
    ∀ (hs : List DsdvHeader) (n : RoutingProtocol), Decidable (AcceptsHeaders now sender hs n)
  | [], _ => .isTrue trivial
  | h :: hs, n =>
    have := decidableAcceptsHeaders now sender hs (recvHeader now sender n h)
    inferInstanceAs (Decidable (_ ∧ _))

instance (n : RoutingProtocol) (now : ℤ) (holddownTime : ℕ) : DecidablePred (n.AcceptsEvent now holddownTime)
  | .sendPeriodicUpdate | .routeOutput => inferInstanceAs (Decidable (PurgesCleanly _ _ _))
  | .settle _ | .sendTriggeredUpdate => .isTrue trivial

/-- A next hop whose update is still to come. -/
def Coming (n : RoutingProtocol) (sender : Ipv4Address) (hs : List DsdvHeader) (a : Ipv4Address) : Prop :=
  a = sender ∧ n.Introduces sender hs

variable {n n' : RoutingProtocol} {now : ℤ} {sender : Ipv4Address} {h : DsdvHeader} {hs : List DsdvHeader}

/-! ### Received updates -/

theorem Introduces.of_cons (hinterfaces : n'.interfaces = n.interfaces) (hintro : n.Introduces sender (h :: hs)) :
    (h.dst = sender ∧ ¬ Broken h.dstSeqno ∧ ¬ n.IsOwn h.dst) ∨ n'.Introduces sender hs := by
  obtain ⟨hother, g, hg, hdst, hseq⟩ := hintro
  rcases List.mem_cons.mp hg with rfl | hg
  · exact .inl ⟨hdst, hseq, by rwa [hdst]⟩
  · exact .inr ⟨by rwa [IsOwn, hinterfaces], g, hg, hdst, hseq⟩

/-- The next hop of an entry that is taken from a sender to which there is a route. -/
theorem Reaches.next (hreaches : n.Reaches sender hs) :
    (n.routingTable.lookup sender).isSome ∨ n.Coming sender hs sender :=
  hreaches.imp_right fun hintro => ⟨rfl, hintro⟩

/-- An update that keeps the entry for its destination, or makes one. -/
theorem Sound.changes {fwd : RoutingTableEntry} {adv : Option RoutingTableEntry}
    (hn : n.Sound (n.Coming sender (h :: hs))) (hchanges : Changes n n' h.dst (some fwd) adv)
    (hne : h.dst ≠ n.main.broadcast)
    (hnext : (n.routingTable.lookup (n'.nextHop h.dst fwd)).isSome ∨ n.Coming sender (h :: hs) (n'.nextHop h.dst fwd))
    (hlive : ¬ Broken fwd.seqNo)
    (hadv : ∀ rt, adv = some rt → rt.entriesChanged = true ∧ ¬ Broken rt.seqNo ∧ rt.ipv4Route = fwd.ipv4Route)
    (hrunning : n'.AnyRunningEvent h.dst → adv.isSome) : n'.Sound (n'.Coming sender hs) := by
  have hdst : n'.routingTable.lookup h.dst = some fwd := by rw [hchanges.fwd, if_pos rfl]
  have hstays : ∀ d, (n.routingTable.lookup d).isSome → (n'.routingTable.lookup d).isSome := by
    intro d hd
    rw [hchanges.fwd]
    split_ifs
    · rfl
    · exact hd
  have harrives : ∀ a, (n.routingTable.lookup a).isSome ∨ n.Coming sender (h :: hs) a →
      (n'.routingTable.lookup a).isSome ∨ n'.Coming sender hs a := by
    rintro a (ha | ⟨rfl, hintro⟩)
    · exact .inl (hstays a ha)
    · rcases hintro.of_cons hchanges.interfaces with ⟨rfl, -⟩ | hlater
      · exact .inl (by rw [hdst]; rfl)
      · exact .inr ⟨rfl, hlater⟩
  have hother : ∀ d rt, d ≠ h.dst → n'.nextHop d rt = n.nextHop d rt := by
    intro d rt hd
    rw [RoutingProtocol.nextHop, RoutingProtocol.nextHop, hchanges.gateways d hd]
  obtain ⟨own, hown, hops, hself⟩ := hn.own
  refine ⟨fun d rt hrt => harrives _ ?_, fun d rt hrt hbroken => ?_, fun d rt hrt => ?_, fun d hd => ?_,
    fun d rt hrt => ?_, fun d f a hf ha => ?_, ⟨own, ?_, hops, ?_⟩, ?_⟩
  · rw [hchanges.fwd] at hrt
    split_ifs at hrt with hd
    · subst hd
      cases hrt
      exact hnext
    · rw [hother d rt hd]
      exact hn.nextHop d rt hrt
  · rw [hchanges.adv] at hrt
    split_ifs at hrt with hd
    · exact absurd hbroken (hadv rt hrt).2.1
    · rw [hchanges.fwd, if_neg hd]
      exact hn.broken d rt hrt hbroken
  · rw [hchanges.adv] at hrt
    split_ifs at hrt with hd
    · exact (hadv rt hrt).1
    · exact hn.changed d rt hrt
  · rw [hchanges.adv]
    split_ifs with heq
    · exact hrunning (heq ▸ hd)
    · rw [AnyRunningEvent, hchanges.events d heq] at hd
      exact hn.running d hd
  · rw [hchanges.fwd] at hrt
    split_ifs at hrt with hd
    · cases hrt
      exact hlive
    · exact hn.live d rt hrt
  · rw [hchanges.fwd] at hf
    rw [hchanges.adv] at ha
    split_ifs at hf ha with hd
    · cases hf
      exact (hadv a ha).2.2
    · exact hn.shared d f a hf ha
  · rw [hchanges.main, hchanges.fwd, if_neg (Ne.symm hne)]
    exact hown
  · rw [hchanges.main, hother _ _ (Ne.symm hne)]
    exact hself
  · rw [hchanges.main, hchanges.adv, if_neg (Ne.symm hne)]
    exact hn.ownAdv

/-- An update that breaks a route. -/
theorem Sound.breaks {adv : RoutingTableEntry} (hn : n.Sound (n.Coming sender (h :: hs)))
    (hbreaks : Breaks n n' h adv) (hseq : Broken h.dstSeqno) (hclean : n.BreaksCleanly h.dst)
    (hne : h.dst ≠ n.main.broadcast) : n'.Sound (n'.Coming sender hs) := by
  have hleft : ∀ {d rt}, n'.routingTable.lookup d = some rt →
      d ≠ h.dst ∧ ¬ n.GoesBy h.dst d ∧ n.routingTable.lookup d = some rt := by
    intro d rt hrt
    rw [hbreaks.fwd] at hrt
    split_ifs at hrt with hd
    exact ⟨fun heq => hd (.inl heq), fun hby => hd (.inr hby), hrt⟩
  have hnextHop : ∀ d rt, n'.nextHop d rt = n.nextHop d rt := by
    intro d rt
    rw [RoutingProtocol.nextHop, RoutingProtocol.nextHop, hbreaks.gateways]
  -- what waits after the update: for the destination, for what went by it, or as before
  have hwaits : ∀ d rt, n'.advRoutingTable.lookup d = some rt → rt.entriesChanged = true ∧
      (n'.routingTable.lookup d = none ∨ n.advRoutingTable.lookup d = some rt) := by
    intro d rt hrt
    rcases hbreaks.adv_cases hrt with ⟨hd, rfl⟩ | ⟨old, hold, hnext, rfl⟩ | hrt
    · exact ⟨rfl, .inl (by rw [hbreaks.fwd, if_pos (.inl hd)])⟩
    · exact ⟨rfl, .inl (by rw [hbreaks.fwd, if_pos (.inr ⟨old, hold, hnext⟩)])⟩
    · exact ⟨hn.changed d rt hrt, .inr hrt⟩
  obtain ⟨own, hown, hops, hself⟩ := hn.own
  have hstays : ¬ n.GoesBy h.dst n.main.broadcast := by
    rintro ⟨rt, hrt, hnext⟩
    obtain rfl := Option.some.inj (hown.symm.trans hrt)
    exact hne (hnext.symm.trans hself)
  refine ⟨fun d rt hrt => ?_, fun d rt hrt hbroken => ?_, fun d rt hrt => (hwaits d rt hrt).1, fun d hd => ?_,
    fun d rt hrt => hn.live d rt (hleft hrt).2.2, fun d f a hf ha => ?_, ⟨own, ?_, hops, ?_⟩, ?_⟩
  · obtain ⟨hd, hby, hrt⟩ := hleft hrt
    have hnext : n.nextHop d rt ≠ h.dst := fun heq => hby ⟨rt, hrt, heq⟩
    rw [hnextHop]
    rcases hn.nextHop d rt hrt with hsome | ⟨heq, hintro⟩
    · refine .inl ?_
      rwa [hbreaks.fwd, if_neg (not_or.mpr ⟨hnext, hclean (d, rt) (RoutingTable.mem_list.mpr hrt) hd hnext⟩)]
    · rcases hintro.of_cons hbreaks.interfaces with ⟨-, hlive, -⟩ | hlater
      · exact absurd hseq hlive
      · exact .inr ⟨heq, hlater⟩
  · rcases (hwaits d rt hrt).2 with hnone | hold
    · exact hnone
    · rw [hbreaks.fwd]
      split_ifs
      · rfl
      · exact hn.broken d rt hold hbroken
  · rw [AnyRunningEvent, hbreaks.events] at hd
    obtain ⟨old, hold⟩ := Option.isSome_iff_exists.mp (hn.running d hd)
    by_cases hdst : d = h.dst
    · rw [hdst, hbreaks.adv]
      rfl
    · by_cases hby : n.GoesBy h.dst d
      · obtain ⟨rt, hrt, hnext⟩ := hby
        rw [hbreaks.advGoes d rt hdst hrt hnext]
        rfl
      · rw [hbreaks.advStays d hdst hby, hold]
        rfl
  · rcases (hwaits d a ha).2 with hnone | hold
    · cases hnone.symm.trans hf
    · exact hn.shared d f a (hleft hf).2.2 hold
  · rwa [hbreaks.main, hbreaks.fwd, if_neg (not_or.mpr ⟨Ne.symm hne, hstays⟩)]
  · rw [hbreaks.main, hnextHop]
    exact hself
  · rw [hbreaks.main, hbreaks.advStays _ (Ne.symm hne) hstays]
    exact hn.ownAdv

/-- What an update is compared with has the route of the entry, and no number of a broken one. -/
theorem Sound.compared {coming : Ipv4Address → Prop} {dst : Ipv4Address} {fwd adv : RoutingTableEntry}
    (hn : n.Sound coming) (hcompared : n.Compared dst fwd adv) :
    adv.ipv4Route = fwd.ipv4Route ∧ ¬ Broken adv.seqNo := by
  obtain ⟨hfwd, hadv | ⟨-, rfl⟩⟩ := hcompared
  · refine ⟨hn.shared dst fwd adv hfwd hadv, fun hbroken => ?_⟩
    cases (hn.broken dst adv hadv hbroken).symm.trans hfwd
  · exact ⟨rfl, hn.live dst adv hfwd⟩

theorem Compared.accepts {fwd adv : RoutingTableEntry} (hcompared : n.Compared h.dst fwd adv)
    (hother : ¬ n.IsOwn h.dst) (hacc : n.AcceptsHeader sender h hs) :
    h.dst ≠ n.main.broadcast ∧ n.AcceptsFor sender h hs adv := by
  obtain ⟨hne, hmatch⟩ := hacc.resolve_left hother
  obtain ⟨hfwd, hadv⟩ := hcompared
  rw [hfwd] at hmatch
  refine ⟨hne, ?_⟩
  rcases hadv with hadv | ⟨hadv, rfl⟩
  · rwa [hadv] at hmatch
  · rwa [hadv] at hmatch

theorem Sound.recvHeader (hn : n.Sound (n.Coming sender (h :: hs))) (hacc : n.AcceptsHeader sender h hs) :
    (recvHeader now sender n h).Sound ((recvHeader now sender n h).Coming sender hs) := by
  have houtcome := recvHeader_outcome n now sender h
  generalize RoutingProtocol.recvHeader now sender n h = n' at houtcome ⊢
  cases houtcome with
  | ignored hwhy heq =>
    subst heq
    refine { hn with nextHop := fun d rt hrt => (hn.nextHop d rt hrt).imp_right fun ⟨heq, hintro⟩ => ⟨heq, ?_⟩ }
    rcases hintro.of_cons rfl with ⟨-, hseq, hother⟩ | hlater
    · exact absurd hwhy (not_or.mpr ⟨hother, hseq⟩)
    · exact hlater
  | new hother hnone hseq hchanges hgateway hevents =>
    obtain ⟨hne, hmatch⟩ := hacc.resolve_left hother
    rw [hnone] at hmatch
    obtain ⟨hadv, hreaches⟩ := hmatch.resolve_left hseq
    rw [hadv] at hchanges
    refine hn.changes hchanges hne ?_ hseq ?_ fun _ => rfl
    · rw [show n'.nextHop h.dst (n.newEntry now h) = sender from hgateway]
      exact hreaches.next
    · rintro rt ⟨⟩
      exact ⟨rfl, hseq, rfl⟩
  | settles hother fwd adv hcompared hseq htakes hchanges hgateway =>
    obtain ⟨hne, haccepts, -⟩ := hcompared.accepts hother hacc
    refine hn.changes hchanges hne ?_ hseq ?_ fun _ => rfl
    · rw [show n'.nextHop h.dst (taken now h adv) = sender from hgateway]
      exact (haccepts hseq htakes).next
    · rintro rt ⟨⟩
      exact ⟨rfl, hseq, rfl⟩
  | advertises hother fwd adv hcompared hseq htakes hchanges hgateway hevents =>
    obtain ⟨hne, haccepts, -⟩ := hcompared.accepts hother hacc
    obtain ⟨hroute, -⟩ := hn.compared hcompared
    refine hn.changes hchanges hne ?_ (hn.live h.dst fwd hcompared.1) ?_ fun _ => rfl
    · -- both tables have the same route, so that the entry for forwarding goes by the sender too
      rw [RoutingProtocol.nextHop, ← hroute, hgateway]
      exact (haccepts hseq (.inl htakes)).next
    · rintro rt ⟨⟩
      exact ⟨rfl, hseq, hroute⟩
  | renews hother fwd adv hcompared hseq hsame hchanges hgateways hevents hrunning =>
    obtain ⟨hne, -⟩ := hcompared.accepts hother hacc
    obtain ⟨hroute, hlive⟩ := hn.compared hcompared
    refine hn.changes hchanges hne ?_ hlive (fun rt hrt => by cases hrt) fun hrun => ?_
    · rw [RoutingProtocol.nextHop, hgateways]
      dsimp only
      rw [hroute]
      exact hn.nextHop h.dst fwd hcompared.1
    · rw [AnyRunningEvent, hevents] at hrun
      exact absurd hrun hrunning
  | discards hother fwd adv hcompared hchanges hgateways hevents =>
    obtain ⟨hne, -⟩ := hcompared.accepts hother hacc
    obtain ⟨hroute, hlive⟩ := hn.compared hcompared
    refine hn.changes hchanges hne ?_ (hn.live h.dst fwd hcompared.1) (fun rt hrt => ?_) fun hrun => ?_
    · rw [RoutingProtocol.nextHop, hgateways]
      exact hn.nextHop h.dst fwd hcompared.1
    · split_ifs at hrt with hrun
      cases hrt
      obtain ⟨old, hold⟩ := Option.isSome_iff_exists.mp (hn.running h.dst hrun)
      obtain hadv | ⟨hadv, -⟩ := hcompared.2
      · exact ⟨hn.changed h.dst adv hadv, hlive, hroute⟩
      · cases hadv.symm.trans hold
    · rw [AnyRunningEvent, hevents] at hrun
      rw [if_pos (show n.AnyRunningEvent h.dst from hrun)]
      rfl
  | breaks hother fwd adv hcompared hseq hsender hbreaks =>
    obtain ⟨hne, -, haccepts⟩ := hcompared.accepts hother hacc
    exact hn.breaks hbreaks hseq (haccepts hseq hsender) hne

theorem Sound.recvHeaders (hn : n.Sound (n.Coming sender hs)) (hacc : AcceptsHeaders now sender hs n) :
    (hs.foldl (RoutingProtocol.recvHeader now sender) n).Sound fun _ => False := by
  induction hs generalizing n with
  | nil =>
    refine { hn with nextHop := fun d rt hrt => (hn.nextHop d rt hrt).imp_right ?_ }
    rintro ⟨-, -, g, hg, -⟩
    exact absurd hg List.not_mem_nil
  | cons h hs ih => exact ih (hn.recvHeader hacc.1) hacc.2

theorem Sound.recvDsdv {packet : Packet} (hn : n.Sound fun _ => False)
    (hacc : AcceptsHeaders now packet.sender packet.headers n) : (n.recvDsdv now packet).Sound fun _ => False := by
  have hcoming : n.Sound (n.Coming packet.sender packet.headers) :=
    { hn with nextHop := fun d rt hrt => .inl ((hn.nextHop d rt hrt).resolve_right id) }
  have hread := hcoming.recvHeaders hacc
  exact { hread with }

/-! ### Sent updates -/

/-- What is merged, settled or removed leaves the routes that there were. -/
theorem Sound.narrows (hn : n.Sound fun _ => False) (hgateways : n'.gateways = n.gateways) (hmain : n'.main = n.main)
    (hfwd : ∀ d rt', n'.routingTable.lookup d = some rt' → ∃ rt, n.routingTable.lookup d = some rt ∧
      rt'.ipv4Route = rt.ipv4Route ∧ ¬ Broken rt'.seqNo)
    (hnext : ∀ d rt, n'.routingTable.lookup d = some rt → (n'.routingTable.lookup (n.nextHop d rt)).isSome)
    (hadv : ∀ d rt, n'.advRoutingTable.lookup d = some rt → n.advRoutingTable.lookup d = some rt ∨
      rt.entriesChanged = true ∧ n'.routingTable.lookup d = none)
    (hrunning : ∀ d, n'.AnyRunningEvent d → (n'.advRoutingTable.lookup d).isSome)
    (hown : ∃ rt, n'.routingTable.lookup n.main.broadcast = some rt ∧ rt.hops = 0) : n'.Sound fun _ => False := by
  have hnextHop : ∀ d rt rt', rt'.ipv4Route = rt.ipv4Route → n'.nextHop d rt' = n.nextHop d rt := by
    intro d rt rt' hroute
    rw [RoutingProtocol.nextHop, RoutingProtocol.nextHop, hgateways, hroute]
  obtain ⟨own, hownRt, hops⟩ := hown
  refine ⟨fun d rt hrt => .inl ?_, fun d rt hrt hbroken => ?_, fun d rt hrt => ?_, hrunning, fun d rt hrt => ?_,
    fun d f a hf ha => ?_, ⟨own, by rwa [hmain], hops, ?_⟩, ?_⟩
  · rw [hnextHop d rt rt rfl]
    exact hnext d rt hrt
  · rcases hadv d rt hrt with hold | ⟨-, hnone⟩
    · refine Option.eq_none_iff_forall_not_mem.mpr fun rt' hrt' => ?_
      obtain ⟨f, hf, -⟩ := hfwd d rt' hrt'
      cases (hn.broken d rt hold hbroken).symm.trans hf
    · exact hnone
  · exact (hadv d rt hrt).elim (hn.changed d rt) And.left
  · obtain ⟨-, -, -, hlive⟩ := hfwd d rt hrt
    exact hlive
  · obtain ⟨f', hf', hroute, -⟩ := hfwd d f hf
    rcases hadv d a ha with hold | ⟨-, hnone⟩
    · rw [hroute]
      exact hn.shared d f' a hf' hold
    · cases hnone.symm.trans hf
  · obtain ⟨rt, hrt, hroute, -⟩ := hfwd _ own hownRt
    obtain ⟨old, hold, -, hself⟩ := hn.own
    obtain rfl := Option.some.inj (hold.symm.trans hrt)
    rw [hmain, hnextHop _ old own hroute]
    exact hself
  · rw [hmain]
    refine Option.eq_none_iff_forall_not_mem.mpr fun rt hrt => ?_
    rcases hadv _ rt hrt with hold | ⟨-, hnone⟩
    · cases hn.ownAdv.symm.trans hold
    · cases hnone.symm.trans hownRt

theorem Sound.next_of_stays (hn : n.Sound fun _ => False)
    (hfwd : ∀ d rt', n'.routingTable.lookup d = some rt' → ∃ rt, n.routingTable.lookup d = some rt ∧
      rt'.ipv4Route = rt.ipv4Route ∧ ¬ Broken rt'.seqNo)
    (hstays : ∀ d, (n.routingTable.lookup d).isSome → (n'.routingTable.lookup d).isSome) (d : Ipv4Address)
    (rt' : RoutingTableEntry) (hrt' : n'.routingTable.lookup d = some rt') :
    (n'.routingTable.lookup (n.nextHop d rt')).isSome := by
  obtain ⟨rt, hrt, hroute, -⟩ := hfwd d rt' hrt'
  apply hstays
  rw [RoutingProtocol.nextHop, hroute]
  exact (hn.nextHop d rt hrt).resolve_right id

/-- An entry that waits, or did when the table was read. -/
structure Waits (n : RoutingProtocol) (x : Ipv4Address × RoutingTableEntry) : Prop where
  /-- It is not for the node itself. -/
  notOwn : x.1 ≠ n.main.broadcast
  changed : x.2.entriesChanged = true
  /-- It has the route of the entry for forwarding, where there is one, and is not broken then. -/
  same : ∀ fwd, n.routingTable.lookup x.1 = some fwd → ¬ Broken x.2.seqNo ∧ x.2.ipv4Route = fwd.ipv4Route

variable {x y : Ipv4Address × RoutingTableEntry}

theorem Sound.waits (hn : n.Sound fun _ => False) (hx : x ∈ n.advRoutingTable.getListOfAllRoutes) : n.Waits x := by
  have hadv := RoutingTable.mem_getListOfAllRoutes hx
  refine ⟨fun heq => ?_, hn.changed x.1 x.2 hadv, fun fwd hfwd => ⟨fun hbroken => ?_, hn.shared x.1 fwd x.2 hfwd hadv⟩⟩
  · rw [heq, hn.ownAdv] at hadv
    cases hadv
  · cases (hn.broken x.1 x.2 hadv hbroken).symm.trans hfwd

theorem Waits.hasEvent (hx : n.Waits x) : n.HasEvent x := by
  by_cases hrunning : n.AnyRunningEvent x.1
  · refine .inr fun hnone => ?_
    rw [AnyRunningEvent, hnone] at hrunning
    cases hrunning
  · exact .inl ⟨hx.changed, hrunning⟩

theorem Waits.lookup_merged (hx : n.Waits x) (hmerged : Merged n n' x)
    (hlive : ∀ d rt, n.routingTable.lookup d = some rt → ¬ Broken rt.seqNo) (d : Ipv4Address) (rt' : RoutingTableEntry)
    (h : n'.routingTable.lookup d = some rt') :
    ∃ rt, n.routingTable.lookup d = some rt ∧ rt'.ipv4Route = rt.ipv4Route ∧ ¬ Broken rt'.seqNo := by
  rw [hmerged.fwd] at h
  split_ifs at h with hd
  · obtain ⟨rfl, -, hseq⟩ := hd
    obtain ⟨rt, hrt, rfl⟩ := Option.map_eq_some_iff.mp h
    exact ⟨rt, hrt, (hx.same rt hrt).2, hseq⟩
  · exact ⟨rt', h, rfl, hlive d rt' h⟩

theorem Sound.merged (hn : n.Sound fun _ => False) (hx : n.Waits x) (hmerged : Merged n n' x) :
    n'.Sound fun _ => False := by
  have hfwd := hx.lookup_merged hmerged hn.live
  have hstays : ∀ d, (n.routingTable.lookup d).isSome → (n'.routingTable.lookup d).isSome := by
    intro d hd
    rw [hmerged.fwd]
    split_ifs
    · rwa [Option.isSome_map]
    · exact hd
  refine hn.narrows hmerged.gateways hmerged.main hfwd (hn.next_of_stays hfwd hstays) (fun d rt hrt => .inl ?_)
    (fun d hd => ?_) ?_
  · rw [hmerged.adv] at hrt
    split_ifs at hrt
    exact hrt
  · rw [hmerged.running] at hd
    rw [hmerged.adv, if_neg]
    · exact hn.running d hd
    · rintro ⟨rfl, -, hnot⟩
      exact hnot hd
  · obtain ⟨own, hown, hops, -⟩ := hn.own
    refine ⟨own, ?_, hops⟩
    rw [hmerged.fwd, if_neg]
    · exact hown
    · rintro ⟨heq, -⟩
      exact hx.notOwn heq.symm

theorem Waits.merged (hy : n.Waits y) (hn : n.Sound fun _ => False) (hx : n.Waits x) (hmerged : Merged n n' x) :
    n'.Waits y := by
  refine ⟨?_, hy.changed, fun fwd hfwd => ?_⟩
  · rw [hmerged.main]
    exact hy.notOwn
  · obtain ⟨rt, hrt, hroute, -⟩ := hx.lookup_merged hmerged hn.live y.1 fwd hfwd
    rw [hroute]
    exact hy.same rt hrt

theorem Sound.foldl_merged {f : RoutingProtocol → Ipv4Address × RoutingTableEntry → RoutingProtocol}
    (hf : ∀ n x, Merged n (f n x) x) (l : List (Ipv4Address × RoutingTableEntry)) (hn : n.Sound fun _ => False)
    (hl : ∀ x ∈ l, n.Waits x) : ((l.foldl f n).Sound fun _ => False) ∧ ∀ y, n.Waits y → (l.foldl f n).Waits y := by
  induction l generalizing n with
  | nil => exact ⟨hn, fun y hy => hy⟩
  | cons x l ih =>
    have hx := hl x List.mem_cons_self
    have hwaits : ∀ y, n.Waits y → (f n x).Waits y := fun y hy => hy.merged hn hx (hf n x)
    obtain ⟨hend, hrest⟩ := ih (hn.merged hx (hf n x)) fun y hy => hwaits y (hl y (List.mem_cons_of_mem x hy))
    exact ⟨hend, fun y hy => hrest y (hwaits y hy)⟩

theorem Sound.sendTriggeredUpdateOn {allRoutes : List (Ipv4Address × RoutingTableEntry)} (ifaces : List Interface)
    (hn : n.Sound fun _ => False) (hall : ∀ x ∈ allRoutes, n.Waits x) :
    ∃ n' packets, RoutingProtocol.sendTriggeredUpdateOn allRoutes ifaces n = some (n', packets) ∧
      n'.Sound fun _ => False := by
  induction ifaces generalizing n with
  | nil => exact ⟨n, [], rfl, hn⟩
  | cons iface ifaces ih =>
    obtain ⟨hn', hwaits⟩ := hn.foldl_merged advertise_merged allRoutes hall
    obtain ⟨n'', packets, hsend, hn''⟩ := ih hn' fun x hx => hwaits x (hall x hx)
    rw [RoutingProtocol.sendTriggeredUpdateOn, if_pos fun x hx => (hall x hx).hasEvent]
    dsimp only
    rw [hsend]
    exact ⟨n'', _, rfl, hn''⟩

/-! ### What is removed -/

variable {holddownTime : ℕ}

section

variable (hn : n.Sound fun _ => False)
include hn

/-- The tables after the forwarding table is purged. -/
theorem Sound.purge (hclean : n.PurgesCleanly now holddownTime) :
    ({ n with routingTable := (n.routingTable.purge n.gateways now holddownTime).1 } : RoutingProtocol).Sound
      fun _ => False := by
  refine hn.narrows rfl rfl (fun d rt hrt => ⟨rt, RoutingTable.lookup_purge hrt, rfl, ?_⟩) (fun d rt hrt => ?_)
    (fun d rt hrt => .inl hrt) hn.running ?_
  · exact hn.live d rt (RoutingTable.lookup_purge hrt)
  · have hrt' := RoutingTable.lookup_purge hrt
    obtain ⟨next, hnext⟩ := Option.isSome_iff_exists.mp ((hn.nextHop d rt hrt').resolve_right id)
    by_contra hgone
    have hmay := RoutingTable.mayGo_of_purge hnext (Option.not_isSome_iff_eq_none.mp hgone)
    have hgoes := hclean (d, rt) (RoutingTable.mem_list.mpr hrt') next hnext hmay
    cases (RoutingTable.purge_of_surelyGoes hrt' hgoes).symm.trans hrt
  · obtain ⟨own, hown, hops, hself⟩ := hn.own
    exact ⟨own, lookup_purge_own hown hops hself, hops⟩

theorem Sound.setOwnSeqNo (hx : ¬ Broken x.2.seqNo) : (setOwnSeqNo now n x).Sound fun _ => False := by
  obtain ⟨own, hown, hops, hself⟩ := hn.own
  obtain ⟨seqNo, hseq, hlookup, heq⟩ := lookup_setOwnSeqNo now x hown
  have hlive : ¬ Broken seqNo := by
    rcases hseq with rfl | rfl
    · exact hn.live _ own hown
    · exact not_broken_add_two hx
  have hfwd : ∀ d rt', (RoutingProtocol.setOwnSeqNo now n x).routingTable.lookup d = some rt' →
      ∃ rt, n.routingTable.lookup d = some rt ∧ rt'.ipv4Route = rt.ipv4Route ∧ ¬ Broken rt'.seqNo := by
    intro d rt' hrt'
    rw [hlookup] at hrt'
    split_ifs at hrt' with hd
    · cases hrt'
      exact ⟨own, by rw [hd]; exact hown, rfl, hlive⟩
    · exact ⟨rt', hrt', rfl, hn.live d rt' hrt'⟩
  have hstays : ∀ d, (n.routingTable.lookup d).isSome →
      ((RoutingProtocol.setOwnSeqNo now n x).routingTable.lookup d).isSome := by
    intro d hd
    rw [hlookup]
    split_ifs
    · rfl
    · exact hd
  refine hn.narrows (by rw [heq]) (by rw [heq]) hfwd (hn.next_of_stays hfwd hstays) (fun d rt hrt => .inl ?_)
    (fun d hd => ?_) ⟨{ own with seqNo }, by rw [hlookup, if_pos rfl], hops⟩
  · rw [heq] at hrt
    exact hrt
  · rw [heq] at hd ⊢
    exact hn.running d hd

theorem Sound.sendPeriodicUpdate (hclean : n.PurgesCleanly now holddownTime) :
    (n.sendPeriodicUpdate now holddownTime).1.Sound fun _ => False := by
  have hpurged := hn.purge hclean
  obtain ⟨hmerged, -⟩ := hpurged.foldl_merged mergeEntry_merged _ fun x hx => hpurged.waits hx
  refine foldl_setOwnSeqNo (p := fun n => n.Sound fun _ => False) (fun n x hx hn => hn.setOwnSeqNo ?_) _ hmerged
  exact hmerged.live x.1 x.2 (RoutingTable.mem_getListOfAllRoutes hx)

theorem Sound.routeOutput (hclean : n.PurgesCleanly now holddownTime) :
    (n.routeOutput now holddownTime).Sound fun _ => False := by
  have hpurged := hn.purge hclean
  obtain ⟨own, hown, hops, -⟩ := hpurged.own
  have hadd := lookup_foldl_addRoute RoutingProtocol.broken
    (n.routingTable.purge n.gateways now holddownTime).2 n.advRoutingTable
  refine hpurged.narrows rfl rfl (fun d rt hrt => ⟨rt, hrt, rfl, hpurged.live d rt hrt⟩)
    (hpurged.next_of_stays (fun d rt hrt => ⟨rt, hrt, rfl, hpurged.live d rt hrt⟩) fun d hd => hd)
    (fun d rt hrt => ?_) (fun d hd => ?_) ⟨own, hown, hops⟩
  · rcases (hadd d).1 rt hrt with hold | ⟨x, hx, rfl, rfl⟩
    · exact .inl hold
    · exact .inr ⟨rfl, (RoutingTable.mem_purge hx).2⟩
  · have hwaits := hn.running d hd
    rwa [← (hadd d).2 hwaits] at hwaits

/-! ### Runs -/

theorem Sound.settles {events : Ipv4Address → Option Bool} {scheduled : ℕ}
    (hevents : ∀ d, events d = some true → n.AnyRunningEvent d) :
    ∃ n' packets, RoutingProtocol.sendTriggeredUpdate { n with events, scheduled } = some (n', packets) ∧
      n'.Sound fun _ => False := by
  have hsettled : ({ n with events, scheduled } : RoutingProtocol).Sound fun _ => False :=
    { hn with running := fun d hd => hn.running d (hevents d hd) }
  exact hsettled.sendTriggeredUpdateOn _ fun x hx => hsettled.waits hx

end

theorem running_of_update (dst : Ipv4Address) {d : Ipv4Address}
    (hd : Function.update n.events dst (some false) d = some true) : n.AnyRunningEvent d := by
  by_cases heq : d = dst
  · subst heq
    simp at hd
  · rwa [Function.update_of_ne heq] at hd

theorem Sound.handle {event : Event} (hn : n.Sound fun _ => False) (hacc : n.AcceptsEvent now holddownTime event) :
    ∃ n' packets, RoutingProtocol.handle n now holddownTime event = some (n', packets) ∧ n'.Sound fun _ => False := by
  cases event with
  | settle dst => exact hn.settles fun d hd => running_of_update dst hd
  | sendTriggeredUpdate => exact hn.settles fun d hd => hd
  | sendPeriodicUpdate => exact ⟨_, _, rfl, hn.sendPeriodicUpdate hacc⟩
  | routeOutput => exact ⟨_, _, rfl, hn.routeOutput hacc⟩

theorem Sound.consistent (hn : n.Sound fun _ => False) : n.Consistent where
  nextHop d rt hrt := (hn.nextHop d rt hrt).resolve_right id
  broken := hn.broken
  unchanged d rt hrt hsame := by
    rw [hn.changed d rt hrt] at hsame
    cases hsame
  assertion now holddownTime event _ := by
    cases event with
    | settle dst =>
      obtain ⟨n', packets, hsend, -⟩ := hn.settles fun d hd => running_of_update dst hd
      exact Option.isSome_iff_exists.mpr ⟨_, hsend⟩
    | sendTriggeredUpdate =>
      obtain ⟨n', packets, hsend, -⟩ := hn.settles fun d hd => hd
      exact Option.isSome_iff_exists.mpr ⟨_, hsend⟩
    | sendPeriodicUpdate => rfl
    | routeOutput => rfl

/-- The entries for the interfaces. -/
theorem lookup_new (l : List Interface) (maximumSimulationTime : ℤ) (t : RoutingTable)
    (ht : ∀ d rt, t.lookup d = some rt → rt.hops = 0 ∧ rt.seqNo = 0) :
    let t' := l.foldl (fun t iface => t.addRoute iface.broadcast ⟨0, 0, maximumSimulationTime, 0, .valid, false⟩) t
    (∀ d rt, t'.lookup d = some rt → rt.hops = 0 ∧ rt.seqNo = 0) ∧
      ∀ d, (t.lookup d).isSome ∨ (∃ iface ∈ l, iface.broadcast = d) → (t'.lookup d).isSome := by
  induction l generalizing t with
  | nil => exact ⟨ht, fun d hd => hd.resolve_right fun ⟨_, hmem, _⟩ => absurd hmem List.not_mem_nil⟩
  | cons iface l ih =>
    have hadd : ∀ d rt,
        (t.addRoute iface.broadcast ⟨0, 0, maximumSimulationTime, 0, .valid, false⟩).lookup d = some rt →
        rt.hops = 0 ∧ rt.seqNo = 0 := by
      intro d rt hrt
      rw [RoutingTable.lookup_addRoute] at hrt
      split_ifs at hrt with hd
      · cases hrt
        cases hold : t.lookup iface.broadcast with
        | none => exact ⟨rfl, rfl⟩
        | some old => exact ht _ old hold
      · exact ht d rt hrt
    obtain ⟨hzero, hsome⟩ := ih (t.addRoute iface.broadcast ⟨0, 0, maximumSimulationTime, 0, .valid, false⟩) hadd
    refine ⟨hzero, fun d hd => hsome d ?_⟩
    rw [RoutingTable.lookup_addRoute]
    rcases hd with hd | ⟨other, hother, rfl⟩
    · left
      split_ifs
      · rfl
      · exact hd
    · rcases List.mem_cons.mp hother with rfl | hlater
      · exact .inl (by rw [if_pos rfl]; rfl)
      · exact .inr ⟨other, hlater, rfl⟩

theorem sound_new (main : Interface) (others : List Interface) (maximumSimulationTime : ℤ) :
    (RoutingProtocol.new main others maximumSimulationTime).Sound fun _ => False := by
  obtain ⟨hzero, hsome⟩ := lookup_new (main :: others) maximumSimulationTime
    (RoutingTable.addRoute ∅ loopback ⟨0, 0, maximumSimulationTime, 0, .invalid, false⟩) fun d rt hrt => by
      rw [RoutingTable.lookup_addRoute, AList.lookup_empty] at hrt
      split_ifs at hrt
      · cases hrt
        exact ⟨rfl, rfl⟩
      · cases AList.lookup_empty d |>.symm.trans hrt
  obtain ⟨own, hown⟩ := Option.isSome_iff_exists.mp (hsome main.broadcast (.inr ⟨main, List.mem_cons_self, rfl⟩))
  refine ⟨fun d rt hrt => .inl (Option.isSome_iff_exists.mpr ⟨rt, hrt⟩), fun d rt hrt => ?_, fun d rt hrt => ?_,
    fun d hd => (by cases hd), fun d rt hrt => ?_, fun d fwd adv hfwd hadv => ?_,
    ⟨own, hown, (hzero _ own hown).1, rfl⟩, rfl⟩
  · cases hrt
  · cases hrt
  · rw [(hzero d rt hrt).2]
    decide
  · cases hadv

end RoutingProtocol

/-- A node, and the time of the last event. -/
structure Node where
  protocol : RoutingProtocol
  now : ℤ

/-- What happens at a node, and when. -/
structure NodeEvent where
  now : ℤ
  /-- A packet of updates, or another event. -/
  event : Packet ⊕ RoutingProtocol.Event

namespace Node

/-- An event can happen. -/
def Enabled (n : RoutingProtocol) : Packet ⊕ RoutingProtocol.Event → Prop
  | .inl _ => True
  | .inr event => n.Enabled event

variable (holddownTime : ℕ)

/-- The handler of an event; `none` where an assertion fails. -/
def exec (n : RoutingProtocol) (now : ℤ) : Packet ⊕ RoutingProtocol.Event → Option RoutingProtocol
  | .inl packet => some (n.recvDsdv now packet)
  | .inr event => (n.handle now holddownTime event).map Prod.fst

/-- A node that runs `RoutingProtocol`. -/
def machine : Machine Node NodeEvent where
  enabled s e := s.now ≤ e.now ∧ Enabled s.protocol e.event
  exec s e := (exec holddownTime s.protocol e.now e.event).map fun n => ⟨n, e.now⟩

instance decidableEnabled (n : RoutingProtocol) : DecidablePred (Enabled n)
  | .inl _ => .isTrue trivial
  | .inr _ => inferInstanceAs (Decidable (RoutingProtocol.Enabled _ _))

instance (holddownTime : ℕ) (s : Node) (e : NodeEvent) : Decidable ((machine holddownTime).enabled s e) :=
  inferInstanceAs (Decidable (_ ∧ Enabled _ _))

/-- The condition on an event. -/
def Accepts (s : Node) (e : NodeEvent) : Prop :=
  match e.event with
  | .inl packet => RoutingProtocol.AcceptsHeaders e.now packet.sender packet.headers s.protocol
  | .inr event => s.protocol.AcceptsEvent e.now holddownTime event

instance (holddownTime : ℕ) (s : Node) (e : NodeEvent) : Decidable (Accepts holddownTime s e) :=
  match h : e.event with
  | .inl packet => decidable_of_iff
      (RoutingProtocol.AcceptsHeaders e.now packet.sender packet.headers s.protocol) (by rw [Accepts, h])
  | .inr event => decidable_of_iff (s.protocol.AcceptsEvent e.now holddownTime event) (by rw [Accepts, h])

/-- In a run whose steps meet the condition the tables go together: a new or better route is from a sender to which
there is a route, or whose own update is in the packet; nothing waits for a new one; a broken route and outdated entries
take with them what goes by them; and no update is for the broadcast address of the node itself. -/
theorem consistent_of_accepts (main : Interface) (others : List Interface)
    (maximumSimulationTime : ℤ) (tr : List (Node × NodeEvent)) (s : Node)
    (h : (machine holddownTime).Run ⟨.new main others maximumSimulationTime, 0⟩ tr s)
    (haccepts : Machine.Meets (Accepts holddownTime) tr) :
    Machine.EveryState (fun s => s.protocol.Consistent) tr s := by
  have hsound : Machine.EveryState (fun s => s.protocol.Sound fun _ => False) tr s := by
    refine h.everyState_of_meets haccepts (RoutingProtocol.sound_new main others maximumSimulationTime) ?_
    rintro ⟨n, time⟩ ⟨now, event⟩ s' hn hacc ⟨-, hexec⟩
    cases event with
    | inl packet =>
      cases hexec
      exact RoutingProtocol.Sound.recvDsdv hn hacc
    | inr event =>
      obtain ⟨n', packets, hhandle, hn'⟩ := RoutingProtocol.Sound.handle hn hacc
      simp only [machine, exec, hhandle, Option.map_some, Option.some.injEq] at hexec
      subst hexec
      exact hn'
  exact ⟨fun x hx => (hsound.1 x hx).consistent, hsound.2.consistent⟩

/-- The interface of the node `10.1.1.1`. -/
def interface : Interface := ⟨⟨0x0a010101⟩, ⟨0x0a0101ff⟩⟩

/-- Updates of `10.1.1.2`: its own and one for `10.1.1.3`. -/
def update (seqNo destinationSeqNo : UInt32) : Packet ⊕ RoutingProtocol.Event :=
  .inl ⟨⟨0x0a010102⟩, [⟨⟨0x0a010103⟩, 2, destinationSeqNo⟩, ⟨⟨0x0a010102⟩, 1, seqNo⟩]⟩

theorem consistent_of_accepts_update : ∃ out,
    (machine 45000000000).replay ⟨.new interface [] 0, 0⟩
      [⟨0, update 2 2⟩, ⟨1000, .inr .sendTriggeredUpdate⟩, ⟨2000, update 4 3⟩, ⟨3000, .inr .sendTriggeredUpdate⟩,
        ⟨4000, update 6 4⟩] = some out ∧
      Machine.EveryState (fun s => s.protocol.Consistent) out.1 out.2 := by
  obtain ⟨out, hout, hrun, hmeets⟩ := Machine.exists_replay (M := machine 45000000000) ⟨.new interface [] 0, 0⟩
    [⟨0, update 2 2⟩, ⟨1000, .inr .sendTriggeredUpdate⟩, ⟨2000, update 4 3⟩, ⟨3000, .inr .sendTriggeredUpdate⟩,
      ⟨4000, update 6 4⟩] (P := fun out => Machine.Meets (Accepts 45000000000) out.1) (by decide +kernel)
  exact ⟨out, hout, consistent_of_accepts 45000000000 interface [] 0 out.1 out.2 hrun hmeets⟩

/-- The route to `10.1.1.3` is broken, and a new one comes before that is advertised: it waits as broken, although there
is a route. -/
theorem broken_entry_with_route : ¬ ∀ (tr : List (Node × NodeEvent)) (s : Node),
    (machine 45000000000).Run ⟨.new interface [] 0, 0⟩ tr s →
      Machine.EveryState (fun s => s.protocol.Consistent) tr s := by
  intro h
  obtain ⟨out, -, hrun, x, hx, hbroken, hroute⟩ := Machine.exists_replay (M := machine 45000000000)
    ⟨.new interface [] 0, 0⟩
    [⟨0, update 2 2⟩, ⟨1000, .inr .sendTriggeredUpdate⟩, ⟨2000, update 4 3⟩, ⟨2500, update 4 4⟩]
    (P := fun out => ∃ x ∈ out.2.protocol.advRoutingTable.list,
      RoutingProtocol.Broken x.2.seqNo ∧ (out.2.protocol.routingTable.lookup x.1).isSome) (by decide +kernel)
  have hnone := (h out.1 out.2 hrun).2.broken x.1 x.2 (RoutingTable.mem_list.mp hx) hbroken
  rw [hnone] at hroute
  cases hroute

end Node

end Ns3.Dsdv
