import Ns3.Dsdv.RoutingProtocol

/-!
# What an update does to the tables

An update touches what is there for its destination only, unless it breaks a route. `Outcome` has a case for each of the
branches of `RecvDsdv`.

* `recvHeader_outcome` — the tables after an update.
* `foldl_merged` and `lookup_setOwnSeqNo` — after entries are merged, and when the node's own number is set;
  `lookup_purge_own` — its own entry is not removed.
-/

namespace Ns3.Dsdv

namespace RoutingProtocol

variable {n : RoutingProtocol} {now : ℤ} {sender dst : Ipv4Address} {h : DsdvHeader}

/-- What is there for other destinations stays. -/
structure Changes (n n' : RoutingProtocol) (dst : Ipv4Address) (fwd adv : Option RoutingTableEntry) : Prop where
  fwd : ∀ d, n'.routingTable.lookup d = if d = dst then fwd else n.routingTable.lookup d
  adv : ∀ d, n'.advRoutingTable.lookup d = if d = dst then adv else n.advRoutingTable.lookup d
  gateways : ∀ d, d ≠ dst → n'.gateways d = n.gateways d
  events : ∀ d, d ≠ dst → n'.events d = n.events d
  main : n'.main = n.main
  interfaces : n'.interfaces = n.interfaces

/-- The entry that an update is compared with. -/
def Compared (n : RoutingProtocol) (dst : Ipv4Address) (fwd adv : RoutingTableEntry) : Prop :=
  n.routingTable.lookup dst = some fwd ∧
    (n.advRoutingTable.lookup dst = some adv ∨ n.advRoutingTable.lookup dst = none ∧ adv = fwd)

/-- An update is taken in the place of an entry. -/
def Takes (h : DsdvHeader) (adv : RoutingTableEntry) : Prop :=
  adv.seqNo < h.dstSeqno ∨ h.dstSeqno = adv.seqNo ∧ h.hopCount < adv.hops
deriving Decidable

/-- The entry with what an update says. -/
def taken (now : ℤ) (h : DsdvHeader) (adv : RoutingTableEntry) : RoutingTableEntry :=
  { adv with seqNo := h.dstSeqno, lifeTime := now, flag := .valid, entriesChanged := true, hops := h.hopCount }

/-- The new entry that an update makes. -/
def newEntry (n : RoutingProtocol) (now : ℤ) (h : DsdvHeader) : RoutingTableEntry :=
  ⟨h.dstSeqno, h.hopCount, now, n.nextRoute, .valid, true⟩

/-- An entry that goes by a broken route. -/
def GoesBy (n : RoutingProtocol) (dst d : Ipv4Address) : Prop :=
  ∃ rt ∈ n.routingTable.lookup d, n.nextHop d rt = dst
deriving Decidable

/-- An entry as it is advertised as broken. -/
def broken (rt : RoutingTableEntry) : RoutingTableEntry := { rt with seqNo := rt.seqNo + 1, entriesChanged := true }

/-- The tables after a route is broken. -/
structure Breaks (n n' : RoutingProtocol) (h : DsdvHeader) (adv : RoutingTableEntry) : Prop where
  fwd : ∀ d, n'.routingTable.lookup d = if d = h.dst ∨ n.GoesBy h.dst d then none else n.routingTable.lookup d
  /-- The advertised table, for the destination. -/
  adv : n'.advRoutingTable.lookup h.dst = some { adv with seqNo := h.dstSeqno, entriesChanged := true }
  /-- The advertised table, for those that go by it. -/
  advGoes : ∀ d rt, d ≠ h.dst → n.routingTable.lookup d = some rt → n.nextHop d rt = h.dst →
    n'.advRoutingTable.lookup d = some ((n.advRoutingTable.lookup d).getD (broken rt))
  /-- The advertised table, for others. -/
  advStays : ∀ d, d ≠ h.dst → ¬ n.GoesBy h.dst d → n'.advRoutingTable.lookup d = n.advRoutingTable.lookup d
  gateways : n'.gateways = n.gateways
  events : n'.events = n.events
  main : n'.main = n.main
  interfaces : n'.interfaces = n.interfaces

/-- What an update may do. -/
inductive Outcome (n : RoutingProtocol) (now : ℤ) (sender : Ipv4Address) (h : DsdvHeader) (n' : RoutingProtocol) :
    Prop where
  /-- It is about the node, or a broken route to which there is none. -/
  | ignored (hwhy : n.IsOwn h.dst ∨ Broken h.dstSeqno) (heq : n' = n)
  | new (hother : ¬ n.IsOwn h.dst) (hnone : n.routingTable.lookup h.dst = none) (hseq : ¬ Broken h.dstSeqno)
      (hchanges : Changes n n' h.dst (some (n.newEntry now h))
        (some ((n.advRoutingTable.lookup h.dst).getD (n.newEntry now h))))
      (hgateway : n'.gateways h.dst n.nextRoute = sender) (hevents : n'.events = n.events)
  /-- A changed metric is used in both tables. -/
  | settles (hother : ¬ n.IsOwn h.dst) (fwd adv : RoutingTableEntry) (hcompared : n.Compared h.dst fwd adv)
      (hseq : ¬ Broken h.dstSeqno) (htakes : Takes h adv)
      (hchanges : Changes n n' h.dst (some (taken now h adv)) (some (taken now h adv)))
      (hgateway : n'.gateways h.dst adv.ipv4Route = sender)
  /-- A newer number with the same metric is used in the advertised table. -/
  | advertises (hother : ¬ n.IsOwn h.dst) (fwd adv : RoutingTableEntry) (hcompared : n.Compared h.dst fwd adv)
      (hseq : ¬ Broken h.dstSeqno) (htakes : adv.seqNo < h.dstSeqno)
      (hchanges : Changes n n' h.dst (some fwd) (some (taken now h adv)))
      (hgateway : n'.gateways h.dst adv.ipv4Route = sender) (hevents : ¬ n'.AnyRunningEvent h.dst)
  | renews (hother : ¬ n.IsOwn h.dst) (fwd adv : RoutingTableEntry) (hcompared : n.Compared h.dst fwd adv)
      (hseq : ¬ Broken h.dstSeqno) (hsame : h.dstSeqno = adv.seqNo)
      (hchanges : Changes n n' h.dst (some { adv with lifeTime := now }) none)
      (hgateways : n'.gateways = n.gateways) (hevents : n'.events = n.events) (hrunning : ¬ n.AnyRunningEvent h.dst)
  | discards (hother : ¬ n.IsOwn h.dst) (fwd adv : RoutingTableEntry) (hcompared : n.Compared h.dst fwd adv)
      (hchanges : Changes n n' h.dst (some fwd) (if n.AnyRunningEvent h.dst then some adv else none))
      (hgateways : n'.gateways = n.gateways) (hevents : n'.events = n.events)
  | breaks (hother : ¬ n.IsOwn h.dst) (fwd adv : RoutingTableEntry) (hcompared : n.Compared h.dst fwd adv)
      (hseq : Broken h.dstSeqno) (hsender : sender = n.nextHop h.dst adv) (hbreaks : Breaks n n' h adv)

open RoutingTable

/-- What is advertised after a route is broken: the destination, an entry that goes by it, or what was before. -/
theorem Breaks.adv_cases {adv rt : RoutingTableEntry} {d : Ipv4Address} (hbreaks : Breaks n n' h adv)
    (hrt : n'.advRoutingTable.lookup d = some rt) :
    (d = h.dst ∧ rt = { adv with seqNo := h.dstSeqno, entriesChanged := true }) ∨
      (∃ old, n.routingTable.lookup d = some old ∧ n.nextHop d old = h.dst ∧ rt = broken old) ∨
      n.advRoutingTable.lookup d = some rt := by
  by_cases hd : d = h.dst
  · subst hd
    exact .inl ⟨rfl, Option.some.inj (hrt.symm.trans hbreaks.adv)⟩
  · by_cases hby : n.GoesBy h.dst d
    · obtain ⟨old, hold, hnext⟩ := hby
      have hnew := (hbreaks.advGoes d old hd hold hnext).symm.trans hrt
      cases hadv : n.advRoutingTable.lookup d with
      | some a =>
        rw [hadv] at hnew
        exact .inr (.inr hnew)
      | none =>
        rw [hadv] at hnew
        exact .inr (.inl ⟨old, hold, hnext, (Option.some.inj hnew).symm⟩)
    · exact .inr (.inr ((hbreaks.advStays d hd hby).symm.trans hrt))

theorem addNewRoute_changes (hnone : n.routingTable.lookup h.dst = none) :
    Changes n (n.addNewRoute now sender h) h.dst (some (n.newEntry now h))
      (some ((n.advRoutingTable.lookup h.dst).getD (n.newEntry now h))) where
  fwd d := by
    rw [addNewRoute, lookup_addRoute, hnone]
    rfl
  adv d := by
    rw [addNewRoute, lookup_addRoute]
    rfl
  gateways d hd := Function.update_of_ne hd _ _
  events d _ := rfl
  main := rfl
  interfaces := rfl

/-- The advertised table when there is an entry in it. -/
theorem withAdvertised_spec {fwd : RoutingTableEntry} (hfwd : n.routingTable.lookup dst = some fwd) :
    n.Compared dst fwd (n.withAdvertised dst fwd).1 ∧
      Changes n (n.withAdvertised dst fwd).2 dst (some fwd) (some (n.withAdvertised dst fwd).1) ∧
      (n.withAdvertised dst fwd).2.gateways = n.gateways ∧ (n.withAdvertised dst fwd).2.events = n.events := by
  rw [withAdvertised]
  cases hadv : n.advRoutingTable.lookup dst with
  | some adv =>
    refine ⟨⟨hfwd, .inl hadv⟩, ⟨fun d => ?_, fun d => ?_, fun _ _ => rfl, fun _ _ => rfl, rfl, rfl⟩, rfl, rfl⟩
    · split_ifs with hd
      · rw [hd, hfwd]
      · rfl
    · split_ifs with hd
      · rw [hd, hadv]
      · rfl
  | none =>
    refine ⟨⟨hfwd, .inr ⟨hadv, rfl⟩⟩, ⟨fun d => ?_, fun d => ?_, fun _ _ => rfl, fun _ _ => rfl, rfl, rfl⟩, rfl, rfl⟩
    · split_ifs with hd
      · rw [hd]
        exact hfwd
      · rfl
    · rw [lookup_addRoute, hadv]
      rfl

theorem Changes.trans {n₁ n₂ : RoutingProtocol} {f₁ a₁ f₂ a₂ : Option RoutingTableEntry} (h₁ : Changes n n₁ dst f₁ a₁)
    (h₂ : Changes n₁ n₂ dst f₂ a₂) : Changes n n₂ dst f₂ a₂ where
  fwd d := by
    rw [h₂.fwd, h₁.fwd]
    split_ifs <;> rfl
  adv d := by
    rw [h₂.adv, h₁.adv]
    split_ifs <;> rfl
  gateways d hd := (h₂.gateways d hd).trans (h₁.gateways d hd)
  events d hd := (h₂.events d hd).trans (h₁.events d hd)
  main := h₂.main.trans h₁.main
  interfaces := h₂.interfaces.trans h₁.interfaces

variable {fwd adv : RoutingTableEntry}

theorem useAndSettle_changes (hfwd : n.routingTable.lookup h.dst = some fwd)
    (hadv : n.advRoutingTable.lookup h.dst = some adv) :
    Changes n (n.useAndSettle now sender h adv) h.dst (some (taken now h adv)) (some (taken now h adv)) where
  fwd d := by
    simp only [useAndSettle, setEntry, lookup_update, hfwd]
    rfl
  adv d := by
    simp only [useAndSettle, setEntry, lookup_update, hadv]
    rfl
  gateways d hd := Function.update_of_ne hd _ _
  events d hd := Function.update_of_ne hd _ _
  main := rfl
  interfaces := rfl

theorem advertiseOnly_changes (hfwd : n.routingTable.lookup h.dst = some fwd)
    (hadv : n.advRoutingTable.lookup h.dst = some adv) :
    Changes n (n.advertiseOnly now sender h adv) h.dst (some fwd) (some (taken now h adv)) where
  fwd d := by
    simp only [advertiseOnly, setEntry]
    split_ifs with hd
    · rw [hd, hfwd]
    · rfl
  adv d := by
    simp only [advertiseOnly, setEntry, lookup_update, hadv]
    rfl
  gateways d hd := Function.update_of_ne hd _ _
  events d hd := Function.update_of_ne hd _ _
  main := rfl
  interfaces := rfl

theorem discard_changes (hfwd : n.routingTable.lookup dst = some fwd) (hadv : n.advRoutingTable.lookup dst = some adv) :
    Changes n (n.discard dst) dst (some fwd) (if n.AnyRunningEvent dst then some adv else none) where
  fwd d := by
    rw [discard]
    split_ifs with hrunning hd hd
    · rw [hd, hfwd]
    · rfl
    · rw [hd]
      exact hfwd
    · rfl
  adv d := by
    rw [discard]
    split_ifs with hrunning hd hd
    · rw [hd, hadv]
    · rfl
    · rw [lookup_deleteRoute, if_pos hd]
    · rw [lookup_deleteRoute, if_neg hd]
  gateways d _ := by
    rw [discard]
    split_ifs <;> rfl
  events d _ := by
    rw [discard]
    split_ifs <;> rfl
  main := by
    rw [discard]
    split_ifs <;> rfl
  interfaces := by
    rw [discard]
    split_ifs <;> rfl

theorem discard_gateways (n : RoutingProtocol) (dst : Ipv4Address) :
    (n.discard dst).gateways = n.gateways ∧ (n.discard dst).events = n.events := by
  rw [discard]
  split_ifs <;> exact ⟨rfl, rfl⟩

/-- The entries that go by a broken route are deleted one after the other. -/
theorem foldl_breakEntry (l : List (Ipv4Address × RoutingTableEntry)) (n : RoutingProtocol)
    (hl : (l.map Prod.fst).Nodup) :
    let n' := l.foldl breakEntry n
    (∀ d, n'.routingTable.lookup d = if d ∈ l.map Prod.fst then none else n.routingTable.lookup d) ∧
    (∀ x ∈ l, n'.advRoutingTable.lookup x.1 = some ((n.advRoutingTable.lookup x.1).getD (broken x.2))) ∧
    (∀ d, d ∉ l.map Prod.fst → n'.advRoutingTable.lookup d = n.advRoutingTable.lookup d) ∧
    n'.gateways = n.gateways ∧ n'.events = n.events ∧ n'.main = n.main ∧ n'.interfaces = n.interfaces := by
  induction l generalizing n with
  | nil => exact ⟨fun d => rfl, fun x hx => absurd hx List.not_mem_nil, fun d _ => rfl, rfl, rfl, rfl, rfl⟩
  | cons x l ih =>
    obtain ⟨hx, hl'⟩ := List.nodup_cons.mp hl
    obtain ⟨hfwd, hadv, hrest, hgateways, hevents, hmain, hinterfaces⟩ := ih (n.breakEntry x) hl'
    refine ⟨fun d => ?_, fun y hy => ?_, fun d hd => ?_, hgateways, hevents, hmain, hinterfaces⟩
    · rw [List.foldl_cons, hfwd, breakEntry, lookup_deleteRoute]
      simp only [List.map_cons, List.mem_cons]
      by_cases hd : d ∈ l.map Prod.fst
      · rw [if_pos hd, if_pos (.inr hd)]
      · rw [if_neg hd]
        by_cases hdx : d = x.1
        · rw [if_pos hdx, if_pos (.inl hdx)]
        · rw [if_neg hdx, if_neg (not_or.mpr ⟨hdx, hd⟩)]
    · rw [List.foldl_cons]
      rcases List.mem_cons.mp hy with rfl | hy
      · rw [hrest y.1 hx, breakEntry, lookup_addRoute, if_pos rfl]
        rfl
      · have hne : y.1 ≠ x.1 := by
          intro heq
          exact hx (heq ▸ List.mem_map_of_mem hy)
        rw [hadv y hy, breakEntry, lookup_addRoute, if_neg hne]
    · rw [List.map_cons, List.mem_cons, not_or] at hd
      rw [List.foldl_cons, hrest d hd.2, breakEntry, lookup_addRoute, if_neg hd.1]

/-- Breaking a route after the entry that is looked at is there. -/
theorem breakRoute_breaks {n₁ : RoutingProtocol} (hn₁ : Changes n n₁ h.dst (some fwd) (some adv))
    (hfwd : n.routingTable.lookup h.dst = some fwd) (hgateways : n₁.gateways = n.gateways)
    (hevents : n₁.events = n.events) : Breaks n (n₁.breakRoute h adv) h adv := by
  have hsame : ∀ d, n₁.routingTable.lookup d = n.routingTable.lookup d := by
    intro d
    rw [hn₁.fwd]
    split_ifs with hd
    · rw [hd, hfwd]
    · rfl
  have hmem : ∀ x, x ∈ n₁.routingTable.getListOfDestinationWithNextHop n₁.gateways h.dst ↔
      n.routingTable.lookup x.1 = some x.2 ∧ n.nextHop x.1 x.2 = h.dst := by
    intro x
    rw [getListOfDestinationWithNextHop, List.mem_filter, mem_list, hsame, decide_eq_true_iff, hgateways, nextHop]
  have hfst : ∀ d, d ∈ (n₁.routingTable.getListOfDestinationWithNextHop n₁.gateways h.dst).map Prod.fst ↔
      n.GoesBy h.dst d := by
    intro d
    rw [List.mem_map]
    constructor
    · rintro ⟨⟨d', rt⟩, hx, rfl⟩
      exact ⟨rt, ((hmem _).mp hx).1, ((hmem _).mp hx).2⟩
    · rintro ⟨rt, hrt, hnext⟩
      exact ⟨(d, rt), (hmem _).mpr ⟨hrt, hnext⟩, rfl⟩
  have hnodup : ((n₁.routingTable.getListOfDestinationWithNextHop n₁.gateways h.dst).map Prod.fst).Nodup :=
    (nodup_list _).sublist (List.filter_sublist.map Prod.fst)
  obtain ⟨hlookup, hgoes, hstays, hg, he, hm, hi⟩ := foldl_breakEntry _ { n₁ with
    routingTable := n₁.routingTable.deleteRoute h.dst
    advRoutingTable := n₁.advRoutingTable.update h.dst
      { adv with seqNo := h.dstSeqno, entriesChanged := true } } hnodup
  have hadv : ∀ d, (n₁.advRoutingTable.update h.dst { adv with seqNo := h.dstSeqno, entriesChanged := true }).lookup d =
      if d = h.dst then some { adv with seqNo := h.dstSeqno, entriesChanged := true }
      else n.advRoutingTable.lookup d := by
    intro d
    rw [lookup_update, hn₁.adv, if_pos rfl, Option.map_some]
    split_ifs with hd
    · rfl
    · rw [hn₁.adv, if_neg hd]
  rw [breakRoute]
  refine ⟨fun d => ?_, ?_, fun d rt hd hrt hnext => ?_, fun d hd hnot => ?_, hg.trans hgateways, he.trans hevents,
    hm.trans hn₁.main, hi.trans hn₁.interfaces⟩
  · rw [hlookup, lookup_deleteRoute, hsame]
    by_cases hd : d = h.dst
    · simp [hd]
    · by_cases hby : n.GoesBy h.dst d
      · rw [if_pos ((hfst d).mpr hby), if_pos (.inr hby)]
      · rw [if_neg (mt (hfst d).mp hby), if_neg hd, if_neg (not_or.mpr ⟨hd, hby⟩)]
  · by_cases hby : n.GoesBy h.dst h.dst
    · obtain ⟨rt, hrt, hnext⟩ := hby
      rw [hgoes (h.dst, rt) ((hmem _).mpr ⟨hrt, hnext⟩), hadv, if_pos rfl]
      rfl
    · rw [hstays _ (mt (hfst _).mp hby), hadv, if_pos rfl]
  · rw [hgoes (d, rt) ((hmem _).mpr ⟨hrt, hnext⟩), hadv, if_neg hd]
  · rw [hstays _ (mt (hfst _).mp hnot), hadv, if_neg hd]

/-- What an update does, where there is an entry. -/
theorem updateEntry_outcome {fwd : RoutingTableEntry} (hother : ¬ n.IsOwn h.dst)
    (hfwd : n.routingTable.lookup h.dst = some fwd) :
    Outcome n now sender h
      ((n.withAdvertised h.dst fwd).2.updateEntry now sender h (n.withAdvertised h.dst fwd).1) := by
  obtain ⟨hcompared, hn₁, hgateways, hevents⟩ := withAdvertised_spec hfwd
  generalize (n.withAdvertised h.dst fwd).1 = adv at hcompared hn₁ ⊢
  generalize (n.withAdvertised h.dst fwd).2 = n₁ at hn₁ hgateways hevents ⊢
  have hfwd₁ : n₁.routingTable.lookup h.dst = some fwd := by rw [hn₁.fwd, if_pos rfl]
  have hadv₁ : n₁.advRoutingTable.lookup h.dst = some adv := by rw [hn₁.adv, if_pos rfl]
  have hrunning : ∀ d, n₁.AnyRunningEvent d ↔ n.AnyRunningEvent d := by
    intro d
    rw [AnyRunningEvent, AnyRunningEvent, hevents]
  have hnext : n₁.nextHop h.dst adv = n.nextHop h.dst adv := by rw [nextHop, nextHop, hgateways]
  have hdiscard : Outcome n now sender h (n₁.discard h.dst) := by
    have hchanges := hn₁.trans (discard_changes hfwd₁ hadv₁)
    simp only [hrunning] at hchanges
    exact .discards hother fwd adv hcompared hchanges ((discard_gateways _ _).1.trans hgateways)
      ((discard_gateways _ _).2.trans hevents)
  have hsettle : ¬ Broken h.dstSeqno → Takes h adv → Outcome n now sender h (n₁.useAndSettle now sender h adv) := by
    intro hseq htakes
    refine .settles hother fwd adv hcompared hseq htakes (hn₁.trans (useAndSettle_changes hfwd₁ hadv₁)) ?_
    simp only [useAndSettle, setEntry, Function.update_self]
  rw [updateEntry]
  split_ifs with hseq hbreaks hnewer hhops hsame hless
  · rw [hnext] at hbreaks
    exact .breaks hother fwd adv hcompared hseq hbreaks (breakRoute_breaks hn₁ hfwd hgateways hevents)
  · exact hdiscard
  · exact hsettle hseq (.inl hnewer)
  · refine .advertises hother fwd adv hcompared hseq hnewer (hn₁.trans (advertiseOnly_changes hfwd₁ hadv₁)) ?_ ?_
    · simp only [advertiseOnly, setEntry, Function.update_self]
    · simp [AnyRunningEvent, advertiseOnly, setEntry]
  · exact hsettle hseq (.inr ⟨hsame, hless⟩)
  · -- the entry is renewed before it is discarded, if it is from its next hop
    rw [renew]
    split_ifs with hrenew
    · obtain ⟨hnot, -⟩ := hrenew
      have hupdate : Changes n₁ { n₁ with
          routingTable := n₁.routingTable.update h.dst { adv with lifeTime := now } } h.dst
          (some { adv with lifeTime := now }) (some adv) := by
        refine ⟨fun d => ?_, fun d => ?_, fun _ _ => rfl, fun _ _ => rfl, rfl, rfl⟩
        · rw [lookup_update, hfwd₁, Option.map_some]
        · split_ifs with hd
          · rw [hd, hadv₁]
          · rfl
      have hfwd₂ : (n₁.routingTable.update h.dst { adv with lifeTime := now }).lookup h.dst =
          some { adv with lifeTime := now } := by
        rw [lookup_update, if_pos rfl, hfwd₁, Option.map_some]
      have hchanges := hn₁.trans (hupdate.trans (discard_changes hfwd₂ hadv₁))
      rw [if_neg (show ¬ AnyRunningEvent { n₁ with
        routingTable := n₁.routingTable.update h.dst { adv with lifeTime := now } } h.dst from hnot)] at hchanges
      exact .renews hother fwd adv hcompared hseq hsame hchanges ((discard_gateways _ _).1.trans hgateways)
        ((discard_gateways _ _).2.trans hevents) (mt (hrunning _).mpr hnot)
    · exact hdiscard
  · exact hdiscard

/-- What an update does. -/
theorem recvHeader_outcome (n : RoutingProtocol) (now : ℤ) (sender : Ipv4Address) (h : DsdvHeader) :
    Outcome n now sender h (recvHeader now sender n h) := by
  rw [recvHeader]
  by_cases hown : n.IsOwn h.dst
  · rw [if_pos hown]
    exact .ignored (.inl hown) rfl
  · rw [if_neg hown]
    cases hfwd : n.routingTable.lookup h.dst with
    | none =>
      dsimp only
      by_cases hseq : Broken h.dstSeqno
      · rw [if_neg (not_not.mpr hseq)]
        exact .ignored (.inr hseq) rfl
      · rw [if_pos hseq]
        refine .new hown hfwd hseq (addNewRoute_changes hfwd) ?_ rfl
        simp only [addNewRoute, Function.update_self]
    | some fwd => exact updateEntry_outcome hown hfwd

theorem recvHeader_main (n : RoutingProtocol) (now : ℤ) (sender : Ipv4Address) (h : DsdvHeader) :
    (recvHeader now sender n h).main = n.main := by
  cases recvHeader_outcome n now sender h with
  | ignored hwhy heq => rw [heq]
  | new hother hnone hseq hchanges => exact hchanges.main
  | settles hother fwd adv hcompared hseq htakes hchanges => exact hchanges.main
  | advertises hother fwd adv hcompared hseq htakes hchanges => exact hchanges.main
  | renews hother fwd adv hcompared hseq hsame hchanges => exact hchanges.main
  | discards hother fwd adv hcompared hchanges => exact hchanges.main
  | breaks hother fwd adv hcompared hseq hsender hbreaks => exact hbreaks.main

theorem broken_iff {seqNo : UInt32} : Broken seqNo ↔ seqNo.toNat % 2 = 1 := by
  rw [Broken, ← UInt32.toNat_inj, UInt32.toNat_mod]
  rfl

/-- A number stays that of a route that is not broken when it is increased by two, and becomes one when by one. -/
theorem not_broken_add_two {seqNo : UInt32} (h : ¬ Broken seqNo) : ¬ Broken (seqNo + 2) := by
  rw [broken_iff] at h ⊢
  rw [UInt32.toNat_add, show (2 : UInt32).toNat = 2 from rfl]
  omega

theorem broken_add_one {seqNo : UInt32} (h : ¬ Broken seqNo) : Broken (seqNo + 1) := by
  rw [broken_iff] at h ⊢
  rw [UInt32.toNat_add, UInt32.toNat_one]
  omega

/-- An entry of the advertised table is merged, if it is advertised. -/
structure Merged (n n' : RoutingProtocol) (x : Ipv4Address × RoutingTableEntry) : Prop where
  fwd : ∀ d, n'.routingTable.lookup d =
    if d = x.1 ∧ n.Advertises x ∧ ¬ Broken x.2.seqNo then
      (n.routingTable.lookup d).map fun _ => { x.2 with flag := .valid, entriesChanged := false }
    else n.routingTable.lookup d
  adv : ∀ d, n'.advRoutingTable.lookup d =
    if d = x.1 ∧ n.Advertises x then none else n.advRoutingTable.lookup d
  running : ∀ d, n'.AnyRunningEvent d ↔ n.AnyRunningEvent d
  gateways : n'.gateways = n.gateways
  main : n'.main = n.main
  interfaces : n'.interfaces = n.interfaces

theorem mergeEntry_merged (n : RoutingProtocol) (x : Ipv4Address × RoutingTableEntry) :
    Merged n (n.mergeEntry x) x := by
  rw [mergeEntry]
  by_cases hadvertises : n.Advertises x
  · rw [if_pos hadvertises]
    refine ⟨fun d => ?_, fun d => ?_, fun _ => Iff.rfl, rfl, rfl, rfl⟩
    · dsimp only
      by_cases hseq : Broken x.2.seqNo
      · simp [hseq]
      · rw [if_pos hseq, lookup_update]
        by_cases hd : d = x.1
        · subst hd
          simp [hadvertises, hseq]
        · simp [hd]
    · rw [lookup_deleteRoute]
      simp [hadvertises]
  · rw [if_neg hadvertises]
    exact ⟨fun d => by simp [hadvertises], fun d => by simp [hadvertises], fun _ => Iff.rfl, rfl, rfl, rfl⟩

theorem anyRunningEvent_deleteIpv4Event (n : RoutingProtocol) (dst d : Ipv4Address) :
    (n.deleteIpv4Event dst).AnyRunningEvent d ↔ n.AnyRunningEvent d := by
  rw [deleteIpv4Event]
  split_ifs with hrunning
  · rfl
  · by_cases hd : d = dst
    · subst hd
      exact iff_of_false (by simp [AnyRunningEvent]) hrunning
    · simp [AnyRunningEvent, hd]

theorem advertise_merged (n : RoutingProtocol) (x : Ipv4Address × RoutingTableEntry) : Merged n (n.advertise x) x := by
  rw [advertise]
  split_ifs with hadvertises
  · have hmerged := (n.deleteIpv4Event x.1).mergeEntry_merged x
    have hsame : n.deleteIpv4Event x.1 = { n with events := (n.deleteIpv4Event x.1).events } := by
      rw [deleteIpv4Event]
      split_ifs <;> rfl
    have hadvertises' : (n.deleteIpv4Event x.1).Advertises x ↔ n.Advertises x := by
      rw [Advertises, Advertises, anyRunningEvent_deleteIpv4Event]
    refine ⟨fun d => ?_, fun d => ?_, fun d => ?_, hmerged.gateways.trans (by rw [hsame]),
      hmerged.main.trans (by rw [hsame]), hmerged.interfaces.trans (by rw [hsame])⟩
    · simp only [hmerged.fwd, hadvertises']
      rw [hsame]
    · simp only [hmerged.adv, hadvertises']
      rw [hsame]
    · rw [hmerged.running, anyRunningEvent_deleteIpv4Event]
  · exact ⟨fun d => by simp [hadvertises], fun d => by simp [hadvertises], fun _ => Iff.rfl, rfl, rfl, rfl⟩

/-- Entries for different destinations are merged one after the other. -/
theorem foldl_merged {f : RoutingProtocol → Ipv4Address × RoutingTableEntry → RoutingProtocol}
    (hf : ∀ n x, Merged n (f n x) x) (l : List (Ipv4Address × RoutingTableEntry)) (n : RoutingProtocol)
    (hl : (l.map Prod.fst).Nodup) :
    let n' := l.foldl f n
    (∀ d, (∀ x ∈ l, x.1 = d → ¬ n.Advertises x) →
      n'.routingTable.lookup d = n.routingTable.lookup d ∧ n'.advRoutingTable.lookup d = n.advRoutingTable.lookup d) ∧
    (∀ x ∈ l, n.Advertises x → n'.advRoutingTable.lookup x.1 = none ∧ n'.routingTable.lookup x.1 =
      if Broken x.2.seqNo then n.routingTable.lookup x.1
      else (n.routingTable.lookup x.1).map fun _ => { x.2 with flag := .valid, entriesChanged := false }) ∧
    n'.gateways = n.gateways ∧ n'.main = n.main ∧ n'.interfaces = n.interfaces := by
  induction l generalizing n with
  | nil => exact ⟨fun _ _ => ⟨rfl, rfl⟩, fun x hx => absurd hx List.not_mem_nil, rfl, rfl, rfl⟩
  | cons x l ih =>
    obtain ⟨hx, hl'⟩ := List.nodup_cons.mp hl
    obtain ⟨hstays, hmerges, hgateways, hmain, hinterfaces⟩ := ih (f n x) hl'
    have hfirst := hf n x
    have hadvertises : ∀ y, (f n x).Advertises y ↔ n.Advertises y := fun y => by
      rw [Advertises, Advertises, hfirst.running]
    refine ⟨fun d hd => ?_, fun y hy hadv => ?_, hgateways.trans hfirst.gateways, hmain.trans hfirst.main,
      hinterfaces.trans hfirst.interfaces⟩
    · have hnot : ¬ (d = x.1 ∧ n.Advertises x) := fun ⟨heq, hadv⟩ => hd x List.mem_cons_self heq.symm hadv
      obtain ⟨hfwd, hadv⟩ := hstays d fun y hy heq => (hadvertises y).not.mpr (hd y (List.mem_cons_of_mem x hy) heq)
      rw [List.foldl_cons, hfwd, hadv, hfirst.fwd, hfirst.adv, if_neg hnot, if_neg fun h => hnot ⟨h.1, h.2.1⟩]
      exact ⟨rfl, rfl⟩
    · rw [List.foldl_cons]
      rcases List.mem_cons.mp hy with rfl | hy
      · obtain ⟨hfwd, hadv'⟩ := hstays y.1 fun z hz heq => absurd (heq ▸ List.mem_map_of_mem hz) hx
        rw [hfwd, hadv', hfirst.fwd, hfirst.adv, if_pos ⟨rfl, hadv⟩]
        by_cases hseq : Broken y.2.seqNo
        · simp [hseq]
        · simp [hseq, hadv]
      · have hne : y.1 ≠ x.1 := fun heq => hx (heq ▸ List.mem_map_of_mem hy)
        obtain ⟨hnone, hfwd⟩ := hmerges y hy ((hadvertises y).mpr hadv)
        have hsame : (f n x).routingTable.lookup y.1 = n.routingTable.lookup y.1 := by
          rw [hfirst.fwd, if_neg fun h => hne h.1]
        rw [hnone, hfwd, hsame]
        exact ⟨rfl, rfl⟩

/-- Where the entry of the node itself is there, its number is set and nothing else. -/
theorem lookup_setOwnSeqNo (now : ℤ) (x : Ipv4Address × RoutingTableEntry) {ownEntry : RoutingTableEntry}
    (hown : n.routingTable.lookup n.main.broadcast = some ownEntry) :
    ∃ seqNo, (seqNo = ownEntry.seqNo ∨ seqNo = x.2.seqNo + 2) ∧
      (∀ d, (setOwnSeqNo now n x).routingTable.lookup d =
        if d = n.main.broadcast then some { ownEntry with seqNo } else n.routingTable.lookup d) ∧
      setOwnSeqNo now n x = { n with routingTable := (setOwnSeqNo now n x).routingTable } := by
  rw [setOwnSeqNo]
  by_cases hhops : x.2.hops = 0
  · rw [if_pos hhops, hown]
    refine ⟨x.2.seqNo + 2, .inr rfl, fun d => ?_, rfl⟩
    rw [lookup_update, hown, Option.map_some]
  · rw [if_neg hhops]
    refine ⟨ownEntry.seqNo, .inl rfl, fun d => ?_, rfl⟩
    split_ifs with hd
    · rw [hd, hown]
    · rfl

/-- What setting the node's own number keeps, setting it for a list of entries on each interface keeps. -/
theorem foldl_setOwnSeqNo {p : RoutingProtocol → Prop} {l : List (Ipv4Address × RoutingTableEntry)}
    (hstep : ∀ n x, x ∈ l → p n → p (setOwnSeqNo now n x)) (ifaces : List Interface) (hn : p n) :
    p (ifaces.foldl (fun n _ => l.foldl (setOwnSeqNo now) n) n) := by
  have hentries : ∀ {n : RoutingProtocol}, p n → p (l.foldl (setOwnSeqNo now) n) := by
    intro n hn
    induction l generalizing n with
    | nil => exact hn
    | cons x l ih =>
      exact ih (fun n y hy => hstep n y (List.mem_cons_of_mem x hy)) (hstep n x List.mem_cons_self hn)
  induction ifaces generalizing n with
  | nil => exact hn
  | cons iface ifaces ih => exact ih (hentries hn)

/-- Adding entries to a table one after the other. -/
theorem lookup_foldl_addRoute (f : RoutingTableEntry → RoutingTableEntry) (l : List (Ipv4Address × RoutingTableEntry))
    (t : RoutingTable) (d : Ipv4Address) :
    (∀ rt, (l.foldl (fun t x => t.addRoute x.1 (f x.2)) t).lookup d = some rt →
      t.lookup d = some rt ∨ ∃ x ∈ l, x.1 = d ∧ rt = f x.2) ∧
    ((t.lookup d).isSome → (l.foldl (fun t x => t.addRoute x.1 (f x.2)) t).lookup d = t.lookup d) := by
  induction l generalizing t with
  | nil => exact ⟨fun rt hrt => .inl hrt, fun _ => rfl⟩
  | cons x l ih =>
    obtain ⟨hnew, hold⟩ := ih (t.addRoute x.1 (f x.2))
    have hadd : (t.addRoute x.1 (f x.2)).lookup d =
        if d = x.1 then some ((t.lookup x.1).getD (f x.2)) else t.lookup d :=
      RoutingTable.lookup_addRoute
    refine ⟨fun rt hrt => ?_, fun hsome => ?_⟩
    · rcases hnew rt hrt with hfirst | ⟨y, hy, heq⟩
      · rw [hadd] at hfirst
        split_ifs at hfirst with hd
        · subst hd
          cases ht : t.lookup x.1 with
          | some old =>
            rw [ht] at hfirst
            exact .inl hfirst
          | none =>
            rw [ht] at hfirst
            cases hfirst
            exact .inr ⟨x, List.mem_cons_self, rfl, rfl⟩
        · exact .inl hfirst
      · exact .inr ⟨y, List.mem_cons_of_mem x hy, heq⟩
    · have hsame : (t.addRoute x.1 (f x.2)).lookup d = t.lookup d := by
        rw [hadd]
        split_ifs with hd
        · subst hd
          obtain ⟨old, hold⟩ := Option.isSome_iff_exists.mp hsome
          rw [hold]
          rfl
        · rfl
      rw [List.foldl_cons, hold (by rwa [hsame]), hsame]

/-- The entry of the node itself has no hops, and goes by itself: it is not removed. -/
theorem lookup_purge_own {ownEntry : RoutingTableEntry} {holddownTime : ℕ}
    (hown : n.routingTable.lookup n.main.broadcast = some ownEntry) (hops : ownEntry.hops = 0)
    (hself : n.nextHop n.main.broadcast ownEntry = n.main.broadcast) :
    (n.routingTable.purge n.gateways now holddownTime).1.lookup n.main.broadcast = some ownEntry := by
  cases hleft : (n.routingTable.purge n.gateways now holddownTime).1.lookup n.main.broadcast with
  | some rt => exact (lookup_purge hleft).symm.trans hown
  | none =>
    rcases mayGo_of_purge hown hleft with ⟨-, hpos⟩ | ⟨next, hnext, ⟨-, hpos⟩, -⟩
    · rw [hops] at hpos
      exact absurd hpos (lt_irrefl 0)
    · rw [show n.gateways n.main.broadcast ownEntry.ipv4Route = n.main.broadcast from hself] at hnext
      obtain rfl := Option.some.inj (hown.symm.trans hnext)
      rw [hops] at hpos
      exact absurd hpos (lt_irrefl 0)

end RoutingProtocol

end Ns3.Dsdv
