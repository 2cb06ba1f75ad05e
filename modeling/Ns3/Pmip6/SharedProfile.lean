import Ns3.Pmip6.LmaPrefixes
import Ns3.Pmip6.MagSteps

/-!
# The profile an anchor and its gateways share

`Pmip6ProfileHelper::AddProfile` (`pmip6/helper/pmip6-helper.cc`) makes two entries for a mobile node, one
under its identifier and one under that of its link, with the same content. The anchor looks a mobile node
up by its identifier and keeps the prefix it takes from the pool there; a gateway looks it up by the
address that attaches, which is the identifier of the link.

`Domain.machine` is an anchor with its gateways: the profiles are one object, mobile nodes are added to it at
any time, and messages of any content arrive anywhere in any order.

## What is proved

* `Paired` — the invariant: an entry is what both of its identifiers find.
* `Paired.not_agree` — a prefix that is kept under one of the identifiers parts them.
* `aliases_agree_iff` — in a run of a domain whose profiles all come from `AddProfile`, the two entries agree
  in every state, and a gateway announces what the anchor has allocated, exactly if the anchor never takes a
  prefix from its pool. `aliases_part` is the run of one attachment in which it does.
-/

namespace Ns3.Pmip6

open BindingUpdateList (RefreshDelay)
open Lib

namespace Pmipv6Profile

/-! ### Adding mobile nodes -/

/-- A profile without entries. -/
def empty : Pmipv6Profile := ⟨fun _ => none⟩

/-- `Add`, and what the setters write to the new entry; `none` where its assertion fails. -/
def add (pf : Pmipv6Profile) (id : Identifier) (e : Entry) : Option Pmipv6Profile :=
  if pf.lookup id = none then some ⟨fun id' => if id' = id then some e else pf.profileList id'⟩ else none

/-- A mobile node under both its identifiers. -/
def addProfile (pf : Pmipv6Profile) (mnId mnLinkId : Identifier) (lmaa : Ipv6Address)
    (hnps : List Ipv6Address) : Option Pmipv6Profile := do
  let pf ← pf.add mnId ⟨mnId, mnLinkId, lmaa, hnps⟩
  pf.add mnLinkId ⟨mnId, mnLinkId, lmaa, hnps⟩

/-- The entry found under the identifier of a mobile node and that found under the identifier of its link
have the same anchor and the same prefixes. -/
def Agree (pf : Pmipv6Profile) : Prop :=
  ∀ id e, pf.lookup id = some e → ∃ e₁ e₂, pf.lookup e.mnIdentifier = some e₁ ∧
    pf.lookup e.mnLinkIdentifier = some e₂ ∧ e₁.lmaAddress = e₂.lmaAddress ∧
    e₁.homeNetworkPrefixes = e₂.homeNetworkPrefixes

/-- Every entry is the one that its two identifiers find, and no others do. -/
def Paired (pf : Pmipv6Profile) : Prop :=
  ∀ id e, pf.lookup id = some e → e.mnIdentifier ≠ e.mnLinkIdentifier ∧
    (id = e.mnIdentifier ∨ id = e.mnLinkIdentifier) ∧
    pf.lookup e.mnIdentifier = some e ∧ pf.lookup e.mnLinkIdentifier = some e

variable {pf pf' : Pmipv6Profile} {id mnId mnLinkId : Identifier} {e : Entry} {lmaa : Ipv6Address}
  {hnps : List Ipv6Address}

theorem Paired.aliasesAgree (h : pf.Paired) : pf.Agree := by
  intro id e he
  obtain ⟨-, -, hmn, hlink⟩ := h id e he
  exact ⟨e, e, hmn, hlink, rfl, rfl⟩

theorem paired_empty : empty.Paired := by
  intro id e he
  cases he

theorem add_eq_some (h : pf.add id e = some pf') :
    pf.lookup id = none ∧ ∀ id', pf'.lookup id' = if id' = id then some e else pf.lookup id' := by
  unfold add at h
  split at h
  · rename_i hnone
    cases h
    exact ⟨hnone, fun _ => rfl⟩
  · cases h

/-- What `AddProfile` leaves: both identifiers are new, and differ. -/
theorem addProfile_eq_some (h : pf.addProfile mnId mnLinkId lmaa hnps = some pf') :
    pf.lookup mnId = none ∧ pf.lookup mnLinkId = none ∧ mnId ≠ mnLinkId ∧
      ∀ id, pf'.lookup id =
        if id = mnId ∨ id = mnLinkId then some ⟨mnId, mnLinkId, lmaa, hnps⟩ else pf.lookup id := by
  obtain ⟨pf₁, h₁, h₂⟩ := Option.bind_eq_some_iff.mp h
  obtain ⟨hmn, hlook₁⟩ := add_eq_some h₁
  obtain ⟨hlink, hlook₂⟩ := add_eq_some h₂
  have hne : mnId ≠ mnLinkId := by
    rintro rfl
    rw [hlook₁, if_pos rfl] at hlink
    cases hlink
  rw [hlook₁, if_neg hne.symm] at hlink
  refine ⟨hmn, hlink, hne, fun id => ?_⟩
  rw [hlook₂, hlook₁]
  by_cases hid : id = mnLinkId
  · rw [if_pos hid, if_pos (.inr hid)]
  · rw [if_neg hid]
    by_cases hid' : id = mnId
    · rw [if_pos hid', if_pos (.inl hid')]
    · rw [if_neg hid', if_neg (not_or.mpr ⟨hid', hid⟩)]

theorem Paired.addProfile (h : pf.Paired) (hadd : pf.addProfile mnId mnLinkId lmaa hnps = some pf') :
    pf'.Paired := by
  obtain ⟨hmn, hlink, hne, hlook⟩ := addProfile_eq_some hadd
  intro id e he
  rw [hlook] at he
  by_cases hid : id = mnId ∨ id = mnLinkId
  · rw [if_pos hid] at he
    cases he
    refine ⟨hne, hid, ?_, ?_⟩
    · rw [hlook, if_pos (.inl rfl)]
    · rw [hlook, if_pos (.inr rfl)]
  · rw [if_neg hid] at he
    obtain ⟨hdiff, hown, hmn', hlink'⟩ := h id e he
    -- an entry that was there has none of the new identifiers
    have hold : ∀ id', pf.lookup id' = some e → pf'.lookup id' = some e := by
      intro id' hid'
      rw [hlook, if_neg]
      · exact hid'
      · rintro (rfl | rfl)
        · rw [hmn] at hid'
          cases hid'
        · rw [hlink] at hid'
          cases hid'
    exact ⟨hdiff, hown, hold _ hmn', hold _ hlink'⟩

/-- Prefixes that are kept under one identifier part it from the other. -/
theorem Paired.not_agree (h : pf.Paired) (he : pf.lookup id = some e) (hne : hnps ≠ e.homeNetworkPrefixes) :
    ¬ (pf.setHomeNetworkPrefixes id hnps).Agree := by
  obtain ⟨hdiff, hown, hmn, hlink⟩ := h id e he
  have hset : (pf.setHomeNetworkPrefixes id hnps).lookup id = some { e with homeNetworkPrefixes := hnps } := by
    rw [lookup] at he
    simp [lookup, setHomeNetworkPrefixes, he]
  have hkeep : ∀ id', id' ≠ id → (pf.setHomeNetworkPrefixes id hnps).lookup id' = pf.lookup id' := by
    intro id' hid'
    simp [lookup, setHomeNetworkPrefixes, hid']
  intro hagree
  obtain ⟨e₁, e₂, h₁, h₂, -, hsame⟩ := hagree id _ hset
  rcases hown with rfl | rfl
  · obtain rfl := Option.some.inj (hset.symm.trans h₁)
    have h₂' := (hkeep _ hdiff.symm).symm.trans h₂
    obtain rfl := Option.some.inj (hlink.symm.trans h₂')
    exact hne hsame
  · obtain rfl := Option.some.inj (hset.symm.trans h₂)
    have h₁' := (hkeep _ hdiff).symm.trans h₁
    obtain rfl := Option.some.inj (hmn.symm.trans h₁')
    exact hne hsame.symm

end Pmipv6Profile

/-! ### An anchor with its gateways -/

/-- An anchor and its gateways at a time. The field for the profile that each of them has is not used. -/
structure Domain where
  /-- `Simulator::Now ()`. -/
  now : ℤ
  /-- The profiles, one object for all. -/
  profile : Pmipv6Profile
  lma : Lma
  mags : List Mag

namespace Domain

/-- The anchor with the profiles. -/
def anchor (s : Domain) : Lma.Timed := ⟨s.now, { s.lma with profile := s.profile }⟩

/-- A gateway with the profiles. -/
def gateway (s : Domain) (mag : Mag) : Mag.Timed := ⟨s.now, { mag with profile := s.profile }⟩

/-- What happens in a domain. -/
inductive Event where
  /-- Time goes on to `t`. -/
  | advance (t : ℤ)
  /-- `AddProfile` is called. -/
  | addProfile (mnId mnLinkId : Identifier) (lmaa : Ipv6Address) (hnps : List Ipv6Address)
  /-- Something happens at the anchor. -/
  | lma (e : Lma.Event)
  /-- Something happens at a gateway. -/
  | mag (i : ℕ) (e : Mag.Event)

/-- What can happen: time is the same everywhere, and the profiles are changed by `AddProfile` and the anchor. -/
def Enabled (s : Domain) : Event → Prop
  | .advance t => Lma.Enabled s.anchor (.advance t) ∧ ∀ mag ∈ s.mags, Mag.Enabled (s.gateway mag) (.advance t)
  | .addProfile _ _ _ _ => True
  | .lma (.advance _) => False
  | .lma e => Lma.Enabled s.anchor e
  | .mag _ (.advance _) | .mag _ (.setProfile _) => False
  | .mag i e => ∀ mag ∈ s.mags[i]?, Mag.Enabled (s.gateway mag) e

instance (s : Domain) (e : Event) : Decidable (Enabled s e) := by
  unfold Enabled
  split <;> infer_instance

/-- The handlers. -/
def exec (refresh : RefreshDelay) (s : Domain) : Event → Option Domain
  | .advance t => some { s with now := t }
  | .addProfile mnId mnLinkId lmaa hnps =>
    (s.profile.addProfile mnId mnLinkId lmaa hnps).map fun pf => { s with profile := pf }
  | .lma e => (Lma.exec s.anchor e).map fun a => { s with lma := a.lma, profile := a.lma.profile }
  | .mag i e => do
    let mag ← s.mags[i]?
    let g ← Mag.exec refresh (s.gateway mag) e
    return { s with mags := s.mags.set i g.mag }

/-- The domain, driven by its events. -/
def machine (refresh : RefreshDelay) : Machine Domain Event := ⟨Enabled, exec refresh⟩

instance (refresh : RefreshDelay) (s : Domain) (e : Event) : Decidable ((machine refresh).enabled s e) :=
  inferInstanceAs (Decidable (Enabled s e))

/-! ### The property -/

/-- What the anchor has allocated to a mobile node. -/
def allocated (s : Domain) (mnId : Identifier) : List Ipv6Address := s.profile.homeNetworkPrefixes mnId

/-- The update that any gateway sends when a mobile node attaches has the prefixes that are allocated to the
mobile node, if there are any. -/
def Announces (s : Domain) : Prop :=
  ∀ mag ∈ s.mags, ∀ sender att link mag' message pf,
    Mag.handleNewNode s.now sender att link (s.gateway mag).mag = (mag', some message) →
    s.profile.lookup (.ofMac48Address sender) = some pf → s.allocated pf.mnIdentifier ≠ [] →
      message.pbu.bundle.homeNetworkPrefixes = s.allocated pf.mnIdentifier

/-- The anchor takes no prefix from the pool: when it creates an entry, the profile has prefixes for it. -/
def NoAllocation (s : Domain) : Event → Prop
  | .lma (.pbu src message) => Lma.path s.now src message s.anchor.lma = .create →
      s.profile.homeNetworkPrefixes message.bundle.mnIdentifier ≠ []
  | _ => True

instance (s : Domain) (e : Event) : Decidable (NoAllocation s e) := by
  unfold NoAllocation
  split <;> infer_instance

variable {refresh : RefreshDelay} {s s' : Domain} {e : Event}

/-- The prefixes the receiver of an update collects, when its entry has any. -/
theorem homeNetworkPrefixes_buildPbu {bule : BindingUpdateList.Entry} (h : bule.homeNetworkPrefixes ≠ []) :
    (Mag.buildPbu bule).bundle.homeNetworkPrefixes = bule.homeNetworkPrefixes := by
  have hlla : ∀ bundle : Ipv6MobilityOptionBundle,
      ((if bule.magLinkAddress.isAny then [] else [MobilityOption.linkLocalAddress bule.magLinkAddress]).foldl
        MobilityOption.process bundle).homeNetworkPrefixes = bundle.homeNetworkPrefixes := by
    intro bundle
    split <;> rfl
  rw [Ipv6MobilityBindingUpdateHeader.bundle, Mag.buildPbu, processOptions_append, processOptions_append,
    processOptions_append, processOptions_append, if_pos (List.length_pos_iff.mpr h)]
  show ((if _ then _ else _ : List MobilityOption).foldl MobilityOption.process _).homeNetworkPrefixes = _
  rw [hlla, foldl_process_homeNetworkPrefix]
  exact List.nil_append _

/-- A gateway announces what both identifiers find. -/
theorem announces_of_paired (h : s.profile.Paired) : s.Announces := by
  intro mag _ sender att link mag' message pf hnew hpf hne
  obtain ⟨-, -, hmn, -⟩ := h _ _ hpf
  have halloc : s.allocated pf.mnIdentifier = pf.homeNetworkPrefixes := by
    rw [allocated, Pmipv6Profile.homeNetworkPrefixes, hmn]
    rfl
  rw [halloc] at hne ⊢
  have hpf' : (s.gateway mag).mag.profile.lookup (.ofMac48Address sender) = some pf := hpf
  unfold Mag.handleNewNode at hnew
  rw [hpf'] at hnew
  dsimp only at hnew
  cases hlink : link.ifIndex with
  | none =>
    rw [hlink] at hnew
    cases hnew
  | some ifIndex =>
    rw [hlink] at hnew
    obtain rfl := Option.some.inj (Prod.mk.inj hnew).2
    rw [Mag.update_eq, Mag.attach_eq]
    have hown : Mag.attachedPrefixes pf ((s.gateway mag).mag.entryFor pf) = pf.homeNetworkPrefixes :=
      if_pos (List.length_pos_iff.mpr hne)
    exact (homeNetworkPrefixes_buildPbu (hown.symm ▸ hne)).trans hown

/-- What a step of the anchor does to the profiles. -/
theorem profile_of_lma {a : Lma.Timed} {ev : Lma.Event} (hen : Lma.Enabled s.anchor ev)
    (hex : Lma.exec s.anchor ev = some a) :
    a.lma.profile = s.profile ∧ NoAllocation s (.lma ev) ∨
      ∃ src pbu, ev = .pbu src pbu ∧ Lma.path s.now src pbu s.anchor.lma = .create ∧
        s.profile.homeNetworkPrefixes pbu.bundle.mnIdentifier = [] ∧
        a.lma.profile = s.profile.setHomeNetworkPrefixes pbu.bundle.mnIdentifier
          [(s.lma.prefixPool.assign).2] := by
  have hc : Lma.Change s.anchor.now s.anchor.lma ev a.lma := Lma.change_of_step ⟨hen, hex⟩
  by_cases hno : NoAllocation s (.lma ev)
  · left
    refine ⟨?_, hno⟩
    rcases Lma.owners_of_change hc with ⟨-, hpf, -⟩ | ⟨src, pbu, rfl, hpath, ha⟩
    · exact hpf
    · rw [ha]
      show (Lma.allocatePrefixes s.profile _ _).1 = _
      rw [Lma.allocatePrefixes, if_pos (List.length_pos_iff.mpr (hno hpath))]
  · right
    cases ev with
    | pbu src pbu =>
      obtain ⟨hpath, hnil⟩ := Classical.not_imp.mp hno
      have hnil := Classical.not_not.mp hnil
      obtain ⟨r, hr, rfl⟩ := Option.map_eq_some_iff.mp hex
      have hpath' : Lma.path s.anchor.now src pbu s.anchor.lma = .create := hpath
      rw [Lma.handlePbu_eq, hpath'] at hr
      cases hr
      refine ⟨src, pbu, rfl, hpath, hnil, ?_⟩
      show (Lma.allocatePrefixes s.profile s.lma.prefixPool pbu.bundle.mnIdentifier).1 = _
      rw [Lma.allocatePrefixes, hnil]
      rfl
    | advance _ | registerTimeout _ | reachableTimeout _ | deregisterTimeout _ => exact absurd trivial hno

/-- A step keeps the entries paired, unless the anchor takes a prefix from the pool: then two of them part. -/
theorem paired_of_step (h : s.profile.Paired) (hs : (machine refresh).Step s e s') :
    (s'.profile.Agree ↔ NoAllocation s e) ∧ (NoAllocation s e → s'.profile.Paired) := by
  have hkeep : NoAllocation s e → s'.profile.Paired →
      (s'.profile.Agree ↔ NoAllocation s e) ∧ (NoAllocation s e → s'.profile.Paired) :=
    fun hno hp => ⟨iff_of_true hp.aliasesAgree hno, fun _ => hp⟩
  obtain ⟨hen, hex⟩ := hs
  cases e with
  | advance t =>
    cases hex
    exact hkeep trivial h
  | addProfile mnId mnLinkId lmaa hnps =>
    obtain ⟨pf, hadd, rfl⟩ := Option.map_eq_some_iff.mp hex
    exact hkeep trivial (h.addProfile hadd)
  | mag i ev =>
    obtain ⟨mag, -, hex⟩ := Option.bind_eq_some_iff.mp hex
    obtain ⟨g, -, hex⟩ := Option.bind_eq_some_iff.mp hex
    cases hex
    exact hkeep trivial h
  | lma ev =>
    obtain ⟨a, hev, rfl⟩ := Option.map_eq_some_iff.mp hex
    have henabled : Lma.Enabled s.anchor ev := by
      cases ev with
      | advance t => exact absurd hen id
      | _ => exact hen
    rcases profile_of_lma henabled hev with ⟨hpf, hno⟩ | ⟨src, pbu, rfl, hpath, hnil, hpf⟩
    · refine hkeep hno ?_
      show a.lma.profile.Paired
      rw [hpf]
      exact h
    · have hno : ¬ NoAllocation s (.lma (.pbu src pbu)) := fun hno => hno hpath hnil
      refine ⟨iff_of_false ?_ hno, fun hyes => absurd hyes hno⟩
      obtain ⟨entry, hentry⟩ := Lma.exists_lookup_of_create hpath
      show ¬ a.lma.profile.Agree
      rw [hpf]
      refine h.not_agree hentry fun heq => ?_
      -- the profile had no prefix
      have hentry' : s.profile.lookup pbu.bundle.mnIdentifier = some entry := hentry
      rw [Pmipv6Profile.homeNetworkPrefixes, hentry', Option.map_some, Option.getD_some, ← heq] at hnil
      cases hnil

/-- In a run of a domain whose profiles are all set up with `AddProfile`, the entries found under the two
identifiers of a mobile node agree in every state, and every gateway announces the prefixes that the anchor
has allocated, if and only if the anchor never takes a prefix from its pool. -/
theorem aliases_agree_iff {s₀ : Domain} {tr : List (Domain × Event)} (h₀ : s₀.profile = .empty)
    (hrun : (machine refresh).Run s₀ tr s) :
    Machine.EveryState (fun s => s.profile.Agree ∧ s.Announces) tr s ↔ Machine.Meets NoAllocation tr := by
  refine (hrun.everyState_iff_of_invariant (J := fun s => s.profile.Paired) ?_
    (fun s h => ⟨h.aliasesAgree, announces_of_paired h⟩) fun s e s' h hs => ?_).1
  · show s₀.profile.Paired
    rw [h₀]
    exact Pmipv6Profile.paired_empty
  · obtain ⟨hiff, hpaired⟩ := paired_of_step h hs
    exact ⟨⟨fun hprop => hiff.mp hprop.1, fun hno => ⟨hiff.mpr hno, announces_of_paired (hpaired hno)⟩⟩, hpaired⟩

/-! ### Runs of a small domain -/

/-- An anchor and a gateway ten seconds into the simulation, without profiles. -/
def small : Domain :=
  { now := Time.seconds 10
    profile := .empty
    lma := Lma.Small.anchor.lma
    mags := [Mag.Small.gateway.mag] }

/-- A mobile node is added with its prefixes, it attaches, and the update arrives at the anchor. -/
def attachEvents (hnps : List Ipv6Address) : List Event :=
  [.addProfile Mag.Small.mn (.ofMac48Address Mag.Small.mnAddress) Mag.Small.lma hnps,
    .mag 0 (Mag.Small.attachTo 1),
    .lma (.pbu Lma.Small.magA (Mag.attachPbu (Time.seconds 10) 1 1
      (Mag.attach ⟨Mag.Small.mn, .ofMac48Address Mag.Small.mnAddress, Mag.Small.lma, hnps⟩ 4
        ⟨.linkLocal, some 1⟩ { mnIdentifier := Mag.Small.mn })))]

theorem aliases_agree_with_prefix :
    ∃ out, (machine Mag.Small.tenthShort).replay small (attachEvents [Mag.Small.hnp]) = some out ∧
      out.2.lma.bCache.length = 1 ∧ Machine.EveryState (fun s => s.profile.Agree ∧ s.Announces) out.1 out.2 := by
  obtain ⟨out, hout, hrun, hlen, hno⟩ := Machine.exists_replay small (attachEvents [Mag.Small.hnp])
    (M := machine Mag.Small.tenthShort)
    (P := fun out => out.2.lma.bCache.length = 1 ∧ Machine.Meets NoAllocation out.1) (by decide +kernel)
  exact ⟨out, hout, hlen, (aliases_agree_iff rfl hrun).mpr hno⟩

/-- A mobile node without prefixes is given one by the anchor, and the entry of its link does not have it. -/
theorem aliases_part :
    ¬ ∀ (tr : List (Domain × Event)) (s : Domain), (machine Mag.Small.tenthShort).Run small tr s →
      s.profile.Agree := by
  intro hclaim
  obtain ⟨out, hout, hrun, hfind, hmn, hlink⟩ := Machine.exists_replay small (attachEvents [])
    (M := machine Mag.Small.tenthShort)
    (P := fun out =>
      (out.2.profile.lookup Mag.Small.mn).map (fun e => (e.mnIdentifier, e.mnLinkIdentifier)) =
        some (Mag.Small.mn, .ofMac48Address Mag.Small.mnAddress) ∧
      (out.2.profile.homeNetworkPrefixes Mag.Small.mn).length = 1 ∧
      (out.2.profile.homeNetworkPrefixes (.ofMac48Address Mag.Small.mnAddress)).length = 0) (by decide +kernel)
  obtain ⟨e, he, hids⟩ := Option.map_eq_some_iff.mp hfind
  obtain ⟨e₁, e₂, h₁, h₂, -, hsame⟩ := hclaim out.1 out.2 hrun Mag.Small.mn e he
  rw [(Prod.mk.inj hids).1] at h₁
  rw [(Prod.mk.inj hids).2] at h₂
  rw [Pmipv6Profile.homeNetworkPrefixes, h₁] at hmn
  rw [Pmipv6Profile.homeNetworkPrefixes, h₂] at hlink
  simp only [Option.map_some, Option.getD_some] at hmn hlink
  rw [hsame, hlink] at hmn
  cases hmn

end Domain

end Ns3.Pmip6
