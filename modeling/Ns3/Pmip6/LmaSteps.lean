import Ns3.Pmip6.Lma

/-!
# What the anchor can do in one step

`path` names the way `HandlePbu` takes for an update: which of its branches, and for which entry.
It is a function of the update and of the state before it, and the conditions under which a
property of the anchor holds are stated with it.

## What is proved

* `handlePbu_eq` — `HandlePbu` is its path: what it leaves and what it sends, for each.
* `Change` — the ways an event changes the anchor, with what is known where it happens;
  `change_of_step` says that there are no others. The invariants of the anchor are proved by
  cases on it.
-/

namespace Ns3.Pmip6

open BindingCache

namespace Lma

/-! ### The paths of `HandlePbu` -/

/-- The ways through `HandlePbu`. -/
inductive Path where
  | rejected (errStatus : BAStatus)
  /-- `update BCE`. -/
  | update (bce : Entry) (p : ℕ)
  /-- `Already in delayed registration.. Skipped`. -/
  | skip
  /-- `performing delayed-registration`. -/
  | delay (bce : Entry) (p : ℕ)
  /-- `Handoff in two different mags for the same interface`. -/
  | handOff (bce : Entry) (p : ℕ)
  /-- `Lifetime is zero.. Deregistering..`, from the entry's gateway. -/
  | deregister (bce : Entry) (p : ℕ)
  /-- The lifetime is zero, from another gateway. -/
  | foreign (bce : Entry) (p : ℕ)
  /-- `Createing new Binding Cache Entry`. -/
  | create
  /-- The lifetime is zero, and there is no entry. -/
  | unknown
  deriving DecidableEq

/-- The way `HandlePbu` takes. -/
def path (now : ℤ) (src : Ipv6Address) (pbu : Ipv6MobilityBindingUpdateHeader) (lma : Lma) : Path :=
  match lma.checkOptions now pbu.bundle with
  | some errStatus => .rejected errStatus
  | none =>
    match (existenceTest lma.bCache pbu.bundle).bce with
    | some (bce, p) =>
      if 0 < pbu.lifetime then
        if bce.proxyCoa = src ∨ bce.isDeregistering then .update bce p
        else if pbu.bundle.handoffIndicator = optHiHandoffStateUnknown ∧
            (existenceTest lma.bCache pbu.bundle).delayedRegister then
          if bce.isRegistering then .skip else .delay bce p
        else .handOff bce p
      else if bce.proxyCoa = src then .deregister bce p
      else .foreign bce p
    | none => if 0 < pbu.lifetime then .create else .unknown

/-- The entry of a path, and its place. -/
def Path.entry : Path → Option (Entry × ℕ)
  | update bce p | delay bce p | handOff bce p | deregister bce p | foreign bce p => some (bce, p)
  | rejected _ | skip | create | unknown => none

/-- The path leaves the anchor as it is. -/
def Path.isIdle : Path → Bool
  | rejected _ | skip | foreign _ _ | unknown => true
  | update _ _ | delay _ _ | handOff _ _ | deregister _ _ | create => false

variable {now : ℤ} {src : Ipv6Address} {pbu : Ipv6MobilityBindingUpdateHeader} {lma lma' : Lma}
  {bce : Entry} {p : ℕ}

/-- The entry of a path is one of the cache, and one of the mobile node of the update. -/
theorem getElem?_of_path (h : (path now src pbu lma).entry = some (bce, p)) :
    lma.bCache[p]? = some bce ∧ bce.mnIdentifier = pbu.bundle.mnIdentifier := by
  refine mem_chain.mp (mem_chain_of_existenceTest ?_)
  unfold path at h
  split at h
  · cases h
  · split at h
    · rename_i bce' p' htest
      have hentry : (bce', p') = (bce, p) := by
        split at h
        · split at h
          · exact Option.some.inj h
          · split at h
            · split at h
              · cases h
              · exact Option.some.inj h
            · exact Option.some.inj h
        · split at h <;> exact Option.some.inj h
      rw [htest, hentry]
    · split at h <;> cases h

/-- What a path says about the lifetime of the update. -/
def Path.Lifetime (lifetime : UInt16) : Path → Prop
  | rejected _ => True
  | update _ _ | skip | delay _ _ | handOff _ _ | create => 0 < lifetime
  | deregister _ _ | foreign _ _ | unknown => lifetime = 0

/-- An update with a lifetime takes a path for one, and an update without a path for none. -/
theorem lifetime_of_path {way : Path} (h : path now src pbu lma = way) : way.Lifetime pbu.lifetime := by
  have hzero : ¬ 0 < pbu.lifetime → pbu.lifetime = 0 := fun hl => by
    by_contra hne
    exact hl (UInt16.pos_iff_ne_zero.mpr hne)
  subst h
  unfold path
  split
  · trivial
  · split
    · by_cases hl : 0 < pbu.lifetime
      · rw [if_pos hl]
        split
        · exact hl
        · split
          · split <;> exact hl
          · exact hl
      · rw [if_neg hl]
        split <;> exact hzero hl
    · by_cases hl : 0 < pbu.lifetime
      · rw [if_pos hl]
        exact hl
      · rw [if_neg hl]
        exact hzero hl

/-! ### What the paths leave of an entry -/

/-- The entry an update leaves, with its tunnel as it was. -/
def updated (now : ℤ) (src : Ipv6Address) (pbu : Ipv6MobilityBindingUpdateHeader) (bce : Entry) : Entry :=
  { bce with
    toBinding := bce.toBinding.record src pbu pbu.bundle
    state := .reachable
    reachableTimer := Timer.schedule now (Time.seconds pbu.lifetime.toNat) }

/-- The entry a delayed registration leaves when it is carried out, with its tunnel as it was. -/
def takenOver (now : ℤ) (temp : Binding) (bce : Entry) : Entry :=
  { bce with
    toBinding := temp.takeOver bce.toBinding
    state := .reachable
    reachableTimer := Timer.schedule now temp.reachableTime
    registerTimer := .cancel
    tentativeEntry := none }

/-- The prefixes of the entry that is created. -/
def createdPrefixes (pbu : Ipv6MobilityBindingUpdateHeader) (lma : Lma) : List Ipv6Address :=
  (allocatePrefixes lma.profile lma.prefixPool pbu.bundle.mnIdentifier).2.2

/-- The entry that is created. -/
def created (now : ℤ) (src : Ipv6Address) (pbu : Ipv6MobilityBindingUpdateHeader) (lma : Lma) : Entry :=
  { newEntry src pbu pbu.bundle (createdPrefixes pbu lma) with
    tunnelIfIndex := (lma.node.addTunnel src .zero).2
    state := .reachable
    reachableTimer := Timer.schedule now (Time.seconds pbu.lifetime.toNat) }

/-- The node with the forwarding of the entry that is created. -/
def createdNode (src : Ipv6Address) (pbu : Ipv6MobilityBindingUpdateHeader) (lma : Lma) : Node :=
  { (lma.node.addTunnel src .zero).1 with
    staticRouting := (lma.node.addTunnel src .zero).1.staticRouting.addNetworkRoutesTo
      (createdPrefixes pbu lma) ((lma.node.addTunnel src .zero).2.signExtend 32) }

/-- The anchor after an entry was created. -/
def afterCreate (now : ℤ) (src : Ipv6Address) (pbu : Ipv6MobilityBindingUpdateHeader) (lma : Lma) : Lma :=
  { bCache := lma.bCache ++ [created now src pbu lma]
    profile := (allocatePrefixes lma.profile lma.prefixPool pbu.bundle.mnIdentifier).1
    prefixPool := (allocatePrefixes lma.profile lma.prefixPool pbu.bundle.mnIdentifier).2.1
    node := createdNode src pbu lma }

theorem seconds_lifetime_ne_zero (h : 0 < pbu.lifetime) : Time.seconds pbu.lifetime.toNat ≠ 0 := by
  have hpos : 0 < pbu.lifetime.toNat := by simpa [UInt16.lt_iff_toNat_lt] using h
  have := Time.seconds_pos hpos
  omega

theorem updateEntry_eq (h : 0 < pbu.lifetime) :
    updateEntry now src pbu pbu.bundle bce = some (updated now src pbu bce) :=
  Entry.refresh_eq (seconds_lifetime_ne_zero h)

theorem createEntry_eq (h : 0 < pbu.lifetime) :
    createEntry now src pbu pbu.bundle lma =
      some (afterCreate now src pbu lma, created now src pbu lma) := by
  have hne := seconds_lifetime_ne_zero h
  simp [createEntry, setupTunnelAndRouting, Entry.startReachableTimer, Entry.markReachable, newEntry,
    Binding.record, Binding.setProxyCoa, hne, created, createdNode, createdPrefixes, afterCreate]

/-- Moving a tunnel changes nothing of the entry but the interface of its tunnel. -/
theorem eq_of_modifyTunnelAndRouting {n n' : Node} {bce bce' : Entry}
    (h : modifyTunnelAndRouting n bce = some (n', bce')) :
    bce' = { bce with tunnelIfIndex := bce'.tunnelIfIndex } := by
  unfold modifyTunnelAndRouting at h
  dsimp only at h
  split at h
  · cases h
  · split at h <;>
    · rw [Option.some.injEq, Prod.mk.injEq] at h
      rw [← h.2]

/-- `HandlePbu` takes its path. -/
theorem handlePbu_eq (now : ℤ) (src : Ipv6Address) (pbu : Ipv6MobilityBindingUpdateHeader) (lma : Lma) :
    handlePbu now src pbu lma =
      match path now src pbu lma with
      | .rejected errStatus => some (lma, some ⟨src, buildPbaFor pbu pbu.bundle errStatus⟩)
      | .update bce p =>
        some (lma.setEntry p (updated now src pbu bce),
          some ⟨src, buildPba (updated now src pbu bce).toBinding .bindingUpdateAccepted⟩)
      | .skip => some (lma, none)
      | .delay bce p => some (lma.setEntry p (delayRegistration now src pbu pbu.bundle bce), none)
      | .handOff bce p =>
        (modifyTunnelAndRouting lma.node
            { bce with toBinding := bce.toBinding.record src pbu pbu.bundle }).map fun r =>
          let bce := { updated now src pbu bce with tunnelIfIndex := r.2.tunnelIfIndex }
          ({ lma.setEntry p bce with node := r.1 },
            some ⟨src, buildPba bce.toBinding .bindingUpdateAccepted⟩)
      | .deregister bce p =>
        some (lma.setEntry p (bce.markDeregistering.startDeregisterTimer now),
          some ⟨src, buildPba bce.toBinding .bindingUpdateAccepted⟩)
      | .foreign bce _ => some (lma, some ⟨src, buildPba bce.toBinding .bindingUpdateAccepted⟩)
      | .create =>
        some (afterCreate now src pbu lma,
          some ⟨src, buildPba (created now src pbu lma).toBinding .bindingUpdateAccepted⟩)
      | .unknown => some (lma, some ⟨src, buildPbaFor pbu pbu.bundle .bindingUpdateAccepted⟩) := by
  cases hc : lma.checkOptions now pbu.bundle with
  | some errStatus => simp only [handlePbu, path, hc]
  | none =>
    cases ht : (existenceTest lma.bCache pbu.bundle).bce with
    | some x =>
      obtain ⟨bce, p⟩ := x
      by_cases hl : 0 < pbu.lifetime
      · by_cases hs : bce.proxyCoa = src ∨ bce.isDeregistering
        · simp only [handlePbu, path, hc, ht, if_pos hl, if_pos hs, updateEntry_eq hl]
          rfl
        · by_cases hd : pbu.bundle.handoffIndicator = optHiHandoffStateUnknown ∧
            (existenceTest lma.bCache pbu.bundle).delayedRegister
          · by_cases hr : bce.isRegistering
            · simp only [handlePbu, path, hc, ht, if_pos hl, if_neg hs, if_pos hd, if_pos hr]
            · simp only [handlePbu, path, hc, ht, if_pos hl, if_neg hs, if_pos hd, if_neg hr]
          · simp only [handlePbu, path, hc, ht, if_pos hl, if_neg hs, if_neg hd]
            cases hm : modifyTunnelAndRouting lma.node
                { bce with toBinding := bce.toBinding.record src pbu pbu.bundle } with
            | none => simp [handOff, hm]
            | some r =>
              obtain ⟨n, bce'⟩ := r
              have he := eq_of_modifyTunnelAndRouting hm
              have hr : bce'.refresh now =
                  some { updated now src pbu bce with tunnelIfIndex := bce'.tunnelIfIndex } := by
                rw [he]
                exact Entry.refresh_eq (seconds_lifetime_ne_zero hl)
              simp [handOff, hm, hr]
      · by_cases hs : bce.proxyCoa = src
        · simp only [handlePbu, path, hc, ht, if_neg hl, if_pos hs]
          rfl
        · simp only [handlePbu, path, hc, ht, if_neg hl, if_neg hs]
    | none =>
      by_cases hl : 0 < pbu.lifetime
      · simp only [handlePbu, path, hc, ht, if_pos hl, createEntry_eq hl]
        rfl
      · simp only [handlePbu, path, hc, ht, if_neg hl]

/-! ### Changes -/

/-- The ways an event changes the anchor at time `now`. -/
inductive Change (now : ℤ) (lma : Lma) : Event → Lma → Prop where
  | advance {t : ℤ} : Change now lma (.advance t) lma
  | idle {src : Ipv6Address} {pbu : Ipv6MobilityBindingUpdateHeader}
      (hpath : (path now src pbu lma).isIdle) : Change now lma (.pbu src pbu) lma
  | update {src : Ipv6Address} {pbu : Ipv6MobilityBindingUpdateHeader} {bce : Entry} {p : ℕ}
      (hpath : path now src pbu lma = .update bce p) :
      Change now lma (.pbu src pbu) (lma.setEntry p (updated now src pbu bce))
  /-- The registration of an entry is delayed. -/
  | delay {src : Ipv6Address} {pbu : Ipv6MobilityBindingUpdateHeader} {bce : Entry} {p : ℕ}
      (hpath : path now src pbu lma = .delay bce p) :
      Change now lma (.pbu src pbu) (lma.setEntry p (delayRegistration now src pbu pbu.bundle bce))
  /-- An entry is handed off: its tunnel is moved to the new gateway. -/
  | handOff {src : Ipv6Address} {pbu : Ipv6MobilityBindingUpdateHeader} {bce : Entry} {p : ℕ} {n : Node}
      {moved : Entry} (hpath : path now src pbu lma = .handOff bce p)
      (hmove : modifyTunnelAndRouting lma.node
        { bce with toBinding := bce.toBinding.record src pbu pbu.bundle } = some (n, moved)) :
      Change now lma (.pbu src pbu)
        { lma.setEntry p { updated now src pbu bce with tunnelIfIndex := moved.tunnelIfIndex } with
          node := n }
  /-- An entry starts to deregister. -/
  | deregister {src : Ipv6Address} {pbu : Ipv6MobilityBindingUpdateHeader} {bce : Entry} {p : ℕ}
      (hpath : path now src pbu lma = .deregister bce p) :
      Change now lma (.pbu src pbu) (lma.setEntry p (bce.markDeregistering.startDeregisterTimer now))
  | create {src : Ipv6Address} {pbu : Ipv6MobilityBindingUpdateHeader}
      (hpath : path now src pbu lma = .create) :
      Change now lma (.pbu src pbu) (afterCreate now src pbu lma)
  /-- A delayed registration is carried out: the tunnel is moved to the new gateway. -/
  | registerTimeout {p : ℕ} {bce moved : Entry} {temp : Binding} {n : Node}
      (hget : lma.bCache[p]? = some bce) (hdue : bce.registerTimer = some now)
      (htemp : bce.tentativeEntry = some temp) (hlife : temp.reachableTime ≠ 0)
      (hmove : modifyTunnelAndRouting lma.node
        { bce with
          toBinding := temp.takeOver bce.toBinding
          registerTimer := .cancel
          tentativeEntry := none } = some (n, moved)) :
      Change now lma (.registerTimeout p)
        { lma.setEntry p { takenOver now temp bce with tunnelIfIndex := moved.tunnelIfIndex } with
          node := n }
  /-- The reachable timer of an entry has run. -/
  | reachableTimeout {p : ℕ} {bce : Entry} (hget : lma.bCache[p]? = some bce)
      (hdue : bce.reachableTimer = some now) :
      Change now lma (.reachableTimeout p) (lma.setEntry p { bce with reachableTimer := .cancel })
  /-- The deregister timer of an entry has run. -/
  | deregisterTimeout {p : ℕ} {bce : Entry} (hget : lma.bCache[p]? = some bce)
      (hdue : bce.deregisterTimer = some now) :
      Change now lma (.deregisterTimeout p) (lma.setEntry p { bce with deregisterTimer := .cancel })

/-- What `HandlePbu` leaves. -/
theorem change_of_handlePbu {sent : Option Sent} (h : handlePbu now src pbu lma = some (lma', sent)) :
    Change now lma (.pbu src pbu) lma' := by
  rw [handlePbu_eq] at h
  cases hpath : path now src pbu lma with
  | rejected _ | skip | foreign _ _ | unknown =>
    simp only [hpath, Option.some.injEq, Prod.mk.injEq] at h
    obtain ⟨rfl, -⟩ := h
    exact .idle (by rw [hpath]; rfl)
  | update bce p =>
    simp only [hpath, Option.some.injEq, Prod.mk.injEq] at h
    obtain ⟨rfl, -⟩ := h
    exact .update hpath
  | delay bce p =>
    simp only [hpath, Option.some.injEq, Prod.mk.injEq] at h
    obtain ⟨rfl, -⟩ := h
    exact .delay hpath
  | handOff bce p =>
    simp only [hpath, Option.map_eq_some_iff, Prod.mk.injEq] at h
    obtain ⟨⟨n, moved⟩, hmove, rfl, -⟩ := h
    exact .handOff hpath hmove
  | deregister bce p =>
    simp only [hpath, Option.some.injEq, Prod.mk.injEq] at h
    obtain ⟨rfl, -⟩ := h
    exact .deregister hpath
  | create =>
    simp only [hpath, Option.some.injEq, Prod.mk.injEq] at h
    obtain ⟨rfl, -⟩ := h
    exact .create hpath

/-- The register timeout of an entry, when it does not stop the program. -/
theorem functionRegisterTimeout_eq (hget : lma.bCache[p]? = some bce) :
    functionRegisterTimeout now p lma =
      match bce.tentativeEntry with
      | none => none
      | some temp =>
        (modifyTunnelAndRouting lma.node
            { bce with
              toBinding := temp.takeOver bce.toBinding
              registerTimer := .cancel
              tentativeEntry := none }).bind fun r =>
          if temp.reachableTime = 0 then none
          else some { lma.setEntry p { takenOver now temp bce with tunnelIfIndex := r.2.tunnelIfIndex } with
            node := r.1 } := by
  cases htemp : bce.tentativeEntry with
  | none => simp [functionRegisterTimeout, hget, doDelayedRegistration, htemp]
  | some temp =>
    cases hmove : modifyTunnelAndRouting lma.node
        { bce with
          toBinding := temp.takeOver bce.toBinding
          registerTimer := .cancel
          tentativeEntry := none } with
    | none =>
      simp [functionRegisterTimeout, hget, doDelayedRegistration, htemp, Entry.setTentativeEntry, hmove]
    | some r =>
      obtain ⟨n, moved⟩ := r
      have he := eq_of_modifyTunnelAndRouting hmove
      have hlife : moved.reachableTime = temp.reachableTime := by rw [he]; rfl
      by_cases hz : temp.reachableTime = 0
      · simp [functionRegisterTimeout, hget, doDelayedRegistration, htemp, Entry.setTentativeEntry, hmove,
          Entry.refresh, Entry.markReachable, Entry.stopReachableTimer, Entry.startReachableTimer, hlife, hz]
      · have hr : moved.refresh now =
            some { takenOver now temp bce with tunnelIfIndex := moved.tunnelIfIndex } := by
          rw [Entry.refresh_eq (by rw [hlife]; exact hz), hlife, he]
          rfl
        simp [functionRegisterTimeout, hget, doDelayedRegistration, htemp, Entry.setTentativeEntry, hmove,
          hr, hz]

/-- A step changes the anchor in one of these ways. -/
theorem change_of_step {s s' : Timed} {e : Event} (h : machine.Step s e s') :
    Change s.now s.lma e s'.lma := by
  obtain ⟨hen, hex⟩ := h
  cases e with
  | advance t =>
    cases hex
    exact .advance
  | pbu src message =>
    obtain ⟨⟨lma', sent⟩, hpbu, rfl⟩ := Option.map_eq_some_iff.mp hex
    exact change_of_handlePbu hpbu
  | registerTimeout p =>
    obtain ⟨lma', htimeout, rfl⟩ := Option.map_eq_some_iff.mp hex
    obtain ⟨bce, hget, hdue⟩ := Option.bind_eq_some_iff.mp hen
    rw [functionRegisterTimeout_eq hget] at htimeout
    cases htemp : bce.tentativeEntry with
    | none => simp [htemp] at htimeout
    | some temp =>
      simp only [htemp] at htimeout
      obtain ⟨⟨n, moved⟩, hmove, hr⟩ := Option.bind_eq_some_iff.mp htimeout
      split at hr
      · cases hr
      · rename_i hlife
        cases hr
        exact .registerTimeout hget hdue htemp hlife hmove
  | reachableTimeout p =>
    obtain ⟨lma', htimeout, rfl⟩ := Option.map_eq_some_iff.mp hex
    obtain ⟨bce, hget, hdue⟩ := Option.bind_eq_some_iff.mp hen
    simp only [functionReachableTimeout, hget, Option.bind_eq_bind, Option.bind_some, Option.pure_def,
      Option.some.injEq] at htimeout
    subst htimeout
    exact .reachableTimeout hget hdue
  | deregisterTimeout p =>
    obtain ⟨lma', htimeout, rfl⟩ := Option.map_eq_some_iff.mp hex
    obtain ⟨bce, hget, hdue⟩ := Option.bind_eq_some_iff.mp hen
    simp only [functionDeregisterTimeout, hget, Option.bind_eq_bind, Option.bind_some, Option.pure_def,
      Option.some.injEq] at htimeout
    subst htimeout
    exact .deregisterTimeout hget hdue

/-! ### A small anchor, for runs that can be computed -/

namespace Small

/-- The mobile node. -/
def mn : Identifier := .ofOctet 1

/-- Its prefix. -/
def hnp : Ipv6Address := .ofOctets 0x3f 1

/-- A gateway. -/
def magA : Ipv6Address := .ofOctets 0x20 1

/-- Another gateway. -/
def magB : Ipv6Address := .ofOctets 0x20 2

/-- The profile of the mobile node, with the prefixes `hnpList`. -/
def profile (hnpList : List Ipv6Address) : Pmipv6Profile :=
  { profileList := fun id =>
      if id = mn then
        some { mnIdentifier := mn, mnLinkIdentifier := .ofOctet 2, lmaAddress := .ofOctets 0x20 9,
               homeNetworkPrefixes := hnpList }
      else none }

/-- An anchor ten seconds into the simulation that has seen no update. -/
def anchor : Timed :=
  { now := Time.seconds 10
    lma :=
      { bCache := []
        profile := profile [hnp]
        prefixPool :=
          { prefixBegin := .ofOctets 0x3f 0xfe, prefixBeginLen := 48, prefixBeginLen_lt := by decide,
            lastPrefixIndex := 0 }
        node := { tunnelList := [], interfaces := [.host 0, .host 1], staticRouting := [] } } }

/-- The update of the mobile node with a given sequence number, lifetime, prefix, link and time: what
a gateway sends. -/
def update (sequence lifetime : UInt16) (hnp : Ipv6Address) (link : UInt8) (time : ℤ) :
    Ipv6MobilityBindingUpdateHeader :=
  { sequence := sequence, flagA := true, flagH := true, flagL := true, flagP := true
    lifetime := lifetime
    options := [.mobileNodeIdentifier 1 mn, .homeNetworkPrefix hnp 64,
      .handoffIndicator optHiHandoffStateUnknown, .accessTechnologyType 4,
      .mobileNodeLinkLayerIdentifier (.ofOctet link), .timestamp time] }

end Small

end Lma

end Ns3.Pmip6
