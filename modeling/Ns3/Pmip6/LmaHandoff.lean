import Ns3.Pmip6.LmaSteps

/-!
# Delayed and immediate handoffs

`HandlePbu` hands an entry off to another gateway at once, or makes a tentative copy of it which
`DoDelayedRegistration` takes over when the register timer fires. The setters of the one and of the other are
listed in three places: the link identifier is not among those that are taken over.

* `moves_alike` — moving the tunnel reads the addresses, the interface and the prefixes of an entry.
* `handlePbu_of_delay`, `handlePbu_of_handOff` — the two are what `HandlePbu` does.
* `delayed_agrees_iff` — the two leave the same entry exactly when the update has the entry's link identifier.
-/

namespace Ns3.Pmip6

open BindingCache

namespace Lma

variable {now now' : ℤ} {src : Ipv6Address} {pbu : Ipv6MobilityBindingUpdateHeader} {lma after : Lma} {p : ℕ}
  {bce : Entry}

/-- The immediate handoff of the entry at `p`: what `HandlePbu` leaves on its path `handOff`. -/
def handOffAt (now : ℤ) (src : Ipv6Address) (pbu : Ipv6MobilityBindingUpdateHeader) (p : ℕ) (bce : Entry)
    (lma : Lma) : Option Lma :=
  (handOff now src pbu pbu.bundle lma.node bce).map fun x => { lma.setEntry p x.2 with node := x.1 }

/-- The delayed handoff of the entry at `p`: `HandlePbu` on its path `delay` at time `now`, and the register timer at
time `now'`. -/
def handOffDelayed (now now' : ℤ) (src : Ipv6Address) (pbu : Ipv6MobilityBindingUpdateHeader) (p : ℕ) (bce : Entry)
    (lma : Lma) : Option Lma :=
  functionRegisterTimeout now' p (lma.setEntry p (delayRegistration now src pbu pbu.bundle bce))

/-- Two bindings are of the same registration. -/
structure SameRegistration (b c : Binding) : Prop where
  proxyCoa : b.proxyCoa = c.proxyCoa
  mnLinkIdentifier : b.mnLinkIdentifier = c.mnLinkIdentifier
  accessTechnologyType : b.accessTechnologyType = c.accessTechnologyType
  handoffIndicator : b.handoffIndicator = c.handoffIndicator
  /-- The address of the gateway on the link. -/
  magLinkAddress : b.magLinkAddress = c.magLinkAddress
  reachableTime : b.reachableTime = c.reachableTime
  lastBindingUpdateTime : b.lastBindingUpdateTime = c.lastBindingUpdateTime
  lastBindingUpdateSequence : b.lastBindingUpdateSequence = c.lastBindingUpdateSequence
  homeNetworkPrefixes : b.homeNetworkPrefixes = c.homeNetworkPrefixes
  /-- The interface of the tunnel. -/
  tunnelIfIndex : b.tunnelIfIndex = c.tunnelIfIndex

/-- Two anchors have the same registration at `p`, and the same tunnels and routes. -/
def AgreeAt (p : ℕ) (lma lma' : Lma) : Prop :=
  lma.node = lma'.node ∧
    ∃ bce bce', lma.bCache[p]? = some bce ∧ lma'.bCache[p]? = some bce' ∧
      SameRegistration bce.toBinding bce'.toBinding

theorem moves_alike {n n' : Node} {b c m : Entry} (hold : c.oldProxyCoa = b.oldProxyCoa)
    (hnew : c.proxyCoa = b.proxyCoa) (hif : c.tunnelIfIndex = b.tunnelIfIndex)
    (hhnp : c.homeNetworkPrefixes = b.homeNetworkPrefixes) (h : modifyTunnelAndRouting n b = some (n', m)) :
    modifyTunnelAndRouting n c = some (n', { c with tunnelIfIndex := m.tunnelIfIndex }) := by
  unfold modifyTunnelAndRouting at h ⊢
  dsimp only at h ⊢
  cases hmove : n.modifyTunnel b.oldProxyCoa b.proxyCoa .zero with
  | none =>
    rw [hmove] at h
    cases h
  | some r =>
    have hmove' : n.modifyTunnel c.oldProxyCoa c.proxyCoa .zero = some r := by
      rw [hold, hnew, hmove]
    rw [hmove] at h
    rw [hmove']
    dsimp only at h ⊢
    rw [← hif, ← hhnp] at h
    split at h
    · rename_i hne
      rw [Option.some.injEq, Prod.mk.injEq] at h
      rw [if_pos hne, ← h.1, ← h.2]
    · rename_i heq
      rw [Option.some.injEq, Prod.mk.injEq] at h
      rw [if_neg heq, ← h.1, ← h.2, ← hif]

/-- What the immediate handoff leaves. -/
theorem eq_of_handOffAt (h : handOffAt now src pbu p bce lma = some after) : ∃ n moved,
    modifyTunnelAndRouting lma.node { bce with toBinding := bce.toBinding.record src pbu pbu.bundle } =
        some (n, moved) ∧ Time.seconds pbu.lifetime.toNat ≠ 0 ∧
      after = { lma.setEntry p { updated now src pbu bce with tunnelIfIndex := moved.tunnelIfIndex } with
        node := n } := by
  obtain ⟨⟨n, left⟩, hleft, rfl⟩ := Option.map_eq_some_iff.mp h
  obtain ⟨⟨n', moved⟩, hmove, hrest⟩ := Option.bind_eq_some_iff.mp hleft
  obtain ⟨left', hrefresh, hpure⟩ := Option.bind_eq_some_iff.mp hrest
  obtain ⟨rfl, rfl⟩ := Prod.mk.inj (Option.some.inj hpure)
  have hmoved := eq_of_modifyTunnelAndRouting hmove
  have hlife : moved.reachableTime = Time.seconds pbu.lifetime.toNat := by
    rw [hmoved]
    rfl
  have hne : Time.seconds pbu.lifetime.toNat ≠ 0 := by
    intro hzero
    simp [Entry.refresh, Entry.markReachable, Entry.stopReachableTimer, Entry.startReachableTimer, hlife, hzero]
      at hrefresh
  refine ⟨n', moved, hmove, hne, ?_⟩
  rw [Entry.refresh_eq (by rw [hlife]; exact hne), Option.some.injEq] at hrefresh
  rw [← hrefresh, hlife, hmoved]
  rfl

theorem handlePbu_of_delay (h : path now src pbu lma = .delay bce p) :
    handlePbu now src pbu lma = some (lma.setEntry p (delayRegistration now src pbu pbu.bundle bce), none) := by
  rw [handlePbu_eq, h]

/-- On its path `handOff` `HandlePbu` hands the entry off. -/
theorem handlePbu_of_handOff (h : path now src pbu lma = .handOff bce p) :
    (handlePbu now src pbu lma).map Prod.fst = handOffAt now src pbu p bce lma := by
  have hpos : 0 < pbu.lifetime := lifetime_of_path h
  have hlife := seconds_lifetime_ne_zero hpos
  rw [handlePbu_eq, h, handOffAt, handOff]
  dsimp only
  cases hmove : modifyTunnelAndRouting lma.node
      { bce with toBinding := bce.toBinding.record src pbu pbu.bundle } with
  | none => rfl
  | some r =>
    obtain ⟨n, moved⟩ := r
    have hrefresh : moved.refresh now =
        some { updated now src pbu bce with tunnelIfIndex := moved.tunnelIfIndex } := by
      rw [eq_of_modifyTunnelAndRouting hmove]
      exact Entry.refresh_eq hlife
    simp [hrefresh]

/-- What the delayed handoff leaves, when the tunnel of the immediate one can be moved. -/
theorem handOffDelayed_eq {n : Node} {moved : Entry} (hget : lma.bCache[p]? = some bce)
    (hmove : modifyTunnelAndRouting lma.node
      { bce with toBinding := bce.toBinding.record src pbu pbu.bundle } = some (n, moved))
    (hlife : Time.seconds pbu.lifetime.toNat ≠ 0) :
    handOffDelayed now now' src pbu p bce lma =
      some { lma.setEntry p { takenOver now' (tentativeOf src pbu pbu.bundle bce)
          (delayRegistration now src pbu pbu.bundle bce) with tunnelIfIndex := moved.tunnelIfIndex } with
        node := n } := by
  have hlt : p < lma.bCache.length := (List.getElem?_eq_some_iff.mp hget).1
  have hset : (lma.setEntry p (delayRegistration now src pbu pbu.bundle bce)).bCache[p]? =
      some (delayRegistration now src pbu pbu.bundle bce) := List.getElem?_set_self hlt
  have hmove' := moves_alike
    (c := { delayRegistration now src pbu pbu.bundle bce with
      toBinding := (tentativeOf src pbu pbu.bundle bce).takeOver bce.toBinding
      registerTimer := .cancel
      tentativeEntry := none })
    (b := { bce with toBinding := bce.toBinding.record src pbu pbu.bundle }) rfl rfl rfl rfl hmove
  have htemp : (delayRegistration now src pbu pbu.bundle bce).tentativeEntry =
      some (tentativeOf src pbu pbu.bundle bce) := rfl
  have hlife' : (tentativeOf src pbu pbu.bundle bce).reachableTime ≠ 0 := hlife
  rw [handOffDelayed, functionRegisterTimeout_eq hset, htemp]
  dsimp only [setEntry]
  rw [show (delayRegistration now src pbu pbu.bundle bce).toBinding = bce.toBinding from rfl, hmove', Option.bind_some,
    if_neg hlife', List.set_set]

/-- Where the immediate handoff does not stop the program, the delayed one leaves the same registration exactly when the
update has the link identifier that the entry has. -/
theorem delayed_agrees_iff (hget : lma.bCache[p]? = some bce)
    (himmediate : handOffAt now src pbu p bce lma = some after) :
    (∃ after', handOffDelayed now now' src pbu p bce lma = some after' ∧ AgreeAt p after' after) ↔
      bce.mnLinkIdentifier = pbu.bundle.mnLinkIdentifier := by
  obtain ⟨n, moved, hmove, hlife, rfl⟩ := eq_of_handOffAt himmediate
  have hlt : p < lma.bCache.length := (List.getElem?_eq_some_iff.mp hget).1
  rw [handOffDelayed_eq hget hmove hlife]
  constructor
  · rintro ⟨after', hafter, -, b, c, hb, hc, hsame⟩
    cases hafter
    dsimp only [setEntry] at hb hc
    rw [List.getElem?_set_self hlt, Option.some.injEq] at hb hc
    subst hb
    subst hc
    exact hsame.mnLinkIdentifier
  · intro hlink
    refine ⟨_, rfl, rfl, _, _, List.getElem?_set_self hlt, List.getElem?_set_self hlt, ?_⟩
    exact ⟨rfl, hlink, rfl, rfl, rfl, rfl, rfl, rfl, rfl, rfl⟩

/-- The update of a mobile node that is registered at another gateway. -/
def first : Ipv6MobilityBindingUpdateHeader := Small.update 1 60 Small.hnp 2 (Time.seconds 10)

/-- An anchor with an entry of the mobile node. -/
def registered : Lma := afterCreate (Time.seconds 10) Small.magA first Small.anchor.lma

/-- The entry. -/
def registeredEntry : Entry := created (Time.seconds 10) Small.magA first Small.anchor.lma

theorem delayed_agrees_registered : ∃ after,
    handOffAt (Time.seconds 11) Small.magB (Small.update 1 60 .zero 2 (Time.seconds 11)) 0 registeredEntry registered =
        some after ∧
      ∃ after', handOffDelayed (Time.seconds 11) (Time.milliSeconds 12500) Small.magB
          (Small.update 1 60 .zero 2 (Time.seconds 11)) 0 registeredEntry registered = some after' ∧
        AgreeAt 0 after' after := by
  obtain ⟨after, hafter⟩ := Option.isSome_iff_exists.mp (show (handOffAt (Time.seconds 11) Small.magB
    (Small.update 1 60 .zero 2 (Time.seconds 11)) 0 registeredEntry registered).isSome = true by decide +kernel)
  exact ⟨after, hafter, (delayed_agrees_iff (by decide +kernel) hafter).mpr (by decide +kernel)⟩

/-- The mobile node has another link identifier at the new gateway: the entry keeps the old one when the handoff is
delayed. -/
theorem delayed_disagrees : ¬ ∀ (lma after : Lma) (p : ℕ) (bce : Entry) (now now' : ℤ) (src : Ipv6Address)
    (pbu : Ipv6MobilityBindingUpdateHeader), lma.bCache[p]? = some bce →
      handOffAt now src pbu p bce lma = some after →
        ∃ after', handOffDelayed now now' src pbu p bce lma = some after' ∧ AgreeAt p after' after := by
  intro h
  have hlink : ∀ x : Option Lma, x = handOffAt (Time.seconds 11) Small.magB
      (Small.update 1 60 .zero 3 (Time.seconds 11)) 0 registeredEntry registered →
      x.bind (fun lma => lma.bCache[0]?.map fun bce => bce.mnLinkIdentifier) = some (.ofOctet 3) := by
    rintro x rfl
    decide +kernel
  have hlink' : ∀ x : Option Lma, x = handOffDelayed (Time.seconds 11) (Time.milliSeconds 12500) Small.magB
      (Small.update 1 60 .zero 3 (Time.seconds 11)) 0 registeredEntry registered →
      x.bind (fun lma => lma.bCache[0]?.map fun bce => bce.mnLinkIdentifier) = some (.ofOctet 2) := by
    rintro x rfl
    decide +kernel
  obtain ⟨after, hafter⟩ := Option.isSome_iff_exists.mp (show (handOffAt (Time.seconds 11) Small.magB
    (Small.update 1 60 .zero 3 (Time.seconds 11)) 0 registeredEntry registered).isSome = true by decide +kernel)
  obtain ⟨after', hafter', -, b, c, hb, hc, hsame⟩ := h registered after 0 registeredEntry (Time.seconds 11)
    (Time.milliSeconds 12500) Small.magB (Small.update 1 60 .zero 3 (Time.seconds 11)) (by decide +kernel) hafter
  have hthree := hlink _ hafter.symm
  have htwo := hlink' _ hafter'.symm
  rw [Option.bind_some, hc, Option.map_some, Option.some.injEq] at hthree
  rw [Option.bind_some, hb, Option.map_some, Option.some.injEq] at htwo
  have hne := hsame.mnLinkIdentifier
  rw [hthree, htwo] at hne
  exact absurd hne (by decide)

end Lma

end Ns3.Pmip6
