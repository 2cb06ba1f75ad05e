import Ns3.Lib.Tally
import Ns3.Pmip6.LmaSteps

/-!
# The forwarding of the anchor

An entry of the binding cache refers to the tunnel of its Proxy-CoA, and asks for a route to each
of its prefixes through that tunnel.

## What is proved

* `Tunnelled` — the tunnel devices are those the entries refer to, and a delayed registration
  that is waited for has its tentative entry. Steps that meet `KeepsTunnels` keep it, so a register
  timeout runs into none of its assertions (`delayed_registration_safe`).
* `Forwarded` — every entry has the interface of its tunnel, and the table a route for each time
  an entry asks for it. Steps that meet `KeepsForwarding` keep it, and it is what
  `ForwardingConsistent` needs (`forwarding_consistent`).

Both conditions leave out one path of `HandlePbu`: an update of a deregistering entry from another
gateway changes the Proxy-CoA and does not move the tunnel, as the handoff beside it does.
`forwarding_inconsistent` and `delayed_registration_unsafe` are runs through that path.
-/

namespace Ns3.Pmip6

open BindingCache Lib

namespace Lma

/-! ### What the entries ask of the node -/

/-- The references to the tunnel of `r` that the entries hold. -/
def refs (bCache : List Entry) (r : Ipv6Address) : ℕ :=
  tally (fun e => if e.proxyCoa = r then 1 else 0) bCache

/-- How often the entries ask for the route to `a` through interface `k`. -/
def routesAsked (bCache : List Entry) (a : Ipv6Address) (k : BitVec 32) : ℕ :=
  tally (fun e => if e.tunnelIfIndex.zeroExtend 32 = k then e.homeNetworkPrefixes.count a else 0) bCache

theorem refs_le_length (bCache : List Entry) (r : Ipv6Address) : refs bCache r ≤ bCache.length :=
  tally_le_length fun e _ => by split <;> omega

variable {p : ℕ} {bCache : List Entry}

theorem refs_pos {e : Entry} (h : bCache[p]? = some e) : 0 < refs bCache e.proxyCoa := by
  have hle := le_tally (f := fun x : Entry => if x.proxyCoa = e.proxyCoa then 1 else 0)
    (List.mem_of_getElem? h)
  rw [if_pos rfl] at hle
  exact hle

variable {e e' : Entry}

theorem refs_set (h : bCache[p]? = some e) (a : Ipv6Address) :
    refs (bCache.set p e') a + (if a = e.proxyCoa then 1 else 0) =
      refs bCache a + if a = e'.proxyCoa then 1 else 0 := by
  have hset := tally_set (f := fun x : Entry => if x.proxyCoa = a then 1 else 0) h e'
  simp only [@eq_comm _ a]
  exact hset

theorem refs_set_of_eq (h : bCache[p]? = some e) (hcoa : e'.proxyCoa = e.proxyCoa) (a : Ipv6Address) :
    refs (bCache.set p e') a = refs bCache a :=
  tally_set_of_eq h (by rw [hcoa])

/-- An anchor that has done nothing yet: no entries and no tunnels. -/
def Initial (lma : Lma) : Prop :=
  lma.bCache = [] ∧ lma.node.tunnelList = [] ∧ ∀ d ∈ lma.node.interfaces, d.isTunnel = false
deriving Decidable

variable {lma : Lma}

theorem Initial.tunnelsFor (h : lma.Initial) : lma.node.TunnelsFor (refs lma.bCache) := by
  obtain ⟨hc, hl, hi⟩ := h
  refine (Node.tunnelsFor_nil hl fun i hm => ?_).congr fun a => by rw [hc]; rfl
  exact absurd (hi _ hm) (by simp [NetDevice.isTunnel])

/-! ### Moving a tunnel -/

/-- What `ModifyTunnelAndRouting` leaves of a node, when the new tunnel has interface `i`. -/
structure Moved (n n' : Node) (bce : Entry) (i : ℕ) : Prop where
  /-- The tunnel of the new gateway has interface `i`. -/
  tunnelInterface : n'.tunnelInterface bce.proxyCoa = some i
  /-- The other tunnels keep theirs. -/
  kept : ∀ r j, n.tunnelInterface r = some j → n'.tunnelInterface r = some j
  /-- At most one interface was added. -/
  length : n'.interfaces.length ≤ n.interfaces.length + 1
  /-- The routes of the entry went to the new interface, and no other route was lost. -/
  count : ∀ a k,
    n.staticRouting.count (networkRoute a k) +
        (NetworkRoutes.ofPrefixes bce.homeNetworkPrefixes ((BitVec.ofNat 16 i).zeroExtend 32)).count
          (networkRoute a k) ≤
      n'.staticRouting.count (networkRoute a k) +
        (NetworkRoutes.ofPrefixes bce.homeNetworkPrefixes (bce.tunnelIfIndex.zeroExtend 32)).count
          (networkRoute a k)

/-- A tunnel someone refers to can be moved, and the references follow. -/
theorem modifyTunnelAndRouting_spec {n : Node} {refs refs' : Ipv6Address → ℕ} (h : n.TunnelsFor refs)
    {bce : Entry} (hold : 0 < refs bce.oldProxyCoa) (hnew : bce.proxyCoa ≠ .zero)
    (hlt : refs bce.proxyCoa + 2 < 2 ^ 32)
    (hrefs : ∀ a, refs' a + (if a = bce.oldProxyCoa then 1 else 0) =
      refs a + if a = bce.proxyCoa then 1 else 0) :
    ∃ n' i, modifyTunnelAndRouting n bce = some (n', { bce with tunnelIfIndex := BitVec.ofNat 16 i }) ∧
      n'.TunnelsFor refs' ∧ Moved n n' bce i := by
  have hmid : ∀ a, refs a = (refs a - if a = bce.oldProxyCoa then 1 else 0) +
      if a = bce.oldProxyCoa then 1 else 0 := by
    intro a
    split
    · rename_i ha
      subst ha
      omega
    · omega
  obtain ⟨hrem, hgrow⟩ := h.removeTunnel hmid
  have hlast : ∀ a, refs' a = (refs a - if a = bce.oldProxyCoa then 1 else 0) +
      if a = bce.proxyCoa then 1 else 0 := by
    intro a
    have h₁ := hrefs a
    have h₂ := hmid a
    omega
  obtain ⟨hadd, hgrow', i, hi, hidx⟩ := hrem.addTunnel hnew
    (Nat.lt_of_le_of_lt (Nat.add_le_add_right (Nat.sub_le _ _) 2) hlt) hlast .zero
  have hcount : ∀ r, n.staticRouting.count r ≤
      ((n.removeTunnel bce.oldProxyCoa).addTunnel bce.proxyCoa .zero).1.staticRouting.count r := by
    intro r
    obtain ⟨new, hs, -⟩ := (hgrow.trans hgrow').routes
    rw [hs, List.count_append]
    exact Nat.le_add_right _ _
  have hlen := Node.length_interfaces_addTunnel_le (n.removeTunnel bce.oldProxyCoa) bce.proxyCoa .zero
  rw [Node.interfaces_removeTunnel] at hlen
  have hmod := h.modifyTunnel_eq hold bce.proxyCoa .zero
  have hkept : ∀ r j, n.tunnelInterface r = some j →
      ((n.removeTunnel bce.oldProxyCoa).addTunnel bce.proxyCoa .zero).1.tunnelInterface r = some j :=
    fun r j hj => (hgrow.trans hgrow').tunnelInterface hj
  unfold modifyTunnelAndRouting
  rw [hmod]
  dsimp only
  rw [hidx]
  by_cases hne : bce.tunnelIfIndex ≠ BitVec.ofNat 16 i
  · rw [if_pos hne]
    refine ⟨_, i, rfl, hadd.withRoutes _, hi, hkept, hlen, fun a k => ?_⟩
    have hmove := NetworkRoutes.count_moveRoutes
      ((n.removeTunnel bce.oldProxyCoa).addTunnel bce.proxyCoa .zero).1.staticRouting
      bce.homeNetworkPrefixes (bce.tunnelIfIndex.zeroExtend 32) ((BitVec.ofNat 16 i).zeroExtend 32) a k
    exact Nat.le_trans (Nat.add_le_add_right (hcount _) _) hmove
  · rw [if_neg hne]
    have heq : bce.tunnelIfIndex = BitVec.ofNat 16 i := not_not.mp hne
    refine ⟨_, i, by rw [← heq], hadd, hi, hkept, hlen, fun a k => ?_⟩
    rw [heq]
    exact Nat.add_le_add_right (hcount _) _

/-! ### The tunnels are those of the entries -/

/-- The path changes the Proxy-CoA of a deregistering entry without moving its tunnel: it is
`update BCE` for an update from another gateway than the entry's. -/
def Path.TakesOver (src : Ipv6Address) : Path → Prop
  | update bce _ => bce.proxyCoa ≠ src
  | _ => False

instance (src : Ipv6Address) (path : Path) : Decidable (path.TakesOver src) :=
  match path with
  | .update _ _ => inferInstanceAs (Decidable (_ ≠ _))
  | .rejected _ | .skip | .delay _ _ | .handOff _ _ | .deregister _ _ | .foreign _ _ | .create
  | .unknown => isFalse id

/-- No deregistering entry is taken over by another gateway. The source of an update is an address,
and the entries are fewer than a device can count. -/
def KeepsTunnels (s : Timed) (e : Event) : Prop :=
  s.lma.bCache.length + 2 < 2 ^ 32 ∧
    match e with
    | .pbu src pbu => src ≠ .zero ∧ ¬ (path s.now src pbu s.lma).TakesOver src
    | .advance _ | .registerTimeout _ | .reachableTimeout _ | .deregisterTimeout _ => True

instance (s : Timed) (e : Event) : Decidable (KeepsTunnels s e) :=
  match e with
  | .pbu _ _ => inferInstanceAs (Decidable (_ ∧ _ ∧ _))
  | .advance _ | .registerTimeout _ | .reachableTimeout _ | .deregisterTimeout _ =>
    inferInstanceAs (Decidable (_ ∧ True))

/-- A delayed registration that is waited for has its tentative entry, and a tentative entry can
be taken over. -/
structure Pending (e : Entry) : Prop where
  /-- The tentative entry is there when the register timer is running. -/
  tentative : e.registerTimer ≠ none → e.tentativeEntry ≠ none
  /-- A tentative entry has a gateway. -/
  proxyCoa : ∀ temp, e.tentativeEntry = some temp → temp.proxyCoa ≠ .zero
  /-- A tentative entry has a lifetime. -/
  reachableTime : ∀ temp, e.tentativeEntry = some temp → temp.reachableTime ≠ 0

theorem pending_of_none {e : Entry} (htimer : e.registerTimer = none) (htemp : e.tentativeEntry = none) :
    Pending e := by
  refine ⟨fun hne => absurd htimer hne, fun temp ht => ?_, fun temp ht => ?_⟩ <;>
  · rw [htemp] at ht
    cases ht

/-- Readiness is a matter of the register timer and the tentative entry. -/
theorem Pending.of_eq (h : Pending e) (htimer : e'.registerTimer = e.registerTimer)
    (htemp : e'.tentativeEntry = e.tentativeEntry) : Pending e' :=
  ⟨by rw [htimer, htemp]; exact h.tentative, by rw [htemp]; exact h.proxyCoa,
    by rw [htemp]; exact h.reachableTime⟩

/-- The tunnel devices are those the entries refer to. -/
structure Tunnelled (lma : Lma) : Prop where
  /-- The devices are those of the references of the entries. -/
  tunnels : lma.node.TunnelsFor (refs lma.bCache)
  /-- Every entry is ready for its register timer. -/
  pending : ∀ e ∈ lma.bCache, Pending e

theorem Initial.tunnelled (h : lma.Initial) : lma.Tunnelled :=
  ⟨h.tunnelsFor, fun e he => by rw [h.1] at he; exact absurd he List.not_mem_nil⟩

/-- Replacing an entry by one with the same gateway leaves the tunnels right. -/
theorem Tunnelled.setEntry (h : lma.Tunnelled) (hget : lma.bCache[p]? = some e) (hcoa : e'.proxyCoa = e.proxyCoa)
    (hpend : Pending e') : (lma.setEntry p e').Tunnelled :=
  ⟨h.tunnels.congr (refs_set_of_eq hget hcoa), forall_mem_set h.pending hpend⟩

/-- Moving the tunnel of an entry to its new gateway goes through, and leaves the tunnels right. -/
theorem Tunnelled.move (h : lma.Tunnelled) (hlen : lma.bCache.length + 2 < 2 ^ 32) {e : Entry}
    (hget : lma.bCache[p]? = some e) (moving : Entry) (hold : moving.oldProxyCoa = e.proxyCoa)
    (hnew : moving.proxyCoa ≠ .zero) :
    ∃ n i, modifyTunnelAndRouting lma.node moving =
        some (n, { moving with tunnelIfIndex := BitVec.ofNat 16 i }) ∧
      Moved lma.node n moving i ∧
      ∀ e' : Entry, e'.proxyCoa = moving.proxyCoa → Pending e' →
        Tunnelled { lma.setEntry p e' with node := n } := by
  have hrefs : ∀ a, refs (lma.bCache.set p { e with proxyCoa := moving.proxyCoa }) a +
      (if a = moving.oldProxyCoa then 1 else 0) =
        refs lma.bCache a + if a = moving.proxyCoa then 1 else 0 := by
    intro a
    rw [hold]
    exact refs_set hget a
  obtain ⟨n, i, hmove, htun, hmoved⟩ := modifyTunnelAndRouting_spec h.tunnels
    (by rw [hold]; exact refs_pos hget) hnew
    (Nat.lt_of_le_of_lt (Nat.add_le_add_right (refs_le_length _ _) 2) hlen) hrefs
  refine ⟨n, i, hmove, hmoved, fun e' hcoa hpend => ⟨htun.congr fun a => ?_, forall_mem_set h.pending hpend⟩⟩
  have h₁ := hrefs a
  have h₂ : refs (lma.bCache.set p e') a + (if a = e.proxyCoa then 1 else 0) =
      refs lma.bCache a + if a = e'.proxyCoa then 1 else 0 := refs_set hget a
  rw [hold] at h₁
  rw [hcoa] at h₂
  show refs (lma.bCache.set p e') a = _
  omega

theorem refs_afterCreate (now : ℤ) (src : Ipv6Address) (pbu : Ipv6MobilityBindingUpdateHeader) (lma : Lma)
    (a : Ipv6Address) :
    refs (afterCreate now src pbu lma).bCache a = refs lma.bCache a + if a = src then 1 else 0 := by
  have hsrc : (created now src pbu lma).proxyCoa = src := rfl
  simp only [refs, afterCreate, tally_append, tally_cons, tally_nil, Nat.add_zero, hsrc, @eq_comm _ src]

/-- Steps that take over no deregistering entry keep the tunnels right. -/
theorem Tunnelled.change {now : ℤ} {lma lma' : Lma} {e : Event} (h : lma.Tunnelled)
    (hsafe : KeepsTunnels ⟨now, lma⟩ e) (hc : Change now lma e lma') : lma'.Tunnelled := by
  obtain ⟨hlen, hev⟩ := hsafe
  cases hc with
  | advance => exact h
  | idle hpath => exact h
  | @update src pbu bce p hpath =>
    obtain ⟨hsrc, hkeep⟩ := hev
    obtain ⟨hget, -⟩ := getElem?_of_path (by rw [hpath]; rfl)
    have hcoa : bce.proxyCoa = src := by
      simp only [hpath, Path.TakesOver] at hkeep
      exact not_not.mp hkeep
    exact h.setEntry hget hcoa.symm ((h.pending bce (List.mem_of_getElem? hget)).of_eq rfl rfl)
  | @delay src pbu bce p hpath =>
    obtain ⟨hget, -⟩ := getElem?_of_path (by rw [hpath]; rfl)
    have hlife := seconds_lifetime_ne_zero (lifetime_of_path hpath)
    refine h.setEntry hget rfl ⟨fun _ => Option.some_ne_none _, ?_, ?_⟩
    · rintro temp ⟨⟩
      exact hev.1
    · rintro temp ⟨⟩
      exact hlife
  | @handOff src pbu bce p n moved hpath hmove =>
    obtain ⟨hget, -⟩ := getElem?_of_path (by rw [hpath]; rfl)
    obtain ⟨n', i, hmove', -, hrest⟩ := h.move hlen hget
      { bce with toBinding := bce.toBinding.record src pbu pbu.bundle } rfl hev.1
    obtain ⟨rfl, -⟩ := Prod.mk.inj (Option.some.inj (hmove.symm.trans hmove'))
    exact hrest _ rfl ((h.pending bce (List.mem_of_getElem? hget)).of_eq rfl rfl)
  | @deregister src pbu bce p hpath =>
    obtain ⟨hget, -⟩ := getElem?_of_path (by rw [hpath]; rfl)
    exact h.setEntry hget rfl ((h.pending bce (List.mem_of_getElem? hget)).of_eq rfl rfl)
  | @create src pbu hpath =>
    obtain ⟨htun, -, -⟩ := h.tunnels.addTunnel hev.1
      (Nat.lt_of_le_of_lt (Nat.add_le_add_right (refs_le_length _ _) 2) hlen)
      (refs_afterCreate now src pbu lma) .zero
    refine ⟨htun.withRoutes _, fun e he => ?_⟩
    rcases List.mem_append.mp he with he | he
    · exact h.pending e he
    · rw [List.mem_singleton] at he
      subst he
      exact pending_of_none rfl rfl
  | @registerTimeout p bce moved temp n hget hdue htemp hlife hmove =>
    have hp := h.pending bce (List.mem_of_getElem? hget)
    obtain ⟨n', i, hmove', -, hrest⟩ := h.move hlen hget
      { bce with
        toBinding := temp.takeOver bce.toBinding
        registerTimer := .cancel
        tentativeEntry := none }
      rfl (hp.proxyCoa temp htemp)
    obtain ⟨rfl, -⟩ := Prod.mk.inj (Option.some.inj (hmove.symm.trans hmove'))
    exact hrest _ rfl (pending_of_none rfl rfl)
  | @reachableTimeout p bce hget hdue =>
    exact h.setEntry hget rfl ((h.pending bce (List.mem_of_getElem? hget)).of_eq rfl rfl)
  | @deregisterTimeout p bce hget hdue =>
    exact h.setEntry hget rfl ((h.pending bce (List.mem_of_getElem? hget)).of_eq rfl rfl)

/-- A run that takes over no deregistering entry leaves the tunnels right. -/
theorem tunnelled_of_run {s₀ s : Timed} {tr : List (Timed × Event)} (h₀ : s₀.lma.Initial)
    (hrun : machine.Run s₀ tr s) (hkeep : Machine.Meets KeepsTunnels tr) : s.lma.Tunnelled :=
  hrun.invariant (I := fun s => s.lma.Tunnelled) hkeep h₀.tunnelled
    fun _ _ _ hI hG hs => hI.change hG (change_of_step hs)

/-! ### Delayed registrations -/

/-- Whenever a register timer fires, the assertions on its way hold: the tentative entry is there,
the tunnel of the old gateway is there and counts a reference, and the function returns. -/
def DelayedRegistrationSafe (s : Timed) : Prop :=
  ∀ p bce, s.lma.bCache[p]? = some bce → bce.registerTimer = some s.now →
    (∃ temp dev d, bce.tentativeEntry = some temp ∧
      s.lma.node.getTunnelDevice (temp.takeOver bce.toBinding).oldProxyCoa = some dev ∧
      s.lma.node.tunnelList[dev]? = some d ∧ 0 < d.refCount) ∧
    (functionRegisterTimeout s.now p s.lma).isSome

theorem modifyTunnelAndRouting_isSome {n : Node} {refs : Ipv6Address → ℕ} (h : n.TunnelsFor refs)
    (bce : Entry) (hold : 0 < refs bce.oldProxyCoa) : (modifyTunnelAndRouting n bce).isSome := by
  unfold modifyTunnelAndRouting
  rw [h.modifyTunnel_eq hold]
  dsimp only
  split <;> rfl

theorem Tunnelled.delayedRegistrationSafe {s : Timed} (h : s.lma.Tunnelled) :
    DelayedRegistrationSafe s := by
  intro p bce hget hdue
  have hp := h.pending bce (List.mem_of_getElem? hget)
  obtain ⟨temp, htemp⟩ := Option.ne_none_iff_exists'.mp
    (hp.tentative (by rw [hdue]; exact Option.some_ne_none _))
  have hpos : 0 < refs s.lma.bCache bce.proxyCoa := refs_pos hget
  refine ⟨?_, ?_⟩
  · obtain ⟨dev, hdev⟩ : ∃ dev, s.lma.node.getTunnelDevice bce.proxyCoa = some dev :=
      Option.ne_none_iff_exists'.mp fun hnone =>
        Node.getTunnelDevice_eq_none_iff.mp hnone (h.tunnels.device _ hpos)
    obtain ⟨d, hd, -⟩ := (Node.getTunnelDevice_eq_some_iff h.tunnels.nodup).mp hdev
    refine ⟨temp, dev, d, htemp, hdev, hd, ?_⟩
    have hcount := h.tunnels.refCount dev d hd
    rw [UInt32.lt_iff_toNat_lt, hcount]
    simp only [UInt32.reduceToNat]
    omega
  · rw [functionRegisterTimeout_eq hget, htemp]
    dsimp only
    obtain ⟨r, hr⟩ := Option.isSome_iff_exists.mp (modifyTunnelAndRouting_isSome h.tunnels
      { bce with
        toBinding := temp.takeOver bce.toBinding
        registerTimer := .cancel
        tentativeEntry := none } hpos)
    rw [hr, Option.bind_some, if_neg (hp.reachableTime temp htemp)]
    rfl

/-- In a run that takes over no deregistering entry, a register timer never trips an assertion. -/
theorem delayed_registration_safe {s₀ s : Timed} {tr : List (Timed × Event)} (h₀ : s₀.lma.Initial)
    (hrun : machine.Run s₀ tr s) (hkeep : Machine.Meets KeepsTunnels tr) : DelayedRegistrationSafe s :=
  (tunnelled_of_run h₀ hrun hkeep).delayedRegistrationSafe

/-- The registration at B is delayed, and nothing happens until its register timer is due. -/
def delayedEvents : List Event :=
  [.pbu Small.magA (Small.update 1 60 Small.hnp 2 (Time.seconds 10)),
    .advance (Time.seconds 11),
    .pbu Small.magB (Small.update 1 60 .zero 3 (Time.seconds 11)),
    .advance (Time.milliSeconds 12500)]

theorem delayed_registration_safe_after_delay :
    ∃ out, machine.replay Small.anchor delayedEvents = some out ∧
      out.2.lma.bCache.map (·.registerTimer) = [some out.2.now] ∧ DelayedRegistrationSafe out.2 := by
  obtain ⟨out, hout, hrun, hmeets, hdue⟩ := Machine.exists_replay Small.anchor delayedEvents
    (M := machine) (P := fun out => Machine.Meets KeepsTunnels out.1 ∧
      out.2.lma.bCache.map (·.registerTimer) = [some out.2.now]) (by decide +kernel)
  exact ⟨out, hout, hdue, delayed_registration_safe (by decide) hrun hmeets⟩

/-- The registration at B is delayed; A deregisters, B repeats its update before the register timer is
due, and so takes the entry over. -/
def delayedTakeOverEvents : List Event :=
  [.pbu Small.magA (Small.update 1 60 Small.hnp 2 (Time.seconds 10)),
    .advance (Time.seconds 11),
    .pbu Small.magB (Small.update 1 60 .zero 3 (Time.seconds 11)),
    .advance (Time.milliSeconds 11500),
    .pbu Small.magA (Small.update 2 0 Small.hnp 2 (Time.milliSeconds 11500)),
    .advance (Time.milliSeconds 12000),
    .pbu Small.magB (Small.update 1 60 .zero 3 (Time.seconds 11)),
    .advance (Time.milliSeconds 12500)]

/-- Then the register timer fires without a tunnel to move. -/
theorem delayed_registration_unsafe :
    ∃ out, machine.replay Small.anchor delayedTakeOverEvents = some out ∧ Small.anchor.lma.Initial ∧
      machine.Run Small.anchor out.1 out.2 ∧ ¬ DelayedRegistrationSafe out.2 := by
  obtain ⟨out, hout, hrun, hdue, hstop⟩ := Machine.exists_replay Small.anchor delayedTakeOverEvents
    (M := machine) (P := fun out => out.2.lma.bCache.map (·.registerTimer) = [some out.2.now] ∧
      (functionRegisterTimeout out.2.now 0 out.2.lma).isSome = false) (by decide +kernel)
  refine ⟨out, hout, by decide, hrun, fun hsafe => ?_⟩
  obtain ⟨bce, hbce, htimer⟩ := List.map_eq_singleton_iff.mp hdue
  obtain ⟨-, hsome⟩ := hsafe 0 bce (by rw [hbce]; rfl) htimer
  rw [hstop] at hsome
  cases hsome

/-! ### The entries have their routes -/

/-- The forwarding of every entry is consistent: its tunnel index is the interface of the tunnel of
its Proxy-CoA, and each of its prefixes has a route through that interface. -/
def ForwardingConsistent (lma : Lma) : Prop :=
  ∀ bce ∈ lma.bCache, ∃ i, lma.node.tunnelInterface bce.proxyCoa = some i ∧ bce.tunnelIfIndex.toInt = i ∧
    ∀ hnp ∈ bce.homeNetworkPrefixes, networkRoute hnp (BitVec.ofNat 32 i) ∈ lma.node.staticRouting

/-- No deregistering entry is taken over by another gateway, and the index of one more interface
fits the `int16_t` of an entry. -/
def KeepsForwarding (s : Timed) (e : Event) : Prop :=
  KeepsTunnels s e ∧ s.lma.node.interfaces.length < 2 ^ 15
deriving Decidable

/-- The interface of the tunnel of an entry. -/
structure Via (n : Node) (e : Entry) (i : ℕ) : Prop where
  /-- It is the interface of the tunnel of the entry's gateway. -/
  tunnelInterface : n.tunnelInterface e.proxyCoa = some i
  /-- It is the index of the entry. -/
  index : e.tunnelIfIndex = BitVec.ofNat 16 i
  lt : i < 2 ^ 15

/-- The entries have the interfaces of their tunnels, and the table their routes. -/
structure Forwarded (lma : Lma) : Prop where
  /-- Every entry has the interface of its tunnel. -/
  via : ∀ e ∈ lma.bCache, ∃ i, Via lma.node e i
  /-- The table has a route for each time an entry asks for it. -/
  routes : ∀ a k, routesAsked lma.bCache a k ≤ lma.node.staticRouting.count (networkRoute a k)

theorem Initial.forwarded (h : lma.Initial) : lma.Forwarded := by
  obtain ⟨hc, -, -⟩ := h
  refine ⟨fun e he => ?_, fun a k => ?_⟩
  · rw [hc] at he
    exact absurd he List.not_mem_nil
  · rw [hc]
    exact Nat.zero_le _

theorem zeroExtend_ofNat {i : ℕ} (h : i < 2 ^ 15) :
    (BitVec.ofNat 16 i).zeroExtend 32 = BitVec.ofNat 32 i := by
  apply BitVec.eq_of_toNat_eq
  simp only [BitVec.toNat_setWidth, BitVec.toNat_ofNat]
  omega

theorem signExtend_ofNat {i : ℕ} (h : i < 2 ^ 15) :
    (BitVec.ofNat 16 i).signExtend 32 = BitVec.ofNat 32 i := by
  rw [BitVec.signExtend_eq_setWidth_of_msb_false, ← zeroExtend_ofNat h]
  rw [BitVec.msb_eq_false_iff_two_mul_lt, BitVec.toNat_ofNat]
  omega

theorem toInt_ofNat {i : ℕ} (h : i < 2 ^ 15) : (BitVec.ofNat 16 i).toInt = i := by
  rw [BitVec.toInt_eq_toNat_of_lt] <;> rw [BitVec.toNat_ofNat] <;> omega

theorem Forwarded.consistent (h : lma.Forwarded) : lma.ForwardingConsistent := by
  intro e he
  obtain ⟨i, hi, hidx, hlt⟩ := h.via e he
  refine ⟨i, hi, by rw [hidx]; exact toInt_ofNat hlt, fun a ha => ?_⟩
  have hle := le_tally (f := fun x : Entry =>
    if x.tunnelIfIndex.zeroExtend 32 = BitVec.ofNat 32 i then x.homeNetworkPrefixes.count a else 0) he
  have hpos : 0 < e.homeNetworkPrefixes.count a := List.count_pos_iff.mpr ha
  have hroutes := h.routes a (BitVec.ofNat 32 i)
  rw [hidx, zeroExtend_ofNat hlt, if_pos rfl] at hle
  exact List.count_pos_iff.mp (Nat.lt_of_lt_of_le hpos (Nat.le_trans hle hroutes))

/-- Replacing an entry by one with the same gateway, tunnel and prefixes leaves the forwarding. -/
theorem Forwarded.setEntry (h : lma.Forwarded) (hget : lma.bCache[p]? = some e) (hcoa : e'.proxyCoa = e.proxyCoa)
    (hidx : e'.tunnelIfIndex = e.tunnelIfIndex) (hhnp : e'.homeNetworkPrefixes = e.homeNetworkPrefixes) :
    (lma.setEntry p e').Forwarded := by
  obtain ⟨i, hi, hi', hlt⟩ := h.via e (List.mem_of_getElem? hget)
  refine ⟨forall_mem_set h.via ⟨i, by rw [hcoa]; exact hi, by rw [hidx]; exact hi', hlt⟩, fun a k => ?_⟩
  rw [show routesAsked (lma.setEntry p e').bCache a k = routesAsked lma.bCache a k from
    tally_set_of_eq hget (by rw [hidx, hhnp])]
  exact h.routes a k

/-- An entry whose tunnel was moved has the routes of the new tunnel. -/
theorem Forwarded.move (h : lma.Forwarded) {p i : ℕ} {e e' moving : Entry} {n : Node}
    (hlen : lma.node.interfaces.length < 2 ^ 15) (hget : lma.bCache[p]? = some e) (hm : Moved lma.node n moving i)
    (hcoa : e'.proxyCoa = moving.proxyCoa) (hidx : e'.tunnelIfIndex = BitVec.ofNat 16 i)
    (hhnp : e'.homeNetworkPrefixes = e.homeNetworkPrefixes) (hhnp' : moving.homeNetworkPrefixes = e.homeNetworkPrefixes)
    (hidx' : moving.tunnelIfIndex = e.tunnelIfIndex) : Forwarded { lma.setEntry p e' with node := n } := by
  have hlt : i < 2 ^ 15 := by
    have := Node.lt_length_of_tunnelInterface hm.tunnelInterface
    have := hm.length
    omega
  refine ⟨forall_mem_set (fun x hx => ?_) ⟨i, by rw [hcoa]; exact hm.tunnelInterface, hidx, hlt⟩,
    fun a k => ?_⟩
  · obtain ⟨j, hj, hj', hjlt⟩ := h.via x hx
    exact ⟨j, hm.kept _ _ hj, hj', hjlt⟩
  · have hset := tally_set (f := fun x : Entry =>
      if x.tunnelIfIndex.zeroExtend 32 = k then x.homeNetworkPrefixes.count a else 0) hget e'
    have hcount := hm.count a k
    have hold := h.routes a k
    rw [NetworkRoutes.count_ofPrefixes, NetworkRoutes.count_ofPrefixes, hhnp', hidx'] at hcount
    rw [hidx, hhnp] at hset
    unfold routesAsked at hold
    show tally _ (lma.bCache.set p e') ≤ n.staticRouting.count (networkRoute a k)
    omega

/-- A new entry has the interface of its tunnel and its routes. -/
theorem Forwarded.create {now : ℤ} {src : Ipv6Address} {pbu : Ipv6MobilityBindingUpdateHeader} {lma : Lma}
    (h : lma.Forwarded) (ht : lma.Tunnelled) (hsrc : src ≠ .zero)
    (hmax : lma.bCache.length + 2 < 2 ^ 32) (hlen : lma.node.interfaces.length < 2 ^ 15) :
    (afterCreate now src pbu lma).Forwarded := by
  obtain ⟨-, hgrow, i, hi, hidx⟩ := ht.tunnels.addTunnel hsrc
    (Nat.lt_of_le_of_lt (Nat.add_le_add_right (refs_le_length _ _) 2) hmax)
    (refs_afterCreate now src pbu lma) .zero
  have hlt : i < 2 ^ 15 := by
    have := Node.lt_length_of_tunnelInterface hi
    have := Node.length_interfaces_addTunnel_le lma.node src .zero
    omega
  refine ⟨fun e he => ?_, fun a k => ?_⟩
  · rcases List.mem_append.mp he with he | he
    · obtain ⟨j, hj, hj', hjlt⟩ := h.via e he
      exact ⟨j, hgrow.tunnelInterface hj, hj', hjlt⟩
    · rw [List.mem_singleton] at he
      subst he
      exact ⟨i, hi, hidx, hlt⟩
  · obtain ⟨new, hs, -⟩ := hgrow.routes
    have hold := h.routes a k
    have hstatic : (afterCreate now src pbu lma).node.staticRouting = lma.node.staticRouting ++
        new.map Node.tunnelRoute ++
        NetworkRoutes.ofPrefixes (createdPrefixes pbu lma) (BitVec.ofNat 32 i) := by
      show ((lma.node.addTunnel src .zero).1.staticRouting.addNetworkRoutesTo _ _) = _
      rw [NetworkRoutes.addNetworkRoutesTo_eq, hs, hidx, signExtend_ofNat hlt]
    have hroutes : routesAsked (afterCreate now src pbu lma).bCache a k = routesAsked lma.bCache a k +
        if BitVec.ofNat 32 i = k then (createdPrefixes pbu lma).count a else 0 := by
      show tally _ (lma.bCache ++ [created now src pbu lma]) = _
      rw [tally_append, tally_cons, tally_nil, Nat.add_zero]
      show _ + (if (lma.node.addTunnel src .zero).2.zeroExtend 32 = k then _ else 0) = _
      rw [hidx, zeroExtend_ofNat hlt]
      rfl
    rw [hstatic, hroutes, List.count_append, List.count_append, NetworkRoutes.count_ofPrefixes]
    omega

/-- Steps that take over no deregistering entry keep the forwarding. -/
theorem Forwarded.change {now : ℤ} {lma lma' : Lma} {e : Event} (h : lma.Forwarded) (ht : lma.Tunnelled)
    (hsafe : KeepsForwarding ⟨now, lma⟩ e) (hc : Change now lma e lma') : lma'.Forwarded := by
  obtain ⟨⟨hmax, hev⟩, hlen⟩ := hsafe
  cases hc with
  | advance => exact h
  | idle hpath => exact h
  | @update src pbu bce p hpath =>
    obtain ⟨hget, -⟩ := getElem?_of_path (by rw [hpath]; rfl)
    have hcoa : bce.proxyCoa = src := by
      have hkeep := hev.2
      simp only [hpath, Path.TakesOver] at hkeep
      exact not_not.mp hkeep
    exact h.setEntry hget hcoa.symm rfl rfl
  | @delay src pbu bce p hpath =>
    obtain ⟨hget, -⟩ := getElem?_of_path (by rw [hpath]; rfl)
    exact h.setEntry hget rfl rfl rfl
  | @handOff src pbu bce p n moved hpath hmove =>
    obtain ⟨hget, -⟩ := getElem?_of_path (by rw [hpath]; rfl)
    obtain ⟨n', i, hmove', hmoved, -⟩ := ht.move hmax hget
      { bce with toBinding := bce.toBinding.record src pbu pbu.bundle } rfl hev.1
    obtain ⟨rfl, rfl⟩ := Prod.mk.inj (Option.some.inj (hmove.symm.trans hmove'))
    exact h.move hlen hget hmoved rfl rfl rfl rfl rfl
  | @deregister src pbu bce p hpath =>
    obtain ⟨hget, -⟩ := getElem?_of_path (by rw [hpath]; rfl)
    exact h.setEntry hget rfl rfl rfl
  | @create src pbu hpath => exact h.create ht hev.1 hmax hlen
  | @registerTimeout p bce moved temp n hget hdue htemp hlife hmove =>
    have hp := ht.pending bce (List.mem_of_getElem? hget)
    obtain ⟨n', i, hmove', hmoved, -⟩ := ht.move hmax hget
      { bce with
        toBinding := temp.takeOver bce.toBinding
        registerTimer := .cancel
        tentativeEntry := none }
      rfl (hp.proxyCoa temp htemp)
    obtain ⟨rfl, rfl⟩ := Prod.mk.inj (Option.some.inj (hmove.symm.trans hmove'))
    exact h.move hlen hget hmoved rfl rfl rfl rfl rfl
  | @reachableTimeout p bce hget hdue => exact h.setEntry hget rfl rfl rfl
  | @deregisterTimeout p bce hget hdue => exact h.setEntry hget rfl rfl rfl

/-- In a run that takes over no deregistering entry, the forwarding of every entry is consistent. -/
theorem forwarding_consistent {s₀ s : Timed} {tr : List (Timed × Event)} (h₀ : s₀.lma.Initial)
    (hrun : machine.Run s₀ tr s) (hkeep : Machine.Meets KeepsForwarding tr) :
    s.lma.ForwardingConsistent := by
  have hinv : s.lma.Tunnelled ∧ s.lma.Forwarded :=
    hrun.invariant (I := fun s => s.lma.Tunnelled ∧ s.lma.Forwarded) hkeep
      ⟨h₀.tunnelled, h₀.forwarded⟩ fun _ _ _ hI hG hs =>
        ⟨hI.1.change hG.1 (change_of_step hs), hI.2.change hI.1 hG (change_of_step hs)⟩
  exact hinv.2.consistent

/-- A mobile node registers at A, is handed off to B and refreshes its binding there. -/
def handOffEvents : List Event :=
  [.pbu Small.magA (Small.update 1 60 Small.hnp 2 (Time.seconds 10)),
    .advance (Time.seconds 11),
    .pbu Small.magB (Small.update 1 60 Small.hnp 3 (Time.seconds 11)),
    .advance (Time.seconds 12),
    .pbu Small.magB (Small.update 2 60 Small.hnp 3 (Time.seconds 12))]

theorem forwarding_consistent_after_handOff :
    ∃ out, machine.replay Small.anchor handOffEvents = some out ∧
      out.2.lma.bCache.map (·.proxyCoa) = [Small.magB] ∧ out.2.lma.ForwardingConsistent := by
  obtain ⟨out, hout, hrun, hmeets, hcoa⟩ := Machine.exists_replay Small.anchor handOffEvents
    (M := machine) (P := fun out => Machine.Meets KeepsForwarding out.1 ∧
      out.2.lma.bCache.map (·.proxyCoa) = [Small.magB]) (by decide +kernel)
  exact ⟨out, hout, hcoa, forwarding_consistent (by decide) hrun hmeets⟩

/-- A mobile node registers at A, A deregisters it, and B takes it over. -/
def takeOverEvents : List Event :=
  [.pbu Small.magA (Small.update 1 60 Small.hnp 2 (Time.seconds 10)),
    .advance (Time.seconds 11),
    .pbu Small.magA (Small.update 2 0 Small.hnp 2 (Time.seconds 11)),
    .advance (Time.seconds 12),
    .pbu Small.magB (Small.update 1 60 Small.hnp 2 (Time.seconds 12))]

/-- Then there is no tunnel to B. -/
theorem forwarding_inconsistent :
    ∃ out, machine.replay Small.anchor takeOverEvents = some out ∧ Small.anchor.lma.Initial ∧
      machine.Run Small.anchor out.1 out.2 ∧ ¬ out.2.lma.ForwardingConsistent := by
  obtain ⟨out, hout, hrun, hcoa, hnone⟩ := Machine.exists_replay Small.anchor takeOverEvents
    (M := machine) (P := fun out => out.2.lma.bCache.map (·.proxyCoa) = [Small.magB] ∧
      out.2.lma.node.tunnelInterface Small.magB = none) (by decide +kernel)
  refine ⟨out, hout, by decide, hrun, fun hcons => ?_⟩
  obtain ⟨bce, hbce, hB⟩ := List.map_eq_singleton_iff.mp hcoa
  obtain ⟨i, hi, -⟩ := hcons bce (by rw [hbce]; exact List.mem_singleton_self bce)
  rw [hB, hnone] at hi
  cases hi

end Lma

end Ns3.Pmip6
