import Ns3.Pmip6.MagTables

/-!
# What the gateway forwards for

An entry of the binding update list that is `REACHABLE` or `REFRESHING` is active: its mobile node is
served, through a tunnel, routes and a configuration of advertisements. What is installed is compared
with what the active entries ask for, item by item.

## What is proved

`ForwardingMatches` says that an entry refers to a tunnel and to a configuration if and only if it is
active, and that every tunnel, route and advertisement is there exactly as often as the active
entries name it. `forwarding_matches` — it holds in every run whose steps all meet
`KeepsForwarding`. `not_matches_of_refreshing` — it never holds after a mobile node attaches whose
entry is `REFRESHING`: the entry is `UPDATING` then, with all that was installed in place.
`forwarding_left` is a run in which that happens.

The timers carry the proof (`Timely`): the refresh timer ends before the lifetime does, so an entry
whose lifetime runs out is `REFRESHING`, and an entry that was ever asked for is never
`UNREACHABLE`.
-/

namespace Ns3.Pmip6

open BindingUpdateList (Entry RefreshDelay)
open Lib

namespace Mag

/-! ### Items -/

/-- What can be installed for an entry. -/
inductive Item where
  /-- A reference to the tunnel of an anchor. -/
  | tunnel (remote : Ipv6Address)
  | route (t : Table) (r : NetworkRoute)
  /-- A configuration of advertisements. -/
  | advertisement (a : Advertisement)

namespace Item

/-- How often the fields of an entry name the item. -/
def named (bule : Entry) : Item → ℕ
  | tunnel remote => if bule.lmaAddress = remote then 1 else 0
  | route t r => (t.named bule).count r
  | advertisement a => if Mag.advertisement bule = a then 1 else 0

/-- How often the entry asks for the item. -/
def asked (x : Item) (bule : Entry) : ℕ := if bule.Active then x.named bule else 0

/-- How often the entries ask for the item. -/
def demand (x : Item) (mag : Mag) : ℕ := Store.tally (fun _ => x.asked) mag.buList

end Item

/-- An entry is `REACHABLE` or `REFRESHING` if and only if its tunnel, its routes and its
configuration of advertisements are installed, each exactly once. -/
structure ForwardingMatches (s₀ s : Timed) : Prop where
  /-- An entry refers to a tunnel, and to a configuration, if and only if it is active. -/
  refers : ∀ k bule, s.mag.buList.lookup k = some bule →
    (bule.Active ↔ bule.HasTunnel) ∧ (bule.Active ↔ bule.HasRadvd)
  /-- The tunnel is that of its anchor. -/
  tunnel : ∀ k bule, s.mag.buList.lookup k = some bule → bule.Active →
    ∃ i, s.mag.node.tunnelInterface bule.lmaAddress = some i ∧ bule.tunnelIfIndex.toInt = i
  /-- The tunnels are those that the entries ask for, with as many references. -/
  tunnels : s.mag.node.TunnelsFor fun remote => (Item.tunnel remote).demand s.mag
  /-- The routes are those there were at the start, those of the tunnel interfaces, and those that
  the entries ask for. -/
  routes : ∀ (t : Table) r, (t.ofMag s.mag).count r =
    (t.ofMag s₀.mag).count r + (t.ofTunnels s.mag).count r + (Item.route t r).demand s.mag
  /-- The advertisements are those there were at the start and those that the entries ask for. -/
  advertisements : ∀ a, s.mag.radvd.advertised.count a =
    s₀.mag.radvd.advertised.count a + (Item.advertisement a).demand s.mag

/-! ### The condition -/

/-- An attachment leaves the fields of an active entry that say what is installed for it, and finds
it `REACHABLE` when it sends an update. -/
def KeepsFields (pf : Pmipv6Profile.Entry) (link : Link) (bule : Entry) : Prop :=
  pf.lmaAddress = bule.lmaAddress ∧ attachedPrefixes pf bule = bule.homeNetworkPrefixes ∧
    pf.mnLinkIdentifier.octets.take 6 = bule.mnLinkIdentifier.octets.take 6 ∧
    ∀ ifIndex ∈ link.ifIndex, bule.state ≠ .refreshing ∧ BitVec.ofNat 16 ifIndex = bule.ifIndex
deriving Decidable

/-- The entry has an anchor, and its link, the next interface and the references to its tunnel can be
counted. -/
def CanSetUp (mag : Mag) (bule : Entry) : Prop :=
  bule.lmaAddress ≠ .zero ∧ 0 ≤ bule.ifIndex.toInt ∧ mag.node.interfaces.length < 2 ^ 15 ∧
    mag.buList.entries.length + 2 < 2 ^ 32
deriving Decidable

/-- What `ClearRadvdInterface` and `RemoveRoute` take out is what the fields of the entry name. -/
def Removable (mag : Mag) (bule : Entry) : Prop :=
  Clearable mag bule ∧
    (mag.radvd.getConfiguration bule.radvdIfIndex).map (·.advertisement) = some (advertisement bule)
deriving Decidable

/-- The fields of an active entry are kept, and what is set up or cleared is what they name. -/
def KeepsForwarding (s : Timed) : Event → Prop
  | .newNode sender _ link => ∀ pf ∈ s.mag.profile.lookup (.ofMac48Address sender),
      ∀ bule ∈ s.mag.buList.lookup pf.mnIdentifier, bule.Active → KeepsFields pf link bule
  | .pba message => ∀ bule ∈ acceptedEntry s.now message s.mag,
      if 0 < message.lifetime ∧ bule.state = .updating then CanSetUp s.mag bule
      else
        message.bundle.homeNetworkPrefixes = bule.homeNetworkPrefixes ∧
          (0 < message.lifetime ∨ bule.Active ∧ Removable s.mag bule)
  | .reachableTimeout mnId => ∀ bule ∈ s.mag.buList.lookup mnId, Removable s.mag bule
  | .advance _ | .setProfile _ | .otherRadvdInterface | .refreshTimeout _ | .retransTimeout _ => True

instance (s : Timed) (e : Event) : Decidable (KeepsForwarding s e) :=
  match e with
  | .newNode _ _ _ => inferInstanceAs (Decidable (∀ pf ∈ s.mag.profile.lookup _, _))
  | .pba message => inferInstanceAs (Decidable (∀ bule ∈ acceptedEntry s.now message s.mag, _))
  | .reachableTimeout mnId => inferInstanceAs (Decidable (∀ bule ∈ s.mag.buList.lookup mnId, _))
  | .advance _ | .setProfile _ | .otherRadvdInterface | .refreshTimeout _ | .retransTimeout _ => isTrue trivial

/-! ### Timers and states -/

/-- The timers and the time of the last update go with the state of an entry. -/
structure Timely (now : ℤ) (bule : Entry) : Prop where
  /-- A lifetime is running only for an active entry. -/
  active : bule.reachableTimer.isSome → bule.Active
  /-- The refresh timer is not passed, and ends before the lifetime. -/
  refresh : ∀ r, bule.refreshTimer = some r → now ≤ r ∧ ∃ d, bule.reachableTimer = some d ∧ r < d
  /-- A reachable entry is going to be refreshed. -/
  reachable : bule.state = .reachable → bule.refreshTimer.isSome
  /-- An unreachable entry is one no update was sent for. -/
  unreachable : bule.state = .unreachable → bule.lastBindingUpdateTime = 0

namespace Timely

variable {now : ℤ} {bule bule' : Entry}

/-- A new entry. -/
theorem create (now : ℤ) (mnId : Identifier) : Timely now { mnIdentifier := mnId } := by
  constructor
  · intro h
    cases h
  · intro r h
    cases h
  · intro h
    cases h
  · intro _
    rfl

theorem allowsTime (h : Timely now bule) {t : ℤ} (ht : AllowsTime bule t) : Timely t bule :=
  ⟨h.active, fun r hr => ⟨ht.1 r hr, (h.refresh r hr).2⟩, h.reachable, h.unreachable⟩

/-- A change of other fields. -/
theorem congr (h : Timely now bule) (hstate : bule'.state = bule.state)
    (hreach : bule'.reachableTimer = bule.reachableTimer) (hrefresh : bule'.refreshTimer = bule.refreshTimer)
    (htime : bule'.lastBindingUpdateTime = bule.lastBindingUpdateTime) : Timely now bule' := by
  constructor
  · rw [hreach, Entry.Active, hstate]
    exact h.active
  · rw [hrefresh, hreach]
    exact h.refresh
  · rw [hstate, hrefresh]
    exact h.reachable
  · rw [hstate, htime]
    exact h.unreachable

/-- The timers of an entry that is acknowledged. -/
theorem renewed {refresh : RefreshDelay} {pba : Ipv6MobilityBindingAckHeader} (hlife : 0 < pba.lifetime)
    (now : ℤ) (bule : Entry) : Timely now (renewed refresh now pba bule) := by
  have hpos : 0 < pba.lifetime.toNat := by simpa [UInt16.lt_iff_toNat_lt] using hlife
  constructor
  · intro _
    exact .inl rfl
  · intro r hr
    cases hr
    have hnonneg := refresh.nonneg _ hpos
    have hlt := refresh.lt _ hpos
    exact ⟨by omega, _, rfl, by omega⟩
  · intro _
    rfl
  · intro h
    cases h

/-- An entry for which an update is sent, unless it is refreshing. -/
theorem update (h : Timely now bule) (hne : bule.state ≠ .refreshing)
    (hstate : bule'.state = if bule.state = .reachable then .refreshing else .updating)
    (hreach : bule'.reachableTimer = bule.reachableTimer)
    (hrefresh : bule'.refreshTimer = bule.refreshTimer) : Timely now bule' := by
  constructor
  · intro hrun
    rw [hreach] at hrun
    rcases h.active hrun with ha | ha
    · rw [if_pos ha] at hstate
      exact .inr hstate
    · exact absurd ha hne
  · rw [hrefresh, hreach]
    exact h.refresh
  · intro ha
    rw [hstate] at ha
    split at ha <;> cases ha
  · intro ha
    rw [hstate] at ha
    split at ha <;> cases ha

/-- An entry whose lifetime runs out is refreshing, and its refresh timer has run. -/
theorem of_due (h : Timely now bule) (hdue : bule.reachableTimer = some now) :
    bule.state = .refreshing ∧ bule.refreshTimer = none := by
  have hnone : bule.refreshTimer = none := by
    cases hr : bule.refreshTimer with
    | none => rfl
    | some r =>
      obtain ⟨hle, d, hd, hlt⟩ := h.refresh r hr
      rw [hdue] at hd
      cases hd
      omega
  refine ⟨?_, hnone⟩
  rcases h.active (by rw [hdue]; rfl) with hreach | hrefresh
  · have := h.reachable hreach
    rw [hnone] at this
    cases this
  · exact hrefresh

end Timely

/-! ### Demand -/

namespace Item

variable {mag mag' : Mag} {k : Identifier} {bule bule' : Entry}

theorem demand_insert (hset : mag'.buList = mag.buList.insert k bule') (x : Item) :
    x.demand mag' + (mag.buList.lookup k).elim 0 x.asked = x.demand mag + x.asked bule' := by
  rw [demand, demand, hset]
  cases hget : mag.buList.lookup k with
  | none => rw [Option.elim_none, Nat.add_zero, Store.tally_insert_of_lookup_eq_none hget]
  | some bule => rw [Option.elim_some, Store.tally_insert (f := fun _ => x.asked) hget]

theorem demand_erase (hget : mag.buList.lookup k = some bule) (hset : mag'.buList = mag.buList.erase k)
    (x : Item) : x.demand mag' + x.asked bule = x.demand mag := by
  rw [demand, demand, hset, Store.tally_erase (f := fun _ => x.asked) hget]

theorem demand_tunnel_le (mag : Mag) (remote : Ipv6Address) :
    (tunnel remote).demand mag ≤ mag.buList.entries.length := by
  apply Store.tally_le_length
  intro k bule
  show (if bule.Active then (if bule.lmaAddress = remote then 1 else 0) else 0) ≤ 1
  split
  · split <;> omega
  · omega

/-- An entry asks for the same as long as its state and the fields that name it stay. -/
theorem asked_congr (hactive : bule'.Active ↔ bule.Active)
    (hnamed : bule.Active → ∀ x : Item, x.named bule' = x.named bule) (x : Item) : x.asked bule' = x.asked bule := by
  unfold asked
  by_cases ha : bule.Active
  · rw [if_pos ha, if_pos (hactive.mpr ha), hnamed ha]
  · rw [if_neg ha, if_neg (hactive.not.mpr ha)]

/-- The fields that name the items. -/
theorem named_congr (hlma : bule'.lmaAddress = bule.lmaAddress)
    (hhnp : bule'.homeNetworkPrefixes = bule.homeNetworkPrefixes) (hif : bule'.ifIndex = bule.ifIndex)
    (htunnel : bule'.tunnelIfIndex = bule.tunnelIfIndex)
    (hlink : bule'.mnLinkIdentifier.octets.take 6 = bule.mnLinkIdentifier.octets.take 6) (x : Item) :
    x.named bule' = x.named bule := by
  cases x with
  | tunnel remote => rw [named, named, hlma]
  | route t r => exact Table.count_named htunnel (by rw [hhnp]) hif t r
  | advertisement a =>
    have hadv : Mag.advertisement bule' = Mag.advertisement bule := by
      rw [Mag.advertisement, Mag.advertisement, hhnp, hif, hlink]
    rw [named, named, hadv]

end Item

/-! ### Steps -/

/-- The forwarding matches, and the entries are timely. -/
structure ForwardingKept (s₀ s : Timed) : Prop extends ForwardingMatches s₀ s where
  timely : ∀ k bule, s.mag.buList.lookup k = some bule → Timely s.now bule

namespace ForwardingKept

variable {s₀ s s' : Timed} {now : ℤ} {mag mag' : Mag} {k : Identifier} {bule bule' : Entry}

section

variable (h : ForwardingKept s₀ ⟨now, mag⟩)
include h

/-- Time goes on. -/
theorem advance {t : ℤ} (ht : ∀ x ∈ mag.buList.entries, AllowsTime x.2 t) : ForwardingKept s₀ ⟨t, mag⟩ := by
  refine ⟨⟨h.refers, h.tunnel, h.tunnels, h.routes, h.advertisements⟩, ?_⟩
  intro k bule hget
  exact (h.timely k bule hget).allowsTime (ht ⟨k, bule⟩ (AList.mem_lookup_iff.mp hget))

/-- A step that leaves the node, and puts an entry into the list that asks for the same. -/
theorem of_entry (hset : mag'.buList = mag.buList.insert k bule') (hnode : mag'.node = mag.node)
    (hsource : mag'.sourceRouting = mag.sourceRouting) (hradvd : mag'.radvd = mag.radvd)
    (hasked : ∀ x : Item, x.asked bule' = (mag.buList.lookup k).elim 0 x.asked)
    (hrefers : (bule'.Active ↔ bule'.HasTunnel) ∧ (bule'.Active ↔ bule'.HasRadvd))
    (htunnel : bule'.Active → ∃ i, mag.node.tunnelInterface bule'.lmaAddress = some i ∧ bule'.tunnelIfIndex.toInt = i)
    (htimely : Timely now bule') : ForwardingKept s₀ ⟨now, mag'⟩ := by
  have hdemand : ∀ x : Item, x.demand mag' = x.demand mag := by
    intro x
    have hins := Item.demand_insert hset x
    rw [hasked] at hins
    omega
  have htables := Table.congr hnode hsource
  refine ⟨⟨?_, ?_, ?_, ?_, ?_⟩, ?_⟩
  · rw [hset]
    exact Store.forall_insert h.refers hrefers
  · rw [hset, hnode]
    exact Store.forall_insert h.tunnel htunnel
  · rw [hnode]
    exact h.tunnels.congr fun a => hdemand (.tunnel a)
  · intro t r
    rw [(htables t).1, (htables t).2, hdemand]
    exact h.routes t r
  · intro a
    rw [hradvd, hdemand]
    exact h.advertisements a
  · rw [hset]
    exact Store.forall_insert h.timely htimely

/-- The forwarding of an entry without any is set up. -/
theorem setUp {refresh : RefreshDelay} {pba : Ipv6MobilityBindingAckHeader} (hget : mag.buList.lookup k = some bule)
    (hup : bule.state = .updating) (hcan : CanSetUp mag bule) (hlife : 0 < pba.lifetime) :
    ForwardingKept s₀
      ⟨now, (mag.setUp (acknowledge pba bule)).setEntry k (registered refresh now pba mag bule)⟩ := by
  obtain ⟨hlma, hif, hlen, hrefs⟩ := hcan
  have hinactive : ¬ bule.Active := Entry.not_active_of_updating hup
  have hactive : (registered refresh now pba mag bule).Active := .inl rfl
  -- each item is asked for as often more as the acknowledged entry names it
  have hdemand : ∀ x : Item,
      x.demand ((mag.setUp (acknowledge pba bule)).setEntry k (registered refresh now pba mag bule)) =
        x.demand mag + x.named (registered refresh now pba mag bule) := by
    intro x
    have hins : x.demand ((mag.setUp (acknowledge pba bule)).setEntry k (registered refresh now pba mag bule)) +
        (mag.buList.lookup k).elim 0 x.asked =
          x.demand mag + x.asked (registered refresh now pba mag bule) := Item.demand_insert rfl x
    have hzero : x.asked bule = 0 := if_neg hinactive
    have hall : x.asked (registered refresh now pba mag bule) =
        x.named (registered refresh now pba mag bule) := if_pos hactive
    rw [hget, Option.elim_some, hzero, hall] at hins
    exact hins
  have hcount : (Item.tunnel bule.lmaAddress).demand mag + 2 < 2 ^ 32 := by
    have := Item.demand_tunnel_le mag bule.lmaAddress
    omega
  have hmore : ∀ a, (Item.tunnel a).demand
      ((mag.setUp (acknowledge pba bule)).setEntry k (registered refresh now pba mag bule)) =
        (Item.tunnel a).demand mag + if a = bule.lmaAddress then 1 else 0 := by
    intro a
    rw [hdemand]
    exact congrArg (_ + ·) (if_congr eq_comm rfl rfl)
  obtain ⟨htunnels, hgrows, i, hi, hidx⟩ := h.tunnels.addTunnel hlma hcount hmore .zero
  have hindex : (registered refresh now pba mag bule).tunnelIfIndex.toInt = i := by
    have hlt : i < (mag.node.addTunnel bule.lmaAddress .zero).1.interfaces.length :=
      Node.lt_length_of_tunnelInterface hi
    have hle := mag.node.length_interfaces_addTunnel_le bule.lmaAddress .zero
    show (mag.node.addTunnel bule.lmaAddress .zero).2.toInt = i
    rw [hidx, BitVec.toInt_ofNat', Int.bmod_def]
    omega
  have htunnel : (registered refresh now pba mag bule).HasTunnel := by
    rw [Entry.HasTunnel, hindex]
    omega
  have hradvd : (registered refresh now pba mag bule).HasRadvd := by
    show 0 ≤ (bule.ifIndex.signExtend 32).toInt
    rw [BitVec.toInt_signExtend_of_le (by decide)]
    exact hif
  refine ⟨⟨?_, ?_, htunnels.withRoutes _, ?_, ?_⟩, ?_⟩
  · exact Store.forall_insert h.refers ⟨iff_of_true hactive htunnel, iff_of_true hactive hradvd⟩
  · refine Store.forall_insert ?_ fun _ => ⟨i, hi, hindex⟩
    intro k' b hb ha
    obtain ⟨j, hj, hjdx⟩ := h.tunnel k' b hb ha
    exact ⟨j, hgrows.tunnelInterface hj, hjdx⟩
  · intro t r
    have hnet := Table.net_setUp t mag (acknowledge pba bule) r
    have hold : (t.ofMag mag).count r =
        (t.ofMag s₀.mag).count r + (t.ofTunnels mag).count r + (Item.route t r).demand mag := h.routes t r
    have hnamed : (Item.route t r).named (registered refresh now pba mag bule) =
        (t.newRoutes mag (acknowledge pba bule)).count r := by
      cases t <;> rfl
    have htables : t.ofMag ((mag.setUp (acknowledge pba bule)).setEntry k (registered refresh now pba mag bule)) =
        t.ofMag (mag.setUp (acknowledge pba bule)) ∧
        t.ofTunnels ((mag.setUp (acknowledge pba bule)).setEntry k (registered refresh now pba mag bule)) =
        t.ofTunnels (mag.setUp (acknowledge pba bule)) := by
      cases t <;> exact ⟨rfl, rfl⟩
    rw [htables.1, htables.2, hdemand, hnamed]
    unfold Table.net at hnet
    omega
  · intro a
    have hold : mag.radvd.advertised.count a =
        s₀.mag.radvd.advertised.count a + (Item.advertisement a).demand mag := h.advertisements a
    have hadd := UnicastRadvd.count_advertised_addConfiguration mag.radvd
      ⟨mag.idGen, advertisement (acknowledge pba bule)⟩ a
    rw [hdemand]
    refine hadd.trans ?_
    rw [hold, Nat.add_assoc]
    rfl
  · exact Store.forall_insert h.timely ((Timely.renewed hlife now bule).congr rfl rfl rfl rfl)

/-- What an active entry asks for is cleared, and the entry does not ask for it any longer. -/
theorem clear (hrem : Removable mag bule) (hnode : mag'.node = (mag.clearTunnel bule).node)
    (hsource : mag'.sourceRouting = (mag.clearTunnel bule).sourceRouting)
    (hradvd : mag'.radvd = mag.radvd.removeConfiguration bule.radvdIfIndex)
    (hdemand : ∀ x : Item, x.demand mag' + x.named bule = x.demand mag)
    (hentries : ∀ k' b, mag'.buList.lookup k' = some b → mag.buList.lookup k' = some b ∨
      ¬ b.Active ∧ ¬ b.HasTunnel ∧ ¬ b.HasRadvd ∧ Timely now b) :
    ForwardingKept s₀ ⟨now, mag'⟩ := by
  obtain ⟨hclear, hconf⟩ := hrem
  have hless : ∀ a, (Item.tunnel a).demand mag =
      (Item.tunnel a).demand mag' + if a = bule.lmaAddress then 1 else 0 := by
    intro a
    rw [← hdemand]
    exact congrArg (_ + ·) (if_congr eq_comm rfl rfl)
  obtain ⟨htunnels, hgrows⟩ := (h.tunnels.withRoutes
    (mag.node.staticRouting.removeRoutes bule.homeNetworkPrefixes (bule.ifIndex.signExtend 32))).removeTunnel hless
  have hgone : (mag.clearTunnel bule).node = ({ mag.node with
      staticRouting := mag.node.staticRouting.removeRoutes bule.homeNetworkPrefixes
        (bule.ifIndex.signExtend 32) } : Node).removeTunnel bule.lmaAddress := rfl
  have htables : ∀ t : Table, t.ofMag mag' = t.ofMag (mag.clearTunnel bule) ∧
      t.ofTunnels mag' = t.ofTunnels mag := by
    intro t
    obtain ⟨htable, hroutes⟩ := t.congr hnode hsource
    exact ⟨htable, hroutes.trans (t.ofTunnels_clearTunnel mag bule)⟩
  refine ⟨⟨?_, ?_, ?_, ?_, ?_⟩, ?_⟩
  · intro k' b hb
    rcases hentries k' b hb with hb | ⟨ha, ht, hr, -⟩
    · exact h.refers k' b hb
    · exact ⟨iff_of_false ha ht, iff_of_false ha hr⟩
  · intro k' b hb ha
    rcases hentries k' b hb with hb | ⟨hno, -⟩
    · obtain ⟨j, hj, hjdx⟩ := h.tunnel k' b hb ha
      refine ⟨j, ?_, hjdx⟩
      rw [hnode, hgone]
      exact hgrows.tunnelInterface hj
    · exact absurd ha hno
  · rw [hnode, hgone]
    exact htunnels
  · intro t r
    have hold : (t.ofMag mag).count r =
        (t.ofMag s₀.mag).count r + (t.ofTunnels mag).count r + (Item.route t r).demand mag := h.routes t r
    have hd : (Item.route t r).demand mag' + (t.named bule).count r = _ := hdemand (.route t r)
    rw [(htables t).1, (htables t).2, Table.count_clearTunnel t hclear]
    dsimp only
    omega
  · intro a
    have hold : mag.radvd.advertised.count a =
        s₀.mag.radvd.advertised.count a + (Item.advertisement a).demand mag := h.advertisements a
    have hd : (Item.advertisement a).demand mag' + (if advertisement bule = a then 1 else 0) = _ :=
      hdemand (.advertisement a)
    obtain ⟨uri, hfind, huri⟩ := Option.map_eq_some_iff.mp hconf
    have hremove := UnicastRadvd.count_advertised_removeConfiguration hfind a
    rw [huri] at hremove
    rw [hradvd]
    dsimp only
    omega
  · intro k' b hb
    rcases hentries k' b hb with hb | ⟨-, -, -, ht⟩
    · exact h.timely k' b hb
    · exact ht

/-- A new entry that is not active. -/
theorem create (hget : mag.buList.lookup k = none) (sequence : UInt16) (hinactive : ¬ bule'.Active)
    (htunnel : bule'.tunnelIfIndex = -1) (hradvd : bule'.radvdIfIndex = -1) (htimely : Timely now bule') :
    ForwardingKept s₀ ⟨now, { mag.setEntry k bule' with sequence := sequence }⟩ := by
  refine h.of_entry rfl rfl rfl rfl ?_ ?_ ?_ ?_
  · intro x
    rw [hget, Option.elim_none]
    exact if_neg hinactive
  · exact ⟨iff_of_false hinactive (Entry.not_hasTunnel htunnel),
      iff_of_false hinactive (Entry.not_hasRadvd hradvd)⟩
  · intro ha
    exact absurd ha hinactive
  · exact htimely

/-- An entry that keeps what it refers to and, if it is active, the fields that name what is installed
for it. -/
theorem keep (hget : mag.buList.lookup k = some bule) (sequence : UInt16) (hactive : bule'.Active ↔ bule.Active)
    (htunnel : bule'.tunnelIfIndex = bule.tunnelIfIndex) (hradvd : bule'.radvdIfIndex = bule.radvdIfIndex)
    (hfields : bule.Active → bule'.lmaAddress = bule.lmaAddress ∧
      bule'.homeNetworkPrefixes = bule.homeNetworkPrefixes ∧ bule'.ifIndex = bule.ifIndex ∧
        bule'.mnLinkIdentifier.octets.take 6 = bule.mnLinkIdentifier.octets.take 6)
    (htimely : Timely now bule') : ForwardingKept s₀ ⟨now, { mag.setEntry k bule' with sequence := sequence }⟩ := by
  refine h.of_entry rfl rfl rfl rfl ?_ ?_ ?_ ?_
  · intro x
    rw [hget, Option.elim_some]
    apply Item.asked_congr hactive
    intro ha
    obtain ⟨hlma, hhnp, hif, hlink⟩ := hfields ha
    exact Item.named_congr hlma hhnp hif htunnel hlink
  · obtain ⟨hrt, hrr⟩ := h.refers k bule hget
    rw [hactive, Entry.hasTunnel_congr htunnel, Entry.HasRadvd, hradvd]
    exact ⟨hrt, hrr⟩
  · intro ha
    obtain ⟨i, hi, hidx⟩ := h.tunnel k bule hget (hactive.mp ha)
    rw [(hfields (hactive.mp ha)).1, htunnel]
    exact ⟨i, hi, hidx⟩
  · exact htimely

/-- A mobile node attaches to a device without interface. -/
theorem attach {pf : Pmipv6Profile.Entry} {link : Link} (att : UInt8)
    (hkeep : ∀ bule ∈ mag.buList.lookup pf.mnIdentifier, bule.Active → KeepsFields pf link bule) :
    ForwardingKept s₀ ⟨now, mag.setEntry pf.mnIdentifier (attach pf att link (mag.entryFor pf))⟩ := by
  rw [attach_eq]
  cases hget : mag.buList.lookup pf.mnIdentifier with
  | none =>
    rw [entryFor, hget, Option.getD_none]
    refine h.create hget mag.sequence ?_ ?_ ?_ ?_
    · rintro (ha | ha) <;> cases ha
    · rfl
    · rfl
    · exact (Timely.create now pf.mnIdentifier).congr rfl rfl rfl rfl
  | some bule =>
    rw [entryFor, hget, Option.getD_some]
    refine h.keep hget mag.sequence Iff.rfl rfl rfl ?_ ?_
    · intro ha
      obtain ⟨hlma, hhnp, hlink, -⟩ := hkeep bule hget ha
      exact ⟨hlma, hhnp, rfl, hlink⟩
    · exact (h.timely _ bule hget).congr rfl rfl rfl rfl

/-- A mobile node attaches, and an update is sent for it. -/
theorem update {pf : Pmipv6Profile.Entry} {link : Link} {ifIndex : ℕ} (att : UInt8)
    (hlink : link.ifIndex = some ifIndex)
    (hkeep : ∀ bule ∈ mag.buList.lookup pf.mnIdentifier, bule.Active → KeepsFields pf link bule) :
    ForwardingKept s₀ ⟨now, { mag.setEntry pf.mnIdentifier
      (update now ifIndex (mag.sequence + 1) (Mag.attach pf att link (mag.entryFor pf))) with
        sequence := mag.sequence + 1 }⟩ := by
  rw [update_eq, attach_eq]
  cases hget : mag.buList.lookup pf.mnIdentifier with
  | none =>
    rw [entryFor, hget, Option.getD_none]
    refine h.create hget (mag.sequence + 1) ?_ ?_ ?_ ?_
    · rintro (ha | ha) <;> cases ha
    · rfl
    · rfl
    · refine (Timely.create now pf.mnIdentifier).update ?_ rfl rfl rfl
      intro ha
      cases ha
  | some bule =>
    rw [entryFor, hget, Option.getD_some]
    have hne : bule.state ≠ .refreshing := by
      intro hr
      exact ((hkeep bule hget (.inr hr)).2.2.2 ifIndex hlink).1 hr
    refine h.keep hget (mag.sequence + 1) ?_ ?_ ?_ ?_ ?_
    · unfold Entry.Active
      dsimp only
      by_cases ha : bule.state = .reachable
      · simp [ha]
      · simp [ha, hne]
    · rfl
    · rfl
    · intro ha
      obtain ⟨hlma, hhnp, hid, hif⟩ := hkeep bule hget ha
      exact ⟨hlma, hhnp, (hif ifIndex hlink).2, hid⟩
    · exact (h.timely _ bule hget).update hne rfl rfl rfl

theorem renew {refresh : RefreshDelay} {pba : Ipv6MobilityBindingAckHeader}
    (hacc : acceptedEntry now pba mag = some bule) (hlife : 0 < pba.lifetime) (hup : bule.state ≠ .updating)
    (hhnp : pba.bundle.homeNetworkPrefixes = bule.homeNetworkPrefixes) :
    ForwardingKept s₀ ⟨now, mag.setEntry pba.bundle.mnIdentifier (renewed refresh now pba bule)⟩ := by
  obtain ⟨hget, htime⟩ := acceptedEntry_spec hacc
  have hactive : bule.Active := by
    cases hstate : bule.state with
    | unreachable => exact absurd ((h.timely _ bule hget).unreachable hstate) htime
    | updating => exact absurd hstate hup
    | refreshing => exact .inr hstate
    | reachable => exact .inl hstate
  refine h.keep hget mag.sequence ?_ rfl rfl ?_ (Timely.renewed hlife now bule)
  · exact iff_of_true (.inl rfl) hactive
  · intro _
    exact ⟨rfl, hhnp, rfl, rfl⟩

section

variable (hget : mag.buList.lookup k = some bule)
include hget

/-- An acknowledgement without lifetime takes an active entry out. -/
theorem deregister {pba : Ipv6MobilityBindingAckHeader} (hactive : bule.Active)
    (hrem : Removable mag bule) (hhnp : pba.bundle.homeNetworkPrefixes = bule.homeNetworkPrefixes) :
    ForwardingKept s₀ ⟨now, { (mag.clearRadvd bule).clearTunnel (acknowledge pba bule) with
      buList := mag.buList.erase k }⟩ := by
  refine h.clear hrem ?_ ?_ rfl ?_ ?_
  · simp only [clearTunnel, clearTunnelAndRouting, acknowledge, hhnp]
    rfl
  · simp only [clearTunnel, clearTunnelAndRouting, acknowledge, hhnp]
    rfl
  · intro x
    have herase : x.demand { (mag.clearRadvd bule).clearTunnel (acknowledge pba bule) with
        buList := mag.buList.erase k } + x.asked bule = x.demand mag := Item.demand_erase hget rfl x
    have hasked : x.asked bule = x.named bule := if_pos hactive
    rw [← hasked]
    exact herase
  · intro k' b hb
    exact .inl (Store.lookup_erase_some hb).2

/-- The refresh timer of an entry has run. -/
theorem refreshTimeout (hdue : bule.refreshTimer = some now)
    (sequence : UInt16) :
    ForwardingKept s₀ ⟨now, { mag.setEntry k (refreshEntry now sequence bule) with sequence := sequence }⟩ := by
  obtain ⟨pbu, hpbu⟩ := refreshEntry_eq now sequence bule
  obtain ⟨-, d, hd, -⟩ := (h.timely k bule hget).refresh now hdue
  have hactive : bule.Active := (h.timely k bule hget).active (by rw [hd]; rfl)
  rw [hpbu]
  refine h.keep hget sequence ?_ rfl rfl ?_ ?_
  · exact iff_of_true (.inr rfl) hactive
  · intro _
    exact ⟨rfl, rfl, rfl, rfl⟩
  · constructor
    · intro _
      exact .inr rfl
    · intro r hr
      cases hr
    · intro hr
      cases hr
    · intro hr
      cases hr

/-- The lifetime of an entry has run out. -/
theorem expire (hdue : bule.reachableTimer = some now)
    (hrem : Removable mag bule) : ForwardingKept s₀ ⟨now, (mag.clearExpired bule).setEntry k (expired bule)⟩ := by
  obtain ⟨hstate, hrefresh⟩ := (h.timely k bule hget).of_due hdue
  have hactive : bule.Active := .inr hstate
  obtain ⟨hrt, hrr⟩ := h.refers k bule hget
  have htunnel : bule.HasTunnel := hrt.mp hactive
  have hradvd : bule.HasRadvd := hrr.mp hactive
  obtain ⟨-, hnode, hsource⟩ := clearExpired_of_hasTunnel mag htunnel
  have hconf := (clearExpired_spec mag bule).2
  rw [if_pos hradvd] at hconf
  have hset := buList_expired mag k bule
  have hupdating : (expired bule).state = .updating := by
    show unmarked bule.state = .updating
    rw [hstate]
    rfl
  have hinactive : ¬ (expired bule).Active := Entry.not_active_of_updating hupdating
  refine h.clear hrem hnode hsource hconf ?_ ?_
  · intro x
    have hins := Item.demand_insert hset x
    have hnow : x.asked bule = x.named bule := if_pos hactive
    have hthen : x.asked (expired bule) = 0 := if_neg hinactive
    rw [hget, Option.elim_some, hnow, hthen] at hins
    exact hins
  · intro k' b hb
    rw [hset] at hb
    rcases Store.lookup_insert_some hb with ⟨rfl, rfl⟩ | ⟨-, hb⟩
    · refine .inr ⟨hinactive, ?_, ?_, ?_⟩
      · exact Entry.not_hasTunnel (by rw [expired, if_pos htunnel])
      · exact Entry.not_hasRadvd (by rw [expired, if_pos hradvd])
      · constructor
        · intro hr
          cases hr
        · intro r hr
          rw [show (expired bule).refreshTimer = none from hrefresh] at hr
          cases hr
        · intro hr
          rw [hr] at hupdating
          cases hupdating
        · intro hr
          rw [hr] at hupdating
          cases hupdating
    · exact .inl hb

end

end

/-- A step that keeps what the entries name keeps what is installed. -/
theorem step {refresh : RefreshDelay} {e : Event} (h : ForwardingKept s₀ s) (hkeep : KeepsForwarding s e)
    (hs : (machine refresh).Step s e s') : ForwardingKept s₀ s' := by
  have hc := change_of_step hs
  obtain ⟨now, mag⟩ := s
  obtain ⟨now', mag'⟩ := s'
  rcases now_of_step hs with hnow | ⟨hmag, htime⟩
  · obtain rfl : now' = now := hnow
    cases hc with
    | advance | setProfile | otherRadvdInterface | unknown | ignore =>
      exact ⟨⟨h.refers, h.tunnel, h.tunnels, h.routes, h.advertisements⟩, h.timely⟩
    | @attach sender att link pf hpf hlink =>
      simp only [KeepsForwarding, hpf, Option.mem_def, Option.some.injEq, forall_eq'] at hkeep
      exact h.attach att hkeep
    | @update sender att link pf ifIndex hpf hlink =>
      simp only [KeepsForwarding, hpf, Option.mem_def, Option.some.injEq, forall_eq'] at hkeep
      exact h.update att hlink hkeep
    | @register pba bule hacc hlife hup =>
      have hcan := hkeep bule hacc
      rw [if_pos ⟨hlife, hup⟩] at hcan
      exact h.setUp (acceptedEntry_spec hacc).1 hup hcan hlife
    | @renew pba bule hacc hlife hup =>
      have hsame := hkeep bule hacc
      rw [if_neg fun hx => hup hx.2] at hsame
      exact h.renew hacc hlife hup hsame.1
    | @deregister pba bule hacc hlife =>
      have hsame := hkeep bule hacc
      rw [if_neg fun hx => hlife hx.1] at hsame
      obtain ⟨hhnp, hrem⟩ := hsame
      obtain ⟨hactive, hrem⟩ := hrem.resolve_left hlife
      exact h.deregister (acceptedEntry_spec hacc).1 hactive hrem hhnp
    | @refreshTimeout mnId bule hget hdue => exact h.refreshTimeout hget hdue (mag.sequence + 1)
    | @reachableTimeout mnId bule hget hdue => exact h.expire hget hdue (hkeep bule hget)
    | @retransTimeout mnId bule t n hget =>
      refine h.keep hget mag.sequence Iff.rfl rfl rfl ?_ ?_
      · intro _
        exact ⟨rfl, rfl, rfl, rfl⟩
      · exact (h.timely _ bule hget).congr rfl rfl rfl rfl
  · obtain rfl : mag' = mag := hmag
    exact h.advance htime

end ForwardingKept

/-- The condition on attachments is needed: an update that is sent for an entry that is refreshing
always breaks the match. -/
theorem not_matches_of_refreshing {refresh : RefreshDelay} {s₀ s s' : Timed} {sender : Mac48Address}
    {att : UInt8} {link : Link} {pf : Pmipv6Profile.Entry} {ifIndex : ℕ} {bule : Entry}
    (h : ForwardingMatches s₀ s) (hpf : s.mag.profile.lookup (.ofMac48Address sender) = some pf)
    (hlink : link.ifIndex = some ifIndex) (hget : s.mag.buList.lookup pf.mnIdentifier = some bule)
    (hstate : bule.state = .refreshing) (hs : (machine refresh).Step s (.newNode sender att link) s') :
    ¬ ForwardingMatches s₀ s' := by
  intro hmatch
  have hentry : s.mag.entryFor pf = bule := by rw [entryFor, hget, Option.getD_some]
  have htunnel : bule.HasTunnel := (h.refers _ bule hget).1.mp (.inr hstate)
  have hafter : s'.mag.buList.lookup pf.mnIdentifier =
      some (update s.now ifIndex (s.mag.sequence + 1) (attach pf att link bule)) := by
    obtain rfl := Option.some.inj hs.2
    simp only [handleNewNode, hpf, hlink]
    rw [AList.lookup_insert, ← hentry, entryFor]
  have hupdating : (update s.now ifIndex (s.mag.sequence + 1) (attach pf att link bule)).state =
      .updating := by
    rw [update_eq, attach_eq]
    simp [hstate]
  refine Entry.not_active_of_updating hupdating ((hmatch.refers _ _ hafter).1.mpr ?_)
  refine (Entry.hasTunnel_congr ?_).mpr htunnel
  rw [update_eq, attach_eq]

/-- In every run whose steps keep what the entries name, an entry is reachable or refreshing if and
only if its forwarding is installed, and that is installed once. -/
theorem forwarding_matches {refresh : RefreshDelay} {s₀ s : Timed} {tr : List (Timed × Event)}
    (h₀ : s₀.mag.buList = ∅ ∧ s₀.mag.node.tunnelList = [] ∧ ∀ i, .tunnel i ∉ s₀.mag.node.interfaces)
    (hrun : (machine refresh).Run s₀ tr s) (hkeep : Machine.Meets KeepsForwarding tr) :
    ForwardingMatches s₀ s := by
  obtain ⟨hlist, htunnels, hinterfaces⟩ := h₀
  have hempty : ∀ (P : Identifier → Entry → Prop) k bule, s₀.mag.buList.lookup k = some bule → P k bule := by
    intro P k bule hget
    rw [hlist, AList.lookup_empty] at hget
    cases hget
  have hdemand : ∀ x : Item, x.demand s₀.mag = 0 := by
    intro x
    rw [Item.demand, hlist, Store.tally_empty]
  have hnone : ∀ t : Table, t.ofTunnels s₀.mag = [] := by
    intro t
    cases t with
    | routes => exact Node.tunnelRoutes_eq_nil hinterfaces
    | sourceRoutes => rfl
  have hstart : ForwardingKept s₀ s₀ := by
    refine ⟨⟨hempty _, hempty _, ?_, ?_, ?_⟩, hempty _⟩
    · exact (Node.tunnelsFor_nil htunnels hinterfaces).congr fun a => hdemand (.tunnel a)
    · intro t r
      rw [hnone, hdemand]
      rfl
    · intro a
      rw [hdemand]
      rfl
  exact (hrun.invariant hkeep hstart fun s e s' hI hG hs => hI.step hG hs).toForwardingMatches

/-- A mobile node is registered, attaches to the same link again, is refreshed, and its lifetime runs
out. -/
def refreshedEvents : List Event :=
  [Small.attachTo 1, Small.ack 1 1 Small.hnp (Time.seconds 10), Small.attachTo 1,
    Small.ack 2 1 Small.hnp (Time.seconds 10), .advance (Time.milliSeconds 10900), .refreshTimeout Small.mn,
    .advance (Time.seconds 11), .reachableTimeout Small.mn]

theorem forwarding_matches_when_refreshed :
    ∃ out, (machine Small.tenthShort).replay Small.gateway refreshedEvents = some out ∧
      ForwardingMatches Small.gateway out.2 := by
  obtain ⟨out, hout, hrun, hkeep⟩ := Machine.exists_replay Small.gateway refreshedEvents
    (M := machine Small.tenthShort) (P := fun out => Machine.Meets KeepsForwarding out.1) (by decide +kernel)
  exact ⟨out, hout, forwarding_matches ⟨rfl, rfl, by simp [Small.gateway]⟩ hrun hkeep⟩

/-- A registered mobile node attaches again before it is acknowledged. -/
def reattachedEvents : List Event :=
  [Small.attachTo 1, Small.ack 1 60 Small.hnp (Time.seconds 10), Small.attachTo 1, Small.attachTo 1]

/-- Then its entry is updating, and its forwarding is installed. -/
theorem forwarding_left :
    ∃ out, (machine Small.tenthShort).replay Small.gateway reattachedEvents = some out ∧
      (machine Small.tenthShort).Run Small.gateway out.1 out.2 ∧
      (∃ bule, out.2.mag.buList.lookup Small.mn = some bule ∧ bule.state = .updating ∧
        bule.HasTunnel ∧ bule.HasRadvd) ∧
      networkRoute Small.hnp 1 ∈ out.2.mag.node.staticRouting ∧
      ¬ ForwardingMatches Small.gateway out.2 := by
  obtain ⟨out, hout, hrun, hentry, hroute⟩ := Machine.exists_replay Small.gateway reattachedEvents
    (M := machine Small.tenthShort) (P := fun out =>
      (out.2.mag.buList.lookup Small.mn).any (fun bule => bule.state = .updating ∧ bule.HasTunnel ∧ bule.HasRadvd) ∧
      networkRoute Small.hnp 1 ∈ out.2.mag.node.staticRouting) (by decide +kernel)
  obtain ⟨bule, hget, hbule⟩ := (Option.any_eq_true _ _).mp hentry
  obtain ⟨hup, htunnel, hradvd⟩ := of_decide_eq_true hbule
  refine ⟨out, hout, hrun, ⟨bule, hget, hup, htunnel, hradvd⟩, hroute, ?_⟩
  intro hmatch
  exact Entry.not_active_of_updating hup ((hmatch.refers Small.mn bule hget).1.mpr htunnel)

end Mag

end Ns3.Pmip6
