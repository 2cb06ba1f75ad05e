import Ns3.Pmip6.Mag

/-!
# What the gateway can do in one step

`acceptedEntry` is the entry an acknowledgement is accepted for, if it is: a function of the
acknowledgement and of the state before it, as is the entry an attachment is about. The conditions
under which a property of the gateway holds are stated with them.

## What is proved

* `handlePba_eq`, `acceptPba_eq` — what `HandlePba` leaves, for each of its ways.
* `Change` — the ways an event changes the gateway, with what is known where it happens;
  `change_of_step` says that there are no others. The invariants of the gateway are proved by
  cases on it.
-/

namespace Ns3.Pmip6

open BindingUpdateList (Entry RefreshDelay)

namespace Mag

variable {refresh : RefreshDelay} {now : ℤ} {mag mag' : Mag} {bule : Entry} {mnId : Identifier}
  {pba : Ipv6MobilityBindingAckHeader}

/-! ### Entries -/

/-- The entry `HandleNewNode` works on for a profile: the one there is, or a new one. -/
def entryFor (mag : Mag) (pf : Pmipv6Profile.Entry) : Entry :=
  (mag.buList.lookup pf.mnIdentifier).getD { mnIdentifier := pf.mnIdentifier }

/-- The prefixes of an entry after an attachment. -/
def attachedPrefixes (pf : Pmipv6Profile.Entry) (bule : Entry) : List Ipv6Address :=
  if 0 < pf.homeNetworkPrefixes.length then pf.homeNetworkPrefixes else bule.homeNetworkPrefixes

/-- The fields an attachment writes. -/
theorem attach_eq (pf : Pmipv6Profile.Entry) (att : UInt8) (link : Link) (bule : Entry) :
    attach pf att link bule =
      { bule with
        accessTechnologyType := att
        mnLinkIdentifier := pf.mnLinkIdentifier
        lmaAddress := pf.lmaAddress
        homeNetworkPrefixes := attachedPrefixes pf bule
        handoffIndicator := optHiHandoffStateUnknown
        magLinkAddress :=
          if link.linkLocalAddress.isAny then bule.magLinkAddress else link.linkLocalAddress } := by
  unfold attach attachedPrefixes
  by_cases hlen : 0 < pf.homeNetworkPrefixes.length <;> by_cases hany : link.linkLocalAddress.isAny <;>
    simp [hlen, hany]

/-- The update that is sent for an attachment. -/
def attachPbu (now : ℤ) (ifIndex : ℕ) (sequence : UInt16) (bule : Entry) : Ipv6MobilityBindingUpdateHeader :=
  buildPbu { bule with
    ifIndex := BitVec.ofNat 16 ifIndex
    lastBindingUpdateSequence := sequence
    lastBindingUpdateTime := Time.cutToMicroSeconds now }

theorem update_eq (now : ℤ) (ifIndex : ℕ) (sequence : UInt16) (bule : Entry) :
    update now ifIndex sequence bule =
      { bule with
        ifIndex := BitVec.ofNat 16 ifIndex
        lastBindingUpdateSequence := sequence
        lastBindingUpdateTime := Time.cutToMicroSeconds now
        pktPbu := some (attachPbu now ifIndex sequence bule)
        retryCount := 0
        retransTimer := Timer.schedule now
          (Time.milliSeconds Ipv6MobilityL4Protocol.initialBindingAckTimeoutFirstreg)
        state := if bule.state = .reachable then .refreshing else .updating } := by
  by_cases hr : bule.state = .reachable
  · simp [update, attachPbu, Entry.startRetransTimer, Entry.isReachable, Entry.markRefreshing, hr]
  · simp [update, attachPbu, Entry.startRetransTimer, Entry.isReachable, Entry.markUpdating, hr]

/-- The entry an acknowledgement is accepted for. -/
def acceptedEntry (now : ℤ) (pba : Ipv6MobilityBindingAckHeader) (mag : Mag) : Option Entry :=
  if ignores now pba.bundle then none
  else (mag.buList.lookup pba.bundle.mnIdentifier).filter fun bule =>
    bule.Recorded pba.sequence pba.bundle.timestamp ∧
      pba.status = BAStatus.bindingUpdateAccepted.code

/-- The entry after an acknowledgement with a lifetime, with its forwarding as it was. -/
def renewed (refresh : RefreshDelay) (now : ℤ) (pba : Ipv6MobilityBindingAckHeader) (bule : Entry) : Entry :=
  { acknowledge pba bule with
    state := .reachable
    refreshTimer := Timer.schedule now (refresh.delay (Time.seconds pba.lifetime.toNat))
    reachableTimer := Timer.schedule now (Time.seconds pba.lifetime.toNat) }

/-- The entry after an acknowledgement with a lifetime, with its forwarding set up. -/
def registered (refresh : RefreshDelay) (now : ℤ) (pba : Ipv6MobilityBindingAckHeader) (mag : Mag)
    (bule : Entry) : Entry :=
  { renewed refresh now pba bule with
    radvdIfIndex := bule.ifIndex.signExtend 32
    tunnelIfIndex := (mag.node.addTunnel bule.lmaAddress .zero).2 }

/-- The index of the interface that `AddTunnel` takes fits `int16_t`. -/
def TunnelIndexFits (mag : Mag) (bule : Entry) : Prop :=
  mag.node.interfaceFor bule.lmaAddress % 2 ^ 16 < 2 ^ 15
deriving Decidable

theorem hasTunnel_registered (refresh : RefreshDelay) (now : ℤ) (pba : Ipv6MobilityBindingAckHeader)
    (mag : Mag) (bule : Entry) :
    (registered refresh now pba mag bule).HasTunnel ↔ TunnelIndexFits mag bule := by
  show 0 ≤ (mag.node.addTunnel bule.lmaAddress .zero).2.toInt ↔ _
  rw [Node.addTunnel_snd, TunnelIndexFits, BitVec.toInt_ofNat', Int.bmod_def]
  omega

/-- The state after the lifetime has run out. -/
def unmarked : BindingUpdateList.State → BindingUpdateList.State
  | .reachable => .unreachable
  | .refreshing | .updating => .updating
  | .unreachable => .unreachable

theorem unmark_eq (bule : Entry) : unmark bule = { bule with state := unmarked bule.state } := by
  obtain ⟨state⟩ := bule
  cases state <;> rfl

/-- The entry after its lifetime has run out. -/
def expired (bule : Entry) : Entry :=
  { bule with
    state := unmarked bule.state
    reachableTimer := .cancel
    radvdIfIndex := if bule.HasRadvd then -1 else bule.radvdIfIndex
    tunnelIfIndex := if bule.HasTunnel then -1 else bule.tunnelIfIndex }

/-! ### What is done to the node -/

/-- The forwarding of `bule` is set up. -/
def setUp (mag : Mag) (bule : Entry) : Mag :=
  ((mag.setupRadvdInterface bule).1.setupTunnelAndRouting bule).1

/-- The configuration of `bule` is removed. -/
def clearRadvd (mag : Mag) (bule : Entry) : Mag := (mag.clearRadvdInterface bule).1

/-- The tunnel and the routes of `bule` are removed. -/
def clearTunnel (mag : Mag) (bule : Entry) : Mag := (mag.clearTunnelAndRouting bule).1

/-- What is left when the lifetime of `bule` has run out. -/
def clearExpired (mag : Mag) (bule : Entry) : Mag :=
  let mag := if bule.HasRadvd then mag.clearRadvd bule else mag
  if bule.HasTunnel then mag.clearTunnel bule else mag

/-- Clearing takes the configuration out if there is one, and leaves the list. -/
theorem clearExpired_spec (mag : Mag) (bule : Entry) :
    (mag.clearExpired bule).buList = mag.buList ∧
      (mag.clearExpired bule).radvd =
        if bule.HasRadvd then mag.radvd.removeConfiguration bule.radvdIfIndex else mag.radvd := by
  have htunnel : ∀ m : Mag, (if bule.HasTunnel then m.clearTunnel bule else m).buList = m.buList ∧
      (if bule.HasTunnel then m.clearTunnel bule else m).radvd = m.radvd := by
    intro m
    split <;> exact ⟨rfl, rfl⟩
  obtain ⟨hlist, hradvd⟩ := htunnel (if bule.HasRadvd then mag.clearRadvd bule else mag)
  refine ⟨hlist.trans ?_, hradvd.trans ?_⟩
  · split <;> rfl
  · split <;> rfl

theorem buList_expired (mag : Mag) (mnId : Identifier) (bule : Entry) :
    ((mag.clearExpired bule).setEntry mnId (expired bule)).buList =
      mag.buList.insert mnId (expired bule) := by
  show (mag.clearExpired bule).buList.insert mnId (expired bule) = _
  rw [(clearExpired_spec mag bule).1]

/-- Clearing an entry with a tunnel is clearing the tunnel, as far as the node is concerned. -/
theorem clearExpired_of_hasTunnel (mag : Mag) (h : bule.HasTunnel) :
    (mag.clearExpired bule).calls = (mag.clearTunnel bule).calls ∧
      (mag.clearExpired bule).node = (mag.clearTunnel bule).node ∧
      (mag.clearExpired bule).sourceRouting = (mag.clearTunnel bule).sourceRouting := by
  unfold clearExpired
  dsimp only
  rw [if_pos h]
  split <;> exact ⟨rfl, rfl, rfl⟩

theorem clearExpired_of_not_hasTunnel (mag : Mag) (h : ¬ bule.HasTunnel) :
    (mag.clearExpired bule).calls = mag.calls ∧ (mag.clearExpired bule).node = mag.node ∧
      (mag.clearExpired bule).sourceRouting = mag.sourceRouting := by
  unfold clearExpired
  dsimp only
  rw [if_neg h]
  split <;> exact ⟨rfl, rfl, rfl⟩

/-! ### The ways of `HandlePba` -/

theorem handlePba_eq (refresh : RefreshDelay) (now : ℤ) (pba : Ipv6MobilityBindingAckHeader) (mag : Mag) :
    handlePba refresh now pba mag =
      match acceptedEntry now pba mag with
      | none => some mag
      | some bule => acceptPba refresh now pba mag bule := by
  by_cases hign : ignores now pba.bundle
  · simp only [handlePba, acceptedEntry, if_pos hign]
  · cases hget : mag.buList.lookup pba.bundle.mnIdentifier with
    | none => simp only [handlePba, acceptedEntry, if_neg hign, hget, Option.filter_none]
    | some bule =>
      by_cases hrec : bule.Recorded pba.sequence pba.bundle.timestamp
      · by_cases hst : pba.status = BAStatus.bindingUpdateAccepted.code
        · simp [handlePba, acceptedEntry, hign, hget, hrec, hst, Option.filter]
        · simp [handlePba, acceptedEntry, hign, hget, hrec, hst, Option.filter]
      · simp [handlePba, acceptedEntry, hign, hget, hrec, Option.filter]

theorem acceptPba_eq (refresh : RefreshDelay) (now : ℤ) (pba : Ipv6MobilityBindingAckHeader) (mag : Mag)
    (bule : Entry) :
    acceptPba refresh now pba mag bule =
      if 0 < pba.lifetime then
        if bule.isUpdating then
          some ((mag.setUp (acknowledge pba bule)).setEntry pba.bundle.mnIdentifier
            (registered refresh now pba mag bule))
        else some (mag.setEntry pba.bundle.mnIdentifier (renewed refresh now pba bule))
      else
        some { (mag.clearRadvd bule).clearTunnel (acknowledge pba bule) with
          buList := mag.buList.erase pba.bundle.mnIdentifier } := by
  by_cases hl : 0 < pba.lifetime
  · have hne : Time.seconds pba.lifetime.toNat ≠ 0 := by
      have hpos : 0 < pba.lifetime.toNat := by simpa [UInt16.lt_iff_toNat_lt] using hl
      have := Time.seconds_pos hpos
      omega
    have hrenew : ∀ e : Entry, e.reachableTime = Time.seconds pba.lifetime.toNat →
        e.renew refresh now = some { e with
          state := .reachable
          refreshTimer := Timer.schedule now (refresh.delay (Time.seconds pba.lifetime.toNat))
          reachableTimer := Timer.schedule now (Time.seconds pba.lifetime.toNat) } := by
      intro e he
      rw [Entry.renew_eq (by rw [he]; exact hne), he]
    by_cases hup : bule.isUpdating
    · have hup' : (acknowledge pba bule).isUpdating := hup
      simp only [acceptPba, if_pos hl, if_pos hup, if_pos hup']
      rw [hrenew _ rfl]
      rfl
    · have hup' : ¬ (acknowledge pba bule).isUpdating := hup
      simp only [acceptPba, if_pos hl, if_neg hup, if_neg hup']
      rw [hrenew _ rfl]
      rfl
  · simp only [acceptPba, if_neg hl]
    rfl

/-! ### Timers -/

/-- The entry after a refresh timeout. -/
theorem refreshEntry_eq (now : ℤ) (sequence : UInt16) (bule : Entry) :
    ∃ pbu, refreshEntry now sequence bule =
      { bule with
        refreshTimer := .cancel
        lastBindingUpdateTime := Time.cutToMicroSeconds now
        lastBindingUpdateSequence := sequence
        pktPbu := some pbu
        retryCount := 0
        state := .refreshing
        retransTimer := Timer.schedule now
          (Time.milliSeconds Ipv6MobilityL4Protocol.initialBindingAckTimeoutFirstreg) } :=
  ⟨_, rfl⟩

theorem clearForwarding_eq (mag : Mag) (bule : Entry) :
    mag.clearForwarding bule = (mag.clearExpired bule,
      { bule with
        radvdIfIndex := if bule.HasRadvd then -1 else bule.radvdIfIndex
        tunnelIfIndex := if bule.HasTunnel then -1 else bule.tunnelIfIndex }) := by
  unfold clearForwarding clearExpired
  by_cases hradvd : bule.HasRadvd
  · have hcleared : (mag.clearRadvdInterface bule).2.HasTunnel ↔ bule.HasTunnel := Iff.rfl
    by_cases htunnel : bule.HasTunnel
    · simp only [if_pos hradvd, if_pos htunnel, if_pos (hcleared.mpr htunnel)]
      rfl
    · simp only [if_pos hradvd, if_neg htunnel, if_neg (hcleared.not.mpr htunnel)]
      rfl
  · by_cases htunnel : bule.HasTunnel
    · simp only [if_neg hradvd, if_pos htunnel]
      rfl
    · simp only [if_neg hradvd, if_neg htunnel]

theorem functionReachableTimeout_eq (hget : mag.buList.lookup mnId = some bule) :
    functionReachableTimeout mnId mag = some ((mag.clearExpired bule).setEntry mnId (expired bule)) := by
  simp only [functionReachableTimeout, hget, Option.bind_eq_bind, Option.bind_some, Option.pure_def,
    unmark_eq, clearForwarding_eq]
  rfl

/-- The retransmission timeout changes nothing of the entry but its timer and its count. -/
theorem functionRetransTimeout_spec {r : Mag × Option Sent} (hget : mag.buList.lookup mnId = some bule)
    (h : functionRetransTimeout now mnId mag = some r) :
    ∃ t n, r.1 = mag.setEntry mnId { bule with retransTimer := t, retryCount := n } := by
  simp only [functionRetransTimeout, hget, Option.bind_eq_bind, Option.bind_some, Option.pure_def] at h
  split at h
  · cases h
    exact ⟨_, _, rfl⟩
  · obtain ⟨pbu, -, hr⟩ := Option.bind_eq_some_iff.mp h
    cases hr
    exact ⟨_, _, rfl⟩

/-! ### Changes -/

/-- The ways an event changes the gateway at time `now`. -/
inductive Change (refresh : RefreshDelay) (now : ℤ) (mag : Mag) : Event → Mag → Prop where
  | advance {t : ℤ} : Change refresh now mag (.advance t) mag
  | setProfile {profile : Pmipv6Profile} :
      Change refresh now mag (.setProfile profile) { mag with profile := profile }
  /-- The counter of the configurations goes on. -/
  | otherRadvdInterface : Change refresh now mag .otherRadvdInterface { mag with idGen := mag.idGen + 1 }
  /-- A mobile node without profile attaches. -/
  | unknown {sender : Mac48Address} {att : UInt8} {link : Link}
      (hpf : mag.profile.lookup (.ofMac48Address sender) = none) :
      Change refresh now mag (.newNode sender att link) mag
  /-- A mobile node attaches to a device without interface. -/
  | attach {sender : Mac48Address} {att : UInt8} {link : Link} {pf : Pmipv6Profile.Entry}
      (hpf : mag.profile.lookup (.ofMac48Address sender) = some pf) (hlink : link.ifIndex = none) :
      Change refresh now mag (.newNode sender att link)
        (mag.setEntry pf.mnIdentifier (attach pf att link (mag.entryFor pf)))
  /-- A mobile node attaches, and an update is sent for it. -/
  | update {sender : Mac48Address} {att : UInt8} {link : Link} {pf : Pmipv6Profile.Entry} {ifIndex : ℕ}
      (hpf : mag.profile.lookup (.ofMac48Address sender) = some pf) (hlink : link.ifIndex = some ifIndex) :
      Change refresh now mag (.newNode sender att link)
        { mag.setEntry pf.mnIdentifier
            (update now ifIndex (mag.sequence + 1) (Mag.attach pf att link (mag.entryFor pf))) with
          sequence := mag.sequence + 1 }
  /-- An acknowledgement is not accepted. -/
  | ignore {pba : Ipv6MobilityBindingAckHeader} (hacc : acceptedEntry now pba mag = none) :
      Change refresh now mag (.pba pba) mag
  /-- An acknowledgement with a lifetime is accepted for an entry that is updating. -/
  | register {pba : Ipv6MobilityBindingAckHeader} {bule : Entry}
      (hacc : acceptedEntry now pba mag = some bule) (hlife : 0 < pba.lifetime)
      (hup : bule.state = .updating) :
      Change refresh now mag (.pba pba)
        ((mag.setUp (acknowledge pba bule)).setEntry pba.bundle.mnIdentifier
          (registered refresh now pba mag bule))
  /-- An acknowledgement with a lifetime is accepted for another entry. -/
  | renew {pba : Ipv6MobilityBindingAckHeader} {bule : Entry}
      (hacc : acceptedEntry now pba mag = some bule) (hlife : 0 < pba.lifetime)
      (hup : bule.state ≠ .updating) :
      Change refresh now mag (.pba pba)
        (mag.setEntry pba.bundle.mnIdentifier (renewed refresh now pba bule))
  /-- An acknowledgement without lifetime is accepted. -/
  | deregister {pba : Ipv6MobilityBindingAckHeader} {bule : Entry}
      (hacc : acceptedEntry now pba mag = some bule) (hlife : ¬ 0 < pba.lifetime) :
      Change refresh now mag (.pba pba)
        { (mag.clearRadvd bule).clearTunnel (acknowledge pba bule) with
          buList := mag.buList.erase pba.bundle.mnIdentifier }
  /-- The refresh timer of an entry has run. -/
  | refreshTimeout {mnId : Identifier} {bule : Entry} (hget : mag.buList.lookup mnId = some bule)
      (hdue : bule.refreshTimer = some now) :
      Change refresh now mag (.refreshTimeout mnId)
        { mag.setEntry mnId (refreshEntry now (mag.sequence + 1) bule) with sequence := mag.sequence + 1 }
  /-- The lifetime of an entry has run out. -/
  | reachableTimeout {mnId : Identifier} {bule : Entry} (hget : mag.buList.lookup mnId = some bule)
      (hdue : bule.reachableTimer = some now) :
      Change refresh now mag (.reachableTimeout mnId) ((mag.clearExpired bule).setEntry mnId (expired bule))
  /-- The retransmission timer of an entry has run. -/
  | retransTimeout {mnId : Identifier} {bule : Entry} {t : Timer} {n : UInt8}
      (hget : mag.buList.lookup mnId = some bule) :
      Change refresh now mag (.retransTimeout mnId)
        (mag.setEntry mnId { bule with retransTimer := t, retryCount := n })

theorem change_of_handleNewNode (refresh : RefreshDelay) (now : ℤ) (sender : Mac48Address) (att : UInt8)
    (link : Link) (mag : Mag) :
    Change refresh now mag (.newNode sender att link) (handleNewNode now sender att link mag).1 := by
  cases hpf : mag.profile.lookup (.ofMac48Address sender) with
  | none =>
    simp only [handleNewNode, hpf]
    exact .unknown hpf
  | some pf =>
    cases hlink : link.ifIndex with
    | none =>
      simp only [handleNewNode, hpf, hlink]
      exact .attach hpf hlink
    | some ifIndex =>
      simp only [handleNewNode, hpf, hlink]
      exact .update hpf hlink

theorem change_of_handlePba (h : handlePba refresh now pba mag = some mag') :
    Change refresh now mag (.pba pba) mag' := by
  rw [handlePba_eq] at h
  cases hacc : acceptedEntry now pba mag with
  | none =>
    simp only [hacc, Option.some.injEq] at h
    obtain rfl := h
    exact .ignore hacc
  | some bule =>
    simp only [hacc, acceptPba_eq] at h
    by_cases hlife : 0 < pba.lifetime
    · by_cases hup : bule.state = .updating
      · have hup' : bule.isUpdating := by simp [Entry.isUpdating, hup]
        rw [if_pos hlife, if_pos hup', Option.some.injEq] at h
        obtain rfl := h
        exact .register hacc hlife hup
      · have hup' : ¬ bule.isUpdating := by simp [Entry.isUpdating, hup]
        rw [if_pos hlife, if_neg hup', Option.some.injEq] at h
        obtain rfl := h
        exact .renew hacc hlife hup
    · rw [if_neg hlife, Option.some.injEq] at h
      obtain rfl := h
      exact .deregister hacc hlife

/-- A step changes the gateway in one of these ways. -/
theorem change_of_step {s s' : Timed} {e : Event} (h : (machine refresh).Step s e s') :
    Change refresh s.now s.mag e s'.mag := by
  obtain ⟨hen, hex⟩ := h
  cases e with
  | advance t =>
    cases hex
    exact .advance
  | setProfile profile =>
    cases hex
    exact .setProfile
  | otherRadvdInterface =>
    cases hex
    exact .otherRadvdInterface
  | newNode sender att link =>
    cases hex
    exact change_of_handleNewNode refresh s.now sender att link s.mag
  | pba message =>
    obtain ⟨mag', hpba, rfl⟩ := Option.map_eq_some_iff.mp hex
    exact change_of_handlePba hpba
  | refreshTimeout mnId =>
    obtain ⟨r, htimeout, rfl⟩ := Option.map_eq_some_iff.mp hex
    obtain ⟨bule, hget, hdue⟩ := Option.bind_eq_some_iff.mp hen
    simp only [functionRefreshTimeout, hget, Option.bind_eq_bind, Option.bind_some, Option.pure_def,
      Option.some.injEq] at htimeout
    subst htimeout
    exact .refreshTimeout hget hdue
  | reachableTimeout mnId =>
    obtain ⟨mag', htimeout, rfl⟩ := Option.map_eq_some_iff.mp hex
    obtain ⟨bule, hget, hdue⟩ := Option.bind_eq_some_iff.mp hen
    rw [functionReachableTimeout_eq hget, Option.some.injEq] at htimeout
    subst htimeout
    exact .reachableTimeout hget hdue
  | retransTimeout mnId =>
    obtain ⟨r, htimeout, rfl⟩ := Option.map_eq_some_iff.mp hex
    obtain ⟨bule, hget, -⟩ := Option.bind_eq_some_iff.mp hen
    obtain ⟨t, n, hr⟩ := functionRetransTimeout_spec hget htimeout
    show Change refresh s.now s.mag _ r.1
    rw [hr]
    exact .retransTimeout hget

/-- Time goes on in a step of its own, and does not pass a timer that is due. -/
theorem now_of_step {s s' : Timed} {e : Event} (h : (machine refresh).Step s e s') :
    s'.now = s.now ∨ s'.mag = s.mag ∧ ∀ x ∈ s.mag.buList.entries, AllowsTime x.2 s'.now := by
  obtain ⟨hen, hex⟩ := h
  cases e with
  | advance t =>
    cases hex
    exact .inr ⟨rfl, hen.2⟩
  | setProfile profile | otherRadvdInterface | newNode sender att link =>
    cases hex
    exact .inl rfl
  | pba message | refreshTimeout mnId | reachableTimeout mnId | retransTimeout mnId =>
    obtain ⟨_, -, rfl⟩ := Option.map_eq_some_iff.mp hex
    exact .inl rfl

/-- An acknowledgement is accepted for the entry of its mobile node, which recorded its time
stamp, and the time stamp is not that of a new entry. -/
theorem acceptedEntry_spec (h : acceptedEntry now pba mag = some bule) :
    mag.buList.lookup pba.bundle.mnIdentifier = some bule ∧ bule.lastBindingUpdateTime ≠ 0 := by
  unfold acceptedEntry at h
  split at h
  · cases h
  · rename_i hign
    obtain ⟨hget, hacc⟩ := Option.filter_eq_some_iff.mp h
    refine ⟨hget, fun hzero => ?_⟩
    have htime := (of_decide_eq_true hacc).1.2
    rw [hzero] at htime
    simp [ignores, ← htime, Time.getMicroSeconds] at hign

/-! ### A small gateway, for runs that can be computed -/

namespace Small

/-- The identifier of the mobile node. -/
def mn : Identifier := .ofOctet 1

/-- Its address on the link. -/
def mnAddress : Mac48Address := ⟨Vector.replicate 6 2⟩

/-- Its prefix. -/
def hnp : Ipv6Address := .ofOctets 0x3f 1

/-- Its anchor. -/
def lma : Ipv6Address := .ofOctets 0x20 9

/-- Its profile. -/
def profile : Pmipv6Profile :=
  { profileList := fun id =>
      if id = mn ∨ id = .ofMac48Address mnAddress then
        some { mnIdentifier := mn, mnLinkIdentifier := .ofMac48Address mnAddress, lmaAddress := lma,
               homeNetworkPrefixes := [hnp] }
      else none }

/-- A gateway with two links ten seconds into the simulation, when no mobile node has attached. The
next configuration of advertisements has the number of the first link. -/
def gateway : Timed :=
  { now := Time.seconds 10
    mag :=
      { buList := ∅
        sequence := 0
        profile := profile
        radvd := []
        idGen := 1
        node := { tunnelList := [], interfaces := [.host 0, .host 1, .host 2], staticRouting := [] }
        sourceRouting := []
        calls := [] } }

/-- The lifetime less a tenth. -/
def tenthShort : RefreshDelay :=
  { delay := fun t => t * 9 / 10
    nonneg := fun n hn => by
      have := Time.seconds_pos hn
      omega
    lt := fun n hn => by
      have := Time.seconds_pos hn
      omega }

/-- The mobile node attaches to the link with interface `ifIndex`. -/
def attachTo (ifIndex : ℕ) : Event := .newNode mnAddress 4 ⟨.linkLocal, some ifIndex⟩

/-- The acknowledgement of the update with a sequence number and time stamp, with a lifetime and a
prefix: what the anchor sends. -/
def ack (sequence lifetime : UInt16) (hnp : Ipv6Address) (time : ℤ) : Event :=
  .pba
    { status := BAStatus.bindingUpdateAccepted.code
      flagP := true
      sequence := sequence
      lifetime := lifetime
      options := [.mobileNodeIdentifier 1 mn, .homeNetworkPrefix hnp 64,
        .handoffIndicator optHiHandoffStateUnknown, .accessTechnologyType 4,
        .mobileNodeLinkLayerIdentifier (.ofMac48Address mnAddress), .timestamp time] }

end Small

end Mag

end Ns3.Pmip6
