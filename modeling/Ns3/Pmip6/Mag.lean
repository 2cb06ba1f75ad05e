import Ns3.Lib.Machine
import Ns3.Pmip6.BindingUpdateList
import Ns3.Pmip6.Prefixes
import Ns3.Pmip6.Tunnel
import Ns3.Pmip6.UnicastRadvd

/-!
# The mobile access gateway

`Pmipv6Mag` (`pmip6/model/pmipv6-mag.cc`): what it does when a mobile node attaches and when an
acknowledgement arrives, what it installs for a mobile node, and the timers of its binding
update list. A handler is `none` where an assertion or a null pointer stops the program.

`Mag.machine` is the gateway in simulated time: mobile nodes attach and acknowledgements arrive
in any order and with any content, the profiles and the counter of the advertisement
configurations, which the gateway shares with others, change, time goes on, and a timer's function
runs when the timer is due. What a step can do is worked out in `Ns3.Pmip6.MagSteps`.
-/

namespace Ns3.Pmip6

open BindingUpdateList (Entry RefreshDelay)

namespace Mag

/-- What the gateway did to its tunnels and routes. -/
inductive Call where
  /-- `AddTunnel` was called. -/
  | addTunnel (remote : Ipv6Address)
  /-- `RemoveTunnel` was called. -/
  | removeTunnel (remote : Ipv6Address)
  /-- `SetupTunnelAndRouting` ran for an entry, and added these routes and source routes. -/
  | setUp (mnId : Identifier) (routes sourceRoutes : NetworkRoutes)
  /-- `ClearTunnelAndRouting` ran for an entry. -/
  | cleared (mnId : Identifier)
  deriving DecidableEq

end Mag

/-- `Pmipv6Mag`, with what it uses of its node. -/
structure Mag where
  buList : BindingUpdateList
  sequence : UInt16
  profile : Pmipv6Profile
  radvd : UnicastRadvd
  /-- `UnicastRadvdInterface::m_idGen`, a static member. -/
  idGen : BitVec 32
  node : Node
  /-- The table of the node's `Ipv6StaticSourceRouting`. -/
  sourceRouting : NetworkRoutes
  /-- The calls made so far. The code does not keep them. -/
  calls : List Mag.Call

namespace Mag

/-! ### Updates -/

/-- A message on its way: `SendMessage (pbu, dst, 64)`. -/
structure Sent where
  dst : Ipv6Address
  pbu : Ipv6MobilityBindingUpdateHeader

/-- The update for an entry, with its options. -/
def buildPbu (bule : Entry) : Ipv6MobilityBindingUpdateHeader :=
  { sequence := bule.lastBindingUpdateSequence
    flagA := true
    flagH := true
    flagL := true
    flagP := true
    lifetime := Ipv6MobilityL4Protocol.maxBindingLifetime
    options := [.mobileNodeIdentifier 1 bule.mnIdentifier] ++
      (if 0 < bule.homeNetworkPrefixes.length then
        bule.homeNetworkPrefixes.map (.homeNetworkPrefix · 64)
      else [.homeNetworkPrefix .zero 0]) ++
      [.handoffIndicator bule.handoffIndicator, .accessTechnologyType bule.accessTechnologyType,
        .mobileNodeLinkLayerIdentifier bule.mnLinkIdentifier] ++
      (if bule.magLinkAddress.isAny then [] else [.linkLocalAddress bule.magLinkAddress]) ++
      [.timestamp bule.lastBindingUpdateTime] }

/-- What the node answers about a link when a mobile node attaches to it. -/
structure Link where
  /-- `GetLinkLocalAddress` of the anchor's address: `::` when there is no route to it. -/
  linkLocalAddress : Ipv6Address
  /-- The interface of the device that has the address `to`: none when no device has it, or the
  device has no interface. -/
  ifIndex : Option ℕ

/-- What `HandleNewNode` writes of the profile `pf` to the entry, before it looks for the device. -/
def attach (pf : Pmipv6Profile.Entry) (att : UInt8) (link : Link) (bule : Entry) : Entry :=
  let bule := { bule with
    accessTechnologyType := att
    mnLinkIdentifier := pf.mnLinkIdentifier
    lmaAddress := pf.lmaAddress }
  let bule :=
    if 0 < pf.homeNetworkPrefixes.length then
      { bule with homeNetworkPrefixes := pf.homeNetworkPrefixes }
    else bule
  let bule := { bule with handoffIndicator := optHiHandoffStateUnknown }
  if link.linkLocalAddress.isAny then bule else { bule with magLinkAddress := link.linkLocalAddress }

/-- What `HandleNewNode` does to the entry when it sends an update. -/
def update (now : ℤ) (ifIndex : ℕ) (sequence : UInt16) (bule : Entry) : Entry :=
  let bule := { bule with
    ifIndex := BitVec.ofNat 16 ifIndex
    lastBindingUpdateSequence := sequence
    lastBindingUpdateTime := Time.cutToMicroSeconds now }
  let bule := { bule with pktPbu := some (buildPbu bule), retryCount := 0 }
  let bule := bule.startRetransTimer now
  if bule.isReachable then bule.markRefreshing else bule.markUpdating

/-- `HandleNewNode` of a mobile node with the address `sender`, at time `now`: the gateway it leaves,
and the update it sends. -/
def handleNewNode (now : ℤ) (sender : Mac48Address) (att : UInt8) (link : Link) (mag : Mag) :
    Mag × Option Sent :=
  match mag.profile.lookup (.ofMac48Address sender) with
  | none => (mag, none)
  | some pf =>
    let bule := (mag.buList.lookup pf.mnIdentifier).getD { mnIdentifier := pf.mnIdentifier }
    let bule := attach pf att link bule
    match link.ifIndex with
    | none => ({ mag with buList := mag.buList.insert pf.mnIdentifier bule }, none)
    | some ifIndex =>
      let bule := update now ifIndex (mag.sequence + 1) bule
      ({ mag with sequence := mag.sequence + 1, buList := mag.buList.insert pf.mnIdentifier bule },
        some ⟨bule.lmaAddress, buildPbu bule⟩)

/-! ### Forwarding -/

/-- The configuration `SetupRadvdInterface` makes for an entry. The physical address is read from a
buffer that the link identifier is copied to. -/
def advertisement (bule : Entry) : Advertisement :=
  { interface := bule.ifIndex.signExtend 32
    maxRtrAdvInterval := 5000
    minRtrAdvInterval := 1000
    physicalAddress := bule.mnLinkIdentifier.octets.take 6
    prefixes := bule.homeNetworkPrefixes.map fun hnp => ⟨hnp, 64, 3, 5⟩ }

/-- The mobile node gets an advertisement. -/
def setupRadvdInterface (mag : Mag) (bule : Entry) : Mag × Entry :=
  let uri : UnicastRadvdInterface := ⟨mag.idGen, advertisement bule⟩
  ({ mag with radvd := mag.radvd.addConfiguration uri, idGen := mag.idGen + 1 },
    { bule with radvdIfIndex := uri.advertisement.interface })

/-- The mobile node gets no more advertisements. -/
def clearRadvdInterface (mag : Mag) (bule : Entry) : Mag × Entry :=
  ({ mag with radvd := mag.radvd.removeConfiguration bule.radvdIfIndex }, { bule with radvdIfIndex := -1 })

/-- `SetupTunnelAndRouting`. The `int16_t` indices are extended to the `uint32_t` of the tables. -/
def setupTunnelAndRouting (mag : Mag) (bule : Entry) : Mag × Entry :=
  let (node, tunnelIf) := mag.node.addTunnel bule.lmaAddress .zero
  let bule := { bule with tunnelIfIndex := tunnelIf }
  let hnpList := bule.homeNetworkPrefixes
  ({ mag with
      node := { node with
        staticRouting := node.staticRouting.addNetworkRoutesTo hnpList (bule.ifIndex.signExtend 32) }
      sourceRouting := mag.sourceRouting.addNetworkRoutesTo hnpList (bule.tunnelIfIndex.signExtend 32)
      calls := mag.calls ++ [.addTunnel bule.lmaAddress,
        .setUp bule.mnIdentifier (.ofPrefixes hnpList (bule.ifIndex.signExtend 32))
          (.ofPrefixes hnpList (bule.tunnelIfIndex.signExtend 32))] }, bule)

/-- Routes and tunnel of the mobile node are removed. -/
def clearTunnelAndRouting (mag : Mag) (bule : Entry) : Mag × Entry :=
  let hnpList := bule.homeNetworkPrefixes
  let node := { mag.node with
    staticRouting := mag.node.staticRouting.removeRoutes hnpList (bule.ifIndex.signExtend 32) }
  ({ mag with
      node := node.removeTunnel bule.lmaAddress
      sourceRouting := mag.sourceRouting.removeRoutes hnpList (bule.tunnelIfIndex.signExtend 32)
      calls := mag.calls ++ [.removeTunnel bule.lmaAddress, .cleared bule.mnIdentifier] },
    { bule with tunnelIfIndex := -1 })

/-! ### Acknowledgements -/

/-- The checks of `HandlePba`: an option is missing, or the time stamp is ahead of the clock. -/
def ignores (now : ℤ) (bundle : Ipv6MobilityOptionBundle) : Bool :=
  bundle.mnIdentifier.isEmpty ∨ bundle.homeNetworkPrefixes.length = 0 ∨
    bundle.accessTechnologyType = optAttReserved ∨ bundle.handoffIndicator = optHiReserved ∨
    Time.getMicroSeconds bundle.timestamp = 0 ∨ now < bundle.timestamp

/-- What `HandlePba` writes to the entry the acknowledgement is accepted for. -/
def acknowledge (pba : Ipv6MobilityBindingAckHeader) (bule : Entry) : Entry :=
  { bule.stopRetransTimer with
    pktPbu := none
    homeNetworkPrefixes := pba.bundle.homeNetworkPrefixes
    reachableTime := Time.seconds pba.lifetime.toNat }

variable (refresh : RefreshDelay)

/-- `HandlePba` once the acknowledgement is accepted for the entry `bule`. -/
def acceptPba (now : ℤ) (pba : Ipv6MobilityBindingAckHeader) (mag : Mag)
    (bule : Entry) : Option Mag :=
  let bule := acknowledge pba bule
  if 0 < pba.lifetime then do
    let (mag, bule) :=
      if bule.isUpdating then
        let (mag, bule) := mag.setupRadvdInterface bule
        mag.setupTunnelAndRouting bule
      else (mag, bule)
    let bule ← bule.renew refresh now
    return { mag with buList := mag.buList.insert pba.bundle.mnIdentifier bule }
  else
    let (mag, bule) := mag.clearRadvdInterface bule
    let (mag, _) := mag.clearTunnelAndRouting bule
    some { mag with buList := mag.buList.erase pba.bundle.mnIdentifier }

/-- `HandlePba`, at time `now`. -/
def handlePba (now : ℤ) (pba : Ipv6MobilityBindingAckHeader) (mag : Mag) :
    Option Mag :=
  let bundle := pba.bundle
  if ignores now bundle then some mag
  else
    match mag.buList.lookup bundle.mnIdentifier with
    | none => some mag
    | some bule =>
      if ¬ bule.Recorded pba.sequence bundle.timestamp then some mag
      else if pba.status = BAStatus.bindingUpdateAccepted.code then
        acceptPba refresh now pba mag bule
      else some mag

/-! ### Timers -/

/-- The gateway with the entry of `mnId` changed. -/
def setEntry (mag : Mag) (mnId : Identifier) (bule : Entry) : Mag :=
  { mag with buList := mag.buList.insert mnId bule }

/-- What `FunctionRefreshTimeout` does to its entry. -/
def refreshEntry (now : ℤ) (sequence : UInt16) (bule : Entry) : Entry :=
  let bule := { bule with
    refreshTimer := .cancel
    lastBindingUpdateTime := Time.cutToMicroSeconds now
    lastBindingUpdateSequence := sequence }
  ({ bule with pktPbu := some (buildPbu bule), retryCount := 0 }.markRefreshing).startRetransTimer now

/-- `FunctionRefreshTimeout` of the entry of `mnId`. -/
def functionRefreshTimeout (now : ℤ) (mnId : Identifier) (mag : Mag) : Option (Mag × Sent) := do
  let bule ← mag.buList.lookup mnId
  let bule := refreshEntry now (mag.sequence + 1) bule
  return ({ mag.setEntry mnId bule with sequence := mag.sequence + 1 }, ⟨bule.lmaAddress, buildPbu bule⟩)

/-- The state `FunctionReachableTimeout` leaves. -/
def unmark (bule : Entry) : Entry :=
  if bule.isReachable then bule.markUnreachable
  else if bule.isRefreshing then bule.markUpdating
  else bule

/-- What `FunctionReachableTimeout` clears: what the entry has. -/
def clearForwarding (mag : Mag) (bule : Entry) : Mag × Entry :=
  let (mag, bule) := if bule.HasRadvd then mag.clearRadvdInterface bule else (mag, bule)
  if bule.HasTunnel then mag.clearTunnelAndRouting bule else (mag, bule)

/-- `FunctionReachableTimeout` of the entry of `mnId`. -/
def functionReachableTimeout (mnId : Identifier) (mag : Mag) : Option Mag := do
  let bule ← mag.buList.lookup mnId
  let (mag, bule) := mag.clearForwarding (unmark { bule with reachableTimer := .cancel })
  return mag.setEntry mnId bule

/-- `FunctionRetransTimeout` of the entry of `mnId`. -/
def functionRetransTimeout (now : ℤ) (mnId : Identifier) (mag : Mag) : Option (Mag × Option Sent) := do
  let bule ← mag.buList.lookup mnId
  let bule := { bule with retransTimer := .cancel, retryCount := bule.retryCount + 1 }
  if Ipv6MobilityL4Protocol.maxBindingUpdateRetryCount < bule.retryCount then
    return (mag.setEntry mnId bule, none)
  else
    let pbu ← bule.pktPbu
    return (mag.setEntry mnId (bule.startRetransTimer now), some ⟨bule.lmaAddress, pbu⟩)

/-! ### The gateway in time -/

/-- What the gateway waits for. -/
inductive Event where
  /-- Time goes on to `t`. -/
  | advance (t : ℤ)
  | setProfile (profile : Pmipv6Profile)
  /-- Another node makes an advertisement configuration. -/
  | otherRadvdInterface
  | newNode (sender : Mac48Address) (att : UInt8) (link : Link)
  /-- A proxy binding acknowledgement arrives. -/
  | pba (message : Ipv6MobilityBindingAckHeader)
  /-- The refresh timer of the entry of `mnId` expires. -/
  | refreshTimeout (mnId : Identifier)
  /-- The reachable timer of the entry of `mnId` expires. -/
  | reachableTimeout (mnId : Identifier)
  /-- The retransmission timer of the entry of `mnId` expires. -/
  | retransTimeout (mnId : Identifier)

/-- The gateway at a time. -/
structure Timed where
  /-- `Simulator::Now ()`. -/
  now : ℤ
  mag : Mag

/-- Time does not pass a timer of the entry that is due. -/
def AllowsTime (bule : Entry) (t : ℤ) : Prop :=
  bule.refreshTimer.Allows t ∧ bule.reachableTimer.Allows t ∧ bule.retransTimer.Allows t
deriving Decidable

/-- What can happen. -/
def Enabled (s : Timed) : Event → Prop
  | .advance t => s.now ≤ t ∧ ∀ x ∈ s.mag.buList.entries, AllowsTime x.2 t
  | .setProfile _ | .otherRadvdInterface | .newNode _ _ _ | .pba _ => True
  | .refreshTimeout mnId => (s.mag.buList.lookup mnId).bind (·.refreshTimer) = some s.now
  | .reachableTimeout mnId => (s.mag.buList.lookup mnId).bind (·.reachableTimer) = some s.now
  | .retransTimeout mnId => (s.mag.buList.lookup mnId).bind (·.retransTimer) = some s.now

instance (s : Timed) (e : Event) : Decidable (Enabled s e) :=
  match e with
  | .advance _ => inferInstanceAs (Decidable (_ ∧ _))
  | .setProfile _ | .otherRadvdInterface | .newNode _ _ _ | .pba _ => isTrue trivial
  | .refreshTimeout _ => inferInstanceAs (Decidable (_ = _))
  | .reachableTimeout _ => inferInstanceAs (Decidable (_ = _))
  | .retransTimeout _ => inferInstanceAs (Decidable (_ = _))

/-- The handlers. -/
def exec (s : Timed) : Event → Option Timed
  | .advance t => some { s with now := t }
  | .setProfile profile => some { s with mag := { s.mag with profile := profile } }
  | .otherRadvdInterface => some { s with mag := { s.mag with idGen := s.mag.idGen + 1 } }
  | .newNode sender att link => some { s with mag := (handleNewNode s.now sender att link s.mag).1 }
  | .pba message => (handlePba refresh s.now message s.mag).map fun mag => { s with mag := mag }
  | .refreshTimeout mnId =>
    (functionRefreshTimeout s.now mnId s.mag).map fun r => { s with mag := r.1 }
  | .reachableTimeout mnId => (functionReachableTimeout mnId s.mag).map fun mag => { s with mag := mag }
  | .retransTimeout mnId => (functionRetransTimeout s.now mnId s.mag).map fun r => { s with mag := r.1 }

/-- The gateway, driven by its events. -/
def machine : Lib.Machine Timed Event := ⟨Enabled, exec refresh⟩

instance (refresh : RefreshDelay) (s : Timed) (e : Event) : Decidable ((machine refresh).enabled s e) :=
  inferInstanceAs (Decidable (Enabled s e))

end Mag

end Ns3.Pmip6
