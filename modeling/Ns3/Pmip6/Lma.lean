import Ns3.Lib.Machine
import Ns3.Pmip6.BindingCache
import Ns3.Pmip6.Prefixes
import Ns3.Pmip6.Tunnel

/-!
# The local mobility anchor

`Pmipv6Lma` (`pmip6/model/pmipv6-lma.cc`): how it answers proxy binding updates, what it installs
for a binding, and the timers of its cache. A handler is `none` where an assertion stops the
program.

`Lma.machine` is the anchor in simulated time: messages arrive in any order and with any
content, time goes on, and a timer's function runs when the timer is due.

`processOptions_pbaOptions` is what a gateway reads in an acknowledgement. What the handlers do
to the anchor is worked out in `Ns3.Pmip6.LmaSteps`.
-/

namespace Ns3.Pmip6

open BindingCache

/-- `Pmipv6Lma`, with what it uses of its node. -/
structure Lma where
  bCache : List Entry
  profile : Pmipv6Profile
  prefixPool : Pmipv6PrefixPool
  node : Node

namespace Lma

/-! ### Acknowledgements -/

/-- A message on its way: `SendMessage (pba, dst, 64)`. -/
structure Sent where
  dst : Ipv6Address
  pba : Ipv6MobilityBindingAckHeader

/-- The options both `BuildPba` add, in their order. -/
def pbaOptions (mnId : Identifier) (hnpList : List Ipv6Address) (hi att : UInt8)
    (mnLinkId : Identifier) (magLinkAddress : Ipv6Address) (timestamp : ℤ) : List MobilityOption :=
  [.mobileNodeIdentifier 1 mnId] ++ hnpList.map (.homeNetworkPrefix · 64) ++
    [.handoffIndicator hi, .accessTechnologyType att, .mobileNodeLinkLayerIdentifier mnLinkId] ++
    (if magLinkAddress.isAny then [] else [.linkLocalAddress magLinkAddress]) ++
    [.timestamp timestamp]

/-- `BuildPba (bce, status)`. -/
def buildPba (bce : Binding) (status : BAStatus) : Ipv6MobilityBindingAckHeader :=
  { status := status.code
    flagP := true
    sequence := bce.lastBindingUpdateSequence
    lifetime := UInt16.ofNat (Time.getSeconds bce.reachableTime).toNat
    options := pbaOptions bce.mnIdentifier bce.homeNetworkPrefixes bce.handoffIndicator
      bce.accessTechnologyType bce.mnLinkIdentifier bce.magLinkAddress bce.lastBindingUpdateTime }

/-- `BuildPba (pbu, bundle, status)`. The lifetime stays what it is in a new header. -/
def buildPbaFor (pbu : Ipv6MobilityBindingUpdateHeader) (bundle : Ipv6MobilityOptionBundle)
    (status : BAStatus) : Ipv6MobilityBindingAckHeader :=
  { status := status.code
    flagP := true
    sequence := pbu.sequence
    options := pbaOptions bundle.mnIdentifier bundle.homeNetworkPrefixes bundle.handoffIndicator
      bundle.accessTechnologyType bundle.mnLinkIdentifier bundle.magLinkAddress bundle.timestamp }

/-- What the receiver of an acknowledgement collects from its options. -/
theorem processOptions_pbaOptions (mnId : Identifier) (hnpList : List Ipv6Address) (hi att : UInt8)
    (mnLinkId : Identifier) (magLinkAddress : Ipv6Address) (timestamp : ℤ) :
    processOptions (pbaOptions mnId hnpList hi att mnLinkId magLinkAddress timestamp) =
      { mnIdentifier := mnId
        mnLinkIdentifier := mnLinkId
        homeNetworkPrefixes := hnpList
        magLinkAddress := magLinkAddress
        accessTechnologyType := att
        handoffIndicator := hi
        timestamp := Time.cutToMicroSeconds timestamp } := by
  have hlla : ∀ bundle : Ipv6MobilityOptionBundle, bundle.magLinkAddress = .zero →
      (if magLinkAddress.isAny then [] else [MobilityOption.linkLocalAddress magLinkAddress]).foldl
        MobilityOption.process bundle = { bundle with magLinkAddress := magLinkAddress } := by
    intro bundle hb
    by_cases hany : magLinkAddress.isAny
    · rw [if_pos hany, List.foldl_nil, Ipv6Address.isAny_iff.mp hany, ← hb]
    · rw [if_neg hany]
      rfl
  rw [processOptions, pbaOptions, List.foldl_append, List.foldl_append, List.foldl_append,
    List.foldl_append, foldl_process_homeNetworkPrefix, hlla _ rfl]
  rfl

/-! ### The checks of an update -/

/-- The checks of 5.3.1 - 4 to 5.3.1 - 12, in their order: the status of the first that fails. -/
def checkOptions (lma : Lma) (now : ℤ) (bundle : Ipv6MobilityOptionBundle) : Option BAStatus :=
  if bundle.mnIdentifier.isEmpty then some .missingMnIdentifierOption
  else if lma.profile.lookup bundle.mnIdentifier = none then some .notLmaForThisMobileNode
  else if Time.getMicroSeconds bundle.timestamp ≠ 0 ∧ now < bundle.timestamp then
    some .timestampMismatch
  else if bundle.homeNetworkPrefixes.length = 0 then some .missingHomeNetworkPrefixOption
  else if bundle.handoffIndicator = optHiReserved then some .missingHandoffIndicatorOption
  else if bundle.accessTechnologyType = optAttReserved then some .missingAccessTechTypeOption
  else none

/-- What the existence test of 5.3.1 - 13 leaves in `bce`, `delayedRegister` and `errStatus`. -/
structure ExistenceTest where
  bce : Option (Entry × ℕ)
  delayedRegister : Bool := false
  errStatus : BAStatus := .bindingUpdateAccepted

/-- The existence test. -/
def existenceTest (bCache : List Entry) (bundle : Ipv6MobilityOptionBundle) : ExistenceTest :=
  let hnpList := bundle.homeNetworkPrefixes.filter fun a => !a.isAny
  if 0 < hnpList.length then
    match lookupPrefixes bCache bundle.mnIdentifier hnpList with
    | (none, _) => { bce := none }
    | (some _, false) => { bce := none, errStatus := .bcePbuPrefixSetDoNotMatch }
    | (some x, true) => { bce := some x }
  else if !bundle.mnLinkIdentifier.isEmpty then
    match lookupLink bCache bundle.mnIdentifier bundle.accessTechnologyType bundle.mnLinkIdentifier with
    | some x => { bce := some x }
    | none =>
      if bundle.handoffIndicator = optHiHandoffBetweenDifferentInterfaces then
        { bce := lookup bCache bundle.mnIdentifier }
      else if bundle.handoffIndicator = optHiHandoffStateUnknown then
        { bce := lookup bCache bundle.mnIdentifier, delayedRegister := true }
      else { bce := none }
  else { bce := lookup bCache bundle.mnIdentifier, delayedRegister := true }

theorem mem_chain_of_existenceTest {bCache : List Entry} {bundle : Ipv6MobilityOptionBundle}
    {x : Entry × ℕ} (h : (existenceTest bCache bundle).bce = some x) :
    x ∈ chain bCache bundle.mnIdentifier := by
  unfold existenceTest at h
  dsimp only at h
  split at h
  · split at h
    · cases h
    · cases h
    · rename_i y hy
      exact mem_chain_of_lookupPrefixes (by rw [hy]; exact h)
  · split at h
    · split at h
      · rename_i y hy
        exact mem_chain_of_lookupLink (hy.trans h)
      · split at h
        · exact mem_chain_of_lookup h
        · split at h
          · exact mem_chain_of_lookup h
          · cases h
    · exact mem_chain_of_lookup h

/-! ### Forwarding -/

/-- `SetupTunnelAndRouting`. The `int16_t` index is extended to the `uint32_t` of the table. -/
def setupTunnelAndRouting (n : Node) (bce : Entry) : Node × Entry :=
  let (n, tunnelIf) := n.addTunnel bce.proxyCoa .zero
  let bce := { bce with tunnelIfIndex := tunnelIf }
  ({ n with
      staticRouting := n.staticRouting.addNetworkRoutesTo bce.homeNetworkPrefixes
        (bce.tunnelIfIndex.signExtend 32) }, bce)

/-- `ClearTunnelAndRouting`. Nothing calls it. -/
def clearTunnelAndRouting (n : Node) (bce : Entry) : Node × Entry :=
  let n := { n with
    staticRouting := n.staticRouting.removeRoutes bce.homeNetworkPrefixes
      (bce.tunnelIfIndex.signExtend 32) }
  (n.removeTunnel bce.proxyCoa, { bce with tunnelIfIndex := -1 })

/-- `ModifyTunnelAndRouting`. Both indices are `uint16_t` here. -/
def modifyTunnelAndRouting (n : Node) (bce : Entry) : Option (Node × Entry) :=
  let oldTunnelIf := bce.tunnelIfIndex
  match n.modifyTunnel bce.oldProxyCoa bce.proxyCoa .zero with
  | none => none
  | some (n, tunnelIf) =>
    if oldTunnelIf ≠ tunnelIf then
      some ({ n with
        staticRouting := n.staticRouting.moveRoutes bce.homeNetworkPrefixes
          (oldTunnelIf.zeroExtend 32) (tunnelIf.zeroExtend 32) },
        { bce with tunnelIfIndex := tunnelIf })
    else some (n, bce)

/-! ### Updates -/

/-- The anchor with the entry at `p` changed. -/
def setEntry (lma : Lma) (p : ℕ) (bce : Entry) : Lma := { lma with bCache := lma.bCache.set p bce }

variable (now : ℤ)

variable (src : Ipv6Address)

/-- An update from the entry's own gateway, or of an entry that is deregistering. -/
def updateEntry (pbu : Ipv6MobilityBindingUpdateHeader)
    (bundle : Ipv6MobilityOptionBundle) (bce : Entry) : Option Entry :=
  Entry.refresh now { bce with toBinding := bce.toBinding.record src pbu bundle }

/-- The tentative entry of a delayed registration. -/
def tentativeOf (pbu : Ipv6MobilityBindingUpdateHeader)
    (bundle : Ipv6MobilityOptionBundle) (bce : Entry) : Binding :=
  { bce.toBinding.copy.record src pbu bundle with
    homeNetworkPrefixes := bundle.homeNetworkPrefixes }

/-- A delayed registration: the entry waits for the previous gateway to deregister. -/
def delayRegistration (pbu : Ipv6MobilityBindingUpdateHeader)
    (bundle : Ipv6MobilityOptionBundle) (bce : Entry) : Entry :=
  ((bce.setTentativeEntry (some (tentativeOf src pbu bundle bce))).markRegistering
    |>.stopRegisterTimer).startRegisterTimer now

/-- A handoff between two gateways. -/
def handOff (pbu : Ipv6MobilityBindingUpdateHeader)
    (bundle : Ipv6MobilityOptionBundle) (n : Node) (bce : Entry) : Option (Node × Entry) := do
  let (n, bce) ← modifyTunnelAndRouting n { bce with toBinding := bce.toBinding.record src pbu bundle }
  let bce ← bce.refresh now
  return (n, bce)

/-- The prefixes of a new entry: those of the profile, or one from the pool, which the profile
keeps. -/
def allocatePrefixes (pf : Pmipv6Profile) (pool : Pmipv6PrefixPool) (mnId : Identifier) :
    Pmipv6Profile × Pmipv6PrefixPool × List Ipv6Address :=
  if 0 < (pf.homeNetworkPrefixes mnId).length then (pf, pool, pf.homeNetworkPrefixes mnId)
  else
    let (pool, hnp) := pool.assign
    (pf.setHomeNetworkPrefixes mnId [hnp], pool, [hnp])

/-- The new entry of a mobile node, before its tunnel is set up. -/
def newEntry (pbu : Ipv6MobilityBindingUpdateHeader)
    (bundle : Ipv6MobilityOptionBundle) (hnpList : List Ipv6Address) : Entry :=
  { toBinding :=
      { Binding.record src pbu bundle { mnIdentifier := bundle.mnIdentifier } with
        homeNetworkPrefixes := hnpList } }

/-- A new binding cache entry. -/
def createEntry (pbu : Ipv6MobilityBindingUpdateHeader)
    (bundle : Ipv6MobilityOptionBundle) (lma : Lma) : Option (Lma × Entry) := do
  let (pf, pool, hnpList) := allocatePrefixes lma.profile lma.prefixPool bundle.mnIdentifier
  let (n, bce) := setupTunnelAndRouting lma.node (newEntry src pbu bundle hnpList)
  let bce ← bce.markReachable.startReachableTimer now
  return ({ bCache := lma.bCache ++ [bce], profile := pf, prefixPool := pool, node := n }, bce)

/-- `HandlePbu`, at time `now`: the anchor it leaves, and the acknowledgement it sends. -/
def handlePbu (pbu : Ipv6MobilityBindingUpdateHeader) (lma : Lma) :
    Option (Lma × Option Sent) :=
  let bundle := pbu.bundle
  match lma.checkOptions now bundle with
  | some errStatus => some (lma, some ⟨src, buildPbaFor pbu bundle errStatus⟩)
  | none =>
    -- the status the existence test leaves is overwritten before the acknowledgement is built
    let test := existenceTest lma.bCache bundle
    match test.bce with
    | some (bce, p) =>
      if 0 < pbu.lifetime then
        if bce.proxyCoa = src ∨ bce.isDeregistering then do
          let bce ← updateEntry now src pbu bundle bce
          return (lma.setEntry p bce, some ⟨src, buildPba bce.toBinding .bindingUpdateAccepted⟩)
        else if bundle.handoffIndicator = optHiHandoffStateUnknown ∧ test.delayedRegister then
          if bce.isRegistering then some (lma, none)
          else some (lma.setEntry p (delayRegistration now src pbu bundle bce), none)
        else do
          let (n, bce) ← handOff now src pbu bundle lma.node bce
          return ({ lma.setEntry p bce with node := n },
            some ⟨src, buildPba bce.toBinding .bindingUpdateAccepted⟩)
      else if bce.proxyCoa = src then
        let bce := bce.markDeregistering.startDeregisterTimer now
        some (lma.setEntry p bce, some ⟨src, buildPba bce.toBinding .bindingUpdateAccepted⟩)
      else some (lma, some ⟨src, buildPba bce.toBinding .bindingUpdateAccepted⟩)
    | none =>
      if 0 < pbu.lifetime then do
        let (lma, bce) ← createEntry now src pbu bundle lma
        return (lma, some ⟨src, buildPba bce.toBinding .bindingUpdateAccepted⟩)
      else some (lma, some ⟨src, buildPbaFor pbu bundle .bindingUpdateAccepted⟩)

/-! ### Timers -/

/-- `DoDelayedRegistration` of the entry at `p`. -/
def doDelayedRegistration (p : ℕ) (bce : Entry) (lma : Lma) : Option (Lma × Sent) := do
  let temp ← bce.tentativeEntry
  let bce := { bce.setTentativeEntry none with toBinding := temp.takeOver bce.toBinding }
  let (n, bce) ← modifyTunnelAndRouting lma.node bce
  let bce ← bce.refresh now
  return ({ lma.setEntry p bce with node := n },
    ⟨bce.proxyCoa, buildPba bce.toBinding .bindingUpdateAccepted⟩)

/-- `FunctionRegisterTimeout` of the entry at `p`. -/
def functionRegisterTimeout (p : ℕ) (lma : Lma) : Option Lma := do
  let bce ← lma.bCache[p]?
  let (lma, _) ← doDelayedRegistration now p { bce with registerTimer := .cancel } lma
  return lma

/-- `FunctionReachableTimeout` of the entry at `p`. It has no statement: all that happens is that
the timer has run. -/
def functionReachableTimeout (p : ℕ) (lma : Lma) : Option Lma := do
  let bce ← lma.bCache[p]?
  return lma.setEntry p { bce with reachableTimer := .cancel }

/-- `FunctionDeregisterTimeout` of the entry at `p`. It has no statement either. -/
def functionDeregisterTimeout (p : ℕ) (lma : Lma) : Option Lma := do
  let bce ← lma.bCache[p]?
  return lma.setEntry p { bce with deregisterTimer := .cancel }

/-! ### The anchor in time -/

/-- What the anchor waits for. -/
inductive Event where
  /-- Time goes on to `t`. -/
  | advance (t : ℤ)
  /-- A proxy binding update arrives. -/
  | pbu (src : Ipv6Address) (message : Ipv6MobilityBindingUpdateHeader)
  /-- The register timer of the entry at `p` expires. -/
  | registerTimeout (p : ℕ)
  /-- The reachable timer of the entry at `p` expires. -/
  | reachableTimeout (p : ℕ)
  /-- The deregister timer of the entry at `p` expires. -/
  | deregisterTimeout (p : ℕ)

/-- The anchor at a time. -/
structure Timed where
  /-- `Simulator::Now ()`. -/
  now : ℤ
  lma : Lma

/-- Time does not pass a timer of the entry that is due. -/
def AllowsTime (bce : Entry) (t : ℤ) : Prop :=
  bce.reachableTimer.Allows t ∧ bce.deregisterTimer.Allows t ∧ bce.registerTimer.Allows t
deriving Decidable

/-- What can happen. -/
def Enabled (s : Timed) : Event → Prop
  | .advance t => s.now ≤ t ∧ ∀ bce ∈ s.lma.bCache, AllowsTime bce t
  | .pbu _ _ => True
  | .registerTimeout p => (s.lma.bCache[p]?.bind (·.registerTimer)) = some s.now
  | .reachableTimeout p => (s.lma.bCache[p]?.bind (·.reachableTimer)) = some s.now
  | .deregisterTimeout p => (s.lma.bCache[p]?.bind (·.deregisterTimer)) = some s.now

instance (s : Timed) (e : Event) : Decidable (Enabled s e) :=
  match e with
  | .advance _ => inferInstanceAs (Decidable (_ ∧ _))
  | .pbu _ _ => isTrue trivial
  | .registerTimeout _ => inferInstanceAs (Decidable (_ = _))
  | .reachableTimeout _ => inferInstanceAs (Decidable (_ = _))
  | .deregisterTimeout _ => inferInstanceAs (Decidable (_ = _))

/-- The handlers. -/
def exec (s : Timed) : Event → Option Timed
  | .advance t => some { s with now := t }
  | .pbu src message => (handlePbu s.now src message s.lma).map fun r => { s with lma := r.1 }
  | .registerTimeout p => (functionRegisterTimeout s.now p s.lma).map fun lma => { s with lma := lma }
  | .reachableTimeout p => (functionReachableTimeout p s.lma).map fun lma => { s with lma := lma }
  | .deregisterTimeout p => (functionDeregisterTimeout p s.lma).map fun lma => { s with lma := lma }

/-- The anchor, driven by its events. -/
def machine : Lib.Machine Timed Event := ⟨Enabled, exec⟩

instance (s : Timed) (e : Event) : Decidable (machine.enabled s e) :=
  inferInstanceAs (Decidable (Enabled s e))

end Lma

end Ns3.Pmip6
