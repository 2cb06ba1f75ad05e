import Ns3.Pmip6.MobilityMessage
import Mathlib.Data.List.Basic

/-!
# The binding cache

`BindingCache` (`pmip6/model/binding-cache.cc`) keeps the entries of a local mobility anchor. An
entry is referred to by its place in the order of allocation: the entries of one mobile node are
chained from the newest to the oldest, so the chain of an identifier is read off the list of all
entries. `Binding` is what `Entry::Copy` copies of an entry; the rest of an entry is its state,
its timers and the tentative entry of a delayed registration.
-/

namespace Ns3.Pmip6

namespace Ipv6MobilityL4Protocol

/-- `MIN_DELAY_BEFORE_BCE_DELETE`, in milliseconds. -/
def minDelayBeforeBceDelete : ℕ := 10000

/-- `MIN_DELAY_BEFORE_NEW_BCE_ASSIGN`, in milliseconds. -/
def minDelayBeforeNewBceAssign : ℕ := 1500

end Ipv6MobilityL4Protocol

namespace BindingCache

/-- The part of an entry that `Copy` copies. -/
structure Binding where
  mnIdentifier : Identifier
  mnLinkIdentifier : Identifier := .empty
  homeNetworkPrefixes : List Ipv6Address := []
  magLinkAddress : Ipv6Address := .zero
  proxyCoa : Ipv6Address := .zero
  oldProxyCoa : Ipv6Address := .zero
  tunnelIfIndex : BitVec 16 := -1
  accessTechnologyType : UInt8 := 0
  handoffIndicator : UInt8 := 0
  lastBindingUpdateTime : ℤ := 0
  lastBindingUpdateSequence : UInt16 := 0
  reachableTime : ℤ := 0
  deriving DecidableEq

/-- `BindingCacheState_e`. -/
inductive State where
  | unreachable
  | deregistering
  | registering
  | reachable
  deriving DecidableEq

/-- A binding, with its state, timers and tentative successor. -/
structure Entry extends Binding where
  state : State := .unreachable
  reachableTimer : Timer := .cancel
  deregisterTimer : Timer := .cancel
  registerTimer : Timer := .cancel
  tentativeEntry : Option Binding := none
  deriving DecidableEq

namespace Binding

/-- `SetProxyCoa`: the address it had is kept as the old one. -/
def setProxyCoa (pcoa : Ipv6Address) (b : Binding) : Binding :=
  { b with oldProxyCoa := b.proxyCoa, proxyCoa := pcoa }

/-- `Copy`. The copy is a new entry, so its old address is the one it was made with. -/
def copy (b : Binding) : Binding := { b with oldProxyCoa := .zero }

/-- What `HandlePbu` records of an update, in each of the places it does. -/
def record (src : Ipv6Address) (pbu : Ipv6MobilityBindingUpdateHeader)
    (bundle : Ipv6MobilityOptionBundle) (b : Binding) : Binding :=
  { b.setProxyCoa src with
    mnLinkIdentifier := bundle.mnLinkIdentifier
    accessTechnologyType := bundle.accessTechnologyType
    handoffIndicator := bundle.handoffIndicator
    magLinkAddress := bundle.magLinkAddress
    lastBindingUpdateTime := bundle.timestamp
    reachableTime := Time.seconds pbu.lifetime.toNat
    lastBindingUpdateSequence := pbu.sequence }

/-- What `DoDelayedRegistration` takes over from the tentative entry. -/
def takeOver (temp b : Binding) : Binding :=
  { b.setProxyCoa temp.proxyCoa with
    accessTechnologyType := temp.accessTechnologyType
    handoffIndicator := temp.handoffIndicator
    magLinkAddress := temp.magLinkAddress
    lastBindingUpdateTime := temp.lastBindingUpdateTime
    reachableTime := temp.reachableTime
    lastBindingUpdateSequence := temp.lastBindingUpdateSequence }

/-- `Match (mnId, hnpList, allMatched)`: the result and the value left in `allMatched`. -/
def matchPrefixes (b : Binding) (hnpList : List Ipv6Address) : Bool × Bool :=
  if hnpList.length = 0 ∨ b.homeNetworkPrefixes.length = 0 then (false, false)
  else (hnpList.any (· ∈ b.homeNetworkPrefixes), hnpList.all (· ∈ b.homeNetworkPrefixes))

theorem matchPrefixes_fst {b : Binding} {hnpList : List Ipv6Address} :
    (b.matchPrefixes hnpList).1 = true ↔ ∃ a ∈ hnpList, a ∈ b.homeNetworkPrefixes := by
  unfold matchPrefixes
  split
  · rename_i h
    refine iff_of_false (by decide) ?_
    rintro ⟨a, ha, hm⟩
    rcases h with h | h
    · rw [List.length_eq_zero_iff.mp h] at ha
      cases ha
    · rw [List.length_eq_zero_iff.mp h] at hm
      cases hm
  · simp

/-- The match of all the prefixes. -/
theorem matchPrefixes_eq_true {b : Binding} {hnpList : List Ipv6Address} (hne : hnpList ≠ []) :
    b.matchPrefixes hnpList = (true, true) ↔ ∀ a ∈ hnpList, a ∈ b.homeNetworkPrefixes := by
  obtain ⟨c, hc⟩ := List.exists_mem_of_ne_nil hnpList hne
  constructor
  · intro h
    unfold matchPrefixes at h
    split at h
    · cases (Prod.mk.inj h).1
    · simpa using (Prod.mk.inj h).2
  · intro h
    have hlist : ¬ (hnpList.length = 0 ∨ b.homeNetworkPrefixes.length = 0) := by
      rintro (h0 | h0)
      · exact hne (List.length_eq_zero_iff.mp h0)
      · have hb := h c hc
        rw [List.length_eq_zero_iff.mp h0] at hb
        cases hb
    rw [matchPrefixes, if_neg hlist, Prod.mk.injEq, List.any_eq_true, List.all_eq_true]
    exact ⟨⟨c, hc, by simpa using h c hc⟩, fun a ha => by simpa using h a ha⟩

/-- `Match (mnId, att, mnLinkId)`. -/
def matchLink (b : Binding) (att : UInt8) (mnLinkId : Identifier) : Bool :=
  b.accessTechnologyType = att ∧ b.mnLinkIdentifier = mnLinkId

end Binding

namespace Entry

variable (e : Entry)

/-- The state is `DEREGISTERING`. -/
def isDeregistering : Bool := e.state = .deregistering

/-- The state is `REGISTERING`. -/
def isRegistering : Bool := e.state = .registering

/-- The binding is about to be removed. -/
def markDeregistering : Entry := { e with state := .deregistering }

/-- The binding is about to be made. -/
def markRegistering : Entry := { e with state := .registering }

/-- The binding is valid. -/
def markReachable : Entry := { e with state := .reachable }

variable (now : ℤ)

/-- `StartReachableTimer`; `none` where its assertion fails. -/
def startReachableTimer (e : Entry) : Option Entry :=
  if e.reachableTime = 0 then none
  else some { e with reachableTimer := Timer.schedule now e.reachableTime }

/-- The life time is no longer watched. -/
def stopReachableTimer : Entry := { e with reachableTimer := Timer.cancel }

/-- The entry is removed after a delay. -/
def startDeregisterTimer (e : Entry) : Entry :=
  { e with
    deregisterTimer :=
      Timer.schedule now (Time.milliSeconds Ipv6MobilityL4Protocol.minDelayBeforeBceDelete) }

/-- A new entry is assigned after a delay. -/
def startRegisterTimer (e : Entry) : Entry :=
  { e with
    registerTimer :=
      Timer.schedule now (Time.milliSeconds Ipv6MobilityL4Protocol.minDelayBeforeNewBceAssign) }

/-- The new entry is no longer waited for. -/
def stopRegisterTimer : Entry := { e with registerTimer := Timer.cancel }

/-- What will replace the binding, if anything. -/
def setTentativeEntry (temp : Option Binding) (e : Entry) : Entry := { e with tentativeEntry := temp }

/-- The entry becomes reachable, with its lifetime starting anew. -/
def refresh (e : Entry) : Option Entry :=
  e.markReachable.stopReachableTimer.startReachableTimer now

theorem refresh_eq {now : ℤ} {e : Entry} (h : e.reachableTime ≠ 0) :
    e.refresh now =
      some { e with state := .reachable, reachableTimer := Timer.schedule now e.reachableTime } := by
  simp [refresh, markReachable, stopReachableTimer, startReachableTimer, h]

end Entry

/-! ### Lookups -/

/-- The chain of an identifier, from `m_bCache[mnId]` along `m_next`: its entries with their
places, the newest first. -/
def chain (bCache : List Entry) (mnId : Identifier) : List (Entry × ℕ) :=
  (bCache.zipIdx.filter fun x => x.1.mnIdentifier = mnId).reverse

/-- `Lookup (mnId, hnpList, allMatched)`: the entry found, and whether all prefixes matched. -/
def lookupPrefixes (bCache : List Entry) (mnId : Identifier) (hnpList : List Ipv6Address) :
    Option (Entry × ℕ) × Bool :=
  match (chain bCache mnId).find? fun x => x.1.matchPrefixes hnpList = (true, true) with
  | some x => (some x, true)
  | none => ((chain bCache mnId).find? fun x => (x.1.matchPrefixes hnpList).1, false)

/-- `Lookup (mnId, att, mnLinkId)`. -/
def lookupLink (bCache : List Entry) (mnId : Identifier) (att : UInt8) (mnLinkId : Identifier) :
    Option (Entry × ℕ) :=
  (chain bCache mnId).find? fun x => x.1.matchLink att mnLinkId

/-- `Lookup (mnId)`. -/
def lookup (bCache : List Entry) (mnId : Identifier) : Option (Entry × ℕ) :=
  (chain bCache mnId).head?

variable {bCache : List Entry} {mnId : Identifier}

theorem mem_chain {e : Entry} {p : ℕ} : (e, p) ∈ chain bCache mnId ↔ bCache[p]? = some e ∧ e.mnIdentifier = mnId := by
  rw [chain, List.mem_reverse, List.mem_filter, List.mem_zipIdx_iff_getElem?]
  simp

variable {x : Entry × ℕ}

theorem mem_chain_of_lookupPrefixes {hnpList : List Ipv6Address} (h : (lookupPrefixes bCache mnId hnpList).1 = some x) :
    x ∈ chain bCache mnId := by
  unfold lookupPrefixes at h
  split at h
  · rename_i y hy
    rw [Option.some.injEq] at h
    exact h ▸ List.mem_of_find?_eq_some hy
  · exact List.mem_of_find?_eq_some h

theorem mem_chain_of_lookupLink {att : UInt8} {mnLinkId : Identifier}
    (h : lookupLink bCache mnId att mnLinkId = some x) : x ∈ chain bCache mnId :=
  List.mem_of_find?_eq_some h

theorem mem_chain_of_lookup (h : lookup bCache mnId = some x) : x ∈ chain bCache mnId :=
  List.mem_of_head? h

end BindingCache

end Ns3.Pmip6
