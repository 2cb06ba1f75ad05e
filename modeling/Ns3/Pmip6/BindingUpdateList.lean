import Ns3.Lib.Store
import Ns3.Pmip6.MobilityMessage

/-!
# The binding update list

`BindingUpdateList` (`pmip6/model/binding-update-list.cc`) keeps the entries of a mobile access
gateway, one for each mobile node, in a hash map from identifiers.

The refresh timer of an entry is set to nine tenths of its lifetime, a product of floating point
numbers; `RefreshDelay` stands for it, with what the gateway relies on.
-/

namespace Ns3.Pmip6

namespace Ipv6MobilityL4Protocol

/-- `(uint16_t) MAX_BINDING_LIFETIME`: the constant `0xffff << 2` does not fit, and its low bits are
left. -/
def maxBindingLifetime : UInt16 := UInt16.ofNat (0xffff <<< 2)

/-- `INITIAL_BINDING_ACK_TIMEOUT_FIRSTREG`, in milliseconds. -/
def initialBindingAckTimeoutFirstreg : ℕ := 1500

/-- `INITIAL_BINDING_ACK_TIMEOUT_REREG`, in milliseconds. -/
def initialBindingAckTimeoutRereg : ℕ := 1000

/-- `MAX_BINDING_UPDATE_RETRY_COUNT`. -/
def maxBindingUpdateRetryCount : UInt8 := 3

end Ipv6MobilityL4Protocol

namespace BindingUpdateList

/-- `BindingUpdateState_e`. -/
inductive State where
  | unreachable
  | updating
  | refreshing
  | reachable
  deriving DecidableEq

/-- What a gateway knows of a mobile node. -/
structure Entry where
  state : State := .unreachable
  mnIdentifier : Identifier
  mnLinkIdentifier : Identifier := .empty
  homeNetworkPrefixes : List Ipv6Address := []
  magLinkAddress : Ipv6Address := .zero
  lmaAddress : Ipv6Address := .zero
  ifIndex : BitVec 16 := -1
  tunnelIfIndex : BitVec 16 := -1
  accessTechnologyType : UInt8 := 0
  handoffIndicator : UInt8 := 0
  lastBindingUpdateTime : ℤ := 0
  reachableTime : ℤ := 0
  retransTimer : Timer := .cancel
  reachableTimer : Timer := .cancel
  refreshTimer : Timer := .cancel
  lastBindingUpdateSequence : UInt16 := 0
  pktPbu : Option Ipv6MobilityBindingUpdateHeader := none
  retryCount : UInt8 := 0
  radvdIfIndex : BitVec 32 := -1

/-- The delay of the refresh timer for a lifetime, `Seconds (m_reachableTime.GetSeconds () * 0.9)`.
Lifetimes are whole seconds. -/
structure RefreshDelay where
  delay : ℤ → ℤ
  nonneg : ∀ n : ℕ, 0 < n → 0 ≤ delay (Time.seconds n)
  /-- It ends before the lifetime does. -/
  lt : ∀ n : ℕ, 0 < n → delay (Time.seconds n) < Time.seconds n

namespace Entry

/-- The state is `UPDATING`. -/
def isUpdating (e : Entry) : Bool := e.state = .updating

/-- The state is `REFRESHING`. -/
def isRefreshing (e : Entry) : Bool := e.state = .refreshing

/-- The state is `REACHABLE`. -/
def isReachable (e : Entry) : Bool := e.state = .reachable

/-- The node is gone. -/
def markUnreachable (e : Entry) : Entry := { e with state := .unreachable }

/-- An update was sent. -/
def markUpdating (e : Entry) : Entry := { e with state := .updating }

/-- An update was sent to keep the binding. -/
def markRefreshing (e : Entry) : Entry := { e with state := .refreshing }

/-- The binding is valid. -/
def markReachable (e : Entry) : Entry := { e with state := .reachable }

/-- `StartReachableTimer`; `none` where its assertion fails. -/
def startReachableTimer (now : ℤ) (e : Entry) : Option Entry :=
  if e.reachableTime = 0 then none
  else some { e with reachableTimer := Timer.schedule now e.reachableTime }

/-- `StartRefreshTimer`; `none` where its assertion fails. -/
def startRefreshTimer (refresh : RefreshDelay) (now : ℤ) (e : Entry) : Option Entry :=
  if e.reachableTime = 0 then none
  else some { e with refreshTimer := Timer.schedule now (refresh.delay e.reachableTime) }

/-- The update will be sent again, the first time after a longer time. -/
def startRetransTimer (now : ℤ) (e : Entry) : Entry :=
  { e with
    retransTimer := Timer.schedule now (Time.milliSeconds
      (if e.retryCount = 0 then Ipv6MobilityL4Protocol.initialBindingAckTimeoutFirstreg
        else Ipv6MobilityL4Protocol.initialBindingAckTimeoutRereg)) }

/-- The life time is no longer watched. -/
def stopReachableTimer (e : Entry) : Entry := { e with reachableTimer := Timer.cancel }

/-- The binding is no longer refreshed. -/
def stopRefreshTimer (e : Entry) : Entry := { e with refreshTimer := Timer.cancel }

/-- No update is sent again. -/
def stopRetransTimer (e : Entry) : Entry := { e with retransTimer := Timer.cancel }

/-- The entry becomes reachable, with its timers starting anew. -/
def renew (refresh : RefreshDelay) (now : ℤ) (e : Entry) : Option Entry := do
  let e ← e.markReachable.stopRefreshTimer.startRefreshTimer refresh now
  e.stopReachableTimer.startReachableTimer now

variable {e : Entry}

theorem renew_eq {refresh : RefreshDelay} {now : ℤ} (h : e.reachableTime ≠ 0) :
    e.renew refresh now =
      some { e with
        state := .reachable
        refreshTimer := Timer.schedule now (refresh.delay e.reachableTime)
        reachableTimer := Timer.schedule now e.reachableTime } := by
  simp [renew, startRefreshTimer, startReachableTimer, markReachable, stopRefreshTimer,
    stopReachableTimer, h]

/-- The entry recorded the update that the acknowledgement answers: the test of `HandlePba` on the
sequence number and the time stamp. -/
def Recorded (e : Entry) (sequence : UInt16) (timestamp : ℤ) : Prop :=
  e.lastBindingUpdateSequence = sequence ∧ e.lastBindingUpdateTime = timestamp
deriving Decidable

/-- The entry has a tunnel: `m_tunnelIfIndex >= 0`. -/
def HasTunnel (e : Entry) : Prop := 0 ≤ e.tunnelIfIndex.toInt
deriving Decidable

theorem hasTunnel_congr {e e' : Entry} (h : e'.tunnelIfIndex = e.tunnelIfIndex) :
    e'.HasTunnel ↔ e.HasTunnel := by
  rw [HasTunnel, h, HasTunnel]

/-- An entry whose index is the one it was made with has no tunnel. -/
theorem not_hasTunnel (h : e.tunnelIfIndex = -1) : ¬ e.HasTunnel := by
  rw [HasTunnel, h]
  decide

/-- The entry has a configuration of advertisements: `m_radvdIfIndex >= 0`. -/
def HasRadvd (e : Entry) : Prop := 0 ≤ e.radvdIfIndex.toInt
deriving Decidable

/-- An entry whose index is the one it was made with has no configuration. -/
theorem not_hasRadvd (h : e.radvdIfIndex = -1) : ¬ e.HasRadvd := by
  rw [HasRadvd, h]
  decide

/-- The entry is `REACHABLE` or `REFRESHING`. -/
def Active (e : Entry) : Prop := e.state = .reachable ∨ e.state = .refreshing
deriving Decidable

theorem not_active_of_updating (h : e.state = .updating) : ¬ e.Active := by
  rintro (ha | ha) <;> rw [h] at ha <;> cases ha

end Entry

end BindingUpdateList

/-- `BindingUpdateList`. `Add` puts a new entry into it where `Lookup` found none, and `Remove` takes
an entry out and deletes it, which cancels its timers. -/
abbrev BindingUpdateList := Lib.Store Identifier BindingUpdateList.Entry

end Ns3.Pmip6
