import Ns3.Core.Timer
import Ns3.Lib.Machine
import Ns3.Lib.Store
import Ns3.Network.Address
import Ns3.Network.HardwareAddress

/-!
# The neighbour cache

`NdiscCache` keeps an entry for each neighbour, which has a state, four timers and the packets that wait for
its address. `Icmpv6L4Protocol` looks neighbours up for `Ipv6Interface::Send` and reads what they say; the timers of an
entry ask for it again, make it stale, and probe whether it is still there.

Each function returns the cache and what was sent, and nothing where the program stops: a timer is started that runs,
an interface has no address to answer with, or the front of an empty list is read. The timers are members of their
entry that are cancelled with it (`CANCEL_ON_DESTROY`), so an entry that was removed has none. The interface is up. The
full waiting list of an entry is not cut: `AddWaitingPacket` removes null pointers from it, and there are none.
-/

namespace Ns3

open Lib

universe u

namespace NdiscCache

/-! ### Constants -/

/-- `MAX_MULTICAST_SOLICIT`. -/
def maxMulticastSolicit : ℕ := 3

/-- `MAX_UNICAST_SOLICIT`. -/
def maxUnicastSolicit : ℕ := 3

/-- `REACHABLE_TIME`, in milliseconds. -/
def reachableTime : ℕ := 30000

/-- `RETRANS_TIMER`, in milliseconds. -/
def retransTime : ℕ := 1000

/-- `DELAY_FIRST_PROBE_TIME`, in seconds. -/
def delayFirstProbeTime : ℕ := 5

/-! ### The interface -/

/-- `Ipv6InterfaceAddress`. -/
structure InterfaceAddress where
  address : Ipv6Address
  /-- `m_prefix` of `GetPrefix`. -/
  netmask : Vector UInt8 16
  nsDadUid : ℕ

/-- `IsMatch` of the prefix. -/
def InterfaceAddress.isMatch (i : InterfaceAddress) (dst : Ipv6Address) : Bool :=
  (i.address.address.zipWith (· &&& ·) i.netmask) = dst.address.zipWith (· &&& ·) i.netmask

variable (interface : List InterfaceAddress)

/-- `GetLinkLocalAddress`, which asserts that there is one. -/
def getLinkLocalAddress : Option Ipv6Address :=
  (interface.find? fun i => i.address.isLinkLocal).map InterfaceAddress.address

/-- `GetAddressMatchingDestination`: the first address where none matches. -/
def getAddressMatchingDestination (dst : Ipv6Address) : Option Ipv6Address :=
  ((interface.find? fun i => i.isMatch dst) <|> interface.head?).map InterfaceAddress.address

/-- What the timers find when they look for a source address. -/
inductive Source where
  | found (addr : Ipv6Address)
  | expired
  /-- The destination is `::`. -/
  | any

/-- The source address for a solicitation of `dst`. -/
def source (dst : Ipv6Address) : Option Source :=
  if dst.isLinkLocal then (getLinkLocalAddress interface).map .found
  else if dst.isAny then some .any
  else (getAddressMatchingDestination interface dst).map fun addr => if addr.isAny then .expired else .found addr

/-- What the node is like. -/
structure Config (α : Type u) where
  forwarding : Bool
  /-- `ForgeNA`, with the source, the destination and the flags. -/
  forgeNA : Ipv6Address → Ipv6Address → ℕ → α
  /-- `GetMulticast` of the device. -/
  multicast : Ipv6Address → Address

/-! ### Entries -/

/-- `NdiscCacheEntryState_e`. -/
inductive State where
  | incomplete
  | reachable
  | stale
  | delay
  | probe
  deriving DecidableEq

/-- The four timers of an entry. -/
inductive TimerKind where
  /-- `m_reachableTimer`. -/
  | reachable
  /-- `m_retransTimer`. -/
  | retrans
  /-- `m_probeTimer`. -/
  | probe
  /-- `m_delayTimer`. -/
  | delay
  deriving DecidableEq

/-- The state a timer belongs to. -/
def TimerKind.state : TimerKind → State
  | .reachable => .reachable
  | .retrans => .incomplete
  | .probe => .probe
  | .delay => .delay

/-- A neighbour, its timers, and what waits for its address. -/
structure Entry (α : Type u) where
  state : State
  waiting : List α
  router : Bool
  macAddress : Address
  reachableTimer : Timer
  retransTimer : Timer
  probeTimer : Timer
  delayTimer : Timer
  nsRetransmit : ℕ

/-- `Timer::Schedule`, which is fatal where the timer runs. -/
def schedule (now delay : ℤ) : Timer → Option Timer
  | none => some (.schedule now delay)
  | some _ => none

namespace Entry

variable {α : Type u}

/-- `Entry (nd)`. The state is set by who adds the entry. -/
def new (state : State) : Entry α := ⟨state, [], false, ⟨0, []⟩, none, none, none, none, 0⟩

variable (e : Entry α)

/-- A timer of the entry. -/
def timer : TimerKind → Timer
  | .reachable => e.reachableTimer
  | .retrans => e.retransTimer
  | .probe => e.probeTimer
  | .delay => e.delayTimer

/-- The neighbour is a router, or not. -/
def setRouter (router : Bool) (e : Entry α) : Entry α := { e with router := router }

/-- The neighbour's address. -/
def setMacAddress (mac : Address) (e : Entry α) : Entry α := { e with macAddress := mac }

/-- A packet more waits. -/
def addWaitingPacket (p : α) (e : Entry α) : Entry α := { e with waiting := e.waiting ++ [p] }

/-- Nothing waits. -/
def clearWaitingPacket : Entry α := { e with waiting := [] }

/-- `MarkIncomplete (p)`. -/
def markIncomplete (p : α) (e : Entry α) : Entry α := { e with state := .incomplete, waiting := e.waiting ++ [p] }

/-- `MarkReachable ()`. -/
def markReachable : Entry α := { e with state := .reachable }

/-- `MarkReachable (mac)`. -/
def markReachableAt (mac : Address) (e : Entry α) : Entry α := { e with state := .reachable, macAddress := mac }

/-- `MarkStale ()`. -/
def markStale : Entry α := { e with state := .stale }

/-- `MarkStale (mac)`. -/
def markStaleAt (mac : Address) (e : Entry α) : Entry α := { e with state := .stale, macAddress := mac }

/-- The state is `DELAY`. -/
def markDelay : Entry α := { e with state := .delay }

/-- The state is `PROBE`. -/
def markProbe : Entry α := { e with state := .probe }

/-- One solicitation more. -/
def incNSRetransmit : Entry α := { e with nsRetransmit := e.nsRetransmit + 1 }

/-- No solicitations are counted. -/
def resetNSRetransmit : Entry α := { e with nsRetransmit := 0 }

/-- The neighbour counts as reachable for a while. -/
def startReachableTimer (now : ℤ) (e : Entry α) : Option (Entry α) :=
  (schedule now (Time.milliSeconds reachableTime) e.reachableTimer).map fun t => { e with reachableTimer := t }

/-- The reachable timer stops. -/
def stopReachableTimer : Entry α := { e with reachableTimer := .cancel }

/-- The next probe is scheduled. -/
def startProbeTimer (now : ℤ) (e : Entry α) : Option (Entry α) :=
  (schedule now (Time.milliSeconds retransTime) e.probeTimer).map fun t => { e with probeTimer := t }

/-- The probe timer stops, and the count of solicitations. -/
def stopProbeTimer : Entry α := ({ e with probeTimer := .cancel } : Entry α).resetNSRetransmit

/-- The first probe is scheduled. -/
def startDelayTimer (now : ℤ) (e : Entry α) : Option (Entry α) :=
  (schedule now (Time.seconds delayFirstProbeTime) e.delayTimer).map fun t => { e with delayTimer := t }

/-- The delay timer stops, and the count of solicitations. -/
def stopDelayTimer : Entry α := ({ e with delayTimer := .cancel } : Entry α).resetNSRetransmit

/-- The next solicitation is scheduled. -/
def startRetransmitTimer (now : ℤ) (e : Entry α) : Option (Entry α) :=
  (schedule now (Time.milliSeconds retransTime) e.retransTimer).map fun t => { e with retransTimer := t }

/-- The retransmission timer stops, and the count of solicitations. -/
def stopRetransmitTimer : Entry α := ({ e with retransTimer := .cancel } : Entry α).resetNSRetransmit

/-- A timer has run out. -/
def fire : TimerKind → Entry α
  | .reachable => { e with reachableTimer := none }
  | .retrans => { e with retransTimer := none }
  | .probe => { e with probeTimer := none }
  | .delay => { e with delayTimer := none }

end Entry

/-- What is sent. -/
inductive Action (α : Type u) where
  /-- A neighbour solicitation, to the solicited-node address. -/
  | solicit (dst : Ipv6Address)
  /-- A neighbour solicitation, to the neighbour. -/
  | probe (dst : Ipv6Address) (mac : Address)
  /-- A destination unreachable error for the packet. -/
  | unreachable (p : α) (addr : Ipv6Address)
  | send (p : α) (mac : Address)
  /-- The packet, to the node itself. -/
  | deliver (p : α)

end NdiscCache

open NdiscCache

/-- `NdiscCache`: the entries of `m_ndCache`. -/
abbrev NdiscCache (α : Type u) := Store Ipv6Address (NdiscCache.Entry α)

namespace NdiscCache

variable {α : Type u}

/-- A cache after something was done, and what was sent. -/
abbrev Outcome (α : Type u) := Option (NdiscCache α × List (Action α))

/-- One thing after the other. -/
def Outcome.andThen (x : Outcome α) (f : NdiscCache α → Outcome α) : Outcome α :=
  match x with
  | none => none
  | some (c, sent) => (f c).map fun out => (out.1, sent ++ out.2)

/-- The entry of an address is put into the cache, or changed there. -/
def put (c : NdiscCache α) (dst : Ipv6Address) (e : Entry α) : Outcome α := some (c.insert dst e, [])

/-- The entry is removed. -/
def remove (c : NdiscCache α) (dst : Ipv6Address) : NdiscCache α := c.erase dst

/-- The entry of an address is changed through its pointer. -/
def modify (c : NdiscCache α) (dst : Ipv6Address) (f : Entry α → Option (Entry α)) : Outcome α :=
  match (c.lookup dst).bind f with
  | none => none
  | some e => c.put dst e

/-! ### Sending -/

variable (now : ℤ)

/-- The branch of `Lookup` for a neighbour that is not in the cache. -/
def contact (interface : List InterfaceAddress) (p : α) (dst : Ipv6Address) (c : NdiscCache α) : Outcome α :=
  let e : Entry α := ((Entry.new .incomplete).markIncomplete p).setRouter false
  if !dst.isLinkLocal && interface.length = 1 then
    -- a global address and no address to ask from
    some (remove (c.insert dst e) dst, [])
  else
    match (if dst.isLinkLocal then getLinkLocalAddress interface else getAddressMatchingDestination interface dst),
      e.startRetransmitTimer now with
    | some _, some e => some (c.insert dst e, [.solicit dst])
    | _, _ => none

/-- `Icmpv6L4Protocol::Lookup`, and the end of `Ipv6Interface::Send`. -/
def lookupAndSend (interface : List InterfaceAddress) (p : α) (dst : Ipv6Address) (c : NdiscCache α) :
    Outcome α :=
  match c.lookup dst with
  | none => c.contact now interface p dst
  | some e =>
    match e.state with
    | .reachable | .delay => some (c, [.send p e.macAddress])
    | .stale =>
      match e.startDelayTimer now with
      | none => none
      | some e => some (c.insert dst e.markDelay, [.send p e.macAddress])
    | .incomplete | .probe => c.put dst (e.addWaitingPacket p)

/-- A packet is delivered, sent to a group, or sent to the neighbour. -/
def send (now : ℤ) (cfg : Config α) (interface : List InterfaceAddress) (p : α) (dest : Ipv6Address)
    (c : NdiscCache α) : Outcome α :=
  if interface.any (fun i => dest = i.address) then some (c, [.deliver p])
  else if dest.isMulticast then some (c, [.send p (cfg.multicast dest)])
  else c.lookupAndSend now interface p dest

/-- The loops that send what waited. -/
def sendAll (now : ℤ) (cfg : Config α) (interface : List InterfaceAddress) (dest : Ipv6Address) :
    List α → NdiscCache α → Outcome α
  | [], c => some (c, [])
  | p :: waiting, c => (c.send now cfg interface p dest).andThen (sendAll now cfg interface dest waiting)

/-! ### Messages -/

/-- What waits for an entry that was just marked is sent to `src`, and the list is cleared. -/
def sendWaiting (cfg : Config α) (interface : List InterfaceAddress) (dst src : Ipv6Address) (e : Entry α)
    (c : NdiscCache α) : Outcome α :=
  ((c.put dst e).andThen (sendAll now cfg interface src e.waiting)).andThen fun c =>
    c.modify dst fun e => some e.clearWaitingPacket

/-- An entry is resolved: it is reachable, and what waited is sent to `src`. -/
def resolved (cfg : Config α) (interface : List InterfaceAddress) (dst src : Ipv6Address) (mac : Address)
    (e : Entry α) (c : NdiscCache α) : Outcome α :=
  match (e.markReachableAt mac).stopReachableTimer.startReachableTimer now with
  | none => none
  | some e => c.sendWaiting now cfg interface dst src e

/-- `ReceiveLLA`, of `HandleRA`. -/
def receiveLLA (cfg : Config α) (interface : List InterfaceAddress) (lla : Address) (src : Ipv6Address)
    (c : NdiscCache α) : Outcome α :=
  match c.lookup src with
  | none =>
    match (((Entry.new .reachable).setRouter true).setMacAddress lla).markReachable.startReachableTimer now with
    | none => none
    | some e => c.put src e
  | some e =>
    if e.state = .incomplete then c.resolved now cfg interface src src lla e.stopRetransmitTimer
    else if !e.macAddress.equal lla then c.put src (((e.setMacAddress lla).markStale).setRouter true)
    else if e.state ≠ .reachable then
      -- `IsProbe` is asked after the entry was marked, so nothing that waits is sent
      match (e.stopProbeTimer.stopDelayTimer.markReachableAt lla).stopReachableTimer.startReachableTimer now with
      | none => none
      | some e => c.put src e
    else some (c, [])

/-- What `HandleRS` and `HandleNS` do with a source link-layer address. -/
def learn (lla : Address) (src : Ipv6Address) (c : NdiscCache α) : NdiscCache α :=
  match c.lookup src with
  | none => c.insert src (((Entry.new .stale).setRouter false).markStaleAt lla)
  | some e => if !e.macAddress.equal lla then c.insert src (e.markStaleAt lla) else c

/-- `HandleRS`, with the source link-layer address if there is one. -/
def handleRS (lla : Option Address) (src : Ipv6Address) (c : NdiscCache α) : Outcome α :=
  if src = .zero then some (c, [])
  else
    match lla with
    | none => some (c, [])
    | some lla => some (c.learn lla src, [])

/-- The address of the interface that a solicitation is for: the target, unless it is our own probe. -/
def solicited (interface : List InterfaceAddress) (uid : ℕ) (target : Ipv6Address) : Option InterfaceAddress :=
  (interface.find? fun i => i.address = target).filter fun i => uid ≠ i.nsDadUid

/-- The answer of `HandleNS`. -/
def answer (cfg : Config α) (interface : List InterfaceAddress) (ifaddr : InterfaceAddress)
    (src target : Ipv6Address) (c : NdiscCache α) : Outcome α :=
  let flags := (if src = .zero then 1 else 3) + if cfg.forwarding then 4 else 0
  let dest := if src.isAny then Ipv6Address.linkMulticast 1 else src
  match if target.isLinkLocal then getLinkLocalAddress interface else some ifaddr.address with
  | none => none
  | some addr => c.send now cfg interface (cfg.forgeNA addr dest flags) dest

/-- `HandleNS`, with the source link-layer address if there is one. -/
def handleNS (cfg : Config α) (interface : List InterfaceAddress) (uid : ℕ) (src target : Ipv6Address)
    (lla : Option Address) (c : NdiscCache α) : Outcome α :=
  match solicited interface uid target with
  | none => some (c, [])
  | some ifaddr =>
    if src = .zero then c.answer now cfg interface ifaddr src target
    else
      match lla with
      | none => some (c, [])
      | some lla => (c.learn lla src).answer now cfg interface ifaddr src target

/-- The flags of a neighbour advertisement. -/
structure Flags where
  /-- `GetFlagR`. -/
  r : Bool
  /-- `GetFlagS`. -/
  s : Bool
  /-- `GetFlagO`. -/
  o : Bool

/-- The branch of `HandleNA` for an entry whose address is asked for. -/
def advertisedIncomplete (cfg : Config α) (interface : List InterfaceAddress) (src target : Ipv6Address)
    (flags : Flags) (lla : Address) (e : Entry α) (c : NdiscCache α) : Outcome α :=
  let e := e.stopRetransmitTimer
  (if flags.s then c.resolved now cfg interface target src lla e else c.put target (e.markStaleAt lla)).andThen fun c =>
    if flags.r then c.modify target fun e => some (e.setRouter true) else some (c, [])

/-- The branch of `HandleNA` for another entry, whose probe and delay timers were stopped. -/
def advertisedKnown (cfg : Config α) (interface : List InterfaceAddress) (src target : Ipv6Address)
    (flags : Flags) (lla : Address) (e : Entry α) (c : NdiscCache α) : Outcome α :=
  if !flags.o && !lla.equal e.macAddress then
    c.put target (if e.state = .reachable then e.markStale else e)
  else
    let e := e.setMacAddress lla
    if flags.s then
      (if e.state = .probe then c.sendWaiting now cfg interface target src (e.markReachableAt lla)
      else c.put target (if e.state = .reachable then e else e.markReachableAt lla)).andThen fun c =>
        c.modify target fun e => (e.stopReachableTimer.startReachableTimer now).map (Entry.setRouter flags.r)
    else c.put target ((if !lla.equal e.macAddress then e.markStale else e).setRouter flags.r)

/-- `HandleNA`, with the target link-layer address if there is one. -/
def handleNA (cfg : Config α) (interface : List InterfaceAddress) (src target : Ipv6Address) (flags : Flags)
    (lla : Option Address) (c : NdiscCache α) : Outcome α :=
  match c.lookup target, lla with
  | some e, some lla =>
    if e.state = .incomplete then c.advertisedIncomplete now cfg interface src target flags lla e
    else c.advertisedKnown now cfg interface src target flags lla e.stopProbeTimer.stopDelayTimer
  | _, _ => some (c, [])

/-! ### Timers -/

/-- `FunctionRetransmitTimeout`, from `addr`. -/
def retransmit (dst addr : Ipv6Address) (e : Entry α) (c : NdiscCache α) : Outcome α :=
  if e.nsRetransmit < maxMulticastSolicit then
    match e.incNSRetransmit.startRetransmitTimer now with
    | none => none
    | some e => some (c.insert dst e, [.solicit dst])
  else
    match e.waiting with
    | [] => none
    | p :: _ => some (c.remove dst, [.unreachable p addr])

/-- A neighbour is probed: the end of `FunctionDelayTimeout` and `FunctionProbeTimeout`. -/
def probe (now : ℤ) (dst : Ipv6Address) (e : Entry α) (c : NdiscCache α) : Outcome α :=
  match e.incNSRetransmit.startProbeTimer now with
  | none => none
  | some e => some (c.insert dst e, [.probe dst e.macAddress])

/-- The function of a timer that has run out. -/
def timeout (interface : List InterfaceAddress) (kind : TimerKind) (dst : Ipv6Address) (e : Entry α)
    (c : NdiscCache α) : Outcome α :=
  match kind with
  -- `FunctionReachableTimeout`
  | .reachable => c.put dst e.markStale
  -- `FunctionRetransmitTimeout`
  | .retrans =>
    match source interface dst with
    | none => none
    | some (.found addr) => c.retransmit now dst addr e
    | some .any => c.retransmit now dst .zero e
    | some .expired => some (c.remove dst, [])
  -- `FunctionDelayTimeout`
  | .delay =>
    let e := e.markProbe
    match source interface dst with
    | none => none
    | some (.found _) => c.probe now dst e.resetNSRetransmit
    | some .any => c.put dst e
    | some .expired => some (c.remove dst, [])
  -- `FunctionProbeTimeout`
  | .probe =>
    if e.nsRetransmit < maxUnicastSolicit then
      match source interface dst with
      | none => none
      | some (.found _) => c.probe now dst e
      | some .any => c.put dst e
      | some .expired => some (c.remove dst, [])
    else some (c.remove dst, [])

/-! ### Runs -/

/-- The time, the addresses of the interface, and the cache. -/
structure Timed (α : Type u) where
  /-- `Simulator::Now`. -/
  now : ℤ
  /-- The addresses of the interface. -/
  interface : List InterfaceAddress
  cache : NdiscCache α

/-- What happens to a cache. -/
inductive Event (α : Type u) where
  | advance (now : ℤ)
  /-- The interface gets other addresses. -/
  | setAddresses (interface : List InterfaceAddress)
  | send (p : α) (dest : Ipv6Address)
  /-- A router solicitation arrives. -/
  | rs (src : Ipv6Address) (lla : Option Address)
  /-- A neighbour solicitation arrives. -/
  | ns (uid : ℕ) (src target : Ipv6Address) (lla : Option Address)
  /-- A neighbour advertisement arrives. -/
  | na (src target : Ipv6Address) (flags : Flags) (lla : Option Address)
  /-- A router advertisement arrives. -/
  | ra (src : Ipv6Address) (lla : Option Address)
  /-- A timer of an entry runs out. -/
  | timeout (kind : TimerKind) (dst : Ipv6Address)
  /-- `Flush`: the link of the device changes. -/
  | flush

/-- Time does not pass a timer that is due, and a timer runs out when it is. -/
def Timed.Enabled (s : Timed α) : Event α → Prop
  | .advance now => s.now ≤ now ∧ ∀ x ∈ s.cache.entries, x.2.reachableTimer.Allows now ∧ x.2.retransTimer.Allows now ∧
      x.2.probeTimer.Allows now ∧ x.2.delayTimer.Allows now
  | .timeout kind dst => ∃ e ∈ s.cache.lookup dst, (e.timer kind).Due s.now
  | .setAddresses _ | .send .. | .rs .. | .ns .. | .na .. | .ra .. | .flush => True

instance (s : Timed α) : (e : Event α) → Decidable (s.Enabled e)
  | .advance now => inferInstanceAs (Decidable (s.now ≤ now ∧ ∀ x ∈ s.cache.entries, _))
  | .timeout kind dst => inferInstanceAs (Decidable (∃ e ∈ s.cache.lookup dst, (e.timer kind).Due s.now))
  | .setAddresses _ | .send .. | .rs .. | .ns .. | .na .. | .ra .. | .flush => .isTrue trivial

/-- The handler of an event. -/
def Timed.handle (cfg : Config α) (s : Timed α) : Event α → Outcome α
  | .advance _ | .setAddresses _ => some (s.cache, [])
  | .send p dest => s.cache.send s.now cfg s.interface p dest
  | .rs src lla => s.cache.handleRS lla src
  | .ns uid src target lla => s.cache.handleNS s.now cfg s.interface uid src target lla
  | .na src target flags lla => s.cache.handleNA s.now cfg s.interface src target flags lla
  | .ra src (some lla) => s.cache.receiveLLA s.now cfg s.interface lla src
  | .ra _ none => some (s.cache, [])
  | .timeout kind dst =>
    match s.cache.lookup dst with
    | none => none
    | some e => s.cache.timeout s.now s.interface kind dst (e.fire kind)
  | .flush => some (∅, [])

/-- The time and the addresses after an event, with the cache it leaves. -/
def Timed.after (s : Timed α) (c : NdiscCache α) : Event α → Timed α
  | .advance now => { s with now := now, cache := c }
  | .setAddresses interface => { s with interface := interface, cache := c }
  | .send .. | .rs .. | .ns .. | .na .. | .ra .. | .timeout .. | .flush => { s with cache := c }

/-- The cache, as a machine. -/
def machine (cfg : Config α) : Machine (Timed α) (Event α) where
  enabled := Timed.Enabled
  exec s e := (s.handle cfg e).map fun out => s.after out.1 e

instance (cfg : Config α) (s : Timed α) (e : Event α) : Decidable ((machine cfg).enabled s e) :=
  inferInstanceAs (Decidable (s.Enabled e))

end NdiscCache

end Ns3
