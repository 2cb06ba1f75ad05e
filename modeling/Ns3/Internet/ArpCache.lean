import Ns3.Core.Timer
import Ns3.Internet.Ipv4EndPointDemux
import Ns3.Lib.Machine
import Ns3.Lib.Store
import Ns3.Network.HardwareAddress

/-!
# The ARP cache

`ArpCache` keeps an entry for each address that was ever asked for, and the packets that wait for the
answer. `ArpL3Protocol` looks addresses up for `Ipv4Interface::Send` and reads what arrives; one timer of
the cache, for all its entries, asks again or gives up.

Each function returns the cache and what was done, and nothing where an assertion of an entry fails or the
program stops with a fatal error. Packets are kept apart by what identifies them, of the type `α`. The interface is
up, which `Config` says, and its device supports multicast.
-/

namespace Ns3

open Lib

universe u

/-- From `224.0.0.0` to `239.255.255.255`. -/
def Ipv4Address.isMulticast (a : Ipv4Address) : Bool := 0xe0000000 ≤ a.address && a.address ≤ 0xefffffff

/-- `NetDevice`: the addresses it has and sends to. -/
structure NetDevice where
  address : Address
  broadcast : Address
  multicast : Ipv4Address → Address

/-- A request or reply, with the addresses of both sides. -/
structure ArpHeader where
  type : UInt16
  macSource : Address
  macDest : Address
  ipv4Source : Ipv4Address
  ipv4Dest : Ipv4Address
  deriving DecidableEq

namespace ArpHeader

/-- `IsRequest`: the type is `ARP_TYPE_REQUEST`. -/
def isRequest (h : ArpHeader) : Bool := h.type = 1

/-- `IsReply`: the type is `ARP_TYPE_REPLY`. -/
def isReply (h : ArpHeader) : Bool := h.type = 2

end ArpHeader

namespace ArpCache

/-- `ArpCacheEntryState_e`. -/
inductive State where
  | alive
  | waitReply
  | dead
  deriving DecidableEq

/-- The attributes of a cache, and the interface and the device it is for. -/
structure Config where
  aliveTimeout : ℤ
  deadTimeout : ℤ
  waitReplyTimeout : ℤ
  maxRetries : ℕ
  pendingQueueSize : ℕ
  interface : Ipv4Interface
  /-- `m_ifup` of the interface. -/
  ifup : Bool
  device : NetDevice
  /-- The interface is up, and stays up. -/
  ifup_eq : ifup = true
  aliveTimeout_pos : 0 < aliveTimeout
  deadTimeout_pos : 0 < deadTimeout
  waitReplyTimeout_pos : 0 < waitReplyTimeout

/-- A neighbour: its address, or the packets that wait for it. -/
structure Entry (α : Type u) where
  state : State
  lastSeen : ℤ
  macAddress : Address
  pending : List α
  retries : ℕ

namespace Entry

variable {α : Type u}

/-- `Entry (arp)`. -/
def new : Entry α := ⟨.alive, 0, ⟨0, []⟩, [], 0⟩

variable (now : ℤ)

/-- The entry was used now. -/
def updateSeen (e : Entry α) : Entry α := { e with lastSeen := now }

/-- No requests are counted. -/
def clearRetries (e : Entry α) : Entry α := { e with retries := 0 }

/-- One request more. -/
def incrementRetries (e : Entry α) : Entry α := ({ e with retries := e.retries + 1 } : Entry α).updateSeen now

/-- The neighbour does not answer. -/
def markDead (e : Entry α) : Entry α := ({ e with state := .dead } : Entry α).clearRetries.updateSeen now

/-- `MarkAlive`, which asserts that the entry waits. -/
def markAlive (macAddress : Address) (e : Entry α) : Option (Entry α) :=
  if e.state = .waitReply then
    some (({ e with macAddress := macAddress, state := .alive } : Entry α).clearRetries.updateSeen now)
  else none

/-- `UpdateWaitReply`, which asserts that the entry waits: whether there was room for the packet. -/
def updateWaitReply (cfg : Config) (waiting : α) (e : Entry α) : Option (Bool × Entry α) :=
  if e.state = .waitReply then
    if cfg.pendingQueueSize ≤ e.pending.length then some (false, e)
    else some (true, { e with pending := e.pending ++ [waiting] })
  else none

/-- What `MarkWaitReply` does to the entry. It asserts that the entry does not wait yet, and no packet does. -/
def markWaitReply (waiting : α) (e : Entry α) : Option (Entry α) :=
  if (e.state = .alive ∨ e.state = .dead) ∧ e.pending.isEmpty then
    some (({ e with state := .waitReply, pending := e.pending ++ [waiting] } : Entry α).updateSeen now)
  else none

/-- `GetMacAddress`, which asserts that the entry is alive. -/
def getMacAddress (e : Entry α) : Option Address := if e.state = .alive then some e.macAddress else none

/-- How long an entry of this state is good. -/
def getTimeout (cfg : Config) (e : Entry α) : ℤ :=
  match e.state with
  | .waitReply => cfg.waitReplyTimeout
  | .dead => cfg.deadTimeout
  | .alive => cfg.aliveTimeout

/-- It is longer since the entry was used. -/
def isExpired (cfg : Config) (now : ℤ) (e : Entry α) : Bool := e.getTimeout cfg < now - e.lastSeen

/-- `DequeuePending`: the packet, and the entry without it. -/
def dequeuePending (e : Entry α) : Option (α × Entry α) :=
  match e.pending with
  | [] => none
  | p :: pending => some (p, { e with pending := pending })

end Entry

/-- What is sent and reported, and the packets that it happens to. -/
inductive Action (α : Type u) where
  /-- An ARP request for the address is broadcast. -/
  | request (dest : Ipv4Address)
  /-- The ARP reply for the address is sent. -/
  | reply (myIp toIp : Ipv4Address) (toMac : Address)
  /-- The packet is sent by the device. -/
  | send (p : α) (mac : Address)
  /-- The packet is received by the node itself. -/
  | deliver (p : α)
  /-- The packet is reported to `m_dropTrace`. -/
  | drop (p : α)
  /-- The ARP packet that arrived is. -/
  | dropReply

end ArpCache

/-- The entries, with the timer of their requests. -/
structure ArpCache (α : Type u) where
  arpCache : Store Ipv4Address (ArpCache.Entry α)
  waitReplyTimer : Timer

namespace ArpCache

variable {α : Type u}

/-- `ArpCache ()`. -/
def new : ArpCache α := ⟨∅, .cancel⟩

/-- The entry of an address is put into the cache, or changed there. -/
def put (dest : Ipv4Address) (e : Entry α) (c : ArpCache α) : ArpCache α :=
  { c with arpCache := c.arpCache.insert dest e }

variable (cfg : Config)

/-- The timer runs, if it does not already. -/
def startWaitReplyTimer (now : ℤ) (c : ArpCache α) : ArpCache α :=
  match c.waitReplyTimer with
  | none => { c with waitReplyTimer := .schedule now cfg.waitReplyTimeout }
  | some _ => c

/-! ### Sending -/

variable (now : ℤ)

/-- The entry of a destination starts to wait with a packet, and `SendArpRequest`. -/
def resolve (cfg : Config) (packet : α) (destination : Ipv4Address) (entry : Entry α) (c : ArpCache α) :
    Option (ArpCache α × List (Action α) × Option Address) :=
  match entry.markWaitReply now packet with
  | none => none
  | some entry => some ((c.put destination entry).startWaitReplyTimer cfg now, [.request destination], none)

/-- `ArpL3Protocol::Lookup`: with the hardware destination where it returns true. -/
def lookup (now : ℤ) (cfg : Config) (packet : α) (destination : Ipv4Address) (c : ArpCache α) :
    Option (ArpCache α × List (Action α) × Option Address) :=
  match c.arpCache.lookup destination with
  | some entry =>
    if entry.isExpired cfg now then
      match entry.state with
      | .dead | .alive => c.resolve now cfg packet destination entry
      -- `Test for possibly unreachable code`
      | .waitReply => none
    else
      match entry.state with
      | .dead => some (c, [.drop packet], none)
      | .alive =>
        match entry.getMacAddress with
        | none => none
        | some mac => some (c, [], some mac)
      | .waitReply =>
        match entry.updateWaitReply cfg packet with
        | none => none
        | some (true, entry) => some (c.put destination entry, [], none)
        | some (false, _) => some (c, [.drop packet], none)
  | none => c.resolve now cfg packet destination .new

/-- The end of `Ipv4Interface::Send`: the packet goes where the destination is known. -/
def lookupAndSend (cfg : Config) (p : α) (dest : Ipv4Address) (c : ArpCache α) :
    Option (ArpCache α × List (Action α)) :=
  match c.lookup now cfg p dest with
  | none => none
  | some (c, actions, some mac) => some (c, actions ++ [.send p mac])
  | some (c, actions, none) => some (c, actions)

/-- `Ipv4Interface::Send`, which does nothing where the interface is not up. -/
def send (now : ℤ) (cfg : Config) (p : α) (dest : Ipv4Address) (c : ArpCache α) :
    Option (ArpCache α × List (Action α)) :=
  if ¬ cfg.ifup then some (c, [])
  else if cfg.interface.addresses.any (fun addr => dest = addr.1) then some (c, [.deliver p])
  else if dest.isBroadcast then some (c, [.send p cfg.device.broadcast])
  else if dest.isMulticast then some (c, [.send p (cfg.device.multicast dest)])
  else if cfg.interface.addresses.any (fun addr => dest.isSubnetDirectedBroadcast addr.2) then
    some (c, [.send p cfg.device.broadcast])
  else c.lookupAndSend now cfg p dest

/-! ### Receiving -/

/-- The loop of `Receive` that sends what waits for `dest`, in the given number of rounds. -/
def sendPending (now : ℤ) (cfg : Config) (dest : Ipv4Address) :
    ℕ → ArpCache α → Option (ArpCache α × List (Action α))
  | 0, _ => none
  | rounds + 1, c =>
    match (c.arpCache.lookup dest).bind Entry.dequeuePending with
    | none => some (c, [])
    | some (pending, entry) =>
      match (c.put dest entry).send now cfg pending dest with
      | none => none
      | some (c, sent) => (c.sendPending now cfg dest rounds).map fun out => (out.1, sent ++ out.2)

/-- The branch of `Receive` for a reply. -/
def receiveReply (cfg : Config) (arp : ArpHeader) (c : ArpCache α) :
    Option (ArpCache α × List (Action α)) :=
  match c.arpCache.lookup arp.ipv4Source with
  | none => some (c, [.dropReply])
  | some entry =>
    if entry.state = .waitReply then
      match entry.markAlive now arp.macSource with
      | none => none
      | some entry => (c.put arp.ipv4Source entry).sendPending now cfg arp.ipv4Source (entry.pending.length + 1)
    -- it might well be an attempt at poisoning the cache
    else some (c, [.dropReply])

/-- `ArpL3Protocol::Receive`, after the header was read. -/
def receive (cfg : Config) (arp : ArpHeader) (c : ArpCache α) : Option (ArpCache α × List (Action α)) :=
  if cfg.interface.addresses.any (fun addr => arp.ipv4Dest = addr.1) then
    if arp.isRequest then some (c, [.reply arp.ipv4Dest arp.ipv4Source arp.macSource])
    else if arp.isReply && arp.macDest.equal cfg.device.address then c.receiveReply now cfg arp
    else some (c, [])
  else some (c, [])

/-! ### The timer -/

/-- The entry is asked for again. -/
def Entry.Retries (e : Entry α) : Prop := e.state = .waitReply ∧ e.retries < cfg.maxRetries
deriving Decidable

/-- What `HandleWaitReplyTimeout` does to an entry. -/
def Entry.waitReplyTimeout (cfg : Config) (e : Entry α) : Entry α :=
  if e.state = .waitReply then
    if e.retries < cfg.maxRetries then e.incrementRetries now
    else { (e.markDead now).clearRetries with pending := [] }
  else e

/-- What `HandleWaitReplyTimeout` does for an entry. -/
def Entry.waitReplyActions (dest : Ipv4Address) (e : Entry α) : List (Action α) :=
  if e.state = .waitReply then
    if e.retries < cfg.maxRetries then [.request dest] else e.pending.map .drop
  else []

/-- Requests are sent again, or given up. -/
def handleWaitReplyTimeout (cfg : Config) (c : ArpCache α) : ArpCache α × List (Action α) :=
  ({ arpCache := Store.mapValues (fun _ e => e.waitReplyTimeout now cfg) c.arpCache
     waitReplyTimer :=
       if c.arpCache.entries.any (fun x => x.2.Retries cfg) then .schedule now cfg.waitReplyTimeout else .cancel },
    c.arpCache.entries.flatMap fun x => x.2.waitReplyActions cfg x.1)

/-- All entries are removed, with the timer. -/
def flush (_ : ArpCache α) : ArpCache α := new

/-! ### Runs -/

/-- The time and the cache. -/
structure Timed (α : Type u) where
  /-- `Simulator::Now`. -/
  now : ℤ
  cache : ArpCache α

/-- What happens to a cache. -/
inductive Event (α : Type u) where
  | advance (now : ℤ)
  /-- A packet for a destination that the interface asks for. -/
  | lookup (packet : α) (destination : Ipv4Address)
  | receive (arp : ArpHeader)
  | waitReplyTimeout
  /-- The link of the device changes. -/
  | flush
  deriving DecidableEq

/-- Time does not pass a timer that is due, and the timer fires when it is. -/
def Timed.Enabled (s : Timed α) : Event α → Prop
  | .advance now => s.now ≤ now ∧ s.cache.waitReplyTimer.Allows now
  | .waitReplyTimeout => s.cache.waitReplyTimer.Due s.now
  | .lookup .. | .receive _ | .flush => True

instance (s : Timed α) : (e : Event α) → Decidable (s.Enabled e)
  | .advance now => inferInstanceAs (Decidable (s.now ≤ now ∧ s.cache.waitReplyTimer.Allows now))
  | .waitReplyTimeout => inferInstanceAs (Decidable (s.cache.waitReplyTimer.Due s.now))
  | .lookup .. | .receive _ | .flush => .isTrue trivial

/-- The handler of an event: the cache, and what was done. -/
def Timed.handle (s : Timed α) : Event α → Option (ArpCache α × List (Action α))
  | .advance _ => some (s.cache, [])
  | .lookup packet destination => s.cache.lookupAndSend s.now cfg packet destination
  | .receive arp => s.cache.receive s.now cfg arp
  | .waitReplyTimeout => some (s.cache.handleWaitReplyTimeout s.now cfg)
  | .flush => some (s.cache.flush, [])

/-- The time after an event. -/
def Timed.clock (s : Timed α) : Event α → ℤ
  | .advance now => now
  | .lookup .. | .receive _ | .waitReplyTimeout | .flush => s.now

/-- The cache, as a machine. -/
def machine (α : Type u) (cfg : Config) : Machine (Timed α) (Event α) where
  enabled := Timed.Enabled
  exec s e := (s.handle cfg e).map fun out => ⟨s.clock e, out.1⟩

instance (cfg : Config) (s : Timed α) (e : Event α) : Decidable ((machine α cfg).enabled s e) :=
  inferInstanceAs (Decidable (s.Enabled e))

end ArpCache

end Ns3
