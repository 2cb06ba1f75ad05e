import Ns3.Internet.ArpCache
import Ns3.Lib.Attempts

/-!
# No packet is lost in the ARP cache

One timer serves all the entries of a cache, and each entry has its own state, time stamp and count of
retries. What ties them together is that the timer is due no later than the time-out of each entry that waits: an
entry that starts to wait starts the timer, or finds it running with less than a whole time-out left, and each firing
refreshes all the entries that go on waiting.

## What is proved

* `Entry.Sound`, `Sound` — the invariant; `Sound.looked` — what a look-up does in a sound cache, so that neither an
  assertion nor the fatal branch stops it.
* `Within`, from `Ns3.Lib.Attempts` — an address has had one request more than its entry counts retries.
* `safety_and_conservation` — in every run of a cache that starts empty no handler stops, packets wait in entries that
  wait for a reply and no more of them than the queue has room for, a resolution has at most `1 + MaxRetries`
  requests, and without a flush each packet was sent as often as it was given, up to those dropped or still waiting.
-/

namespace Ns3.ArpCache

open Lib

universe u

variable {α : Type u} {cfg : Config} {now : ℤ} {p packet : α} {dest destination : Ipv4Address} {e : Entry α}
  {c c' : ArpCache α}

/-! ### The cache -/

@[simp] theorem put_arpCache (dest : Ipv4Address) (e : Entry α) (c : ArpCache α) :
    (c.put dest e).arpCache = c.arpCache.insert dest e := rfl

@[simp] theorem put_waitReplyTimer (dest : Ipv4Address) (e : Entry α) (c : ArpCache α) :
    (c.put dest e).waitReplyTimer = c.waitReplyTimer := rfl

theorem put_put (dest : Ipv4Address) (e e' : Entry α) (c : ArpCache α) :
    (c.put dest e).put dest e' = c.put dest e' := by
  unfold put
  rw [AList.insert_insert]

@[simp] theorem startWaitReplyTimer_arpCache (cfg : Config) (now : ℤ) (c : ArpCache α) :
    (c.startWaitReplyTimer cfg now).arpCache = c.arpCache := by
  unfold startWaitReplyTimer
  split <;> rfl

theorem startWaitReplyTimer_cases (cfg : Config) (now : ℤ) (c : ArpCache α) :
    (c.waitReplyTimer = none ∧
      (c.startWaitReplyTimer cfg now).waitReplyTimer = some (now + cfg.waitReplyTimeout)) ∨
    ∃ d, c.waitReplyTimer = some d ∧ (c.startWaitReplyTimer cfg now).waitReplyTimer = some d := by
  unfold startWaitReplyTimer
  cases htimer : c.waitReplyTimer with
  | none => exact .inl ⟨rfl, rfl⟩
  | some d => exact .inr ⟨d, rfl, htimer⟩

/-! ### The invariant -/

/-- An entry that waits is refreshed before its time is up, and no packet waits in another one. -/
structure Entry.Sound (cfg : Config) (timer : Timer) (e : Entry α) : Prop where
  /-- The timer fires within the time-out of an entry that waits. -/
  due : e.state = .waitReply → ∃ d, timer = some d ∧ d ≤ e.lastSeen + cfg.waitReplyTimeout
  /-- It has not been asked for too often. -/
  retries_le : e.retries ≤ cfg.maxRetries
  /-- The queue has room for what waits. -/
  pending_le : e.pending.length ≤ max 1 cfg.pendingQueueSize
  /-- An entry that does not wait is clean. -/
  idle : e.state ≠ .waitReply → e.pending = [] ∧ e.retries = 0

/-- All the entries are sound, and the timer is due within its delay. -/
structure Sound (cfg : Config) (now : ℤ) (c : ArpCache α) : Prop where
  /-- The timer has not been passed, and was started with the time-out. -/
  timer : ∀ d, c.waitReplyTimer = some d → now ≤ d ∧ d ≤ now + cfg.waitReplyTimeout
  entries : ∀ dest e, c.arpCache.lookup dest = some e → e.Sound cfg c.waitReplyTimer

theorem sound_new (cfg : Config) (now : ℤ) : (new : ArpCache α).Sound cfg now := by
  constructor
  · intro d hd
    cases hd
  · intro dest e he
    cases he

theorem Sound.not_expired (h : c.Sound cfg now) (he : c.arpCache.lookup dest = some e) (hwait : e.state = .waitReply) :
    e.isExpired cfg now = false := by
  obtain ⟨d, hd, hle⟩ := (h.entries dest e he).due hwait
  have hnow := (h.timer d hd).1
  have htimeout : e.getTimeout cfg = cfg.waitReplyTimeout := by rw [Entry.getTimeout, hwait]
  rw [Entry.isExpired, htimeout, decide_eq_false_iff_not]
  omega

/-- An entry is put into the cache that is sound with the timer it has. -/
theorem Sound.put (h : c.Sound cfg now) (he : e.Sound cfg c.waitReplyTimer) : (c.put dest e).Sound cfg now :=
  ⟨h.timer, Store.forall_insert h.entries he⟩

theorem Sound.advance {now' : ℤ} (h : c.Sound cfg now) (hle : now ≤ now') (hallows : c.waitReplyTimer.Allows now') :
    c.Sound cfg now' := by
  refine ⟨fun d hd => ⟨hallows d hd, ?_⟩, h.entries⟩
  have hd' := (h.timer d hd).2
  omega

/-! ### Looking up -/

/-- The entry that starts to wait with a packet. -/
def Entry.started (now : ℤ) (p : α) (e : Entry α) : Entry α :=
  { e with state := .waitReply, lastSeen := now, pending := [p], retries := 0 }

/-- What a look-up may do. -/
inductive Looked (now : ℤ) (cfg : Config) (packet : α) (destination : Ipv4Address) (c : ArpCache α) :
    ArpCache α × List (Action α) × Option Address → Prop where
  /-- The destination is asked for, and the packet waits. -/
  | started (e : Entry α) :
      (∀ old, c.arpCache.lookup destination = some old → old.state ≠ .waitReply ∧ old.pending = []) →
      Looked now cfg packet destination c
        ((c.put destination (e.started now packet)).startWaitReplyTimer cfg now, [.request destination], none)
  | dropped : Looked now cfg packet destination c (c, [.drop packet], none)
  | known (mac : Address) : Looked now cfg packet destination c (c, [], some mac)
  /-- The packet waits with others. -/
  | queued (e : Entry α) :
      c.arpCache.lookup destination = some e → e.state = .waitReply → e.pending.length < cfg.pendingQueueSize →
      Looked now cfg packet destination c (c.put destination { e with pending := e.pending ++ [packet] }, [], none)

theorem resolve_eq (hstate : e.state ≠ .waitReply) (hpending : e.pending = []) (hretries : e.retries = 0) :
    c.resolve now cfg packet destination e =
      some ((c.put destination (e.started now packet)).startWaitReplyTimer cfg now, [.request destination], none) := by
  have hcond : (e.state = .alive ∨ e.state = .dead) ∧ e.pending.isEmpty := by
    refine ⟨?_, by rw [hpending]; rfl⟩
    cases hs : e.state with
    | alive => exact .inl rfl
    | waitReply => exact absurd hs hstate
    | dead => exact .inr rfl
  have hmark : e.markWaitReply now packet = some (e.started now packet) := by
    rw [Entry.markWaitReply, if_pos hcond, Entry.updateSeen, Entry.started, hpending, List.nil_append, hretries]
  rw [resolve, hmark]

/-- A look-up in a sound cache does not stop. -/
theorem Sound.looked (h : c.Sound cfg now) (packet : α) (destination : Ipv4Address) :
    ∃ out, c.lookup now cfg packet destination = some out ∧ Looked now cfg packet destination c out := by
  unfold lookup
  cases he : c.arpCache.lookup destination with
  | none =>
    refine ⟨_, resolve_eq State.noConfusion rfl rfl, .started _ fun old hold => ?_⟩
    rw [he] at hold
    cases hold
  | some e =>
    have hsound := h.entries destination e he
    have hfresh : e.state ≠ .waitReply →
        ∃ out, c.resolve now cfg packet destination e = some out ∧ Looked now cfg packet destination c out := by
      intro hstate
      obtain ⟨hpending, hretries⟩ := hsound.idle hstate
      refine ⟨_, resolve_eq hstate hpending hretries, .started _ fun old hold => ?_⟩
      obtain rfl := Option.some.inj (he.symm.trans hold)
      exact ⟨hstate, hpending⟩
    dsimp only
    by_cases hexpired : e.isExpired cfg now
    · rw [if_pos hexpired]
      cases hs : e.state with
      | alive => exact hfresh (by rw [hs]; decide)
      | dead => exact hfresh (by rw [hs]; decide)
      | waitReply =>
        rw [h.not_expired he hs] at hexpired
        cases hexpired
    · rw [if_neg hexpired]
      cases hs : e.state with
      | dead => exact ⟨_, rfl, .dropped⟩
      | alive =>
        have hmac : e.getMacAddress = some e.macAddress := if_pos hs
        simp only [hmac]
        exact ⟨_, rfl, .known _⟩
      | waitReply =>
        by_cases hroom : cfg.pendingQueueSize ≤ e.pending.length
        · have hupdate : e.updateWaitReply cfg packet = some (false, e) := by
            rw [Entry.updateWaitReply, if_pos hs, if_pos hroom]
          simp only [hupdate]
          exact ⟨_, rfl, .dropped⟩
        · have hupdate : e.updateWaitReply cfg packet = some (true, { e with pending := e.pending ++ [packet] }) := by
            rw [Entry.updateWaitReply, if_pos hs, if_neg hroom]
          simp only [hupdate]
          exact ⟨_, rfl, .queued e he hs (Nat.lt_of_not_le hroom)⟩

variable {out : ArpCache α × List (Action α) × Option Address}

/-- It keeps the invariant. -/
theorem Looked.sound (hout : Looked now cfg packet destination c out) (h : c.Sound cfg now) : out.1.Sound cfg now := by
  cases hout with
  | dropped => exact h
  | known => exact h
  | queued e he hwait hroom =>
    have hsound := h.entries _ _ he
    refine h.put { hsound with pending_le := ?_, idle := fun hne => absurd hwait hne }
    rw [List.length_append, List.length_singleton]
    omega
  | started e hidle =>
    have hpos := cfg.waitReplyTimeout_pos
    have hentry : ∀ d, d ≤ now + cfg.waitReplyTimeout → (e.started now packet).Sound cfg (some d) := by
      intro d hd
      refine ⟨fun _ => ⟨d, rfl, hd⟩, Nat.zero_le _, ?_, fun hne => absurd rfl hne⟩
      exact Nat.le_max_left 1 _
    rcases startWaitReplyTimer_cases cfg now (c.put destination (e.started now packet)) with
      ⟨hnone, hstarted⟩ | ⟨d, hd, hkept⟩
    · constructor
      · intro d hd
        obtain rfl := Option.some.inj (hstarted.symm.trans hd)
        omega
      · rw [startWaitReplyTimer_arpCache, hstarted]
        refine Store.forall_insert (fun dest e he => ?_) (hentry _ (Int.le_refl _))
        -- no other entry waited without the timer
        have hsound := h.entries dest e he
        refine { hsound with due := fun hwait => ?_ }
        obtain ⟨d, hd, -⟩ := hsound.due hwait
        rw [put_waitReplyTimer, hd] at hnone
        cases hnone
    · rw [put_waitReplyTimer] at hd
      constructor
      · intro d' hd'
        obtain rfl := Option.some.inj (hkept.symm.trans hd')
        exact h.timer _ hd
      · rw [startWaitReplyTimer_arpCache, hkept, ← hd]
        refine Store.forall_insert h.entries ?_
        rw [hd]
        exact hentry d (h.timer d hd).2

/-! ### Receiving -/

/-- What `Ipv4Interface::Send` does with a packet whose destination has the hardware address `mac`. -/
def handOver (cfg : Config) (dest : Ipv4Address) (mac : Address) (p : α) : Action α :=
  if cfg.interface.addresses.any (fun addr => dest = addr.1) then .deliver p
  else if dest.isBroadcast then .send p cfg.device.broadcast
  else if dest.isMulticast then .send p (cfg.device.multicast dest)
  else if cfg.interface.addresses.any (fun addr => dest.isSubnetDirectedBroadcast addr.2) then
    .send p cfg.device.broadcast
  else .send p mac

/-- A packet for an entry that was just marked alive goes out, and the cache stays. -/
theorem send_of_alive (he : c.arpCache.lookup dest = some e) (halive : e.state = .alive) (hseen : e.lastSeen = now) :
    c.send now cfg p dest = some (c, [handOver cfg dest e.macAddress p]) := by
  have hfresh : e.isExpired cfg now = false := by
    have htimeout : e.getTimeout cfg = cfg.aliveTimeout := by rw [Entry.getTimeout, halive]
    have hpos := cfg.aliveTimeout_pos
    rw [Entry.isExpired, htimeout, decide_eq_false_iff_not]
    omega
  have hmac : e.getMacAddress = some e.macAddress := if_pos halive
  have hlookup : c.lookup now cfg p dest = some (c, [], some e.macAddress) := by
    simp only [lookup, he, hfresh, halive, hmac, Bool.false_eq_true, if_false]
  have hsend : c.lookupAndSend now cfg p dest = some (c, [.send p e.macAddress]) := by
    rw [lookupAndSend, hlookup]
    rfl
  unfold send handOver
  rw [hsend, if_neg (not_not_intro cfg.ifup_eq)]
  split_ifs <;> rfl

/-- The loop sends all that waits, in the order it came. -/
theorem sendPending_eq (halive : e.state = .alive) (hseen : e.lastSeen = now) (pending : List α) :
    (c.put dest { e with pending := pending }).sendPending now cfg dest (pending.length + 1) =
      some (c.put dest { e with pending := [] }, pending.map (handOver cfg dest e.macAddress)) := by
  induction pending with
  | nil =>
    simp only [sendPending, put_arpCache, AList.lookup_insert, Option.bind_some, Entry.dequeuePending,
      List.map_nil]
  | cons p pending ih =>
    have hfront : ((c.put dest { e with pending := p :: pending }).arpCache.lookup dest).bind Entry.dequeuePending =
        some (p, { e with pending := pending }) := by
      rw [put_arpCache, AList.lookup_insert]
      rfl
    have hlookup : (c.put dest { e with pending := pending }).arpCache.lookup dest =
        some { e with pending := pending } := AList.lookup_insert _
    have hsend : (c.put dest { e with pending := pending }).send now cfg p dest =
        some (c.put dest { e with pending := pending }, [handOver cfg dest e.macAddress p]) :=
      send_of_alive (e := { e with pending := pending }) hlookup halive hseen
    rw [List.length_cons, sendPending, hfront]
    simp only [put_put, hsend, ih, Option.map_some, List.map_cons, List.singleton_append]

/-- What is received from a node that was asked for: the entry is alive, and what waited is sent. -/
def Entry.answered (now : ℤ) (mac : Address) (e : Entry α) : Entry α :=
  { e with state := .alive, lastSeen := now, macAddress := mac, pending := [], retries := 0 }

/-- What receiving may do. -/
inductive Received (now : ℤ) (cfg : Config) (arp : ArpHeader) (c : ArpCache α) :
    ArpCache α × List (Action α) → Prop where
  | ignored : Received now cfg arp c (c, [])
  | dropped : Received now cfg arp c (c, [.dropReply])
  | replied : Received now cfg arp c (c, [.reply arp.ipv4Dest arp.ipv4Source arp.macSource])
  | answered (e : Entry α) :
      c.arpCache.lookup arp.ipv4Source = some e → e.state = .waitReply →
      Received now cfg arp c
        (c.put arp.ipv4Source (e.answered now arp.macSource), e.pending.map (handOver cfg arp.ipv4Source arp.macSource))

/-- Receiving does not stop. -/
theorem received (now : ℤ) (cfg : Config) (arp : ArpHeader) (c : ArpCache α) :
    ∃ out, c.receive now cfg arp = some out ∧ Received now cfg arp c out := by
  unfold receive
  split_ifs
  · exact ⟨_, rfl, .replied⟩
  · unfold receiveReply
    cases he : c.arpCache.lookup arp.ipv4Source with
    | none => exact ⟨_, rfl, .dropped⟩
    | some e =>
      dsimp only
      by_cases hwait : e.state = .waitReply
      · rw [if_pos hwait]
        simp only [Entry.markAlive, if_pos hwait]
        let alive : Entry α := { e.answered now arp.macSource with pending := e.pending }
        exact ⟨_, sendPending_eq (e := alive) rfl rfl e.pending, .answered e he hwait⟩
      · rw [if_neg hwait]
        exact ⟨_, rfl, .dropped⟩
  · exact ⟨_, rfl, .ignored⟩
  · exact ⟨_, rfl, .ignored⟩

/-- It keeps the invariant. -/
theorem Received.sound {arp : ArpHeader} {out : ArpCache α × List (Action α)} (hout : Received now cfg arp c out)
    (h : c.Sound cfg now) : out.1.Sound cfg now := by
  cases hout with
  | ignored => exact h
  | dropped => exact h
  | replied => exact h
  | answered e he hwait =>
    refine h.put ⟨State.noConfusion, Nat.zero_le _, Nat.zero_le _, fun _ => ⟨rfl, rfl⟩⟩

/-! ### The timer -/

/-- What becomes of a sound entry when the timer fires. -/
theorem Entry.Sound.waitReplyTimeout {timer : Timer} (h : e.Sound cfg timer) (now : ℤ) :
    (e.waitReplyTimeout now cfg).Sound cfg (if e.Retries cfg then some (now + cfg.waitReplyTimeout) else none) := by
  unfold Entry.waitReplyTimeout
  by_cases hwait : e.state = .waitReply
  · rw [if_pos hwait]
    by_cases hretry : e.retries < cfg.maxRetries
    · have hagain : e.Retries cfg := ⟨hwait, hretry⟩
      rw [if_pos hretry, if_pos hagain]
      exact ⟨fun _ => ⟨_, rfl, Int.le_refl _⟩, hretry, h.pending_le, fun hne => absurd hwait hne⟩
    · have hdead : ¬ e.Retries cfg := fun hagain => hretry hagain.2
      rw [if_neg hretry, if_neg hdead]
      exact ⟨State.noConfusion, Nat.zero_le _, Nat.zero_le _, fun _ => ⟨rfl, rfl⟩⟩
  · have hidle : ¬ e.Retries cfg := fun hagain => hwait hagain.1
    rw [if_neg hwait, if_neg hidle]
    exact ⟨fun hwait' => absurd hwait' hwait, h.retries_le, h.pending_le, h.idle⟩

theorem Entry.retries_of_waitReplyTimeout (h : (e.waitReplyTimeout now cfg).state = .waitReply) : e.Retries cfg := by
  unfold Entry.waitReplyTimeout at h
  split_ifs at h with hwait hretry
  · exact ⟨hwait, hretry⟩
  · cases h
  · exact absurd h hwait

/-- The firing keeps the invariant. -/
theorem Sound.handleWaitReplyTimeout (h : c.Sound cfg now) : (c.handleWaitReplyTimeout now cfg).1.Sound cfg now := by
  have hpos := cfg.waitReplyTimeout_pos
  have htimer : ∀ d, (c.handleWaitReplyTimeout now cfg).1.waitReplyTimer = some d → d = now + cfg.waitReplyTimeout := by
    intro d hd
    unfold ArpCache.handleWaitReplyTimeout at hd
    split_ifs at hd
    · exact (Option.some.inj hd).symm
    · cases hd
  constructor
  · intro d hd
    have heq := htimer d hd
    omega
  · intro dest e' he'
    obtain ⟨e, he, rfl⟩ := Store.lookup_mapValues_some he'
    have hentry := (h.entries dest e he).waitReplyTimeout now
    refine { hentry with due := fun hwait => ?_ }
    -- the entry was asked for again, so the timer was started again
    have hretries := Entry.retries_of_waitReplyTimeout hwait
    have hany : c.arpCache.entries.any (fun x => x.2.Retries cfg) = true :=
      List.any_eq_true.mpr ⟨⟨dest, e⟩, AList.mem_lookup_iff.mp he, decide_eq_true hretries⟩
    obtain ⟨d, hd, hle⟩ := hentry.due hwait
    rw [if_pos hretries] at hd
    refine ⟨d, ?_, hle⟩
    rw [← hd]
    exact if_pos hany

/-! ### The step -/

variable {s s' : Timed α} {event : Event α}

/-- What is found is sent. -/
theorem lookupAndSend_of_lookup (h : c.lookup now cfg packet destination = some out) :
    c.lookupAndSend now cfg packet destination =
      some (out.1, out.2.1 ++ (out.2.2.map (Action.send packet)).toList) := by
  obtain ⟨c', actions, found⟩ := out
  rw [lookupAndSend, h]
  cases found with
  | none => simp only [Option.map_none, Option.toList_none, List.append_nil]
  | some mac => rfl

/-! ### What was done -/

/-- The destination that is asked for. -/
def Action.requested : Action α → Option Ipv4Address
  | .request dest => some dest
  | _ => none

/-- The packet that is sent. -/
def Action.sent : Action α → Option α
  | .send p _ | .deliver p => some p
  | _ => none

/-- The packet that is reported dropped. -/
def Action.dropped : Action α → Option α
  | .drop p => some p
  | _ => none

/-- The packets that are given to `Lookup`. -/
def Event.given : Event α → List α
  | .lookup packet _ => [packet]
  | .advance _ | .receive _ | .waitReplyTimeout | .flush => []

/-- A request of `Lookup` begins a resolution, and one of the timer belongs to the last. -/
def Event.attempt (event : Event α) (a : Attempts Ipv4Address) (dest : Ipv4Address) : Attempts Ipv4Address :=
  match event with
  | .waitReplyTimeout => a.again dest
  | .advance _ | .lookup .. | .receive _ | .flush => a.next dest

/-- What a cache was given and did. -/
structure Log (α : Type u) where
  /-- The requests of the resolutions. -/
  requests : Attempts Ipv4Address
  /-- The packets given to `Lookup`. -/
  given : List α
  /-- What was done, oldest first. -/
  done : List (Action α)

namespace Log

/-- Nothing yet. -/
def start : Log α := ⟨.start, [], []⟩

/-- What a handler did is added. -/
def add (event : Event α) (actions : List (Action α)) (g : Log α) : Log α :=
  { requests := (actions.filterMap Action.requested).foldl event.attempt g.requests
    given := g.given ++ event.given
    done := g.done ++ actions }

/-- What an event adds. -/
def record (cfg : Config) (s : Timed α) (event : Event α) (g : Log α) : Log α :=
  match s.handle cfg event with
  | none => g
  | some (_, actions) => g.add event actions

/-- The packets that were sent. -/
def sent (g : Log α) : List α := g.done.filterMap Action.sent

/-- The packets that were reported dropped. -/
def dropped (g : Log α) : List α := g.done.filterMap Action.dropped

end Log

/-! ### The requests of a resolution -/

/-- How many requests an entry that waits has made. -/
def Entry.requests (e : Entry α) : Option ℕ := if e.state = .waitReply then some (1 + e.retries) else none

/-- How many requests the entry of an address has made, if it waits. -/
def requests (c : ArpCache α) (dest : Ipv4Address) : Option ℕ := (c.arpCache.lookup dest).bind Entry.requests

theorem requests_put_self (dest : Ipv4Address) (e : Entry α) (c : ArpCache α) :
    (c.put dest e).requests dest = e.requests := by
  rw [requests, put_arpCache, AList.lookup_insert, Option.bind_some]

theorem requests_put_ne {dest' : Ipv4Address} (hne : dest' ≠ dest) (e : Entry α) (c : ArpCache α) :
    (c.put dest e).requests dest' = c.requests dest' := by
  rw [requests, put_arpCache, AList.lookup_insert_ne hne, requests]

theorem requests_startWaitReplyTimer (cfg : Config) (now : ℤ) (c : ArpCache α) :
    (c.startWaitReplyTimer cfg now).requests = c.requests := by
  funext dest
  rw [requests, startWaitReplyTimer_arpCache, requests]

variable {a : Attempts Ipv4Address}

/-- What is put in the place of an entry makes no fewer requests, or none. -/
theorem within_put {most : ℕ} (h : a.Within most c.requests)
    (he : ∀ m, e.requests = some m → c.requests dest = some m) : a.Within most (c.put dest e).requests := by
  refine h.anti fun dest' m hm => ⟨m, ?_, Nat.le_refl m⟩
  by_cases heq : dest' = dest
  · rw [heq, requests_put_self] at hm
    rw [heq]
    exact he m hm
  · rw [requests_put_ne heq] at hm
    exact hm

/-- A look-up keeps the bound: the first request of a resolution is within it. -/
theorem Looked.within (hout : Looked now cfg packet destination c out) (h : a.Within (1 + cfg.maxRetries) c.requests) :
    ((out.2.1.filterMap Action.requested).foldl (fun a dest => a.next dest) a).Within (1 + cfg.maxRetries)
      out.1.requests := by
  cases hout with
  | dropped => exact h
  | known => exact h
  | queued e he hwait =>
    refine within_put h fun m hm => ?_
    rw [requests, he, Option.bind_some, ← hm]
    rfl
  | started e =>
    refine h.next (Nat.add_pos_left Nat.one_pos _) fun dest m hm => ?_
    rw [requests_startWaitReplyTimer] at hm
    by_cases heq : dest = destination
    · rw [heq, requests_put_self] at hm
      cases hm
      exact .inl ⟨heq, Nat.one_pos⟩
    · rw [requests_put_ne heq] at hm
      exact .inr ⟨heq, hm⟩

/-- Receiving keeps it: nothing is asked for. -/
theorem Received.within {arp : ArpHeader} {out : ArpCache α × List (Action α)} (hout : Received now cfg arp c out)
    (h : a.Within (1 + cfg.maxRetries) c.requests) :
    ((out.2.filterMap Action.requested).foldl (fun a dest => a.next dest) a).Within (1 + cfg.maxRetries)
      out.1.requests := by
  cases hout with
  | ignored => exact h
  | dropped => exact h
  | replied => exact h
  | answered e he hwait =>
    have hnone : (e.pending.map (handOver cfg arp.ipv4Source arp.macSource)).filterMap Action.requested = [] := by
      rw [List.filterMap_map, List.filterMap_eq_nil_iff]
      intro p _
      unfold Function.comp handOver
      split_ifs <;> rfl
    rw [hnone]
    refine within_put h fun m hm => ?_
    cases hm

/-- The timer asks for the entries that are tried again. -/
theorem requested_handleWaitReplyTimeout (now : ℤ) (cfg : Config) (c : ArpCache α) :
    (c.handleWaitReplyTimeout now cfg).2.filterMap Action.requested =
      (c.arpCache.entries.filter fun x => x.2.Retries cfg).map Sigma.fst := by
  have hentry : ∀ x : Sigma fun _ : Ipv4Address => Entry α,
      (x.2.waitReplyActions cfg x.1).filterMap Action.requested = if x.2.Retries cfg then [x.1] else [] := by
    intro ⟨dest, e⟩
    unfold Entry.waitReplyActions
    by_cases hwait : e.state = .waitReply
    · by_cases hretry : e.retries < cfg.maxRetries
      · have hagain : e.Retries cfg := ⟨hwait, hretry⟩
        rw [if_pos hwait, if_pos hretry, if_pos hagain]
        rfl
      · have hdead : ¬ e.Retries cfg := fun hagain => hretry hagain.2
        rw [if_pos hwait, if_neg hretry, if_neg hdead, List.filterMap_map, List.filterMap_eq_nil_iff]
        exact fun _ _ => rfl
    · have hidle : ¬ e.Retries cfg := fun hagain => hwait hagain.1
      rw [if_neg hwait, if_neg hidle]
      rfl
  unfold ArpCache.handleWaitReplyTimeout
  dsimp only
  induction c.arpCache.entries with
  | nil => rfl
  | cons x l ih =>
    rw [List.flatMap_cons, List.filterMap_append, ih, hentry, List.filter_cons]
    by_cases hagain : x.2.Retries cfg
    · simp only [hagain, if_true, decide_true, List.map_cons, List.singleton_append]
    · simp only [hagain, if_false, decide_false, Bool.false_eq_true, List.nil_append]

/-- The timer keeps the bound: it asks again where there are retries left. -/
theorem within_handleWaitReplyTimeout (h : a.Within (1 + cfg.maxRetries) c.requests) :
    (((c.handleWaitReplyTimeout now cfg).2.filterMap Action.requested).foldl (fun a dest => a.again dest) a).Within
      (1 + cfg.maxRetries) (c.handleWaitReplyTimeout now cfg).1.requests := by
  rw [requested_handleWaitReplyTimeout]
  have hmem : ∀ dest, dest ∈ (c.arpCache.entries.filter fun x => x.2.Retries cfg).map Sigma.fst ↔
      ∃ e, c.arpCache.lookup dest = some e ∧ e.Retries cfg := by
    intro dest
    rw [List.mem_map]
    constructor
    · rintro ⟨⟨dest', e⟩, hx, rfl⟩
      obtain ⟨hx, hagain⟩ := List.mem_filter.mp hx
      exact ⟨e, AList.mem_lookup_iff.mpr hx, of_decide_eq_true hagain⟩
    · rintro ⟨e, he, hagain⟩
      exact ⟨⟨dest, e⟩, List.mem_filter.mpr ⟨AList.mem_lookup_iff.mp he, decide_eq_true hagain⟩, rfl⟩
  have hcount : ∀ dest e, c.arpCache.lookup dest = some e → e.Retries cfg → c.requests dest = some (1 + e.retries) := by
    intro dest e he hagain
    rw [requests, he, Option.bind_some, Entry.requests, if_pos hagain.1]
  refine h.agains ?_ (fun dest hdest => ?_) fun dest m hm => ?_
  · exact c.arpCache.nodupKeys.sublist List.filter_sublist
  · obtain ⟨e, he, hagain⟩ := (hmem dest).mp hdest
    exact ⟨1 + e.retries, hcount dest e he hagain, Nat.add_lt_add_left hagain.2 1⟩
  · obtain ⟨e', he', hm⟩ := Option.bind_eq_some_iff.mp hm
    obtain ⟨e, he, rfl⟩ := Store.lookup_mapValues_some he'
    have hstate : (e.waitReplyTimeout now cfg).state = .waitReply := by
      unfold Entry.requests at hm
      split_ifs at hm with hstate
      · exact hstate
    have hagain := Entry.retries_of_waitReplyTimeout hstate
    have heq : e.waitReplyTimeout now cfg = e.incrementRetries now := by
      rw [Entry.waitReplyTimeout, if_pos hagain.1, if_pos hagain.2]
    rw [Entry.requests, if_pos hstate, heq] at hm
    cases hm
    refine .inl ⟨(hmem dest).mpr ⟨e, he, hagain⟩, 1 + e.retries, hcount dest e he hagain, ?_⟩
    exact Nat.add_lt_add_left (Nat.lt_succ_self _) 1

/-! ### Where the packets are -/

section Packets

variable [DecidableEq α]

/-- How often a packet waits. -/
def pendingCount (p : α) (c : ArpCache α) : ℕ := Store.tally (fun _ e => e.pending.count p) c.arpCache

/-- How often a packet was given that has not been sent or dropped. -/
def Balanced (c : ArpCache α) (g : Log α) : Prop :=
  ∀ p, g.given.count p = g.sent.count p + g.dropped.count p + c.pendingCount p

/-- What an action does to where the packets are: as many wait or go as did or were given. -/
def Moves (c c' : ArpCache α) (given : List α) (actions : List (Action α)) : Prop :=
  ∀ p, given.count p + c.pendingCount p =
    (actions.filterMap Action.sent).count p + (actions.filterMap Action.dropped).count p + c'.pendingCount p

theorem Balanced.add {g : Log α} {actions : List (Action α)} (h : c.Balanced g)
    (hmoves : c.Moves c' event.given actions) : c'.Balanced (g.add event actions) := by
  intro p
  have hp := h p
  have hmove := hmoves p
  simp only [Log.add, Log.sent, Log.dropped, List.filterMap_append, List.count_append] at hp ⊢
  omega

theorem pendingCount_startWaitReplyTimer (p : α) (cfg : Config) (now : ℤ) (c : ArpCache α) :
    (c.startWaitReplyTimer cfg now).pendingCount p = c.pendingCount p := by
  rw [pendingCount, startWaitReplyTimer_arpCache, pendingCount]

theorem pendingCount_put (p : α) (dest : Ipv4Address) (e' : Entry α) (c : ArpCache α) :
    (c.put dest e').pendingCount p + ((c.arpCache.lookup dest).elim 0 fun e => e.pending.count p) =
      c.pendingCount p + e'.pending.count p := by
  unfold pendingCount
  cases he : c.arpCache.lookup dest with
  | none =>
    rw [Option.elim_none, Nat.add_zero]
    exact Store.tally_insert_of_lookup_eq_none he e'
  | some e => exact Store.tally_insert he e'

theorem moves_nil (c : ArpCache α) {actions : List (Action α)} (hsent : actions.filterMap Action.sent = [])
    (hdropped : actions.filterMap Action.dropped = []) : c.Moves c [] actions := by
  intro p
  rw [hsent, hdropped]
  simp

/-- A packet that is looked up is sent, dropped or left waiting. -/
theorem Looked.moves {out : ArpCache α × List (Action α) × Option Address}
    (hout : Looked now cfg packet destination c out) :
    c.Moves out.1 [packet] (out.2.1 ++ (out.2.2.map (Action.send packet)).toList) := by
  intro p
  cases hout with
  | dropped => exact Nat.add_right_cancel_iff.mpr (Nat.zero_add _).symm
  | known mac => rfl
  | queued e he =>
    have hput := pendingCount_put p destination { e with pending := e.pending ++ [packet] } c
    simp only [he, Option.elim_some, List.count_append] at hput
    simp only [Option.map_none, Option.toList_none, List.append_nil, List.filterMap_nil, List.count_nil]
    omega
  | started e hidle =>
    have hput := pendingCount_put p destination (e.started now packet) c
    have hold : ((c.arpCache.lookup destination).elim 0 fun e => e.pending.count p) = 0 := by
      cases hold : c.arpCache.lookup destination with
      | none => rfl
      | some old =>
        rw [Option.elim_some, (hidle old hold).2, List.count_nil]
    have hstarted : (e.started now packet).pending = [packet] := rfl
    rw [hold, hstarted] at hput
    rw [pendingCount_startWaitReplyTimer]
    simp only [Option.map_none, Option.toList_none, List.append_nil, List.filterMap_cons, List.filterMap_nil,
      Action.sent, Action.dropped, List.count_nil]
    omega

/-- What is received moves packets out of the cache. -/
theorem Received.moves {arp : ArpHeader} {out : ArpCache α × List (Action α)} (hout : Received now cfg arp c out) :
    c.Moves out.1 [] out.2 := by
  cases hout with
  | ignored => exact moves_nil c rfl rfl
  | dropped => exact moves_nil c rfl rfl
  | replied => exact moves_nil c rfl rfl
  | answered e he hwait =>
    intro p
    have hsent : (e.pending.map (handOver cfg arp.ipv4Source arp.macSource)).filterMap Action.sent = e.pending := by
      have hcomp : Action.sent ∘ handOver cfg arp.ipv4Source arp.macSource = some (α := α) := by
        funext p
        unfold Function.comp handOver
        split_ifs <;> rfl
      rw [List.filterMap_map, hcomp, List.filterMap_some]
    have hdropped : (e.pending.map (handOver cfg arp.ipv4Source arp.macSource)).filterMap Action.dropped = [] := by
      rw [List.filterMap_map, List.filterMap_eq_nil_iff]
      intro p _
      unfold Function.comp handOver
      split_ifs <;> rfl
    have hput := pendingCount_put p arp.ipv4Source (e.answered now arp.macSource) c
    have hanswered : (e.answered now arp.macSource).pending = [] := rfl
    rw [he, Option.elim_some, hanswered, List.count_nil] at hput
    rw [hsent, hdropped, List.count_nil]
    dsimp only
    omega

/-- The timer drops what waits for an address that is given up. -/
theorem moves_handleWaitReplyTimeout (now : ℤ) (cfg : Config) (c : ArpCache α) :
    c.Moves (c.handleWaitReplyTimeout now cfg).1 [] (c.handleWaitReplyTimeout now cfg).2 := by
  intro p
  have hentry : ∀ x : Sigma fun _ : Ipv4Address => Entry α,
      (x.2.waitReplyActions cfg x.1).filterMap Action.sent = [] ∧
      x.2.pending.count p = ((x.2.waitReplyActions cfg x.1).filterMap Action.dropped).count p +
        (x.2.waitReplyTimeout now cfg).pending.count p := by
    intro ⟨dest, e⟩
    unfold Entry.waitReplyActions Entry.waitReplyTimeout
    dsimp only
    split_ifs with hwait hretry
    · exact ⟨rfl, (Nat.zero_add _).symm⟩
    · refine ⟨?_, ?_⟩
      · rw [List.filterMap_map, List.filterMap_eq_nil_iff]
        exact fun _ _ => rfl
      · have hcomp : Action.dropped ∘ Action.drop = some (α := α) := rfl
        rw [List.filterMap_map, hcomp, List.filterMap_some]
        rfl
    · exact ⟨rfl, (Nat.zero_add _).symm⟩
  unfold ArpCache.handleWaitReplyTimeout pendingCount
  dsimp only
  rw [Store.tally_mapValues]
  unfold Store.tally
  induction c.arpCache.entries with
  | nil => rfl
  | cons x l ih =>
    obtain ⟨hsent, hcount⟩ := hentry x
    rw [List.flatMap_cons, List.filterMap_append, List.filterMap_append, hsent, List.nil_append, List.count_append,
      tally_cons, tally_cons]
    dsimp only at ih hcount ⊢
    omega

/-! ### Runs -/

/-- What holds of the log of a cache. -/
structure Accounted (cfg : Config) (s : Timed α) (g : Log α) : Prop where
  sound : s.cache.Sound cfg s.now
  /-- The requests of the resolutions are bounded. -/
  requests : g.requests.Within (1 + cfg.maxRetries) s.cache.requests

omit [DecidableEq α] in
theorem accounted_start (cfg : Config) (now : ℤ) : Accounted cfg ⟨now, (new : ArpCache α)⟩ .start := by
  refine ⟨sound_new cfg now, (Attempts.within_start _).anti fun dest m hm => ?_⟩
  cases hm

/-- No handler stops, and what each does. -/
theorem Accounted.handled {g : Log α} (h : Accounted cfg s g) (henabled : s.Enabled event) :
    ∃ out, s.handle cfg event = some out ∧ Accounted cfg ⟨s.clock event, out.1⟩ (g.add event out.2) ∧
      (event ≠ .flush → s.cache.Moves out.1 event.given out.2) := by
  cases event with
  | advance now =>
    exact ⟨_, rfl, ⟨h.sound.advance henabled.1 henabled.2, h.requests⟩, fun _ => moves_nil _ rfl rfl⟩
  | lookup packet destination =>
    obtain ⟨out, hout, hlooked⟩ := h.sound.looked packet destination
    refine ⟨_, lookupAndSend_of_lookup hout, ⟨hlooked.sound h.sound, ?_⟩, fun _ => hlooked.moves⟩
    have hsends : ((out.2.2.map (Action.send packet)).toList).filterMap Action.requested = [] := by
      cases out.2.2 with
      | none => rfl
      | some mac => rfl
    have hwithin := hlooked.within h.requests
    simp only [Log.add, List.filterMap_append, hsends, List.append_nil]
    exact hwithin
  | receive arp =>
    obtain ⟨out, hout, hreceived⟩ := received s.now cfg arp s.cache
    exact ⟨out, hout, ⟨hreceived.sound h.sound, hreceived.within h.requests⟩, fun _ => hreceived.moves⟩
  | waitReplyTimeout =>
    refine ⟨_, rfl, ⟨h.sound.handleWaitReplyTimeout, ?_⟩, fun _ => moves_handleWaitReplyTimeout s.now cfg s.cache⟩
    exact within_handleWaitReplyTimeout h.requests
  | flush =>
    refine ⟨_, rfl, ⟨sound_new cfg s.now, h.requests.anti fun dest m hm => ?_⟩, fun hne => absurd rfl hne⟩
    cases hm

theorem Accounted.step {g : Log α} (h : Accounted cfg s g) (hstep : (machine α cfg).Step s event s') :
    Accounted cfg s' (g.record cfg s event) ∧
      (event ≠ .flush → s.cache.Balanced g → s'.cache.Balanced (g.record cfg s event)) := by
  obtain ⟨out, hout, haccounted, hmoves⟩ := h.handled hstep.1
  have heq := hstep.2
  simp only [machine, hout, Option.map_some, Option.some.injEq] at heq
  subst heq
  have hrecord : g.record cfg s event = g.add event out.2 := by rw [Log.record, hout]
  rw [hrecord]
  exact ⟨haccounted, fun hne hbalanced => hbalanced.add (hmoves hne)⟩

/-- What is logged in a run. -/
def log (cfg : Config) (tr : List (Timed α × Event α)) : Log α := Machine.history (Log.record cfg) .start tr

theorem accounted_of_run {start : ℤ} {tr : List (Timed α × Event α)} (hrun : (machine α cfg).Run ⟨start, new⟩ tr s) :
    Accounted cfg s (log cfg tr) := by
  refine hrun.invariant_history (G := fun _ _ => True) (fun _ _ => trivial) (accounted_start cfg start) ?_
  exact fun _ _ _ _ h _ hstep => (h.step hstep).1

theorem balanced_of_run {start : ℤ} {tr : List (Timed α × Event α)} (hrun : (machine α cfg).Run ⟨start, new⟩ tr s)
    (hflush : Machine.Meets (fun _ event => event ≠ .flush) tr) : s.cache.Balanced (log cfg tr) := by
  have hall : Accounted cfg s (log cfg tr) ∧ s.cache.Balanced (log cfg tr) := by
    refine hrun.invariant_history (I := fun s g => Accounted cfg s g ∧ s.cache.Balanced g) hflush ?_ ?_
    · exact ⟨accounted_start cfg start, fun _ => rfl⟩
    · exact fun _ _ _ _ h hne hstep => ⟨(h.1.step hstep).1, (h.1.step hstep).2 hne h.2⟩
  exact hall.2

/-- While the interface is up, no event of a run of a cache stops the program, packets wait only for replies and in
bounded queues, a resolution has a bounded number of requests, and without a flush no packet is lost or sent twice. -/
theorem safety_and_conservation {start : ℤ} {tr : List (Timed α × Event α)}
    (hrun : (machine α cfg).Run ⟨start, new⟩ tr s) :
    (∀ event, s.Enabled event → (s.handle cfg event).isSome) ∧
    (∀ dest e, s.cache.arpCache.lookup dest = some e →
      (e.pending ≠ [] → e.state = .waitReply) ∧ e.pending.length ≤ max 1 cfg.pendingQueueSize) ∧
    (∀ n, (log cfg tr).requests.count n ≤ 1 + cfg.maxRetries) ∧
    (Machine.Meets (fun _ event => event ≠ .flush) tr → ∀ p,
      (log cfg tr).given.count p =
        (log cfg tr).sent.count p + (log cfg tr).dropped.count p + s.cache.pendingCount p) := by
  have haccounted := accounted_of_run hrun
  refine ⟨fun event henabled => ?_, fun dest e he => ?_, haccounted.requests.count_le, balanced_of_run hrun⟩
  · obtain ⟨out, hout, -⟩ := haccounted.handled henabled
    rw [hout]
    rfl
  · have hsound := haccounted.sound.entries dest e he
    refine ⟨fun hpending => ?_, hsound.pending_le⟩
    by_contra hwait
    exact hpending (hsound.idle hwait).1

end Packets

namespace Small

/-- A cache that asks twice, with room for one packet. -/
def config : Config where
  aliveTimeout := 10
  deadTimeout := 5
  waitReplyTimeout := 3
  maxRetries := 1
  pendingQueueSize := 1
  interface := ⟨0, [(⟨0x0a000001⟩, 0xffffff00)]⟩
  ifup := true
  device := ⟨⟨6, [0, 0, 0, 0, 0, 1]⟩, ⟨6, [255, 255, 255, 255, 255, 255]⟩, fun _ => ⟨6, [1, 0, 94, 0, 0, 1]⟩⟩
  ifup_eq := rfl
  aliveTimeout_pos := by decide
  deadTimeout_pos := by decide
  waitReplyTimeout_pos := by decide

/-- The address that is looked up. -/
def peer : Ipv4Address := ⟨0x0a000002⟩

/-- The answer comes after the second request. -/
def events : List (Event ℕ) :=
  [.lookup 1 peer,
    .advance 1,
    .lookup 2 peer,
    .advance 3,
    .waitReplyTimeout,
    .receive ⟨2, ⟨0, [0, 0, 0, 0, 0, 2]⟩, ⟨0, [0, 0, 0, 0, 0, 1]⟩, peer, ⟨0x0a000001⟩⟩,
    .lookup 3 peer]

end Small

/-- The packet that waited is sent, one that had no room was dropped, and a later one goes at once. -/
theorem safety_and_conservation_answered :
    ∃ out, (machine ℕ Small.config).replay ⟨0, new⟩ Small.events = some out ∧
      (log Small.config out.1).sent = [1, 3] ∧ (log Small.config out.1).dropped = [2] ∧
      (∀ n, (log Small.config out.1).requests.count n ≤ 2) ∧
      ∀ p, (log Small.config out.1).given.count p =
        (log Small.config out.1).sent.count p + (log Small.config out.1).dropped.count p +
          out.2.cache.pendingCount p := by
  obtain ⟨out, hout, hrun, hsent, hdropped, hflush⟩ := Machine.exists_replay ⟨0, new⟩ Small.events
    (M := machine ℕ Small.config)
    (P := fun out => (log Small.config out.1).sent = [1, 3] ∧ (log Small.config out.1).dropped = [2] ∧
      Machine.Meets (fun _ event => event ≠ .flush) out.1) (by decide +kernel)
  obtain ⟨-, -, hrequests, hbalanced⟩ := safety_and_conservation hrun
  exact ⟨out, hout, hsent, hdropped, hrequests, hbalanced hflush⟩

end Ns3.ArpCache
