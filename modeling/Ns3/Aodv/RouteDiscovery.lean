import Ns3.Aodv.RequestQueue
import Ns3.Aodv.Searches
import Ns3.Lib.Store

/-!
# Route discovery in AODV

What a node does about the destinations that its packets wait for (`aodv/model/aodv-routing-protocol.cc`): it makes
requests, `RreqRateLimit` in a second at most, and tries again when a timer expires. What is above that limit is
postponed. Times are in nanoseconds.

* `RouteDiscovery` — the node with its queue, its timers and the requests that are postponed.
* `Bounded`, `Ends` — what is promised about a discovery: it takes at most `RreqRetries` requests, and nothing is left
  of it when the timer of the last one expires.
* `bounded_and_ends_iff` — that holds as long as no postponed request comes when `RreqRetries` requests have been made.
-/

namespace Ns3.Aodv

open Lib

/-- `RoutingProtocol`, with what route discovery uses of it. -/
structure RouteDiscovery where
  protocol : RoutingProtocol
  queue : RequestQueue
  left : List (QueueEntry × Fate)
  /-- `m_addressReqTimer`: when a timer expires, if it is running. -/
  addressReqTimer : Store Ipv4Address (Option ℤ)
  /-- The calls of `SendRequest` that are scheduled, with their times. -/
  postponed : List (ℤ × Ipv4Address)
  rreqCount : UInt16
  /-- When `m_rreqRateLimitTimer` expires. -/
  rreqRateLimitTimer : ℤ
  now : ℤ
  /-- The requests made for a destination since its discovery began. -/
  made : Ipv4Address → ℕ

/-- What happens at a node. The route that packets are sent along is given, for what becomes of them. -/
inductive DiscoveryEvent where
  /-- `DeferredRouteOutput`, of a packet. -/
  | deferredRouteOutput (entry : QueueEntry)
  /-- `SendRequest`, as the call was scheduled. -/
  | sendRequest (i : ℕ)
  | routeRequestTimerExpire (dst : Ipv4Address) (route : Ipv4Route)
  | rreqRateLimitTimerExpire
  /-- `RecvAodv`, for all messages but RERRs. -/
  | recvAodv (message : Message) (receiver : Interface) (sender : Ipv4Address) (route : Ipv4Route)
  | other (event : RoutingProtocol.Event)

namespace RouteDiscovery

/-- The number of requests that the entry of a destination counts, if it is searched for. -/
def requests (s : RouteDiscovery) (dst : Ipv4Address) : Option ℕ := s.protocol.routingTable.requests dst

/-- A node that has just started. -/
def start (interfaces : List Interface) (maximumSimulationTime : ℤ) (maxLen : ℕ) (queueTimeout now : ℤ) :
    RouteDiscovery where
  protocol := .new interfaces maximumSimulationTime
  queue := ⟨[], maxLen, queueTimeout⟩
  left := []
  addressReqTimer := ∅
  postponed := []
  rreqCount := 0
  rreqRateLimitTimer := now + 1000000000
  now
  made := fun _ => 0

variable (attrs : Attributes) (rreqRateLimit : UInt16)

/-- `m_routingTable.Purge`. -/
def purge (s : RouteDiscovery) : RouteDiscovery := { s with protocol := s.protocol.purge attrs s.now }

/-- `SendRequest`, with `ScheduleRreqRetry`. -/
def sendRequest (s : RouteDiscovery) (dst : Ipv4Address) : RouteDiscovery :=
  if s.rreqCount = rreqRateLimit then { s with postponed := s.postponed ++ [(s.rreqRateLimitTimer + 100000, dst)] }
  else
    let protocol := (s.protocol.sendRequest attrs s.now dst).1
    let rreqCnt := (protocol.routingTable.requests dst).getD 0
    { s with
      protocol
      rreqCount := s.rreqCount + 1
      addressReqTimer := s.addressReqTimer.insert dst (some (s.now + rreqCnt * attrs.netTraversalTime))
      made := Function.update s.made dst (s.made dst + 1) }

/-- A packet waits until a route is found, and the first one to a destination sends a request. -/
def deferredRouteOutput (s : RouteDiscovery) (entry : QueueEntry) : Option RouteDiscovery :=
  match s.queue.enqueue s.now entry with
  | none => none
  | some (result, entry, queue, dropped) =>
    let s := { s with queue, left := s.left ++ dropped.map (·, .error) }
    if result then
      let s := s.purge attrs
      if s.requests entry.dst = none then some (s.sendRequest attrs rreqRateLimit entry.dst) else some s
    else some s

/-- What waits for the destination leaves by the route. -/
def sendPacketFromQueue (s : RouteDiscovery) (dst : Ipv4Address) (route : Ipv4Route) : Option RouteDiscovery :=
  match s.queue.sendPacketFromQueue s.now dst route (s.queue.queue.length + 1) with
  | none => none
  | some (queue, left) => some { s with queue, left := s.left ++ left }

/-- What `RouteRequestTimerExpire` does when it gives up: the timer, the entry and the packets for the destination are
removed. -/
def giveUp (s : RouteDiscovery) (dst : Ipv4Address) : RouteDiscovery :=
  let (queue, dropped) := s.queue.dropPacketWithDst s.now dst
  { s with
    protocol := { s.protocol with routingTable := s.protocol.routingTable.deleteRoute dst }
    queue
    left := s.left ++ dropped.map (·, .error)
    addressReqTimer := s.addressReqTimer.erase dst }

/-- `RouteRequestTimerExpire`. Where there is no entry, the code goes on with a new one that is valid. -/
def routeRequestTimerExpire (s : RouteDiscovery) (dst : Ipv4Address) (route : Ipv4Route) : Option RouteDiscovery :=
  let s := s.purge attrs
  match s.protocol.routingTable dst with
  | none => some (s.giveUp dst)
  | some toDst =>
    if toDst.flag = .valid then s.sendPacketFromQueue dst route
    else if toDst.reqCount = attrs.rreqRetries then some (s.giveUp dst)
    else if toDst.flag = .inSearch then some (s.sendRequest attrs rreqRateLimit dst)
    else some (s.giveUp dst)

/-- `RecvAodv`. A reply to a request of this node ends the search, and packets are sent. -/
def recvAodv (s : RouteDiscovery) (message : Message) (receiver : Interface) (sender : Ipv4Address)
    (route : Ipv4Route) : Option RouteDiscovery :=
  let before := (s.protocol.updateRouteToNeighbor attrs s.now sender receiver).purge attrs s.now
  let s := { s with protocol := (s.protocol.recvAodv attrs s.now message receiver sender).1 }
  match message with
  | .rrep h =>
    if h.dst ≠ h.origin ∧ before.IsMyOwnAddress h.origin then
      if before.routingTable.requests h.dst = none then s.sendPacketFromQueue h.dst route
      else ({ s with addressReqTimer := s.addressReqTimer.erase h.dst }).sendPacketFromQueue h.dst route
    else some s
  | _ => some s

/-- A discovery that has ended has no requests. -/
def settle (s : RouteDiscovery) : RouteDiscovery :=
  { s with made := fun dst => if s.requests dst = none then 0 else s.made dst }

/-- An event is handled. -/
def handle (s : RouteDiscovery) : DiscoveryEvent → Option RouteDiscovery
  | .deferredRouteOutput entry => s.deferredRouteOutput attrs rreqRateLimit entry
  | .sendRequest i =>
    match s.postponed[i]? with
    | none => none
    | some (_, dst) => some (({ s with postponed := s.postponed.eraseIdx i }).sendRequest attrs rreqRateLimit dst)
  | .routeRequestTimerExpire dst route =>
    let s := { s with addressReqTimer := s.addressReqTimer.insert dst none }
    s.routeRequestTimerExpire attrs rreqRateLimit dst route
  | .rreqRateLimitTimerExpire => some { s with rreqCount := 0, rreqRateLimitTimer := s.now + 1000000000 }
  | .recvAodv message receiver sender route => s.recvAodv attrs message receiver sender route
  | .other event => some { s with protocol := (s.protocol.handle attrs s.now event).1 }

/-- An event some time after the last one. -/
def exec (s : RouteDiscovery) (event : ℕ × DiscoveryEvent) : Option RouteDiscovery :=
  (({ s with now := s.now + event.1 }).handle attrs rreqRateLimit event.2).map settle

/-- Nothing is scheduled for an earlier time. -/
def NothingBefore (s : RouteDiscovery) (now : ℤ) : Prop :=
  (∀ x ∈ s.addressReqTimer.entries, ∀ time ∈ x.2, now ≤ time) ∧ (∀ x ∈ s.postponed, now ≤ x.1) ∧
    now ≤ s.rreqRateLimitTimer
deriving Decidable

/-- The event can happen at a time: what was scheduled happens at its time. -/
def Due (s : RouteDiscovery) (now : ℤ) : DiscoveryEvent → Prop
  | .sendRequest i => ∃ x ∈ s.postponed[i]?, x.1 = now
  | .routeRequestTimerExpire dst _ => s.addressReqTimer.lookup dst = some (some now)
  | .rreqRateLimitTimerExpire => s.rreqRateLimitTimer = now
  | .other (.sendRequest _) | .other (.routeRequestTimerExpire _) => False
  | _ => True

instance (s : RouteDiscovery) (now : ℤ) : ∀ event, Decidable (s.Due now event)
  | .deferredRouteOutput _ => .isTrue trivial
  | .sendRequest i => inferInstanceAs (Decidable (∃ x ∈ s.postponed[i]?, x.1 = now))
  | .routeRequestTimerExpire _ _ => inferInstanceAs (Decidable (_ = _))
  | .rreqRateLimitTimerExpire => inferInstanceAs (Decidable (_ = _))
  | .recvAodv _ _ _ _ | .other (.recvError _ _ _) | .other (.updateRouteLifeTime _) | .other .helloTimerExpire
  | .other (.breakLink _) => .isTrue trivial
  | .other (.sendRequest _) | .other (.routeRequestTimerExpire _) => .isFalse id

/-- The node, with what happens at any times. -/
def machine : Machine RouteDiscovery (ℕ × DiscoveryEvent) :=
  ⟨fun s event => s.NothingBefore (s.now + event.1) ∧ s.Due (s.now + event.1) event.2, exec attrs rreqRateLimit⟩

instance (s : RouteDiscovery) (e : ℕ × DiscoveryEvent) : Decidable ((machine attrs rreqRateLimit).enabled s e) :=
  inferInstanceAs (Decidable (_ ∧ _))

/-! ### What is promised -/

/-- The timer of a destination runs, for at most the given number of `NetTraversalTime`s. -/
def Running (s : RouteDiscovery) (dst : Ipv4Address) (rreqCnt : ℕ) : Prop :=
  ∃ time, s.addressReqTimer.lookup dst = some (some time) ∧ s.now ≤ time ∧
    time ≤ s.now + rreqCnt * attrs.netTraversalTime

/-- What is promised about the discoveries under way. -/
structure Bounded (s : RouteDiscovery) : Prop where
  /-- A discovery takes at most `RreqRetries` requests. -/
  made_le : ∀ dst, s.made dst ≤ attrs.rreqRetries
  /-- It goes on when its timer expires, or with a request that is postponed. -/
  goesOn : ∀ dst, s.requests dst ≠ none → s.Running attrs dst (s.made dst) ∨ ∃ x ∈ s.postponed, x.2 = dst
  /-- After the last request its timer runs. -/
  last : ∀ dst, s.made dst = attrs.rreqRetries → s.Running attrs dst attrs.rreqRetries

/-- What is promised about the end of a discovery: when the timer expires after the last request, there is no entry, no
timer and no packet for the destination any more, and the packets were handed to their error callbacks. -/
def Ends (s : RouteDiscovery) (event : ℕ × DiscoveryEvent) (s' : RouteDiscovery) : Prop :=
  ∀ dst route, event.2 = .routeRequestTimerExpire dst route → s.made dst = attrs.rreqRetries →
    s'.protocol.routingTable dst = none ∧ s'.addressReqTimer.lookup dst = none ∧
      (∀ e ∈ s'.queue.queue, e.dst ≠ dst) ∧ ∀ e ∈ s.queue.queue, e.dst = dst → (e, Fate.error) ∈ s'.left

/-- The event is not a postponed request that is made, although the destination has been searched for with
`RreqRetries` requests. -/
def Spares (s : RouteDiscovery) (event : ℕ × DiscoveryEvent) : Prop :=
  match event.2 with
  | .sendRequest i => s.rreqCount ≠ rreqRateLimit →
      ∀ x ∈ s.postponed[i]?, s.requests x.2 ≠ some attrs.rreqRetries
  | _ => True

/-! ### What a discovery keeps -/

/-- The requests of the discoveries are those that the entries count. -/
structure Counts (s : RouteDiscovery) : Prop where
  counted : s.protocol.routingTable.Counted
  made_eq : ∀ dst, s.made dst = (s.requests dst).getD 0
  le : ∀ dst, ∀ count ∈ s.requests dst, 0 < count ∧ count ≤ attrs.rreqRetries

/-- The search for a destination goes on: with its timer, or, before the last request, with one that is postponed. -/
def GoesOn (s : RouteDiscovery) (dst : Ipv4Address) (count : ℕ) : Prop :=
  s.Running attrs dst count ∨ count < attrs.rreqRetries ∧ ∃ x ∈ s.postponed, x.2 = dst

/-- The requests are counted, and all searches go on. -/
structure Sound (s : RouteDiscovery) : Prop extends Counts attrs s where
  goesOn : ∀ dst, ∀ count ∈ s.requests dst, s.GoesOn attrs dst count

variable {attrs rreqRateLimit} {s s' : RouteDiscovery} {dst : Ipv4Address} {event : ℕ × DiscoveryEvent}

theorem sound_start {interfaces : List Interface} {maximumSimulationTime queueTimeout now : ℤ} {maxLen : ℕ} :
    (start interfaces maximumSimulationTime maxLen queueTimeout now).Sound attrs := by
  have hadd : ∀ (interfaces : List Interface) (t : RoutingTable), RoutingTable.SearchesKept t
      (interfaces.foldl (fun t iface => t.addRoute iface.broadcast
        (.new 0 true 0 (some iface) 1 iface.broadcast maximumSimulationTime)) t) := by
    intro interfaces
    induction interfaces with
    | nil => exact fun t => .refl t
    | cons iface interfaces ih => exact fun t => (RoutingTable.searchesKept_addRoute_valid rfl).trans (ih _)
  have hkept : RoutingTable.SearchesKept (fun _ => none)
      (RoutingProtocol.new interfaces maximumSimulationTime).routingTable :=
    (RoutingTable.searchesKept_addRoute_valid rfl).trans (hadd _ _)
  have hnone (dst : Ipv4Address) :
      (start interfaces maximumSimulationTime maxLen queueTimeout now).requests dst = none :=
    (hkept.requests dst).elim id id
  refine ⟨⟨hkept.counted fun dst rt hrt => (by cases hrt), fun dst => ?_, fun dst count hcount => ?_⟩,
    fun dst count hcount => ?_⟩
  · rw [hnone]
    rfl
  · rw [hnone] at hcount
    cases hcount
  · rw [hnone] at hcount
    cases hcount

theorem Counts.requests_eq_of_made_eq (h : s.Counts attrs) {count : ℕ} (hcount : 0 < count)
    (hmade : s.made dst = count) : s.requests dst = some count := by
  rw [h.made_eq] at hmade
  cases hrequests : s.requests dst with
  | none =>
    rw [hrequests, Option.getD_none] at hmade
    omega
  | some c =>
    rw [hrequests, Option.getD_some] at hmade
    rw [hmade]

theorem Sound.bounded (h : s.Sound attrs) (hpos : 0 < attrs.rreqRetries) : s.Bounded attrs := by
  refine ⟨fun dst => ?_, fun dst hsearch => ?_, fun dst hmade => ?_⟩
  · rw [h.made_eq]
    cases hrequests : s.requests dst with
    | none => exact Nat.zero_le _
    | some count => exact (h.le dst count hrequests).2
  · obtain ⟨count, hcount⟩ := Option.ne_none_iff_exists'.mp hsearch
    rw [h.made_eq, hcount, Option.getD_some]
    exact (h.goesOn dst count hcount).imp id fun hpostponed => hpostponed.2
  · have hcount : s.requests dst = some attrs.rreqRetries := h.requests_eq_of_made_eq hpos hmade
    refine (h.goesOn dst _ hcount).resolve_right fun hlt => ?_
    exact absurd hlt.1 (Nat.lt_irrefl _)

/-- A state is settled if no request is counted where there is no search. -/
theorem settle_eq (h : ∀ dst, s.requests dst = none → s.made dst = 0) : s.settle = s := by
  have hmade : (fun dst => if s.requests dst = none then 0 else s.made dst) = s.made := by
    funext dst
    split_ifs with hnone
    · exact (h dst hnone).symm
    · rfl
  rw [settle, hmade]

theorem Counts.settle_eq (h : s.Counts attrs) : s.settle = s := by
  refine RouteDiscovery.settle_eq fun dst hnone => ?_
  rw [h.made_eq, hnone, Option.getD_none]

/-- A handler that begins no search and makes no request. -/
structure Quiet (s s' : RouteDiscovery) : Prop where
  searches : RoutingTable.SearchesKept s.protocol.routingTable s'.protocol.routingTable
  made : s'.made = s.made
  now : s'.now = s.now
  /-- The timers of the searches run on. -/
  timers : ∀ dst, s'.requests dst ≠ none → s'.addressReqTimer.lookup dst = s.addressReqTimer.lookup dst
  postponed : s'.postponed = s.postponed

theorem Counts.quiet (h : s.Counts attrs) (hquiet : Quiet s s') : s'.settle.Counts attrs := by
  have hrequests (dst : Ipv4Address) : s'.requests dst = none ∨ s'.requests dst = s.requests dst :=
    hquiet.searches.requests dst
  refine ⟨hquiet.searches.counted h.counted, fun dst => ?_, fun dst count hcount => ?_⟩
  · change (if s'.requests dst = none then 0 else s'.made dst) = (s'.requests dst).getD 0
    rw [hquiet.made, h.made_eq]
    rcases hrequests dst with hnone | hsame
    · rw [hnone, if_pos rfl, Option.getD_none]
    · rw [hsame]
      split_ifs with hnone
      · rw [hnone, Option.getD_none]
      · rfl
  · rcases hrequests dst with hnone | hsame
    · change s'.requests dst = some count at hcount
      rw [hnone] at hcount
      cases hcount
    · exact h.le dst count (hsame.symm.trans hcount)

theorem GoesOn.quiet {count : ℕ} (h : s.GoesOn attrs dst count) (hquiet : Quiet s s')
    (hcount : s'.requests dst = some count) : s'.settle.GoesOn attrs dst count := by
  have hsearch : s'.requests dst ≠ none := by simp [hcount]
  rcases h with ⟨time, htimer, hle, hlimit⟩ | ⟨hlt, x, hx, hdst⟩
  · refine .inl ⟨time, ?_, ?_, ?_⟩
    · exact (hquiet.timers dst hsearch).trans htimer
    · exact hquiet.now ▸ hle
    · change time ≤ s'.now + _
      rwa [hquiet.now]
  · refine .inr ⟨hlt, x, ?_, hdst⟩
    exact hquiet.postponed ▸ hx

theorem Sound.quiet (h : s.Sound attrs) (hquiet : Quiet s s') : s'.settle.Sound attrs := by
  refine ⟨h.toCounts.quiet hquiet, fun dst count hcount => ?_⟩
  change s'.requests dst = some count at hcount
  rcases hquiet.searches.requests dst with hnone | hsame
  · cases hnone.symm.trans hcount
  · exact (h.goesOn dst count (hsame.symm.trans hcount)).quiet hquiet hcount

theorem Sound.quiet_of_same (h : s.Sound attrs) (hquiet : Quiet s s')
    (hsame : ∀ dst, s'.requests dst = s.requests dst) : s'.Sound attrs := by
  have hsound := h.quiet hquiet
  rwa [settle_eq] at hsound
  intro dst hnone
  rw [hquiet.made, h.made_eq, ← hsame, hnone, Option.getD_none]

theorem Quiet.trans {s'' : RouteDiscovery} (h : Quiet s s') (h' : Quiet s' s'') : Quiet s s'' := by
  refine ⟨h.searches.trans h'.searches, h'.made.trans h.made, h'.now.trans h.now, fun dst hsearch => ?_,
    h'.postponed.trans h.postponed⟩
  have hbefore : s'.requests dst ≠ none := fun hnone =>
    hsearch ((h'.searches.requests dst).elim id fun hsame => hsame.trans hnone)
  rw [h'.timers dst hsearch, h.timers dst hbefore]

theorem quiet_protocol {protocol : RoutingProtocol}
    (h : RoutingTable.SearchesKept s.protocol.routingTable protocol.routingTable) : Quiet s { s with protocol } :=
  ⟨h, rfl, rfl, fun _ _ => rfl, rfl⟩

theorem quiet_purge (s : RouteDiscovery) : Quiet s (s.purge attrs) :=
  quiet_protocol (s.protocol.searchesKept_purge attrs s.now)

@[simp] theorem requests_purge (s : RouteDiscovery) (dst : Ipv4Address) :
    (s.purge attrs).requests dst = s.requests dst :=
  RoutingTable.requests_purge _ _ _ _

variable {route : Ipv4Route}

theorem quiet_sendPacketFromQueue (h : s.sendPacketFromQueue dst route = some s') : Quiet s s' := by
  rw [sendPacketFromQueue] at h
  split at h
  case h_1 => cases h
  case h_2 =>
    cases h
    exact ⟨.refl _, rfl, rfl, fun _ _ => rfl, rfl⟩

theorem requests_giveUp (s : RouteDiscovery) (dst : Ipv4Address) : (s.giveUp dst).requests dst = none := by
  rw [requests, RoutingTable.requests_eq_none]
  intro rt hrt
  change Function.update s.protocol.routingTable dst none dst = some rt at hrt
  rw [Function.update_self] at hrt
  cases hrt

theorem quiet_giveUp (s : RouteDiscovery) (dst : Ipv4Address) : Quiet s (s.giveUp dst) := by
  refine ⟨RoutingTable.searchesKept_deleteRoute _ _, rfl, rfl, fun dst' hsearch => ?_, rfl⟩
  have hne : dst' ≠ dst := fun heq => hsearch (heq ▸ requests_giveUp s dst)
  exact AList.lookup_erase_ne hne

theorem giveUp_ends (s : RouteDiscovery) (dst : Ipv4Address) :
    (s.giveUp dst).protocol.routingTable dst = none ∧ (s.giveUp dst).addressReqTimer.lookup dst = none ∧
      (∀ e ∈ (s.giveUp dst).queue.queue, e.dst ≠ dst) ∧
        ∀ e ∈ s.queue.queue, e.dst = dst → (e, Fate.error) ∈ (s.giveUp dst).left := by
  refine ⟨Function.update_self .., AList.lookup_erase _ _, fun e he => ?_, fun e he hdst => ?_⟩
  · exact of_decide_eq_true (List.mem_filter.mp he).2
  · refine List.mem_append_right _ (List.mem_map_of_mem ?_)
    cases hexpired : e.isExpired s.now with
    | true => exact List.mem_append_left _ (List.mem_filter.mpr ⟨he, hexpired⟩)
    | false =>
      refine List.mem_append_right _ (List.mem_filter.mpr ⟨?_, decide_eq_true hdst⟩)
      exact RequestQueue.mem_purge.mpr ⟨he, hexpired⟩

/-- A timer was changed, of a destination that is not searched for any more. -/
theorem Quiet.of_timer {addressReqTimer : Store Ipv4Address (Option ℤ)}
    (h : Quiet { s with addressReqTimer } s') (hnone : s'.requests dst = none)
    (hother : ∀ dst' ≠ dst, addressReqTimer.lookup dst' = s.addressReqTimer.lookup dst') : Quiet s s' := by
  refine ⟨h.searches, h.made, h.now, fun dst' hsearch => ?_, h.postponed⟩
  have hne : dst' ≠ dst := fun heq => hsearch (heq ▸ hnone)
  rw [h.timers dst' hsearch]
  exact hother dst' hne

/-! ### What a step keeps -/

theorem Running.advance {count : ℕ} {now : ℤ} (h : s.Running attrs dst count) (hbefore : s.NothingBefore now)
    (hle : s.now ≤ now) : Running attrs { s with now } dst count := by
  obtain ⟨time, htimer, -, hlimit⟩ := h
  have hentry : (⟨dst, some time⟩ : Sigma fun _ : Ipv4Address => Option ℤ) ∈ s.addressReqTimer.entries :=
    AList.mem_lookup_iff.mp htimer
  refine ⟨time, htimer, hbefore.1 _ hentry time rfl, ?_⟩
  change time ≤ now + _
  omega

theorem Sound.advance {now : ℤ} (h : s.Sound attrs) (hbefore : s.NothingBefore now) (hle : s.now ≤ now) :
    Sound attrs { s with now } :=
  ⟨⟨h.counted, h.made_eq, h.le⟩, fun dst count hcount => (h.goesOn dst count hcount).imp_left fun hrunning =>
    hrunning.advance hbefore hle⟩

theorem requests_sendRequest (attrs : Attributes) (dst : Ipv4Address) (n : RoutingProtocol) (now : ℤ)
    (hcounted : n.routingTable.Counted) :
    (n.sendRequest attrs now dst).1.routingTable.requests dst =
        some (((n.routingTable.requests dst).getD 0 + 1) % 256) ∧
      ∀ dst' ≠ dst, (n.sendRequest attrs now dst).1.routingTable.requests dst' = n.routingTable.requests dst' := by
  have hpurge (dst : Ipv4Address) : (n.purge attrs now).routingTable.requests dst = n.routingTable.requests dst :=
    RoutingTable.requests_purge _ _ _ _
  rw [RoutingProtocol.routingTable_sendRequest]
  refine ⟨?_, fun dst' hne => ?_⟩
  · rw [RoutingProtocol.requests_searchRoute _ _ ((n.searchesKept_purge attrs now).counted hcounted), hpurge]
  · rw [← hpurge, RoutingTable.requests, RoutingProtocol.routingTable_searchRoute_of_ne _ _ hne]
    rfl

/-- A request for a destination that still has one left, where all other searches go on. -/
theorem Counts.sendRequest (h : s.Counts attrs) (hpos : 0 < attrs.rreqRetries) (hlt : attrs.rreqRetries < 256)
    (hother : ∀ dst' ≠ dst, ∀ count ∈ s.requests dst', s.GoesOn attrs dst' count)
    (hself : ∀ count ∈ s.requests dst, s.Running attrs dst count ∨ count < attrs.rreqRetries)
    (hroom : s.rreqCount ≠ rreqRateLimit → ∀ count ∈ s.requests dst, count < attrs.rreqRetries) :
    (s.sendRequest attrs rreqRateLimit dst).Sound attrs := by
  rw [RouteDiscovery.sendRequest]
  dsimp only
  split_ifs with hlimit
  · -- the request is postponed
    refine ⟨⟨h.counted, h.made_eq, h.le⟩, fun dst' count hcount => ?_⟩
    by_cases hdst : dst' = dst
    · subst hdst
      refine (hself count hcount).imp id fun hlt => ⟨hlt, (s.rreqRateLimitTimer + 100000, dst'), ?_, rfl⟩
      exact List.mem_append_right _ (List.mem_singleton_self _)
    · refine (hother dst' hdst count hcount).imp id fun hpostponed => ?_
      obtain ⟨hlt, x, hx, hdst⟩ := hpostponed
      exact ⟨hlt, x, List.mem_append_left _ hx, hdst⟩
  · -- the request is made
    obtain ⟨hrequests, hsame⟩ := requests_sendRequest attrs dst s.protocol s.now h.counted
    have hcount : (s.requests dst).getD 0 < attrs.rreqRetries := by
      cases hsearch : s.requests dst with
      | none => exact hpos
      | some count => exact hroom hlimit count hsearch
    change _ = some (((s.requests dst).getD 0 + 1) % 256) at hrequests
    rw [Nat.mod_eq_of_lt (by omega)] at hrequests
    have hcounted : (s.protocol.sendRequest attrs s.now dst).1.routingTable.Counted := by
      rw [RoutingProtocol.routingTable_sendRequest]
      exact RoutingProtocol.counted_searchRoute _ _ ((s.protocol.searchesKept_purge attrs s.now).counted h.counted) dst
    refine ⟨⟨hcounted, fun dst' => ?_, fun dst' count hcount' => ?_⟩, fun dst' count hcount' => ?_⟩
    · change Function.update s.made dst (s.made dst + 1) dst' = (RoutingTable.requests _ dst').getD 0
      by_cases hdst : dst' = dst
      · subst hdst
        rw [Function.update_self, h.made_eq, hrequests, Option.getD_some]
      · rw [Function.update_of_ne hdst, h.made_eq, hsame dst' hdst]
        rfl
    · change RoutingTable.requests _ dst' = some count at hcount'
      by_cases hdst : dst' = dst
      · subst hdst
        obtain rfl := Option.some.inj (hrequests.symm.trans hcount')
        omega
      · rw [hsame dst' hdst] at hcount'
        exact h.le dst' count hcount'
    · change RoutingTable.requests _ dst' = some count at hcount'
      by_cases hdst : dst' = dst
      · subst hdst
        obtain rfl := Option.some.inj (hrequests.symm.trans hcount')
        refine .inl ⟨_, AList.lookup_insert _, ?_, ?_⟩
        · exact Int.le_add_of_nonneg_right (Int.mul_nonneg (Int.natCast_nonneg _) (Int.natCast_nonneg _))
        · rw [hrequests]
          exact Int.le_refl _
      · rw [hsame dst' hdst] at hcount'
        rcases hother dst' hdst count hcount' with ⟨time, htimer, hrunning⟩ | hpostponed
        · exact .inl ⟨time, (AList.lookup_insert_ne hdst).trans htimer, hrunning⟩
        · exact .inr hpostponed

theorem quiet_timer_of_ended {addressReqTimer : Store Ipv4Address (Option ℤ)} {protocol : RoutingProtocol}
    (hkept : RoutingTable.SearchesKept s.protocol.routingTable protocol.routingTable)
    (hother : ∀ dst' ≠ dst, addressReqTimer.lookup dst' = s.addressReqTimer.lookup dst')
    (hnone : protocol.routingTable.requests dst = none)
    (hsend : ({ s with protocol, addressReqTimer }).sendPacketFromQueue dst route = some s') : Quiet s s' := by
  have hprotocol : Quiet { s with addressReqTimer } { s with protocol, addressReqTimer } :=
    ⟨hkept, rfl, rfl, fun _ _ => rfl, rfl⟩
  have hquiet := quiet_sendPacketFromQueue hsend
  have hended : s'.requests dst = none := (hquiet.searches.requests dst).elim id fun hsame => hsame.trans hnone
  exact (hprotocol.trans hquiet).of_timer hended hother

/-- After a reply to a request of the node there is no search. -/
theorem requests_recvReply (n : RoutingProtocol) (now : ℤ) (h : RrepHeader) (receiver : Interface)
    (sender : Ipv4Address) (hne : h.dst ≠ h.origin) (hown : n.IsMyOwnAddress h.origin) :
    (n.recvReply attrs now h receiver sender).1.routingTable.requests h.dst = none := by
  have hforward (hop : ℕ) : ((n.purge attrs now).forwardRoute now h hop receiver sender).routingTable.requests h.dst =
      none := by
    rw [RoutingProtocol.forwardRoute]
    split
    case h_1 hentry =>
      rw [RoutingProtocol.addRoute, RoutingTable.addRoute_eq hentry]
      exact RoutingTable.requests_set_of_ne (by simp [RoutingTableEntry.new])
    case h_2 toDst hentry =>
      split_ifs with hupdates
      · rw [RoutingProtocol.update, RoutingTable.update_eq hentry]
        exact RoutingTable.requests_set_of_ne (by simp [RoutingTableEntry.new])
      · rw [RoutingTable.requests_eq_none]
        intro rt hrt hsearch
        obtain rfl := Option.some.inj (hentry.symm.trans hrt)
        exact hupdates (.inr ⟨hown, hsearch⟩)
  rw [RoutingProtocol.recvReply]
  dsimp only
  rw [if_neg hne]
  exact ((RoutingProtocol.searchesKept_forwardReply attrs now _ _).requests h.dst).elim id fun hsame =>
    hsame.trans (hforward _)

theorem quiet_recvAodv {message : Message} {receiver : Interface} {sender : Ipv4Address}
    (h : s.recvAodv attrs message receiver sender route = some s') : Quiet s s' := by
  have hkept := s.protocol.searchesKept_recvAodv attrs s.now message receiver sender
  cases message with
  | rreq _ =>
    cases h
    exact quiet_protocol hkept
  | rrepAck =>
    cases h
    exact quiet_protocol hkept
  | rrep header =>
    rw [recvAodv] at h
    dsimp only at h
    split_ifs at h with hown hsearch
    · exact (quiet_protocol hkept).trans (quiet_sendPacketFromQueue h)
    · refine quiet_timer_of_ended hkept (fun dst' hne => AList.lookup_erase_ne hne) ?_ h
      exact requests_recvReply _ _ _ _ _ hown.1 hown.2
    · cases h
      exact quiet_protocol hkept

theorem quiet_other {event : RoutingProtocol.Event} {now : ℤ} (h : s.Due now (.other event)) :
    Quiet s { s with protocol := (s.protocol.handle attrs s.now event).1 } := by
  refine quiet_protocol ?_
  cases event with
  | recvError unreachable receiver sender =>
    exact (s.protocol.searchesKept_updateRouteToNeighbor attrs s.now sender receiver).trans
      (RoutingProtocol.searchesKept_recvError _ _ _ _ _)
  | updateRouteLifeTime addr => exact RoutingProtocol.searchesKept_updateRouteLifeTime _ _ _ _ _
  | sendRequest dst => exact h.elim
  | routeRequestTimerExpire dst => exact h.elim
  | helloTimerExpire => exact .refl _
  | breakLink nextHop => exact RoutingProtocol.searchesKept_breakLink _ _ _ _

/-- A packet begins a search if there is none. -/
theorem Sound.deferredRouteOutput (h : s.Sound attrs) (hpos : 0 < attrs.rreqRetries) (hlt : attrs.rreqRetries < 256)
    {entry : QueueEntry} (hs' : s.deferredRouteOutput attrs rreqRateLimit entry = some s') :
    s'.settle.Sound attrs := by
  rw [RouteDiscovery.deferredRouteOutput] at hs'
  split at hs'
  case h_1 => cases hs'
  case h_2 result entry' queue dropped _ =>
    have hqueue : Quiet s { s with queue, left := s.left ++ dropped.map (·, Fate.error) } :=
      ⟨.refl _, rfl, rfl, fun _ _ => rfl, rfl⟩
    have hpurge : Quiet s (purge attrs { s with queue, left := s.left ++ dropped.map (·, Fate.error) }) :=
      hqueue.trans (quiet_purge _)
    dsimp only at hs'
    split_ifs at hs' with hresult hnone
    · cases hs'
      have hsound := h.quiet_of_same hpurge fun dst => requests_purge _ dst
      have hmade : Sound attrs (sendRequest attrs rreqRateLimit _ entry'.dst) :=
        hsound.toCounts.sendRequest hpos hlt (fun dst _ => hsound.goesOn dst)
          (fun count hcount => (by cases hnone.symm.trans hcount))
          fun _ count hcount => (by cases hnone.symm.trans hcount)
      rwa [hmade.toCounts.settle_eq]
    · cases hs'
      exact h.quiet hpurge
    · cases hs'
      exact h.quiet hqueue

/-- A timer expires: there is one request more, or the search ends, and after the last request nothing is left. -/
theorem Sound.routeRequestTimerExpire (h : s.Sound attrs) (hpos : 0 < attrs.rreqRetries) (hlt : attrs.rreqRetries < 256)
    (hs' : ({ s with addressReqTimer := s.addressReqTimer.insert dst none }).routeRequestTimerExpire attrs
      rreqRateLimit dst route = some s') :
    s'.settle.Sound attrs ∧ (s.requests dst = some attrs.rreqRetries →
      s' = ({ s with addressReqTimer := s.addressReqTimer.insert dst none }.purge attrs).giveUp dst) := by
  have hother : ∀ dst' ≠ dst, (s.addressReqTimer.insert dst none).lookup dst' = s.addressReqTimer.lookup dst' :=
    fun dst' hne => AList.lookup_insert_ne hne
  have hrequests (dst' : Ipv4Address) :
      (s.protocol.purge attrs s.now).routingTable.requests dst' = s.requests dst' := RoutingTable.requests_purge _ _ _ _
  have hkept := s.protocol.searchesKept_purge attrs s.now
  have hpurge : Quiet { s with addressReqTimer := s.addressReqTimer.insert dst none }
      ({ s with addressReqTimer := s.addressReqTimer.insert dst none }.purge attrs) := quiet_purge _
  have hgiveUp := (hpurge.trans (quiet_giveUp _ dst)).of_timer (requests_giveUp _ dst) hother
  rw [RouteDiscovery.routeRequestTimerExpire] at hs'
  split at hs'
  case h_1 hentry =>
    cases hs'
    exact ⟨h.quiet hgiveUp, fun _ => rfl⟩
  case h_2 toDst hentry =>
    change (s.protocol.purge attrs s.now).routingTable dst = some toDst at hentry
    have hnone (hflag : toDst.flag ≠ .inSearch) : (s.protocol.purge attrs s.now).routingTable.requests dst = none := by
      rw [RoutingTable.requests_eq_none]
      intro rt hrt
      obtain rfl := Option.some.inj (hentry.symm.trans hrt)
      exact hflag
    split_ifs at hs' with hvalid hlast hsearch
    · have hended := hnone (by simp [hvalid])
      refine ⟨h.quiet (quiet_timer_of_ended hkept hother hended hs'), fun hsome => ?_⟩
      cases (hrequests dst).symm.trans hended ▸ hsome
    · cases hs'
      exact ⟨h.quiet hgiveUp, fun _ => rfl⟩
    · cases hs'
      have hcount : s.requests dst = some toDst.reqCount := by
        rw [← hrequests]
        exact RoutingTable.requests_eq_some.mpr ⟨toDst, hentry, hsearch, rfl⟩
      have hlt' : toDst.reqCount < attrs.rreqRetries :=
        Nat.lt_of_le_of_ne (h.le dst _ hcount).2 hlast
      have hcounts : Counts attrs ({ s with addressReqTimer := s.addressReqTimer.insert dst none }.purge attrs) := by
        refine ⟨hkept.counted h.counted, fun dst' => ?_, fun dst' count hcount' => ?_⟩
        · rw [requests_purge]
          exact h.made_eq dst'
        · rw [requests_purge] at hcount'
          exact h.le dst' count hcount'
      have hmade : Sound attrs (RouteDiscovery.sendRequest attrs rreqRateLimit
          ({ s with addressReqTimer := s.addressReqTimer.insert dst none }.purge attrs) dst) := by
        refine hcounts.sendRequest hpos hlt (fun dst' hne count hcount' => ?_) (fun count hcount' => ?_)
          fun _ count hcount' => ?_
        · rw [requests_purge] at hcount'
          refine (h.goesOn dst' count hcount').imp_left fun hrunning => ?_
          obtain ⟨time, htimer, hrunning⟩ := hrunning
          exact ⟨time, (hother dst' hne).trans htimer, hrunning⟩
        · rw [requests_purge] at hcount'
          obtain rfl := Option.some.inj (hcount.symm.trans hcount')
          exact .inr hlt'
        · rw [requests_purge] at hcount'
          obtain rfl := Option.some.inj (hcount.symm.trans hcount')
          exact hlt'
      refine ⟨by rwa [hmade.toCounts.settle_eq], fun hsome => ?_⟩
      exact absurd (Option.some.inj (hcount.symm.trans hsome)) hlast
    · cases hs'
      exact ⟨h.quiet hgiveUp, fun _ => rfl⟩

/-- A postponed request for a destination that has had its last one is one too many. -/
theorem Counts.not_bounded_sendRequest (h : s.Counts attrs) (hlimit : s.rreqCount ≠ rreqRateLimit)
    (hlast : s.requests dst = some attrs.rreqRetries) :
    ¬(s.sendRequest attrs rreqRateLimit dst).settle.Bounded attrs := by
  intro hbounded
  obtain ⟨hrequests, -⟩ := requests_sendRequest attrs dst s.protocol s.now h.counted
  have hle := hbounded.made_le dst
  rw [RouteDiscovery.sendRequest, if_neg hlimit] at hle
  change (if RoutingTable.requests _ dst = none then 0 else Function.update s.made dst (s.made dst + 1) dst) ≤ _ at hle
  rw [hrequests, if_neg (by simp), Function.update_self, h.made_eq, hlast, Option.getD_some] at hle
  exact absurd hle (Nat.not_succ_le_self _)

/-- A step leaves the discoveries bounded exactly if it meets the condition, and then they stay sound. -/
theorem Sound.step (h : s.Sound attrs) (hpos : 0 < attrs.rreqRetries) (hlt : attrs.rreqRetries < 256)
    (hstep : (machine attrs rreqRateLimit).Step s event s') :
    (s'.Bounded attrs ↔ s.Spares attrs rreqRateLimit event) ∧
      (s.Spares attrs rreqRateLimit event → s'.Sound attrs) := by
  obtain ⟨elapsed, event⟩ := event
  obtain ⟨⟨hbefore, hdue⟩, hexec⟩ := hstep
  obtain ⟨s₁, hhandle, rfl⟩ := Option.map_eq_some_iff.mp hexec
  have hnow : Sound attrs { s with now := s.now + elapsed } := h.advance hbefore (by omega)
  have hsound (hkept : s₁.settle.Sound attrs) (hspares : s.Spares attrs rreqRateLimit (elapsed, event)) :
      (s₁.settle.Bounded attrs ↔ s.Spares attrs rreqRateLimit (elapsed, event)) ∧
        (s.Spares attrs rreqRateLimit (elapsed, event) → s₁.settle.Sound attrs) :=
    ⟨iff_of_true (hkept.bounded hpos) hspares, fun _ => hkept⟩
  cases event with
  | deferredRouteOutput entry => exact hsound (hnow.deferredRouteOutput hpos hlt hhandle) trivial
  | routeRequestTimerExpire dst route => exact hsound (hnow.routeRequestTimerExpire hpos hlt hhandle).1 trivial
  | rreqRateLimitTimerExpire =>
    cases hhandle
    exact hsound (hnow.quiet ⟨.refl _, rfl, rfl, fun _ _ => rfl, rfl⟩) trivial
  | recvAodv message receiver sender route => exact hsound (hnow.quiet (quiet_recvAodv hhandle)) trivial
  | other event =>
    cases hhandle
    exact hsound (hnow.quiet (quiet_other hdue)) trivial
  | sendRequest i =>
    obtain ⟨⟨time, dst⟩, hpostponed, -⟩ := hdue
    rw [handle] at hhandle
    dsimp only at hhandle
    rw [hpostponed] at hhandle
    cases hhandle
    have hcounts : Counts attrs { s with now := s.now + elapsed, postponed := s.postponed.eraseIdx i } :=
      ⟨h.counted, h.made_eq, h.le⟩
    by_cases hspares : s.Spares attrs rreqRateLimit (elapsed, .sendRequest i)
    · refine hsound ?_ hspares
      have hmade : Sound attrs (RouteDiscovery.sendRequest attrs rreqRateLimit
          { s with now := s.now + elapsed, postponed := s.postponed.eraseIdx i } dst) := by
        refine hcounts.sendRequest hpos hlt (fun dst' hne count hcount => ?_) (fun count hcount => ?_)
          fun hlimit count hcount => ?_
        · refine (hnow.goesOn dst' count hcount).imp_right fun hmore => ?_
          obtain ⟨hlt, y, hy, rfl⟩ := hmore
          refine ⟨hlt, y, ?_, rfl⟩
          obtain ⟨hi, hget⟩ := List.getElem?_eq_some_iff.mp hpostponed
          have hperm := (List.getElem_cons_eraseIdx_perm hi).mem_iff.mpr hy
          refine (List.mem_cons.mp hperm).resolve_left fun heq => hne ?_
          rw [heq, hget]
        · exact (hnow.goesOn dst count hcount).imp_right fun hmore => hmore.1
        · refine Nat.lt_of_le_of_ne (h.le dst count hcount).2 fun heq => ?_
          exact hspares hlimit _ hpostponed (heq ▸ hcount)
      rwa [hmade.toCounts.settle_eq]
    · have hone : s.rreqCount ≠ rreqRateLimit ∧ s.requests dst = some attrs.rreqRetries := by
        rw [Spares, Classical.not_imp] at hspares
        obtain ⟨hlimit, hnot⟩ := hspares
        refine ⟨hlimit, by_contra fun hne => hnot fun x hx => ?_⟩
        obtain rfl := Option.some.inj (hpostponed.symm.trans hx)
        exact hne
      exact ⟨iff_of_false (hcounts.not_bounded_sendRequest hone.1 hone.2) hspares, fun hmet => absurd hmet hspares⟩

/-- A timer that expires after the last request ends the discovery. -/
theorem Sound.ends (h : s.Sound attrs) (hpos : 0 < attrs.rreqRetries) (hlt : attrs.rreqRetries < 256)
    (hstep : (machine attrs rreqRateLimit).Step s event s') : s.Ends attrs event s' := by
  intro dst route hevent hmade
  obtain ⟨elapsed, event⟩ := event
  obtain rfl : event = .routeRequestTimerExpire dst route := hevent
  obtain ⟨⟨hbefore, -⟩, hexec⟩ := hstep
  obtain ⟨s₁, hhandle, rfl⟩ := Option.map_eq_some_iff.mp hexec
  have hnow : Sound attrs { s with now := s.now + elapsed } := h.advance hbefore (by omega)
  have hlast := (hnow.routeRequestTimerExpire hpos hlt hhandle).2 (h.requests_eq_of_made_eq hpos hmade)
  rw [hlast]
  exact giveUp_ends _ dst

/-- In a run, the discoveries are bounded and end exactly if no postponed request is made for a destination that has had
its last one. -/
theorem bounded_and_ends_iff {interfaces : List Interface} {maximumSimulationTime queueTimeout now : ℤ} {maxLen : ℕ}
    {tr : List (RouteDiscovery × ℕ × DiscoveryEvent)} (hpos : 0 < attrs.rreqRetries) (hlt : attrs.rreqRetries < 256)
    (h : (machine attrs rreqRateLimit).Run (start interfaces maximumSimulationTime maxLen queueTimeout now) tr s) :
    Machine.EveryState (Bounded attrs) tr s ∧ Machine.EveryStep (Ends attrs) tr s ↔
      Machine.Meets (Spares attrs rreqRateLimit) tr := by
  obtain ⟨hiff, hsound⟩ := h.everyState_iff_of_invariant (G := Spares attrs rreqRateLimit) (J := Sound attrs)
    sound_start (fun _ hs => hs.bounded hpos) fun _ _ _ hs hstep => hs.step hpos hlt hstep
  refine ⟨fun hbounded => hiff.mp hbounded.1, fun hmeets => ⟨hiff.mpr hmeets, ?_⟩⟩
  exact h.everyStep_of_everyState (hsound hmeets) fun _ _ _ hs hstep => hs.ends hpos hlt hstep

/-- A node with one interface and the default attributes. -/
def startDefault : RouteDiscovery := start [⟨⟨0x0a000001⟩, ⟨0x0a0000ff⟩⟩] 1000000000000 64 30000000000 0

/-- A packet for a destination. -/
def packet (uid : ℕ) (dst : Ipv4Address) : DiscoveryEvent :=
  .deferredRouteOutput ⟨uid, none, History.headerTo dst, 0⟩

/-- A packet for a destination that does not answer: there are two requests, and then nothing is left. -/
def unanswered : List (ℕ × DiscoveryEvent) :=
  [(0, packet 1 ⟨0x0a000002⟩), (1000000000, .rreqRateLimitTimerExpire), (1000000000, .rreqRateLimitTimerExpire),
    (800000000, .routeRequestTimerExpire ⟨0x0a000002⟩ ⟨.any, 0⟩), (200000000, .rreqRateLimitTimerExpire),
    (1000000000, .rreqRateLimitTimerExpire), (1000000000, .rreqRateLimitTimerExpire),
    (1000000000, .rreqRateLimitTimerExpire), (1000000000, .rreqRateLimitTimerExpire),
    (1000000000, .rreqRateLimitTimerExpire), (400000000, .routeRequestTimerExpire ⟨0x0a000002⟩ ⟨.any, 0⟩)]

theorem bounded_and_ends_iff_unanswered :
    ∃ out, (machine .default 10).replay startDefault unanswered = some out ∧ out.2.left.length = 1 ∧
      (Machine.EveryState (Bounded .default) out.1 out.2 ∧ Machine.EveryStep (Ends .default) out.1 out.2 ↔
        Machine.Meets (Spares .default 10) out.1) := by
  obtain ⟨out, hout, hrun, hleft⟩ := (machine .default 10).exists_replay startDefault unanswered
    (P := fun out => out.2.left.length = 1) (by decide +kernel)
  exact ⟨out, hout, hleft, bounded_and_ends_iff (by decide) (by decide) hrun⟩

/-- When the limit of ten requests is reached, three packets come for one destination. -/
def postponedThrice : List (ℕ × DiscoveryEvent) :=
  (List.range 10).map (fun i => (0, packet i ⟨.ofNat 32 (0x0a000010 + i)⟩)) ++
    [(0, packet 10 ⟨0x0a000002⟩), (0, packet 11 ⟨0x0a000002⟩), (0, packet 12 ⟨0x0a000002⟩),
      (1000000000, .rreqRateLimitTimerExpire), (100000, .sendRequest 0), (0, .sendRequest 0), (0, .sendRequest 0)]

/-- Three requests are made, where the retries are two. -/
theorem not_bounded_postponed :
    ¬∀ (attrs : Attributes) (rreqRateLimit : UInt16) (interfaces : List Interface)
      (maximumSimulationTime queueTimeout now : ℤ) (maxLen : ℕ) (tr : List (RouteDiscovery × ℕ × DiscoveryEvent))
      (s : RouteDiscovery), 0 < attrs.rreqRetries → attrs.rreqRetries < 256 →
        (machine attrs rreqRateLimit).Run (start interfaces maximumSimulationTime maxLen queueTimeout now) tr s →
          Machine.EveryState (Bounded attrs) tr s ∧ Machine.EveryStep (Ends attrs) tr s := by
  intro h
  obtain ⟨out, -, hrun, hmade⟩ := (machine .default 10).exists_replay startDefault postponedThrice
    (P := fun out => out.2.made ⟨0x0a000002⟩ = 3) (by decide +kernel)
  have hle := ((h _ _ _ _ _ _ _ _ _ (by decide) (by decide) hrun).1.2).made_le ⟨0x0a000002⟩
  rw [hmade] at hle
  exact absurd hle (by decide)

end RouteDiscovery

end Ns3.Aodv
