import Ns3.Internet.Ipv4Header
import Ns3.Lib.Lanes
import Ns3.Lib.Machine

/-!
# The request queue of AODV

`RequestQueue` (`aodv/model/aodv-rqueue.cc`), and `SendPacketFromQueue`, which forwards what is queued for a
destination. Times are in nanoseconds.

* `History` — the queue with the packets that it has accepted and those that have left it, and what became of these.
* `Sound` — of what was accepted some has left and the rest is queued, for each destination in order: the queue is
  sorted by the time at which a packet expires.
* `OneFate` — what is promised about every packet. It holds as long as no packet is taken out that is bound to another
  device than that of the route (`oneFate_iff`).
-/

namespace Ns3.Aodv

open Lib

/-- `QueueEntry`. Its callbacks are its own. -/
structure QueueEntry where
  /-- `GetUid` of the packet. -/
  uid : ℕ
  /-- The `oif` of the `DeferredRouteOutputTag` of the packet, if it has one. -/
  oif : Option ℤ
  header : Ipv4Header
  expire : ℤ
  deriving DecidableEq

namespace QueueEntry

/-- `GetIpv4Header ().GetDestination ()`. -/
def dst (e : QueueEntry) : Ipv4Address := e.header.destination

/-- The entry, to expire `exp` from now. -/
def setExpireTime (e : QueueEntry) (now exp : ℤ) : QueueEntry := { e with expire := exp + now }

/-- The time that is left to the entry. -/
def getExpireTime (e : QueueEntry) (now : ℤ) : ℤ := e.expire - now

/-- No time is left. -/
def isExpired (now : ℤ) (e : QueueEntry) : Bool := e.getExpireTime now < 0

theorem isExpired_iff {now : ℤ} {e : QueueEntry} : e.isExpired now = true ↔ e.expire < now := by
  rw [isExpired, decide_eq_true_eq, getExpireTime]
  omega

end QueueEntry

/-- What `SendPacketFromQueue` uses of an `Ipv4Route`. -/
structure Ipv4Route where
  source : Ipv4Address
  /-- `GetInterfaceForDevice (GetOutputDevice ())`. -/
  interface : ℤ
  deriving DecidableEq

/-- What becomes of a packet that leaves. -/
inductive Fate where
  /-- It is handed to its unicast callback, with a route and a header. -/
  | unicast (route : Ipv4Route) (header : Ipv4Header)
  /-- It is handed to its error callback. -/
  | error
  /-- It is handed to the caller of `Dequeue`. -/
  | caller
  | nobody
  deriving DecidableEq

/-- It is handed to one of its callbacks. -/
def Fate.Handed : Fate → Prop
  | .unicast _ _ | .error => True
  | .caller | .nobody => False

/-- The packets that wait for routes, with bounds on their number and time. -/
structure RequestQueue where
  queue : List QueueEntry
  maxLen : ℕ
  queueTimeout : ℤ

namespace RequestQueue

variable (now : ℤ)

variable (q : RequestQueue)

/-- `Purge`: the queue that it leaves, and what it hands to the error callbacks. -/
def purge : RequestQueue × List QueueEntry :=
  ({ q with queue := q.queue.filter fun e => !e.isExpired now }, q.queue.filter fun e => e.isExpired now)

/-- `Enqueue`: what it returns, the entry and the queue that it leaves, and what it hands to the error callbacks. The
front of an empty queue does not exist. -/
def enqueue (entry : QueueEntry) : Option (Bool × QueueEntry × RequestQueue × List QueueEntry) :=
  let (q, dropped) := q.purge now
  if q.queue.any fun e => e.uid = entry.uid && e.dst = entry.dst then some (false, entry, q, dropped)
  else
    let entry := entry.setExpireTime now q.queueTimeout
    if q.queue.length = q.maxLen then
      match q.queue with
      | [] => none
      | front :: queue => some (true, entry, { q with queue := queue ++ [entry] }, dropped ++ [front])
    else some (true, entry, { q with queue := q.queue ++ [entry] }, dropped)

/-- Outdated packets, and all to the destination, are dropped. -/
def dropPacketWithDst (dst : Ipv4Address) : RequestQueue × List QueueEntry :=
  let (q, dropped) := q.purge now
  ({ q with queue := q.queue.filter fun e => e.dst ≠ dst }, dropped ++ q.queue.filter fun e => e.dst = dst)

/-- `Dequeue`: the entry, if it finds one. -/
def dequeue (dst : Ipv4Address) : Option QueueEntry × RequestQueue × List QueueEntry :=
  let (q, dropped) := q.purge now
  match q.queue.find? fun e => e.dst = dst with
  | some entry => (some entry, { q with queue := q.queue.eraseP fun e => e.dst = dst }, dropped)
  | none => (none, q, dropped)

/-- The packet is bound to another device than that of the route. -/
def Mismatch (route : Ipv4Route) (e : QueueEntry) : Prop := ∃ oif ∈ e.oif, oif ≠ -1 ∧ oif ≠ route.interface
deriving Decidable

/-- The header that `SendPacketFromQueue` hands over. -/
def forwardHeader (route : Ipv4Route) (header : Ipv4Header) : Ipv4Header :=
  { header with source := route.source, ttl := header.ttl + 1 }

/-- `SendPacketFromQueue`, within the given rounds: the queue that it leaves, and the packets that leave with what
becomes of them. -/
def sendPacketFromQueue (dst : Ipv4Address) (route : Ipv4Route) :
    ℕ → RequestQueue → Option (RequestQueue × List (QueueEntry × Fate))
  | 0, _ => none
  | rounds + 1, q =>
    match q.dequeue now dst with
    | (none, q, dropped) => some (q, dropped.map (·, Fate.error))
    | (some entry, q, dropped) =>
      if Mismatch route entry then some (q, dropped.map (·, Fate.error) ++ [(entry, .nobody)])
      else do
        let (q, left) ← sendPacketFromQueue dst route rounds q
        some (q, dropped.map (·, Fate.error) ++ (entry, .unicast route (forwardHeader route entry.header)) :: left)

end RequestQueue

/-! ### What leaves -/

namespace RequestQueue

/-- The packets `gone` leave, one after the other and each destination in order. -/
structure Leaves (q : RequestQueue) (gone : List QueueEntry) (q' : RequestQueue) : Prop where
  departs : Departs QueueEntry.dst q.queue gone q'.queue
  maxLen : q'.maxLen = q.maxLen
  queueTimeout : q'.queueTimeout = q.queueTimeout

/-- The packets are sorted by the time at which they expire. -/
def Sorted (q : RequestQueue) : Prop := q.queue.Pairwise fun x y => x.expire ≤ y.expire

variable {now : ℤ} {q q' q'' : RequestQueue} {gone gone' dropped : List QueueEntry} {dst : Ipv4Address} {e : QueueEntry}
  {route : Ipv4Route}

theorem Leaves.trans (h : q.Leaves gone q') (h' : q'.Leaves gone' q'') : q.Leaves (gone ++ gone') q'' :=
  ⟨h.departs.trans h'.departs, h'.maxLen.trans h.maxLen, h'.queueTimeout.trans h.queueTimeout⟩

theorem Sorted.leaves (hs : q.Sorted) (h : q.Leaves gone q') : q'.Sorted := List.Pairwise.sublist h.departs.sublist hs

theorem leaves_purge (hs : q.Sorted) : q.Leaves (q.purge now).2 (q.purge now).1 := by
  refine ⟨departs_filter (List.Pairwise.imp ?_ hs), rfl, rfl⟩
  intro x y hxy hy
  rw [QueueEntry.isExpired_iff] at hy ⊢
  exact Int.lt_of_le_of_lt hxy hy

theorem leaves_dropPacketWithDst (hs : q.Sorted) :
    q.Leaves (q.dropPacketWithDst now dst).2 (q.dropPacketWithDst now dst).1 := by
  have hpurge : q.Leaves (q.purge now).2 (q.purge now).1 := leaves_purge hs
  refine hpurge.trans ⟨?_, rfl, rfl⟩
  exact departs_lane dst (q.purge now).1.queue

theorem mem_purge : e ∈ (q.purge now).1.queue ↔ e ∈ q.queue ∧ e.isExpired now = false := by
  rw [purge, List.mem_filter, Bool.not_eq_true']

theorem isExpired_of_mem_purge (h : e ∈ (q.purge now).2) : e.isExpired now = true := (List.mem_filter.mp h).2

theorem dequeue_eq (q : RequestQueue) (now : ℤ) (dst : Ipv4Address) :
    q.dequeue now dst =
      match (q.purge now).1.queue.find? fun e => e.dst = dst with
      | some entry =>
        (some entry, { (q.purge now).1 with queue := (q.purge now).1.queue.eraseP fun e => e.dst = dst },
          (q.purge now).2)
      | none => (none, q.purge now) := rfl

/-- What `Dequeue` takes is the first packet for the destination that has not expired. -/
theorem dequeue_some (hs : q.Sorted) (h : q.dequeue now dst = (some e, q', dropped)) :
    q.Leaves (dropped ++ [e]) q' ∧ e.isExpired now = false ∧ e.dst = dst ∧ ∀ x ∈ dropped, x.isExpired now = true := by
  have hpurge : q.Leaves (q.purge now).2 (q.purge now).1 := leaves_purge hs
  rw [dequeue_eq] at h
  split at h
  case h_2 => cases h
  case h_1 hfind =>
    cases h
    obtain ⟨hdst, before, after, hqueue, hbefore⟩ := List.find?_eq_some_iff_append.mp hfind
    rw [decide_eq_true_eq] at hdst
    have hnone : ∀ x ∈ before, x.dst ≠ dst := fun x hx => by simpa using hbefore x hx
    have herase : (q.purge now).1.queue.eraseP (fun e => e.dst = dst) = before ++ after := by
      rw [hqueue, List.eraseP_append_right _ (by simpa using hnone),
        List.eraseP_cons_of_pos (by rwa [decide_eq_true_eq])]
    have hmem : e ∈ (q.purge now).1.queue := by
      rw [hqueue]
      exact List.mem_append_right _ List.mem_cons_self
    refine ⟨hpurge.trans ⟨?_, rfl, rfl⟩, (mem_purge.mp hmem).2, hdst, fun x hx => isExpired_of_mem_purge hx⟩
    change Departs _ _ _ ((q.purge now).1.queue.eraseP fun e => e.dst = dst)
    rw [herase, hqueue]
    exact departs_first fun x hx => hdst ▸ hnone x hx

theorem dequeue_none (hs : q.Sorted) (h : q.dequeue now dst = (none, q', dropped)) :
    q.Leaves dropped q' ∧ (∀ x ∈ dropped, x.isExpired now = true) ∧
      ∀ x ∈ q.queue, x.isExpired now = false → x.dst ≠ dst := by
  have hpurge : q.Leaves (q.purge now).2 (q.purge now).1 := leaves_purge hs
  rw [dequeue_eq] at h
  split at h
  case h_1 => cases h
  case h_2 hfind =>
    cases h
    refine ⟨hpurge, fun x hx => isExpired_of_mem_purge hx, fun x hx hlive => ?_⟩
    simpa using List.find?_eq_none.mp hfind x (mem_purge.mpr ⟨hx, hlive⟩)

/-- `Enqueue` returns false, or one more packet joins the queue, at the end, and it is not longer than allowed. -/
theorem enqueue_cases (hs : q.Sorted) (hlength : q.queue.length ≤ q.maxLen) {entry entry' : QueueEntry} {ok : Bool}
    (h : q.enqueue now entry = some (ok, entry', q', dropped)) :
    (ok = false ∧ q.Leaves dropped q') ∨
      (ok = true ∧ entry' = entry.setExpireTime now q.queueTimeout ∧
        ∃ stay, q.Leaves dropped stay ∧ stay.queue.length < q.maxLen ∧
          q' = { stay with queue := stay.queue ++ [entry'] }) := by
  have hpurge : q.Leaves (q.purge now).2 (q.purge now).1 := leaves_purge hs
  have hle : (q.purge now).1.queue.length ≤ q.maxLen :=
    Nat.le_trans hpurge.departs.sublist.length_le hlength
  rw [enqueue] at h
  dsimp only at h
  split at h
  case isTrue =>
    cases h
    exact .inl ⟨rfl, hpurge⟩
  case isFalse =>
    split at h
    case isTrue hfull =>
      split at h
      case h_1 => cases h
      case h_2 front rest hqueue =>
        cases h
        refine .inr ⟨rfl, rfl, { (q.purge now).1 with queue := rest }, hpurge.trans ⟨?_, rfl, rfl⟩, ?_, rfl⟩
        · rw [hqueue]
          exact departs_head front rest
        · rw [hqueue, List.length_cons] at hle
          exact hle
    case isFalse hfull =>
      cases h
      exact .inr ⟨rfl, rfl, (q.purge now).1, hpurge, Nat.lt_of_le_of_ne hle hfull, rfl⟩

theorem enqueue_total (hpos : 0 < q.maxLen) (entry : QueueEntry) : ∃ r, q.enqueue now entry = some r := by
  rw [enqueue]
  dsimp only
  split
  case isTrue => exact ⟨_, rfl⟩
  case isFalse =>
    split
    case isTrue hfull =>
      split
      case h_1 hqueue =>
        rw [hqueue] at hfull
        exact absurd hfull.symm (Nat.ne_of_gt hpos)
      case h_2 => exact ⟨_, rfl⟩
    case isFalse => exact ⟨_, rfl⟩

theorem handed_error {dropped : List QueueEntry} : ∀ x ∈ dropped.map (·, Fate.error), x.2.Handed := by
  intro x hx
  obtain ⟨e, -, rfl⟩ := List.mem_map.mp hx
  exact trivial

theorem map_fst_error (dropped : List QueueEntry) : (dropped.map (·, Fate.error)).map Prod.fst = dropped := by
  rw [List.map_map]
  exact List.map_id _

/-- All packets that leave in `SendPacketFromQueue` are handed to a callback exactly if none is bound to another
device. -/
theorem sendPacketFromQueue_some {rounds : ℕ} {left : List (QueueEntry × Fate)} (hs : q.Sorted)
    (h : sendPacketFromQueue now dst route rounds q = some (q', left)) :
    q.Leaves (left.map Prod.fst) q' ∧
      ((∀ x ∈ left, x.2.Handed) ↔
        ∀ x ∈ q.queue, x.isExpired now = false → x.dst = dst → ¬Mismatch route x) := by
  induction rounds generalizing q left with
  | zero => cases h
  | succ rounds ih =>
    rw [sendPacketFromQueue] at h
    split at h
    case h_1 dropped hdequeue =>
      cases h
      obtain ⟨hleaves, -, hnone⟩ := dequeue_none hs hdequeue
      rw [map_fst_error]
      exact ⟨hleaves, iff_of_true handed_error fun x hx hlive hdst => absurd hdst (hnone x hx hlive)⟩
    case h_2 entry stay dropped hdequeue =>
      obtain ⟨hleaves, hlive, hdst, hdropped⟩ := dequeue_some hs hdequeue
      have hentry : entry ∈ q.queue :=
        hleaves.departs.mem_row.mpr (.inl (List.mem_append_right _ List.mem_cons_self))
      split at h
      case isTrue hmismatch =>
        cases h
        rw [List.map_append, map_fst_error]
        refine ⟨hleaves, iff_of_false (fun hall => ?_) fun hall => hall entry hentry hlive hdst hmismatch⟩
        exact hall (entry, .nobody) (List.mem_append_right _ List.mem_cons_self)
      case isFalse hmatch =>
        obtain ⟨⟨q₁, left₁⟩, hsend, h⟩ := Option.bind_eq_some_iff.mp h
        cases h
        obtain ⟨hleaves₁, hiff⟩ := ih (hs.leaves hleaves) hsend
        refine ⟨?_, ?_⟩
        · have htrans := hleaves.trans hleaves₁
          rw [List.append_assoc] at htrans
          rw [List.map_append, map_fst_error]
          exact htrans
        · have hleft : (∀ x ∈ dropped.map (·, Fate.error) ++
                (entry, Fate.unicast route (forwardHeader route entry.header)) :: left₁, x.2.Handed) ↔
              ∀ x ∈ left₁, x.2.Handed :=
            ⟨fun hall x hx => hall x (List.mem_append_right _ (List.mem_cons_of_mem _ hx)), fun hall x hx => by
              rcases List.mem_append.mp hx with hx | hx
              · exact handed_error x hx
              · rcases List.mem_cons.mp hx with rfl | hx
                · exact trivial
                · exact hall x hx⟩
          rw [hleft, hiff]
          constructor
          · intro hall x hx hlive hdst
            rcases hleaves.departs.mem_row.mp hx with hx | hx
            · rcases List.mem_append.mp hx with hx | hx
              · rw [hdropped x hx] at hlive
                cases hlive
              · rwa [List.mem_singleton.mp hx]
            · exact hall x hx hlive hdst
          · exact fun hall x hx => hall x (hleaves.departs.mem_row.mpr (.inr hx))

theorem sendPacketFromQueue_total {rounds : ℕ} (hs : q.Sorted) (h : q.queue.length < rounds) :
    ∃ r, sendPacketFromQueue now dst route rounds q = some r := by
  induction rounds generalizing q with
  | zero => exact absurd h (Nat.not_lt_zero _)
  | succ rounds ih =>
    rw [sendPacketFromQueue]
    split
    case h_1 => exact ⟨_, rfl⟩
    case h_2 entry stay dropped hdequeue =>
      obtain ⟨hleaves, -⟩ := dequeue_some hs hdequeue
      split
      case isTrue => exact ⟨_, rfl⟩
      case isFalse =>
        have hlength : stay.queue.length < q.queue.length := by
          have hperm := hleaves.departs.perm.length_eq
          rw [List.length_append, List.length_append, List.length_singleton] at hperm
          omega
        obtain ⟨r, hr⟩ := ih (hs.leaves hleaves) (by omega)
        rw [hr]
        exact ⟨_, rfl⟩

end RequestQueue

/-! ### Calls one after the other -/

/-- A call. -/
inductive QueueCall where
  | enqueue (entry : QueueEntry)
  | dequeue (dst : Ipv4Address)
  | dropPacketWithDst (dst : Ipv4Address)
  | purge
  | sendPacketFromQueue (dst : Ipv4Address) (route : Ipv4Route)

/-- A queue, with what it has accepted and what has left it. -/
structure History where
  queue : RequestQueue
  now : ℤ
  /-- The entries for which `Enqueue` has returned true, as it has queued them. -/
  accepted : List QueueEntry
  /-- The entries that have left, and what became of them. -/
  left : List (QueueEntry × Fate)

namespace History

/-- Nothing has been queued. -/
def new (maxLen : ℕ) (queueTimeout now : ℤ) : History := ⟨⟨[], maxLen, queueTimeout⟩, now, [], []⟩

/-- A call some time after the last one. -/
def exec (s : History) (event : ℕ × QueueCall) : Option History :=
  let now := s.now + event.1
  match event.2 with
  | .enqueue entry =>
    match s.queue.enqueue now entry with
    | none => none
    | some (ok, entry, q, dropped) =>
      some ⟨q, now, if ok then s.accepted ++ [entry] else s.accepted, s.left ++ dropped.map (·, .error)⟩
  | .dequeue dst =>
    let (found, q, dropped) := s.queue.dequeue now dst
    some ⟨q, now, s.accepted, s.left ++ (dropped.map (·, .error) ++ found.toList.map (·, .caller))⟩
  | .dropPacketWithDst dst =>
    let (q, dropped) := s.queue.dropPacketWithDst now dst
    some ⟨q, now, s.accepted, s.left ++ dropped.map (·, .error)⟩
  | .purge =>
    let (q, dropped) := s.queue.purge now
    some ⟨q, now, s.accepted, s.left ++ dropped.map (·, .error)⟩
  | .sendPacketFromQueue dst route =>
    match s.queue.sendPacketFromQueue now dst route (s.queue.queue.length + 1) with
    | none => none
    | some (q, left) => some ⟨q, now, s.accepted, s.left ++ left⟩

/-- The calls, at any times. -/
def machine : Machine History (ℕ × QueueCall) := ⟨fun _ _ => True, exec⟩

instance (s : History) (e : ℕ × QueueCall) : Decidable (machine.enabled s e) := .isTrue trivial

/-- What is promised about the packets. -/
structure OneFate (maxLen : ℕ) (s : History) : Prop where
  /-- The queue has at most its maximum of packets. -/
  length_le : s.queue.queue.length ≤ maxLen
  /-- The packets of a destination leave in the order in which they have been accepted. -/
  inOrder : ∀ dst, inLane QueueEntry.dst dst (s.left.map Prod.fst) ++ inLane QueueEntry.dst dst s.queue.queue =
    inLane QueueEntry.dst dst s.accepted
  /-- Each accepted packet is queued, or it has left once. -/
  once : (s.left.map Prod.fst ++ s.queue.queue).Perm s.accepted
  /-- Those that have left were handed to a callback. -/
  handed : ∀ x ∈ s.left, x.2.Handed

/-- No packet is taken out by `Dequeue` for another caller than `SendPacketFromQueue`, or for a route of another device
than the one it is bound to. -/
def Forwards (s : History) (event : ℕ × QueueCall) : Prop :=
  match event.2 with
  | .dequeue dst => ∀ e ∈ s.queue.queue, e.isExpired (s.now + event.1) = false → e.dst ≠ dst
  | .sendPacketFromQueue dst route => ∀ e ∈ s.queue.queue, e.isExpired (s.now + event.1) = false → e.dst = dst →
      ¬RequestQueue.Mismatch route e
  | _ => True

/-- Of what was accepted some has left and the rest is queued, for each destination in order. -/
structure Sound (maxLen : ℕ) (s : History) : Prop where
  maxLen_eq : s.queue.maxLen = maxLen
  length_le : s.queue.queue.length ≤ maxLen
  /-- What expires first stands first. -/
  sorted : s.queue.Sorted
  /-- None is to be kept longer than one that is queued now. -/
  expire_le : ∀ e ∈ s.queue.queue, e.expire ≤ s.queue.queueTimeout + s.now
  departs : Departs QueueEntry.dst s.accepted (s.left.map Prod.fst) s.queue.queue

theorem sound_new (maxLen : ℕ) (queueTimeout now : ℤ) : (new maxLen queueTimeout now).Sound maxLen :=
  ⟨rfl, Nat.zero_le _, List.Pairwise.nil, fun _ h => absurd h List.not_mem_nil, .refl []⟩

variable {s s' : History} {maxLen : ℕ} {now : ℤ} {q' : RequestQueue} {left : List (QueueEntry × Fate)}
  {event : ℕ × QueueCall}

section

variable (h : s.Sound maxLen)
include h

theorem Sound.oneFate_iff_handed : s.OneFate maxLen ↔ ∀ x ∈ s.left, x.2.Handed :=
  ⟨OneFate.handed, fun hhanded => ⟨h.length_le, h.departs.lanes, h.departs.perm, hhanded⟩⟩

/-- Packets leave. -/
theorem Sound.leaves (hnow : s.now ≤ now) (hleaves : s.queue.Leaves (left.map Prod.fst) q') :
    Sound maxLen ⟨q', now, s.accepted, s.left ++ left⟩ := by
  obtain ⟨hdeparts, hmaxLen, htimeout⟩ := hleaves
  refine ⟨hmaxLen.trans h.maxLen_eq, ?_, h.sorted.leaves ⟨hdeparts, hmaxLen, htimeout⟩, fun e he => ?_, ?_⟩
  · exact Nat.le_trans hdeparts.sublist.length_le h.length_le
  · have hexpire := h.expire_le e (hdeparts.sublist.subset he)
    change e.expire ≤ q'.queueTimeout + now
    omega
  · rw [List.map_append]
    exact h.departs.trans hdeparts

/-- One more packet joins. -/
theorem Sound.joins (hlength : s.queue.queue.length < maxLen) {e : QueueEntry}
    (he : e.expire = s.queue.queueTimeout + s.now) :
    Sound maxLen ⟨{ s.queue with queue := s.queue.queue ++ [e] }, s.now, s.accepted ++ [e], s.left⟩ := by
  refine ⟨h.maxLen_eq, ?_, ?_, fun x hx => ?_, h.departs.concat e⟩
  · rw [List.length_append]
    exact hlength
  · refine List.pairwise_append.mpr ⟨h.sorted, List.pairwise_singleton _ _, fun x hx y hy => ?_⟩
    rw [List.mem_singleton.mp hy, he]
    exact h.expire_le x hx
  · rcases List.mem_append.mp hx with hx | hx
    · exact h.expire_le x hx
    · rw [List.mem_singleton.mp hx]
      exact Int.le_of_eq he

/-- What a call does: the queue stays sound, and what leaves in it is handed to a callback exactly if the condition is
met. -/
theorem Sound.exec (hexec : s.exec event = some s') :
    s'.Sound maxLen ∧ ∃ new, s'.left = s.left ++ new ∧ ((∀ x ∈ new, x.2.Handed) ↔ s.Forwards event) := by
  obtain ⟨elapsed, call⟩ := event
  have hnow : s.now ≤ s.now + (elapsed : ℤ) := by omega
  cases call with
  | enqueue entry =>
    rw [History.exec] at hexec
    dsimp only at hexec
    split at hexec
    case h_1 => cases hexec
    case h_2 ok entry' q' dropped henqueue =>
      cases hexec
      refine ⟨?_, dropped.map (·, Fate.error), rfl, iff_of_true RequestQueue.handed_error trivial⟩
      rcases RequestQueue.enqueue_cases h.sorted (h.maxLen_eq ▸ h.length_le) henqueue with
        ⟨rfl, hleaves⟩ | ⟨rfl, rfl, stay, hleaves, hlength, rfl⟩
      · exact h.leaves hnow (by rwa [RequestQueue.map_fst_error])
      · have hstay : Sound maxLen ⟨stay, s.now + elapsed, s.accepted, s.left ++ dropped.map (·, Fate.error)⟩ :=
          h.leaves hnow (by rwa [RequestQueue.map_fst_error])
        refine hstay.joins (h.maxLen_eq ▸ hlength) ?_
        rw [hleaves.queueTimeout]
        rfl
  | dequeue dst =>
    rw [History.exec] at hexec
    dsimp only at hexec
    cases hdequeue : s.queue.dequeue (s.now + elapsed) dst with
    | mk found rest =>
      obtain ⟨q', dropped⟩ := rest
      rw [hdequeue] at hexec
      cases hexec
      cases found with
      | none =>
        obtain ⟨hleaves, -, hnone⟩ := RequestQueue.dequeue_none h.sorted hdequeue
        refine ⟨h.leaves hnow ?_, _, rfl, iff_of_true ?_ hnone⟩
        · rw [List.map_append, RequestQueue.map_fst_error]
          exact (List.append_nil dropped).symm ▸ hleaves
        · rw [Option.toList_none, List.map_nil, List.append_nil]
          exact RequestQueue.handed_error
      | some e =>
        obtain ⟨hleaves, hlive, hdst, -⟩ := RequestQueue.dequeue_some h.sorted hdequeue
        refine ⟨h.leaves hnow ?_, _, rfl, iff_of_false ?_ ?_⟩
        · rw [List.map_append, RequestQueue.map_fst_error]
          exact hleaves
        · intro hall
          exact hall (e, .caller) (List.mem_append_right _ List.mem_cons_self)
        · intro hnone
          have hmem : e ∈ s.queue.queue :=
            hleaves.departs.mem_row.mpr (.inl (List.mem_append_right _ List.mem_cons_self))
          exact hnone e hmem hlive hdst
  | dropPacketWithDst dst =>
    cases hexec
    refine ⟨h.leaves hnow ?_, _, rfl, iff_of_true RequestQueue.handed_error trivial⟩
    rw [RequestQueue.map_fst_error]
    exact RequestQueue.leaves_dropPacketWithDst h.sorted
  | purge =>
    cases hexec
    refine ⟨h.leaves hnow ?_, _, rfl, iff_of_true RequestQueue.handed_error trivial⟩
    rw [RequestQueue.map_fst_error]
    exact RequestQueue.leaves_purge h.sorted
  | sendPacketFromQueue dst route =>
    rw [History.exec] at hexec
    dsimp only at hexec
    split at hexec
    case h_1 => cases hexec
    case h_2 q left hsend =>
      cases hexec
      obtain ⟨hleaves, hiff⟩ := RequestQueue.sendPacketFromQueue_some h.sorted hsend
      exact ⟨h.leaves hnow hleaves, left, rfl, hiff⟩

theorem Sound.exec_total (hpos : 0 < maxLen) (event : ℕ × QueueCall) :
    ∃ s', s.exec event = some s' := by
  obtain ⟨elapsed, call⟩ := event
  cases call with
  | enqueue entry =>
    obtain ⟨r, hr⟩ := RequestQueue.enqueue_total (h.maxLen_eq ▸ hpos) entry
    rw [History.exec]
    dsimp only
    rw [hr]
    exact ⟨_, rfl⟩
  | dequeue dst => exact ⟨_, rfl⟩
  | dropPacketWithDst dst => exact ⟨_, rfl⟩
  | purge => exact ⟨_, rfl⟩
  | sendPacketFromQueue dst route =>
    obtain ⟨r, hr⟩ := RequestQueue.sendPacketFromQueue_total h.sorted (Nat.lt_succ_self _)
    rw [History.exec]
    dsimp only
    rw [hr]
    exact ⟨_, rfl⟩

end

/-- In a run that starts with an empty queue, every packet has one fate exactly if in each call the condition is met;
and each call returns. -/
theorem oneFate_iff {queueTimeout : ℤ} {tr : List (History × ℕ × QueueCall)} (hpos : 0 < maxLen)
    (h : machine.Run (new maxLen queueTimeout now) tr s) :
    (Machine.EveryState (OneFate maxLen) tr s ↔ Machine.Meets Forwards tr) ∧
      ∀ event, ∃ s', s.exec event = some s' := by
  have hsound : s.Sound maxLen := by
    refine h.invariant (G := fun _ _ => True) (fun _ _ => trivial) (sound_new _ _ _) fun s e s' hs _ hstep => ?_
    exact (hs.exec hstep.2).1
  have hnew : (new maxLen queueTimeout now).OneFate maxLen :=
    (sound_new _ _ _).oneFate_iff_handed.mpr fun _ hx => absurd hx List.not_mem_nil
  refine ⟨?_, hsound.exec_total hpos⟩
  refine (h.everyState_iff_of_invariant (J := fun s => s.Sound maxLen ∧ s.OneFate maxLen) ⟨sound_new _ _ _, hnew⟩
    (fun _ hs => hs.2) fun s e s' hs hstep => ?_).1
  obtain ⟨hsound, hfate⟩ := hs
  obtain ⟨hsound', added, hleft, hiff⟩ := hsound.exec hstep.2
  have hfate' : s'.OneFate maxLen ↔ s.Forwards e := by
    rw [hsound'.oneFate_iff_handed, hleft, ← hiff]
    constructor
    · exact fun hall x hx => hall x (List.mem_append_right _ hx)
    · intro hall x hx
      exact (List.mem_append.mp hx).elim (hfate.handed x) (hall x)
  exact ⟨hfate', fun hforwards => ⟨hsound', hfate'.mpr hforwards⟩⟩

/-- The header of a packet to a destination. -/
def headerTo (dst : Ipv4Address) : Ipv4Header := ⟨⟨1⟩, dst, 17, 0, 64, false, false, 0, 20⟩

/-- Two packets of which the first is forwarded and the second expires. -/
theorem oneFate_iff_two :
    ∃ out, Machine.replay machine (new 64 30 0) [(0, .enqueue ⟨1, none, headerTo ⟨9⟩, 0⟩),
        (5, .sendPacketFromQueue ⟨9⟩ ⟨⟨1⟩, 2⟩), (1, .enqueue ⟨2, some 1, headerTo ⟨9⟩, 0⟩), (31, .purge)] = some out ∧
      (Machine.EveryState (OneFate 64) out.1 out.2 ↔ Machine.Meets Forwards out.1) ∧
      ∀ event, ∃ s', out.2.exec event = some s' := by
  obtain ⟨out, hout, hrun, -⟩ := machine.exists_replay (new 64 30 0)
    [(0, .enqueue ⟨1, none, headerTo ⟨9⟩, 0⟩), (5, .sendPacketFromQueue ⟨9⟩ ⟨⟨1⟩, 2⟩),
      (1, .enqueue ⟨2, some 1, headerTo ⟨9⟩, 0⟩), (31, .purge)] (P := fun _ => True) (by decide +kernel)
  exact ⟨out, hout, oneFate_iff (by decide) hrun⟩

/-- A packet that is bound to another device than that of the route. -/
theorem not_oneFate_otherDevice :
    ¬∀ (maxLen : ℕ) (queueTimeout now : ℤ) (tr : List (History × ℕ × QueueCall)) (s : History), 0 < maxLen →
      machine.Run (new maxLen queueTimeout now) tr s → Machine.EveryState (OneFate maxLen) tr s := by
  intro h
  obtain ⟨out, -, hrun, hleft⟩ := machine.exists_replay (new 64 30 0)
    [(0, .enqueue ⟨1, some 1, headerTo ⟨9⟩, 0⟩), (5, .sendPacketFromQueue ⟨9⟩ ⟨⟨1⟩, 2⟩)]
    (P := fun out => ∃ x ∈ out.2.left, x.2 = .nobody) (by decide +kernel)
  obtain ⟨x, hx, hnobody⟩ := hleft
  have hhanded := (h 64 30 0 out.1 out.2 (by decide) hrun).2.handed x hx
  rw [hnobody] at hhanded
  exact hhanded

end History

end Ns3.Aodv
