import Ns3.Core.DefaultSimulatorImpl

/-!
# The discipline of events

What a program can rely on when it schedules, cancels and removes events.

## What is proved

`Record` is what a program has asked for, read off its calls. `Sound` ties the simulator to it: the queue has
the events whose turn has not come and that were not dropped, the cancel marks are on the dropped events, and
those that ran are the ones whose turn came first. From it:

* `Sound.isExpired_event`, `Sound.isExpired_destroy` — `IsExpired` is false exactly for what is pending.
* `discipline` — all of it in every run whose events are not scheduled for the past.
-/

namespace Ns3

open Lib Scheduler

namespace Simulation

/-- What a program has asked for. -/
structure Record where
  /-- The events scheduled, oldest first. -/
  scheduled : List Event
  /-- The destroy events scheduled, oldest first. -/
  destroys : List EventId
  /-- What was cancelled or removed while it was pending. -/
  dropped : List EventId

/-- Nothing has been asked for. -/
def Record.new : Record := ⟨[], [], []⟩

/-- The id is that of something scheduled. -/
def Record.Known (r : Record) (id : EventId) : Prop := id ∈ r.scheduled.map Event.id ∨ id ∈ r.destroys

/-- The id is that of an event in the queue, or of a destroy event in the list. -/
def Pending (s : Simulation) (id : EventId) : Prop := id ∈ s.events.map Event.id ∨ id ∈ s.destroyEvents
deriving Decidable

/-- What a call adds to the record. -/
def Record.update (s : Simulation) : Call → Record → Record
  | .schedule delay, r => { r with scheduled := r.scheduled ++ [s.nextEvent (s.absolute delay) s.currentContext] }
  | .scheduleWithContext context delay, r =>
    { r with scheduled := r.scheduled ++ [s.nextEvent (s.absolute delay) context] }
  | .scheduleNow, r => { r with scheduled := r.scheduled ++ [s.nextEvent s.currentTs s.currentContext] }
  | .scheduleDestroy, r => { r with destroys := r.destroys ++ [⟨some s.made, s.currentTs, 0xffffffff, 2⟩] }
  | .remove id, r | .cancel id, r => if s.Pending id then { r with dropped := r.dropped ++ [id] } else r
  | .stop, r | .processOneEvent, r | .destroyNext, r => r

/-- The last event whose turn has come, as a place in the order of events. -/
def now (s : Simulation) : ℕ ×ₗ ℕ := toLex (s.currentTs, s.currentUid)

theorem rank_lt_iff {a b c d : ℕ} : toLex (a, b) < toLex (c, d) ↔ a < c ∨ a = c ∧ b < d := Prod.Lex.toLex_lt_toLex

/-- What the queue is, of what was scheduled. -/
structure QueueSound (s : Simulation) (r : Record) : Prop where
  sorted : ListScheduler.Sorted s.events
  /-- The turn of the events in the queue has not come. -/
  later : ∀ ev ∈ s.events, s.now < ev.rank
  /-- What is in the queue was scheduled. -/
  known : ∀ ev ∈ s.events, ev ∈ r.scheduled
  /-- What was scheduled stays in the queue until its turn comes, or until it is dropped. -/
  kept : ∀ ev ∈ r.scheduled, s.now < ev.rank → ev.id ∉ r.dropped → ev ∈ s.events
  /-- The cancel marks are on the events that were dropped. -/
  cancelled_iff : ∀ ev ∈ r.scheduled, ev.impl ∈ s.cancelled ↔ ev.id ∈ r.dropped
  /-- Uids and `EventImpl`s are given out in order. -/
  order : r.scheduled.Pairwise fun e f => e.key.uid < f.key.uid ∧ e.impl < f.impl
  /-- Uids and `EventImpl`s are given out from the ones of the simulator on. -/
  bounds : ∀ ev ∈ r.scheduled, 4 ≤ ev.key.uid ∧ ev.key.uid < s.uid ∧ ev.impl < s.made
  /-- The event that runs has an earlier uid than those to come. -/
  currentUid_lt : s.currentUid < s.uid
  /-- The first uids are not given out. -/
  uid_ge : 4 ≤ s.uid
  /-- The counter counts the queue. -/
  unscheduled_eq : s.unscheduledEvents = s.events.length
  /-- The counter is an `int`. -/
  length_lt : s.events.length < 2 ^ 31

/-- What the list of destroy events is, of what was scheduled for the end. -/
structure DestroySound (s : Simulation) (r : Record) : Prop where
  /-- Destroy events have the uid 2 and an `EventImpl` of their own. -/
  bounds : ∀ id ∈ r.destroys, id.uid = 2 ∧ ∃ impl, id.eventImpl = some impl ∧ impl < s.made ∧
    ∀ ev ∈ r.scheduled, ev.impl ≠ impl
  /-- No two destroy events have the same `EventImpl`. -/
  distinct : r.destroys.Pairwise fun a b => a.eventImpl ≠ b.eventImpl
  /-- The cancel marks are on the destroy events that were cancelled. -/
  cancelled_iff : ∀ id ∈ s.destroyEvents, s.isCancelled id = true ↔ id ∈ r.dropped
  /-- Destroy events run in the order they were scheduled in: those that ran, and those to come. -/
  ran : ∃ done : List EventId, (done ++ s.destroyEvents).Sublist r.destroys ∧
    s.destroyed = done.filterMap EventId.eventImpl ∧ (∀ id ∈ done, id ∉ r.dropped) ∧
    ∀ id ∈ r.destroys, id ∈ done ++ s.destroyEvents ∨ id ∈ r.dropped

/-- The events that ran: in order, at their times, and just those whose turn came and that had not been
dropped. -/
def RanInOrder (s : Simulation) (r : Record) : Prop :=
  ∃ ran : List Event, (ran.Pairwise fun e f => e.rank < f.rank) ∧
    s.invoked = ran.map (fun ev => (ev.impl, ev.key.ts)) ∧
    ∀ ev, ev ∈ ran ↔ ev ∈ r.scheduled ∧ ev.rank ≤ s.now ∧ ev.id ∉ r.dropped

/-- What holds of the simulator, given what the program has asked for. -/
structure Sound (s : Simulation) (r : Record) : Prop where
  queue : s.QueueSound r
  destroy : s.DestroySound r
  ran : s.RanInOrder r
  /-- The program has ids of what it scheduled only. -/
  handed : ∀ id ∈ s.handed, r.Known id
  /-- What was dropped had been scheduled. -/
  dropped : ∀ id ∈ r.dropped, r.Known id
  /-- The cancel marks are on `EventImpl`s that were made. -/
  cancelled_lt : ∀ impl ∈ s.cancelled, impl < s.made

variable {s s' : Simulation} {r : Record} {debug : Bool}

theorem sound_new : Simulation.new.Sound Record.new where
  queue :=
    { sorted := List.Pairwise.nil
      later := fun ev hev => absurd hev List.not_mem_nil
      known := fun ev hev => absurd hev List.not_mem_nil
      kept := fun ev hev => absurd hev List.not_mem_nil
      cancelled_iff := fun ev hev => absurd hev List.not_mem_nil
      order := List.Pairwise.nil
      bounds := fun ev hev => absurd hev List.not_mem_nil
      currentUid_lt := by decide
      uid_ge := le_rfl
      unscheduled_eq := rfl
      length_lt := by decide }
  destroy :=
    { bounds := fun id hid => absurd hid List.not_mem_nil
      distinct := List.Pairwise.nil
      cancelled_iff := fun id hid => absurd hid List.not_mem_nil
      ran := ⟨[], List.Sublist.refl _, rfl, fun id hid => absurd hid List.not_mem_nil,
        fun id hid => absurd hid List.not_mem_nil⟩ }
  ran := ⟨[], List.Pairwise.nil, rfl, fun ev => by simp [Record.new]⟩
  handed id hid := absurd hid List.not_mem_nil
  dropped id hid := absurd hid List.not_mem_nil
  cancelled_lt impl himpl := absurd himpl List.not_mem_nil

/-! ### Ids -/

theorem Event.id_injective {e f : Event} (h : e.id = f.id) : e = f := by
  obtain ⟨impl, ts, uid, context⟩ := e
  obtain ⟨impl', ts', uid', context'⟩ := f
  simp only [Event.id, EventId.mk.injEq, Option.some.injEq] at h
  obtain ⟨rfl, rfl, rfl, rfl⟩ := h
  rfl

variable {ev : Event} {events : List Event}

theorem mem_map_id : ev.id ∈ events.map Event.id ↔ ev ∈ events := by
  rw [List.mem_map]
  constructor
  · rintro ⟨f, hf, hid⟩
    exact Event.id_injective hid ▸ hf
  · exact fun hev => ⟨ev, hev, rfl⟩

variable {id : EventId}

theorem DestroySound.mem_destroys (h : s.DestroySound r) (hid : id ∈ s.destroyEvents) : id ∈ r.destroys := by
  obtain ⟨done, hsub, -⟩ := h.ran
  exact hsub.subset (List.mem_append_right _ hid)

theorem Sound.uid_ne_two (h : s.Sound r) (hev : ev ∈ r.scheduled) : ev.id.uid ≠ 2 := by
  have hge := (h.queue.bounds ev hev).1
  change ev.key.uid ≠ 2
  omega

theorem Sound.pending_event (h : s.Sound r) (hev : ev ∈ r.scheduled) : s.Pending ev.id ↔ ev ∈ s.events := by
  rw [Pending, mem_map_id]
  refine or_iff_left fun hid => h.uid_ne_two hev ?_
  exact (h.destroy.bounds _ (h.destroy.mem_destroys hid)).1

theorem Sound.pending_destroy (h : s.Sound r) (hid : id ∈ r.destroys) : s.Pending id ↔ id ∈ s.destroyEvents := by
  rw [Pending]
  refine or_iff_right fun hmem => ?_
  obtain ⟨ev, hev, rfl⟩ := List.mem_map.mp hmem
  exact h.uid_ne_two (h.queue.known ev hev) (h.destroy.bounds _ hid).1

/-- `IsExpired` of an event: it is false while the event is in the queue and not cancelled. -/
theorem Sound.isExpired_event (h : s.Sound r) (hev : ev ∈ r.scheduled) :
    s.isExpired ev.id = false ↔ ev ∈ s.events ∧ ev.id ∉ r.dropped := by
  have hcancel : s.isCancelled ev.id = true ↔ ev.id ∈ r.dropped := by
    rw [← h.queue.cancelled_iff ev hev]
    exact decide_eq_true_iff
  have hnow : (ev.id.ts < s.currentTs ∨ ev.id.ts = s.currentTs ∧ ev.id.uid ≤ s.currentUid) ↔ ¬ s.now < ev.rank := by
    rw [now, Event.rank, EventKey.rank, rank_lt_iff]
    change ev.key.ts < s.currentTs ∨ ev.key.ts = s.currentTs ∧ ev.key.uid ≤ s.currentUid ↔ _
    omega
  rw [isExpired, if_neg (h.uid_ne_two hev), Bool.or_eq_false_iff, decide_eq_false_iff_not, hnow, not_not,
    ← Bool.not_eq_true, hcancel]
  constructor
  · rintro ⟨hdrop, hlater⟩
    exact ⟨h.queue.kept ev hev hlater hdrop, hdrop⟩
  · rintro ⟨hmem, hdrop⟩
    exact ⟨hdrop, h.queue.later ev hmem⟩

/-- `IsExpired` of a destroy event: it is false while the event is in the list and not cancelled. -/
theorem Sound.isExpired_destroy (h : s.Sound r) (hid : id ∈ r.destroys) :
    s.isExpired id = false ↔ id ∈ s.destroyEvents ∧ id ∉ r.dropped := by
  rw [isExpired, if_pos (h.destroy.bounds id hid).1]
  split_ifs with hcancel
  · refine iff_of_false not_false fun hboth => hboth.2 ?_
    exact (h.destroy.cancelled_iff id hboth.1).mp hcancel
  · rw [Bool.not_eq_false', List.contains_iff_mem]
    refine ⟨fun hmem => ⟨hmem, fun hdrop => hcancel ?_⟩, And.left⟩
    exact (h.destroy.cancelled_iff id hmem).mpr hdrop

theorem isExpired_null (s : Simulation) : s.isExpired .null = true := rfl

section

variable (h : s.Sound r)
include h

theorem Sound.impl_lt (hid : r.Known id) : ∃ impl, id.eventImpl = some impl ∧ impl < s.made := by
  rcases hid with hid | hid
  · obtain ⟨ev, hev, rfl⟩ := List.mem_map.mp hid
    exact ⟨ev.impl, rfl, (h.queue.bounds ev hev).2.2⟩
  · obtain ⟨-, impl, himpl, hlt, -⟩ := h.destroy.bounds id hid
    exact ⟨impl, himpl, hlt⟩

/-- The ids of what was scheduled differ in their `EventImpl`s. -/
theorem Sound.eq_of_eventImpl_eq {a b : EventId} (ha : r.Known a) (hb : r.Known b) (hab : a.eventImpl = b.eventImpl) :
    a = b := by
  have hne : ∀ ev ∈ r.scheduled, ∀ d ∈ r.destroys, ev.id.eventImpl ≠ d.eventImpl := by
    intro ev hev d hd heq
    obtain ⟨-, impl, himpl, -, hfresh⟩ := h.destroy.bounds d hd
    rw [himpl] at heq
    exact hfresh ev hev (Option.some.inj heq)
  rcases ha with ha | ha <;> rcases hb with hb | hb
  · obtain ⟨e, he, rfl⟩ := List.mem_map.mp ha
    obtain ⟨f, hf, rfl⟩ := List.mem_map.mp hb
    have himpl : e.impl = f.impl := Option.some.inj hab
    have hinj : Set.InjOn Event.impl {ev | ev ∈ r.scheduled} :=
      fun x hx y hy hxy => List.inj_on_of_nodup_map
        (List.pairwise_map.mpr (h.queue.order.imp fun hlt => hlt.2.ne)) hx hy hxy
    rw [hinj he hf himpl]
  · obtain ⟨e, he, rfl⟩ := List.mem_map.mp ha
    exact absurd hab (hne e he b hb)
  · obtain ⟨f, hf, rfl⟩ := List.mem_map.mp hb
    exact absurd hab.symm (hne f hf a ha)
  · exact List.inj_on_of_nodup_map (List.pairwise_map.mpr h.destroy.distinct) ha hb hab

theorem Sound.known (hid : s.Pending id) : r.Known id := by
  rcases hid with hid | hid
  · obtain ⟨ev, hev, rfl⟩ := List.mem_map.mp hid
    exact Or.inl (mem_map_id.mpr (h.queue.known ev hev))
  · exact Or.inr (h.destroy.mem_destroys hid)

/-- `IsExpired` of any id: it is false while what it stands for is pending and not dropped. -/
theorem Sound.isExpired_iff (hid : r.Known id) : s.isExpired id = false ↔ s.Pending id ∧ id ∉ r.dropped := by
  rcases hid with hid | hid
  · obtain ⟨ev, hev, rfl⟩ := List.mem_map.mp hid
    rw [h.isExpired_event hev, h.pending_event hev]
  · rw [h.isExpired_destroy hid, h.pending_destroy hid]

theorem Sound.not_pending_null : ¬ s.Pending .null := by
  intro hnull
  obtain ⟨impl, himpl, -⟩ := h.impl_lt (h.known hnull)
  cases himpl

/-! ### Scheduling -/

/-- A new event goes into the queue, behind what its turn is behind. -/
theorem Sound.insertEvent (himpl : ev.impl = s.made) (huid : ev.key.uid = s.uid) (hts : s.currentTs ≤ ev.key.ts)
    (hroom : s.uid + 1 < 2 ^ 32) (hlength : s.events.length + 1 < 2 ^ 31) :
    (s.insertEvent ev).Sound { r with scheduled := r.scheduled ++ [ev] } := by
  have hq := h.queue
  have hlater : s.now < ev.rank := by
    rw [now, Event.rank, EventKey.rank, rank_lt_iff, huid]
    have hlt := hq.currentUid_lt
    omega
  have hmem : ∀ {x : Event}, x ∈ (s.insertEvent ev).events ↔ x = ev ∨ x ∈ s.events := ListScheduler.mem_insert
  have hnew : ¬ r.Known ev.id := by
    intro hknown
    obtain ⟨impl, heq, hlt⟩ := h.impl_lt hknown
    have : ev.impl = impl := Option.some.inj heq
    omega
  have huid' : (s.insertEvent ev).uid = s.uid + 1 := Nat.mod_eq_of_lt hroom
  have hnever : ev.impl ∉ s.cancelled := fun hcancel => by
    have := h.cancelled_lt _ hcancel
    omega
  refine ⟨⟨?_, ?_, ?_, ?_, ?_, ?_, ?_, ?_, ?_, ?_, ?_⟩, ⟨?_, h.destroy.distinct, h.destroy.cancelled_iff,
    h.destroy.ran⟩, ?_, ?_, ?_, ?_⟩
  · refine hq.sorted.insert fun x hx heq => ?_
    have := (hq.bounds x (hq.known x hx)).2.1
    have := (EventKey.rank_eq_iff.mp heq).2
    omega
  · intro x hx
    rcases hmem.mp hx with rfl | hx
    · exact hlater
    · exact hq.later x hx
  · intro x hx
    rcases hmem.mp hx with rfl | hx
    · exact List.mem_append_right _ (List.mem_singleton_self _)
    · exact List.mem_append_left _ (hq.known x hx)
  · intro x hx hturn hdrop
    rcases List.mem_append.mp hx with hx | hx
    · exact hmem.mpr (Or.inr (hq.kept x hx hturn hdrop))
    · exact hmem.mpr (Or.inl (List.mem_singleton.mp hx))
  · intro x hx
    rcases List.mem_append.mp hx with hx | hx
    · exact hq.cancelled_iff x hx
    · obtain rfl := List.mem_singleton.mp hx
      exact iff_of_false hnever fun hdrop => hnew (h.dropped _ hdrop)
  · refine List.pairwise_append.mpr ⟨hq.order, List.pairwise_singleton .., fun x hx y hy => ?_⟩
    obtain rfl := List.mem_singleton.mp hy
    rw [himpl, huid]
    exact (hq.bounds x hx).2
  · intro x hx
    rw [huid']
    change 4 ≤ x.key.uid ∧ x.key.uid < s.uid + 1 ∧ x.impl < s.made + 1
    rcases List.mem_append.mp hx with hx | hx
    · have := hq.bounds x hx
      omega
    · obtain rfl := List.mem_singleton.mp hx
      have := hq.uid_ge
      omega
  · rw [huid']
    exact hq.currentUid_lt.trans (Nat.lt_succ_self _)
  · rw [huid']
    exact hq.uid_ge.trans (Nat.le_succ _)
  · change toInt (s.unscheduledEvents + 1) = (ListScheduler.insert ev s.events).length
    rw [(ListScheduler.insert_perm ev s.events).length_eq, List.length_cons, hq.unscheduled_eq, toInt]
    omega
  · change (ListScheduler.insert ev s.events).length < 2 ^ 31
    rw [(ListScheduler.insert_perm ev s.events).length_eq]
    exact hlength
  · intro id hid
    obtain ⟨huid2, impl, heq, hlt, hfresh⟩ := h.destroy.bounds id hid
    refine ⟨huid2, impl, heq, hlt.trans (Nat.lt_succ_self _), fun x hx => ?_⟩
    rcases List.mem_append.mp hx with hx | hx
    · exact hfresh x hx
    · obtain rfl := List.mem_singleton.mp hx
      omega
  · obtain ⟨ran, hsorted, hinvoked, hran⟩ := h.ran
    refine ⟨ran, hsorted, hinvoked, fun x => ?_⟩
    rw [hran x, List.mem_append, List.mem_singleton]
    refine and_congr_left fun hboth => ⟨Or.inl, fun hx => hx.resolve_right ?_⟩
    rintro rfl
    exact absurd hboth.1 (not_le.mpr hlater)
  · intro id hid
    refine (h.handed id hid).imp_left fun hmem => ?_
    rw [List.map_append]
    exact List.mem_append_left _ hmem
  · intro id hid
    refine (h.dropped id hid).imp_left fun hmem => ?_
    rw [List.map_append]
    exact List.mem_append_left _ hmem
  · exact fun impl hcancel => (h.cancelled_lt impl hcancel).trans (Nat.lt_succ_self _)

theorem Sound.hand (hid : r.Known id) : Sound { s with handed := s.handed ++ [id] } r := by
  refine ⟨{ h.queue with }, { h.destroy with }, h.ran, fun x hx => ?_, h.dropped, h.cancelled_lt⟩
  rcases List.mem_append.mp hx with hx | hx
  · exact h.handed x hx
  · rw [List.mem_singleton.mp hx]
    exact hid

/-- A new destroy event goes to the end of the list. -/
theorem Sound.scheduleDestroy (hroom : s.uid + 1 < 2 ^ 32) :
    s.scheduleDestroy.Sound { r with destroys := r.destroys ++ [⟨some s.made, s.currentTs, 0xffffffff, 2⟩] } := by
  obtain ⟨new, hnew⟩ : ∃ new : EventId, new = ⟨some s.made, s.currentTs, 0xffffffff, 2⟩ := ⟨_, rfl⟩
  rw [← hnew]
  have hq := h.queue
  have hd := h.destroy
  have himpl : new.eventImpl = some s.made := by rw [hnew]
  have hfresh : ¬ r.Known new := by
    intro hknown
    obtain ⟨impl, heq, hlt⟩ := h.impl_lt hknown
    rw [himpl] at heq
    have := Option.some.inj heq
    omega
  have huid' : s.scheduleDestroy.uid = s.uid + 1 := Nat.mod_eq_of_lt hroom
  have hlist : s.scheduleDestroy.destroyEvents = s.destroyEvents ++ [new] := by
    rw [hnew]
    rfl
  have hlast : ∀ {l : List EventId} {id : EventId}, id ∈ l → id ∈ l ++ [new] := List.mem_append_left _
  have hknown : ∀ {id : EventId}, r.Known id → Record.Known { r with destroys := r.destroys ++ [new] } id :=
    fun hid => hid.imp_right hlast
  refine ⟨⟨hq.sorted, hq.later, hq.known, hq.kept, hq.cancelled_iff, hq.order, ?_, ?_, ?_, hq.unscheduled_eq,
    hq.length_lt⟩, ⟨?_, ?_, ?_, ?_⟩, h.ran, ?_, fun id hid => hknown (h.dropped id hid), ?_⟩
  · intro x hx
    rw [huid']
    change 4 ≤ x.key.uid ∧ x.key.uid < s.uid + 1 ∧ x.impl < s.made + 1
    have := hq.bounds x hx
    omega
  · rw [huid']
    exact hq.currentUid_lt.trans (Nat.lt_succ_self _)
  · rw [huid']
    exact hq.uid_ge.trans (Nat.le_succ _)
  · intro id hid
    rcases List.mem_append.mp hid with hid | hid
    · obtain ⟨huid2, impl, heq, hlt, hother⟩ := hd.bounds id hid
      exact ⟨huid2, impl, heq, hlt.trans (Nat.lt_succ_self _), hother⟩
    · rw [List.mem_singleton.mp hid]
      refine ⟨by rw [hnew], s.made, himpl, Nat.lt_succ_self _, fun ev hev => ?_⟩
      exact (hq.bounds ev hev).2.2.ne
  · refine List.pairwise_append.mpr ⟨hd.distinct, List.pairwise_singleton .., fun a ha b hb heq => ?_⟩
    rw [List.mem_singleton.mp hb, himpl] at heq
    obtain ⟨-, impl, hsome, hlt, -⟩ := hd.bounds a ha
    rw [hsome] at heq
    have := Option.some.inj heq
    omega
  · rw [hlist]
    intro id hid
    rcases List.mem_append.mp hid with hid | hid
    · exact hd.cancelled_iff id hid
    · rw [List.mem_singleton.mp hid]
      refine iff_of_false (fun hcancel => ?_) fun hdrop => hfresh (h.dropped _ hdrop)
      rw [isCancelled, himpl] at hcancel
      exact absurd (h.cancelled_lt _ (of_decide_eq_true hcancel)) (lt_irrefl _)
  · obtain ⟨done, hsub, hdestroyed, hdone, hall⟩ := hd.ran
    rw [hlist]
    refine ⟨done, ?_, hdestroyed, hdone, fun id hid => ?_⟩
    · rw [← List.append_assoc]
      exact hsub.append (List.Sublist.refl _)
    · rw [← List.append_assoc]
      rcases List.mem_append.mp hid with hid | hid
      · exact (hall id hid).imp_left hlast
      · exact Or.inl (List.mem_append_right _ hid)
  · intro id hid
    have hid' : id ∈ s.handed ++ [new] := by
      rw [hnew]
      exact hid
    rcases List.mem_append.mp hid' with hid | hid
    · exact hknown (h.handed id hid)
    · exact Or.inr (List.mem_append_right _ hid)
  · exact fun impl hcancel => (h.cancelled_lt impl hcancel).trans (Nat.lt_succ_self _)

/-! ### Cancelling and removing -/

/-- Dropping twice is dropping once. -/
theorem Sound.drop_again (hid : id ∈ r.dropped) : s.Sound { r with dropped := r.dropped ++ [id] } := by
  have hmem : ∀ {x : EventId}, x ∈ r.dropped ++ [id] ↔ x ∈ r.dropped := by
    intro x
    rw [List.mem_append, List.mem_singleton]
    exact or_iff_left_of_imp fun heq => heq ▸ hid
  refine ⟨{ h.queue with kept := ?_, cancelled_iff := ?_ }, { h.destroy with cancelled_iff := ?_, ran := ?_ }, ?_,
    h.handed, ?_, h.cancelled_lt⟩
  · simpa only [hmem] using h.queue.kept
  · simpa only [hmem] using h.queue.cancelled_iff
  · simpa only [hmem] using h.destroy.cancelled_iff
  · simpa only [hmem] using h.destroy.ran
  · simpa only [RanInOrder, hmem] using h.ran
  · intro x hx
    exact h.dropped x (hmem.mp hx)

theorem Sound.not_mem_done (hid : id ∈ s.destroyEvents) {done : List EventId}
    (hsub : (done ++ s.destroyEvents).Sublist r.destroys) : id ∉ done := by
  intro hdone
  have hdistinct := h.destroy.distinct.sublist hsub
  exact (List.pairwise_append.mp hdistinct).2.2 id hdone id hid rfl

/-- The mark is put on something pending. -/
theorem Sound.cancelImpl (hid : s.Pending id) : (s.cancelImpl id).Sound { r with dropped := r.dropped ++ [id] } := by
  obtain ⟨impl, himpl, hlt⟩ := h.impl_lt (h.known hid)
  have heq : s.cancelImpl id = { s with cancelled := impl :: s.cancelled } := by rw [Simulation.cancelImpl, himpl]
  have hsame : ∀ {x : EventId}, r.Known x → ∀ {i : ℕ}, x.eventImpl = some i →
      (i ∈ impl :: s.cancelled ↔ (i ∈ s.cancelled ∨ x = id)) := by
    intro x hx i hi
    rw [List.mem_cons, or_comm]
    refine or_congr_right ⟨fun hii => h.eq_of_eventImpl_eq hx (h.known hid) ?_, fun hxid => ?_⟩
    · rw [hi, himpl, hii]
    · rw [hxid, himpl] at hi
      exact (Option.some.inj hi).symm
  have hmem : ∀ {x : EventId}, x ∈ r.dropped ++ [id] ↔ x ∈ r.dropped ∨ x = id := by simp
  rw [heq]
  refine ⟨{ h.queue with kept := ?_, cancelled_iff := ?_ }, { h.destroy with cancelled_iff := ?_, ran := ?_ }, ?_,
    h.handed, ?_, ?_⟩
  · intro ev hev hturn hdrop
    exact h.queue.kept ev hev hturn fun hmem' => hdrop (hmem.mpr (Or.inl hmem'))
  · intro ev hev
    rw [hmem, ← h.queue.cancelled_iff ev hev]
    exact hsame (Or.inl (mem_map_id.mpr hev)) rfl
  · intro d hd
    have hknown : r.Known d := h.known (Or.inr hd)
    obtain ⟨i, hi, -⟩ := h.impl_lt hknown
    rw [hmem, ← h.destroy.cancelled_iff d hd, isCancelled, isCancelled, hi]
    change decide _ = true ↔ decide _ = true ∨ _
    rw [decide_eq_true_iff, decide_eq_true_iff]
    exact hsame hknown hi
  · obtain ⟨done, hsub, hdestroyed, hdone, hall⟩ := h.destroy.ran
    refine ⟨done, hsub, hdestroyed, fun d hd hdrop => ?_, fun d hd => ?_⟩
    · rcases hmem.mp hdrop with hdrop | rfl
      · exact hdone d hd hdrop
      · have hdestroys : d ∈ r.destroys := hsub.subset (List.mem_append_left _ hd)
        exact h.not_mem_done ((h.pending_destroy hdestroys).mp hid) hsub hd
    · exact (hall d hd).imp_right fun hdrop => hmem.mpr (Or.inl hdrop)
  · obtain ⟨ran, hsorted, hinvoked, hran⟩ := h.ran
    refine ⟨ran, hsorted, hinvoked, fun ev => ?_⟩
    rw [hran ev, hmem]
    refine and_congr_right fun hev => and_congr_right fun hturn => ?_
    rw [not_or]
    refine ⟨fun hdrop => ⟨hdrop, ?_⟩, And.left⟩
    rintro rfl
    exact absurd hturn (not_le.mpr (h.queue.later ev ((h.pending_event hev).mp hid)))
  · intro x hx
    rcases hmem.mp hx with hx | rfl
    · exact h.dropped x hx
    · exact h.known hid
  · intro i hi
    rcases List.mem_cons.mp hi with rfl | hi
    · exact hlt
    · exact h.cancelled_lt i hi

/-- `Cancel` drops what is pending. -/
theorem Sound.cancel (hid : id ∈ EventId.null :: s.handed) : (s.cancel id).Sound (Record.update s (.cancel id) r) := by
  rw [Simulation.cancel, Record.update]
  rcases List.mem_cons.mp hid with rfl | hid
  · rw [if_pos (isExpired_null s), if_neg h.not_pending_null]
    exact h
  · have hiff := h.isExpired_iff (h.handed id hid)
    by_cases hpending : s.Pending id
    · rw [if_pos hpending]
      split_ifs with hexpired
      · refine h.drop_again (by_contra fun hdrop => ?_)
        rw [hiff.mpr ⟨hpending, hdrop⟩] at hexpired
        exact Bool.noConfusion hexpired
      · exact h.cancelImpl hpending
    · rw [if_neg hpending, if_pos]
      · exact h
      · exact Bool.not_eq_false _ ▸ fun hexpired => hpending (hiff.mp hexpired).1

/-- A dropped event is taken out of the queue. -/
theorem Sound.take (hdrop : ev.id ∈ r.dropped) (hperm : (ev :: events).Perm s.events)
    (hsorted : ListScheduler.Sorted events) :
    Sound { s with events := events, unscheduledEvents := toInt (s.unscheduledEvents - 1) } r := by
  have hmem : ∀ {x : Event}, x ∈ events → x ∈ s.events := fun hx => hperm.mem_iff.mp (List.mem_cons_of_mem _ hx)
  have hlen : s.events.length = events.length + 1 := by rw [← hperm.length_eq, List.length_cons]
  have hq := h.queue
  refine ⟨⟨hsorted, fun x hx => hq.later x (hmem hx), fun x hx => hq.known x (hmem hx), ?_, hq.cancelled_iff,
    hq.order, hq.bounds, hq.currentUid_lt, hq.uid_ge, ?_, ?_⟩, { h.destroy with }, h.ran, h.handed, h.dropped,
    h.cancelled_lt⟩
  · intro x hx hturn hkeep
    refine (List.mem_cons.mp (hperm.mem_iff.mpr (hq.kept x hx hturn hkeep))).resolve_left ?_
    rintro rfl
    exact hkeep hdrop
  · change toInt (s.unscheduledEvents - 1) = events.length
    have := hq.length_lt
    rw [hq.unscheduled_eq, toInt]
    omega
  · have := hq.length_lt
    change events.length < 2 ^ 31
    omega

/-- A destroy event is taken out of the list. -/
theorem Sound.remove_destroy (hid : id ∈ s.destroyEvents) :
    Sound { s with destroyEvents := s.destroyEvents.erase id } { r with dropped := r.dropped ++ [id] } := by
  have hknown : r.Known id := h.known (Or.inr hid)
  have hmem : ∀ {x : EventId}, x ∈ r.dropped ++ [id] ↔ x ∈ r.dropped ∨ x = id := by simp
  have hnodup : s.destroyEvents.Nodup := by
    obtain ⟨done, hsub, -⟩ := h.destroy.ran
    refine (h.destroy.distinct.sublist ((List.sublist_append_right done _).trans hsub)).imp ?_
    rintro a b hne rfl
    exact hne rfl
  have hevent : ∀ ev ∈ r.scheduled, ev.id ∈ r.dropped ++ [id] ↔ ev.id ∈ r.dropped := by
    intro ev hev
    rw [hmem]
    refine or_iff_left fun heq => h.uid_ne_two hev ?_
    rw [heq]
    exact (h.destroy.bounds id (h.destroy.mem_destroys hid)).1
  refine ⟨{ h.queue with kept := ?_, cancelled_iff := ?_ }, { h.destroy with cancelled_iff := ?_, ran := ?_ }, ?_,
    h.handed, ?_, h.cancelled_lt⟩
  · exact fun ev hev hturn hdrop => h.queue.kept ev hev hturn fun hold => hdrop ((hevent ev hev).mpr hold)
  · exact fun ev hev => (h.queue.cancelled_iff ev hev).trans (hevent ev hev).symm
  · intro d hd
    obtain ⟨hne, hd⟩ := hnodup.mem_erase_iff.mp hd
    rw [hmem, or_iff_left hne]
    exact h.destroy.cancelled_iff d hd
  · obtain ⟨done, hsub, hdestroyed, hdone, hall⟩ := h.destroy.ran
    refine ⟨done, ((List.Sublist.refl done).append List.erase_sublist).trans hsub, hdestroyed, fun d hd hdrop => ?_,
      fun d hd => ?_⟩
    · rcases hmem.mp hdrop with hdrop | rfl
      · exact hdone d hd hdrop
      · exact h.not_mem_done hid hsub hd
    · by_cases heq : d = id
      · exact Or.inr (hmem.mpr (Or.inr heq))
      · refine (hall d hd).imp (fun hpart => ?_) fun hdrop => hmem.mpr (Or.inl hdrop)
        rcases List.mem_append.mp hpart with hpart | hpart
        · exact List.mem_append_left _ hpart
        · exact List.mem_append_right _ (hnodup.mem_erase_iff.mpr ⟨heq, hpart⟩)
  · obtain ⟨ran, hsorted, hinvoked, hran⟩ := h.ran
    refine ⟨ran, hsorted, hinvoked, fun ev => ?_⟩
    rw [hran ev]
    exact and_congr_right fun hev => and_congr_right fun _ => not_congr (hevent ev hev).symm
  · intro x hx
    rcases hmem.mp hx with hx | rfl
    · exact h.dropped x hx
    · exact hknown

/-- `Remove` drops what is pending, and takes it out. -/
theorem Sound.remove (hid : id ∈ EventId.null :: s.handed) :
    ∃ s', s.remove id = some s' ∧ s'.currentTs = s.currentTs ∧ s'.Sound (Record.update s (.remove id) r) := by
  rw [Simulation.remove, Record.update]
  rcases List.mem_cons.mp hid with rfl | hid
  · rw [if_neg (show ¬ EventId.null.uid = 2 by decide), if_pos (isExpired_null s), if_neg h.not_pending_null]
    exact ⟨s, rfl, rfl, h⟩
  · rcases h.handed id hid with hevent | hdestroy
    · obtain ⟨ev, hev, rfl⟩ := List.mem_map.mp hevent
      have hiff := h.isExpired_iff (h.handed _ hid)
      rw [if_neg (h.uid_ne_two hev)]
      by_cases hpending : s.Pending ev.id
      · rw [if_pos hpending]
        split_ifs with hexpired
        · refine ⟨s, rfl, rfl, h.drop_again (by_contra fun hdrop => ?_)⟩
          rw [hiff.mpr ⟨hpending, hdrop⟩] at hexpired
          exact Bool.noConfusion hexpired
        · have hmem := (h.pending_event hev).mp hpending
          obtain ⟨x, events', hremove, hperm, hsorted, huid, -⟩ := h.queue.sorted.remove hmem
          have hx : x = ev := by
            have hx := h.queue.known x (hperm.mem_iff.mp List.mem_cons_self)
            exact List.inj_on_of_nodup_map
              (List.pairwise_map.mpr (h.queue.order.imp fun hlt => hlt.1.ne)) hx hev huid
          subst hx
          have hdropped := h.cancelImpl hpending
          refine ⟨_, ?_, ?_, hdropped.take (List.mem_append_right _ (List.mem_singleton_self _)) hperm hsorted⟩
          · change (ListScheduler.remove x s.events >>= _) = _
            rw [hremove]
            rfl
          · rfl
      · have hexpired : s.isExpired ev.id = true := by
          rw [← Bool.not_eq_false]
          exact fun hfalse => hpending (hiff.mp hfalse).1
        rw [if_neg hpending, if_pos hexpired]
        exact ⟨s, rfl, rfl, h⟩
    · rw [if_pos (h.destroy.bounds id hdestroy).1]
      by_cases hpending : s.Pending id
      · rw [if_pos hpending]
        exact ⟨_, rfl, rfl, h.remove_destroy ((h.pending_destroy hdestroy).mp hpending)⟩
      · have hsame : s.destroyEvents.erase id = s.destroyEvents :=
          List.erase_of_not_mem fun hmem => hpending ((h.pending_destroy hdestroy).mpr hmem)
        rw [if_neg hpending, hsame]
        exact ⟨s, rfl, rfl, h⟩

end

/-! ### Running -/

theorem processOneEvent_eq {next : Event} (heq : s.events = next :: events) (hts : s.currentTs ≤ next.key.ts) :
    s.processOneEvent debug = some { s with
      events := events
      unscheduledEvents := toInt (s.unscheduledEvents - 1)
      currentTs := next.key.ts
      currentContext := next.key.context
      currentUid := next.key.uid
      invoked := if next.impl ∈ s.cancelled then s.invoked else s.invoked ++ [(next.impl, next.key.ts)] } := by
  rw [Simulation.processOneEvent, heq]
  exact if_neg (not_and_not_right.mpr fun _ => hts)

/-- The turn of the first event of the queue comes. -/
theorem Sound.processOneEvent (debug : Bool) (h : s.Sound r) (hne : s.events ≠ []) :
    ∃ s', s.processOneEvent debug = some s' ∧ s.currentTs ≤ s'.currentTs ∧ s'.Sound r := by
  obtain ⟨next, events, heq⟩ := List.exists_cons_of_ne_nil hne
  have hq := h.queue
  obtain ⟨hfirst, hsorted⟩ := List.pairwise_cons.mp (heq ▸ hq.sorted)
  have hnext : next ∈ s.events := heq ▸ List.mem_cons_self
  have hmem : ∀ {x : Event}, x ∈ events → x ∈ s.events := fun hx => heq ▸ List.mem_cons_of_mem _ hx
  have hturn : s.now < next.rank := hq.later next hnext
  have hknown := hq.known next hnext
  have hts : s.currentTs ≤ next.key.ts := by
    rw [now, Event.rank, EventKey.rank, rank_lt_iff] at hturn
    omega
  have hlen : s.events.length = events.length + 1 := by rw [heq, List.length_cons]
  refine ⟨_, processOneEvent_eq heq hts, hts, ?_⟩
  · refine ⟨⟨hsorted, hfirst, fun x hx => hq.known x (hmem hx), ?_, hq.cancelled_iff, hq.order, hq.bounds,
      (hq.bounds next hknown).2.1, hq.uid_ge, ?_, ?_⟩, { h.destroy with }, ?_, h.handed, h.dropped, h.cancelled_lt⟩
    · intro x hx hlater hdrop
      have hin := hq.kept x hx (hturn.trans hlater) hdrop
      rw [heq] at hin
      refine (List.mem_cons.mp hin).resolve_left ?_
      rintro rfl
      exact lt_irrefl _ hlater
    · change toInt (s.unscheduledEvents - 1) = events.length
      have := hq.length_lt
      rw [hq.unscheduled_eq, toInt]
      omega
    · have := hq.length_lt
      change events.length < 2 ^ 31
      omega
    · obtain ⟨ran, hranSorted, hinvoked, hran⟩ := h.ran
      -- what came before, and what has just come
      have hcome : ∀ x ∈ r.scheduled, x.id ∉ r.dropped → (x.rank ≤ next.rank ↔ x.rank ≤ s.now ∨ x = next) := by
        intro x hx hdrop
        constructor
        · intro hle
          refine or_iff_not_imp_left.mpr fun hlater => ?_
          have hin := hq.kept x hx (not_le.mp hlater) hdrop
          rw [heq] at hin
          exact (List.mem_cons.mp hin).resolve_right fun hrest => absurd hle (not_le.mpr (hfirst x hrest))
        · rintro (hle | rfl)
          · exact hle.trans hturn.le
          · exact le_rfl
      by_cases hcancel : next.impl ∈ s.cancelled
      · have hdropped : next.id ∈ r.dropped := (hq.cancelled_iff next hknown).mp hcancel
        refine ⟨ran, hranSorted, ?_, fun x => ?_⟩
        · change (if _ then _ else _) = _
          rw [if_pos hcancel]
          exact hinvoked
        · rw [hran x]
          refine and_congr_right fun hx => and_congr_left fun hdrop => ?_
          refine Iff.trans ?_ (hcome x hx hdrop).symm
          refine (or_iff_left ?_).symm
          rintro rfl
          exact hdrop hdropped
      · have hdropped : next.id ∉ r.dropped := fun hdrop => hcancel ((hq.cancelled_iff next hknown).mpr hdrop)
        refine ⟨ran ++ [next], ?_, ?_, fun x => ?_⟩
        · refine List.pairwise_append.mpr ⟨hranSorted, List.pairwise_singleton .., fun x hx y hy => ?_⟩
          rw [List.mem_singleton.mp hy]
          exact ((hran x).mp hx).2.1.trans_lt hturn
        · change (if _ then _ else _) = _
          rw [if_neg hcancel, hinvoked, List.map_append]
          rfl
        · rw [List.mem_append, List.mem_singleton, hran x]
          constructor
          · rintro (⟨hx, hle, hdrop⟩ | rfl)
            · exact ⟨hx, (hcome x hx hdrop).mpr (Or.inl hle), hdrop⟩
            · exact ⟨hknown, le_rfl, hdropped⟩
          · rintro ⟨hx, hle, hdrop⟩
            exact ((hcome x hx hdrop).mp hle).imp_left fun hle => ⟨hx, hle, hdrop⟩

/-- The first destroy event runs. -/
theorem Sound.destroyNext (h : s.Sound r) (hne : s.destroyEvents ≠ []) :
    ∃ s', s.destroyNext = some s' ∧ s'.currentTs = s.currentTs ∧ s'.Sound r := by
  obtain ⟨first, rest, heq⟩ := List.exists_cons_of_ne_nil hne
  have hd := h.destroy
  have hmem : ∀ {x : EventId}, x ∈ rest → x ∈ s.destroyEvents := fun hx => heq ▸ List.mem_cons_of_mem _ hx
  have hfirst : first ∈ s.destroyEvents := heq ▸ List.mem_cons_self
  have hiff := hd.cancelled_iff first hfirst
  obtain ⟨done, hsub, hdestroyed, hdone, hall⟩ := hd.ran
  rw [heq] at hsub hall
  have hkeep : ∀ d ∈ rest, s.isCancelled d = true ↔ d ∈ r.dropped := fun d hdmem => hd.cancelled_iff d (hmem hdmem)
  rw [Simulation.destroyNext, heq]
  by_cases hcancel : s.isCancelled first = true
  · refine ⟨{ s with destroyEvents := rest }, if_pos hcancel, rfl, ?_⟩
    refine ⟨{ h.queue with }, ⟨hd.bounds, hd.distinct, hkeep, done, ?_, hdestroyed, hdone, fun d hdmem => ?_⟩, h.ran,
      h.handed, h.dropped, h.cancelled_lt⟩
    · exact ((List.Sublist.refl done).append (List.sublist_cons_self ..)).trans hsub
    · refine or_iff_not_imp_right.mpr fun hdrop => ?_
      have hin := (hall d hdmem).resolve_right hdrop
      rw [List.mem_append, List.mem_cons] at hin
      rcases hin with hin | rfl | hin
      · exact List.mem_append_left _ hin
      · exact absurd (hiff.mp hcancel) hdrop
      · exact List.mem_append_right _ hin
  · refine ⟨_, if_neg hcancel, rfl, ?_⟩
    refine ⟨{ h.queue with }, ⟨hd.bounds, hd.distinct, hkeep, done ++ [first], ?_, ?_, fun d hdmem => ?_,
      fun d hdmem => ?_⟩, h.ran, h.handed, h.dropped, h.cancelled_lt⟩
    · rw [List.append_assoc]
      exact hsub
    · change s.destroyed ++ _ = _
      rw [hdestroyed, List.filterMap_append]
      cases himpl : first.eventImpl <;> simp [himpl]
    · rcases List.mem_append.mp hdmem with hdmem | hdmem
      · exact hdone d hdmem
      · rw [List.mem_singleton.mp hdmem]
        exact fun hdrop => hcancel (hiff.mpr hdrop)
    · rw [List.append_assoc]
      exact hall d hdmem

/-! ### Runs -/

/-- What the program sees of a simulator that keeps the discipline. -/
structure Disciplined (debug : Bool) (s : Simulation) (r : Record) : Prop where
  /-- The events that ran are those whose turn has come and that had not been dropped, each once and at its time;
  those of the same time ran in the order they were scheduled in. -/
  ran : ∃ ran : List Event, s.invoked = ran.map (fun ev => (ev.impl, ev.key.ts)) ∧
    (∀ ev, ev ∈ ran ↔ ev ∈ r.scheduled ∧ ev ∉ s.events ∧ ev.id ∉ r.dropped) ∧
    ran.Pairwise fun e f => e.key.ts < f.key.ts ∨ e.key.ts = f.key.ts ∧ [e, f].Sublist r.scheduled
  /-- What has not run is not behind the clock. -/
  later : ∀ ev ∈ s.events, s.currentTs ≤ ev.key.ts
  /-- The destroy events that ran are those that are gone and had not been dropped, in the order they were
  scheduled in. -/
  destroyed : ∃ done : List EventId, s.destroyed = done.filterMap EventId.eventImpl ∧
    (∀ id, id ∈ done ↔ id ∈ r.destroys ∧ id ∉ s.destroyEvents ∧ id ∉ r.dropped) ∧ done.Sublist r.destroys
  /-- No two events, destroy events or not, have the same `EventImpl`. -/
  distinct : ∀ a b, r.Known a → r.Known b → a.eventImpl = b.eventImpl → a = b
  /-- `IsExpired` is false exactly while the event is pending and not dropped. -/
  isExpired_iff : ∀ id, r.Known id → (s.isExpired id = false ↔ s.Pending id ∧ id ∉ r.dropped)
  /-- The counter is the number of events in the queue. -/
  unscheduled_eq : s.unscheduledEvents = s.events.length
  /-- As long as there are events, the next one runs. -/
  goesOn : s.events ≠ [] → s.processOneEvent debug ≠ none

theorem sublist_pair_of_pairwise {α : Type*} {R : α → α → Prop} (hR : ∀ a b, R a b → ¬ R b a) {l : List α}
    (h : l.Pairwise R) {a b : α} (ha : a ∈ l) (hb : b ∈ l) (hab : R a b) : [a, b].Sublist l := by
  induction l with
  | nil => exact absurd ha List.not_mem_nil
  | cons x l ih =>
    obtain ⟨hx, hl⟩ := List.pairwise_cons.mp h
    rcases List.mem_cons.mp ha with rfl | ha'
    · rcases List.mem_cons.mp hb with rfl | hb'
      · exact absurd hab (hR _ _ hab)
      · exact (List.singleton_sublist.mpr hb').cons_cons a
    · rcases List.mem_cons.mp hb with rfl | hb'
      · exact absurd hab (hR _ _ (hx a ha'))
      · exact (ih hl ha' hb').cons x

theorem Sound.disciplined (h : s.Sound r) : Disciplined debug s r where
  ran := by
    obtain ⟨ran, hsorted, hinvoked, hran⟩ := h.ran
    refine ⟨ran, hinvoked, fun ev => (hran ev).trans (and_congr_right fun hev => and_congr_left fun hdrop => ?_), ?_⟩
    · constructor
      · exact fun hle hmem => absurd hle (not_le.mpr (h.queue.later ev hmem))
      · exact fun hmem => not_lt.mp fun hlater => hmem (h.queue.kept ev hev hlater hdrop)
    · refine hsorted.imp_of_mem fun {e f} he hf hlt => ?_
      rw [Event.rank, Event.rank, EventKey.rank, EventKey.rank, rank_lt_iff] at hlt
      refine hlt.imp_right fun hboth => ⟨hboth.1, ?_⟩
      have horder : r.scheduled.Pairwise fun e f => e.key.uid < f.key.uid := h.queue.order.imp And.left
      exact sublist_pair_of_pairwise (fun _ _ hlt => hlt.asymm) horder ((hran e).mp he).1 ((hran f).mp hf).1 hboth.2
  later ev hev := by
    have hlater := h.queue.later ev hev
    rw [now, Event.rank, EventKey.rank, rank_lt_iff] at hlater
    omega
  destroyed := by
    obtain ⟨done, hsub, hdestroyed, hdone, hall⟩ := h.destroy.ran
    refine ⟨done, hdestroyed, fun id => ⟨fun hid => ?_, fun hid => ?_⟩, (List.sublist_append_left ..).trans hsub⟩
    · exact ⟨hsub.subset (List.mem_append_left _ hid), fun hmem => h.not_mem_done hmem hsub hid, hdone id hid⟩
    · have hin := (hall id hid.1).resolve_right hid.2.2
      exact (List.mem_append.mp hin).resolve_right hid.2.1
  distinct _ _ ha hb hab := h.eq_of_eventImpl_eq ha hb hab
  isExpired_iff _ hid := h.isExpired_iff hid
  unscheduled_eq := h.queue.unscheduled_eq
  goesOn hne := by
    obtain ⟨s', hs', -⟩ := h.processOneEvent debug hne
    rw [hs']
    exact Option.some_ne_none s'

/-- An event is not scheduled for the past, and uids and the counter have room. -/
def Fits (s : Simulation) : Call → Prop
  | .schedule delay | .scheduleWithContext _ delay =>
    s.currentTs ≤ s.absolute delay ∧ s.uid + 1 < 2 ^ 32 ∧ s.events.length + 1 < 2 ^ 31
  | .scheduleNow => s.uid + 1 < 2 ^ 32 ∧ s.events.length + 1 < 2 ^ 31
  | .scheduleDestroy => s.uid + 1 < 2 ^ 32
  | .remove _ | .cancel _ | .stop | .processOneEvent | .destroyNext => True

instance (s : Simulation) : ∀ call, Decidable (s.Fits call)
  | .schedule _ | .scheduleWithContext _ _ => inferInstanceAs (Decidable (_ ∧ _ ∧ _))
  | .scheduleNow => inferInstanceAs (Decidable (_ ∧ _))
  | .scheduleDestroy => inferInstanceAs (Decidable (_ < _))
  | .remove _ | .cancel _ | .stop | .processOneEvent | .destroyNext => .isTrue trivial

theorem Record.known_new (ev : Event) : Record.Known { r with scheduled := r.scheduled ++ [ev] } ev.id :=
  Or.inl (mem_map_id.mpr (List.mem_append_right _ (List.mem_singleton_self _)))

/-- A call that fits keeps the simulator in line with what was asked for, and the clock does not go back. -/
theorem Sound.exec (h : s.Sound r) {call : Call} (hfits : s.Fits call) (hstep : (machine debug).Step s call s') :
    s.currentTs ≤ s'.currentTs ∧ s'.Sound (Record.update s call r) := by
  obtain ⟨henabled, hexec⟩ := hstep
  cases call with
  | schedule delay =>
    change Simulation.schedule debug s delay = some s' at hexec
    rw [Simulation.schedule] at hexec
    split_ifs at hexec
    cases hexec
    obtain ⟨hts, hroom, hlength⟩ := hfits
    exact ⟨le_rfl, (h.insertEvent rfl rfl hts hroom hlength).hand (Record.known_new _)⟩
  | scheduleWithContext context delay =>
    cases hexec
    obtain ⟨hts, hroom, hlength⟩ := hfits
    exact ⟨le_rfl, h.insertEvent rfl rfl hts hroom hlength⟩
  | scheduleNow =>
    cases hexec
    obtain ⟨hroom, hlength⟩ := hfits
    exact ⟨le_rfl, (h.insertEvent rfl rfl le_rfl hroom hlength).hand (Record.known_new _)⟩
  | scheduleDestroy =>
    cases hexec
    exact ⟨le_rfl, h.scheduleDestroy hfits⟩
  | remove id =>
    obtain ⟨t, ht, hts, hsound⟩ := h.remove henabled
    obtain rfl := Option.some.inj (ht.symm.trans hexec)
    exact ⟨hts.ge, hsound⟩
  | cancel id =>
    cases hexec
    refine ⟨le_of_eq ?_, h.cancel henabled⟩
    rw [Simulation.cancel]
    split_ifs
    · rfl
    · rw [Simulation.cancelImpl]
      cases id.eventImpl <;> rfl
  | stop =>
    cases hexec
    exact ⟨le_rfl, { h.queue with }, { h.destroy with }, h.ran, h.handed, h.dropped, h.cancelled_lt⟩
  | processOneEvent =>
    obtain ⟨t, ht, hts, hsound⟩ := h.processOneEvent debug henabled
    obtain rfl := Option.some.inj (ht.symm.trans hexec)
    exact ⟨hts, hsound⟩
  | destroyNext =>
    obtain ⟨t, ht, hts, hsound⟩ := h.destroyNext henabled
    obtain rfl := Option.some.inj (ht.symm.trans hexec)
    exact ⟨hts.ge, hsound⟩

/-- The clock does not go back in the run, and where the run ends the simulator keeps the discipline. -/
def Discipline (debug : Bool) (tr : List (Simulation × Call)) (s : Simulation) : Prop :=
  Machine.EveryStep (fun s _ s' => s.currentTs ≤ s'.currentTs) tr s ∧
    Disciplined debug s (Machine.history Record.update Record.new tr)

/-- Programs that do not schedule for the past can rely on the discipline of events, however the program was
built. -/
theorem discipline {tr : List (Simulation × Call)} (h : (machine debug).Run new tr s)
    (hfits : Machine.Meets Fits tr) : Discipline debug tr s := by
  induction h with
  | nil => exact ⟨trivial, sound_new.disciplined⟩
  | @snoc tr s s' call hrun hstep ih =>
    obtain ⟨htr, hcall⟩ := Machine.meets_snoc.mp hfits
    have hsound : s.Sound (Machine.history Record.update Record.new tr) :=
      hrun.invariant_history htr sound_new fun _ _ _ _ hI hG hS => (hI.exec hG hS).2
    obtain ⟨hts, hsound'⟩ := hsound.exec hcall hstep
    refine ⟨Machine.everyStep_snoc.mpr ⟨(ih htr).1, hts⟩, ?_⟩
    rw [Machine.history_snoc]
    exact hsound'.disciplined

/-- `discipline` for a program that schedules five events, cancels one and removes another. -/
theorem discipline_five_events : ∃ tr s, (machine true).Run new tr s ∧ Discipline true tr s ∧
    s.invoked = [(0, 5), (2, 5), (4, 7)] ∧ s.destroyed = [3] := by
  obtain ⟨out, -, hrun, hfits, hran⟩ := Machine.exists_replay (M := machine true) new
    [.schedule 5, .schedule 5, .scheduleWithContext 1 5, .scheduleDestroy, .cancel ⟨some 1, 5, 0xffffffff, 5⟩,
      .processOneEvent, .schedule 2, .schedule 1, .remove ⟨some 5, 6, 0xffffffff, 9⟩, .processOneEvent,
      .processOneEvent, .processOneEvent, .destroyNext]
    (P := fun out => Machine.Meets Fits out.1 ∧ out.2.invoked = [(0, 5), (2, 5), (4, 7)] ∧ out.2.destroyed = [3])
    (by decide +kernel)
  exact ⟨out.1, out.2, hrun, discipline hrun hfits, hran⟩

/-- An event that is scheduled for the past by `ScheduleWithContext`, which does not look, sets the clock back, and
where assertions are on the queue has an event that is behind the clock and stops the program. -/
theorem scheduled_for_the_past :
    (∃ tr s, (machine false).Run new tr s ∧ ¬ Discipline false tr s) ∧
      ∃ tr s, (machine true).Run new tr s ∧ ¬ Discipline true tr s := by
  constructor
  · obtain ⟨out, -, hrun, hback⟩ := Machine.exists_replay (M := machine false) new
      [.schedule 5, .processOneEvent, .scheduleWithContext 0 (-1), .processOneEvent]
      (P := fun out => ¬ Machine.EveryStep (fun s _ s' => s.currentTs ≤ s'.currentTs) out.1 out.2) (by decide +kernel)
    exact ⟨out.1, out.2, hrun, fun hdiscipline => hback hdiscipline.1⟩
  · obtain ⟨out, -, hrun, hne, hstops⟩ := Machine.exists_replay (M := machine true) new
      [.schedule 5, .processOneEvent, .scheduleWithContext 0 (-1)]
      (P := fun out => out.2.events ≠ [] ∧ out.2.processOneEvent true = none) (by decide +kernel)
    exact ⟨out.1, out.2, hrun, fun hdiscipline => hdiscipline.2.goesOn hne hstops⟩

end Simulation

end Ns3
