import Mathlib.Data.List.Induction
import Ns3.Pmip6.RadvdApplication

/-!
# The advertisements that are scheduled, over runs

`UnicastRadvd` (`pmip6/model/unicast-radvd.cc`) has one event for each identifier. `Send` asserts that the event of
its configuration is not pending, and schedules the next advertisement in its place.

* `radvd_of_run` — in every run the list is what `UnicastRadvd` makes of the calls.
* `disciplined_iff` — what is pending can be sent, is for a configuration of the list, and for each once, for as long
  as `StartApplication` finds nothing pending and no identifier twice.
-/

namespace Ns3.Pmip6

open Lib

namespace RadvdApplication

variable {app : RadvdApplication} {id : BitVec 32} {t : Transmit}

/-! ### The application -/

/-- `StartApplication`. -/
def startApplication (app : RadvdApplication) : RadvdApplication :=
  app.configurations.foldl (fun app config => app.scheduleTransmit config) { app with socket := true }

/-- `StopApplication`. The socket stays. -/
def stopApplication (app : RadvdApplication) : RadvdApplication :=
  { app.eventIds.keys.foldl (fun app id => app.cancelId id) app with eventIds := ∅ }

instance : Decidable (app.Idle id) :=
  inferInstanceAs (Decidable (∀ event ∈ app.eventIds.lookup id, ∀ t ∈ app.pending, t.event ≠ event))

/-- `Send`, for an event that was taken off the queue. The assertion puts the identifier into the map, which is not
empty then. -/
def send (config : Configuration) (app : RadvdApplication) : Option RadvdApplication :=
  if app.Idle config.uri.id then some (app.scheduleTransmit config) else none

/-- An advertisement is kept: it is for a configuration of the list, whose identifier has its event. -/
def Kept (app : RadvdApplication) (t : Transmit) : Prop :=
  ∃ config ∈ app.configurations, config.object = t.object ∧ app.eventIds.lookup config.uri.id = some t.event

/-! ### What becomes of the events -/

theorem cancelId_eq (id : BitVec 32) (app : RadvdApplication) :
    app.cancelId id =
      { app with
        pending := app.pending.filter fun t => app.eventIds.lookup id ≠ some t.event
        event_lt := fun t ht => app.event_lt t (List.mem_filter.mp ht).1 } := by
  rw [cancelId]
  cases h : app.eventIds.lookup id with
  | none => simp
  | some event => simp [cancel, eq_comm]

@[simp] theorem objects_cancelId (id : BitVec 32) (app : RadvdApplication) :
    (app.cancelId id).objects = app.objects := by rw [cancelId_eq]

@[simp] theorem eventIds_cancelId (id : BitVec 32) (app : RadvdApplication) :
    (app.cancelId id).eventIds = app.eventIds := by rw [cancelId_eq]

theorem pending_cancelId_sublist (id : BitVec 32) (app : RadvdApplication) :
    (app.cancelId id).pending.Sublist app.pending := by
  rw [cancelId_eq]
  exact List.filter_sublist

theorem mem_cancelId : t ∈ (app.cancelId id).pending ↔ t ∈ app.pending ∧ app.eventIds.lookup id ≠ some t.event := by
  rw [cancelId_eq, List.mem_filter, decide_eq_true_eq]

theorem events_scheduleTransmit (h : (app.pending.map (·.event)).Nodup) (config : Configuration) :
    ((app.scheduleTransmit config).pending.map (·.event)).Nodup := by
  rw [scheduleTransmit, List.map_append, List.map_singleton]
  refine List.nodup_append.mpr ⟨h, List.nodup_singleton _, fun a ha b hb => ?_⟩
  obtain ⟨t, ht, rfl⟩ := List.mem_map.mp ha
  rw [List.mem_singleton.mp hb]
  exact Nat.ne_of_lt (app.event_lt t ht)

/-- Scheduling an advertisement keeps the others that are under other identifiers. -/
theorem kept_scheduleTransmit {config : Configuration} (hmem : config ∈ app.configurations)
    (hkept : ∀ t ∈ app.pending, app.Kept t ∧ app.eventIds.lookup config.uri.id ≠ some t.event) :
    ∀ t ∈ (app.scheduleTransmit config).pending, (app.scheduleTransmit config).Kept t := by
  intro t ht
  rcases List.mem_append.mp ht with ht | ht
  · obtain ⟨⟨c, hc, hobject, hlook⟩, hother⟩ := hkept t ht
    refine ⟨c, hc, hobject, ?_⟩
    rw [scheduleTransmit, AList.lookup_insert_ne, hlook]
    intro hid
    rw [hid] at hlook
    exact hother hlook
  · rw [List.mem_singleton.mp ht]
    exact ⟨config, hmem, rfl, AList.lookup_insert _⟩

/-- Configurations are scheduled one after the other. -/
structure Scheduled (configs : List Configuration) (app app' : RadvdApplication) : Prop where
  configurations : app'.configurations = app.configurations
  objects : app'.objects = app.objects
  pending : app'.pending.map (·.object) = app.pending.map (·.object) ++ configs.map (·.object)
  events : (app.pending.map (·.event)).Nodup → (app'.pending.map (·.event)).Nodup
  /-- Under each identifier there is an event that is pending. -/
  latest : ∀ c ∈ configs, ∃ t ∈ app'.pending, app'.eventIds.lookup c.uri.id = some t.event
  kept : app.pending = [] → (configs.map (·.uri.id)).Nodup → ∀ t ∈ app'.pending,
    ∃ c ∈ configs, c.object = t.object ∧ app'.eventIds.lookup c.uri.id = some t.event

theorem scheduled (configs : List Configuration) (app : RadvdApplication) :
    Scheduled configs app (configs.foldl (fun app config => app.scheduleTransmit config) app) := by
  induction configs using List.reverseRecOn with
  | nil =>
    refine ⟨rfl, rfl, by simp, id, fun c hc => absurd hc List.not_mem_nil, fun hnone _ t ht => ?_⟩
    rw [List.foldl_nil, hnone] at ht
    exact absurd ht List.not_mem_nil
  | append_singleton configs config ih =>
    rw [List.foldl_concat]
    generalize configs.foldl (fun app config => app.scheduleTransmit config) app = between at ih
    refine ⟨ih.configurations, ih.objects, ?_, fun h => events_scheduleTransmit (ih.events h) config, ?_, ?_⟩
    · rw [scheduleTransmit, List.map_append, ih.pending, List.map_append, List.append_assoc]
      rfl
    · intro c hc
      by_cases hid : c.uri.id = config.uri.id
      · refine ⟨⟨between.events, config.object⟩, List.mem_append_right _ (List.mem_singleton_self _), ?_⟩
        rw [hid]
        exact AList.lookup_insert _
      · rcases List.mem_append.mp hc with hc | hc
        · obtain ⟨t, ht, hlook⟩ := ih.latest c hc
          exact ⟨t, List.mem_append_left _ ht, (AList.lookup_insert_ne hid).trans hlook⟩
        · exact absurd (by rw [List.mem_singleton.mp hc]) hid
    · intro hnone hids t ht
      rw [List.map_append, List.map_singleton] at hids
      obtain ⟨hids, -, hnew⟩ := List.nodup_append.mp hids
      rcases List.mem_append.mp ht with ht | ht
      · obtain ⟨c, hc, hobject, hlook⟩ := ih.kept hnone hids t ht
        have hid := hnew _ (List.mem_map_of_mem hc) _ (List.mem_singleton_self _)
        exact ⟨c, List.mem_append_left _ hc, hobject, (AList.lookup_insert_ne hid).trans hlook⟩
      · rw [List.mem_singleton.mp ht]
        exact ⟨config, List.mem_append_right _ (List.mem_singleton_self _), rfl, AList.lookup_insert _⟩

/-- `StopApplication` cancels every event that is under an identifier. -/
theorem mem_foldl_cancelId {ids : List (BitVec 32)} :
    t ∈ (ids.foldl (fun app id => app.cancelId id) app).pending ↔
      t ∈ app.pending ∧ ∀ id ∈ ids, app.eventIds.lookup id ≠ some t.event := by
  induction ids generalizing app with
  | nil => simp
  | cons id ids ih =>
    rw [List.foldl_cons, ih, mem_cancelId, List.forall_mem_cons, and_assoc, eventIds_cancelId]

theorem foldl_cancelId (ids : List (BitVec 32)) (app : RadvdApplication) :
    let app' := ids.foldl (fun app id => app.cancelId id) app
    app'.configurations = app.configurations ∧ app'.objects = app.objects ∧ app'.pending.Sublist app.pending := by
  induction ids generalizing app with
  | nil => exact ⟨rfl, rfl, .refl _⟩
  | cons id ids ih =>
    obtain ⟨hconfigs, hobjects, hpending⟩ := ih (app.cancelId id)
    rw [configurations_cancelId] at hconfigs
    rw [objects_cancelId] at hobjects
    exact ⟨hconfigs, hobjects, hpending.trans (pending_cancelId_sublist id app)⟩

end RadvdApplication

/-! ### Runs -/

open RadvdApplication

/-- The application, and what each object holds that was made for it. -/
structure Advertiser where
  app : RadvdApplication
  made : List UnicastRadvdInterface

namespace Advertiser

/-- What happens to the application. -/
inductive Call where
  | startApplication
  | stopApplication
  | addConfiguration (uri : UnicastRadvdInterface)
  | removeConfiguration (ifIndex : BitVec 32)
  /-- An event that is pending calls `Send`. -/
  | send (event : ℕ)

/-- What a call does, if it can. -/
def handle (s : Advertiser) : Call → Option Advertiser
  | .startApplication => some { s with app := s.app.startApplication }
  | .stopApplication => some { s with app := s.app.stopApplication }
  | .addConfiguration uri => some ⟨s.app.addConfiguration uri, s.made ++ [uri]⟩
  | .removeConfiguration ifIndex => some { s with app := s.app.removeConfiguration ifIndex }
  | .send event => do
    let t ← s.app.pending.find? (·.event = event)
    let uri ← s.made[t.object]?
    let app ← (s.app.cancel event).send ⟨t.object, uri⟩
    return { s with app }

/-- Calls, and events that run when they are pending, in any order. -/
def machine : Machine Advertiser Call where
  enabled s
    | .send event => ∃ t ∈ s.app.pending, t.event = event
    | _ => True
  exec := handle

instance (s : Advertiser) (call : Call) : Decidable (machine.enabled s call) :=
  match call with
  | .send _ => inferInstanceAs (Decidable (∃ t ∈ _, _))
  | .startApplication | .stopApplication | .addConfiguration _ | .removeConfiguration _ => isTrue trivial

/-- What is pending can be sent, is for a configuration of the list, and for each once. -/
structure Disciplined (s : Advertiser) : Prop where
  sends : ∀ t ∈ s.app.pending, (s.handle (.send t.event)).isSome
  listed : ∀ t ∈ s.app.pending, ∃ config ∈ s.app.configurations, config.object = t.object
  once : (s.app.pending.map (·.object)).Nodup

/-- The application is started when nothing is pending and no identifier is there twice. -/
def StartsFresh (s : Advertiser) : Call → Prop
  | .startApplication => s.app.pending = [] ∧ (s.app.configurations.map (·.uri.id)).Nodup
  | _ => True

instance (s : Advertiser) (call : Call) : Decidable (s.StartsFresh call) :=
  match call with
  | .startApplication => inferInstanceAs (Decidable (_ ∧ _))
  | .stopApplication | .addConfiguration _ | .removeConfiguration _ | .send _ => isTrue trivial

/-- Objects and events are there once, and the objects are known. -/
structure Sound (s : Advertiser) : Prop where
  length : s.made.length = s.app.objects
  made : ∀ config ∈ s.app.configurations, s.made[config.object]? = some config.uri
  objects : (s.app.configurations.map (·.object)).Nodup
  events : (s.app.pending.map (·.event)).Nodup

/-- What is pending is kept. -/
structure Tracked (s : Advertiser) : Prop extends s.Sound where
  kept : ∀ t ∈ s.app.pending, s.app.Kept t

variable {s s' : Advertiser}

/-- A step leaves configurations, and events of those that were pending. -/
theorem Sound.sublist (h : s.Sound) {app : RadvdApplication} (hobjects : app.objects = s.app.objects)
    (hconfigs : app.configurations.Sublist s.app.configurations) (hpending : app.pending.Sublist s.app.pending) :
    Sound { s with app } :=
  ⟨h.length.trans hobjects.symm, fun config hconfig => h.made config (hconfigs.subset hconfig),
    h.objects.sublist (hconfigs.map _), h.events.sublist (hpending.map _)⟩

theorem Sound.eq_of_event (h : s.Sound) {t t' : Transmit} (ht : t ∈ s.app.pending) (ht' : t' ∈ s.app.pending)
    (hevent : t.event = t'.event) : t = t' :=
  List.inj_on_of_nodup_map h.events ht ht' hevent

/-- What `Send` does with an advertisement that is kept. -/
theorem Tracked.send (h : s.Tracked) {t : Transmit} (ht : t ∈ s.app.pending) :
    ∃ config ∈ s.app.configurations, config.object = t.object ∧
      s.app.eventIds.lookup config.uri.id = some t.event ∧
      s.handle (.send t.event) = some { s with app := (s.app.cancel t.event).scheduleTransmit config } := by
  obtain ⟨config, hmem, hobject, hlook⟩ := h.kept t ht
  have hfind : s.app.pending.find? (·.event = t.event) = some t := by
    cases hf : s.app.pending.find? (·.event = t.event) with
    | none => exact absurd (decide_eq_true rfl) (List.find?_eq_none.mp hf t ht)
    | some t' =>
      have hevent : t'.event = t.event := by simpa using List.find?_some hf
      rw [h.eq_of_event (List.mem_of_find?_eq_some hf) ht hevent]
  have hidle : (s.app.cancel t.event).Idle config.uri.id := by
    intro event hevent t' ht'
    obtain rfl := Option.some.inj (hlook.symm.trans hevent)
    simpa using (List.mem_filter.mp ht').2
  refine ⟨config, hmem, hobject, hlook, ?_⟩
  rw [handle, hfind]
  simp only [Option.bind_eq_bind, Option.bind_some, ← hobject, h.made config hmem]
  rw [RadvdApplication.send, if_pos hidle]
  rfl

theorem Tracked.disciplined (h : s.Tracked) : s.Disciplined := by
  refine ⟨fun t ht => ?_, fun t ht => ?_, ?_⟩
  · obtain ⟨_, -, -, -, hsend⟩ := h.send ht
    rw [hsend]
    rfl
  · obtain ⟨config, hmem, hobject, -⟩ := h.kept t ht
    exact ⟨config, hmem, hobject⟩
  · refine (List.nodup_map_iff_inj_on h.events.of_map).mpr fun t ht t' ht' hsame => ?_
    obtain ⟨config, hmem, hobject, hlook⟩ := h.kept t ht
    obtain ⟨config', hmem', hobject', hlook'⟩ := h.kept t' ht'
    obtain rfl := List.inj_on_of_nodup_map h.objects hmem hmem' (hobject.trans (hsame.trans hobject'.symm))
    exact h.eq_of_event ht ht' (Option.some.inj (hlook.symm.trans hlook'))

/-! ### What a step does -/

theorem exists_of_send {event : ℕ} (hsend : s.handle (.send event) = some s') :
    ∃ t ∈ s.app.pending, t.event = event ∧ ∃ uri, s.made[t.object]? = some uri ∧
      (s.app.cancel event).Idle uri.id ∧
      s' = { s with app := (s.app.cancel event).scheduleTransmit ⟨t.object, uri⟩ } := by
  rw [handle] at hsend
  simp only [Option.bind_eq_bind, Option.bind_eq_some_iff] at hsend
  obtain ⟨t, hfind, uri, huri, app, happ, hs'⟩ := hsend
  rw [RadvdApplication.send] at happ
  split_ifs at happ with hidle
  cases happ
  have hevent : t.event = event := by simpa using List.find?_some hfind
  exact ⟨t, List.mem_of_find?_eq_some hfind, hevent, uri, huri, hidle, (Option.some.inj hs').symm⟩

theorem Sound.add (h : s.Sound) (uri : UnicastRadvdInterface) :
    Sound ⟨s.app.addConfiguration uri, s.made ++ [uri]⟩ := by
  have hobjects : (s.app.addConfiguration uri).objects = s.app.objects + 1 := by
    rw [addConfiguration]
    split_ifs
    · exact objects_cancelId _ _
    · rfl
  refine ⟨?_, fun config hconfig => ?_, ?_, ?_⟩
  · rw [hobjects, List.length_append, h.length]
    rfl
  · rw [configurations_addConfiguration] at hconfig
    rcases List.mem_append.mp hconfig with hconfig | hconfig
    · have hlt := s.app.object_lt config hconfig
      rw [List.getElem?_append_left (h.length ▸ hlt)]
      exact h.made config hconfig
    · rw [List.mem_singleton.mp hconfig, ← h.length, List.getElem?_concat_length]
  · rw [configurations_addConfiguration, List.map_append]
    refine List.nodup_append.mpr ⟨h.objects, List.nodup_singleton _, fun a ha b hb => ?_⟩
    obtain ⟨config, hconfig, rfl⟩ := List.mem_map.mp ha
    rw [List.mem_singleton.mp hb]
    exact Nat.ne_of_lt (s.app.object_lt config hconfig)
  · rw [addConfiguration]
    split_ifs
    · have hpending := pending_cancelId_sublist uri.id (s.app.pushBack uri)
      exact events_scheduleTransmit (h.events.sublist (hpending.map _)) _
    · exact h.events

variable {call : Call}

theorem Sound.step (h : s.Sound) (hstep : machine.Step s call s') : s'.Sound := by
  have hexec : s.handle call = some s' := hstep.2
  cases call with
  | startApplication =>
    cases hexec
    have hall := scheduled s.app.configurations { s.app with socket := true }
    have hconfigs : s.app.startApplication.configurations = s.app.configurations := hall.configurations
    refine ⟨h.length.trans hall.objects.symm, fun config hconfig => h.made config (hconfigs ▸ hconfig), ?_,
      hall.events h.events⟩
    change (s.app.startApplication.configurations.map _).Nodup
    rw [hconfigs]
    exact h.objects
  | stopApplication =>
    cases hexec
    obtain ⟨hconfigs, hobjects, hpending⟩ := foldl_cancelId s.app.eventIds.keys s.app
    exact h.sublist hobjects (hconfigs ▸ .refl _) hpending
  | addConfiguration uri =>
    cases hexec
    exact h.add uri
  | removeConfiguration ifIndex =>
    cases hexec
    rw [removeConfiguration]
    split
    case h_1 config _ =>
      refine h.sublist (objects_cancelId _ _) ?_ (pending_cancelId_sublist config.uri.id s.app)
      rw [configurations_removeObject]
      exact List.filter_sublist
    case h_2 => exact h
  | send event =>
    obtain ⟨t, -, -, uri, -, -, rfl⟩ := exists_of_send hexec
    exact ⟨h.length, h.made, h.objects, events_scheduleTransmit (h.events.sublist (List.filter_sublist.map _)) _⟩

/-- Where what is pending can be sent, the event under an identifier is that of each of its configurations. -/
theorem Sound.event_eq_of_sends (h : s.Sound) (hsends : ∀ t ∈ s.app.pending, (s.handle (.send t.event)).isSome)
    {t latest : Transmit} {config : Configuration} (ht : t ∈ s.app.pending) (hconfig : config ∈ s.app.configurations)
    (hobject : config.object = t.object) (hlatest : latest ∈ s.app.pending)
    (hlook : s.app.eventIds.lookup config.uri.id = some latest.event) : latest.event = t.event := by
  obtain ⟨s', hs'⟩ := Option.isSome_iff_exists.mp (hsends t ht)
  obtain ⟨t', ht', hevent, uri, huri, hidle, -⟩ := exists_of_send hs'
  obtain rfl := h.eq_of_event ht' ht hevent
  obtain rfl := Option.some.inj (((hobject ▸ h.made config hconfig : s.made[t'.object]? = _)).symm.trans huri)
  by_contra hne
  exact hidle _ hlook latest (List.mem_filter.mpr ⟨hlatest, decide_eq_true hne⟩) rfl

/-- A start leaves what can be sent if and only if it is fresh. -/
theorem Tracked.start (h : s.Tracked) {app : RadvdApplication}
    (hall : Scheduled s.app.configurations { s.app with socket := true } app) (hsound : Sound { s with app })
    (hd : Disciplined { s with app }) : s.app.pending = [] ∧ (s.app.configurations.map (·.uri.id)).Nodup := by
  have honce := hd.once
  change (app.pending.map _).Nodup at honce
  rw [hall.pending] at honce
  obtain ⟨-, -, hdisjoint⟩ := List.nodup_append.mp honce
  constructor
  · by_contra hne
    obtain ⟨t, ht⟩ := List.exists_mem_of_ne_nil _ hne
    obtain ⟨config, hmem, hobject, -⟩ := h.kept t ht
    exact hdisjoint _ (List.mem_map_of_mem ht) _ (List.mem_map_of_mem hmem) hobject.symm
  · have hevent : ∀ config ∈ s.app.configurations, ∃ t ∈ app.pending, t.object = config.object ∧
        app.eventIds.lookup config.uri.id = some t.event := by
      intro config hmem
      have hthere : config.object ∈ app.pending.map (·.object) := by
        rw [hall.pending]
        exact List.mem_append_right _ (List.mem_map_of_mem hmem)
      obtain ⟨t, ht, hobject⟩ := List.mem_map.mp hthere
      obtain ⟨latest, hlatest, hlook⟩ := hall.latest config hmem
      have heq := hsound.event_eq_of_sends hd.sends ht (hall.configurations ▸ hmem) hobject.symm hlatest hlook
      exact ⟨t, ht, hobject, heq ▸ hlook⟩
    refine (List.nodup_map_iff_inj_on h.objects.of_map).mpr fun c hc c' hc' hid => ?_
    obtain ⟨t, ht, hobject, hlook⟩ := hevent c hc
    obtain ⟨t', ht', hobject', hlook'⟩ := hevent c' hc'
    rw [hid] at hlook
    have hsame : t = t' := hsound.eq_of_event ht ht' (Option.some.inj (hlook.symm.trans hlook'))
    exact List.inj_on_of_nodup_map h.objects hc hc' (hobject.symm.trans ((congrArg _ hsame).trans hobject'))

/-- Other calls keep what is pending. -/
theorem Tracked.keep (h : s.Tracked) (hexec : s.handle call = some s') (hcall : call ≠ .startApplication) :
    ∀ t ∈ s'.app.pending, s'.app.Kept t := by
  cases call with
  | startApplication => exact absurd rfl hcall
  | stopApplication =>
    cases hexec
    intro t ht
    obtain ⟨hmem, hnone⟩ := mem_foldl_cancelId.mp ht
    obtain ⟨config, -, -, hlook⟩ := h.kept t hmem
    exact absurd hlook (hnone _ (AList.lookup_isSome.mp (by rw [hlook]; rfl)))
  | addConfiguration uri =>
    cases hexec
    change ∀ t ∈ (s.app.addConfiguration uri).pending, (s.app.addConfiguration uri).Kept t
    rw [addConfiguration]
    split_ifs
    · refine kept_scheduleTransmit ?_ fun t ht => ?_
      · rw [configurations_cancelId]
        exact List.mem_append_right _ (List.mem_singleton_self _)
      · obtain ⟨hmem, hother⟩ := mem_cancelId.mp ht
        obtain ⟨config, hconfig, hobject, hlook⟩ := h.kept t hmem
        rw [Kept, configurations_cancelId, eventIds_cancelId]
        exact ⟨⟨config, List.mem_append_left _ hconfig, hobject, hlook⟩, hother⟩
    · intro t ht
      obtain ⟨config, hconfig, hobject, hlook⟩ := h.kept t ht
      exact ⟨config, List.mem_append_left _ hconfig, hobject, hlook⟩
  | removeConfiguration ifIndex =>
    cases hexec
    change ∀ t ∈ (s.app.removeConfiguration ifIndex).pending, (s.app.removeConfiguration ifIndex).Kept t
    rw [removeConfiguration]
    split
    case h_1 config hfind =>
      intro t ht
      obtain ⟨hmem, hother⟩ := mem_cancelId.mp ht
      obtain ⟨c, hc, hobject, hlook⟩ := h.kept t hmem
      refine ⟨c, ?_, hobject, (congrArg _ (eventIds_cancelId _ _)).trans hlook⟩
      rw [configurations_removeObject, List.mem_filter]
      refine ⟨hc, decide_eq_true fun hsame => hother ?_⟩
      rwa [← List.inj_on_of_nodup_map h.objects hc (List.mem_of_find?_eq_some hfind) hsame]
    case h_2 => exact h.kept
  | send event =>
    obtain ⟨t, ht, rfl, -⟩ := exists_of_send hexec
    obtain ⟨config, hconfig, -, hlook, hsend⟩ := h.send ht
    obtain rfl := Option.some.inj (hexec.symm.trans hsend)
    refine kept_scheduleTransmit hconfig fun t' ht' => ?_
    obtain ⟨hmem, hne⟩ := List.mem_filter.mp ht'
    refine ⟨h.kept t' hmem, fun hlook' => ?_⟩
    exact of_decide_eq_true hne (Option.some.inj (hlook'.symm.trans hlook))

theorem Tracked.step (h : s.Tracked) (hstep : machine.Step s call s') :
    (s'.Disciplined ↔ s.StartsFresh call) ∧ (s.StartsFresh call → s'.Tracked) := by
  have hsound := h.toSound.step hstep
  have hexec : s.handle call = some s' := hstep.2
  by_cases hcall : call = .startApplication
  · subst hcall
    cases hexec
    have hall := scheduled s.app.configurations { s.app with socket := true }
    have htracked : s.StartsFresh .startApplication → Tracked { s with app := s.app.startApplication } := by
      rintro ⟨hnone, hids⟩
      refine ⟨hsound, fun t ht => ?_⟩
      obtain ⟨config, hmem, hobject, hlook⟩ := hall.kept hnone hids t ht
      exact ⟨config, hall.configurations.symm ▸ hmem, hobject, hlook⟩
    exact ⟨⟨h.start hall hsound, fun hfresh => (htracked hfresh).disciplined⟩, htracked⟩
  · have htracked : s'.Tracked := ⟨hsound, h.keep hexec hcall⟩
    have hfresh : s.StartsFresh call := by
      cases call with
      | startApplication => exact absurd rfl hcall
      | stopApplication | addConfiguration | removeConfiguration | send => trivial
    exact ⟨iff_of_true htracked.disciplined hfresh, fun _ => htracked⟩

/-! ### Runs -/

/-- The application before anything was called. -/
def start : Advertiser :=
  ⟨⟨false, [], ∅, [], 0, 0, RadvdApplication.started.object_lt, RadvdApplication.started.event_lt⟩, []⟩

theorem tracked_start : start.Tracked :=
  ⟨⟨rfl, nofun, List.nodup_nil, List.nodup_nil⟩, nofun⟩

variable {tr : List (Advertiser × Call)}

/-- In every run, what is pending can be sent, is for a configuration of the list and for each once, if and only if
every start finds nothing pending and no identifier twice. -/
theorem disciplined_iff (hrun : machine.Run start tr s) :
    Machine.EveryState Disciplined tr s ↔ Machine.Meets StartsFresh tr :=
  (hrun.everyState_iff_of_invariant tracked_start (fun _ h => h.disciplined) fun _ _ _ h hstep => h.step hstep).1

/-- What `UnicastRadvd`, as the list alone, makes of a call. -/
def Call.radvd (configurations : UnicastRadvd) : Call → UnicastRadvd
  | .addConfiguration uri => configurations.addConfiguration uri
  | .removeConfiguration ifIndex => configurations.removeConfiguration ifIndex
  | .startApplication | .stopApplication | .send _ => configurations

theorem Sound.radvd (h : s.Sound) (hstep : machine.Step s call s') : s'.app.radvd = call.radvd s.app.radvd := by
  have hexec : s.handle call = some s' := hstep.2
  cases call with
  | startApplication =>
    cases hexec
    exact congrArg (List.map _) (scheduled s.app.configurations { s.app with socket := true }).configurations
  | stopApplication =>
    cases hexec
    exact congrArg (List.map _) (foldl_cancelId s.app.eventIds.keys s.app).1
  | addConfiguration uri =>
    cases hexec
    exact radvd_addConfiguration uri s.app
  | removeConfiguration ifIndex =>
    cases hexec
    exact radvd_removeConfiguration h.objects ifIndex
  | send event =>
    obtain ⟨_, -, -, _, -, -, rfl⟩ := exists_of_send hexec
    rfl

/-- In every run the list of the application is what the list alone makes of the calls. -/
theorem radvd_of_run (hrun : machine.Run start tr s) :
    s.app.radvd = (tr.map Prod.snd).foldl Call.radvd [] := by
  have hall : s.Sound ∧ s.app.radvd = (tr.map Prod.snd).foldl Call.radvd [] := by
    induction hrun with
    | nil => exact ⟨tracked_start.toSound, rfl⟩
    | snoc _ hstep ih =>
      refine ⟨ih.1.step hstep, ?_⟩
      rw [ih.1.radvd hstep, ih.2, List.map_append, List.foldl_append]
      rfl
  exact hall.2

/-- A configuration with an identifier. -/
def configured (id : BitVec 32) : Call := .addConfiguration ⟨id, ⟨1, 10, 5, [], []⟩⟩

/-- Two configurations are started, sent, and one of them is removed; a third has the identifier of the other. -/
def calls : List Call :=
  [configured 1, configured 2, .startApplication, .send 0, .removeConfiguration 1, configured 2, .send 3]

theorem radvd_of_calls : ∃ tr s, machine.Run start tr s ∧ s.app.configurations.length = 2 ∧
    s.app.radvd = (tr.map Prod.snd).foldl Call.radvd [] := by
  obtain ⟨out, -, hrun, hlength⟩ := machine.exists_replay start calls
    (P := fun out => out.2.app.configurations.length = 2) (by decide +kernel)
  exact ⟨out.1, out.2, hrun, hlength, radvd_of_run hrun⟩

theorem disciplined_calls : ∃ tr s, machine.Run start tr s ∧ Machine.EveryState Disciplined tr s := by
  obtain ⟨out, -, hrun, hfresh⟩ := machine.exists_replay start calls
    (P := fun out => Machine.Meets StartsFresh out.1) (by decide +kernel)
  exact ⟨out.1, out.2, hrun, (disciplined_iff hrun).mpr hfresh⟩

end Advertiser

end Ns3.Pmip6
