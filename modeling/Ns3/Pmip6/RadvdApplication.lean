import Ns3.Pmip6.Mag

/-!
# The advertisements a gateway has scheduled

`Ns3.Pmip6.UnicastRadvd` is the list of configurations. The application (`pmip6/model/unicast-radvd.cc`)
keeps shared pointers in it, so that two configurations of the same content are two configurations, and
a map with the event of the next advertisement of each, under the identifier of the configuration.
`SetupRadvdInterface` makes a configuration for an entry of the binding update list and keeps the
index of its *interface* in the entry; `ClearRadvdInterface` hands that index to
`RemoveConfiguration`, which compares it with the *identifiers*.

## What is proved

* `radvd_addConfiguration`, `radvd_removeConfiguration` — what the application does to the list is what
  `UnicastRadvd` does.
* `removesOwn_iff` — `RemoveConfiguration` finds the configuration that was just added exactly if it is given
  its identifier and no configuration before it has the same.
* `inverse_iff` — setup and teardown are inverse exactly if the interface of the entry has the number of the new
  identifier and nothing is kept under it; `not_inverse` is the first attachment to the second interface.
-/

namespace Ns3.Pmip6

open BindingUpdateList (Entry)
open Lib

/-- A `Ptr<UnicastRadvdInterface>`: objects are numbered in the order they are made. -/
structure Configuration where
  object : ℕ
  uri : UnicastRadvdInterface
  deriving DecidableEq

/-- An event that calls `Send`. -/
structure Transmit where
  event : ℕ
  /-- The object it sends the advertisement of. -/
  object : ℕ

/-- The application `UnicastRadvd`, with the events it has in the simulator. -/
structure RadvdApplication where
  /-- `m_socket` is there: the application was started. -/
  socket : Bool
  configurations : List Configuration
  eventIds : Store (BitVec 32) ℕ
  /-- The events that are pending, in the order they were scheduled. -/
  pending : List Transmit
  /-- How many objects were made. -/
  objects : ℕ
  /-- How many events were scheduled. -/
  events : ℕ
  /-- The objects of the list were made. -/
  object_lt : ∀ c ∈ configurations, c.object < objects
  /-- The events that are pending were scheduled. -/
  event_lt : ∀ t ∈ pending, t.event < events

namespace RadvdApplication

/-! ### The operations -/

/-- The event is no longer pending. -/
def cancel (event : ℕ) (app : RadvdApplication) : RadvdApplication :=
  { app with
    pending := app.pending.filter (·.event ≠ event)
    event_lt := fun t ht => app.event_lt t (List.mem_filter.mp ht).1 }

/-- Cancels what `m_eventIds` has under an identifier. -/
def cancelId (id : BitVec 32) (app : RadvdApplication) : RadvdApplication :=
  match app.eventIds.lookup id with
  | some event => app.cancel event
  | none => app

/-- `ScheduleTransmit`, with the event of a configuration's identifier as the place for the new one. -/
def scheduleTransmit (config : Configuration) (app : RadvdApplication) : RadvdApplication :=
  { app with
    eventIds := app.eventIds.insert config.uri.id app.events
    pending := app.pending ++ [⟨app.events, config.object⟩]
    events := app.events + 1
    event_lt := by
      intro t ht
      rcases List.mem_append.mp ht with ht | ht
      · exact Nat.lt_succ_of_lt (app.event_lt t ht)
      · rw [List.mem_singleton.mp ht]
        exact Nat.lt_succ_self _ }

/-- The list with an object that is made for it. -/
def pushBack (uri : UnicastRadvdInterface) (app : RadvdApplication) : RadvdApplication :=
  { app with
    configurations := app.configurations ++ [⟨app.objects, uri⟩]
    objects := app.objects + 1
    object_lt := by
      intro c hc
      rcases List.mem_append.mp hc with hc | hc
      · exact Nat.lt_succ_of_lt (app.object_lt c hc)
      · rw [List.mem_singleton.mp hc]
        exact Nat.lt_succ_self _ }

/-- `AddConfiguration` of an object that is made for it. -/
def addConfiguration (uri : UnicastRadvdInterface) (app : RadvdApplication) : RadvdApplication :=
  let config : Configuration := ⟨app.objects, uri⟩
  let app := app.pushBack uri
  if app.socket then (app.cancelId uri.id).scheduleTransmit config else app

/-- `RemoveConfiguration` of an object: `remove` takes out every pointer to it. -/
def removeObject (config : Configuration) (app : RadvdApplication) : RadvdApplication :=
  let app := app.cancelId config.uri.id
  { app with
    configurations := app.configurations.filter (·.object ≠ config.object)
    object_lt := fun c hc => app.object_lt c (List.mem_filter.mp hc).1 }

/-- `RemoveConfiguration` of a number: the first configuration with that identifier. -/
def removeConfiguration (ifIndex : BitVec 32) (app : RadvdApplication) : RadvdApplication :=
  match app.configurations.find? (·.uri.id = ifIndex) with
  | some config => app.removeObject config
  | none => app

/-- `SetupRadvdInterface`, when the next identifier is `idGen`. -/
def setupRadvdInterface (idGen : BitVec 32) (bule : Entry) (app : RadvdApplication) :
    RadvdApplication × Entry :=
  let uri : UnicastRadvdInterface := ⟨idGen, Mag.advertisement bule⟩
  (app.addConfiguration uri, { bule with radvdIfIndex := uri.advertisement.interface })

/-- The mobile node's configuration is removed. -/
def clearRadvdInterface (bule : Entry) (app : RadvdApplication) : RadvdApplication × Entry :=
  (app.removeConfiguration bule.radvdIfIndex, { bule with radvdIfIndex := -1 })

/-! ### The list -/

variable {app : RadvdApplication} {uri : UnicastRadvdInterface} {config : Configuration} {id idGen : BitVec 32}
  {bule : Entry}

/-- The configurations, without the objects. -/
def radvd (app : RadvdApplication) : UnicastRadvd := app.configurations.map (·.uri)

@[simp] theorem configurations_cancelId (id : BitVec 32) (app : RadvdApplication) :
    (app.cancelId id).configurations = app.configurations := by
  unfold cancelId
  cases app.eventIds.lookup id <;> rfl

@[simp] theorem configurations_addConfiguration (uri : UnicastRadvdInterface) (app : RadvdApplication) :
    (app.addConfiguration uri).configurations = app.configurations ++ [⟨app.objects, uri⟩] := by
  unfold addConfiguration
  dsimp only
  split
  · exact configurations_cancelId _ _
  · rfl

theorem configurations_removeObject (config : Configuration) (app : RadvdApplication) :
    (app.removeObject config).configurations = app.configurations.filter (·.object ≠ config.object) := by
  simp [removeObject]

theorem radvd_addConfiguration (uri : UnicastRadvdInterface) (app : RadvdApplication) :
    (app.addConfiguration uri).radvd = app.radvd.addConfiguration uri := by
  simp [radvd, UnicastRadvd.addConfiguration]

/-- Taking out the pointers to the first configuration with an identifier, when each object is in the list once. -/
theorem filter_eq_eraseP {l : List Configuration} (hl : (l.map (·.object)).Nodup)
    (h : l.find? (·.uri.id = id) = some config) :
    l.filter (·.object ≠ config.object) = l.eraseP (·.uri.id = id) := by
  induction l with
  | nil => cases h
  | cons c l ih =>
    obtain ⟨hnot, hnodup⟩ := List.nodup_cons.mp hl
    by_cases hc : c.uri.id = id
    · rw [List.find?_cons_of_pos (by simpa using hc)] at h
      cases h
      rw [List.eraseP_cons_of_pos (by simpa using hc), List.filter_cons_of_neg (by simp)]
      apply List.filter_eq_self.mpr
      intro d hd
      apply decide_eq_true
      intro heq
      exact hnot (List.mem_map.mpr ⟨d, hd, heq⟩)
    · rw [List.find?_cons_of_neg (by simpa using hc)] at h
      have hmem : config ∈ l := List.mem_of_find?_eq_some h
      have hne : c.object ≠ config.object := fun heq => hnot (List.mem_map.mpr ⟨config, hmem, heq.symm⟩)
      rw [List.eraseP_cons_of_neg (by simpa using hc), List.filter_cons_of_pos (by simpa using hne),
        ih hnodup h]

/-- Removing is what `UnicastRadvd` does, when each object is in the list once. -/
theorem radvd_removeConfiguration (hl : (app.configurations.map (·.object)).Nodup) (ifIndex : BitVec 32) :
    (app.removeConfiguration ifIndex).radvd = app.radvd.removeConfiguration ifIndex := by
  unfold removeConfiguration UnicastRadvd.removeConfiguration radvd
  cases h : app.configurations.find? (·.uri.id = ifIndex) with
  | none =>
    rw [List.find?_eq_none] at h
    rw [List.eraseP_of_forall_not]
    intro uri huri
    obtain ⟨c, hc, rfl⟩ := List.mem_map.mp huri
    exact h c hc
  | some config =>
    dsimp only
    rw [configurations_removeObject, filter_eq_eraseP hl h, List.eraseP_map]
    rfl

/-! ### Setup and teardown -/

/-- No configuration of the list has the identifier. -/
def Unused (id : BitVec 32) (app : RadvdApplication) : Prop := ∀ c ∈ app.configurations, c.uri.id ≠ id

/-- The application has no event pending under the identifier. -/
def Idle (id : BitVec 32) (app : RadvdApplication) : Prop :=
  ∀ event, app.eventIds.lookup id = some event → ∀ t ∈ app.pending, t.event ≠ event

/-- The configuration `RemoveConfiguration` finds is the one that was just added. -/
theorem removesOwn_iff (uri : UnicastRadvdInterface) (ifIndex : BitVec 32) (app : RadvdApplication) :
    (app.addConfiguration uri).configurations.find? (·.uri.id = ifIndex) = some ⟨app.objects, uri⟩ ↔
      uri.id = ifIndex ∧ app.Unused ifIndex := by
  rw [configurations_addConfiguration, List.find?_append]
  constructor
  · intro h
    cases hf : app.configurations.find? (·.uri.id = ifIndex) with
    | none =>
      rw [hf, Option.none_or] at h
      refine ⟨by simpa using List.find?_some h, fun c hc heq => ?_⟩
      exact List.find?_eq_none.mp hf c hc (decide_eq_true heq)
    | some c =>
      rw [hf, Option.some_or, Option.some.injEq] at h
      have hlt := app.object_lt c (List.mem_of_find?_eq_some hf)
      rw [h] at hlt
      exact absurd hlt (Nat.lt_irrefl _)
  · rintro ⟨hid, hunused⟩
    have hf : app.configurations.find? (·.uri.id = ifIndex) = none := by
      apply List.find?_eq_none.mpr
      intro c hc
      simpa using hunused c hc
    rw [hf, Option.none_or, List.find?_cons_of_pos (by simpa using hid)]

/-- Setup followed by teardown, for an entry. -/
def setupAndClear (idGen : BitVec 32) (bule : Entry) (app : RadvdApplication) : RadvdApplication :=
  let (app, bule) := app.setupRadvdInterface idGen bule
  (app.clearRadvdInterface bule).1

/-- Setup followed by teardown leaves the list as it was, with the configurations of the other mobile nodes,
and the advertisements pending after it are those that were pending before it. -/
structure Inverse (idGen : BitVec 32) (bule : Entry) (app : RadvdApplication) : Prop where
  configurations : (app.setupAndClear idGen bule).configurations = app.configurations
  /-- So are the advertisements: that of the new configuration, and no other, is cancelled. -/
  pending : (app.setupAndClear idGen bule).pending = app.pending
  /-- No other configuration is removed. -/
  others : ∀ c ∈ app.configurations, c ∈ (app.setupAndClear idGen bule).configurations

/-- What is cancelled under an identifier. -/
theorem pending_cancelId_eq_self_iff : (app.cancelId id).pending = app.pending ↔ app.Idle id := by
  unfold cancelId Idle
  cases h : app.eventIds.lookup id with
  | none => exact iff_of_true rfl fun event he => by cases he
  | some event =>
    show app.pending.filter _ = app.pending ↔ _
    rw [List.filter_eq_self]
    constructor
    · intro hall e he t ht
      cases he
      exact of_decide_eq_true (hall t ht)
    · intro hidle t ht
      exact decide_eq_true (hidle event rfl t ht)

theorem filter_append_objects (app : RadvdApplication) (uri : UnicastRadvdInterface) :
    (app.configurations ++ [(⟨app.objects, uri⟩ : Configuration)]).filter (·.object ≠ app.objects) =
      app.configurations := by
  have hold : app.configurations.filter (·.object ≠ app.objects) = app.configurations := by
    apply List.filter_eq_self.mpr
    intro c hc
    exact decide_eq_true (Nat.ne_of_lt (app.object_lt c hc))
  rw [List.filter_append, hold, List.filter_cons_of_neg (by simp), List.filter_nil, List.append_nil]

/-- What is pending after a new configuration was added and the event under its identifier cancelled. -/
theorem pending_add_cancelId (uri : UnicastRadvdInterface) (app : RadvdApplication) :
    ((app.addConfiguration uri).cancelId uri.id).pending = (app.cancelId uri.id).pending := by
  have hpush : ((app.pushBack uri).cancelId uri.id).pending = (app.cancelId uri.id).pending := by
    unfold cancelId
    show (match app.eventIds.lookup uri.id with
      | some event => (app.pushBack uri).cancel event
      | none => app.pushBack uri).pending = _
    cases app.eventIds.lookup uri.id <;> rfl
  by_cases hsocket : app.socket
  · have hadd : app.addConfiguration uri =
        ((app.pushBack uri).cancelId uri.id).scheduleTransmit ⟨app.objects, uri⟩ := if_pos hsocket
    -- the map has the new event under the identifier, and no older event is that event
    have hlook : (app.addConfiguration uri).eventIds.lookup uri.id =
        some ((app.pushBack uri).cancelId uri.id).events := by
      rw [hadd]
      exact AList.lookup_insert _
    have hold : ((app.pushBack uri).cancelId uri.id).pending.filter
        (·.event ≠ ((app.pushBack uri).cancelId uri.id).events) =
          ((app.pushBack uri).cancelId uri.id).pending := by
      apply List.filter_eq_self.mpr
      intro t ht
      exact decide_eq_true (Nat.ne_of_lt (((app.pushBack uri).cancelId uri.id).event_lt t ht))
    rw [cancelId, hlook]
    show (app.addConfiguration uri).pending.filter _ = _
    rw [hadd, ← hpush]
    show (_ ++ [_]).filter _ = _
    rw [List.filter_append, hold, List.filter_cons_of_neg (by simp), List.filter_nil, List.append_nil]
  · have hadd : app.addConfiguration uri = app.pushBack uri := if_neg hsocket
    rw [hadd]
    exact hpush

/-- Setup and teardown are inverse if and only if the index of the entry's interface is the identifier of the new
configuration, and neither a configuration nor a pending advertisement has that identifier already. -/
theorem inverse_iff (idGen : BitVec 32) (bule : Entry) (app : RadvdApplication) :
    app.Inverse idGen bule ↔
      bule.ifIndex.signExtend 32 = idGen ∧ app.Unused idGen ∧ app.Idle idGen := by
  have hrun : app.setupAndClear idGen bule =
      (app.addConfiguration ⟨idGen, Mag.advertisement bule⟩).removeConfiguration
        (bule.ifIndex.signExtend 32) := rfl
  have hown := app.removesOwn_iff ⟨idGen, Mag.advertisement bule⟩ (bule.ifIndex.signExtend 32)
  constructor
  · intro h
    -- the new object has left the list, so it is the one that was found
    have hfound : (app.addConfiguration ⟨idGen, Mag.advertisement bule⟩).configurations.find?
        (·.uri.id = bule.ifIndex.signExtend 32) = some ⟨app.objects, ⟨idGen, Mag.advertisement bule⟩⟩ := by
      by_contra hne
      have hlast : (⟨app.objects, ⟨idGen, Mag.advertisement bule⟩⟩ : Configuration) ∈
          (app.setupAndClear idGen bule).configurations := by
        rw [hrun, removeConfiguration]
        cases hf : (app.addConfiguration ⟨idGen, Mag.advertisement bule⟩).configurations.find?
            (·.uri.id = bule.ifIndex.signExtend 32) with
        | none => simp
        | some c =>
          show _ ∈ (removeObject c _).configurations
          rw [configurations_removeObject, configurations_addConfiguration, List.mem_filter]
          refine ⟨List.mem_append_right _ (List.mem_singleton_self _), decide_eq_true fun heq => hne ?_⟩
          have hmem := List.mem_of_find?_eq_some hf
          rw [configurations_addConfiguration] at hmem
          rcases List.mem_append.mp hmem with hmem | hmem
          · exact absurd (app.object_lt c hmem) (by rw [← heq]; exact Nat.lt_irrefl _)
          · rw [hf, List.mem_singleton.mp hmem]
      rw [h.configurations] at hlast
      exact Nat.lt_irrefl _ (app.object_lt _ hlast)
    obtain ⟨hid, hunused⟩ := hown.mp hfound
    have hidGen : idGen = bule.ifIndex.signExtend 32 := hid
    refine ⟨hidGen.symm, ?_, ?_⟩
    · rw [hidGen]
      exact hunused
    · have hpending := h.pending
      rw [hrun, removeConfiguration, hfound] at hpending
      refine pending_cancelId_eq_self_iff.mp ?_
      exact (app.pending_add_cancelId ⟨idGen, Mag.advertisement bule⟩).symm.trans hpending
  · rintro ⟨hid, hunused, hidle⟩
    have hfound := hown.mpr ⟨hid.symm, by rw [hid]; exact hunused⟩
    have hconf : (app.setupAndClear idGen bule).configurations = app.configurations := by
      rw [hrun, removeConfiguration, hfound]
      show (removeObject _ _).configurations = _
      rw [configurations_removeObject, configurations_addConfiguration]
      exact app.filter_append_objects _
    refine ⟨hconf, ?_, fun c hc => by rw [hconf]; exact hc⟩
    rw [hrun, removeConfiguration, hfound]
    exact (app.pending_add_cancelId ⟨idGen, Mag.advertisement bule⟩).trans
      (pending_cancelId_eq_self_iff.mpr hidle)

/-- The application of a gateway that has been started, before any mobile node attaches. -/
def started : RadvdApplication :=
  { socket := true
    configurations := []
    eventIds := ∅
    pending := []
    objects := 0
    events := 0
    object_lt := fun _ hc => absurd hc List.not_mem_nil
    event_lt := fun _ ht => absurd ht List.not_mem_nil }

/-- The first configuration has the identifier 1. It is for the second interface, and stays. -/
theorem not_inverse :
    ¬ ∀ (idGen : BitVec 32) (bule : Entry) (app : RadvdApplication), app.Inverse idGen bule := by
  intro h
  have hconf := (h 1 { mnIdentifier := .ofOctet 1, ifIndex := 2 } started).configurations
  exact absurd (congrArg List.length hconf) (by decide +kernel)

end RadvdApplication

end Ns3.Pmip6
