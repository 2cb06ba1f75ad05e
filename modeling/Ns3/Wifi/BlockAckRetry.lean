import Ns3.Wifi.BlockAckManager

/-!
# The retry list of an originator

* `RetryConsistent` — the iterators in `m_retryPackets` point to stored packets, each to another one.
* `KeepsRetry` — the condition under which a handler of `BlockAckManager` leaves them so: a block ack finds no packet of
  its agreement in the list, and none that has expired is there when `GetNextPacket` cleans up.
* `consistent_iff` — every state of a run is consistent, and packets leave their queue for the right reasons only, if
  and only if all its handlers meet the condition.
-/

namespace Ns3.BlockAckManager

open Lib

/-- The packet is in the queue of an agreement. -/
def Stored (m : BlockAckManager) (i : Item) : Prop := ∃ key x, m.agreements.lookup key = some x ∧ i ∈ x.queue

/-- The iterators in `m_retryPackets` point to stored packets, and no two to the same one. -/
structure RetryConsistent (m : BlockAckManager) : Prop where
  stored : ∀ node ∈ m.retryPackets, ∃ i, m.Stored i ∧ i.node = node
  nodup : m.retryPackets.Nodup

/-- Nothing undefined has happened, and the retry list is consistent. -/
def Consistent : Option BlockAckManager → Prop
  | none => False
  | some m => m.RetryConsistent

/-- A packet may leave its queue: it is acknowledged, has expired, is handed over for a normal ack, or its agreement is
torn down. -/
def Released (m : BlockAckManager) (i : Item) : Event → Prop
  | .notifyGotBlockAck blockAck recipient _ _ =>
    i.key = (recipient, blockAck.tidInfo) ∧
      if blockAck.compressed then blockAck.isPacketReceived i.hdr.sequenceNumber = true
      else blockAck.isFragmentReceived i.hdr.sequenceNumber i.hdr.fragmentNumber = true
  | .getNextPacket now queued =>
    m.expired now i = true ∨
      ∃ hdr m', m.getNextPacket now queued = .ok (some (i, hdr), m') ∧ hdr.qosAckPolicy = .normalAck
  | .tearDownBlockAck recipient tid => i.key = (recipient, tid)
  | _ => False

/-- Packets that leave their queue are released. -/
def LeavesRight (s : Option BlockAckManager) (e : Event) (s' : Option BlockAckManager) : Prop :=
  ∀ m m', s = some m → s' = some m' → ∀ i, m.Stored i → ¬ m'.Stored i → m.Released i e

/-- No packet of the agreement that `CleanupBuffers` finds expired is on the retry list, nor any with its sequence
number. -/
def Clean (m : BlockAckManager) (now : ℕ) (key : AgreementKey) : Prop :=
  ∀ x, m.agreements.lookup key = some x → ∀ i ∈ x.queue.takeWhile (m.expired now), ∀ r, m.Stored r →
    r.node ∈ m.retryPackets → r.key = key → r.hdr.sequenceNumber ≠ i.hdr.sequenceNumber

/-- No packet of an established agreement is on the retry list. -/
def NoneToRetry (m : BlockAckManager) (key : AgreementKey) : Prop :=
  ∀ x, m.agreements.lookup key = some x → x.agreement.state = .established → ∀ i ∈ x.queue, i.node ∉ m.retryPackets

/-- The condition under which a handler keeps the retry list consistent. -/
def KeepsRetry : Option BlockAckManager → Event → Prop
  | some m, .getNextPacket now _ => m.retryPackets ≠ [] → ∀ key, m.Clean now key
  | some m, .notifyGotBlockAck blockAck recipient _ _ =>
    blockAck.multiTid = false → m.NoneToRetry (recipient, blockAck.tidInfo)
  | _, _ => True

/-- What always holds of the queues. -/
structure Ordered (m : BlockAckManager) : Prop where
  /-- An agreement, and the packets of its queue, are kept under its key. -/
  keyed : ∀ key x, m.agreements.lookup key = some x →
    (x.agreement.peer = key.1 ∧ x.agreement.tid = key.2) ∧ ∀ i ∈ x.queue, i.key = key
  unique : ∀ i j, m.Stored i → m.Stored j → i.node = j.node → i = j
  nodup : ∀ key x, m.agreements.lookup key = some x → (x.queue.map Item.node).Nodup
  fresh : ∀ i, m.Stored i → i.node < m.nextNode

/-! ### Queues -/

theorem mem_items {m : BlockAckManager} {i : Item} : i ∈ m.items ↔ m.Stored i := by
  rw [items, List.mem_flatMap, Stored]
  constructor
  · rintro ⟨⟨key, x⟩, hmem, hi⟩
    exact ⟨key, x, AList.mem_lookup_iff.mpr hmem, hi⟩
  · rintro ⟨key, x, hlookup, hi⟩
    exact ⟨⟨key, x⟩, AList.mem_lookup_iff.mp hlookup, hi⟩

section Queues

variable {m : BlockAckManager}

theorem Ordered.lookup (h : Ordered m) {i : Item} (hi : m.Stored i) :
    ∃ x, m.agreements.lookup i.key = some x ∧ i ∈ x.queue := by
  obtain ⟨key, x, hlookup, hmem⟩ := hi
  obtain rfl := (h.keyed key x hlookup).2 i hmem
  exact ⟨x, hlookup, hmem⟩

theorem Ordered.deref (h : Ordered m) {i : Item} (hi : m.Stored i) : m.deref i.node = .ok i := by
  rw [BlockAckManager.deref]
  cases hfind : m.items.find? fun j => j.node = i.node with
  | none => exact absurd (decide_eq_true rfl) (List.find?_eq_none.mp hfind i (mem_items.mpr hi))
  | some j =>
    have hfound := List.find?_some hfind
    have hnode : j.node = i.node := of_decide_eq_true hfound
    rw [h.unique j i (mem_items.mp (List.mem_of_find?_eq_some hfind)) hi hnode]
    rfl

/-- Under consistency all iterators can be followed. -/
theorem Ordered.retryItems (h : Ordered m) (hr : m.RetryConsistent) :
    ∃ retry, m.retryItems = .ok retry ∧ retry.map Item.node = m.retryPackets ∧ ∀ i ∈ retry, m.Stored i := by
  rw [BlockAckManager.retryItems]
  have hstored := hr.stored
  generalize m.retryPackets = nodes at hstored
  induction nodes with
  | nil => exact ⟨[], rfl, rfl, fun i hi => absurd hi List.not_mem_nil⟩
  | cons node nodes ih =>
    obtain ⟨⟨i, hi, rfl⟩, hnodes⟩ := List.forall_mem_cons.mp hstored
    obtain ⟨retry, hretry, hmap, hall⟩ := ih hnodes
    refine ⟨i :: retry, ?_, ?_, List.forall_mem_cons.mpr ⟨hi, hall⟩⟩
    · rw [List.mapM_cons, h.deref hi, hretry]
      rfl
    · rw [List.map_cons, hmap]

theorem lookup_setAgreement (m : BlockAckManager) (key key' : AgreementKey) (y : AgreementQueue) :
    (m.setAgreement key y).agreements.lookup key' = if key' = key then some y else m.agreements.lookup key' := by
  split_ifs with hkey
  · rw [hkey]
    exact AList.lookup_insert _
  · exact AList.lookup_insert_ne hkey

theorem Ordered.stored_setAgreement (h : Ordered m) {key : AgreementKey} {y : AgreementQueue} {i : Item} :
    (m.setAgreement key y).Stored i ↔ i ∈ y.queue ∨ m.Stored i ∧ i.key ≠ key := by
  constructor
  · rintro ⟨key', x, hlookup, hi⟩
    rw [lookup_setAgreement] at hlookup
    split_ifs at hlookup with hkey
    · cases hlookup
      exact .inl hi
    · refine .inr ⟨⟨key', x, hlookup, hi⟩, ?_⟩
      rw [(h.keyed key' x hlookup).2 i hi]
      exact hkey
  · rintro (hi | ⟨hi, hkey⟩)
    · exact ⟨key, y, by rw [lookup_setAgreement, if_pos rfl], hi⟩
    · obtain ⟨x, hlookup, hmem⟩ := h.lookup hi
      exact ⟨i.key, x, by rw [lookup_setAgreement, if_neg hkey, hlookup], hmem⟩

/-- An agreement with packets that were stored under its key before. -/
theorem Ordered.setAgreement (h : Ordered m) {key : AgreementKey} {y : AgreementQueue}
    (hkey : y.agreement.peer = key.1 ∧ y.agreement.tid = key.2) (hsub : ∀ i ∈ y.queue, m.Stored i ∧ i.key = key)
    (hnodup : (y.queue.map Item.node).Nodup) : Ordered (m.setAgreement key y) := by
  have hstored : ∀ i, (m.setAgreement key y).Stored i → m.Stored i := by
    intro i hi
    rcases h.stored_setAgreement.mp hi with hi | ⟨hi, -⟩
    · exact (hsub i hi).1
    · exact hi
  refine ⟨fun key' x hlookup => ?_, fun i j hi hj => h.unique i j (hstored i hi) (hstored j hj),
    fun key' x hlookup => ?_, fun i hi => h.fresh i (hstored i hi)⟩
  · rw [lookup_setAgreement] at hlookup
    split_ifs at hlookup with heq
    · cases hlookup
      rw [heq]
      exact ⟨hkey, fun i hi => (hsub i hi).2⟩
    · exact h.keyed key' x hlookup
  · rw [lookup_setAgreement] at hlookup
    split_ifs at hlookup
    · cases hlookup
      exact hnodup
    · exact h.nodup key' x hlookup

theorem Ordered.setAgreement_sublist (h : Ordered m) {key : AgreementKey} {x y : AgreementQueue}
    (hx : m.agreements.lookup key = some x)
    (hkey : y.agreement.peer = x.agreement.peer ∧ y.agreement.tid = x.agreement.tid)
    (hsub : y.queue.Sublist x.queue) : Ordered (m.setAgreement key y) := by
  obtain ⟨⟨hpeer, htid⟩, hqueue⟩ := h.keyed key x hx
  refine h.setAgreement ⟨hkey.1.trans hpeer, hkey.2.trans htid⟩ (fun i hi => ?_)
    ((h.nodup key x hx).sublist (hsub.map _))
  exact ⟨⟨key, x, hx, hsub.subset hi⟩, hqueue i (hsub.subset hi)⟩

end Queues

/-! ### Handlers that leave the queues as they are -/

/-- The packets and iterators stay. -/
structure Quiet (m m' : BlockAckManager) : Prop where
  ordered : Ordered m'
  stored : ∀ i, m'.Stored i ↔ m.Stored i
  retry : m'.retryPackets = m.retryPackets

theorem Quiet.consistent {m m' : BlockAckManager} (h : Quiet m m') (hr : m.RetryConsistent) : m'.RetryConsistent := by
  refine ⟨fun node hnode => ?_, h.retry ▸ hr.nodup⟩
  obtain ⟨i, hi, hnode⟩ := hr.stored node (h.retry ▸ hnode)
  exact ⟨i, (h.stored i).mpr hi, hnode⟩

theorem Quiet.refl {m : BlockAckManager} (h : Ordered m) : Quiet m m := ⟨h, fun _ => Iff.rfl, rfl⟩

/-- Another agreement with the same queue. -/
theorem Ordered.quiet {m : BlockAckManager} (h : Ordered m) {key : AgreementKey} {x : AgreementQueue}
    {agreement : OriginatorBlockAckAgreement} (hx : m.agreements.lookup key = some x)
    (hkey : agreement.peer = x.agreement.peer ∧ agreement.tid = x.agreement.tid) :
    Quiet m (m.setAgreement key { x with agreement }) := by
  refine ⟨h.setAgreement_sublist hx hkey (List.Sublist.refl _), fun i => ?_, rfl⟩
  rw [h.stored_setAgreement]
  constructor
  · rintro (hi | ⟨hi, -⟩)
    · exact ⟨key, x, hx, hi⟩
    · exact hi
  · intro hi
    by_cases hi' : i.key = key
    · obtain ⟨x', hlookup, hmem⟩ := h.lookup hi
      rw [hi', hx] at hlookup
      exact .inl (Option.some.inj hlookup ▸ hmem)
    · exact .inr ⟨hi, hi'⟩

theorem bind_eq_ok {ε α β : Type} {x : Except ε α} {f : α → Except ε β} {b : β} :
    x >>= f = .ok b ↔ ∃ a, x = .ok a ∧ f a = .ok b := by
  cases x with
  | error => exact iff_of_false nofun nofun
  | ok a => exact ⟨fun h => ⟨a, rfl, h⟩, fun ⟨_, ha, h⟩ => Except.ok.inj ha ▸ h⟩

theorem ok_bind {ε α β : Type} (a : α) (f : α → Except ε β) : Except.ok a >>= f = f a := rfl

section QuietHandlers

variable {m m' : BlockAckManager} {key : AgreementKey}

theorem setState_key (a : OriginatorBlockAckAgreement) (state : OriginatorState) :
    (a.setState state).peer = a.peer ∧ (a.setState state).tid = a.tid := by
  rw [OriginatorBlockAckAgreement.setState]
  split_ifs <;> exact ⟨rfl, rfl⟩

theorem findAgreement_eq_ok {x : AgreementQueue} (hx : m.findAgreement key = .ok x) :
    m.agreements.lookup key = some x := by
  rw [findAgreement] at hx
  split at hx
  · exact absurd hx (by simp [throw, throwThe, MonadExceptOf.throw])
  · rename_i y hlookup
    rw [hlookup, Except.ok.inj hx]

theorem quiet_createAgreement (h : Ordered m) (reqHdr : AddBaHeader) (recipient : Mac48Address) :
    Quiet m (m.createAgreement reqHdr recipient) := by
  rw [createAgreement]
  split_ifs with hsome
  · exact .refl h
  · have hnone : m.agreements.lookup (recipient, reqHdr.tid) = none := Option.not_isSome_iff_eq_none.mp hsome
    refine ⟨h.setAgreement ⟨rfl, rfl⟩ (fun i hi => absurd hi List.not_mem_nil) List.nodup_nil, fun i => ?_, rfl⟩
    rw [h.stored_setAgreement]
    constructor
    · rintro (hi | ⟨hi, -⟩)
      · exact absurd hi List.not_mem_nil
      · exact hi
    · intro hi
      refine .inr ⟨hi, fun hkey => ?_⟩
      obtain ⟨x, hlookup, -⟩ := h.lookup hi
      rw [hkey, hnone] at hlookup
      exact absurd hlookup (by simp)

theorem quiet_updateAgreement (h : Ordered m) (respHdr : AddBaHeader) (recipient : Mac48Address) :
    Quiet m (m.updateAgreement respHdr recipient) := by
  rw [updateAgreement]
  split
  · exact .refl h
  · rename_i x hx
    obtain ⟨hpeer, htid⟩ := setState_key { x.agreement with
      bufferSize := respHdr.bufferSize + 1, timeout := respHdr.timeout, amsduSupported := respHdr.amsduSupported,
      immediate := respHdr.immediate } .established
    exact h.quiet hx ⟨hpeer, htid⟩

theorem quiet_notifyAgreementUnsuccessful (h : Ordered m) (hm : m.notifyAgreementUnsuccessful key = .ok m') :
    Quiet m m' := by
  obtain ⟨x, hx, hm⟩ := bind_eq_ok.mp hm
  obtain rfl := Except.ok.inj hm
  exact h.quiet (findAgreement_eq_ok hx) (setState_key _ _)

theorem quiet_notifyAgreementEstablished (h : Ordered m) {startingSeq : ℕ}
    (hm : m.notifyAgreementEstablished key startingSeq = .ok m') : Quiet m m' := by
  obtain ⟨x, hx, hm⟩ := bind_eq_ok.mp hm
  obtain rfl := Except.ok.inj hm
  exact h.quiet (findAgreement_eq_ok hx) (setState_key x.agreement .established)

theorem quiet_switchToBlockAckIfNeeded (h : Ordered m) {startingSeq queued : ℕ} {switched : Bool}
    (hm : m.switchToBlockAckIfNeeded key startingSeq queued = .ok (switched, m')) : Quiet m m' := by
  rw [switchToBlockAckIfNeeded] at hm
  split at hm
  · exact nomatch hm
  split at hm
  · obtain ⟨m₁, hm₁, hm⟩ := bind_eq_ok.mp hm
    obtain ⟨-, rfl⟩ := Prod.mk.inj (Except.ok.inj hm)
    exact quiet_notifyAgreementEstablished h hm₁
  · obtain ⟨-, rfl⟩ := Prod.mk.inj (Except.ok.inj hm)
    exact .refl h

theorem switchToBlockAckIfNeeded_ne (m : BlockAckManager) (key : AgreementKey) (startingSeq queued : ℕ) :
    m.switchToBlockAckIfNeeded key startingSeq queued ≠ .error .undefined := by
  rw [switchToBlockAckIfNeeded, notifyAgreementEstablished, findAgreement]
  split
  · exact nofun
  split
  · split <;> exact nofun
  · exact nofun

theorem Quiet.withBars (h : Quiet m m') (bars : List Bar) : Quiet m { m' with bars } :=
  ⟨⟨h.ordered.keyed, h.ordered.unique, h.ordered.nodup, h.ordered.fresh⟩, h.stored, h.retry⟩

theorem countRetry_ne (key : AgreementKey) (currentSeq : Option ℕ) (retry : List Item) :
    countRetry key currentSeq retry ≠ .error .undefined := by
  induction retry generalizing currentSeq with
  | nil => exact nofun
  | cons i retry ih =>
    rw [countRetry]
    split_ifs
    · exact ih currentSeq
    · have hrest := ih (some i.hdr.sequenceNumber)
      cases hcount : countRetry key (some i.hdr.sequenceNumber) retry with
      | ok n => exact nofun
      | error f =>
        rw [hcount] at hrest
        exact fun heq => hrest (congrArg Except.error (Except.error.inj heq))
    · exact nofun

theorem getNRetryNeededPackets_ne (h : Ordered m) (hr : m.RetryConsistent) (key : AgreementKey) :
    m.getNRetryNeededPackets key ≠ .error .undefined := by
  obtain ⟨retry, hretry, -⟩ := h.retryItems hr
  rw [getNRetryNeededPackets, hretry]
  split_ifs
  · exact countRetry_ne key none retry
  · exact nofun

theorem getSeqNumOfNextRetryPacket_ne (h : Ordered m) (hr : m.RetryConsistent) (key : AgreementKey) :
    m.getSeqNumOfNextRetryPacket key ≠ .error .undefined := by
  have hstored := hr.stored
  rw [getSeqNumOfNextRetryPacket]
  cases hnodes : m.retryPackets with
  | nil => exact nofun
  | cons node nodes =>
    rw [hnodes] at hstored
    obtain ⟨i, hi, rfl⟩ := hstored node List.mem_cons_self
    dsimp only
    rw [h.deref hi]
    change (if i.key = key then pure i.hdr.sequenceNumber else throw .stopped : Except BlockAckFault ℕ) ≠ _
    split_ifs <;> exact nofun

theorem bind_ne {α β : Type} {x : Except BlockAckFault α} {f : α → Except BlockAckFault β}
    (hx : x ≠ .error .undefined) (hf : ∀ a, f a ≠ .error .undefined) : x >>= f ≠ .error .undefined := by
  cases x with
  | error => exact fun heq => hx (congrArg Except.error (Except.error.inj heq))
  | ok a => exact hf a

theorem findAgreement_ne (m : BlockAckManager) (key : AgreementKey) : m.findAgreement key ≠ .error .undefined := by
  rw [findAgreement]
  split <;> exact nofun

theorem scheduleBlockAckReqIfNeeded_ne (h : Ordered m) (hr : m.RetryConsistent) (key : AgreementKey)
    (agreement : OriginatorBlockAckAgreement) (queued : ℕ) :
    m.scheduleBlockAckReqIfNeeded key agreement queued ≠ .error .undefined := by
  rw [scheduleBlockAckReqIfNeeded]
  refine bind_ne ?_ fun needed => ?_
  · rw [needsBar]
    split_ifs
    · exact nofun
    · exact bind_ne (getNRetryNeededPackets_ne h hr key) fun _ => nofun
  · split_ifs <;> exact nofun

theorem notifyMpduTransmission_ne (h : Ordered m) (hr : m.RetryConsistent) (key : AgreementKey)
    (nextSeqNumber queued : ℕ) : m.notifyMpduTransmission key nextSeqNumber queued ≠ .error .undefined := by
  rw [notifyMpduTransmission]
  refine bind_ne (findAgreement_ne m key) fun x => bind_ne ?_ fun nextSeq => ?_
  · refine bind_ne (getNRetryNeededPackets_ne h hr key) fun nRetry => ?_
    split_ifs
    · exact getSeqNumOfNextRetryPacket_ne h hr key
    · exact nofun
  · exact bind_ne (scheduleBlockAckReqIfNeeded_ne h hr key _ queued) fun _ => nofun

theorem scheduleBlockAckReqIfNeeded_key {agreement agreement' : OriginatorBlockAckAgreement} {queued : ℕ}
    {bar : Option Bar} (hs : m.scheduleBlockAckReqIfNeeded key agreement queued = .ok (bar, agreement')) :
    agreement'.peer = agreement.peer ∧ agreement'.tid = agreement.tid := by
  obtain ⟨needed, -, hs⟩ := bind_eq_ok.mp hs
  split_ifs at hs
  · obtain ⟨-, rfl⟩ := Prod.mk.inj (Except.ok.inj hs)
    exact ⟨rfl, rfl⟩
  · obtain ⟨-, rfl⟩ := Prod.mk.inj (Except.ok.inj hs)
    exact ⟨rfl, rfl⟩

theorem quiet_notifyMpduTransmission (h : Ordered m) {nextSeqNumber queued : ℕ}
    (hm : m.notifyMpduTransmission key nextSeqNumber queued = .ok m') : Quiet m m' := by
  obtain ⟨x, hx, hm⟩ := bind_eq_ok.mp hm
  obtain ⟨nextSeq, -, hm⟩ := bind_eq_ok.mp hm
  obtain ⟨⟨bar, agreement⟩, hschedule, hm⟩ := bind_eq_ok.mp hm
  obtain rfl := Except.ok.inj hm
  obtain ⟨hpeer, htid⟩ := scheduleBlockAckReqIfNeeded_key hschedule
  exact (h.quiet (findAgreement_eq_ok hx) ⟨hpeer, htid⟩).withBars _

end QuietHandlers

/-! ### Handlers that store packets or remove them -/

/-- A handler has kept everything consistent, and has only removed packets that are released. -/
def Kept (m : BlockAckManager) (e : Event) : Except BlockAckFault BlockAckManager → Prop
  | .ok m' => Ordered m' ∧ m'.RetryConsistent ∧ ∀ i, m.Stored i → ¬ m'.Stored i → m.Released i e
  | .error .stopped => True
  | .error .undefined => False

section Handlers

variable {m m' : BlockAckManager}

theorem Quiet.kept (h : Quiet m m') (hr : m.RetryConsistent) (e : Event) : m.Kept e (.ok m') :=
  ⟨h.ordered, h.consistent hr, fun i hi hnot => absurd ((h.stored i).mpr hi) hnot⟩

/-- A handler in which nothing undefined happens, and that leaves the queues as they are. -/
theorem kept_of_quiet {r : Except BlockAckFault BlockAckManager} (hr : m.RetryConsistent) (e : Event)
    (hne : r ≠ .error .undefined) (hquiet : ∀ m', r = .ok m' → Quiet m m') : m.Kept e r := by
  match r with
  | .ok m' => exact (hquiet m' rfl).kept hr e
  | .error .stopped => trivial
  | .error .undefined => exact absurd rfl hne

theorem kept_storePacket (h : Ordered m) (hr : m.RetryConsistent) (packet : List UInt8) (hdr : WifiMacHeader)
    (tStamp : ℕ) : m.Kept (.storePacket packet hdr tStamp) (m.storePacket packet hdr tStamp) := by
  rw [storePacket]
  cases hx : m.findAgreement (⟨m.nextNode, packet, hdr, tStamp⟩ : Item).key with
  | error f =>
    have hne := findAgreement_ne m (⟨m.nextNode, packet, hdr, tStamp⟩ : Item).key
    cases f with
    | stopped => trivial
    | undefined => exact absurd hx hne
  | ok x =>
    generalize hitem : (⟨m.nextNode, packet, hdr, tStamp⟩ : Item) = item at hx
    have hnode : item.node = m.nextNode := hitem ▸ rfl
    have hlookup := findAgreement_eq_ok hx
    obtain ⟨hkey, hqueue⟩ := h.keyed item.key x hlookup
    have hstored : ∀ i, (m.setAgreement item.key { x with queue := x.queue ++ [item] }).Stored i ↔
        m.Stored i ∨ i = item := by
      intro i
      rw [h.stored_setAgreement, List.mem_append, List.mem_singleton]
      constructor
      · rintro ((hi | hi) | ⟨hi, -⟩)
        · exact .inl ⟨item.key, x, hlookup, hi⟩
        · exact .inr hi
        · exact .inl hi
      · rintro (hi | hi)
        · by_cases hi' : i.key = item.key
          · obtain ⟨x', hx', hmem⟩ := h.lookup hi
            rw [hi', hlookup] at hx'
            exact .inl (.inl (Option.some.inj hx' ▸ hmem))
          · exact .inr ⟨hi, hi'⟩
        · exact .inl (.inr hi)
    have hfresh : ∀ i, m.Stored i → i.node ≠ item.node := fun i hi heq =>
      absurd (h.fresh i hi) (by rw [heq, hnode]; exact Nat.lt_irrefl _)
    refine ⟨⟨fun key y hy => ?_, fun i j hi hj hij => ?_, fun key y hy => ?_, fun i hi => ?_⟩,
      ⟨fun node hmem => ?_, hr.nodup⟩, fun i hi hnot => absurd ((hstored i).mpr (.inl hi)) hnot⟩
    · change (m.setAgreement item.key { x with queue := x.queue ++ [item] }).agreements.lookup key = some y at hy
      rw [lookup_setAgreement] at hy
      split_ifs at hy with heq
      · cases hy
        rw [heq]
        refine ⟨hkey, fun i hi => ?_⟩
        rcases List.mem_append.mp hi with hi | hi
        · exact hqueue i hi
        · rw [List.mem_singleton.mp hi]
      · exact h.keyed key y hy
    · rcases (hstored i).mp hi with hold | rfl <;> rcases (hstored j).mp hj with hold' | rfl
      · exact h.unique i j hold hold' hij
      · exact absurd hij (hfresh i hold)
      · exact absurd hij.symm (hfresh j hold')
      · rfl
    · change (m.setAgreement item.key { x with queue := x.queue ++ [item] }).agreements.lookup key = some y at hy
      rw [lookup_setAgreement] at hy
      split_ifs at hy
      · cases hy
        rw [List.map_append, List.map_singleton]
        refine (h.nodup item.key x hlookup).append (List.nodup_singleton _) fun node hmem hnode' => ?_
        obtain ⟨i, hi, rfl⟩ := List.mem_map.mp hmem
        exact hfresh i ⟨item.key, x, hlookup, hi⟩ (List.mem_singleton.mp hnode')
      · exact h.nodup key y hy
    · rcases (hstored i).mp hi with hi | rfl
      · exact Nat.lt_succ_of_lt (h.fresh i hi)
      · exact hnode ▸ Nat.lt_succ_self _
    · obtain ⟨i, hi, hi'⟩ := hr.stored node hmem
      exact ⟨i, (hstored i).mpr (.inl hi), hi'⟩

theorem kept_destroyAgreement (h : Ordered m) (hr : m.RetryConsistent) (recipient : Mac48Address) (tid : ℕ) :
    m.Kept (.tearDownBlockAck recipient tid) (m.destroyAgreement recipient tid) := by
  rw [destroyAgreement]
  split_ifs
  · obtain ⟨retry, hretry, hmap, hall⟩ := h.retryItems hr
    rw [hretry]
    have hlookup : ∀ {key x}, (m.agreements.erase (recipient, tid)).lookup key = some x →
        key ≠ (recipient, tid) ∧ m.agreements.lookup key = some x := Store.lookup_erase_some
    have hkept : ∀ i, m.Stored i → i.key ≠ (recipient, tid) →
        ∃ key x, (m.agreements.erase (recipient, tid)).lookup key = some x ∧ i ∈ x.queue := by
      intro i hi hkey
      obtain ⟨x, hx, hmem⟩ := h.lookup hi
      exact ⟨i.key, x, (AList.lookup_erase_ne hkey).trans hx, hmem⟩
    have hstored : ∀ i, (∃ key x, (m.agreements.erase (recipient, tid)).lookup key = some x ∧ i ∈ x.queue) →
        m.Stored i := by
      rintro i ⟨key, x, hx, hi⟩
      exact ⟨key, x, (hlookup hx).2, hi⟩
    refine ⟨⟨fun key x hx => h.keyed key x (hlookup hx).2,
      fun i j hi hj => h.unique i j (hstored i hi) (hstored j hj), fun key x hx => h.nodup key x (hlookup hx).2,
      fun i hi => h.fresh i (hstored i hi)⟩, ⟨fun node hnode => ?_, ?_⟩, fun i hi hnot => ?_⟩
    · obtain ⟨i, hi, rfl⟩ := List.mem_map.mp hnode
      obtain ⟨hi, hother⟩ := List.mem_filter.mp hi
      refine ⟨i, hkept i (hall i hi) fun hkey => ?_, rfl⟩
      obtain ⟨haddr, htid⟩ := Prod.mk.inj hkey
      exact of_decide_eq_true hother ⟨haddr, htid⟩
    · have hnodup := hr.nodup
      rw [← hmap] at hnodup
      exact hnodup.sublist (List.filter_sublist.map _)
    · by_cases hkey : i.key = (recipient, tid)
      · exact hkey
      · exact absurd (hkept i hi hkey) hnot
  · exact (Quiet.refl h).kept hr _

theorem Ordered.stored_filter (h : Ordered m) {key : AgreementKey} {x y : AgreementQueue} {p : Item → Bool}
    (hx : m.agreements.lookup key = some x) (hy : y.queue = x.queue.filter p) {i : Item} :
    (m.setAgreement key y).Stored i ↔ m.Stored i ∧ (i.key = key → p i = true) := by
  have hmem : i ∈ x.queue ↔ m.Stored i ∧ i.key = key := by
    constructor
    · exact fun hi => ⟨⟨key, x, hx, hi⟩, (h.keyed key x hx).2 i hi⟩
    · rintro ⟨hi, rfl⟩
      obtain ⟨x', hx', hmem⟩ := h.lookup hi
      exact Option.some.inj (hx'.symm.trans hx) ▸ hmem
  rw [h.stored_setAgreement, hy, List.mem_filter, hmem]
  by_cases hkey : i.key = key
  · simp [hkey]
  · simp [hkey]

end Handlers

/-! ### Cleaning up -/

/-- What cleaning up leaves. -/
structure Cleaned (m : BlockAckManager) (now : ℕ) (m' : BlockAckManager) : Prop where
  ordered : Ordered m'
  consistent : m'.RetryConsistent
  retry : m'.retryPackets = m.retryPackets
  maxDelay : m'.maxDelay = m.maxDelay
  subset : ∀ i, m'.Stored i → m.Stored i
  expired : ∀ i, m.Stored i → ¬ m'.Stored i → m.expired now i = true

section Cleaning

variable {m : BlockAckManager} {now : ℕ} {key : AgreementKey}

theorem Cleaned.refl (h : Ordered m) (hr : m.RetryConsistent) : Cleaned m now m :=
  ⟨h, hr, rfl, rfl, fun _ hi => hi, fun _ hi hnot => absurd hi hnot⟩

theorem Cleaned.trans {m' m'' : BlockAckManager} (h : Cleaned m now m') (h' : Cleaned m' now m'') :
    Cleaned m now m'' := by
  refine ⟨h'.ordered, h'.consistent, h'.retry.trans h.retry, h'.maxDelay.trans h.maxDelay,
    fun i hi => h.subset i (h'.subset i hi), fun i hi hnot => ?_⟩
  by_cases hmid : m'.Stored i
  · have hexpired := h'.expired i hmid hnot
    rwa [BlockAckManager.expired, h.maxDelay] at hexpired
  · exact h.expired i hi hmid

/-- An iterator to a packet with the sequence number is on the retry list. -/
def OnRetry (m : BlockAckManager) (key : AgreementKey) (i : Item) : Prop :=
  ∃ r, m.Stored r ∧ r.node ∈ m.retryPackets ∧ r.key = key ∧ r.hdr.sequenceNumber = i.hdr.sequenceNumber

theorem clean_iff : m.Clean now key ↔
    ∀ x, m.agreements.lookup key = some x → ∀ i ∈ x.queue.takeWhile (m.expired now), ¬ m.OnRetry key i := by
  refine forall_congr' fun x => forall_congr' fun _ => forall_congr' fun i => forall_congr' fun _ => ?_
  constructor
  · rintro h ⟨r, hr, hnode, hkey, hseq⟩
    exact h r hr hnode hkey hseq
  · exact fun h r hr hnode hkey hseq => h ⟨r, hr, hnode, hkey, hseq⟩

section

variable (h : Ordered m)
include h

/-- The loop over the retry list erases no iterator if there is none to erase. -/
theorem removeRetry_eq (hr : m.RetryConsistent) {agreement : OriginatorBlockAckAgreement}
    (hkey : agreement.peer = key.1 ∧ agreement.tid = key.2) (i : Item) :
    (m.OnRetry key i → m.removeRetry agreement i = .error .undefined) ∧
      (¬ m.OnRetry key i → m.removeRetry agreement i = .ok ()) := by
  obtain ⟨retry, hretry, hmap, hall⟩ := h.retryItems hr
  have hiff : (retry.any fun r => r.hdr.addr1 = agreement.peer && r.hdr.qosTid = agreement.tid &&
      r.hdr.sequenceNumber = i.hdr.sequenceNumber) = true ↔ m.OnRetry key i := by
    rw [List.any_eq_true]
    constructor
    · rintro ⟨r, hr, hmatch⟩
      simp only [Bool.and_eq_true, decide_eq_true_eq] at hmatch
      obtain ⟨⟨haddr, htid⟩, hseq⟩ := hmatch
      refine ⟨r, hall r hr, hmap ▸ List.mem_map_of_mem hr, ?_, hseq⟩
      exact Prod.ext (haddr.trans hkey.1) (htid.trans hkey.2)
    · rintro ⟨r, hr, hnode, hkey', hseq⟩
      rw [← hmap] at hnode
      obtain ⟨r', hr', hsame⟩ := List.mem_map.mp hnode
      obtain rfl := h.unique r' r (hall r' hr') hr hsame
      refine ⟨r', hr', ?_⟩
      simp only [Bool.and_eq_true, decide_eq_true_eq]
      exact ⟨⟨(congrArg Prod.fst hkey').trans hkey.1.symm, (congrArg Prod.snd hkey').trans hkey.2.symm⟩, hseq⟩
  rw [removeRetry, hretry]
  constructor
  · exact fun honretry => if_pos (hiff.mpr honretry)
  · exact fun hnot => if_neg fun hany => hnot (hiff.mp hany)

theorem forM_removeRetry (hr : m.RetryConsistent) {agreement : OriginatorBlockAckAgreement}
    (hkey : agreement.peer = key.1 ∧ agreement.tid = key.2) (gone : List Item) :
    ((∀ i ∈ gone, ¬ m.OnRetry key i) → gone.forM (m.removeRetry agreement) = .ok ()) ∧
      ((¬ ∀ i ∈ gone, ¬ m.OnRetry key i) → gone.forM (m.removeRetry agreement) = .error .undefined) := by
  induction gone with
  | nil => exact ⟨fun _ => rfl, fun hnot => absurd (fun i hi => absurd hi List.not_mem_nil) hnot⟩
  | cons i gone ih =>
    obtain ⟨hbad, hgood⟩ := removeRetry_eq h hr hkey i
    rw [List.forM_eq_forM, List.forM_cons, List.forall_mem_cons]
    by_cases honretry : m.OnRetry key i
    · refine ⟨fun hall => absurd honretry hall.1, fun _ => ?_⟩
      rw [hbad honretry]
      rfl
    · rw [hgood honretry, and_iff_right honretry]
      exact ih

/-- Expired packets are taken from the front of a queue, if none of them is on the retry list. -/
theorem cleaned_setAgreement (hr : m.RetryConsistent) (hclean : m.Clean now key) {x y : AgreementQueue}
    (hx : m.agreements.lookup key = some x)
    (hkey : y.agreement.peer = x.agreement.peer ∧ y.agreement.tid = x.agreement.tid)
    (hqueue : y.queue = x.queue ∨ y.queue = x.queue.dropWhile (m.expired now)) :
    Cleaned m now (m.setAgreement key y) := by
  have hsub : y.queue.Sublist x.queue := by
    rcases hqueue with hqueue | hqueue
    · exact hqueue ▸ List.Sublist.refl _
    · exact hqueue ▸ List.dropWhile_sublist _
  have hgone : ∀ i, m.Stored i → ¬ (m.setAgreement key y).Stored i →
      i.key = key ∧ i ∈ x.queue.takeWhile (m.expired now) := by
    intro i hi hnot
    rw [h.stored_setAgreement, not_or, not_and_not_right] at hnot
    have hikey := hnot.2 hi
    obtain ⟨x', hx', hmem⟩ := h.lookup hi
    rw [hikey, hx] at hx'
    cases hx'
    refine ⟨hikey, ?_⟩
    rcases hqueue with hqueue | hqueue
    · exact absurd (hqueue ▸ hmem) hnot.1
    · rw [← List.takeWhile_append_dropWhile (p := m.expired now) (l := x.queue)] at hmem
      rcases List.mem_append.mp hmem with hmem | hmem
      · exact hmem
      · exact absurd (hqueue ▸ hmem) hnot.1
  refine ⟨h.setAgreement_sublist hx hkey hsub, ⟨fun node hnode => ?_, hr.nodup⟩, rfl, rfl, fun i hi => ?_,
    fun i hi hnot => List.all_eq_true.mp List.all_takeWhile i (hgone i hi hnot).2⟩
  · obtain ⟨i, hi, rfl⟩ := hr.stored node hnode
    refine ⟨i, Classical.byContradiction fun hnot => ?_, rfl⟩
    obtain ⟨hikey, hmem⟩ := hgone i hi hnot
    exact hclean x hx i hmem i hi hnode hikey rfl
  · rcases h.stored_setAgreement.mp hi with hi | ⟨hi, -⟩
    · exact ⟨key, x, hx, hsub.subset hi⟩
    · exact hi

theorem cleanupAgreement_of_clean (hr : m.RetryConsistent) (hclean : m.Clean now key) :
    ∃ m', m.cleanupAgreement now key = .ok m' ∧ Cleaned m now m' ∧
      ∀ key' ≠ key, m'.agreements.lookup key' = m.agreements.lookup key' := by
  rw [cleanupAgreement]
  cases hx : m.agreements.lookup key with
  | none => exact ⟨m, rfl, .refl h hr, fun _ _ => rfl⟩
  | some x =>
    have hloop := (forM_removeRetry h hr (h.keyed key x hx).1 (x.queue.takeWhile (m.expired now))).1
      (clean_iff.mp hclean x hx)
    have hdrop : (x.queue.takeWhile (m.expired now) ++ x.queue.dropWhile (m.expired now)).drop
        (x.queue.takeWhile (m.expired now)).length = x.queue.dropWhile (m.expired now) := List.drop_left
    rw [List.takeWhile_append_dropWhile] at hdrop
    have hothers : ∀ y key', key' ≠ key → (m.setAgreement key y).agreements.lookup key' = m.agreements.lookup key' :=
      fun y key' hne => (lookup_setAgreement m key key' y).trans (if_neg hne)
    dsimp only
    split
    · exact ⟨m, rfl, .refl h hr, fun _ _ => rfl⟩
    · rw [hloop, hdrop]
      cases hstop : x.queue.dropWhile (m.expired now) with
      | nil => exact ⟨_, rfl, cleaned_setAgreement h hr hclean hx ⟨rfl, rfl⟩ (.inl rfl), hothers _⟩
      | cons stop rest =>
        exact ⟨_, rfl, cleaned_setAgreement h hr hclean hx ⟨rfl, rfl⟩ (.inr hstop.symm), hothers _⟩

theorem cleanupAgreement_of_not_clean (hr : m.RetryConsistent) (hclean : ¬ m.Clean now key) :
    m.cleanupAgreement now key = .error .undefined := by
  rw [clean_iff] at hclean
  rw [cleanupAgreement]
  cases hx : m.agreements.lookup key with
  | none =>
    refine absurd (fun x hx' => ?_) hclean
    rw [hx] at hx'
    exact absurd hx' nofun
  | some x =>
    have hsome : ¬ ∀ i ∈ x.queue.takeWhile (m.expired now), ¬ m.OnRetry key i := fun hall =>
      hclean fun x' hx' => Option.some.inj (hx.symm.trans hx') ▸ hall
    have hloop := (forM_removeRetry h hr (h.keyed key x hx).1 (x.queue.takeWhile (m.expired now))).2 hsome
    dsimp only
    split
    · rename_i hqueue
      rw [hqueue] at hsome
      exact absurd (fun i hi => absurd hi List.not_mem_nil) hsome
    · rw [hloop]
      rfl

theorem Cleaned.clean_iff {m' : BlockAckManager} {key' : AgreementKey} (hc : Cleaned m now m')
    (hlookup : m'.agreements.lookup key' = m.agreements.lookup key') : m'.Clean now key' ↔ m.Clean now key' := by
  have hexpired : m'.expired now = m.expired now := by
    funext i
    rw [BlockAckManager.expired, BlockAckManager.expired, hc.maxDelay]
  rw [Clean, Clean, hlookup, hexpired, hc.retry]
  refine forall_congr' fun x => forall_congr' fun _ => forall_congr' fun i => forall_congr' fun _ =>
    forall_congr' fun r => ⟨fun hall hstored hnode => ?_, fun hall hstored => hall (hc.subset r hstored)⟩
  obtain ⟨r', hr', hsame⟩ := hc.consistent.stored r.node (hc.retry ▸ hnode)
  obtain rfl := h.unique r' r (hc.subset r' hr') hstored hsame
  exact hall hr' hnode

end

theorem foldlM_cleanup {keys : List AgreementKey} (hkeys : keys.Nodup) (h : Ordered m) (hr : m.RetryConsistent) :
    ((∀ key ∈ keys, m.Clean now key) →
      ∃ m', keys.foldlM (fun m key => m.cleanupAgreement now key) m = .ok m' ∧ Cleaned m now m') ∧
    ((¬ ∀ key ∈ keys, m.Clean now key) →
      keys.foldlM (fun m key => m.cleanupAgreement now key) m = .error .undefined) := by
  induction keys generalizing m with
  | nil => exact ⟨fun _ => ⟨m, rfl, .refl h hr⟩, fun hnot => absurd (fun key hkey => absurd hkey List.not_mem_nil) hnot⟩
  | cons key keys ih =>
    obtain ⟨hnotMem, hkeys⟩ := List.nodup_cons.mp hkeys
    rw [List.foldlM_cons, List.forall_mem_cons]
    by_cases hclean : m.Clean now key
    · obtain ⟨m₁, hm₁, hc, hothers⟩ := cleanupAgreement_of_clean h hr hclean
      have hiff : (∀ key' ∈ keys, m₁.Clean now key') ↔ ∀ key' ∈ keys, m.Clean now key' :=
        forall_congr' fun key' => forall_congr' fun hmem =>
          hc.clean_iff h (hothers key' fun heq => hnotMem (heq ▸ hmem))
      obtain ⟨hgood, hbad⟩ := ih hkeys hc.ordered hc.consistent
      rw [hm₁, and_iff_right hclean, ← hiff]
      refine ⟨fun hall => ?_, hbad⟩
      obtain ⟨m', hm', hc'⟩ := hgood hall
      exact ⟨m', hm', hc.trans hc'⟩
    · refine ⟨fun hall => absurd hall.1 hclean, fun _ => ?_⟩
      rw [cleanupAgreement_of_not_clean h hr hclean]
      rfl

theorem cleanupBuffers_of_clean (h : Ordered m) (hr : m.RetryConsistent) (hclean : ∀ key, m.Clean now key) :
    ∃ m', m.cleanupBuffers now = .ok m' ∧ Cleaned m now m' :=
  (foldlM_cleanup m.agreements.keys_nodup h hr).1 fun key _ => hclean key

theorem cleanupBuffers_of_not_clean (h : Ordered m) (hr : m.RetryConsistent) (hclean : ¬ ∀ key, m.Clean now key) :
    m.cleanupBuffers now = .error .undefined := by
  refine (foldlM_cleanup m.agreements.keys_nodup h hr).2 fun hall => hclean fun key x hx => ?_
  exact hall key (AList.mem_keys.mp (AList.lookup_isSome.mp (by rw [hx]; rfl))) x hx

end Cleaning

/-! ### Packets that are sent again -/

section NextPacket

variable {m m' : BlockAckManager} {now queued : ℕ}

theorem quiet_usesBlockAck (h : Ordered m) {i : Item} {blockAck : Bool}
    (hm : m.usesBlockAck i queued = .ok (blockAck, m')) : Quiet m m' := by
  rw [usesBlockAck] at hm
  split_ifs at hm
  · obtain ⟨-, rfl⟩ := Prod.mk.inj (Except.ok.inj hm)
    exact .refl h
  · exact quiet_switchToBlockAckIfNeeded h hm

theorem usesBlockAck_ne (m : BlockAckManager) (i : Item) (queued : ℕ) :
    m.usesBlockAck i queued ≠ .error .undefined := by
  rw [usesBlockAck]
  split_ifs
  · exact nofun
  · exact switchToBlockAckIfNeeded_ne m i.key i.hdr.sequenceNumber queued

/-- The packet that is handed over for a normal ack leaves its queue, and no other. -/
theorem eraseNode_eq (h : Ordered m) (hr : m.RetryConsistent) {i : Item} (hi : m.Stored i)
    (hnode : i.node ∉ m.retryPackets) : ∃ m', m.eraseNode i.key i.node = .ok m' ∧ Ordered m' ∧ m'.RetryConsistent ∧
      ∀ j, m'.Stored j ↔ m.Stored j ∧ j ≠ i := by
  obtain ⟨x, hx, -⟩ := h.lookup hi
  rw [eraseNode, hx]
  have hstored : ∀ j, (m.setAgreement i.key { x with queue := x.queue.filter fun j => j.node ≠ i.node }).Stored j ↔
      m.Stored j ∧ j ≠ i := by
    intro j
    rw [h.stored_filter hx rfl, decide_eq_true_eq]
    refine and_congr_right fun hj => ⟨fun hne heq => hne (heq ▸ rfl) (heq ▸ rfl), fun hne _ heq => ?_⟩
    exact hne (h.unique j i hj hi heq)
  refine ⟨_, rfl, h.setAgreement_sublist hx ⟨rfl, rfl⟩ List.filter_sublist, ⟨fun node hmem => ?_, hr.nodup⟩, hstored⟩
  obtain ⟨j, hj, rfl⟩ := hr.stored node hmem
  exact ⟨j, (hstored j).mpr ⟨hj, fun heq => hnode (heq ▸ hmem)⟩, rfl⟩

theorem kept_getNextPacket (h : Ordered m) (hr : m.RetryConsistent)
    (hclean : m.retryPackets ≠ [] → ∀ key, m.Clean now key) :
    m.Kept (.getNextPacket now queued) (Prod.snd <$> m.getNextPacket now queued) := by
  by_cases hnil : m.retryPackets = []
  · rw [getNextPacket, if_pos hnil]
    exact (Quiet.refl h).kept hr _
  obtain ⟨m₁, hm₁, hc⟩ := cleanupBuffers_of_clean h hr (hclean hnil)
  obtain ⟨node, nodes, hnodes⟩ := List.exists_cons_of_ne_nil (hc.retry ▸ hnil)
  have hconsistent := hc.consistent
  obtain ⟨i, hi, rfl⟩ := hconsistent.stored node (hnodes ▸ List.mem_cons_self)
  obtain ⟨hnotMem, hnodup⟩ := List.nodup_cons.mp (hnodes ▸ hconsistent.nodup)
  have hordered : Ordered { m₁ with retryPackets := nodes } :=
    ⟨hc.ordered.keyed, hc.ordered.unique, hc.ordered.nodup, hc.ordered.fresh⟩
  have hrest : RetryConsistent { m₁ with retryPackets := nodes } :=
    ⟨fun node hnode => hconsistent.stored node (hnodes ▸ List.mem_cons_of_mem _ hnode), hnodup⟩
  have hget : m.getNextPacket now queued = { m₁ with retryPackets := nodes }.handOver i.node i queued := by
    rw [getNextPacket, if_neg hnil, hm₁, ok_bind, hnodes]
    dsimp only
    rw [hc.ordered.deref hi, ok_bind]
  have hne := usesBlockAck_ne { m₁ with retryPackets := nodes } i queued
  rw [handOver] at hget
  cases huses : { m₁ with retryPackets := nodes }.usesBlockAck i queued with
  | error f =>
    rw [huses] at hget hne
    rw [hget]
    cases f with
    | stopped => trivial
    | undefined => exact absurd rfl hne
  | ok x =>
    obtain ⟨blockAck, m₂⟩ := x
    have hquiet := quiet_usesBlockAck hordered huses
    have hback : ∀ j, m₁.Stored j → m₂.Stored j := fun j hj => (hquiet.stored j).mpr hj
    rw [huses, ok_bind] at hget
    cases blockAck with
    | true =>
      rw [hget]
      refine ⟨hquiet.ordered, hquiet.consistent hrest, fun j hj hnot => .inl (hc.expired j hj fun hj' => ?_)⟩
      exact hnot (hback j hj')
    | false =>
      obtain ⟨m₃, hm₃, hordered₃, hconsistent₃, hstored₃⟩ := eraseNode_eq hquiet.ordered (hquiet.consistent hrest)
        (hback i hi) (hquiet.retry ▸ hnotMem)
      dsimp only at hget
      rw [if_neg Bool.false_ne_true, hm₃, ok_bind] at hget
      have hreleased : ∀ j, m.Stored j → ¬ m₃.Stored j → m.Released j (.getNextPacket now queued) := by
        intro j hj hnot
        by_cases hj' : m₁.Stored j
        · have heq : j = i := Decidable.byContradiction fun hne => hnot ((hstored₃ j).mpr ⟨hback j hj', hne⟩)
          exact .inr ⟨_, m₃, heq ▸ hget, rfl⟩
        · exact .inl (hc.expired j hj hj')
      rw [hget]
      exact ⟨hordered₃, hconsistent₃, hreleased⟩

theorem getNextPacket_of_not_clean (h : Ordered m) (hr : m.RetryConsistent) (hnil : m.retryPackets ≠ [])
    (hclean : ¬ ∀ key, m.Clean now key) : m.getNextPacket now queued = .error .undefined := by
  rw [getNextPacket, if_neg hnil, cleanupBuffers_of_not_clean h hr hclean]
  rfl

end NextPacket

/-! ### Block acks -/

section BlockAck

variable {m m' : BlockAckManager} {blockAck : CtrlBAckResponseHeader}

/-- The block ack acknowledges the packet. -/
def Acknowledges (blockAck : CtrlBAckResponseHeader) (i : Item) : Bool :=
  if blockAck.compressed then blockAck.isPacketReceived i.hdr.sequenceNumber
  else blockAck.isFragmentReceived i.hdr.sequenceNumber i.hdr.fragmentNumber

theorem compressedLoop_eq (blockAck : CtrlBAckResponseHeader) (currentSeq : Option ℕ)
    (hseq : ∀ seq ∈ currentSeq, blockAck.isPacketReceived seq = true) (queue : List Item) :
    compressedLoop blockAck currentSeq queue =
      queue.filter fun i => !blockAck.isPacketReceived i.hdr.sequenceNumber := by
  induction queue generalizing currentSeq with
  | nil => rfl
  | cons i queue ih =>
    rw [compressedLoop, List.filter_cons]
    by_cases hcurrent : currentSeq = some i.hdr.sequenceNumber
    · rw [if_pos hcurrent, hseq _ hcurrent, if_neg (by simp), ih currentSeq hseq]
    · rw [if_neg hcurrent]
      by_cases hreceived : blockAck.isPacketReceived i.hdr.sequenceNumber = true
      · rw [if_pos hreceived, hreceived, if_neg (by simp)]
        exact ih _ fun seq hmem => Option.some.inj hmem ▸ hreceived
      · rw [if_neg hreceived, if_pos (by simpa using hreceived), ih none fun seq hmem => absurd hmem nofun]

theorem notReceived_eq (blockAck : CtrlBAckResponseHeader) (queue : List Item) :
    notReceived blockAck queue = queue.filter fun i => !Acknowledges blockAck i := by
  rw [notReceived]
  split_ifs with hcompressed
  · rw [compressedLoop_eq blockAck none (fun seq hmem => absurd hmem nofun)]
    exact List.filter_congr fun i _ => by rw [Acknowledges, if_pos hcompressed]
  · exact List.filter_congr fun i _ => by rw [Acknowledges, if_neg hcompressed]

theorem quiet_setInactive (h : Ordered m) (key : AgreementKey) : Quiet m (m.setInactive key) := by
  rw [setInactive]
  split
  · exact .refl h
  · rename_i x hx
    exact h.quiet hx (setState_key x.agreement .inactive)

theorem Quiet.trans {m'' : BlockAckManager} (h : Quiet m m') (h' : Quiet m' m'') : Quiet m m'' :=
  ⟨h'.ordered, fun i => (h'.stored i).trans (h.stored i), h'.retry.trans h.retry⟩

section After

variable {recipient : Mac48Address} {x : AgreementQueue}

/-- The loops take the acknowledged packets out of their queue. -/
theorem afterBlockAck_eq (blockAck : CtrlBAckResponseHeader) (h : Ordered m) {key : AgreementKey}
    (hx : m.agreements.lookup key = some x) :
    Ordered (m.afterBlockAck key x.agreement (notReceived blockAck x.queue)) ∧
      ∀ i, (m.afterBlockAck key x.agreement (notReceived blockAck x.queue)).Stored i ↔
        m.Stored i ∧ (i.key = key → Acknowledges blockAck i = false) := by
  have hqueue := notReceived_eq blockAck x.queue
  generalize notReceived blockAck x.queue = queue at hqueue
  have hagreement : ∃ agreement : OriginatorBlockAckAgreement,
      (agreement.peer = x.agreement.peer ∧ agreement.tid = x.agreement.tid) ∧
      m.afterBlockAck key x.agreement queue =
        { m.setAgreement key ⟨agreement, queue⟩ with retryPackets := m.retryPackets ++ queue.map Item.node } := by
    cases queue with
    | nil => exact ⟨x.agreement, ⟨rfl, rfl⟩, rfl⟩
    | cons i queue => exact ⟨x.agreement.setStartingSequence i.hdr.sequenceNumber, ⟨rfl, rfl⟩, rfl⟩
  obtain ⟨agreement, hkey, heq⟩ := hagreement
  have hordered : Ordered (m.setAgreement key ⟨agreement, queue⟩) :=
    h.setAgreement_sublist hx hkey (hqueue ▸ List.filter_sublist)
  rw [heq]
  refine ⟨⟨hordered.keyed, hordered.unique, hordered.nodup, hordered.fresh⟩, fun i => ?_⟩
  refine (h.stored_filter hx hqueue).trans ?_
  rw [Bool.not_eq_true']

/-- Behind the loops, the queues and iterators stay. -/
theorem notifyGotBlockAck_eq (h : Ordered m) (newSeq queued : ℕ) (hmulti : blockAck.multiTid = false)
    (hx : m.agreements.lookup (recipient, blockAck.tidInfo) = some x) (hstate : x.agreement.state = .established) :
    m.notifyGotBlockAck blockAck recipient newSeq queued = .error .stopped ∨
      ∃ m', m.notifyGotBlockAck blockAck recipient newSeq queued = .ok m' ∧
        Quiet (m.afterBlockAck (recipient, blockAck.tidInfo) x.agreement (notReceived blockAck x.queue)) m' := by
  have hordered := (afterBlockAck_eq blockAck h hx).1
  rw [notifyGotBlockAck, if_neg (by rw [hmulti]; exact Bool.false_ne_true)]
  dsimp only
  rw [hx]
  dsimp only
  rw [if_neg (not_not.mpr hstate)]
  generalize m.afterBlockAck (recipient, blockAck.tidInfo) x.agreement (notReceived blockAck x.queue) = m₁ at hordered ⊢
  generalize ((notReceived blockAck x.queue).head?.map fun i => i.hdr.sequenceNumber).getD newSeq = startingSeq
  have hne := switchToBlockAckIfNeeded_ne m₁ (recipient, blockAck.tidInfo) startingSeq queued
  cases hswitch : m₁.switchToBlockAckIfNeeded (recipient, blockAck.tidInfo) startingSeq queued with
  | error f =>
    cases f with
    | stopped => exact .inl rfl
    | undefined => exact absurd hswitch hne
  | ok y =>
    obtain ⟨switched, m₂⟩ := y
    have hquiet := quiet_switchToBlockAckIfNeeded hordered hswitch
    rw [ok_bind]
    cases switched with
    | true => exact .inr ⟨m₂, rfl, hquiet⟩
    | false => exact .inr ⟨_, rfl, hquiet.trans (quiet_setInactive hquiet.ordered _)⟩

/-- The retry list stays consistent if none of the packets was on it. -/
theorem retryConsistent_after_iff (blockAck : CtrlBAckResponseHeader) (h : Ordered m) (hr : m.RetryConsistent)
    {key : AgreementKey} (hx : m.agreements.lookup key = some x) (hstate : x.agreement.state = .established) :
    (m.afterBlockAck key x.agreement (notReceived blockAck x.queue)).RetryConsistent ↔ m.NoneToRetry key := by
  obtain ⟨-, hstored⟩ := afterBlockAck_eq blockAck h hx
  have hretry : (m.afterBlockAck key x.agreement (notReceived blockAck x.queue)).retryPackets =
      m.retryPackets ++ (notReceived blockAck x.queue).map Item.node := rfl
  have hkeyed : ∀ i ∈ x.queue, m.Stored i ∧ i.key = key := fun i hi => ⟨⟨key, x, hx, hi⟩, (h.keyed key x hx).2 i hi⟩
  have hmem : ∀ i, i ∈ notReceived blockAck x.queue ↔ i ∈ x.queue ∧ Acknowledges blockAck i = false := by
    intro i
    rw [notReceived_eq, List.mem_filter, Bool.not_eq_true']
  constructor
  · rintro ⟨hall, hnodup⟩ x' hx' - i hi hnode
    obtain rfl := Option.some.inj (hx.symm.trans hx')
    rw [hretry] at hall hnodup
    obtain ⟨j, hj, hsame⟩ := hall i.node (List.mem_append_left _ hnode)
    obtain ⟨hj, hack⟩ := (hstored j).mp hj
    obtain rfl := h.unique j i hj (hkeyed i hi).1 hsame
    have hlost := List.mem_map_of_mem (f := Item.node) ((hmem j).mpr ⟨hi, hack (hkeyed j hi).2⟩)
    exact (List.nodup_append.mp hnodup).2.2 _ hnode _ hlost rfl
  · intro hnone
    have hnot := hnone x hx hstate
    refine ⟨fun node hnode => ?_, ?_⟩
    · rw [hretry] at hnode
      rcases List.mem_append.mp hnode with hnode | hnode
      · obtain ⟨i, hi, rfl⟩ := hr.stored node hnode
        refine ⟨i, (hstored i).mpr ⟨hi, fun hkey => ?_⟩, rfl⟩
        obtain ⟨x', hx', hmem'⟩ := h.lookup hi
        rw [hkey, hx] at hx'
        exact absurd hnode (hnot i (Option.some.inj hx' ▸ hmem'))
      · obtain ⟨i, hi, rfl⟩ := List.mem_map.mp hnode
        obtain ⟨hi, hack⟩ := (hmem i).mp hi
        exact ⟨i, (hstored i).mpr ⟨(hkeyed i hi).1, fun _ => hack⟩, rfl⟩
    · rw [hretry]
      refine List.nodup_append.mpr ⟨hr.nodup, ?_, ?_⟩
      · rw [notReceived_eq]
        exact (h.nodup key x hx).sublist (List.filter_sublist.map _)
      · rintro node hnode node' hnode' rfl
        obtain ⟨i, hi, rfl⟩ := List.mem_map.mp hnode'
        exact hnot i ((hmem i).mp hi).1 hnode

theorem kept_notifyGotBlockAck (h : Ordered m) (hr : m.RetryConsistent) {newSeq queued : ℕ}
    (hnone : blockAck.multiTid = false → m.NoneToRetry (recipient, blockAck.tidInfo)) :
    m.Kept (.notifyGotBlockAck blockAck recipient newSeq queued)
      (m.notifyGotBlockAck blockAck recipient newSeq queued) := by
  by_cases hmulti : blockAck.multiTid = true
  · rw [notifyGotBlockAck, if_pos hmulti]
    trivial
  have hsingle : blockAck.multiTid = false := Bool.not_eq_true _ ▸ hmulti
  cases hx : m.agreements.lookup (recipient, blockAck.tidInfo) with
  | none =>
    rw [notifyGotBlockAck, if_neg hmulti]
    dsimp only
    rw [hx]
    exact (Quiet.refl h).kept hr _
  | some x =>
    by_cases hstate : x.agreement.state = .established
    · obtain ⟨hordered, hstored⟩ := afterBlockAck_eq blockAck h hx
      rcases notifyGotBlockAck_eq h newSeq queued hsingle hx hstate with hm | ⟨m', hm, hquiet⟩
      · rw [hm]
        trivial
      · rw [hm]
        have hafter := (retryConsistent_after_iff blockAck h hr hx hstate).mpr (hnone hsingle)
        refine ⟨hquiet.ordered, hquiet.consistent hafter, fun i hi hnot => ?_⟩
        rw [hquiet.stored, hstored, not_and, Classical.not_imp, Bool.not_eq_false] at hnot
        obtain ⟨hkey, hack⟩ := hnot hi
        refine ⟨hkey, ?_⟩
        rw [Acknowledges] at hack
        split_ifs at hack ⊢ <;> exact hack
    · rw [notifyGotBlockAck, if_neg hmulti]
      dsimp only
      rw [hx]
      dsimp only
      rw [if_pos hstate]
      exact (Quiet.refl h).kept hr _

theorem notifyGotBlockAck_of_not_none (h : Ordered m) (hr : m.RetryConsistent) {newSeq queued : ℕ}
    (hnone : ¬ (blockAck.multiTid = false → m.NoneToRetry (recipient, blockAck.tidInfo)))
    (hm : m.notifyGotBlockAck blockAck recipient newSeq queued = .ok m') : ¬ m'.RetryConsistent := by
  obtain ⟨hsingle, hnone⟩ := Classical.not_imp.mp hnone
  have hsome : ∃ x, m.agreements.lookup (recipient, blockAck.tidInfo) = some x ∧ x.agreement.state = .established := by
    refine Classical.byContradiction fun hnot => hnone fun x hx hstate => absurd ⟨x, hx, hstate⟩ hnot
  obtain ⟨x, hx, hstate⟩ := hsome
  rcases notifyGotBlockAck_eq h newSeq queued hsingle hx hstate with hstop | ⟨m'', hm'', hquiet⟩
  · exact absurd (hstop.symm.trans hm) nofun
  · obtain rfl := Except.ok.inj (hm''.symm.trans hm)
    intro hconsistent
    refine hnone ((retryConsistent_after_iff blockAck h hr hx hstate).mp ⟨fun node hnode => ?_, ?_⟩)
    · obtain ⟨i, hi, hsame⟩ := hconsistent.stored node (hquiet.retry ▸ hnode)
      exact ⟨i, (hquiet.stored i).mp hi, hsame⟩
    · exact hquiet.retry ▸ hconsistent.nodup

end After

end BlockAck

/-! ### Runs -/

/-- Every handler that meets the condition keeps everything consistent. -/
theorem kept_handle {m : BlockAckManager} (h : Ordered m) (hr : m.RetryConsistent) (e : Event)
    (hkeeps : KeepsRetry (some m) e) : m.Kept e (m.handle e) := by
  cases e with
  | createAgreement reqHdr recipient => exact (quiet_createAgreement h reqHdr recipient).kept hr _
  | updateAgreement respHdr recipient => exact (quiet_updateAgreement h respHdr recipient).kept hr _
  | notifyAgreementUnsuccessful key =>
    refine kept_of_quiet hr _ ?_ fun m' hm => quiet_notifyAgreementUnsuccessful h hm
    exact bind_ne (findAgreement_ne m key) fun _ => nofun
  | storePacket packet hdr tStamp => exact kept_storePacket h hr packet hdr tStamp
  | getNextPacket now queued => exact kept_getNextPacket h hr hkeeps
  | hasBar => exact ((Quiet.refl h).withBars _).kept hr _
  | notifyGotBlockAck blockAck recipient newSeq queued => exact kept_notifyGotBlockAck h hr hkeeps
  | notifyMpduTransmission key nextSeqNumber queued =>
    exact kept_of_quiet hr _ (notifyMpduTransmission_ne h hr key nextSeqNumber queued)
      fun m' hm => quiet_notifyMpduTransmission h hm
  | switchToBlockAckIfNeeded key startingSeq queued =>
    refine kept_of_quiet hr _ ?_ fun m' hm => ?_
    · exact bind_ne (switchToBlockAckIfNeeded_ne m key startingSeq queued) fun _ => nofun
    · change (m.switchToBlockAckIfNeeded key startingSeq queued >>= fun x => pure x.2) = .ok m' at hm
      obtain ⟨⟨switched, m''⟩, hswitch, heq⟩ := bind_eq_ok.mp hm
      obtain rfl := Except.ok.inj heq
      exact quiet_switchToBlockAckIfNeeded h hswitch
  | tearDownBlockAck recipient tid => exact kept_destroyAgreement h hr recipient tid

/-- A handler that does not meet it does not. -/
theorem keepsRetry_of_consistent {m m' : BlockAckManager} (h : Ordered m) (hr : m.RetryConsistent) (e : Event)
    (hm : m.handle e = .ok m') (hr' : m'.RetryConsistent) : KeepsRetry (some m) e := by
  cases e with
  | getNextPacket now queued =>
    intro hnil
    refine Classical.byContradiction fun hclean => ?_
    rw [handle, getNextPacket_of_not_clean h hr hnil hclean] at hm
    exact absurd hm nofun
  | notifyGotBlockAck blockAck recipient newSeq queued =>
    exact Classical.byContradiction fun hnone => notifyGotBlockAck_of_not_none h hr hnone hm hr'
  | createAgreement | updateAgreement | notifyAgreementUnsuccessful | storePacket | hasBar | notifyMpduTransmission
  | switchToBlockAckIfNeeded | tearDownBlockAck => trivial

/-- The invariant of a run. -/
def Sound (s : Option BlockAckManager) : Prop := ∃ m, s = some m ∧ Ordered m ∧ m.RetryConsistent

theorem step_iff {s s' : Option BlockAckManager} {e : Event} (h : Sound s) (hstep : machine.Step s e s') :
    (Consistent s' ↔ KeepsRetry s e) ∧ (KeepsRetry s e → Sound s' ∧ LeavesRight s e s') := by
  obtain ⟨m, rfl, hordered, hr⟩ := h
  have hexec : machine.exec (some m) e = some s' := hstep.2
  have hkept := kept_handle hordered hr e
  have hback : ∀ m', m.handle e = .ok m' → m'.RetryConsistent → KeepsRetry (some m) e :=
    fun m' hm hr' => keepsRetry_of_consistent hordered hr e hm hr'
  cases hm : m.handle e with
  | ok m' =>
    simp only [machine, Option.bind_some, hm] at hexec
    rw [hm] at hkept
    cases hexec
    refine ⟨⟨hback m' hm, fun hkeeps => (hkept hkeeps).2.1⟩, fun hkeeps => ?_⟩
    obtain ⟨hordered', hr', hleaves⟩ := hkept hkeeps
    refine ⟨⟨m', rfl, hordered', hr'⟩, fun m₁ m₁' heq heq' i hi hnot => ?_⟩
    cases heq
    cases heq'
    exact hleaves i hi hnot
  | error f =>
    rw [hm] at hkept
    cases f with
    | stopped =>
      simp only [machine, Option.bind_some, hm] at hexec
      cases hexec
    | undefined =>
      simp only [machine, Option.bind_some, hm] at hexec
      cases hexec
      exact ⟨iff_of_false id fun hkeeps => hkept hkeeps, fun hkeeps => (hkept hkeeps).elim⟩

theorem sound_new (blockAckThreshold : ℕ) (blockAckType : BlockAckType) (maxDelay : ℕ) :
    Sound (some (new blockAckThreshold blockAckType maxDelay)) := by
  have hnone : ∀ i, ¬ (new blockAckThreshold blockAckType maxDelay).Stored i := by
    rintro i ⟨key, x, hx, -⟩
    exact absurd hx nofun
  exact ⟨_, rfl, ⟨fun key x hx => absurd hx nofun, fun i j hi => absurd hi (hnone i), fun key x hx => absurd hx nofun,
    fun i hi => absurd hi (hnone i)⟩, ⟨fun node hnode => absurd hnode List.not_mem_nil, List.nodup_nil⟩⟩

/-- Every state of a run of the manager is consistent, and packets leave their queue when they are released only, if and
only if no block ack finds a packet of its agreement on the retry list, and no cleaning up an expired one. -/
theorem consistent_iff {blockAckThreshold maxDelay : ℕ} {blockAckType : BlockAckType} {s : Option BlockAckManager}
    {tr : List (Option BlockAckManager × Event)}
    (hrun : machine.Run (some (new blockAckThreshold blockAckType maxDelay)) tr s) :
    Machine.EveryState Consistent tr s ∧ Machine.EveryStep LeavesRight tr s ↔ Machine.Meets KeepsRetry tr := by
  have hsound := sound_new blockAckThreshold blockAckType maxDelay
  have hconsistent : ∀ s, Sound s → Consistent s := by
    rintro _ ⟨m, rfl, -, hr⟩
    exact hr
  obtain ⟨hiff, -⟩ := hrun.everyState_iff_of_invariant hsound hconsistent fun s e s' hs hstep =>
    ⟨(step_iff hs hstep).1, fun hkeeps => ((step_iff hs hstep).2 hkeeps).1⟩
  refine ⟨fun h => hiff.mp h.1, fun hmeets => ⟨hiff.mpr hmeets, ?_⟩⟩
  refine hrun.everyStep_of_meets hmeets hsound fun s e s' hs hkeeps hstep => ?_
  exact (step_iff hs hstep).2 hkeeps

/-- A recipient. -/
def Small.recipient : Mac48Address := .ofOctet 1

/-- An agreement is made, and its one packet is lost. -/
def Small.lostEvents : List Event :=
  [.createAgreement ⟨5, 0, 0, 0, false, true⟩ recipient, .updateAgreement ⟨5, 0, 63, 0, false, true⟩ recipient,
    .storePacket [7] ⟨recipient, 5, 3, 0, false, .blockAck⟩ 0, .notifyGotBlockAck (.new 5 0) recipient 4 1]

theorem keepsRetry_of_nil {m : BlockAckManager} (h : m.retryPackets = []) (e : Event) : KeepsRetry (some m) e := by
  cases e with
  | getNextPacket now queued => exact fun hnil => absurd h hnil
  | notifyGotBlockAck blockAck recipient newSeq queued => exact fun _ x _ _ i _ => h ▸ List.not_mem_nil
  | createAgreement | updateAgreement | notifyAgreementUnsuccessful | storePacket | hasBar | notifyMpduTransmission
  | switchToBlockAckIfNeeded | tearDownBlockAck => trivial

/-- The packet is on the retry list then. -/
theorem consistent_of_lost : ∃ out, machine.replay (some (new 1 .basicBlockAck 500)) Small.lostEvents = some out ∧
    (out.2.any fun m => m.retryPackets = [0]) = true ∧
      (Machine.EveryState Consistent out.1 out.2 ∧ Machine.EveryStep LeavesRight out.1 out.2) := by
  obtain ⟨out, hout, hrun, hnil, hretry⟩ := Machine.exists_replay (M := machine) (some (new 1 .basicBlockAck 500))
    Small.lostEvents (P := fun out => (∀ x ∈ out.1, (x.1.any fun m => m.retryPackets = []) = true) ∧
      (out.2.any fun m => m.retryPackets = [0]) = true) (by decide)
  refine ⟨out, hout, hretry, (consistent_iff hrun).mpr fun x hx => ?_⟩
  obtain ⟨m, hm, hempty⟩ := Option.any_eq_true _ _ |>.mp (hnil x hx)
  rw [hm]
  exact keepsRetry_of_nil (of_decide_eq_true hempty) x.2

/-- With a second block ack that does not acknowledge the packet, before it is sent again, it is there twice. -/
theorem not_consistent : ¬ ∀ (tr : List (Option BlockAckManager × Event)) (s : Option BlockAckManager),
    machine.Run (some (new 1 .basicBlockAck 500)) tr s →
      Machine.EveryState Consistent tr s ∧ Machine.EveryStep LeavesRight tr s := by
  intro h
  obtain ⟨out, -, hrun, htwice⟩ := Machine.exists_replay (M := machine) (some (new 1 .basicBlockAck 500))
    (Small.lostEvents ++ [.notifyGotBlockAck (.new 5 0) Small.recipient 4 1])
    (P := fun out => (out.2.any fun m => m.retryPackets = [0, 0]) = true) (by decide)
  obtain ⟨m, hm, hretry⟩ := Option.any_eq_true _ _ |>.mp htwice
  have hconsistent := (h out.1 out.2 hrun).1.2
  rw [hm] at hconsistent
  have hnodup := hconsistent.nodup
  rw [of_decide_eq_true hretry] at hnodup
  exact absurd hnodup (by decide)

end Ns3.BlockAckManager
