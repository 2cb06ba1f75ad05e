import Ns3.Lib.Machine
import Ns3.Olsr.MprComputation

/-!
# The link set and the neighbour set over runs

What HELLO and MID messages and the timers keep, in whatever order and at whatever times they come.

* `keyed_of_run` — there is one link tuple for each interface of a neighbour, which is there for as long as it counts as
  symmetric or asymmetric, and one tuple for each interface association.
* `uniqueNeighbors_iff` — there is one neighbour tuple for each main address for as long as no MID message gives two of
  them one.
-/

namespace Ns3.Olsr

open Lib

/-- What changes these sets. -/
inductive Event where
  /-- `ProcessHello`. -/
  | hello (msg : HelloMessage) (receiverIface senderIface : Ipv4Address)
  /-- `ProcessMid`. -/
  | mid (msg : MidMessage) (senderIface : Ipv4Address)
  /-- `LinkTupleTimerExpire`. -/
  | linkTupleTimer (firstTime : Bool) (neighborIfaceAddr : Ipv4Address)
  /-- `IfaceAssocTupleTimerExpire`. -/
  | ifaceAssocTupleTimer (ifaceAddr : Ipv4Address)

/-- A link tuple is there for as long as it counts as symmetric or asymmetric. -/
def LinkTuple.Lasts (tuple : LinkTuple) : Prop := tuple.symTime ≤ tuple.time ∧ tuple.asymTime ≤ tuple.time

namespace OlsrState

/-- The handler of an event, at a time. -/
def handle (s : OlsrState) (now : ℤ) : Event → Option OlsrState
  | .hello msg receiverIface senderIface => s.processHello now msg receiverIface senderIface
  | .mid msg senderIface => some (s.processMid now msg senderIface)
  | .linkTupleTimer firstTime neighborIfaceAddr => some (s.linkTupleTimerExpire now firstTime neighborIfaceAddr).1
  | .ifaceAssocTupleTimer ifaceAddr => some (s.ifaceAssocTupleTimerExpire now ifaceAddr)

/-- The handlers, with the times at which they run. -/
def machine : Machine OlsrState (ℤ × Event) := ⟨fun _ _ => True, fun s e => s.handle e.1 e.2⟩

instance (s : OlsrState) (e : ℤ × Event) : Decidable (machine.enabled s e) := .isTrue trivial

/-- The key of a link tuple. -/
def linkKeys (s : OlsrState) : List Ipv4Address := s.linkSet.map LinkTuple.neighborIfaceAddr

/-- The key of an interface association. -/
def assocKeys (s : OlsrState) : List (Ipv4Address × Ipv4Address) :=
  s.ifaceAssocSet.map fun tuple => (tuple.ifaceAddr, tuple.mainAddr)

/-- The keys are there once, and the link tuples last. -/
structure Keyed (s : OlsrState) : Prop where
  links : s.linkKeys.Nodup
  lasts : ∀ tuple ∈ s.linkSet, tuple.Lasts
  assocs : s.assocKeys.Nodup

/-- A MID message gives no two neighbours one main address. -/
def KeepsApart (s : OlsrState) : ℤ × Event → Prop
  | (now, .mid msg senderIface) => s.findSymLinkTuple senderIface now ≠ none →
      ∀ a ∈ s.neighborSet.map NeighborTuple.neighborMainAddr, ∀ b ∈ s.neighborSet.map NeighborTuple.neighborMainAddr,
        (s.associateAll now msg).getMainAddress a = (s.associateAll now msg).getMainAddress b → a = b
  | _ => True

instance (s : OlsrState) (e : ℤ × Event) : Decidable (s.KeepsApart e) :=
  match e with
  | (_, .mid _ _) => inferInstanceAs (Decidable (_ → ∀ a ∈ _, ∀ b ∈ _, _ → _))
  | (_, .hello _ _ _) | (_, .linkTupleTimer _ _) | (_, .ifaceAssocTupleTimer _) => isTrue trivial

/-- Only the neighbour set is changed, and its keys stay apart. -/
structure KeepsLinks (s s' : OlsrState) : Prop where
  linkSet : s'.linkSet = s.linkSet
  ifaceAssocSet : s'.ifaceAssocSet = s.ifaceAssocSet
  unique : s.UniqueNeighbors → s'.UniqueNeighbors

variable {s s' : OlsrState} {now : ℤ}

theorem KeepsLinks.refl (s : OlsrState) : s.KeepsLinks s := ⟨rfl, rfl, id⟩

theorem KeepsLinks.trans {s'' : OlsrState} (h : s.KeepsLinks s') (h' : s'.KeepsLinks s'') : s.KeepsLinks s'' :=
  ⟨h'.linkSet.trans h.linkSet, h'.ifaceAssocSet.trans h.ifaceAssocSet, h'.unique ∘ h.unique⟩

theorem KeepsLinks.keyed (h : s.KeepsLinks s') (hs : s.Keyed) : s'.Keyed := by
  obtain ⟨hlinks, hlasts, hassocs⟩ := hs
  refine ⟨?_, ?_, ?_⟩
  · rwa [linkKeys, h.linkSet]
  · rwa [h.linkSet]
  · rwa [assocKeys, h.ifaceAssocSet]

theorem keepsLinks_updateFirst {p : NeighborTuple → Prop} [DecidablePred p] {f : NeighborTuple → NeighborTuple}
    (hf : ∀ old, p old → (f old).neighborMainAddr = old.neighborMainAddr) :
    s.KeepsLinks { s with neighborSet := updateFirst p f s.neighborSet } :=
  ⟨rfl, rfl, fun h => uniqueNeighbors_updateFirst h hf⟩

theorem keepsLinks_insertNeighborTuple (tuple : NeighborTuple) : s.KeepsLinks (s.insertNeighborTuple tuple) := by
  refine ⟨?_, ?_, fun h => uniqueNeighbors_insertNeighborTuple h tuple⟩
  · rw [insertNeighborTuple]
    split <;> rfl
  · rw [insertNeighborTuple]
    split <;> rfl

theorem keepsLinks_linkTupleUpdated (s : OlsrState) (now : ℤ) (tuple : LinkTuple) (willingness : UInt8) :
    s.KeepsLinks (s.linkTupleUpdated now tuple willingness) := by
  rw [linkTupleUpdated]
  split
  · exact keepsLinks_updateFirst fun _ _ => rfl
  · exact (keepsLinks_insertNeighborTuple _).trans (keepsLinks_updateFirst fun _ _ => rfl)

/-! ### Links -/

/-- The link messages leave a link tuple that lasts, once it lasts for its asymmetric time too. -/
theorem lasts_senseLink {vTime : ℕ} {receiverIface : Ipv4Address} {messages : List LinkMessage} {x y : LinkTuple × Bool}
    (h : messages.foldlM (senseLink now vTime receiverIface) x = some y) (hasym : x.1.asymTime = now + vTime)
    (hsym : x.1.symTime ≤ max x.1.time x.1.asymTime) :
    y.1.neighborIfaceAddr = x.1.neighborIfaceAddr ∧ y.1.symTime ≤ max y.1.time y.1.asymTime := by
  induction messages generalizing x with
  | nil =>
    cases h
    exact ⟨rfl, hsym⟩
  | cons m messages ih =>
    rw [List.foldlM_cons, Option.bind_eq_bind, Option.bind_eq_some_iff] at h
    obtain ⟨z, hz, hrest⟩ := h
    have hnext : z.1.neighborIfaceAddr = x.1.neighborIfaceAddr ∧ z.1.asymTime = now + vTime ∧
        z.1.symTime ≤ max z.1.time z.1.asymTime := by
      rw [senseLink] at hz
      split at hz
      case isTrue =>
        split at hz
        case h_1 =>
          cases hz
          refine ⟨rfl, hasym, ?_⟩
          simp only [second, hasym]
          omega
        case h_2 | h_3 =>
          cases hz
          refine ⟨rfl, hasym, ?_⟩
          simp only [neighbHoldTime, second]
          omega
        case h_4 => cases hz
      case isFalse =>
        cases hz
        exact ⟨rfl, hasym, hsym⟩
    obtain ⟨haddr, hend⟩ := ih hrest hnext.2.1 hnext.2.2
    exact ⟨haddr.trans hnext.1, hend⟩

/-- A link tuple that lasts is written. -/
theorem Keyed.writeLinkTuple (hlinks : s.linkKeys.Nodup) (hassocs : s.assocKeys.Nodup) {tuple : LinkTuple}
    (hlasts : ∀ old ∈ s.linkSet, old.neighborIfaceAddr ≠ tuple.neighborIfaceAddr → old.Lasts) (htuple : tuple.Lasts) :
    (s.writeLinkTuple tuple).Keyed := by
  refine ⟨?_, fun link hlink => ?_, hassocs⟩
  · rw [linkKeys, OlsrState.writeLinkTuple, map_updateFirst fun _ h => h.symm]
    exact hlinks
  · rcases (mem_updateFirst hlinks fun _ _ ha hb => ha.trans hb.symm).mp hlink with ⟨hmem, hne⟩ | ⟨_, -, -, rfl⟩
    · exact hlasts link hmem hne
    · exact htuple

theorem neighborIfaceAddr_sensedLink (s : OlsrState) (now : ℤ) (vTime : ℕ) (receiverIface senderIface : Ipv4Address) :
    (s.sensedLink now vTime receiverIface senderIface).neighborIfaceAddr = senderIface := by
  rw [sensedLink]
  cases h : s.findLinkTuple senderIface with
  | none => rfl
  | some tuple =>
    rw [findLinkTuple] at h
    simpa using List.find?_some h

theorem symTime_sensedLink (hs : s.Keyed) (vTime : ℕ) (receiverIface senderIface : Ipv4Address) :
    (s.sensedLink now vTime receiverIface senderIface).symTime ≤
      max (s.sensedLink now vTime receiverIface senderIface).time (now + vTime) := by
  rw [sensedLink]
  cases h : s.findLinkTuple senderIface with
  | none =>
    simp only [Option.getD_none, second]
    omega
  | some tuple => exact le_max_of_le_left (hs.lasts tuple (List.mem_of_find?_eq_some h)).1

/-- A link tuple is only inserted where there is none with its key. -/
theorem linkKeys_insertLinkTuple (hs : s.Keyed) {tuple : LinkTuple}
    (h : s.findLinkTuple tuple.neighborIfaceAddr = none) : (s.insertLinkTuple tuple).linkKeys.Nodup := by
  rw [linkKeys, insertLinkTuple, List.map_append, List.map_singleton]
  refine List.nodup_append.mpr ⟨hs.links, List.nodup_singleton _, fun a ha b hb => ?_⟩
  obtain ⟨old, hold, rfl⟩ := List.mem_map.mp ha
  rw [List.mem_singleton.mp hb]
  simpa using List.find?_eq_none.mp h old hold

theorem linkSensing_spec {msg : HelloMessage} {receiverIface senderIface : Ipv4Address}
    (h : s.linkSensing now msg receiverIface senderIface = some s') (hs : s.Keyed) :
    s'.Keyed ∧ (s.UniqueNeighbors → s'.UniqueNeighbors) := by
  rw [linkSensing] at h
  split at h
  case isFalse => cases h
  dsimp only at h
  split at h
  case h_1 => cases h
  case h_2 tuple updated hfold =>
    obtain ⟨haddr, hsym⟩ := lasts_senseLink hfold rfl (symTime_sensedLink hs _ _ _)
    have haddr' : tuple.neighborIfaceAddr = senderIface := haddr.trans (neighborIfaceAddr_sensedLink ..)
    generalize hbefore : (if (s.findLinkTuple senderIface).isNone = true then
      s.insertLinkTuple (s.sensedLink now msg.vTime receiverIface senderIface) else s) = before at h
    have hwritten : (before.writeLinkTuple { tuple with time := max tuple.time tuple.asymTime }).Keyed := by
      subst hbefore
      split_ifs with hcreated
      · refine Keyed.writeLinkTuple (linkKeys_insertLinkTuple hs ?_) hs.assocs (fun old hold hne => ?_)
          ⟨hsym, le_max_right _ _⟩
        · rw [neighborIfaceAddr_sensedLink]
          exact Option.isNone_iff_eq_none.mp hcreated
        · rcases List.mem_append.mp hold with hold | hold
          · exact hs.lasts old hold
          · rw [List.mem_singleton.mp hold, neighborIfaceAddr_sensedLink] at hne
            exact absurd haddr'.symm hne
      · exact Keyed.writeLinkTuple hs.links hs.assocs (fun old hold _ => hs.lasts old hold) ⟨hsym, le_max_right _ _⟩
    have hunique : s.UniqueNeighbors →
        (before.writeLinkTuple { tuple with time := max tuple.time tuple.asymTime }).UniqueNeighbors := by
      subst hbefore
      split_ifs <;> exact id
    generalize before.writeLinkTuple _ = written at h hwritten hunique
    have hkeeps : written.KeepsLinks s' := by
      have hupdated : written.KeepsLinks (if updated = true then written.linkTupleUpdated now
          { tuple with time := max tuple.time tuple.asymTime } msg.willingness else written) := by
        split_ifs
        · exact keepsLinks_linkTupleUpdated _ _ _ _
        · exact .refl _
      cases h
      split_ifs at hupdated ⊢
      all_goals first | exact hupdated.trans (keepsLinks_insertNeighborTuple _) | exact hupdated
    exact ⟨hkeeps.keyed hwritten, hkeeps.unique ∘ hunique⟩

theorem processHello_spec {msg : HelloMessage} {receiverIface senderIface : Ipv4Address}
    (h : s.processHello now msg receiverIface senderIface = some s') (hs : s.Keyed) :
    s'.Keyed ∧ (s.UniqueNeighbors → s'.UniqueNeighbors) := by
  obtain ⟨sensed, hsensed, rfl⟩ := Option.map_eq_some_iff.mp h
  obtain ⟨hkeyed, hunique⟩ := linkSensing_spec hsensed hs
  have hkeeps : sensed.KeepsLinks (sensed.populateNeighborSet msg) := keepsLinks_updateFirst fun _ _ => rfl
  exact ⟨hkeeps.keyed hkeyed, hkeeps.unique ∘ hunique⟩

theorem linkTupleTimerExpire_spec (now : ℤ) (hs : s.Keyed) (firstTime : Bool) (neighborIfaceAddr : Ipv4Address) :
    (s.linkTupleTimerExpire now firstTime neighborIfaceAddr).1.Keyed ∧
      (s.UniqueNeighbors → (s.linkTupleTimerExpire now firstTime neighborIfaceAddr).1.UniqueNeighbors) := by
  rw [linkTupleTimerExpire]
  split
  case h_1 => exact ⟨hs, id⟩
  case h_2 tuple _ =>
    split_ifs
    · refine ⟨⟨?_, fun old hold => ?_, hs.assocs⟩, fun h => uniqueNeighbors_eraseNeighborTuple h _⟩
      · exact List.Nodup.sublist (List.eraseP_sublist.map _) hs.links
      · exact hs.lasts old (List.mem_of_mem_eraseP hold)
    · exact ⟨hs, id⟩
    · have hkeeps := keepsLinks_linkTupleUpdated s now tuple willDefault
      exact ⟨hkeeps.keyed hs, hkeeps.unique⟩
    · exact ⟨hs, id⟩

/-! ### Interface associations -/

theorem assocKeys_associate (h : s.assocKeys.Nodup) (msg : MidMessage) (ifaceAddr : Ipv4Address) :
    (s.associate now msg ifaceAddr).assocKeys.Nodup := by
  rw [associate]
  split_ifs with hthere
  · have hsame : (fun tuple : IfaceAssocTuple => (tuple.ifaceAddr, tuple.mainAddr)) ∘ (fun tuple =>
        if tuple.ifaceAddr = ifaceAddr ∧ tuple.mainAddr = msg.originatorAddress then
          { tuple with time := now + msg.vTime } else tuple) = fun tuple => (tuple.ifaceAddr, tuple.mainAddr) := by
      funext tuple
      dsimp only [Function.comp]
      split_ifs <;> rfl
    rw [assocKeys, List.map_map, hsame]
    exact h
  · rw [assocKeys, List.map_append, List.map_singleton]
    refine List.nodup_append.mpr ⟨h, List.nodup_singleton _, fun a ha b hb => ?_⟩
    obtain ⟨old, hold, rfl⟩ := List.mem_map.mp ha
    rw [List.mem_singleton.mp hb]
    intro heq
    exact hthere ⟨old, hold, Prod.mk.inj heq⟩

/-- The interface addresses of a message change no more than the associations. -/
theorem associateAll_spec (now : ℤ) (h : s.assocKeys.Nodup) (msg : MidMessage) :
    (s.associateAll now msg).assocKeys.Nodup ∧ (s.associateAll now msg).linkSet = s.linkSet ∧
      (s.associateAll now msg).neighborSet = s.neighborSet := by
  rw [associateAll]
  induction msg.interfaceAddresses using List.reverseRecOn with
  | nil => exact ⟨h, rfl, rfl⟩
  | append_singleton addresses ifaceAddr ih =>
    rw [List.foldl_concat]
    obtain ⟨hkeys, hlinks, hneighbors⟩ := ih
    refine ⟨assocKeys_associate hkeys msg ifaceAddr, ?_, ?_⟩
    · rw [← hlinks, associate]
      split_ifs <;> rfl
    · rw [← hneighbors, associate]
      split_ifs <;> rfl

theorem processMid_spec (hs : s.Keyed) (msg : MidMessage) (senderIface : Ipv4Address) :
    (s.processMid now msg senderIface).Keyed ∧ (s.UniqueNeighbors →
      ((s.processMid now msg senderIface).UniqueNeighbors ↔ s.KeepsApart (now, .mid msg senderIface))) := by
  rw [processMid, KeepsApart]
  split
  case h_1 hnone => exact ⟨hs, fun h => iff_of_true h fun hsome => absurd hnone hsome⟩
  case h_2 hsome =>
    obtain ⟨hkeys, hlinks, hneighbors⟩ := associateAll_spec now hs.assocs msg
    refine ⟨⟨by rw [linkKeys, hlinks]; exact hs.links, by rw [hlinks]; exact hs.lasts, hkeys⟩, fun h => ?_⟩
    dsimp only
    rw [imp_iff_right (by rw [hsome]; exact Option.some_ne_none _), ← List.nodup_map_iff_inj_on h, UniqueNeighbors,
      hneighbors, List.map_map, List.map_map]
    rfl

/-! ### Runs -/

theorem step_spec {e : ℤ × Event} (hs : s.Keyed) (h : machine.Step s e s') :
    s'.Keyed ∧ (s.UniqueNeighbors → (s'.UniqueNeighbors ↔ s.KeepsApart e)) := by
  obtain ⟨now, e⟩ := e
  have hexec : s.handle now e = some s' := h.2
  cases e with
  | hello msg receiverIface senderIface =>
    obtain ⟨hkeyed, hunique⟩ := processHello_spec hexec hs
    exact ⟨hkeyed, fun h => iff_of_true (hunique h) trivial⟩
  | mid msg senderIface =>
    cases hexec
    exact processMid_spec hs msg senderIface
  | linkTupleTimer firstTime neighborIfaceAddr =>
    cases hexec
    obtain ⟨hkeyed, hunique⟩ := linkTupleTimerExpire_spec now hs firstTime neighborIfaceAddr
    exact ⟨hkeyed, fun h => iff_of_true (hunique h) trivial⟩
  | ifaceAssocTupleTimer ifaceAddr =>
    cases hexec
    rw [ifaceAssocTupleTimerExpire]
    split
    · exact ⟨hs, fun h => iff_of_true h trivial⟩
    · split_ifs
      · refine ⟨⟨hs.links, hs.lasts, ?_⟩, fun h => iff_of_true h trivial⟩
        exact List.Nodup.sublist (List.eraseP_sublist.map _) hs.assocs
      · exact ⟨hs, fun h => iff_of_true h trivial⟩

variable {s₀ : OlsrState} {tr : List (OlsrState × (ℤ × Event))}

/-- In every run there is one link tuple for each interface of a neighbour, which lasts, and one tuple for each
association. -/
theorem keyed_of_run (hrun : machine.Run s₀ tr s) (h₀ : s₀.Keyed) : Machine.EveryState Keyed tr s :=
  hrun.everyState_of_meets (G := fun _ _ => True) (fun _ _ => trivial) h₀ fun _ _ _ hs _ hstep => (step_spec hs hstep).1

/-- In every run there is one tuple for each neighbour if and only if no MID message gives two of them one address. -/
theorem uniqueNeighbors_iff (hrun : machine.Run s₀ tr s) (h₀ : s₀.Keyed) (hunique : s₀.UniqueNeighbors) :
    Machine.EveryState UniqueNeighbors tr s ↔ Machine.Meets KeepsApart tr := by
  have hstep : ∀ s e s', s.Keyed ∧ s.UniqueNeighbors → machine.Step s e s' →
      (s'.UniqueNeighbors ↔ s.KeepsApart e) ∧ (s.KeepsApart e → s'.Keyed ∧ s'.UniqueNeighbors) := by
    rintro s e s' ⟨hs, hu⟩ hstep
    obtain ⟨hkeyed, hiff⟩ := step_spec hs hstep
    exact ⟨hiff hu, fun hapart => ⟨hkeyed, (hiff hu).mpr hapart⟩⟩
  exact (hrun.everyState_iff_of_invariant ⟨h₀, hunique⟩ (fun _ h => h.2) hstep).1

/-- No tuples. -/
def empty : OlsrState := ⟨[], [], [], [], []⟩

theorem keyed_empty : empty.Keyed := ⟨List.nodup_nil, fun _ h => absurd h List.not_mem_nil, List.nodup_nil⟩

/-- A HELLO message of node 2. -/
def helloOfTwo (willingness : UInt8) (senderIface : Ipv4Address) : Event :=
  .hello ⟨⟨2⟩, 6, [⟨1, [⟨1⟩]⟩], willingness⟩ ⟨1⟩ senderIface

/-- Node 2 is heard on its interface 5, and then on 2, before it announces the given interface. -/
def heardTwice (ifaceAddr : Ipv4Address) : List (ℤ × Event) :=
  [(0, helloOfTwo willNever ⟨5⟩), (1, helloOfTwo 3 ⟨2⟩), (2, .mid ⟨⟨2⟩, 9, [ifaceAddr]⟩ ⟨2⟩)]

/-- The keys of the links stay apart where those of the neighbours do not. -/
theorem keyed_heardTwice :
    ∃ tr s, machine.Run empty tr s ∧ Machine.EveryState Keyed tr s ∧ ¬ s.UniqueNeighbors := by
  obtain ⟨out, -, hrun, hsame⟩ := machine.exists_replay empty (heardTwice ⟨5⟩)
    (P := fun out => ¬ (out.2.neighborSet.map NeighborTuple.neighborMainAddr).Nodup) (by decide +kernel)
  exact ⟨out.1, out.2, hrun, keyed_of_run hrun keyed_empty, hsame⟩

theorem uniqueNeighbors_heardTwice :
    ∃ tr s, machine.Run empty tr s ∧ tr.length = 3 ∧ Machine.EveryState UniqueNeighbors tr s := by
  obtain ⟨out, -, hrun, hlength, hapart⟩ := machine.exists_replay empty (heardTwice ⟨6⟩)
    (P := fun out => out.1.length = 3 ∧ Machine.Meets KeepsApart out.1) (by decide +kernel)
  exact ⟨out.1, out.2, hrun, hlength, (uniqueNeighbors_iff hrun keyed_empty List.nodup_nil).mpr hapart⟩

end OlsrState

end Ns3.Olsr
