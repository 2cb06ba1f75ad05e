import Ns3.Pmip6.MagSteps

/-!
# The tunnel references of the gateway

An entry of the binding update list with a tunnel holds one reference to the tunnel of its anchor:
`SetupTunnelAndRouting` calls `AddTunnel`, and `ClearTunnelAndRouting` calls `RemoveTunnel`.

## What is proved

`references_accounted` — in every state of a run the calls of `AddTunnel` that were not matched are
as many as the entries with a tunnel, for every anchor, if and only if every step meets
`KeepsReferences`: no tunnel is set up for an entry that has one, none is cleared for an entry that
has none, and an entry with a tunnel keeps its anchor. `references_lost` is a run that sets up a
second tunnel.
-/

namespace Ns3.Pmip6

open BindingUpdateList (Entry RefreshDelay)
open Lib

namespace Mag

/-! ### What is counted -/

/-- The calls of `AddTunnel` for an anchor that no call of `RemoveTunnel` matches. -/
def outstanding (calls : List Call) (r : Ipv6Address) : ℤ :=
  calls.count (.addTunnel r) - calls.count (.removeTunnel r)

/-- The references to the tunnel of an anchor that an entry holds. -/
def holds (r : Ipv6Address) (bule : Entry) : ℕ := if bule.lmaAddress = r ∧ bule.HasTunnel then 1 else 0

/-- The number of entries that have a tunnel to an anchor. -/
def holders (mag : Mag) (r : Ipv6Address) : ℕ := Store.tally (fun _ => holds r) mag.buList

/-- The references are those of the entries. -/
def Accounted (s : Timed) : Prop := ∀ r, outstanding s.mag.calls r = holders s.mag r

/-- A step sets up no second tunnel for an entry and clears none that is not there, and an entry with
a tunnel keeps its anchor. -/
def KeepsReferences (s : Timed) : Event → Prop
  | .newNode sender _ _ => ∀ pf ∈ s.mag.profile.lookup (.ofMac48Address sender),
      ∀ bule ∈ s.mag.buList.lookup pf.mnIdentifier, bule.HasTunnel → bule.lmaAddress = pf.lmaAddress
  | .pba message => ∀ bule ∈ acceptedEntry s.now message s.mag,
      if 0 < message.lifetime then
        bule.state = .updating → ¬ bule.HasTunnel ∧ TunnelIndexFits s.mag bule
      else bule.HasTunnel
  | .advance _ | .setProfile _ | .otherRadvdInterface | .refreshTimeout _ | .reachableTimeout _
  | .retransTimeout _ => True

/-! ### The calls of a step -/

theorem outstanding_append (calls calls' : List Call) (r : Ipv6Address) :
    outstanding (calls ++ calls') r = outstanding calls r + outstanding calls' r := by
  unfold outstanding
  rw [List.count_append, List.count_append]
  omega

theorem outstanding_setUp (mag : Mag) (bule : Entry) (r : Ipv6Address) :
    outstanding (mag.setUp bule).calls r =
      outstanding mag.calls r + if bule.lmaAddress = r then 1 else 0 := by
  have hcalls : (mag.setUp bule).calls = mag.calls ++ [.addTunnel bule.lmaAddress, .setUp bule.mnIdentifier
      (.ofPrefixes bule.homeNetworkPrefixes (bule.ifIndex.signExtend 32))
      (.ofPrefixes bule.homeNetworkPrefixes
        ((mag.node.addTunnel bule.lmaAddress .zero).2.signExtend 32))] := rfl
  rw [hcalls, outstanding_append]
  by_cases h : bule.lmaAddress = r <;> simp [outstanding, h]

theorem outstanding_clearTunnel (mag : Mag) (bule : Entry) (r : Ipv6Address) :
    outstanding (mag.clearTunnel bule).calls r =
      outstanding mag.calls r - if bule.lmaAddress = r then 1 else 0 := by
  have hcalls : (mag.clearTunnel bule).calls =
      mag.calls ++ [.removeTunnel bule.lmaAddress, .cleared bule.mnIdentifier] := rfl
  rw [hcalls, outstanding_append]
  by_cases h : bule.lmaAddress = r
  · simp [outstanding, h]
    omega
  · simp [outstanding, h]

/-! ### Steps -/

variable {mnId : Identifier} {s s' : Timed}

/-- A step that replaces an entry keeps the account exactly when its calls make up for the
difference. -/
theorem accounted_iff_of_insert {bule bule' : Entry} (h : Accounted s) (hget : s.mag.buList.lookup mnId = some bule)
    (hset : s'.mag.buList = s.mag.buList.insert mnId bule') :
    Accounted s' ↔ ∀ r, outstanding s'.mag.calls r + holds r bule = outstanding s.mag.calls r + holds r bule' := by
  refine forall_congr' fun r => ?_
  have hold := h r
  have hins := Store.tally_insert (f := fun _ => holds r) hget bule'
  unfold holders at hold ⊢
  rw [hset]
  omega

/-- A step that adds an entry without tunnel and calls nothing keeps the account. -/
theorem accounted_of_new {bule' : Entry} (h : Accounted s) (hget : s.mag.buList.lookup mnId = none)
    (hset : s'.mag.buList = s.mag.buList.insert mnId bule') (hcalls : s'.mag.calls = s.mag.calls)
    (hno : ¬ bule'.HasTunnel) : Accounted s' := by
  intro r
  have hzero : holds r bule' = 0 := if_neg fun hr => hno hr.2
  have hins := Store.tally_insert_of_lookup_eq_none (f := fun _ => holds r) hget bule'
  have hold := h r
  unfold holders at hold ⊢
  rw [hset, hcalls, hins, hzero, hold]
  rfl

variable {now : ℤ}

/-- An attachment keeps the account exactly when an entry with a tunnel keeps its anchor. -/
theorem accounted_iff_of_attach {mag : Mag} {pf : Pmipv6Profile.Entry} (h : Accounted ⟨now, mag⟩) (sequence : UInt16)
    {bule' : Entry} (htunnel : bule'.tunnelIfIndex = (mag.entryFor pf).tunnelIfIndex)
    (hlma : bule'.lmaAddress = pf.lmaAddress) :
    Accounted ⟨now, { mag.setEntry pf.mnIdentifier bule' with sequence := sequence }⟩ ↔
      ∀ bule ∈ mag.buList.lookup pf.mnIdentifier, bule.HasTunnel → bule.lmaAddress = pf.lmaAddress := by
  cases hget : mag.buList.lookup pf.mnIdentifier with
  | none =>
    have hnew : ¬ bule'.HasTunnel := Entry.not_hasTunnel (by rw [htunnel, entryFor, hget]; rfl)
    exact iff_of_true (accounted_of_new h hget rfl rfl hnew) fun bule hb => by cases hb
  | some bule =>
    have hsame : bule'.HasTunnel ↔ bule.HasTunnel :=
      Entry.hasTunnel_congr (by rw [htunnel, entryFor, hget]; rfl)
    rw [accounted_iff_of_insert h hget rfl]
    simp only [Option.mem_def, Option.some.injEq, forall_eq']
    constructor
    · intro hr ht
      have hone := hr bule.lmaAddress
      by_contra hne
      have hzero : holds bule.lmaAddress bule' = 0 := if_neg fun hx => hne (hx.1.symm.trans hlma)
      have hpos : holds bule.lmaAddress bule = 1 := if_pos ⟨rfl, ht⟩
      rw [hzero, hpos] at hone
      exact absurd hone (by simp [setEntry])
    · intro hkeep r
      have hholds : holds r bule' = holds r bule := by
        unfold holds
        refine if_congr ?_ rfl rfl
        rw [hsame, hlma]
        constructor
        · rintro ⟨hr, ht⟩
          exact ⟨(hkeep ht).trans hr, ht⟩
        · rintro ⟨hr, ht⟩
          exact ⟨(hkeep ht).symm.trans hr, ht⟩
      rw [hholds]
      rfl

/-- An entry that keeps its anchor and its tunnel keeps the account. -/
theorem accounted_of_same {bule bule' : Entry} (h : Accounted s) (hget : s.mag.buList.lookup mnId = some bule)
    (hset : s'.mag.buList = s.mag.buList.insert mnId bule') (hcalls : s'.mag.calls = s.mag.calls)
    (hlma : bule'.lmaAddress = bule.lmaAddress) (htunnel : bule'.tunnelIfIndex = bule.tunnelIfIndex) :
    Accounted s' := by
  rw [accounted_iff_of_insert h hget hset]
  intro r
  have hholds : holds r bule' = holds r bule := by
    unfold holds
    rw [hlma]
    exact if_congr (and_congr Iff.rfl (Entry.hasTunnel_congr htunnel)) rfl rfl
  rw [hcalls, hholds]

/-- Setting up a tunnel keeps the account exactly when the entry had none and has one then. -/
theorem accounted_iff_of_register {refresh : RefreshDelay} {mag : Mag} {pba : Ipv6MobilityBindingAckHeader}
    {bule : Entry} (h : Accounted ⟨now, mag⟩) (hget : mag.buList.lookup mnId = some bule) :
    Accounted ⟨now, (mag.setUp (acknowledge pba bule)).setEntry mnId (registered refresh now pba mag bule)⟩ ↔
      ¬ bule.HasTunnel ∧ TunnelIndexFits mag bule := by
  rw [accounted_iff_of_insert h hget rfl]
  have hcalls : ∀ r, outstanding (mag.setUp (acknowledge pba bule)).calls r =
      outstanding mag.calls r + if bule.lmaAddress = r then 1 else 0 :=
    outstanding_setUp mag (acknowledge pba bule)
  have hnew : ∀ r, holds r (registered refresh now pba mag bule) =
      if bule.lmaAddress = r ∧ TunnelIndexFits mag bule then 1 else 0 := fun r =>
    if_congr (and_congr Iff.rfl (hasTunnel_registered refresh now pba mag bule)) rfl rfl
  show (∀ r, outstanding (mag.setUp (acknowledge pba bule)).calls r + _ = outstanding mag.calls r + _) ↔ _
  simp only [hcalls, hnew]
  simp only [holds]
  constructor
  · intro hr
    have hone := hr bule.lmaAddress
    by_cases ht : bule.HasTunnel
    · by_cases hf : TunnelIndexFits mag bule
      · simp [ht, hf] at hone
      · simp only [ht, hf, and_self, and_false, if_true, if_false, Nat.cast_one, Nat.cast_zero] at hone
        omega
    · by_cases hf : TunnelIndexFits mag bule
      · exact ⟨ht, hf⟩
      · simp [ht, hf] at hone
  · rintro ⟨hno, hf⟩ r
    by_cases hr : bule.lmaAddress = r <;> simp [hr, hno, hf]

/-- Clearing a tunnel with its entry keeps the account exactly when the entry had one. -/
theorem accounted_iff_of_deregister {mag mag' : Mag} {bule : Entry} (h : Accounted ⟨now, mag⟩)
    (hget : mag.buList.lookup mnId = some bule)
    (hcalls : ∀ r, outstanding mag'.calls r = outstanding mag.calls r - if bule.lmaAddress = r then 1 else 0) :
    Accounted ⟨now, { mag' with buList := mag.buList.erase mnId }⟩ ↔ bule.HasTunnel := by
  have herase : ∀ r, (holders mag r : ℤ) =
      Store.tally (fun _ => holds r) (mag.buList.erase mnId) + holds r bule := by
    intro r
    rw [holders, ← Store.tally_erase (f := fun _ => holds r) hget]
    exact Int.natCast_add _ _
  have hiff : ∀ r, outstanding mag'.calls r = Store.tally (fun _ => holds r) (mag.buList.erase mnId) ↔
      (holds r bule : ℤ) = if bule.lmaAddress = r then 1 else 0 := by
    intro r
    have hold := h r
    rw [herase] at hold
    rw [hcalls]
    simp only at hold
    omega
  show (∀ r, outstanding mag'.calls r = Store.tally (fun _ => holds r) (mag.buList.erase mnId)) ↔ _
  simp only [hiff, holds]
  constructor
  · intro hr
    have hone := hr bule.lmaAddress
    by_contra ht
    simp [ht] at hone
  · intro ht r
    by_cases hr : bule.lmaAddress = r <;> simp [hr, ht]

theorem accounted_of_expired {mag : Mag} {bule : Entry} (h : Accounted ⟨now, mag⟩)
    (hget : mag.buList.lookup mnId = some bule) :
    Accounted ⟨now, (mag.clearExpired bule).setEntry mnId (expired bule)⟩ := by
  have hset := buList_expired mag mnId bule
  by_cases ht : bule.HasTunnel
  · rw [accounted_iff_of_insert h hget hset]
    intro r
    have hcalls : outstanding (mag.clearExpired bule).calls r =
        outstanding mag.calls r - if bule.lmaAddress = r then 1 else 0 := by
      rw [(clearExpired_of_hasTunnel mag ht).1, outstanding_clearTunnel]
    have hgone : holds r (expired bule) = 0 :=
      if_neg fun hx => Entry.not_hasTunnel (by rw [expired, if_pos ht]) hx.2
    show outstanding (mag.clearExpired bule).calls r + _ = outstanding mag.calls r + _
    rw [hcalls, hgone, holds]
    by_cases hr : bule.lmaAddress = r <;> simp [hr, ht]
  · exact accounted_of_same h hget hset (clearExpired_of_not_hasTunnel mag ht).1 rfl (if_neg ht)

/-- A step from an accounted state leads to one exactly when it keeps the references. -/
theorem accounted_iff {refresh : RefreshDelay} {e : Event} (h : Accounted s) (hs : (machine refresh).Step s e s') :
    Accounted s' ↔ KeepsReferences s e := by
  have hc := change_of_step hs
  obtain ⟨now, mag⟩ := s
  obtain ⟨now', mag'⟩ := s'
  cases hc with
  | advance | setProfile | otherRadvdInterface => exact iff_of_true h trivial
  | unknown hpf =>
    refine iff_of_true h ?_
    simp only [KeepsReferences, hpf]
    exact fun pf hp => by cases hp
  | @attach sender att link pf hpf hlink =>
    simp only [KeepsReferences, hpf, Option.mem_def, Option.some.injEq, forall_eq']
    have htunnel : (Mag.attach pf att link (mag.entryFor pf)).tunnelIfIndex =
        (mag.entryFor pf).tunnelIfIndex := by rw [attach_eq]
    exact accounted_iff_of_attach h mag.sequence htunnel (by rw [attach_eq])
  | @update sender att link pf ifIndex hpf hlink =>
    simp only [KeepsReferences, hpf, Option.mem_def, Option.some.injEq, forall_eq']
    have htunnel : (Mag.update now ifIndex (mag.sequence + 1)
        (Mag.attach pf att link (mag.entryFor pf))).tunnelIfIndex = (mag.entryFor pf).tunnelIfIndex := by
      rw [update_eq, attach_eq]
    exact accounted_iff_of_attach h (mag.sequence + 1) htunnel (by rw [update_eq, attach_eq])
  | ignore hacc =>
    refine iff_of_true h ?_
    simp only [KeepsReferences, hacc]
    exact fun bule hb => by cases hb
  | @register pba bule hacc hlife hup =>
    simp only [KeepsReferences, hacc, if_pos hlife, hup, Option.mem_def, Option.some.injEq, forall_eq',
      forall_const]
    exact accounted_iff_of_register h (acceptedEntry_spec hacc).1
  | @renew pba bule hacc hlife hup =>
    refine iff_of_true (accounted_of_same h (acceptedEntry_spec hacc).1 rfl rfl rfl rfl) ?_
    simp only [KeepsReferences, hacc, if_pos hlife, Option.mem_def, Option.some.injEq, forall_eq']
    exact fun hx => absurd hx hup
  | @deregister pba bule hacc hlife =>
    simp only [KeepsReferences, hacc, if_neg hlife, Option.mem_def, Option.some.injEq, forall_eq']
    exact accounted_iff_of_deregister h (acceptedEntry_spec hacc).1
      (outstanding_clearTunnel (mag.clearRadvd bule) (acknowledge pba bule))
  | @refreshTimeout mnId bule hget hdue =>
    exact iff_of_true (accounted_of_same h hget rfl rfl rfl rfl) trivial
  | @reachableTimeout mnId bule hget hdue => exact iff_of_true (accounted_of_expired h hget) trivial
  | @retransTimeout mnId bule t n hget =>
    exact iff_of_true (accounted_of_same h hget rfl rfl rfl rfl) trivial

/-- In every run, the references are those of the entries in every state if and only if every step
keeps them. -/
theorem references_accounted {refresh : RefreshDelay} {s₀ s : Timed} {tr : List (Timed × Event)}
    (h₀ : s₀.mag.buList = ∅ ∧ s₀.mag.calls = []) (hrun : (machine refresh).Run s₀ tr s) :
    Machine.EveryState Accounted tr s ↔ Machine.Meets KeepsReferences tr := by
  refine hrun.everyState_iff (fun r => ?_) fun _ _ _ hI hs => accounted_iff hI hs
  rw [holders, h₀.1, h₀.2]
  rfl

/-- A mobile node attaches and is registered, and the anchor deregisters it. -/
def registeredEvents : List Event :=
  [Small.attachTo 1, Small.ack 1 60 Small.hnp (Time.seconds 10),
    .advance (Time.seconds 20), Small.ack 1 0 Small.hnp (Time.seconds 10)]

theorem references_accounted_when_registered :
    ∃ out, (machine Small.tenthShort).replay Small.gateway registeredEvents = some out ∧
      (Machine.EveryState Accounted out.1 out.2 ↔ Machine.Meets KeepsReferences out.1) := by
  obtain ⟨out, hout, hrun, -⟩ := Machine.exists_replay Small.gateway registeredEvents
    (M := machine Small.tenthShort) (P := fun _ => True) (by decide +kernel)
  exact ⟨out, hout, references_accounted ⟨rfl, rfl⟩ hrun⟩

/-- A registered mobile node attaches twice before the acknowledgement arrives. -/
def attachedTwiceEvents : List Event :=
  [Small.attachTo 1, Small.ack 1 60 Small.hnp (Time.seconds 10), Small.attachTo 1, Small.attachTo 1,
    Small.ack 3 60 Small.hnp (Time.seconds 10)]

/-- Then its entry holds one reference, and two are outstanding. -/
theorem references_lost :
    ∃ out, (machine Small.tenthShort).replay Small.gateway attachedTwiceEvents = some out ∧
      (machine Small.tenthShort).Run Small.gateway out.1 out.2 ∧
      Small.gateway.mag.buList = ∅ ∧ Small.gateway.mag.calls = [] ∧
      outstanding out.2.mag.calls Small.lma = 2 ∧ holders out.2.mag Small.lma = 1 ∧
      ¬ Accounted out.2 := by
  obtain ⟨out, hout, hrun, htwo, hone⟩ := Machine.exists_replay Small.gateway attachedTwiceEvents
    (M := machine Small.tenthShort) (P := fun out =>
      outstanding out.2.mag.calls Small.lma = 2 ∧ holders out.2.mag Small.lma = 1) (by decide +kernel)
  refine ⟨out, hout, hrun, rfl, rfl, htwo, hone, fun hacc => ?_⟩
  have h := hacc Small.lma
  rw [htwo, hone] at h
  exact absurd h (by decide)

end Mag

end Ns3.Pmip6
