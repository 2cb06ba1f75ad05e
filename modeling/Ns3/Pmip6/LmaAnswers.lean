import Ns3.Pmip6.LmaSteps
import Ns3.Pmip6.MagSteps

/-!
# What the anchor answers

`HandlePbu` answers an update with an acknowledgement, unless it delays the registration. The status
of the acknowledgement is that of the validations; its sequence number, time stamp and lifetime are
those of the entry when there is one, and of the update otherwise.

## What is proved

* `rejection_reported_iff` — an update that fails a validation is answered with the status of the
  first that it fails and leaves the anchor as it was, if and only if that validation is not the
  one of the prefix set: its status is overwritten, and the update goes on to create an entry.
* `acknowledged_iff` — an answer carries what the update carried, if and only if the entry already
  recorded the same where the update has no lifetime and there is an entry: that entry is not
  updated, and the answer is built from it.
* `recorded_of_answers` — a gateway takes such an answer for one to its own update.
-/

namespace Ns3.Pmip6

open BindingCache
open Lib

namespace Lma

/-! ### Rejections -/

/-- The prefixes of an update that are not zero. -/
def nonZeroPrefixes (bundle : Ipv6MobilityOptionBundle) : List Ipv6Address :=
  bundle.homeNetworkPrefixes.filter fun a => !a.isAny

/-- The prefixes of an update that are not zero match the entries of its mobile node only partially:
one of them is in an entry, and no entry has them all. -/
def PartialMatch (bCache : List Entry) (bundle : Ipv6MobilityOptionBundle) : Prop :=
  (∃ x ∈ chain bCache bundle.mnIdentifier, ∃ a ∈ nonZeroPrefixes bundle, a ∈ x.1.homeNetworkPrefixes) ∧
    ∀ x ∈ chain bCache bundle.mnIdentifier, ∃ a ∈ nonZeroPrefixes bundle, a ∉ x.1.homeNetworkPrefixes
deriving Decidable

/-- The status of the first validation of `HandlePbu` that an update fails. -/
def failedCheck (now : ℤ) (pbu : Ipv6MobilityBindingUpdateHeader) (lma : Lma) : Option BAStatus :=
  match lma.checkOptions now pbu.bundle with
  | some errStatus => some errStatus
  | none => if PartialMatch lma.bCache pbu.bundle then some .bcePbuPrefixSetDoNotMatch else none

/-- An update that fails a validation is answered with the status of the validation, and leaves the
binding cache, the node, the profiles and the pool of prefixes as they were. -/
def RejectionReported (now : ℤ) (src : Ipv6Address) (pbu : Ipv6MobilityBindingUpdateHeader) (lma : Lma) :
    Prop :=
  ∀ errStatus, failedCheck now pbu lma = some errStatus →
    ∃ pba, handlePbu now src pbu lma = some (lma, some ⟨src, pba⟩) ∧
      pba.status = errStatus.code ∧ pba.status ≠ 0

variable {now : ℤ} {src : Ipv6Address} {pbu : Ipv6MobilityBindingUpdateHeader} {lma : Lma}

variable {bundle : Ipv6MobilityOptionBundle}

/-- The checks of the options report an error, and never that of the prefix set. -/
theorem checkOptions_ne {errStatus : BAStatus} (h : lma.checkOptions now bundle = some errStatus) :
    errStatus ≠ .bcePbuPrefixSetDoNotMatch ∧ errStatus.code ≠ 0 := by
  unfold checkOptions at h
  repeat' split at h
  all_goals cases h
  all_goals decide

variable {bCache : List Entry}

theorem not_partialMatch_of_nil (h : nonZeroPrefixes bundle = []) : ¬ PartialMatch bCache bundle := by
  rintro ⟨⟨x, -, a, ha, -⟩, -⟩
  rw [h] at ha
  cases ha

/-- The lookup finds an entry, and not all prefixes matched, exactly in a partial match. -/
theorem lookupPrefixes_partial_iff (hne : nonZeroPrefixes bundle ≠ []) :
    (∃ x, lookupPrefixes bCache bundle.mnIdentifier (nonZeroPrefixes bundle) = (some x, false)) ↔
      PartialMatch bCache bundle := by
  unfold lookupPrefixes
  cases hall : (chain bCache bundle.mnIdentifier).find? fun x =>
      x.1.matchPrefixes (nonZeroPrefixes bundle) = (true, true) with
  | some y =>
    have hfound := List.find?_some hall
    have hy := (Binding.matchPrefixes_eq_true hne).mp (of_decide_eq_true hfound)
    refine iff_of_false (by simp) ?_
    rintro ⟨-, hpartial⟩
    obtain ⟨a, ha, hnot⟩ := hpartial y (List.mem_of_find?_eq_some hall)
    exact hnot (hy a ha)
  | none =>
    rw [List.find?_eq_none] at hall
    simp only [Prod.mk.injEq, and_true]
    constructor
    · rintro ⟨x, hx⟩
      have hfound := List.find?_some hx
      refine ⟨⟨x, List.mem_of_find?_eq_some hx, Binding.matchPrefixes_fst.mp hfound⟩, ?_⟩
      intro y hy
      have hnot := hall y hy
      rw [decide_eq_true_eq, Binding.matchPrefixes_eq_true hne] at hnot
      simpa using hnot
    · rintro ⟨⟨x, hx, hany⟩, -⟩
      apply Option.isSome_iff_exists.mp
      rw [List.find?_isSome]
      exact ⟨x, hx, Binding.matchPrefixes_fst.mpr hany⟩

/-- The existence test reports the prefix set exactly in a partial match. -/
theorem errStatus_existenceTest_iff :
    (existenceTest bCache bundle).errStatus = .bcePbuPrefixSetDoNotMatch ↔ PartialMatch bCache bundle := by
  by_cases hne : nonZeroPrefixes bundle = []
  · refine iff_of_false ?_ (not_partialMatch_of_nil hne)
    unfold nonZeroPrefixes at hne
    unfold existenceTest
    simp only [hne, List.length_nil, Nat.lt_irrefl, if_false]
    repeat' split
    all_goals simp
  · rw [← lookupPrefixes_partial_iff hne]
    have hpos : 0 < (nonZeroPrefixes bundle).length := List.length_pos_iff.mpr hne
    unfold nonZeroPrefixes at hpos ⊢
    unfold existenceTest
    simp only [if_pos hpos]
    split
    · rename_i h
      simp [h]
    · rename_i h
      simp [h]
    · rename_i h
      simp [h]

theorem bce_existenceTest_of_partialMatch (h : PartialMatch bCache bundle) :
    (existenceTest bCache bundle).bce = none := by
  have hne : nonZeroPrefixes bundle ≠ [] := fun hnil => not_partialMatch_of_nil hnil h
  obtain ⟨x, hx⟩ := (lookupPrefixes_partial_iff hne).mpr h
  have hpos : 0 < (nonZeroPrefixes bundle).length := List.length_pos_iff.mpr hne
  unfold nonZeroPrefixes at hpos hx
  unfold existenceTest
  simp only [if_pos hpos, hx]

/-- An update that fails a validation is answered with its status and changes nothing if and only if
the validation is not that of the prefix set. -/
theorem rejection_reported_iff (now : ℤ) (src : Ipv6Address) (pbu : Ipv6MobilityBindingUpdateHeader)
    (lma : Lma) :
    RejectionReported now src pbu lma ↔ failedCheck now pbu lma ≠ some .bcePbuPrefixSetDoNotMatch := by
  cases hc : lma.checkOptions now pbu.bundle with
  | some errStatus =>
    have hfailed : failedCheck now pbu lma = some errStatus := by rw [failedCheck, hc]
    obtain ⟨hne, hcode⟩ := checkOptions_ne hc
    refine iff_of_true ?_ ?_
    · intro errStatus' he
      rw [hfailed, Option.some.injEq] at he
      subst he
      have hpath : path now src pbu lma = .rejected errStatus := by rw [path, hc]
      exact ⟨_, by rw [handlePbu_eq, hpath], rfl, hcode⟩
    · rw [hfailed]
      exact fun he => hne (Option.some.inj he)
  | none =>
    by_cases hp : PartialMatch lma.bCache pbu.bundle
    · have hfailed : failedCheck now pbu lma = some .bcePbuPrefixSetDoNotMatch := by
        rw [failedCheck, hc]
        exact if_pos hp
      refine iff_of_false ?_ (fun hne => hne hfailed)
      intro hreported
      obtain ⟨pba, hpba, -, hne⟩ := hreported _ hfailed
      -- the entry is gone, so the update is handled as one for a mobile node without entry
      have hpath : path now src pbu lma = if 0 < pbu.lifetime then .create else .unknown := by
        rw [path, hc]
        dsimp only
        rw [bce_existenceTest_of_partialMatch hp]
      rw [handlePbu_eq, hpath] at hpba
      by_cases hl : 0 < pbu.lifetime
      · rw [if_pos hl] at hpba
        simp only [Option.some.injEq, Prod.mk.injEq, Sent.mk.injEq] at hpba
        exact hne (hpba.2.2 ▸ rfl)
      · rw [if_neg hl] at hpba
        simp only [Option.some.injEq, Prod.mk.injEq, Sent.mk.injEq] at hpba
        exact hne (hpba.2.2 ▸ rfl)
    · have hfailed : failedCheck now pbu lma = none := by
        rw [failedCheck, hc]
        exact if_neg hp
      rw [hfailed]
      refine iff_of_true ?_ (by simp)
      intro errStatus he
      rw [hfailed] at he
      cases he

/-- The mobile node is registered. -/
def registeredEvents : List Event :=
  [.pbu Small.magA (Small.update 1 60 Small.hnp 2 (Time.seconds 10)), .advance (Time.seconds 11)]

/-- An update with the prefix of the mobile node and another one. -/
def twoPrefixes : Ipv6MobilityBindingUpdateHeader :=
  { Small.update 2 60 Small.hnp 2 (Time.seconds 11) with
    options := [.mobileNodeIdentifier 1 Small.mn, .homeNetworkPrefix Small.hnp 64,
      .homeNetworkPrefix (.ofOctets 0x3f 2) 64, .handoffIndicator optHiHandoffStateUnknown,
      .accessTechnologyType 4, .timestamp (Time.seconds 11)] }

/-- It is accepted, and creates a second entry. -/
theorem partial_match_accepted :
    ∃ out, machine.replay Small.anchor registeredEvents = some out ∧ machine.Run Small.anchor out.1 out.2 ∧
      failedCheck out.2.now twoPrefixes out.2.lma = some .bcePbuPrefixSetDoNotMatch ∧
      (∃ r pba, handlePbu out.2.now Small.magA twoPrefixes out.2.lma = some (r, some ⟨Small.magA, pba⟩) ∧
        pba.status = 0 ∧ out.2.lma.bCache.length = 1 ∧ r.bCache.length = 2) ∧
      ¬ RejectionReported out.2.now Small.magA twoPrefixes out.2.lma := by
  obtain ⟨out, hout, hrun, hfailed, hlen, hanswer⟩ := Machine.exists_replay Small.anchor registeredEvents
    (M := machine) (P := fun out =>
      failedCheck out.2.now twoPrefixes out.2.lma = some .bcePbuPrefixSetDoNotMatch ∧
      out.2.lma.bCache.length = 1 ∧
      (handlePbu out.2.now Small.magA twoPrefixes out.2.lma).map (fun r =>
        (r.1.bCache.length, r.2.map fun sent => (sent.dst, sent.pba.status))) =
        some (2, some (Small.magA, 0))) (by decide +kernel)
  obtain ⟨⟨r, sent⟩, hr, hvalues⟩ := Option.map_eq_some_iff.mp hanswer
  rw [Prod.mk.injEq, Option.map_eq_some_iff] at hvalues
  obtain ⟨htwo, ⟨dst, pba⟩, rfl, hsent⟩ := hvalues
  rw [Prod.mk.injEq] at hsent
  obtain ⟨rfl, hstatus⟩ := hsent
  refine ⟨out, hout, hrun, hfailed, ⟨r, pba, hr, hstatus, hlen, htwo⟩, ?_⟩
  intro hreported
  obtain ⟨pba', hpba', -, hne⟩ := hreported _ hfailed
  rw [hr] at hpba'
  simp only [Option.some.injEq, Prod.mk.injEq, Sent.mk.injEq, true_and] at hpba'
  exact hne (hpba'.2 ▸ hstatus)

/-! ### Answers -/

/-- An acknowledgement carries what the update carried: its sequence number, time stamp and mobile
node, and no lifetime if it had none. A gateway that recorded the update takes the
acknowledgement for one to it. -/
structure Answers (pbu : Ipv6MobilityBindingUpdateHeader) (pba : Ipv6MobilityBindingAckHeader) : Prop where
  sequence : pba.sequence = pbu.sequence
  timestamp : pba.bundle.timestamp = pbu.bundle.timestamp
  mnIdentifier : pba.bundle.mnIdentifier = pbu.bundle.mnIdentifier
  lifetime : pbu.lifetime = 0 → pba.lifetime = 0
  /-- The test of `HandlePba`. -/
  recorded : ∀ bule : BindingUpdateList.Entry, bule.Recorded pbu.sequence pbu.bundle.timestamp →
    bule.Recorded pba.sequence pba.bundle.timestamp

/-- An update that is answered at once is answered to its source, with what it carried. -/
def Acknowledged (now : ℤ) (src : Ipv6Address) (pbu : Ipv6MobilityBindingUpdateHeader) (lma : Lma) : Prop :=
  ∀ lma' sent, handlePbu now src pbu lma = some (lma', some sent) → sent.dst = src ∧ Answers pbu sent.pba

/-- The lifetime an acknowledgement has that is built from a binding. -/
def pbaLifetime (bce : Binding) : UInt16 := UInt16.ofNat (Time.getSeconds bce.reachableTime).toNat

/-- The entry already recorded what the update carries, with no lifetime. -/
def Echoes (pbu : Ipv6MobilityBindingUpdateHeader) (bce : Entry) : Prop :=
  bce.lastBindingUpdateSequence = pbu.sequence ∧
    Time.cutToMicroSeconds bce.lastBindingUpdateTime = pbu.bundle.timestamp ∧ pbaLifetime bce.toBinding = 0

/-- The entry an answer is built from that the update does not change. -/
def Path.unchanged : Path → Option Entry
  | deregister bce _ | foreign bce _ => some bce
  | rejected _ | update _ _ | skip | delay _ _ | handOff _ _ | create | unknown => none

theorem Answers.of_fields {pba : Ipv6MobilityBindingAckHeader} (hseq : pba.sequence = pbu.sequence)
    (htime : pba.bundle.timestamp = pbu.bundle.timestamp)
    (hid : pba.bundle.mnIdentifier = pbu.bundle.mnIdentifier) (hlife : pbu.lifetime = 0 → pba.lifetime = 0) :
    Answers pbu pba := by
  refine ⟨hseq, htime, hid, hlife, ?_⟩
  intro bule hbule
  rw [hseq, htime]
  exact hbule

/-- What is collected from an acknowledgement built from a binding. -/
theorem bundle_buildPba (bce : Binding) (status : BAStatus) :
    (buildPba bce status).bundle.timestamp = Time.cutToMicroSeconds bce.lastBindingUpdateTime ∧
      (buildPba bce status).bundle.mnIdentifier = bce.mnIdentifier := by
  rw [Ipv6MobilityBindingAckHeader.bundle, buildPba, processOptions_pbaOptions]
  exact ⟨rfl, rfl⟩

theorem answers_buildPbaFor (pbu : Ipv6MobilityBindingUpdateHeader) (status : BAStatus) :
    Answers pbu (buildPbaFor pbu pbu.bundle status) := by
  have hbundle : (buildPbaFor pbu pbu.bundle status).bundle = _ := processOptions_pbaOptions _ _ _ _ _ _ _
  refine Answers.of_fields rfl ?_ ?_ fun _ => rfl
  · rw [hbundle]
    exact cut_timestamp_processOptions pbu.options
  · rw [hbundle]

/-- An acknowledgement built from an entry that recorded the update answers it. -/
theorem answers_buildPba {b : Binding} (hseq : b.lastBindingUpdateSequence = pbu.sequence)
    (htime : b.lastBindingUpdateTime = pbu.bundle.timestamp)
    (hid : b.mnIdentifier = pbu.bundle.mnIdentifier) (hlife : 0 < pbu.lifetime) (status : BAStatus) :
    Answers pbu (buildPba b status) := by
  obtain ⟨ht, hm⟩ := bundle_buildPba b status
  refine Answers.of_fields hseq ?_ (hm.trans hid) ?_
  · rw [ht, htime]
    exact cut_timestamp_processOptions pbu.options
  · intro hzero
    rw [hzero] at hlife
    exact absurd hlife (by decide)

/-- An acknowledgement built from an entry that the update does not change answers it exactly if the
entry says the same already. -/
theorem answers_buildPba_iff {bce : Entry} (hid : bce.mnIdentifier = pbu.bundle.mnIdentifier)
    (hlife : pbu.lifetime = 0) (status : BAStatus) :
    Answers pbu (buildPba bce.toBinding status) ↔ Echoes pbu bce := by
  obtain ⟨ht, hm⟩ := bundle_buildPba bce.toBinding status
  constructor
  · intro h
    exact ⟨h.sequence, ht.symm.trans h.timestamp, h.lifetime hlife⟩
  · rintro ⟨hseq, htime, hzero⟩
    exact Answers.of_fields hseq (ht.trans htime) (hm.trans hid) fun _ => hzero

theorem forall_sent_iff {r : Lma} {sent : Sent} {Q : Sent → Prop} :
    (∀ lma' sent', some (r, some sent) = some (lma', some sent') → Q sent') ↔ Q sent := by
  constructor
  · intro h
    exact h r sent rfl
  · intro h lma' sent' he
    rw [Option.some.injEq, Prod.mk.injEq, Option.some.injEq] at he
    exact he.2 ▸ h

/-- What is answered at once carries what the update carried, exactly if an entry that the answer is
built from, and that the update does not change, says the same already. -/
theorem acknowledged_iff (now : ℤ) (src : Ipv6Address) (pbu : Ipv6MobilityBindingUpdateHeader) (lma : Lma) :
    Acknowledged now src pbu lma ↔ ∀ bce, (path now src pbu lma).unchanged = some bce → Echoes pbu bce := by
  have hid : ∀ bce p, (path now src pbu lma).entry = some (bce, p) →
      bce.mnIdentifier = pbu.bundle.mnIdentifier := fun bce p h => (getElem?_of_path h).2
  have hnone : ∀ way : Path, way.unchanged = none → ∀ bce, way.unchanged = some bce → Echoes pbu bce := by
    intro way hway bce hbce
    rw [hway] at hbce
    cases hbce
  unfold Acknowledged
  rw [handlePbu_eq]
  cases hpath : path now src pbu lma with
  | rejected errStatus =>
    exact iff_of_true (forall_sent_iff.mpr ⟨rfl, answers_buildPbaFor pbu errStatus⟩) (hnone _ rfl)
  | unknown =>
    exact iff_of_true (forall_sent_iff.mpr ⟨rfl, answers_buildPbaFor pbu .bindingUpdateAccepted⟩) (hnone _ rfl)
  | skip | delay bce p =>
    refine iff_of_true ?_ (hnone _ rfl)
    intro lma' sent hsent
    simp at hsent
  | update bce p =>
    refine iff_of_true (forall_sent_iff.mpr ⟨rfl, ?_⟩) (hnone _ rfl)
    have hbce := hid bce p (by rw [hpath]; rfl)
    exact answers_buildPba (b := (updated now src pbu bce).toBinding) rfl rfl hbce
      (lifetime_of_path hpath) .bindingUpdateAccepted
  | create =>
    refine iff_of_true (forall_sent_iff.mpr ⟨rfl, ?_⟩) (hnone _ rfl)
    have hlife : 0 < pbu.lifetime := lifetime_of_path hpath
    exact answers_buildPba rfl rfl rfl hlife _
  | handOff bce p =>
    refine iff_of_true ?_ (hnone _ rfl)
    intro lma' sent hsent
    obtain ⟨r, -, hr⟩ := Option.map_eq_some_iff.mp hsent
    rw [Prod.mk.injEq, Option.some.injEq] at hr
    obtain ⟨-, rfl⟩ := hr
    have hbce := hid bce p (by rw [hpath]; rfl)
    refine ⟨rfl, answers_buildPba ?_ ?_ ?_ (lifetime_of_path hpath) _⟩
    · rfl
    · rfl
    · exact hbce
  | deregister bce p =>
    rw [forall_sent_iff, answers_buildPba_iff (hid bce p (by rw [hpath]; rfl))
      (lifetime_of_path hpath)]
    simp [Path.unchanged]
  | foreign bce p =>
    rw [forall_sent_iff, answers_buildPba_iff (hid bce p (by rw [hpath]; rfl))
      (lifetime_of_path hpath)]
    simp [Path.unchanged]

/-- The gateway of the mobile node deregisters it. -/
def farewell : Ipv6MobilityBindingUpdateHeader := Small.update 2 0 Small.hnp 2 (Time.seconds 11)

/-- The answer is the one to the registration: its sequence number, and its lifetime. -/
theorem deregistration_misanswered :
    ∃ out, machine.replay Small.anchor registeredEvents = some out ∧ machine.Run Small.anchor out.1 out.2 ∧
      (∃ r pba, handlePbu out.2.now Small.magA farewell out.2.lma = some (r, some ⟨Small.magA, pba⟩) ∧
        pba.sequence = 1 ∧ pba.lifetime = 60) ∧
      ¬ Acknowledged out.2.now Small.magA farewell out.2.lma := by
  obtain ⟨out, hout, hrun, hanswer⟩ := Machine.exists_replay Small.anchor registeredEvents
    (M := machine) (P := fun out =>
      (handlePbu out.2.now Small.magA farewell out.2.lma).map (fun r =>
        r.2.map fun sent => (sent.dst, sent.pba.sequence, sent.pba.lifetime)) =
        some (some (Small.magA, 1, 60))) (by decide +kernel)
  obtain ⟨⟨r, sent⟩, hr, hvalues⟩ := Option.map_eq_some_iff.mp hanswer
  obtain ⟨⟨dst, pba⟩, rfl, hsent⟩ := Option.map_eq_some_iff.mp hvalues
  rw [Prod.mk.injEq, Prod.mk.injEq] at hsent
  obtain ⟨rfl, hseq, hlife⟩ := hsent
  refine ⟨out, hout, hrun, ⟨r, pba, hr, hseq, hlife⟩, ?_⟩
  intro hack
  have hanswers := (hack r ⟨Small.magA, pba⟩ hr).2.sequence
  rw [hseq] at hanswers
  exact absurd hanswers (by decide)

/-! ### The gateway -/

/-- What a receiver collects from an update is the time stamp of the entry it was built for. -/
theorem timestamp_buildPbu (bule : BindingUpdateList.Entry) :
    (Mag.buildPbu bule).bundle.timestamp = Time.cutToMicroSeconds bule.lastBindingUpdateTime := by
  rw [Ipv6MobilityBindingUpdateHeader.bundle, Mag.buildPbu, processOptions_append]
  rfl

/-- A gateway that sends an update for an attachment takes what answers it for an acknowledgement of
it. -/
theorem recorded_of_answers {pba : Ipv6MobilityBindingAckHeader} {ifIndex : ℕ} {sequence : UInt16}
    {bule : BindingUpdateList.Entry} (h : Answers (Mag.attachPbu now ifIndex sequence bule) pba) :
    (Mag.update now ifIndex sequence bule).Recorded pba.sequence pba.bundle.timestamp := by
  apply h.recorded
  rw [Mag.update_eq]
  refine ⟨rfl, ?_⟩
  rw [Mag.attachPbu, timestamp_buildPbu]
  exact (Time.cutToMicroSeconds_cutToMicroSeconds now).symm

end Lma

end Ns3.Pmip6
