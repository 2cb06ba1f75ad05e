import Ns3.Wifi.BlockAckManager
import Mathlib.Data.List.Chain

/-!
# The scans of the retry list

`GetNRetryNeededPackets` and `GetSeqNumOfNextRetryPacket` go over `m_retryPackets`, the packets of all recipients and
TIDs. Neither advances its iterator at a packet of another recipient or TID.

* `retryRounds`, `nextRetryRounds` — the loops, for a number of rounds.
* `runs`, `firstRetry` — what they should return.
* `scansRight_iff` — they end with that exactly if the list is empty, or begins with a packet of the recipient and TID
  and has others only behind these, under one sequence number (`Grouped`).
-/

namespace Ns3

namespace BlockAckManager

/-- The loop of `GetNRetryNeededPackets` from an iterator on, for a number of rounds. The inner loop goes over the
packets with one sequence number. -/
def retryRounds (key : AgreementKey) : ℕ → List Item → ℕ → Option ℕ
  | 0, _, _ => none
  | _ + 1, [], nPackets => some nPackets
  | rounds + 1, i :: it, nPackets =>
    if i.key = key then
      retryRounds key rounds ((i :: it).dropWhile fun j => j.hdr.sequenceNumber = i.hdr.sequenceNumber) (nPackets + 1)
    else retryRounds key rounds (i :: it) nPackets

/-- The loop of `GetSeqNumOfNextRetryPacket`, for a number of rounds. -/
def nextRetryRounds (key : AgreementKey) : ℕ → List Item → Option ℕ
  | 0, _ => none
  | _ + 1, [] => some 4096
  | rounds + 1, i :: it =>
    if i.key = key then some i.hdr.sequenceNumber else nextRetryRounds key rounds (i :: it)

/-- `GetNRetryNeededPackets` ends and returns the number. -/
def CountEnds (m : BlockAckManager) (key : AgreementKey) (retry : List Item) (n : ℕ) : Prop :=
  if (m.agreements.lookup key).isSome then ∃ rounds, retryRounds key rounds retry 0 = some n else n = 0

/-- Behind a packet: the runs of packets of the recipient and TID with one sequence number. A run begins with a packet
that does not follow another of the same. -/
def runsBehind (key : AgreementKey) (before : Item) : List Item → ℕ
  | [] => 0
  | i :: l =>
    if i.key = key ∧ ¬ (before.key = key ∧ before.hdr.sequenceNumber = i.hdr.sequenceNumber) then
      runsBehind key i l + 1
    else runsBehind key i l

/-- The maximal runs of packets of the recipient and TID with one sequence number. -/
def runs (key : AgreementKey) : List Item → ℕ
  | [] => 0
  | i :: l => if i.key = key then runsBehind key i l + 1 else runsBehind key i l

/-- The sequence number of the first packet of the recipient and TID, or 4096. -/
def firstRetry (key : AgreementKey) (retry : List Item) : ℕ :=
  ((retry.find? fun i => i.key = key).map fun i => i.hdr.sequenceNumber).getD 4096

/-- Both scans end with what they should return. -/
structure ScansRight (m : BlockAckManager) (key : AgreementKey) (retry : List Item) : Prop where
  count : m.CountEnds key retry (runs key retry)
  next : ∃ rounds, nextRetryRounds key rounds retry = some (firstRetry key retry)

/-- What may follow a packet: one of the recipient and TID, if it does not go on with a sequence number that others have
had in between; another one only with the same sequence number. -/
def Follows (key : AgreementKey) (a b : Item) : Prop :=
  if b.key = key then a.key = key ∨ a.hdr.sequenceNumber ≠ b.hdr.sequenceNumber
  else a.hdr.sequenceNumber = b.hdr.sequenceNumber

/-- The list begins with a packet of the recipient and TID, and packets of others stand behind these only, with the same
sequence number. -/
def Grouped (key : AgreementKey) (retry : List Item) : Prop :=
  (∀ i ∈ retry.head?, i.key = key) ∧ retry.IsChain (Follows key)

variable {m : BlockAckManager} {key : AgreementKey}

/-! ### The loops -/

theorem countRetry_dropWhile (seq : ℕ) (l : List Item) :
    countRetry key (some seq) l =
      countRetry key none (l.dropWhile fun j => j.hdr.sequenceNumber = seq) := by
  induction l with
  | nil => rfl
  | cons i l ih =>
    by_cases hseq : i.hdr.sequenceNumber = seq
    · rw [List.dropWhile_cons, if_pos (decide_eq_true hseq), countRetry, if_pos (congrArg some hseq.symm), ih]
    · have hnone : (none : Option ℕ) ≠ some i.hdr.sequenceNumber := Option.some_ne_none _ |>.symm
      rw [List.dropWhile_cons, if_neg (show ¬ decide (i.hdr.sequenceNumber = seq) = true by simpa using hseq),
        countRetry, countRetry, if_neg fun heq => hseq (Option.some.inj heq).symm, if_neg hnone]

/-- The loop ends exactly if `countRetry` counts. -/
theorem retryRounds_iff (l : List Item) (nPackets k : ℕ) :
    (∃ rounds, retryRounds key rounds l nPackets = some k) ↔
      ∃ n, countRetry key none l = .ok n ∧ k = nPackets + n := by
  induction hlength : l.length using Nat.strong_induction_on generalizing l nPackets with
  | _ length ih =>
    cases l with
    | nil =>
      constructor
      · rintro ⟨rounds, hrounds⟩
        cases rounds with
        | zero => exact absurd hrounds (by simp [retryRounds])
        | succ rounds => exact ⟨0, rfl, (Option.some.inj hrounds).symm⟩
      · rintro ⟨n, hn, rfl⟩
        exact ⟨1, congrArg (fun n => some (nPackets + n)) (Except.ok.inj hn)⟩
    | cons i l =>
      rw [countRetry, if_neg (Option.some_ne_none _ ·.symm)]
      by_cases hkey : i.key = key
      · rw [if_pos hkey, countRetry_dropWhile]
        have hdrop : (i :: l).dropWhile (fun j => j.hdr.sequenceNumber = i.hdr.sequenceNumber) =
            l.dropWhile fun j => j.hdr.sequenceNumber = i.hdr.sequenceNumber := by
          rw [List.dropWhile_cons, if_pos (decide_eq_true rfl)]
        have hshorter : (l.dropWhile fun j => j.hdr.sequenceNumber = i.hdr.sequenceNumber).length < length := by
          rw [← hlength, List.length_cons]
          exact Nat.lt_succ_of_le (List.dropWhile_sublist _).length_le
        have hrest := ih _ hshorter (l.dropWhile fun j => j.hdr.sequenceNumber = i.hdr.sequenceNumber)
          (nPackets + 1) rfl
        have hround : (∃ rounds, retryRounds key rounds (i :: l) nPackets = some k) ↔
            ∃ rounds, retryRounds key rounds (l.dropWhile fun j => j.hdr.sequenceNumber = i.hdr.sequenceNumber)
              (nPackets + 1) = some k := by
          constructor
          · rintro ⟨rounds, hrounds⟩
            cases rounds with
            | zero => exact absurd hrounds (by simp [retryRounds])
            | succ rounds =>
              rw [retryRounds, if_pos hkey, hdrop] at hrounds
              exact ⟨rounds, hrounds⟩
          · rintro ⟨rounds, hrounds⟩
            refine ⟨rounds + 1, ?_⟩
            rw [retryRounds, if_pos hkey, hdrop]
            exact hrounds
        rw [hround, hrest]
        cases countRetry key none (l.dropWhile fun j => j.hdr.sequenceNumber = i.hdr.sequenceNumber) with
        | error f => exact iff_of_false (by simp) (by simp [Functor.map, Except.map])
        | ok n =>
          constructor
          · rintro ⟨n', hn', hk⟩
            have hsame : n = n' := Except.ok.inj hn'
            exact ⟨n + 1, rfl, by omega⟩
          · rintro ⟨n', hn', hk⟩
            have hsucc : n + 1 = n' := Except.ok.inj hn'
            exact ⟨n, rfl, by omega⟩
      · rw [if_neg hkey]
        refine iff_of_false ?_ fun h => ?_
        · rintro ⟨rounds, hrounds⟩
          induction rounds with
          | zero => exact absurd hrounds (by simp [retryRounds])
          | succ rounds ih' =>
            rw [retryRounds, if_neg hkey] at hrounds
            exact ih' hrounds
        · obtain ⟨n, hn, -⟩ := h
          exact absurd hn (by simp)

/-- The scan for the next packet ends exactly if there is none, or the first one is of the recipient and TID. -/
theorem nextRetryRounds_iff (retry : List Item) :
    (∃ rounds, nextRetryRounds key rounds retry = some (firstRetry key retry)) ↔ ∀ i ∈ retry.head?, i.key = key := by
  cases retry with
  | nil => exact iff_of_true ⟨1, rfl⟩ fun i hi => absurd hi (by simp)
  | cons i l =>
    rw [List.head?_cons, show (∀ j ∈ some i, j.key = key) ↔ i.key = key by simp]
    constructor
    · rintro ⟨rounds, hrounds⟩
      by_contra hkey
      induction rounds with
      | zero => exact absurd hrounds (by simp [nextRetryRounds])
      | succ rounds ih =>
        rw [nextRetryRounds, if_neg hkey] at hrounds
        exact ih hrounds
    · intro hkey
      refine ⟨1, ?_⟩
      rw [nextRetryRounds, if_pos hkey, firstRetry, List.find?_cons_of_pos (by simpa using hkey)]
      rfl

/-! ### The count -/

/-- Behind a packet there are as many runs as are counted, or more. -/
theorem countRetry_le {before : Item} {l : List Item} {n : ℕ}
    (h : countRetry key (some before.hdr.sequenceNumber) l = .ok n) : n ≤ runsBehind key before l := by
  induction l generalizing before n with
  | nil => exact Nat.le_of_eq (Except.ok.inj h).symm
  | cons i l ih =>
    rw [countRetry] at h
    rw [runsBehind]
    by_cases hseq : before.hdr.sequenceNumber = i.hdr.sequenceNumber
    · rw [if_pos (congrArg some hseq), hseq] at h
      have hle := ih h
      split_ifs <;> omega
    · rw [if_neg fun heq => hseq (Option.some.inj heq)] at h
      by_cases hkey : i.key = key
      · rw [if_pos hkey] at h
        rw [if_pos ⟨hkey, fun hboth => hseq hboth.2⟩]
        cases hrest : countRetry key (some i.hdr.sequenceNumber) l with
        | error f =>
          rw [hrest] at h
          exact absurd h (by simp [Functor.map, Except.map])
        | ok n' =>
          rw [hrest] at h
          obtain rfl := Except.ok.inj h
          exact Nat.succ_le_succ (ih hrest)
      · rw [if_neg hkey] at h
        exact absurd h (by simp)

/-- They are as many exactly if each packet may follow the one before it. -/
theorem countRetry_eq_iff {before : Item} {l : List Item} :
    countRetry key (some before.hdr.sequenceNumber) l = .ok (runsBehind key before l) ↔
      (before :: l).IsChain (Follows key) := by
  induction l generalizing before with
  | nil => exact iff_of_true rfl (.singleton before)
  | cons i l ih =>
    rw [List.isChain_cons_cons, countRetry, runsBehind, Follows]
    by_cases hseq : before.hdr.sequenceNumber = i.hdr.sequenceNumber
    · rw [if_pos (congrArg some hseq), hseq]
      by_cases hkey : i.key = key
      · by_cases hbefore : before.key = key
        · rw [if_neg fun hboth => hboth.2 ⟨hbefore, rfl⟩, if_pos hkey, ih]
          exact (and_iff_right (.inl hbefore)).symm
        · rw [if_pos ⟨hkey, fun hboth => hbefore hboth.1⟩, if_pos hkey]
          refine iff_of_false (fun heq => ?_) fun h => h.1.elim hbefore fun hne => hne rfl
          exact absurd (countRetry_le heq) (Nat.not_succ_le_self _)
      · rw [if_neg fun hboth => hkey hboth.1, if_neg hkey, ih]
        exact (and_iff_right rfl).symm
    · rw [if_neg fun heq => hseq (Option.some.inj heq)]
      by_cases hkey : i.key = key
      · rw [if_pos hkey, if_pos ⟨hkey, fun hboth => hseq hboth.2⟩, if_pos hkey, ← ih, and_iff_right (.inr hseq)]
        cases countRetry key (some i.hdr.sequenceNumber) l with
        | error f => simp [Functor.map, Except.map]
        | ok n => simp [Functor.map, Except.map]
      · rw [if_neg hkey, if_neg hkey]
        exact iff_of_false (by simp) fun h => hseq h.1

theorem countRetry_runs_iff {retry : List Item} :
    countRetry key none retry = .ok (runs key retry) ↔ Grouped key retry := by
  cases retry with
  | nil => exact iff_of_true rfl ⟨fun i hi => absurd hi (by simp), .nil⟩
  | cons i l =>
    rw [countRetry, if_neg (Option.some_ne_none _ ·.symm), runs, Grouped, List.head?_cons,
      show (∀ j ∈ some i, j.key = key) ↔ i.key = key by simp]
    by_cases hkey : i.key = key
    · rw [if_pos hkey, if_pos hkey, ← countRetry_eq_iff, and_iff_right hkey]
      cases countRetry key (some i.hdr.sequenceNumber) l with
      | error f => simp [Functor.map, Except.map]
      | ok n => simp [Functor.map, Except.map]
    · rw [if_neg hkey, if_neg hkey]
      exact iff_of_false (by simp) fun h => hkey h.1

/-- The scans are right exactly if the list is empty, or the agreement exists and the packets are grouped. -/
theorem scansRight_iff (m : BlockAckManager) (key : AgreementKey) (retry : List Item) :
    m.ScansRight key retry ↔ retry = [] ∨ (m.agreements.lookup key).isSome ∧ Grouped key retry := by
  have hcount : (∃ rounds, retryRounds key rounds retry 0 = some (runs key retry)) ↔ Grouped key retry := by
    rw [retryRounds_iff, ← countRetry_runs_iff]
    simp
  constructor
  · rintro ⟨hends, hnext⟩
    rw [nextRetryRounds_iff] at hnext
    rw [CountEnds] at hends
    by_cases hexists : (m.agreements.lookup key).isSome = true
    · rw [if_pos hexists] at hends
      exact .inr ⟨hexists, hcount.mp hends⟩
    · rw [if_neg hexists] at hends
      refine .inl ?_
      cases retry with
      | nil => rfl
      | cons i l =>
        rw [runs, if_pos (hnext i rfl)] at hends
        exact absurd hends (Nat.succ_ne_zero _)
  · rintro (rfl | ⟨hexists, hgrouped⟩)
    · refine ⟨?_, 1, rfl⟩
      rw [CountEnds]
      split_ifs
      · exact ⟨1, rfl⟩
      · rfl
    · refine ⟨?_, nextRetryRounds_iff retry |>.mpr hgrouped.1⟩
      rw [CountEnds, if_pos hexists]
      exact hcount.mpr hgrouped

/-- There are agreements with two recipients. The packet of one has to be sent again, and the list is asked for those of
the other. -/
theorem not_scansRight_another :
    ¬ ∀ (m : BlockAckManager) (key : AgreementKey) (retry : List Item), m.ScansRight key retry := by
  intro h
  have hright := h
    (((BlockAckManager.new 0 .basicBlockAck 0).createAgreement ⟨0, 0, 0, 0, false, true⟩ (.ofOctet 1)).createAgreement
      ⟨0, 0, 0, 0, false, true⟩ (.ofOctet 2))
    (.ofOctet 1, 0) [⟨0, [], ⟨.ofOctet 2, 0, 5, 0, true, .blockAck⟩, 0⟩]
  have hhead := nextRetryRounds_iff _ |>.mp hright.next
  exact absurd (hhead _ rfl) (by decide)

end BlockAckManager

end Ns3
