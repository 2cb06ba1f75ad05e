import Ns3.Pmip6.LmaAnswers

/-!
# The retransmissions of an update

A gateway keeps the packet of the last update of an entry and sends it again each time the
retransmission timer of the entry runs out, `MAX_BINDING_UPDATE_RETRY_COUNT` times at most. The
packet, the count, the sequence number and the timer are set where an update is made, for an
attachment or a refresh, and the packet goes and the timer stops where it is acknowledged.

The sequence number has 16 bits and counts on through zero, so that a gateway that makes more updates
than there are numbers uses each number again. `Transmissions` numbers the updates without end: the
update with number `n` of a gateway that started with the sequence number `q` has the sequence number `q + n`.

## What is proved

* `Disciplined` — the invariant: an entry that waits has the packet of its last update, which was sent
  once more than the entry has tried again.
* `retransmission_discipline` — in every run of a gateway that starts without entries, an entry
  whose timer is pending has the packet with its last sequence number and time stamp, every update is sent at
  most `1 + MAX_BINDING_UPDATE_RETRY_COUNT` times, and so is what has any one sequence number as long as the
  numbers have not been used up.
* `sequence_used_again` — a run with 65537 updates in which a sequence number is sent more often.
-/

namespace Ns3.Pmip6

open BindingUpdateList (Entry RefreshDelay)
open Lib Ipv6MobilityL4Protocol

namespace Mag

/-! ### What is sent -/

/-- The updates a gateway has made and the times they were sent. -/
structure Transmissions where
  /-- How many updates were made. -/
  updates : ℕ
  /-- The number of the last update made for a mobile node, from 1 on. -/
  last : Identifier → ℕ
  /-- What was sent, with the number of the update, oldest first. -/
  sent : List (ℕ × Ipv6MobilityBindingUpdateHeader)

namespace Transmissions

/-- Nothing was sent yet. -/
def start : Transmissions := ⟨0, fun _ => 0, []⟩

variable (mnId : Identifier)

/-- An update is made for `mnId`, and sent. -/
def make (pbu : Ipv6MobilityBindingUpdateHeader) (g : Transmissions) : Transmissions :=
  { updates := g.updates + 1
    last := fun i => if i = mnId then g.updates + 1 else g.last i
    sent := g.sent ++ [(g.updates + 1, pbu)] }

/-- The last update of `mnId` is sent again. -/
def again (pbu : Ipv6MobilityBindingUpdateHeader) (g : Transmissions) : Transmissions :=
  { g with sent := g.sent ++ [(g.last mnId, pbu)] }

/-- What a step adds. -/
def record (s : Timed) (e : Event) (g : Transmissions) : Transmissions :=
  match e with
  | .newNode sender att link =>
    match s.mag.profile.lookup (.ofMac48Address sender), (handleNewNode s.now sender att link s.mag).2 with
    | some pf, some message => g.make pf.mnIdentifier message.pbu
    | _, _ => g
  | .refreshTimeout mnId =>
    match functionRefreshTimeout s.now mnId s.mag with
    | some (_, message) => g.make mnId message.pbu
    | none => g
  | .retransTimeout mnId =>
    match functionRetransTimeout s.now mnId s.mag with
    | some (_, some message) => g.again mnId message.pbu
    | _ => g
  | .advance _ | .setProfile _ | .otherRadvdInterface | .pba _ | .reachableTimeout _ => g

/-- How often the update with a number was sent. -/
def ofUpdate (g : Transmissions) (n : ℕ) : ℕ := g.sent.countP (·.1 = n)

/-- How often an update with a sequence number was sent. -/
def ofSequence (g : Transmissions) (q : UInt16) : ℕ := g.sent.countP (·.2.sequence = q)

theorem ofUpdate_make (pbu : Ipv6MobilityBindingUpdateHeader) (g : Transmissions) (n : ℕ) :
    (g.make mnId pbu).ofUpdate n = g.ofUpdate n + if g.updates + 1 = n then 1 else 0 := by
  simp [ofUpdate, make, List.countP_singleton]

theorem ofUpdate_again (pbu : Ipv6MobilityBindingUpdateHeader) (g : Transmissions) (n : ℕ) :
    (g.again mnId pbu).ofUpdate n = g.ofUpdate n + if g.last mnId = n then 1 else 0 := by
  simp [ofUpdate, again, List.countP_singleton]

end Transmissions

/-! ### The invariant -/

/-- The packet of an entry is its last update. -/
def HasLastUpdate (bule : Entry) : Prop :=
  ∃ pbu, bule.pktPbu = some pbu ∧ pbu.sequence = bule.lastBindingUpdateSequence ∧
    pbu.bundle.timestamp = bule.lastBindingUpdateTime

/-- What an entry whose retransmission timer is pending has, when its last update is the one with number `n`. -/
structure Waiting (first : UInt16) (g : Transmissions) (n : ℕ) (bule : Entry) : Prop where
  made : 0 < n
  packet : HasLastUpdate bule
  /-- Its sequence number is that of the update. -/
  sequence : bule.lastBindingUpdateSequence = first + UInt16.ofNat n
  retries : bule.retryCount ≤ maxBindingUpdateRetryCount
  /-- The update was sent once, and once more for each retry. -/
  sent : g.ofUpdate n ≤ 1 + bule.retryCount.toNat

/-- The packets, counts, numbers and timers of the gateway are in step with what it sent. -/
structure Disciplined (first : UInt16) (mag : Mag) (g : Transmissions) : Prop where
  /-- The sequence number of the gateway. -/
  sequence : mag.sequence = first + UInt16.ofNat g.updates
  /-- The last updates are among those made. -/
  last_le : ∀ i, g.last i ≤ g.updates
  /-- An update is for one mobile node. -/
  last_inj : ∀ i j, 0 < g.last i → g.last i = g.last j → i = j
  waiting : ∀ mnId bule, mag.buList.lookup mnId = some bule → bule.retransTimer.isSome →
    Waiting first g (g.last mnId) bule
  /-- What was sent are updates that were made. -/
  numbered : ∀ x ∈ g.sent, x.1 ≤ g.updates ∧ x.2.sequence = first + UInt16.ofNat x.1
  bounded : ∀ n, g.ofUpdate n ≤ 1 + maxBindingUpdateRetryCount.toNat

variable {refresh : RefreshDelay} {now : ℤ} {first : UInt16} {mag mag' : Mag} {g : Transmissions}
  {mnId : Identifier} {bule bule' : Entry} {pbu : Ipv6MobilityBindingUpdateHeader}

/-- An entry that waits for an acknowledgement and one with the same packet, number, time stamp and count. -/
def SameUpdate (bule bule' : Entry) : Prop :=
  bule'.retransTimer = bule.retransTimer ∧ bule'.pktPbu = bule.pktPbu ∧
    bule'.lastBindingUpdateSequence = bule.lastBindingUpdateSequence ∧
    bule'.lastBindingUpdateTime = bule.lastBindingUpdateTime ∧ bule'.retryCount = bule.retryCount

theorem Waiting.congr {n : ℕ} (h : Waiting first g n bule) (hsame : SameUpdate bule bule') :
    Waiting first g n bule' := by
  obtain ⟨-, hpkt, hseq, htime, hcount⟩ := hsame
  obtain ⟨pbu, hget, hs, ht⟩ := h.packet
  constructor
  · exact h.made
  · exact ⟨pbu, hpkt.trans hget, hs.trans hseq.symm, ht.trans htime.symm⟩
  · exact hseq.trans h.sequence
  · rw [hcount]
    exact h.retries
  · rw [hcount]
    exact h.sent

section

variable (h : Disciplined first mag g)
include h

/-- A step that sends nothing keeps the discipline, when what waits after it waited before it. -/
theorem Disciplined.quiet (hseq : mag'.sequence = mag.sequence)
    (hlist : ∀ mnId bule', mag'.buList.lookup mnId = some bule' → bule'.retransTimer.isSome →
      ∃ bule, mag.buList.lookup mnId = some bule ∧ SameUpdate bule bule') : Disciplined first mag' g := by
  refine { h with sequence := hseq.trans h.sequence, waiting := fun mnId bule' hget hpend => ?_ }
  obtain ⟨bule, hbule, hsame⟩ := hlist mnId bule' hget hpend
  refine (h.waiting mnId bule hbule ?_).congr hsame
  rw [← hsame.1]
  exact hpend

theorem Disciplined.quiet_insert (hseq : mag'.sequence = mag.sequence)
    (hlist : mag'.buList = mag.buList.insert mnId bule')
    (hentry : bule'.retransTimer.isSome → ∃ bule, mag.buList.lookup mnId = some bule ∧ SameUpdate bule bule') :
    Disciplined first mag' g := by
  apply h.quiet hseq
  intro i x hget hpend
  rw [hlist] at hget
  rcases Store.lookup_insert_some hget with ⟨rfl, rfl⟩ | ⟨-, hx⟩
  · exact hentry hpend
  · exact ⟨x, hx, rfl, rfl, rfl, rfl, rfl⟩

/-- A step that makes an update and sends it keeps the discipline. -/
theorem Disciplined.make (hseq : mag'.sequence = mag.sequence + 1)
    (hlist : mag'.buList = mag.buList.insert mnId bule') (hcount : bule'.retryCount = 0)
    (hpkt : HasLastUpdate bule') (hlast : bule'.lastBindingUpdateSequence = mag.sequence + 1)
    (hpbu : pbu.sequence = mag.sequence + 1) : Disciplined first mag' (g.make mnId pbu) := by
  have hnext : mag.sequence + 1 = first + UInt16.ofNat (g.updates + 1) := by
    rw [h.sequence, UInt16.ofNat_add]
    exact UInt16.add_assoc _ _ _
  -- the new number was not used before, so nothing was sent under it
  have hfresh : g.ofUpdate (g.updates + 1) = 0 := by
    apply List.countP_eq_zero.mpr
    intro x hx heq
    have hle := (h.numbered x hx).1
    have hn : x.1 = g.updates + 1 := of_decide_eq_true heq
    omega
  have hlastOf : ∀ i, (g.make mnId pbu).last i = if i = mnId then g.updates + 1 else g.last i := fun _ => rfl
  constructor
  · exact (hseq.trans hnext)
  · intro i
    rw [hlastOf]
    have hle := h.last_le i
    show _ ≤ g.updates + 1
    split <;> omega
  · intro i j hpos heq
    rw [hlastOf, hlastOf] at heq
    rw [hlastOf] at hpos
    have hi := h.last_le i
    have hj := h.last_le j
    by_cases hin : i = mnId <;> by_cases hjn : j = mnId
    · rw [hin, hjn]
    · rw [if_pos hin, if_neg hjn] at heq
      omega
    · rw [if_neg hin, if_pos hjn] at heq
      omega
    · rw [if_neg hin, if_neg hjn] at heq
      rw [if_neg hin] at hpos
      exact h.last_inj i j hpos heq
  · intro i x hget hpend
    rw [hlist] at hget
    rcases Store.lookup_insert_some hget with ⟨rfl, rfl⟩ | ⟨hne, hx⟩
    · have hi : (g.make i pbu).last i = g.updates + 1 := if_pos rfl
      rw [hi]
      refine ⟨Nat.succ_pos _, hpkt, hlast.trans hnext, ?_, ?_⟩
      · rw [hcount]
        decide
      · rw [Transmissions.ofUpdate_make, hfresh, if_pos rfl]
        omega
    · have hi : (g.make mnId pbu).last i = g.last i := if_neg hne
      have hw := h.waiting i x hx hpend
      have hle := h.last_le i
      rw [hi]
      refine { hw with sent := ?_ }
      rw [Transmissions.ofUpdate_make, if_neg (by omega)]
      exact hw.sent
  · intro x hx
    rcases List.mem_append.mp hx with hx | hx
    · obtain ⟨hle, hs⟩ := h.numbered x hx
      exact ⟨Nat.le_succ_of_le hle, hs⟩
    · rw [List.mem_singleton.mp hx]
      exact ⟨Nat.le_refl _, hpbu.trans hnext⟩
  · intro n
    rw [Transmissions.ofUpdate_make]
    split
    · rename_i heq
      rw [← heq, hfresh]
      omega
    · exact h.bounded n

/-- A step that sends the last update of an entry again keeps the discipline. -/
theorem Disciplined.again (hget : mag.buList.lookup mnId = some bule)
    (hpend : bule.retransTimer.isSome) (hpkt : bule.pktPbu = some pbu)
    (hmore : ¬ maxBindingUpdateRetryCount < bule.retryCount + 1) (t : Timer) :
    Disciplined first
      (mag.setEntry mnId { bule with retransTimer := t, retryCount := bule.retryCount + 1 })
      (g.again mnId pbu) := by
  have hw := h.waiting mnId bule hget hpend
  obtain ⟨pbu', hpbu', hs, ht⟩ := hw.packet
  obtain rfl : pbu = pbu' := Option.some.inj (hpkt.symm.trans hpbu')
  have hmax : maxBindingUpdateRetryCount.toNat = 3 := rfl
  have hle : bule.retryCount.toNat ≤ 3 := UInt8.le_iff_toNat_le.mp hw.retries
  have hcount : (bule.retryCount + 1).toNat = bule.retryCount.toNat + 1 := by
    rw [UInt8.toNat_add]
    have hone : (1 : UInt8).toNat = 1 := rfl
    omega
  have hnext : bule.retryCount.toNat + 1 ≤ 3 := by
    rw [UInt8.lt_iff_toNat_lt, hcount] at hmore
    omega
  constructor
  · exact h.sequence
  · exact h.last_le
  · exact h.last_inj
  · intro i x hx hxp
    rcases Store.lookup_insert_some hx with ⟨rfl, rfl⟩ | ⟨hne, hx⟩
    · refine ⟨hw.made, ⟨pbu, hpkt, hs, ht⟩, hw.sequence, UInt8.not_lt.mp hmore, ?_⟩
      show (g.again i pbu).ofUpdate (g.last i) ≤ 1 + (bule.retryCount + 1).toNat
      rw [Transmissions.ofUpdate_again, if_pos rfl, hcount]
      have hsent := hw.sent
      omega
    · have hwx := h.waiting i x hx hxp
      refine { hwx with sent := ?_ }
      show (g.again mnId pbu).ofUpdate (g.last i) ≤ _
      -- the update of another mobile node has another number
      rw [Transmissions.ofUpdate_again, if_neg fun heq => hne (h.last_inj mnId i hw.made heq).symm]
      exact hwx.sent
  · intro x hx
    rcases List.mem_append.mp hx with hx | hx
    · exact h.numbered x hx
    · rw [List.mem_singleton.mp hx]
      exact ⟨h.last_le mnId, hs.trans hw.sequence⟩
  · intro n
    rw [Transmissions.ofUpdate_again]
    split
    · rename_i heq
      have hsent := hw.sent
      rw [heq] at hsent
      omega
    · exact h.bounded n

end

/-! ### The steps -/

theorem hasLastUpdate_of_buildPbu (hpkt : bule.pktPbu = some (buildPbu bule'))
    (hseq : bule.lastBindingUpdateSequence = bule'.lastBindingUpdateSequence)
    (htime : bule.lastBindingUpdateTime = Time.cutToMicroSeconds now)
    (htime' : bule'.lastBindingUpdateTime = Time.cutToMicroSeconds now) : HasLastUpdate bule := by
  refine ⟨_, hpkt, hseq.symm, ?_⟩
  rw [Lma.timestamp_buildPbu, htime', htime, Time.cutToMicroSeconds_cutToMicroSeconds]

theorem Disciplined.retransTimeout {s : Timed} {r : Mag × Option Sent} (h : Disciplined first s.mag g)
    (hdue : (s.mag.buList.lookup mnId).bind (·.retransTimer) = some s.now)
    (hr : functionRetransTimeout s.now mnId s.mag = some r) :
    Disciplined first r.1 (Transmissions.record s (.retransTimeout mnId) g) := by
  obtain ⟨bule, hget, htimer⟩ := Option.bind_eq_some_iff.mp hdue
  have hpend : bule.retransTimer.isSome := by
    rw [htimer]
    rfl
  simp only [Transmissions.record, hr]
  simp only [functionRetransTimeout, hget, Option.bind_eq_bind, Option.bind_some, Option.pure_def] at hr
  split at hr
  · cases hr
    exact h.quiet_insert rfl rfl fun hsome => absurd hsome Bool.false_ne_true
  · rename_i hmore
    obtain ⟨pbu, hpkt, hr⟩ := Option.bind_eq_some_iff.mp hr
    cases hr
    exact h.again hget hpend hpkt hmore _

/-- A step keeps the discipline. -/
theorem Disciplined.step {s s' : Timed} {e : Event} (h : Disciplined first s.mag g)
    (hs : (machine refresh).Step s e s') : Disciplined first s'.mag (Transmissions.record s e g) := by
  have hc := change_of_step hs
  obtain ⟨now, mag⟩ := s
  obtain ⟨now', mag'⟩ := s'
  have hkeep : ∀ {m : Mag}, m.sequence = mag.sequence → m.buList = mag.buList → Disciplined first m g := by
    intro m hseq hlist
    apply h.quiet hseq
    intro i x hx _
    exact ⟨x, hlist ▸ hx, rfl, rfl, rfl, rfl, rfl⟩
  cases hc with
  | advance => exact h
  | setProfile => exact hkeep rfl rfl
  | otherRadvdInterface => exact hkeep rfl rfl
  | unknown hpf =>
    simp only [Transmissions.record, hpf]
    exact h
  | @attach sender att link pf hpf hlink =>
    simp only [Transmissions.record, handleNewNode, hpf, hlink]
    refine h.quiet_insert rfl rfl fun hsome => ?_
    rw [attach_eq] at hsome ⊢
    cases hget : mag.buList.lookup pf.mnIdentifier with
    | none =>
      -- a new entry has no timer
      rw [entryFor, hget] at hsome
      exact absurd hsome Bool.false_ne_true
    | some bule =>
      rw [entryFor, hget]
      exact ⟨bule, rfl, rfl, rfl, rfl, rfl, rfl⟩
  | @update sender att link pf ifIndex hpf hlink =>
    simp only [Transmissions.record, handleNewNode, hpf, hlink]
    refine h.make rfl rfl ?_ ?_ ?_ ?_
    · rw [update_eq]
    · rw [update_eq]
      exact hasLastUpdate_of_buildPbu rfl rfl rfl rfl
    · rw [update_eq]
    · show (update now ifIndex (mag.sequence + 1) _).lastBindingUpdateSequence = _
      rw [update_eq]
  | ignore _ => exact h
  | @register pba bule hacc hlife hup =>
    exact h.quiet_insert rfl rfl fun hsome => absurd hsome Bool.false_ne_true
  | @renew pba bule hacc hlife hup =>
    exact h.quiet_insert rfl rfl fun hsome => absurd hsome Bool.false_ne_true
  | @deregister pba bule hacc hlife =>
    refine h.quiet ?_ fun i x hx _ => ⟨x, (Store.lookup_erase_some hx).2, rfl, rfl, rfl, rfl, rfl⟩
    rfl
  | @refreshTimeout mnId bule hget hdue =>
    simp only [Transmissions.record, functionRefreshTimeout, hget, Option.bind_eq_bind, Option.bind_some,
      Option.pure_def]
    exact h.make rfl rfl rfl (hasLastUpdate_of_buildPbu rfl rfl rfl rfl) rfl rfl
  | @reachableTimeout mnId bule hget hdue =>
    refine h.quiet_insert ?_ (buList_expired mag mnId bule) fun _ => ⟨bule, hget, rfl, rfl, rfl, rfl, rfl⟩
    show (mag.clearExpired bule).sequence = mag.sequence
    unfold clearExpired
    dsimp only
    split <;> split <;> rfl
  | @retransTimeout mnId bule t n hget =>
    obtain ⟨hen, hex⟩ := hs
    obtain ⟨r, hr, heq⟩ := Option.map_eq_some_iff.mp hex
    have hmag : r.1 = _ := congrArg Timed.mag heq
    rw [← hmag]
    exact h.retransTimeout hen hr

/-! ### The property -/

/-- The packet of an entry whose retransmission timer is pending is its last update. -/
def PendingHasUpdate (mag : Mag) : Prop :=
  ∀ mnId bule, mag.buList.lookup mnId = some bule → bule.retransTimer.isSome → HasLastUpdate bule

/-- No update was sent more often than once and the retries. -/
def Bounded (g : Transmissions) : Prop := ∀ n, g.ofUpdate n ≤ 1 + maxBindingUpdateRetryCount.toNat

/-- Updates whose numbers are fewer than there are sequence numbers are told apart by those. -/
theorem Disciplined.ofSequence_le (h : Disciplined first mag g) (hfew : g.updates < 2 ^ 16) (q : UInt16) :
    g.ofSequence q ≤ g.ofUpdate (q - first).toNat := by
  apply List.countP_mono_left
  intro x hx hq
  obtain ⟨hle, hs⟩ := h.numbered x hx
  have hxq : x.2.sequence = q := of_decide_eq_true hq
  have hdiff : q - first = UInt16.ofNat x.1 := by
    rw [← hxq, hs]
    rw [UInt16.add_comm, UInt16.add_sub_cancel]
  apply decide_eq_true
  rw [hdiff, UInt16.toNat_ofNat', Nat.mod_eq_of_lt (by omega)]

/-- In every run of a gateway that starts without entries, whatever the order of attachments,
acknowledgements and timers, what waits for an acknowledgement has the packet of its last update, and an
update is sent at most `1 + MAX_BINDING_UPDATE_RETRY_COUNT` times. What was sent with the number `n` has
the sequence number that is `n` after the first, so that this holds of every sequence number until the
numbers start again. -/
theorem retransmission_discipline {s₀ s : Timed} {tr : List (Timed × Event)} (h₀ : s₀.mag.buList = ∅)
    (hrun : (machine refresh).Run s₀ tr s) :
    let g := Machine.history Transmissions.record .start tr
    PendingHasUpdate s.mag ∧ Bounded g ∧
      (∀ x ∈ g.sent, x.1 ≤ g.updates ∧ x.2.sequence = s₀.mag.sequence + UInt16.ofNat x.1) ∧
      (g.updates < 2 ^ 16 → ∀ q, g.ofSequence q ≤ 1 + maxBindingUpdateRetryCount.toNat) := by
  intro g
  have hI : Disciplined s₀.mag.sequence s.mag g := by
    refine hrun.invariant_history (G := fun _ _ => True) (I := fun s g => Disciplined s₀.mag.sequence s.mag g)
      (fun _ _ => trivial) ?_ fun s e s' g hI _ hs => hI.step hs
    constructor
    · exact (UInt16.add_zero _).symm
    · exact fun _ => Nat.le_refl 0
    · exact fun _ _ hpos => absurd hpos (Nat.lt_irrefl 0)
    · intro mnId bule hget
      rw [h₀, AList.lookup_empty] at hget
      cases hget
    · exact fun x hx => absurd hx List.not_mem_nil
    · exact fun _ => Nat.zero_le _
  refine ⟨fun mnId bule hget hpend => (hI.waiting mnId bule hget hpend).packet, hI.bounded, hI.numbered, ?_⟩
  exact fun hfew q => (hI.ofSequence_le hfew q).trans (hI.bounded _)

/-- A mobile node attaches, and nobody answers. -/
def unansweredEvents : List Event :=
  [Small.attachTo 1,
    .advance (Time.milliSeconds 11500),
    .retransTimeout Small.mn,
    .advance (Time.milliSeconds 12500),
    .retransTimeout Small.mn,
    .advance (Time.milliSeconds 13500),
    .retransTimeout Small.mn]

/-- Then the update has been sent four times, and is not sent more often. -/
theorem retransmission_discipline_unanswered :
    ∃ out, (machine Small.tenthShort).replay Small.gateway unansweredEvents = some out ∧
      (Machine.history Transmissions.record .start out.1).ofSequence 1 = 4 ∧ PendingHasUpdate out.2.mag ∧
      Bounded (Machine.history Transmissions.record .start out.1) := by
  obtain ⟨out, hout, hrun, hfour⟩ := Machine.exists_replay Small.gateway unansweredEvents
    (M := machine Small.tenthShort)
    (P := fun out => (Machine.history Transmissions.record .start out.1).ofSequence 1 = 4) (by decide +kernel)
  obtain ⟨hpending, hbounded, -, -⟩ := retransmission_discipline rfl hrun
  exact ⟨out, hout, hfour, hpending, hbounded⟩

/-! ### A sequence number used again -/

/-- The mobile node attaches again, `n` times. -/
theorem attached_again {s₀ s : Timed} {tr : List (Timed × Event)} {pf : Pmipv6Profile.Entry}
    (hrun : (machine refresh).Run s₀ tr s)
    (hpf : s.mag.profile.lookup (.ofMac48Address Small.mnAddress) = some pf) (n : ℕ) :
    ∃ tr' s', (machine refresh).Run s₀ tr' s' ∧ s'.mag.profile = s.mag.profile ∧
      s'.mag.sequence = s.mag.sequence + UInt16.ofNat n ∧
      ∃ sent, (Machine.history Transmissions.record .start tr').sent =
        (Machine.history Transmissions.record .start tr).sent ++ sent ∧
        (0 < n → ∃ x ∈ sent, x.2.sequence = s'.mag.sequence) := by
  induction n with
  | zero =>
    refine ⟨tr, s, hrun, rfl, (UInt16.add_zero _).symm, [], (List.append_nil _).symm, fun h => ?_⟩
    exact absurd h (Nat.lt_irrefl 0)
  | succ n ih =>
    obtain ⟨tr', s', hrun', hprofile, hseq, sent, hsent, -⟩ := ih
    have hpf' : s'.mag.profile.lookup (.ofMac48Address Small.mnAddress) = some pf := by
      rw [hprofile]
      exact hpf
    refine ⟨_, _, hrun'.snoc (e := Small.attachTo 1) ⟨trivial, rfl⟩, ?_, ?_, ?_⟩
    · simp only [handleNewNode, hpf']
      exact hprofile
    · simp only [handleNewNode, hpf']
      rw [hseq, UInt16.ofNat_add]
      exact UInt16.add_assoc _ _ _
    · simp only [Machine.history_snoc, Small.attachTo, Transmissions.record, handleNewNode, hpf',
        Transmissions.make, hsent, List.append_assoc]
      refine ⟨_, rfl, fun _ => ⟨_, List.mem_append_right _ (List.mem_singleton_self _), ?_⟩⟩
      show (update s'.now 1 (s'.mag.sequence + 1) _).lastBindingUpdateSequence = _
      rw [update_eq]

/-- Nobody answers the first update, and then the mobile node attaches once for each of the sequence numbers. The
last of these updates has the number of the first, so that five messages have it. -/
theorem sequence_used_again :
    ¬ ∀ (tr : List (Timed × Event)) (s : Timed), (machine Small.tenthShort).Run Small.gateway tr s →
      ∀ q, (Machine.history Transmissions.record .start tr).ofSequence q ≤
        1 + maxBindingUpdateRetryCount.toNat := by
  intro hclaim
  obtain ⟨out, hout, hrun, hfour, hseq, hpf⟩ := Machine.exists_replay Small.gateway unansweredEvents
    (M := machine Small.tenthShort)
    (P := fun out => (Machine.history Transmissions.record .start out.1).ofSequence 1 = 4 ∧
      out.2.mag.sequence = 1 ∧
      (out.2.mag.profile.lookup (.ofMac48Address Small.mnAddress)).isSome) (by decide +kernel)
  obtain ⟨pf, hpf⟩ := Option.isSome_iff_exists.mp hpf
  obtain ⟨tr, s, hrun', -, hseq', sent, hsent, hlast⟩ := attached_again hrun hpf (2 ^ 16)
  obtain ⟨x, hx, hxs⟩ := hlast (by decide)
  have hle := hclaim tr s hrun' 1
  have hone : 0 < sent.countP (·.2.sequence = 1) := by
    apply List.countP_pos_iff.mpr
    refine ⟨x, hx, decide_eq_true ?_⟩
    rw [hxs, hseq', hseq]
    decide
  rw [Transmissions.ofSequence] at hfour hle
  rw [hsent, List.countP_append, hfour] at hle
  have hmax : maxBindingUpdateRetryCount.toNat = 3 := rfl
  omega

end Mag

end Ns3.Pmip6
