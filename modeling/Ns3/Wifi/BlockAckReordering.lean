import Ns3.Wifi.BlockAckRecipient
import Mathlib.Data.List.Infix
import Mathlib.Data.List.TakeWhile

/-!
# What a recipient forwards

* `InOrder` — entire MSDUs, the later ones with the greater numbers.
* `KeepsOrder` — the MPDUs that a recipient can put in order: where it forwards, something is buffered, all of it newer
  than what was forwarded before, and what is older than the start of a request has a smaller sequence number.
* `inOrder_of_keepsOrder` — a recipient that receives only such MPDUs and requests forwards in order, and after a
  request has nothing older in its buffer.
-/

namespace Ns3

open Lib

/-- A received MPDU, with the number of its MSDU. -/
abbrev Mpdu := BufferedPacket ℤ

/-- All the fragments of an MSDU, in order. -/
structure Complete (n : ℤ) (msdu : List Mpdu) : Prop where
  ne_nil : msdu ≠ []
  number : ∀ i ∈ msdu, i.packet = n
  fragments : ∀ k (hk : k < msdu.length),
    msdu[k].hdr.fragmentNumber = k ∧ (msdu[k].hdr.moreFragments = true ↔ k + 1 < msdu.length)

/-- Complete MSDUs whose numbers increase, from `a` to below `b`. -/
inductive InOrder : ℤ → ℤ → List Mpdu → Prop where
  | nil {a b : ℤ} : a ≤ b → InOrder a b []
  /-- One, and those with greater numbers. -/
  | msdu {a b n : ℤ} {msdu mpdus : List Mpdu} :
      a ≤ n → Complete n msdu → InOrder (n + 1) b mpdus → InOrder a b (msdu ++ mpdus)

namespace InOrder

variable {a b c : ℤ} {l l' : List Mpdu}

theorem le (h : InOrder a b l) : a ≤ b := by
  induction h with
  | nil hab => exact hab
  | msdu han _ _ ih => omega

theorem mono_left (h : InOrder b c l) (hab : a ≤ b) : InOrder a c l := by
  cases h with
  | nil hbc => exact .nil (hab.trans hbc)
  | msdu hbn hmsdu hrest => exact .msdu (hab.trans hbn) hmsdu hrest

theorem append (h : InOrder a b l) (h' : InOrder b c l') : InOrder a c (l ++ l') := by
  induction h with
  | nil hab => exact h'.mono_left hab
  | msdu han hmsdu _ ih =>
    rw [List.append_assoc]
    exact .msdu han hmsdu (ih h')

theorem mono_right (h : InOrder a b l) (hbc : b ≤ c) : InOrder a c l := by
  simpa using h.append (.nil hbc)

theorem bounds (h : InOrder a b l) : ∀ i ∈ l, a ≤ i.packet ∧ i.packet < b := by
  induction h with
  | nil => exact fun i hi => absurd hi List.not_mem_nil
  | msdu han hmsdu hrest ih =>
    intro i hi
    rcases List.mem_append.mp hi with hi | hi
    · have hn := hmsdu.number i hi
      have hle := hrest.le
      omega
    · have hbounds := ih i hi
      omega

/-- Bounds of the numbers that occur. -/
theorem of_bounds {a' b' : ℤ} (h : InOrder a b l) (hle : a' ≤ b') (hl : ∀ i ∈ l, a' ≤ i.packet ∧ i.packet < b') :
    InOrder a' b' l := by
  induction h generalizing a' with
  | nil => exact .nil hle
  | @msdu a b n msdu mpdus han hmsdu hrest ih =>
    obtain ⟨i, hi⟩ := List.exists_mem_of_ne_nil _ hmsdu.ne_nil
    have hbounds := hl i (List.mem_append_left _ hi)
    rw [hmsdu.number i hi] at hbounds
    refine .msdu hbounds.1 hmsdu (ih (by omega) fun j hj => ?_)
    exact ⟨by have hj' := hrest.bounds j hj; omega, (hl j (List.mem_append_right _ hj)).2⟩

end InOrder

/-! ### Buffers -/

namespace RecipientAgreement

/-- An MPDU has the sequence number of its MSDU. -/
def Numbered (i : Mpdu) : Prop := (i.hdr.sequenceNumber : ℤ) = i.packet % 4096 ∧ i.hdr.fragmentNumber < 16

/-- The place of an MPDU in the order of the fragments of all MSDUs. -/
def place (i : Mpdu) : ℤ := i.packet * 16 + i.hdr.fragmentNumber

/-- What always holds of an agreement, with its starting sequence counted on. -/
structure Sound (start : ℤ) (a : RecipientAgreement ℤ) : Prop where
  startingSeq : (a.startingSeq : ℤ) = start % 4096
  numbered : ∀ i ∈ a.buffer, Numbered i
  range : ∀ i ∈ a.buffer, start - 2048 ≤ i.packet ∧ i.packet < start + 2048
  sorted : a.buffer.Pairwise fun i j => place i ≤ place j

variable {start : ℤ} {a : RecipientAgreement ℤ} {i j : Mpdu}

theorem map_sequenceControl (hstart : (a.startingSeq : ℤ) = start % 4096) (hi : Numbered i)
    (hrange : start - 2048 ≤ i.packet ∧ i.packet < start + 2048) :
    (QosUtilsMapSeqControlToUniqueInteger i.hdr.sequenceControl a.endSequence : ℤ) =
      place i - (start - 2048) * 16 := by
  obtain ⟨hseq, hfrag⟩ := hi
  rw [QosUtilsMapSeqControlToUniqueInteger, RxHeader.sequenceControl, endSequence, place]
  omega

variable {buffer : List Mpdu}

theorem mem_insertMpdu {e : ℕ} : j ∈ insertMpdu e i buffer ↔ j = i ∨ j ∈ buffer := by
  induction buffer with
  | nil => simp [insertMpdu]
  | cons k buffer ih =>
    rw [insertMpdu]
    split_ifs with h
    · rw [List.mem_cons, ih, List.mem_cons]
      exact or_left_comm
    · exact List.mem_cons

/-- The MPDU gets its place in the buffer. -/
theorem Sound.storeMpdu (h : Sound start a) (hi : Numbered i)
    (hrange : start - 2048 ≤ i.packet ∧ i.packet < start + 2048) : Sound start (a.storeMpdu i) := by
  refine ⟨h.startingSeq, fun j hj => ?_, fun j hj => ?_, ?_⟩
  · rcases mem_insertMpdu.mp hj with rfl | hj
    · exact hi
    · exact h.numbered j hj
  · rcases mem_insertMpdu.mp hj with rfl | hj
    · exact hrange
    · exact h.range j hj
  · have hmap := map_sequenceControl h.startingSeq hi hrange
    have hall : ∀ j ∈ a.buffer,
        (QosUtilsMapSeqControlToUniqueInteger j.hdr.sequenceControl a.endSequence : ℤ) =
          place j - (start - 2048) * 16 := fun j hj =>
      map_sequenceControl h.startingSeq (h.numbered j hj) (h.range j hj)
    have hsorted := h.sorted
    change (insertMpdu a.endSequence i a.buffer).Pairwise fun i j => place i ≤ place j
    generalize a.buffer = buffer at hall hsorted
    induction buffer with
    | nil => exact List.pairwise_singleton _ _
    | cons k buffer ih =>
      obtain ⟨hk, hbuffer⟩ := List.forall_mem_cons.mp hall
      obtain ⟨hbefore, hsorted⟩ := List.pairwise_cons.mp hsorted
      rw [insertMpdu]
      split_ifs with hlt
      · refine List.pairwise_cons.mpr ⟨fun j hj => ?_, ih hbuffer hsorted⟩
        rcases mem_insertMpdu.mp hj with rfl | hj
        · omega
        · exact hbefore j hj
      · have hle : place i ≤ place k := by omega
        refine List.pairwise_cons.mpr ⟨fun j hj => ?_, List.pairwise_cons.mpr ⟨hbefore, hsorted⟩⟩
        rcases List.mem_cons.mp hj with rfl | hj
        · exact hle
        · exact hle.trans (hbefore j hj)

/-! ### The packets of a smaller sequence -/

theorem packet_le_of_place_le (hi : Numbered i) (hj : Numbered j) (h : place i ≤ place j) : i.packet ≤ j.packet := by
  have hfi := hi.2
  have hfj := hj.2
  rw [place, place] at h
  omega

theorem complete_singleton (hfrag : i.hdr.fragmentNumber = 0) (hmore : i.hdr.moreFragments = false) :
    Complete i.packet [i] := by
  refine ⟨List.cons_ne_nil _ _, fun j hj => by rw [List.mem_singleton.mp hj], fun k hk => ?_⟩
  obtain rfl : k = 0 := by simpa using hk
  simp [hfrag, hmore]

/-- What follows the packets of a sequence number has greater numbers. -/
theorem nextPacket_eq {guard : ℕ} (hguard : guard / 16 % 4096 = i.hdr.sequenceNumber)
    (hnumbered : ∀ j ∈ i :: buffer, Numbered j) (hsorted : (i :: buffer).Pairwise fun i j => place i ≤ place j) :
    ∃ skipped, i :: buffer = i :: (skipped ++ nextPacket guard (i :: buffer)) ∧
      (∀ j ∈ skipped, j.hdr.sequenceNumber = i.hdr.sequenceNumber) ∧
        ∀ j ∈ nextPacket guard (i :: buffer), i.packet < j.packet := by
  have hnext : nextPacket guard (i :: buffer) = buffer.dropWhile fun j => guard / 16 % 4096 = j.hdr.sequenceNumber := by
    rw [nextPacket, List.dropWhile_cons, if_pos (decide_eq_true hguard)]
  obtain ⟨hfirst, hrest⟩ := List.pairwise_cons.mp hsorted
  obtain ⟨hi, hbuffer⟩ := List.forall_mem_cons.mp hnumbered
  refine ⟨buffer.takeWhile fun j => guard / 16 % 4096 = j.hdr.sequenceNumber, ?_, fun j hj => ?_, fun j hj => ?_⟩
  · rw [hnext, List.takeWhile_append_dropWhile]
  · have hsame := List.mem_takeWhile_imp hj
    exact (of_decide_eq_true hsame).symm.trans hguard
  · rw [hnext] at hj
    have hsuffix : (buffer.dropWhile fun j => guard / 16 % 4096 = j.hdr.sequenceNumber) <:+ buffer :=
      List.dropWhile_suffix _
    have hmem := hsuffix.subset hj
    have hle := packet_le_of_place_le hi (hbuffer j hmem) (hfirst j hmem)
    refine lt_of_le_of_ne hle fun heq => ?_
    -- The first of what is left has another number, and is not behind `j`.
    cases hdrop : buffer.dropWhile fun j => guard / 16 % 4096 = j.hdr.sequenceNumber with
    | nil =>
      rw [hdrop] at hj
      exact absurd hj List.not_mem_nil
    | cons k rest =>
      rw [hdrop] at hj hsuffix
      have hk : k ∈ buffer := hsuffix.subset List.mem_cons_self
      have hne : ¬ guard / 16 % 4096 = k.hdr.sequenceNumber := by
        have hhead := List.head_dropWhile_not (fun j : Mpdu => decide (guard / 16 % 4096 = j.hdr.sequenceNumber))
          (by rw [hdrop]; exact List.cons_ne_nil _ _)
        simp only [hdrop, List.head_cons, decide_eq_false_iff_not] at hhead
        exact hhead
      have hik := packet_le_of_place_le hi (hbuffer k hk) (hfirst k hk)
      have hkj : k.packet ≤ j.packet := by
        rcases List.mem_cons.mp hj with rfl | hj
        · exact le_rfl
        · exact packet_le_of_place_le (hbuffer k hk) (hbuffer j hmem)
            ((List.pairwise_cons.mp (hrest.sublist hsuffix.sublist)).1 j hj)
      have hseq : (k.hdr.sequenceNumber : ℤ) = i.hdr.sequenceNumber := by
        rw [(hbuffer k hk).1, hi.1, show k.packet = i.packet by omega]
      exact hne (by omega)

/-- The loop takes the packets with a smaller sequence number from the front of the buffer, and forwards the
unfragmented MSDUs among them. -/
theorem smallerLoop_eq (e seq n : ℕ) (hn : buffer.length ≤ n) {fuel : ℕ} (hfuel : 2 * buffer.length ≤ fuel) (guard : ℕ)
    (hnumbered : ∀ i ∈ buffer, Numbered i) (hsorted : buffer.Pairwise fun i j => place i ≤ place j) :
    ∃ taken forwarded rest, smallerLoop e seq fuel (guardAt guard buffer) [] buffer = some (forwarded, rest) ∧
      buffer = taken ++ rest ∧ (∀ i ∈ taken, HasSmallerSequence e seq i) ∧
        (∀ i ∈ rest.head?, ¬ HasSmallerSequence e seq i) ∧
          ∀ c d, c ≤ d → (∀ i ∈ taken, c ≤ i.packet ∧ i.packet < d) → InOrder c d forwarded := by
  induction n generalizing buffer fuel guard with
  | zero =>
    obtain rfl := List.length_eq_zero_iff.mp (Nat.le_zero.mp hn)
    exact ⟨[], [], [], by rw [smallerLoop], rfl, fun i hi => absurd hi List.not_mem_nil,
      fun i hi => absurd hi (by simp), fun c d hcd _ => .nil hcd⟩
  | succ n ih =>
    cases buffer with
    | nil =>
      exact ⟨[], [], [], by rw [smallerLoop], rfl, fun i hi => absurd hi List.not_mem_nil,
        fun i hi => absurd hi (by simp), fun c d hcd _ => .nil hcd⟩
    | cons i buffer =>
      by_cases hsmaller : HasSmallerSequence e seq i
      · obtain ⟨hi, hbuffer⟩ := List.forall_mem_cons.mp hnumbered
        have hseq : i.hdr.sequenceNumber < 4096 := by
          have hi' := hi.1
          omega
        have hcontrol : i.hdr.sequenceControl = i.hdr.sequenceNumber * 16 + i.hdr.fragmentNumber := rfl
        have hfrag := hi.2
        -- What the loop does from the next packet on, which it gets to in one round or in two.
        have hrec : ∀ guard' fuel', guard' / 16 % 4096 = i.hdr.sequenceNumber → 2 * buffer.length ≤ fuel' →
            ∃ taken forwarded rest, smallerLoop e seq fuel' (guardAt guard' (nextPacket guard' (i :: buffer))) []
                (nextPacket guard' (i :: buffer)) = some (forwarded, rest) ∧
              i :: buffer = i :: taken ++ rest ∧ (∀ j ∈ i :: taken, HasSmallerSequence e seq j) ∧
                (∀ j ∈ rest.head?, ¬ HasSmallerSequence e seq j) ∧
                  ∀ c d, i.packet < c → c ≤ d → (∀ j ∈ i :: taken, j.packet < d) → c = i.packet + 1 →
                    InOrder c d forwarded := by
          intro guard' fuel' hguard' hfuel'
          obtain ⟨skipped, hsplit, hskipped, hgreater⟩ := nextPacket_eq hguard' hnumbered hsorted
          generalize nextPacket guard' (i :: buffer) = next at hsplit hgreater ⊢
          have hsub : next.Sublist buffer := by
            rw [(List.cons.inj hsplit).2]
            exact List.sublist_append_right _ _
          have hlength := hsub.length_le
          obtain ⟨taken, forwarded, rest, hloop, hnext, hall, hhead, horder⟩ := @ih next
            (by rw [List.length_cons] at hn; omega) fuel' (by omega) guard' (fun j hj => hbuffer j (hsub.subset hj))
            ((List.pairwise_cons.mp hsorted).2.sublist hsub)
          refine ⟨skipped ++ taken, forwarded, rest, hloop, ?_, ?_, hhead, ?_⟩
          · rw [hsplit, hnext, List.cons_append, List.append_assoc]
          · intro j hj
            rcases List.mem_cons.mp hj with rfl | hj
            · exact hsmaller
            · rcases List.mem_append.mp hj with hj | hj
              · rw [HasSmallerSequence, hskipped j hj]
                exact hsmaller
              · exact hall j hj
          · rintro c d - hcd hd rfl
            refine horder _ d hcd fun j hj => ⟨?_, hd j (List.mem_cons_of_mem i (List.mem_append_right _ hj))⟩
            have hlt := hgreater j (by rw [hnext]; exact List.mem_append_left _ hj)
            omega
        have hguard : guardAt guard (i :: buffer) = i.hdr.sequenceNumber * 16 := by
          rw [guardAt, hcontrol]
          omega
        rw [hguard]
        rw [List.length_cons] at hfuel
        obtain ⟨fuel, rfl⟩ := Nat.exists_eq_add_of_le' (show 2 ≤ fuel by omega)
        rw [smallerLoop, if_pos hsmaller]
        by_cases hzero : i.hdr.fragmentNumber = 0
        · rw [if_pos (by omega)]
          cases hmore : i.hdr.moreFragments with
          | false =>
            obtain ⟨taken, forwarded, rest, hloop, hsplit, hall, hhead, horder⟩ :=
              hrec (i.hdr.sequenceNumber * 16) (fuel + 1) (by omega) (by omega)
            refine ⟨i :: taken, i :: forwarded, rest, ?_, hsplit, hall, hhead, fun c d hcd hbounds => ?_⟩
            · dsimp only
              rw [if_neg Bool.false_ne_true, hloop]
              rfl
            · have hbound := hbounds i List.mem_cons_self
              refine .msdu hbound.1 (complete_singleton hzero hmore) ?_
              exact horder _ d (by omega) (by omega) (fun j hj => (hbounds j hj).2) rfl
          | true =>
            obtain ⟨taken, forwarded, rest, hloop, hsplit, hall, hhead, horder⟩ :=
              hrec (i.hdr.sequenceNumber * 16 + 1) fuel (by omega) (by omega)
            refine ⟨i :: taken, forwarded, rest, ?_, hsplit, hall, hhead, fun c d hcd hbounds => ?_⟩
            · rw [if_pos rfl, show (i.hdr.sequenceNumber * 16 + 1) % 2 ^ 16 = i.hdr.sequenceNumber * 16 + 1 by omega,
                smallerLoop, if_pos hsmaller, if_neg (by omega)]
              exact hloop
            · have hbound := hbounds i List.mem_cons_self
              exact (horder _ d (by omega) (by omega) (fun j hj => (hbounds j hj).2) rfl).mono_left (by omega)
        · rw [if_neg (by omega)]
          obtain ⟨taken, forwarded, rest, hloop, hsplit, hall, hhead, horder⟩ :=
            hrec (i.hdr.sequenceNumber * 16) (fuel + 1) (by omega) (by omega)
          refine ⟨i :: taken, forwarded, rest, hloop, hsplit, hall, hhead, fun c d hcd hbounds => ?_⟩
          have hbound := hbounds i List.mem_cons_self
          exact (horder _ d (by omega) (by omega) (fun j hj => (hbounds j hj).2) rfl).mono_left (by omega)
      · cases fuel with
        | zero => exact absurd hfuel (by simp)
        | succ fuel =>
          refine ⟨[], [], i :: buffer, by rw [smallerLoop, if_neg hsmaller], rfl,
            fun i hi => absurd hi List.not_mem_nil, fun j hj => ?_, fun c d hcd _ => .nil hcd⟩
          cases hj
          exact hsmaller

/-! ### The packets until the first lost one -/

/-- Some fragments of an MSDU, from the first on, with more to follow. -/
structure Begun (n : ℤ) (msdu : List Mpdu) : Prop where
  number : ∀ i ∈ msdu, i.packet = n
  fragments : ∀ k (hk : k < msdu.length), msdu[k].hdr.fragmentNumber = k ∧ msdu[k].hdr.moreFragments = true

theorem Begun.append_more {n : ℤ} {msdu : List Mpdu} (h : Begun n msdu) (hi : i.packet = n)
    (hfrag : i.hdr.fragmentNumber = msdu.length) (hmore : i.hdr.moreFragments = true) : Begun n (msdu ++ [i]) := by
  refine ⟨fun j hj => ?_, fun k hk => ?_⟩
  · rcases List.mem_append.mp hj with hj | hj
    · exact h.number j hj
    · rw [List.mem_singleton.mp hj, hi]
  · by_cases hlt : k < msdu.length
    · rw [List.getElem_append_left hlt]
      exact h.fragments k hlt
    · obtain rfl : k = msdu.length := by
        rw [List.length_append, List.length_singleton] at hk
        omega
      simp [hfrag, hmore]

theorem Begun.append_last {n : ℤ} {msdu : List Mpdu} (h : Begun n msdu) (hi : i.packet = n)
    (hfrag : i.hdr.fragmentNumber = msdu.length) (hmore : i.hdr.moreFragments = false) :
    Complete n (msdu ++ [i]) := by
  refine ⟨by simp, fun j hj => ?_, fun k hk => ?_⟩
  · rcases List.mem_append.mp hj with hj | hj
    · exact h.number j hj
    · rw [List.mem_singleton.mp hj, hi]
  · rw [List.length_append, List.length_singleton] at hk ⊢
    by_cases hlt : k < msdu.length
    · rw [List.getElem_append_left hlt]
      obtain ⟨hnumber, hmore⟩ := h.fragments k hlt
      exact ⟨hnumber, iff_of_true hmore (by omega)⟩
    · obtain rfl : k = msdu.length := by omega
      simp [hfrag, hmore]

theorem begun_nil (n : ℤ) :
    Begun n [] := ⟨fun _ hi => absurd hi List.not_mem_nil, fun _ hk => absurd hk (Nat.not_lt_zero _)⟩

/-- The loop takes complete MSDUs from the front of the buffer, from the number `n` on and without a gap. -/
theorem untilLoop_eq (top : ℤ) {n : ℤ} {begun : List Mpdu} (hbegun : Begun n begun) (hlength : begun.length < 16)
    (hnumbered : ∀ i ∈ buffer, Numbered i) (hrange : ∀ i ∈ buffer, n - 2048 ≤ i.packet ∧ i.packet < top)
    (htop : top ≤ n + 2048) (hfifteen : ∀ i ∈ buffer, i.hdr.fragmentNumber = 15 → i.hdr.moreFragments = false)
    (hsorted : buffer.Pairwise fun i j => place i ≤ place j) :
    ∃ forwarded guard rest n',
      untilLoop ((n % 4096).toNat * 16 + begun.length) begun buffer = (forwarded, guard, rest) ∧
      begun ++ buffer = forwarded ++ rest ∧ InOrder n n' forwarded ∧ (n' = n ∨ n' ≤ top) ∧
        ((guard / 16 % 4096 : ℕ) : ℤ) = n' % 4096 ∧ ∀ i ∈ rest, n' - 2048 ≤ i.packet := by
  induction buffer generalizing n begun with
  | nil =>
    refine ⟨[], _, begun, n, rfl, List.append_nil _, .nil le_rfl, .inl rfl, by omega, fun i hi => ?_⟩
    rw [hbegun.number i hi]
    omega
  | cons i buffer ih =>
    obtain ⟨hi, hbuffer⟩ := List.forall_mem_cons.mp hnumbered
    obtain ⟨hirange, hbufferRange⟩ := List.forall_mem_cons.mp hrange
    obtain ⟨hififteen, hbufferFifteen⟩ := List.forall_mem_cons.mp hfifteen
    obtain ⟨hfirst, hbufferSorted⟩ := List.pairwise_cons.mp hsorted
    have hseq := hi.1
    have hfrag := hi.2
    have hcontrol : i.hdr.sequenceControl = i.hdr.sequenceNumber * 16 + i.hdr.fragmentNumber := rfl
    rw [untilLoop]
    by_cases hguard : (n % 4096).toNat * 16 + begun.length = i.hdr.sequenceControl
    · have hpacket : i.packet = n := by omega
      have hnext : i.hdr.fragmentNumber = begun.length := by omega
      rw [if_pos hguard]
      cases hmore : i.hdr.moreFragments with
      | true =>
        have hne : i.hdr.fragmentNumber ≠ 15 := fun heq => Bool.false_ne_true ((hififteen heq).symm.trans hmore)
        obtain ⟨forwarded, guard, rest, n', hloop, hsplit, horder, hn', hguard', hrest⟩ :=
          ih (hbegun.append_more hpacket hnext hmore) (by rw [List.length_append, List.length_singleton]; omega)
            hbuffer hbufferRange htop hbufferFifteen hbufferSorted
        refine ⟨forwarded, guard, rest, n', ?_, ?_, horder, hn', hguard', hrest⟩
        · rw [if_pos rfl, show ((n % 4096).toNat * 16 + begun.length + 1) % 2 ^ 16 =
            (n % 4096).toNat * 16 + (begun ++ [i]).length by rw [List.length_append, List.length_singleton]; omega]
          exact hloop
        · rw [← hsplit, List.append_assoc]
          rfl
      | false =>
        have hlow : ∀ j ∈ buffer, n ≤ j.packet := fun j hj =>
          hpacket ▸ packet_le_of_place_le hi (hbuffer j hj) (hfirst j hj)
        obtain ⟨forwarded, guard, rest, n', hloop, hsplit, horder, hn', hguard', hrest⟩ :=
          ih (begun_nil (n + 1)) (by decide) hbuffer (fun j hj => ⟨by have := hlow j hj; omega, (hbufferRange j hj).2⟩)
            (by omega) hbufferFifteen hbufferSorted
        refine ⟨begun ++ i :: forwarded, guard, rest, n', ?_, ?_, ?_, .inr (by omega), hguard', hrest⟩
        · rw [if_neg Bool.false_ne_true, show ((n % 4096).toNat * 16 + begun.length + 16) % 2 ^ 16 / 16 * 16 =
            ((n + 1) % 4096).toNat * 16 + ([] : List Mpdu).length by rw [List.length_nil]; omega, hloop]
        · rw [List.nil_append] at hsplit
          rw [hsplit, List.append_assoc]
          rfl
        · have hcomplete := hbegun.append_last hpacket hnext hmore
          rw [show begun ++ i :: forwarded = (begun ++ [i]) ++ forwarded by simp]
          exact .msdu le_rfl hcomplete horder
    · rw [if_neg hguard]
      refine ⟨[], _, begun ++ i :: buffer, n, rfl, rfl, .nil le_rfl, .inl rfl, by omega, fun j hj => ?_⟩
      rcases List.mem_append.mp hj with hj | hj
      · rw [hbegun.number j hj]
        omega
      · exact (hrange j hj).1

/-! ### Both -/

/-- What is forwarded is in order, if the buffer is; what was taken for older than `seq` is gone. -/
theorem Sound.rxComplete (h : Sound start a) {seq : ℕ} (hne : a.buffer ≠ [])
    (hfifteen : ∀ i ∈ a.buffer, i.hdr.fragmentNumber = 15 → i.hdr.moreFragments = false) :
    ∃ forwarded a', a.rxComplete seq = some (forwarded, a') ∧
      Sound (start + Ring.ahead 4096 a.startingSeq a'.startingSeq) a' ∧
        (∀ c, (∀ i ∈ a.buffer, c ≤ i.packet) → ∃ d, InOrder c d forwarded) ∧
          ∀ s, (∀ i ∈ a.buffer, i.packet < s → HasSmallerSequence a.endSequence seq i) →
            ∀ i ∈ a'.buffer, s ≤ i.packet := by
  obtain ⟨first, tail, hcons⟩ := List.exists_cons_of_ne_nil hne
  obtain ⟨taken, smaller, rest, hsmaller, hsplit, htaken, hhead, horder⟩ :=
    smallerLoop_eq a.endSequence seq _ le_rfl (Nat.le_refl (2 * a.buffer.length)) 0 h.numbered h.sorted
  have hsub : rest.Sublist a.buffer := hsplit ▸ List.sublist_append_right _ _
  have hrest : ∀ i ∈ rest, i ∈ a.buffer := fun i hi => hsub.subset hi
  obtain ⟨-, hrestSorted, hbetween⟩ := List.pairwise_append.mp (hsplit ▸ h.sorted)
  obtain ⟨complete, guard, left, n, hcomplete, hleft, hcompleteOrder, hn, hguard, hlow⟩ :=
    untilLoop_eq (start + 2048) (begun_nil start) (by decide) (fun i hi => h.numbered i (hrest i hi))
      (fun i hi => h.range i (hrest i hi)) le_rfl (fun i hi => hfifteen i (hrest i hi)) hrestSorted
  have hstart := h.startingSeq
  have hle := hcompleteOrder.le
  have hloop : untilLoop (a.startingSeq * 16) [] rest = (complete, guard, left) := by
    rw [← hcomplete, List.length_nil]
    congr 1
    omega
  have hleftSub : left.Sublist a.buffer := by
    refine List.Sublist.trans ?_ hsub
    rw [List.nil_append] at hleft
    exact hleft ▸ List.sublist_append_right _ _
  have hahead : start + Ring.ahead 4096 a.startingSeq (guard / 16 % 4096) = n := by
    rw [Ring.ahead]
    omega
  refine ⟨smaller ++ complete, ⟨guard / 16 % 4096, left⟩, ?_, ?_, fun c hc => ?_, fun s hs i hi => ?_⟩
  · rw [RecipientAgreement.rxComplete, rxCompleteBufferedPacketsWithSmallerSequence]
    rw [hcons] at hsmaller ⊢
    dsimp only
    rw [guardAt] at hsmaller
    rw [hsmaller]
    simp [rxCompleteBufferedPacketsUntilFirstLost, hloop]
  · rw [hahead]
    refine ⟨hguard, fun i hi => h.numbered i (hleftSub.subset hi), fun i hi => ⟨hlow i hi, ?_⟩,
      h.sorted.sublist hleftSub⟩
    have hrange := h.range i (hleftSub.subset hi)
    omega
  · cases hcase : rest with
    | nil =>
      -- Nothing is left for the second loop.
      rw [hcase, List.nil_append] at hleft
      obtain ⟨rfl, -⟩ := List.append_eq_nil_iff.mp hleft.symm
      refine ⟨max c (start + 2048), ?_⟩
      rw [List.append_nil]
      refine horder c _ (le_max_left _ _) fun i hi => ?_
      have hmem : i ∈ a.buffer := hsplit ▸ List.mem_append_left _ hi
      exact ⟨hc i hmem, lt_max_of_lt_right (h.range i hmem).2⟩
    | cons r rest' =>
      have hr : r ∈ a.buffer := hrest r (by rw [hcase]; exact List.mem_cons_self)
      have hnot : ¬ HasSmallerSequence a.endSequence seq r := hhead r (by rw [hcase]; rfl)
      refine ⟨max n r.packet, (horder c r.packet (hc r hr) fun i hi => ?_).append ?_⟩
      · have hmem : i ∈ a.buffer := hsplit ▸ List.mem_append_left _ hi
        refine ⟨hc i hmem, lt_of_le_of_ne ?_ fun heq => hnot ?_⟩
        · exact packet_le_of_place_le (h.numbered i hmem) (h.numbered r hr)
            (hbetween i hi r (by rw [hcase]; exact List.mem_cons_self))
        · have hseq : i.hdr.sequenceNumber = r.hdr.sequenceNumber := by
            have hi' := (h.numbered i hmem).1
            have hr' := (h.numbered r hr).1
            rw [heq] at hi'
            omega
          rw [HasSmallerSequence, ← hseq]
          exact htaken i hi
      · refine (hcompleteOrder.mono_right (le_max_left n r.packet)).of_bounds (le_max_right _ _) fun i hi => ?_
        have hmem : i ∈ rest := by
          rw [List.nil_append] at hleft
          exact hleft ▸ List.mem_append_left _ hi
        refine ⟨?_, lt_max_of_lt_left (hcompleteOrder.bounds i hi).2⟩
        rw [hcase] at hmem hrestSorted
        rcases List.mem_cons.mp hmem with rfl | hmem
        · exact le_rfl
        · exact packet_le_of_place_le (h.numbered r hr)
            (h.numbered i (hrest i (by rw [hcase]; exact List.mem_cons_of_mem _ hmem)))
            ((List.pairwise_cons.mp hrestSorted).1 i hmem)
  · -- What is older than `s` was all taken, as it is in front.
    refine le_of_not_gt fun hlt => ?_
    have hmem : i ∈ rest := by
      rw [List.nil_append] at hleft
      exact hleft ▸ List.mem_append_right _ hi
    cases hcase : rest with
    | nil =>
      rw [hcase] at hmem
      exact absurd hmem List.not_mem_nil
    | cons r rest' =>
      have hr : r ∈ rest := by
        rw [hcase]
        exact List.mem_cons_self
      have hnot : ¬ HasSmallerSequence a.endSequence seq r := hhead r (by rw [hcase]; rfl)
      have hri : r.packet ≤ i.packet := by
        rw [hcase] at hmem hrestSorted
        rcases List.mem_cons.mp hmem with rfl | hmem
        · exact le_rfl
        · exact packet_le_of_place_le (h.numbered r (hrest r hr)) (h.numbered i (hleftSub.subset hi))
            ((List.pairwise_cons.mp hrestSorted).1 i hmem)
      exact hnot (hs r (hrest r hr) (by omega))

end RecipientAgreement

/-! ### Runs -/

namespace Recipient

/-- Nothing undefined has happened, and what was forwarded is in order. -/
def Consistent : Option Recipient → Prop
  | none => False
  | some r => ∀ key, ∃ a b, InOrder a b (r.forwarded key)

/-- After a request with the given starting sequence, nothing older is buffered. -/
def RemovesOld : Option Recipient → RecipientEvent → Option Recipient → Prop
  | some r, .blockAckRequest key startingSeq, some r' =>
    ∀ a, r'.bAckAgreements.lookup key = some a → ∀ i ∈ a.buffer, r.number key startingSeq ≤ i.packet
  | _, _, _ => True

/-- The MPDU is newer than what was forwarded, and no sixteenth fragment with more to follow. -/
def Fresh (r : Recipient) (key : AgreementKey) (i : Mpdu) : Prop :=
  (∀ j ∈ r.forwarded key, j.packet < i.packet) ∧ (i.hdr.fragmentNumber = 15 → i.hdr.moreFragments = false)
deriving Decidable

/-- What is buffered can be forwarded in order. -/
def Drains (r : Recipient) (key : AgreementKey) (buffer : List Mpdu) : Prop := buffer ≠ [] ∧ ∀ i ∈ buffer, r.Fresh key i
deriving Decidable

/-- The condition under which a recipient forwards in order. -/
def KeepsOrder : Option Recipient → RecipientEvent → Prop
  | some r, .destroyBlockAckAgreement key => ∀ a ∈ r.bAckAgreements.lookup key, r.Drains key a.buffer
  | some r, .qosData hdr true => ∀ a ∈ r.bAckAgreements.lookup hdr.agreement,
    r.Drains hdr.agreement (⟨r.number hdr.agreement hdr.sequenceNumber, hdr⟩ :: a.buffer)
  | some r, .blockAckRequest key startingSeq => ∀ a ∈ r.bAckAgreements.lookup key, r.Drains key a.buffer ∧
    ∀ i ∈ a.buffer, i.packet < r.number key startingSeq →
      RecipientAgreement.HasSmallerSequence a.endSequence startingSeq i
  | _, _ => True

instance : (s : Option Recipient) → (e : RecipientEvent) → Decidable (KeepsOrder s e)
  | some r, .destroyBlockAckAgreement key =>
    inferInstanceAs (Decidable (∀ a ∈ r.bAckAgreements.lookup key, r.Drains key a.buffer))
  | some r, .qosData hdr true =>
    inferInstanceAs (Decidable (∀ _ ∈ r.bAckAgreements.lookup hdr.agreement, Drains _ _ _))
  | some r, .blockAckRequest key _ =>
    inferInstanceAs (Decidable (∀ a ∈ r.bAckAgreements.lookup key, Drains _ _ _ ∧ ∀ _ ∈ a.buffer, _ → _))
  | none, _ | some _, .createBlockAckAgreement _ _ | some _, .qosData _ false => .isTrue trivial

/-- What always holds of an agreement. -/
structure Sound (r : Recipient) : Prop where
  order : ∀ key, ∃ a b, InOrder a b (r.forwarded key)
  agreement : ∀ key a, r.bAckAgreements.lookup key = some a → a.Sound (r.start key)

theorem sound_new : Sound new :=
  ⟨fun _ => ⟨0, 0, .nil le_rfl⟩, fun key a ha => absurd ha (by simp [new])⟩

section

variable {r : Recipient} {key : AgreementKey} {a a' : RecipientAgreement ℤ} {forwarded : List Mpdu}

/-- An agreement that is sound afterwards, with packets that go on from what was forwarded. -/
theorem Sound.setAgreement (h : Sound r)
    (ha' : a'.Sound (r.start key + Ring.ahead 4096 a.startingSeq a'.startingSeq))
    (horder : ∃ b c, InOrder b c (r.forwarded key ++ forwarded)) : Sound (r.setAgreement key a a' forwarded) := by
  refine ⟨fun key' => ?_, fun key' x hx => ?_⟩
  · by_cases hkey : key' = key
    · subst hkey
      simpa [Recipient.setAgreement] using horder
    · simpa [Recipient.setAgreement, hkey] using h.order key'
  · rcases Store.lookup_insert_some hx with ⟨rfl, rfl⟩ | ⟨hkey, hx⟩
    · simpa [Recipient.setAgreement] using ha'
    · simpa [Recipient.setAgreement, hkey] using h.agreement key' x hx

/-- What is buffered is forwarded in order, if it can be. -/
theorem Sound.rxComplete (h : Sound r) (ha : a.Sound (r.start key)) (hdrains : r.Drains key a.buffer) (seq : ℕ) :
    ∃ r' a', r.rxComplete key a seq = some r' ∧ Sound r' ∧ r'.bAckAgreements.lookup key = some a' ∧
      ∀ s, (∀ i ∈ a.buffer, i.packet < s → RecipientAgreement.HasSmallerSequence a.endSequence seq i) →
        ∀ i ∈ a'.buffer, s ≤ i.packet := by
  obtain ⟨forwarded, a', hcomplete, hsound, horder, hold⟩ :=
    ha.rxComplete hdrains.1 fun i hi => (hdrains.2 i hi).2
  refine ⟨_, a', by rw [Recipient.rxComplete, hcomplete, Option.map_some], h.setAgreement hsound ?_,
    AList.lookup_insert _, hold⟩
  -- What is forwarded goes on behind the last that was.
  obtain ⟨b, c, hbefore⟩ := h.order key
  obtain ⟨first, tail, hcons⟩ := List.exists_cons_of_ne_nil hdrains.1
  have hfirst : first ∈ a.buffer := by
    rw [hcons]
    exact List.mem_cons_self
  obtain ⟨d, hafter⟩ := horder first.packet fun i hi => by
    have hsorted := ha.sorted
    rw [hcons] at hi hsorted
    rcases List.mem_cons.mp hi with rfl | hi
    · exact le_rfl
    · exact RecipientAgreement.packet_le_of_place_le (ha.numbered first hfirst)
        (ha.numbered i (hcons ▸ List.mem_cons_of_mem _ hi)) ((List.pairwise_cons.mp hsorted).1 i hi)
  refine ⟨min b first.packet, d, (hbefore.of_bounds (min_le_right _ _) fun j hj => ?_).append hafter⟩
  exact ⟨min_le_of_left_le (hbefore.bounds j hj).1, (hdrains.2 first hfirst).1 j hj⟩

theorem Drains.storeMpdu {i : Mpdu} (h : r.Drains key (i :: a.buffer)) : r.Drains key (a.storeMpdu i).buffer := by
  have hmem : ∀ j, j ∈ (a.storeMpdu i).buffer ↔ j ∈ i :: a.buffer := fun j =>
    RecipientAgreement.mem_insertMpdu.trans List.mem_cons.symm
  refine ⟨List.ne_nil_of_mem ((hmem i).mpr List.mem_cons_self), fun j hj => h.2 j ((hmem j).mp hj)⟩

theorem number_eq (r : Recipient) (key : AgreementKey) {seq : ℕ} (hseq : seq < 4096) :
    (seq : ℤ) = r.number key seq % 4096 ∧
      r.start key - 2048 ≤ r.number key seq ∧ r.number key seq < r.start key + 2048 := by
  rw [number]
  omega

end

/-- Every event that meets the condition keeps everything as it should be. -/
theorem sound_handle {r : Recipient} (h : Sound r) {e : RecipientEvent} (henabled : machine.enabled (some r) e)
    (hkeeps : KeepsOrder (some r) e) :
    ∃ r', r.handle e = some r' ∧ Sound r' ∧ RemovesOld (some r) e (some r') := by
  obtain ⟨-, henabled⟩ := henabled
  cases e with
  | createBlockAckAgreement key startingSeq =>
    by_cases hsome : (r.bAckAgreements.lookup key).isSome = true
    · exact ⟨r, by rw [handle, if_pos hsome], h, trivial⟩
    · refine ⟨_, by rw [handle, if_neg hsome], ⟨fun key' => ?_, fun key' a ha => ?_⟩, trivial⟩
      · by_cases hkey : key' = key
        · subst hkey
          exact ⟨0, 0, by simpa using InOrder.nil le_rfl⟩
        · simpa [hkey] using h.order key'
      · rcases Store.lookup_insert_some ha with ⟨rfl, rfl⟩ | ⟨hkey, ha⟩
        · have henabled : startingSeq < 4096 := henabled
          refine ⟨?_, ?_, ?_, List.Pairwise.nil⟩
          · simp only [Function.update_self]
            omega
          · exact fun i hi => absurd hi List.not_mem_nil
          · exact fun i hi => absurd hi List.not_mem_nil
        · simpa [hkey] using h.agreement key' a ha
  | destroyBlockAckAgreement key =>
    cases ha : r.bAckAgreements.lookup key with
    | none => exact ⟨r, by rw [handle, ha], h, trivial⟩
    | some a =>
      obtain ⟨r', a', hcomplete, hsound, -, -⟩ := h.rxComplete (h.agreement key a ha) (hkeeps a ha) a.startingSeq
      refine ⟨{ r' with bAckAgreements := r'.bAckAgreements.erase key }, ?_,
        ⟨hsound.order, fun key' x hx => hsound.agreement key' x (Store.lookup_erase_some hx).2⟩, trivial⟩
      rw [handle, ha]
      dsimp only
      rw [hcomplete, Option.map_some]
  | qosData hdr qosAck =>
    cases ha : r.bAckAgreements.lookup hdr.agreement with
    | none => exact ⟨r, by rw [handle, ha], h, trivial⟩
    | some a =>
      obtain ⟨hseq, hfrag⟩ : hdr.sequenceNumber < 4096 ∧ hdr.fragmentNumber < 16 := henabled
      obtain ⟨hnumber, hrange⟩ := r.number_eq hdr.agreement hseq
      have hstored := (h.agreement _ a ha).storeMpdu (i := ⟨r.number hdr.agreement hdr.sequenceNumber, hdr⟩)
        ⟨hnumber, hfrag⟩ hrange
      cases qosAck with
      | true =>
        obtain ⟨r', a', hcomplete, hsound, -, -⟩ := h.rxComplete hstored (hkeeps a ha).storeMpdu a.startingSeq
        refine ⟨r', ?_, hsound, trivial⟩
        rw [handle, ha]
        dsimp only
        rw [if_pos rfl]
        exact hcomplete
      | false =>
        refine ⟨r.setAgreement hdr.agreement a (a.storeMpdu ⟨r.number hdr.agreement hdr.sequenceNumber, hdr⟩) [], ?_,
          h.setAgreement ?_ ?_, trivial⟩
        · rw [handle, ha]
          dsimp only
          rw [if_neg Bool.false_ne_true]
        · have hsame : Ring.ahead 4096 a.startingSeq a.startingSeq = 0 := Ring.ahead_self
          change RecipientAgreement.Sound (_ + (Ring.ahead 4096 a.startingSeq a.startingSeq : ℤ)) _
          rw [hsame]
          simpa using hstored
        · rw [List.append_nil]
          exact h.order hdr.agreement
  | blockAckRequest key startingSeq =>
    cases ha : r.bAckAgreements.lookup key with
    | none =>
      refine ⟨r, by rw [handle, ha], h, fun a ha' => ?_⟩
      rw [ha] at ha'
      exact absurd ha' nofun
    | some a =>
      obtain ⟨hdrains, hsmaller⟩ := hkeeps a ha
      obtain ⟨r', a', hcomplete, hsound, ha', hold⟩ := h.rxComplete (h.agreement key a ha) hdrains startingSeq
      refine ⟨r', ?_, hsound, fun x hx => ?_⟩
      · rw [handle, ha]
        exact hcomplete
      · obtain rfl := Option.some.inj (ha'.symm.trans hx)
        exact hold _ hsmaller

/-- A header of 00:00:00:00:00:01, TID 5. -/
def Small.hdr (sequenceNumber : ℕ) : RxHeader :=
  ⟨.ofOctet 2, .ofOctet 1, true, 5, false, false, sequenceNumber, 0⟩

/-- Two MPDUs are received in the wrong order, with a wrap between them, and a request for what comes then. -/
def Small.wrappedEvents : List RecipientEvent :=
  [.createBlockAckAgreement (hdr 0).agreement 4095, .qosData (hdr 0) false, .qosData (hdr 4095) false,
    .blockAckRequest (hdr 0).agreement 4095]

end Recipient

end Ns3
