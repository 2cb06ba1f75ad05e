import Ns3.Wifi.MacRxMiddle
import Mathlib.Data.List.Chain
import Mathlib.Data.List.Infix

/-!
# Defragmentation

* `Forwards` — what a receiver should do: it forwards entire MSDUs only, none twice in a row, and every MSDU whose
  fragments arrived one after the other.
* `Expected` — the frames that the code expects: where it puts an MSDU together, the last fragment is not lost; where
  it does not, the first is not lost; and duplicates are recognised by retry bit and sequence control.
* `forwards_of_expected` — a receiver that is given only such frames does what it should.
-/

namespace Ns3.Receiver

open Lib

variable (r : Receiver)

/-- The frames that were received from an originator. -/
def receivedFrom (o : Originator) : List Frame := r.received.filter fun f => f.msdu.originator = o

/-- What was forwarded from an originator. -/
def forwardedFrom (o : Originator) : List (List Piece) :=
  (r.forwarded.filter fun x => x.1 = o).map Prod.snd

/-- What a receiver should do. -/
structure Forwards (r : Receiver) : Prop where
  /-- Every packet that is forwarded is an MSDU with all its fragments in order. -/
  entire : ∀ x ∈ r.forwarded, ∃ m : Msdu, m.originator = x.1 ∧ x.2 = m.content
  /-- No MSDU is forwarded twice in a row. -/
  notTwice : ∀ o, (r.forwardedFrom o).IsChain (· ≠ ·)
  /-- An MSDU is forwarded when its fragments arrived in order and consecutively. -/
  arrived : ∀ m : Msdu, m.content <:+: (r.receivedFrom m.originator).map Frame.piece →
    m.content ∈ r.forwardedFrom m.originator

/-- The frame has been taken: it is in a packet that was forwarded, or among the fragments of one. -/
def Taken (f : Frame) : Prop :=
  f.piece ∈ (r.middle.status f.msdu.originator).fragments.flatten ∨
    ∃ p ∈ r.forwardedFrom f.msdu.originator, f.piece ∈ p

instance (r : Receiver) (f : Frame) : Decidable (r.Taken f) := inferInstanceAs (Decidable (_ ∨ _))

/-- The frames that the code expects. -/
def Expected (f : Frame) : Prop :=
  let s := r.middle.status f.msdu.originator
  if s.IsDuplicate f.hdr then r.Taken f
  else if s.defragmenting = true then
    (s.IsNextFragment f.hdr.sequenceControl → (f.msdu, f.fragment - 1) ∈ s.fragments.flatten) ∧
      (f.fragment = 0 → f.piece ∈ s.fragments.flatten)
  else f.fragment = 0 ∧ (r.forwardedFrom f.msdu.originator).getLast? ≠ some f.msdu.content

instance (r : Receiver) (f : Frame) : Decidable (r.Expected f) := by
  unfold Expected
  infer_instance

/-! ### The status of an originator -/

/-- The first fragments of an MSDU are being put together, the last of them being `i`. -/
structure Collecting (s : OriginatorRxStatus Piece) (m : Msdu) (i : ℕ) : Prop where
  defragmenting : s.defragmenting = true
  lt : i + 1 < m.fragments
  fragments : s.fragments.flatten = m.first (i + 1)
  last : s.lastSequenceControl = m.sequenceNumber * 16 + i

/-- What holds of the status of an originator. -/
def StatusSound (s : OriginatorRxStatus Piece) (o : Originator) : Prop :=
  (s.defragmenting = false → s.fragments = []) ∧
    (s.defragmenting = true → ∃ m i, m.originator = o ∧ Collecting s m i)

theorem statusSound_new (o : Originator) : StatusSound .new o := ⟨fun _ => rfl, nofun⟩

section Status

variable {s : OriginatorRxStatus Piece} {m : Msdu} {i : ℕ} {f : Frame}

@[simp] theorem mem_first {n : ℕ} {x : Piece} : x ∈ m.first n ↔ x.1 = m ∧ x.2 < n := by
  obtain ⟨m', j⟩ := x
  simp only [Msdu.first, List.mem_map, List.mem_range, Prod.mk.injEq]
  constructor
  · rintro ⟨k, hk, rfl, rfl⟩
    exact ⟨rfl, hk⟩
  · rintro ⟨rfl, hj⟩
    exact ⟨j, hj, rfl, rfl⟩

theorem first_succ (m : Msdu) (n : ℕ) : m.first (n + 1) = m.first n ++ [(m, n)] := by
  simp [Msdu.first, List.range_succ]

theorem content_ne_nil (m : Msdu) : m.content ≠ [] := by
  have hpos := m.fragments_pos
  simp [Msdu.content, Msdu.first]
  omega

theorem Collecting.isNextFragment_iff (h : Collecting s m i) :
    s.IsNextFragment f.hdr.sequenceControl ↔ f.msdu.sequenceNumber = m.sequenceNumber ∧ f.fragment = i + 1 := by
  have hi := h.lt
  have hm := m.fragments_le
  have hf := f.fragment_lt
  have hf' := f.msdu.fragments_le
  rw [OriginatorRxStatus.IsNextFragment, h.last, RxHeader.sequenceControl]
  simp only [Frame.hdr]
  omega

/-- What `Receive` does with a frame. -/
theorem receive_cases (s : OriginatorRxStatus Piece) (f : Frame) :
    (s.IsDuplicate f.hdr ∧ s.receive [f.piece] f.hdr = (none, s)) ∨
    (¬ s.IsDuplicate f.hdr ∧ s.defragmenting = true ∧ ¬ s.IsNextFragment f.hdr.sequenceControl ∧
      s.receive [f.piece] f.hdr = (none, s)) ∨
    (¬ s.IsDuplicate f.hdr ∧ s.defragmenting = true ∧ s.IsNextFragment f.hdr.sequenceControl ∧
      f.fragment + 1 < f.msdu.fragments ∧
      s.receive [f.piece] f.hdr = (none, ⟨true, f.hdr.sequenceControl, s.fragments ++ [[f.piece]]⟩)) ∨
    (¬ s.IsDuplicate f.hdr ∧ s.defragmenting = true ∧ s.IsNextFragment f.hdr.sequenceControl ∧
      f.fragment + 1 = f.msdu.fragments ∧
      s.receive [f.piece] f.hdr = (some (s.fragments.flatten ++ [f.piece]), ⟨false, f.hdr.sequenceControl, []⟩)) ∨
    (¬ s.IsDuplicate f.hdr ∧ s.defragmenting = false ∧ f.fragment + 1 < f.msdu.fragments ∧
      s.receive [f.piece] f.hdr = (none, ⟨true, f.hdr.sequenceControl, s.fragments ++ [[f.piece]]⟩)) ∨
    (¬ s.IsDuplicate f.hdr ∧ s.defragmenting = false ∧ f.fragment + 1 = f.msdu.fragments ∧
      ∃ last, s.receive [f.piece] f.hdr = (some [f.piece], ⟨false, last, s.fragments⟩)) := by
  obtain ⟨defragmenting, last, fragments⟩ := s
  have hlt := f.fragment_lt
  have hmore : f.hdr.moreFragments = decide (f.fragment + 1 < f.msdu.fragments) := rfl
  by_cases hdup : OriginatorRxStatus.IsDuplicate ⟨defragmenting, last, fragments⟩ f.hdr
  · exact .inl ⟨hdup, by rw [OriginatorRxStatus.receive, if_pos hdup]⟩
  · cases defragmenting with
    | true =>
      by_cases hnext : OriginatorRxStatus.IsNextFragment ⟨true, last, fragments⟩ f.hdr.sequenceControl
      · by_cases hlast : f.fragment + 1 < f.msdu.fragments
        · refine .inr (.inr (.inl ⟨hdup, rfl, hnext, hlast, ?_⟩))
          simp [OriginatorRxStatus.receive, OriginatorRxStatus.handleFragments, hdup, hnext, hmore, hlast,
            OriginatorRxStatus.accumulateFragment, OriginatorRxStatus.setSequenceControl]
        · refine .inr (.inr (.inr (.inl ⟨hdup, rfl, hnext, by omega, ?_⟩)))
          simp [OriginatorRxStatus.receive, OriginatorRxStatus.handleFragments, hdup, hnext, hmore, hlast,
            OriginatorRxStatus.accumulateLastFragment, OriginatorRxStatus.setSequenceControl]
      · refine .inr (.inl ⟨hdup, rfl, hnext, ?_⟩)
        simp [OriginatorRxStatus.receive, OriginatorRxStatus.handleFragments, hdup, hnext]
    | false =>
      by_cases hlast : f.fragment + 1 < f.msdu.fragments
      · refine .inr (.inr (.inr (.inr (.inl ⟨hdup, rfl, hlast, ?_⟩))))
        simp [OriginatorRxStatus.receive, OriginatorRxStatus.handleFragments, hdup, hmore, hlast,
          OriginatorRxStatus.accumulateFirstFragment, OriginatorRxStatus.setSequenceControl]
      · refine .inr (.inr (.inr (.inr (.inr ⟨hdup, rfl, by omega,
          if f.hdr.addr1.IsGroup then last else f.hdr.sequenceControl, ?_⟩))))
        by_cases hgroup : f.hdr.addr1.IsGroup <;>
          simp [OriginatorRxStatus.receive, OriginatorRxStatus.handleFragments, hdup, hmore, hlast, hgroup,
            OriginatorRxStatus.setSequenceControl]

/-! ### What one originator's frames do -/

/-- What holds of an originator: the status `s`, the frames `R` and the packets `P` from it. -/
structure SoundFrom (o : Originator) (s : OriginatorRxStatus Piece) (R : List Frame) (P : List (List Piece)) :
    Prop where
  status : StatusSound s o
  entire : ∀ p ∈ P, ∃ m : Msdu, m.originator = o ∧ p = m.content
  notTwice : P.IsChain (· ≠ ·)
  arrived : ∀ m : Msdu, m.originator = o → m.content <:+: R.map Frame.piece → m.content ∈ P
  /-- What is being put together was not just forwarded. -/
  other : ∀ m i, Collecting s m i → P.getLast? ≠ some m.content
  /-- The first fragments of an MSDU have just arrived. -/
  pending : ∀ (m : Msdu) i, m.originator = o → m.first (i + 1) <:+ R.map Frame.piece →
    m.content ∈ P ∨ ∃ j, i ≤ j ∧ Collecting s m j

theorem soundFrom_new (o : Originator) : SoundFrom o .new [] [] where
  status := statusSound_new o
  entire := by simp
  notTwice := List.IsChain.nil
  arrived m _ h := absurd (List.infix_nil.mp h) (content_ne_nil m)
  other _ _ h := absurd h.defragmenting Bool.false_ne_true
  pending m i _ h := by
    rw [first_succ] at h
    simp at h

variable {o : Originator} {R : List Frame} {P : List (List Piece)}

/-- What a frame that is expected can do: it is dropped, having been taken before or being no first fragment and not the
next one; it goes on with its MSDU; or the MSDU is complete. -/
theorem SoundFrom.receive_cases (h : SoundFrom o s R P)
    (hexpected : if s.IsDuplicate f.hdr then f.piece ∈ s.fragments.flatten ∨ ∃ p ∈ P, f.piece ∈ p
      else if s.defragmenting = true then
        (s.IsNextFragment f.hdr.sequenceControl → (f.msdu, f.fragment - 1) ∈ s.fragments.flatten) ∧
          (f.fragment = 0 → f.piece ∈ s.fragments.flatten)
      else f.fragment = 0 ∧ P.getLast? ≠ some f.msdu.content) :
    (s.receive [f.piece] f.hdr = (none, s) ∧
      ((f.piece ∈ s.fragments.flatten ∨ ∃ p ∈ P, f.piece ∈ p) ∨
        f.fragment ≠ 0 ∧ ¬ s.IsNextFragment f.hdr.sequenceControl)) ∨
    (P.getLast? ≠ some f.msdu.content ∧
      ((∃ s', s.receive [f.piece] f.hdr = (none, s') ∧ Collecting s' f.msdu f.fragment) ∨
        ∃ last, s.receive [f.piece] f.hdr = (some f.msdu.content, ⟨false, last, []⟩))) := by
  rcases Receiver.receive_cases s f with ⟨hdup, heq⟩ | ⟨hdup, hdefrag, hnext, heq⟩ |
    ⟨hdup, hdefrag, hnext, hlast, heq⟩ | ⟨hdup, hdefrag, hnext, hlast, heq⟩ | ⟨hdup, hdefrag, hlast, heq⟩ |
    ⟨hdup, hdefrag, hlast, last, heq⟩
  · rw [if_pos hdup] at hexpected
    exact .inl ⟨heq, .inl hexpected⟩
  · rw [if_neg hdup, if_pos hdefrag] at hexpected
    by_cases hzero : f.fragment = 0
    · exact .inl ⟨heq, .inl (.inl (hexpected.2 hzero))⟩
    · exact .inl ⟨heq, .inr ⟨hzero, hnext⟩⟩
  · rw [if_neg hdup, if_pos hdefrag] at hexpected
    obtain ⟨m, i, hm, hcollect⟩ := h.status.2 hdefrag
    obtain ⟨-, hi⟩ := hcollect.isNextFragment_iff.mp hnext
    have hmem := hexpected.1 hnext
    rw [hcollect.fragments, mem_first] at hmem
    obtain rfl := hmem.1
    refine .inr ⟨h.other _ i hcollect, .inl ⟨_, heq, rfl, hlast, ?_, rfl⟩⟩
    simp only [List.flatten_append, List.flatten_cons, List.flatten_nil, List.append_nil, hcollect.fragments]
    rw [hi, first_succ _ (i + 1), Frame.piece, hi]
  · rw [if_neg hdup, if_pos hdefrag] at hexpected
    obtain ⟨m, i, hm, hcollect⟩ := h.status.2 hdefrag
    obtain ⟨-, hi⟩ := hcollect.isNextFragment_iff.mp hnext
    have hmem := hexpected.1 hnext
    rw [hcollect.fragments, mem_first] at hmem
    obtain rfl := hmem.1
    refine .inr ⟨h.other _ i hcollect, .inr ⟨f.hdr.sequenceControl, ?_⟩⟩
    rw [heq, hcollect.fragments, Msdu.content, ← hlast, hi, first_succ _ (i + 1), Frame.piece, hi]
  · rw [if_neg hdup, if_neg (by simp [hdefrag])] at hexpected
    obtain ⟨hzero, hother⟩ := hexpected
    refine .inr ⟨hother, .inl ⟨_, heq, rfl, hlast, ?_, rfl⟩⟩
    simp [h.status.1 hdefrag, hzero, Frame.piece, Msdu.first]
  · rw [if_neg hdup, if_neg (by simp [hdefrag])] at hexpected
    obtain ⟨hzero, hother⟩ := hexpected
    refine .inr ⟨hother, .inr ⟨last, ?_⟩⟩
    rw [heq, h.status.1 hdefrag, Msdu.content, ← hlast, hzero]
    simp [Frame.piece, Msdu.first, hzero]

theorem first_suffix_append {m : Msdu} {i : ℕ} (h : m.first (i + 1) <:+ (R ++ [f]).map Frame.piece) :
    f.msdu = m ∧ f.fragment = i ∧ m.first i <:+ R.map Frame.piece := by
  rw [first_succ, List.map_append, List.map_singleton] at h
  obtain ⟨rest, hrest⟩ := h
  rw [← List.append_assoc] at hrest
  obtain ⟨hinit, hlast⟩ := List.append_inj' hrest rfl
  obtain ⟨hmsdu, hfragment⟩ := Prod.mk.inj (List.cons.inj hlast).1
  exact ⟨hmsdu.symm, hfragment.symm, rest, hinit⟩

/-- A frame that is expected keeps everything as it should be. -/
theorem SoundFrom.receive (h : SoundFrom o s R P) (hf : f.msdu.originator = o)
    (hexpected : if s.IsDuplicate f.hdr then f.piece ∈ s.fragments.flatten ∨ ∃ p ∈ P, f.piece ∈ p
      else if s.defragmenting = true then
        (s.IsNextFragment f.hdr.sequenceControl → (f.msdu, f.fragment - 1) ∈ s.fragments.flatten) ∧
          (f.fragment = 0 → f.piece ∈ s.fragments.flatten)
      else f.fragment = 0 ∧ P.getLast? ≠ some f.msdu.content) :
    SoundFrom o (s.receive [f.piece] f.hdr).2 (R ++ [f]) (P ++ (s.receive [f.piece] f.hdr).1.toList) := by
  -- That an MSDU is forwarded when it has arrived is a case of what is pending.
  have harrived : ∀ (s' : OriginatorRxStatus Piece) (P' : List (List Piece)), (∀ p ∈ P, p ∈ P') →
      (∀ (m : Msdu) i, m.originator = o → m.first (i + 1) <:+ (R ++ [f]).map Frame.piece →
        m.content ∈ P' ∨ ∃ j, i ≤ j ∧ Collecting s' m j) →
      ∀ m : Msdu, m.originator = o → m.content <:+: (R ++ [f]).map Frame.piece → m.content ∈ P' := by
    intro s' P' hsub hpending m hm hinfix
    rw [List.map_append, List.map_singleton] at hinfix
    rcases List.infix_concat_iff.mp hinfix with hsuffix | hinfix
    · have hpos := m.fragments_pos
      have hcount : m.fragments = m.fragments - 1 + 1 := by omega
      rw [← List.map_singleton, ← List.map_append, Msdu.content, hcount] at hsuffix
      rcases hpending m _ hm hsuffix with hmem | ⟨j, hj, hcollect⟩
      · exact hmem
      · have hlt := hcollect.lt
        omega
    · exact hsub _ (h.arrived m hm hinfix)
  rcases h.receive_cases hexpected with ⟨heq, hdropped⟩ | ⟨hother, ⟨s', heq, hcollect⟩ | ⟨last, heq⟩⟩
  · rw [heq, Option.toList_none, List.append_nil]
    have hpending : ∀ (m : Msdu) i, m.originator = o → m.first (i + 1) <:+ (R ++ [f]).map Frame.piece →
        m.content ∈ P ∨ ∃ j, i ≤ j ∧ Collecting s m j := by
      intro m i hm hsuffix
      obtain ⟨rfl, rfl, hbefore⟩ := first_suffix_append hsuffix
      rcases hdropped with (htaken | ⟨p, hp, hmem⟩) | ⟨hzero, hnext⟩
      · cases hdefrag : s.defragmenting with
        | false =>
          rw [h.status.1 hdefrag] at htaken
          exact absurd htaken List.not_mem_nil
        | true =>
          obtain ⟨m, i, -, hcollect⟩ := h.status.2 hdefrag
          rw [hcollect.fragments, mem_first] at htaken
          obtain ⟨rfl, hi⟩ := htaken
          exact .inr ⟨i, Nat.lt_succ_iff.mp hi, hcollect⟩
      · obtain ⟨m, -, rfl⟩ := h.entire p hp
        obtain ⟨rfl, -⟩ := mem_first.mp hmem
        exact .inl hp
      · obtain ⟨i, hi⟩ := Nat.exists_eq_succ_of_ne_zero hzero
        rw [hi] at hbefore
        rcases h.pending f.msdu i hm hbefore with hmem | ⟨j, hj, hcollect⟩
        · exact .inl hmem
        · refine .inr ⟨j, ?_, hcollect⟩
          rcases Nat.lt_or_eq_of_le hj with hlt | rfl
          · omega
          · exact absurd (hcollect.isNextFragment_iff.mpr ⟨rfl, hi⟩) hnext
    exact ⟨h.status, h.entire, h.notTwice, harrived s P (fun p hp => hp) hpending, h.other, hpending⟩
  · rw [heq, Option.toList_none, List.append_nil]
    have hpending : ∀ (m : Msdu) i, m.originator = o → m.first (i + 1) <:+ (R ++ [f]).map Frame.piece →
        m.content ∈ P ∨ ∃ j, i ≤ j ∧ Collecting s' m j := by
      intro m i hm hsuffix
      obtain ⟨rfl, rfl, -⟩ := first_suffix_append hsuffix
      exact .inr ⟨f.fragment, le_rfl, hcollect⟩
    refine ⟨⟨fun hdefrag => ?_, fun _ => ⟨_, _, hf, hcollect⟩⟩, h.entire, h.notTwice,
      harrived s' P (fun p hp => hp) hpending, fun m i hcollect' => ?_, hpending⟩
    · exact absurd (hdefrag.symm.trans hcollect.defragmenting) Bool.false_ne_true
    · -- Only one MSDU is being put together.
      have hmem : (m, 0) ∈ m.first (i + 1) := mem_first.mpr ⟨rfl, Nat.succ_pos i⟩
      rw [← hcollect'.fragments, hcollect.fragments, mem_first] at hmem
      obtain rfl : m = f.msdu := hmem.1
      exact hother
  · rw [heq, Option.toList_some]
    have hpending : ∀ (m : Msdu) i, m.originator = o → m.first (i + 1) <:+ (R ++ [f]).map Frame.piece →
        m.content ∈ P ++ [f.msdu.content] ∨ ∃ j, i ≤ j ∧ Collecting ⟨false, last, []⟩ m j := by
      intro m i hm hsuffix
      obtain ⟨rfl, -, -⟩ := first_suffix_append hsuffix
      exact .inl (by simp)
    refine ⟨⟨fun _ => rfl, nofun⟩, fun p hp => ?_, ?_,
      harrived _ _ (fun p hp => List.mem_append_left _ hp) hpending, fun m i hcollect => ?_, hpending⟩
    · rcases List.mem_append.mp hp with hp | hp
      · exact h.entire p hp
      · exact ⟨f.msdu, hf, List.mem_singleton.mp hp⟩
    · refine List.isChain_append.mpr ⟨h.notTwice, List.IsChain.singleton _, fun p hp q hq => ?_⟩
      rintro rfl
      rw [List.head?_cons, Option.mem_some_iff] at hq
      exact hother (hq ▸ hp)
    · exact absurd hcollect.defragmenting Bool.false_ne_true

end Status

/-! ### Runs -/

/-- What holds of every originator. -/
def Sound : Prop :=
  ∀ o, SoundFrom o (r.middle.status o) (r.receivedFrom o) (r.forwardedFrom o)

theorem Sound.forwards {r : Receiver} (h : Sound r) : Forwards r := by
  refine ⟨fun x hx => ?_, fun o => (h o).notTwice, fun m => (h m.originator).arrived m rfl⟩
  refine (h x.1).entire x.2 (List.mem_map.mpr ⟨x, List.mem_filter.mpr ⟨hx, ?_⟩, rfl⟩)
  simp

theorem receivedFrom_receive (f : Frame) (o : Originator) :
    (r.receive f).receivedFrom o = r.receivedFrom o ++ if f.msdu.originator = o then [f] else [] := by
  rw [receivedFrom, receivedFrom, receive, List.filter_append]
  split_ifs with h <;> simp [h]

theorem forwardedFrom_receive (f : Frame) (o : Originator) :
    (r.receive f).forwardedFrom o = r.forwardedFrom o ++ if f.msdu.originator = o then
      ((r.middle.status o).receive [f.piece] f.hdr).1.toList else [] := by
  rw [forwardedFrom, forwardedFrom, receive, List.filter_append, List.map_append]
  have horiginator : f.hdr.originator = f.msdu.originator := rfl
  split_ifs with h
  · rw [← h]
    simp [MacRxMiddle.receive, horiginator, List.filter_map, Function.comp_def]
  · simp [MacRxMiddle.receive, horiginator, List.filter_map, Function.comp_def, h]

theorem Sound.receive {r : Receiver} (h : Sound r) {f : Frame} (hexpected : r.Expected f) : Sound (r.receive f) := by
  intro o
  have hstatus : (r.receive f).middle.status o = if o = f.msdu.originator then
      ((r.middle.status f.msdu.originator).receive [f.piece] f.hdr).2 else r.middle.status o :=
    MacRxMiddle.status_setStatus _ _ _ _
  rw [hstatus, receivedFrom_receive, forwardedFrom_receive]
  by_cases ho : f.msdu.originator = o
  · subst ho
    rw [if_pos rfl, if_pos rfl, if_pos rfl]
    exact (h f.msdu.originator).receive rfl hexpected
  · rw [if_neg (Ne.symm ho), if_neg ho, if_neg ho, List.append_nil, List.append_nil]
    exact h o

/-- A receiver does what it should in every state of a run, if every frame is one that the code expects. -/
theorem forwards_of_expected {r : Receiver} {tr : List (Receiver × Frame)} (hrun : machine.Run new tr r)
    (hmeets : Machine.Meets Expected tr) : Machine.EveryState Forwards tr r := by
  have hnew : Sound new := fun o => by
    cases o with
    | mk source tid => cases tid <;> exact soundFrom_new _
  have hsound := hrun.everyState_of_meets hmeets hnew fun r f r' hr hf hstep => by
    obtain rfl := Option.some.inj hstep.2
    exact hr.receive hf
  exact ⟨fun x hx => (hsound.1 x hx).forwards, hsound.2.forwards⟩

/-- An MSDU in two fragments. -/
def Small.fragmented : Msdu where
  id := 0
  addr1 := .ofOctet 2
  addr2 := .ofOctet 1
  qosData := false
  qosTid := 0
  sequenceNumber := 0
  fragments := 2
  sequenceNumber_lt := by decide
  fragments_pos := by decide
  fragments_le := by decide

/-- The next one, unfragmented. -/
def Small.whole : Msdu :=
  { fragmented with
    id := 1
    sequenceNumber := 1
    fragments := 1
    sequenceNumber_lt := by decide
    fragments_pos := by decide
    fragments_le := by decide }

/-- Two fragments, the first of them sent twice. -/
def Small.repeated : List Frame :=
  [⟨fragmented, 0, false, by decide⟩, ⟨fragmented, 0, true, by decide⟩, ⟨fragmented, 1, false, by decide⟩]

/-- The MSDU is forwarded. -/
theorem forwards_repeated : ∃ out, machine.replay new Small.repeated = some out ∧ out.2.forwarded.length = 1 ∧
    Machine.EveryState Forwards out.1 out.2 := by
  obtain ⟨out, hout, hrun, hexpected, hone⟩ := Machine.exists_replay (M := machine) new Small.repeated
    (P := fun out => (∀ x ∈ out.1, Expected x.1 x.2) ∧ out.2.forwarded.length = 1) (by decide)
  exact ⟨out, hout, hone, forwards_of_expected hrun hexpected⟩

/-- When the last fragment of an MSDU is lost, the next MSDU is not forwarded. -/
theorem not_forwards : ¬ ∀ (tr : List (Receiver × Frame)) (r : Receiver), machine.Run new tr r →
    Machine.EveryState Forwards tr r := by
  intro h
  obtain ⟨out, -, hrun, hnone, harrived⟩ := Machine.exists_replay (M := machine) new
    [⟨Small.fragmented, 0, false, by decide⟩, ⟨Small.whole, 0, false, by decide⟩]
    (P := fun out => out.2.forwardedFrom Small.whole.originator = [] ∧
      (out.2.receivedFrom Small.whole.originator).map Frame.piece =
        [(Small.fragmented, 0)] ++ Small.whole.content ++ []) (by decide)
  have hforwarded := (h out.1 out.2 hrun).2.arrived Small.whole ⟨_, _, harrived.symm⟩
  rw [hnone] at hforwarded
  exact absurd hforwarded List.not_mem_nil

end Ns3.Receiver
