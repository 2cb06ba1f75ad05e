import Ns3.Internet.TcpReassembly
import Ns3.Internet.TcpSocketBase
import Ns3.Lib.Calls
import Mathlib.Algebra.Group.Int.Defs

/-!
# The receive window

Whether what `TcpRxBuffer` stores stays within `MaxBufferSize`, so that the subtraction in `AdvertisedWindowSize` does
not wrap. `Add` trims a segment to the bytes that begin with the first block stored; with nothing stored it does not
trim, and with a gap before the first block it trims too late.

* `Occupies` — the blocks stored lie within `MaxBufferSize` bytes from the first byte on that was not extracted.
* `Occupies.add`, `Occupies.extract` — one call keeps this, if a segment does not end behind these bytes or there is
  something to extract (`Fits`).
* `operations_bounded` — so do all calls.
-/

namespace Ns3

open Lib Lib.Span

/-! ### Sequence numbers around a place -/

section Places

variable {isn : UInt32}

theorem toInt_sub_seqOf {p q : ℕ} (hp : p < q + 2 ^ 31) (hq : q ≤ p + 2 ^ 31) :
    ((seqOf isn p).sub (seqOf isn q)).toInt = (p : ℤ) - q := by
  have hpv := toNat_value_seqOf isn p
  have hqv := toNat_value_seqOf isn q
  rw [SequenceNumber.sub_eq, BitVec.toInt_eq_toNat_cond, BitVec.toNat_sub, hpv, hqv]
  split_ifs <;> omega

theorem exists_place {q : ℕ} (hq : 2 ^ 31 ≤ q) (s : SequenceNumber32) :
    ∃ p : ℕ, seqOf isn p = s ∧ (p : ℤ) = q + (s.sub (seqOf isn q)).toInt := by
  have hs := s.value.isLt
  have hqv := toNat_value_seqOf isn q
  refine ⟨(q + (s.sub (seqOf isn q)).toInt).toNat, ?_, ?_⟩
  · have hvalue : (seqOf isn (q + (s.sub (seqOf isn q)).toInt).toNat).value = s.value := by
      refine BitVec.eq_of_toNat_eq ?_
      rw [toNat_value_seqOf, SequenceNumber.sub_eq, BitVec.toInt_eq_toNat_cond, BitVec.toNat_sub, hqv]
      split_ifs <;> omega
    exact congrArg SequenceNumber.mk hvalue
  · rw [SequenceNumber.sub_eq, BitVec.toInt_eq_toNat_cond, BitVec.toNat_sub, hqv]
    split_ifs <;> omega

end Places

namespace TcpRxBuffer

/-! ### Calls -/

/-- A call. -/
inductive Operation where
  /-- `Add`, of a segment with its sequence number. -/
  | add (p : List UInt8) (seq : SequenceNumber32)
  | extract (maxSize : UInt32)

/-- The buffer after a call. -/
def operate (b : TcpRxBuffer) : Operation → TcpRxBuffer
  | .add p seq => (b.add p seq).2
  | .extract maxSize => (b.extract maxSize).2

/-- A buffer of the given size, before anything was received. -/
def start (isn maxBuffer : UInt32) : TcpRxBuffer := (new isn).setMaxBufferSize maxBuffer

/-- An established socket does not take the segment to be out of range. -/
def Passes (b : TcpRxBuffer) : Operation → Prop
  | .add p seq => ∀ s : TcpSocketBase, s.rxBuffer = b → s.state = .established →
    s.outOfRange seq (seq.plus (packetSize p)) = false
  | .extract _ => True

/-- Where a segment ends, from `NextRxSequence` on. -/
def ending (b : TcpRxBuffer) (p : List UInt8) (seq : SequenceNumber32) : ℤ := (seq.sub b.nextRxSeq).toInt + p.length

/-- A segment ends at most `MaxBufferSize` bytes behind `NextRxSequence`, when there is nothing to extract. Its sequence
number, and the end of the window that it is trimmed to, are not half of the number space away. -/
def Fits (b : TcpRxBuffer) : Operation → Prop
  | .add p seq =>
    -2 ^ 31 < (seq.sub b.nextRxSeq).toInt ∧ (0 < b.availBytes.toNat ∨ b.ending p seq ≤ b.maxBuffer.toNat) ∧
      ∀ first ∈ b.data.head?,
        (first.1.sub b.nextRxSeq).toInt + b.maxBuffer.toNat < b.ending p seq + 2 ^ 31 ∧
          b.ending p seq < (first.1.sub b.nextRxSeq).toInt + b.maxBuffer.toNat + 2 ^ 31
  | .extract _ => True

instance (b : TcpRxBuffer) : ∀ c : Operation, Decidable (b.Fits c)
  | .add _ _ => inferInstanceAs (Decidable (_ ∧ (_ ∨ _) ∧ ∀ _ ∈ b.data.head?, _ ∧ _))
  | .extract _ => .isTrue trivial

/-- What is stored stays within the size of the buffer. -/
structure Bounded (b : TcpRxBuffer) : Prop where
  /-- `Size` is what is stored. -/
  size : b.size.toNat = (b.data.flatMap Prod.snd).length
  /-- It does not exceed `MaxBufferSize`. -/
  size_le : b.size ≤ b.maxBuffer
  /-- Nor does it together with the window that is advertised. -/
  window : ∀ s : TcpSocketBase, s.rxBuffer = b → s.advertisedWindowSize.toNat + b.size.toNat ≤ b.maxBuffer.toNat

/-! ### Where the blocks lie -/

/-- The block lies at the span. -/
def Shape (isn : UInt32) (d : SequenceNumber32 × List UInt8) (x : Span) : Prop :=
  d.1 = seqOf isn x.first ∧ d.2.length = x.length

theorem measures_shape (isn : UInt32) : Measures isn (Shape isn) :=
  fun _ _ h => ⟨h.1, congrArg UInt32.ofNat h.2⟩

/-- The blocks lie at the spans, which lie within `MaxBufferSize` places from `e` on, the first place that was not
extracted; `n` is the next place. -/
structure Occupies (isn : UInt32) (b : TcpRxBuffer) (l : List Span) (e n : ℕ) : Prop where
  data_rel : List.Forall₂ (Shape isn) b.data l
  inOrder : InOrder l
  le_first : ∀ x ∈ l, e ≤ x.first
  length_pos : ∀ x ∈ l, 0 < x.length
  stop_le : ∀ x ∈ l, x.stop ≤ e + b.maxBuffer.toNat
  maxBuffer_lt : b.maxBuffer.toNat < 2 ^ 31
  period_le : 2 ^ 32 ≤ e
  nextRxSeq_eq : b.nextRxSeq = seqOf isn n
  le_next : e ≤ n
  covers : ∀ p, e ≤ p → p < n → Covers l p
  not_covers : ¬ Covers l n
  availBytes_eq : b.availBytes = .ofNat (n - e)
  size_eq : b.size = .ofNat (total l)
  gotFin : b.gotFin = false

section Keeps

variable {isn : UInt32} {b : TcpRxBuffer} {l : List Span} {e n : ℕ}

theorem occupies_start (isn : UInt32) {maxBuffer : UInt32} (hmax : maxBuffer.toNat < 2 ^ 31) :
    Occupies isn (start isn maxBuffer) [] (2 ^ 32) (2 ^ 32) where
  data_rel := .nil
  inOrder := .nil
  le_first _ hx := absurd hx List.not_mem_nil
  length_pos _ hx := absurd hx List.not_mem_nil
  stop_le _ hx := absurd hx List.not_mem_nil
  maxBuffer_lt := hmax
  period_le := Nat.le_refl _
  nextRxSeq_eq := by
    rw [← Nat.zero_add (2 ^ 32), seqOf_add_period, seqOf_zero]
    rfl
  le_next := Nat.le_refl _
  covers _ hp hlt := absurd hlt (Nat.not_lt.mpr hp)
  not_covers := not_covers_nil _
  availBytes_eq := rfl
  size_eq := rfl
  gotFin := rfl

theorem Occupies.next_le (h : Occupies isn b l e n) : n ≤ e + b.maxBuffer.toNat := by
  rcases Nat.eq_or_lt_of_le h.le_next with heq | hlt
  · omega
  · obtain ⟨x, hx, -, hstop⟩ := h.covers (n - 1) (by omega) (by omega)
    have hle := h.stop_le x hx
    omega

theorem Occupies.toNat_availBytes (h : Occupies isn b l e n) : b.availBytes.toNat = n - e := by
  have hle := h.next_le
  have hmax := h.maxBuffer_lt
  rw [h.availBytes_eq, UInt32.toNat_ofNat', Nat.mod_eq_of_lt (by omega)]

/-- If there is something to extract, the first block begins with it. -/
theorem Occupies.first_eq {x : Span} (h : Occupies isn b (x :: l) e n) (havail : 0 < b.availBytes.toNat) :
    x.first = e := by
  rw [h.toNat_availBytes] at havail
  have hcovers : ∀ p, e ≤ p → p < e + (n - e) → Covers (x :: l) p := fun p hp hlt => h.covers p hp (by omega)
  have hpos := h.length_pos x List.mem_cons_self
  exact (covers_from h.inOrder h.le_first hcovers havail).1.resolve_left (Nat.ne_of_gt hpos)

theorem Occupies.beside (h : Occupies isn b l e n) {x : Span} (hx : x ∈ l) : x.stop ≤ n ∨ n ≤ x.first := by
  by_contra hboth
  exact h.not_covers ⟨x, hx, by omega, by omega⟩

variable {data : List (SequenceNumber32 × List UInt8)}

theorem length_bytes (h : List.Forall₂ (Shape isn) data l) : (data.flatMap Prod.snd).length = total l := by
  induction h with
  | nil => rfl
  | cons hd _ ih => rw [List.flatMap_cons, List.length_append, hd.2, ih, total]

theorem Occupies.bounded (h : Occupies isn b l e n) : b.Bounded := by
  have hmax := h.maxBuffer_lt
  have htotal := total_le h.inOrder (Nat.le_add_right e _) h.le_first h.stop_le
  have hsize : b.size.toNat = total l := by
    rw [h.size_eq, UInt32.toNat_ofNat', Nat.mod_eq_of_lt (by omega)]
  have hle : b.size ≤ b.maxBuffer := by
    rw [UInt32.le_iff_toNat_le]
    omega
  refine ⟨?_, hle, ?_⟩
  · rw [hsize, length_bytes h.data_rel]
  · rintro s rfl
    have hmin : min (s.rxBuffer.maxBuffer - s.rxBuffer.size) s.maxWinSize.toUInt32 ≤
        s.rxBuffer.maxBuffer - s.rxBuffer.size := by
      rw [show min (s.rxBuffer.maxBuffer - s.rxBuffer.size) s.maxWinSize.toUInt32 =
        if s.rxBuffer.maxBuffer - s.rxBuffer.size ≤ s.maxWinSize.toUInt32 then s.rxBuffer.maxBuffer - s.rxBuffer.size
        else s.maxWinSize.toUInt32 from rfl]
      split_ifs with hcmp
      · exact UInt32.le_refl _
      · exact UInt32.le_of_lt (UInt32.not_le.mp hcmp)
    have hwindow := UInt32.le_iff_toNat_le.mp hmin
    rw [UInt32.toNat_sub_of_le _ _ hle] at hwindow
    have hcut : s.advertisedWindowSize.toNat ≤
        (min (s.rxBuffer.maxBuffer - s.rxBuffer.size) s.maxWinSize.toUInt32).toNat := Nat.mod_le _ _
    rw [UInt32.le_iff_toNat_le] at hle
    omega

/-- What `Add` makes of the ends of a segment: the range from `head` to `tail`. -/
structure Window (isn : UInt32) (b : TcpRxBuffer) (l : List Span) (e n : ℕ) (p : List UInt8) (seq : SequenceNumber32)
    (s head tail m : ℕ) : Prop where
  seq_eq : seq = seqOf isn s
  head_eq : (if b.data ≠ [] ∧ (seqOf isn tail).lt (if seq.lt b.nextRxSeq then b.nextRxSeq else seq) then seqOf isn tail
    else if seq.lt b.nextRxSeq then b.nextRxSeq else seq) = seqOf isn head
  tail_eq : (if ((b.data.head?.map fun first => first.1.plus b.maxBuffer).getD (seq.plus (packetSize p))).lt
      (seq.plus (packetSize p)) then (b.data.head?.map fun first => first.1.plus b.maxBuffer).getD
        (seq.plus (packetSize p)) else seq.plus (packetSize p)) = seqOf isn tail
  tail_le : tail ≤ e + b.maxBuffer.toNat
  tail_le_stop : tail ≤ s + p.length
  le_head : head < tail → s ≤ head ∧ n ≤ head
  next_lt : n < s + 2 ^ 31
  next_window : InWindow m n
  head_window : InWindow m head
  tail_window : InWindow m tail
  inside : Inside m l

theorem Occupies.window (h : Occupies isn b l e n) {p : List UInt8} {seq : SequenceNumber32}
    (hfits : b.Fits (.add p seq)) : ∃ s head tail m, Window isn b l e n p seq s head tail m := by
  obtain ⟨hnear, hwithin, hwindow⟩ := hfits
  rw [ending] at hwithin
  simp only [ending] at hwindow
  have hperiod := h.period_le
  have hmax := h.maxBuffer_lt
  have hen := h.le_next
  have hne := h.next_le
  have havail := h.toNat_availBytes
  obtain ⟨s, rfl, hs⟩ := @exists_place isn n (by omega) seq
  rw [← h.nextRxSeq_eq] at hs
  have hlt : (SequenceNumber.sub (seqOf isn s) b.nextRxSeq).toInt < 2 ^ 31 := by
    have h2 := @BitVec.toInt_lt 32 (SequenceNumber.sub (seqOf isn s) b.nextRxSeq)
    omega
  have hstop : (seqOf isn s).plus (packetSize p) = seqOf isn (s + p.length) := by rw [packetSize, seqOf_plus]
  have hstart : (if (seqOf isn s).lt b.nextRxSeq then b.nextRxSeq else seqOf isn s) = seqOf isn (max s n) := by
    rw [h.nextRxSeq_eq, lt_seqOf ⟨by omega, by omega⟩]
    split_ifs with hcmp
    · rw [max_eq_right (Nat.le_of_lt (of_decide_eq_true hcmp))]
    · rw [max_eq_left (by rw [decide_eq_true_eq] at hcmp; omega)]
  generalize (SequenceNumber.sub (seqOf isn s) b.nextRxSeq).toInt = d at *
  cases l with
  | nil =>
    have hdata : b.data = [] := List.forall₂_nil_right_iff.mp h.data_rel
    have hnext : n = e := by
      by_contra hnot
      exact not_covers_nil e (h.covers e (Nat.le_refl e) (by omega))
    refine ⟨s, max s n, s + p.length, min n (s + p.length), rfl, ?_, ?_, by omega, Nat.le_refl _,
      fun _ => ⟨le_max_left _ _, le_max_right _ _⟩, by omega, ⟨by omega, by omega⟩, ⟨by omega, by omega⟩,
      ⟨by omega, by omega⟩, fun x hx => absurd hx List.not_mem_nil⟩
    · rw [if_neg fun hboth => hboth.1 hdata, hstart]
    · rw [hdata, hstop]
      exact ite_self _
  | cons x l =>
    obtain ⟨block, rest, hshape, -, hdata⟩ := List.forall₂_cons_right_iff.mp h.data_rel
    have hxf := h.le_first x List.mem_cons_self
    have hxs := h.stop_le x List.mem_cons_self
    have hfs := x.first_le_stop
    have hplace := hwindow block (by rw [hdata]; rfl)
    rw [hshape.1, h.nextRxSeq_eq, toInt_sub_seqOf (by omega) (by omega)] at hplace
    have hend : min (x.first + b.maxBuffer.toNat) (s + p.length) ≤ e + b.maxBuffer.toNat := by
      rcases hwithin with hpos | hle
      · rw [h.first_eq hpos]
        exact min_le_left _ _
      · by_cases hpos : 0 < b.availBytes.toNat
        · rw [h.first_eq hpos]
          exact min_le_left _ _
        · omega
    have hmaxSeq : block.1.plus b.maxBuffer = seqOf isn (x.first + b.maxBuffer.toNat) := by
      rw [hshape.1, ← seqOf_plus, UInt32.ofNat_toNat]
    have htail : (if (seqOf isn (x.first + b.maxBuffer.toNat)).lt (seqOf isn (s + p.length)) then
        seqOf isn (x.first + b.maxBuffer.toNat) else seqOf isn (s + p.length)) =
          seqOf isn (min (x.first + b.maxBuffer.toNat) (s + p.length)) := by
      rw [lt_seqOf ⟨by omega, by omega⟩]
      split_ifs with hcmp
      · rw [min_eq_left (Nat.le_of_lt (of_decide_eq_true hcmp))]
      · rw [min_eq_right (by rw [decide_eq_true_eq] at hcmp; omega)]
    obtain ⟨tail, hmin⟩ : ∃ tail, min (x.first + b.maxBuffer.toNat) (s + p.length) = tail := ⟨_, rfl⟩
    rw [hmin] at hend htail
    have hhead : (if b.data ≠ [] ∧ (seqOf isn tail).lt (seqOf isn (max s n)) then seqOf isn tail
        else seqOf isn (max s n)) = seqOf isn (if tail < max s n then tail else max s n) := by
      rw [lt_seqOf ⟨by omega, by omega⟩, hdata]
      simp only [ne_eq, reduceCtorEq, not_false_eq_true, decide_eq_true_eq, true_and]
      exact (apply_ite (seqOf isn) _ _ _).symm
    refine ⟨s, if tail < max s n then tail else max s n, tail, min e (s + p.length), rfl, ?_, ?_, hend, by omega, ?_,
      by omega, ⟨by omega, by omega⟩, ?_, ⟨by omega, by omega⟩, fun y hy => ?_⟩
    · rw [hstart]
      exact hhead
    · rw [hdata, List.head?_cons, Option.map_some, Option.getD_some, hmaxSeq, hstop]
      exact htail
    · split_ifs <;> omega
    · rw [InWindow]
      split_ifs <;> omega
    · have hyf := h.le_first y hy
      have hys := h.stop_le y hy
      have hle := y.first_le_stop
      exact ⟨⟨by omega, by omega⟩, ⟨by omega, by omega⟩⟩

/-- The next place moves on over blocks that lie within the window. -/
theorem Occupies.advance (h : Occupies isn b l e n) {l' : List Span} (hrel : List.Forall₂ (Shape isn) data l')
    (hin : InOrder l') (hmem : ∀ x ∈ l', x ∈ l ∨ n ≤ x.first ∧ x.first < x.stop ∧ x.stop ≤ e + b.maxBuffer.toNat)
    (hmore : ∀ p, Covers l p → Covers l' p) :
    Occupies isn
      { b with
        data
        size := .ofNat (total l')
        nextRxSeq := seqOf isn (reach n l')
        availBytes := b.availBytes + .ofNat (reach n l' - n) }
      l' e (reach n l') := by
  have hle := le_reach n l'
  have hen := h.le_next
  have hbeside : ∀ x ∈ l', x.stop ≤ n ∨ n ≤ x.first := by
    intro x hx
    rcases hmem x hx with hx | ⟨hx, -, -⟩
    · exact h.beside hx
    · exact .inr hx
  obtain ⟨hcovers, hnot⟩ := reach_spec hin hbeside
  refine { h with
    data_rel := hrel
    inOrder := hin
    le_first := fun x hx => ?_
    length_pos := fun x hx => ?_
    stop_le := fun x hx => ?_
    nextRxSeq_eq := rfl
    le_next := Nat.le_trans hen hle
    covers := fun p hp hlt => ?_
    not_covers := hnot
    availBytes_eq := ?_
    size_eq := rfl }
  · rcases hmem x hx with hx | ⟨hx, -, -⟩
    · exact h.le_first x hx
    · exact Nat.le_trans hen hx
  · rcases hmem x hx with hx | ⟨-, hx, -⟩
    · exact h.length_pos x hx
    · rw [stop] at hx
      omega
  · rcases hmem x hx with hx | ⟨-, -, hx⟩
    · exact h.stop_le x hx
    · exact hx
  · by_cases hn : p < n
    · exact hmore p (h.covers p hp hn)
    · exact hcovers p (Nat.not_lt.mp hn) hlt
  · dsimp only
    rw [h.availBytes_eq, ← UInt32.ofNat_add]
    congr 1
    omega

/-- A segment is added. -/
theorem Occupies.add (h : Occupies isn b l e n) {p : List UInt8} {seq : SequenceNumber32}
    (hfits : b.Fits (.add p seq)) : ∃ l' n', Occupies isn (b.add p seq).2 l' e n' := by
  obtain ⟨s, head, tail, m, rfl, hhead_eq, htail_eq, htail, hstop, hbegin, hnear, hnext, hhead, htail', hwithin⟩ :=
    h.window hfits
  have hmax := h.maxBuffer_lt
  have hne := h.le_next
  have htrim := trim_spec h.inOrder head tail
  obtain ⟨hin, hmore, hmem, htotal⟩ := store_spec h.inOrder head tail
  obtain ⟨data, hoverlap, hrel⟩ := removeOverlap_rel (measures_shape isn) h.data_rel hwithin hhead htail'
  rw [TcpRxBuffer.add]
  dsimp only
  rw [htail_eq, hhead_eq, hoverlap]
  rw [store] at hin hmore hmem htotal
  generalize trim head tail l = r at *
  obtain ⟨kept, dropped, head', tail'⟩ := r
  dsimp only at *
  have hkept : Inside m kept := fun x hx => hwithin x (htrim.sublist.subset hx)
  have hsize : b.size - .ofNat dropped = .ofNat (total kept) := by
    rw [h.size_eq, ← htrim.total_eq, UInt32.ofNat_add, UInt32.add_sub_cancel]
  have hhead_le := htrim.head_le
  have htail_le := htrim.tail_le
  rw [InWindow] at hhead htail'
  have hhead' : InWindow m head' := by
    refine ⟨by omega, ?_⟩
    have hbound := htrim.head_bound (m + 2 ^ 31 - 1) (by omega) fun x hx => Nat.le_pred_of_lt (hwithin x hx).2.2
    omega
  have htail'' : InWindow m tail' := ⟨htrim.le_tail m htail'.1 fun x hx => (hwithin x hx).1.1, by omega⟩
  rw [ge_seqOf (hhead'.near htail'')]
  have hfin : ∀ {p : Prop}, ¬ (b.gotFin = true ∧ p) := by simp [h.gotFin]
  simp only [decide_eq_true_eq]
  by_cases hempty : tail' ≤ head'
  · -- nothing is left of the segment
    rw [if_pos hempty] at hin hmore
    rw [if_pos hempty]
    refine ⟨kept, n, { h with
      data_rel := hrel
      inOrder := hin
      le_first := fun x hx => h.le_first x (htrim.sublist.subset hx)
      length_pos := fun x hx => h.length_pos x (htrim.sublist.subset hx)
      stop_le := fun x hx => h.stop_le x (htrim.sublist.subset hx)
      covers := fun p hle hlt => hmore p (h.covers p hle hlt)
      not_covers := ?_
      size_eq := hsize }⟩
    rintro ⟨x, hx, hcov⟩
    exact h.not_covers ⟨x, htrim.sublist.subset hx, hcov⟩
  · rw [if_neg hempty] at hin hmore hmem htotal
    rw [if_neg hempty]
    obtain ⟨hs, hn⟩ := hbegin (by omega)
    have hspan : (⟨head', tail' - head'⟩ : Span).stop = tail' := Nat.add_sub_cancel' (Nat.le_of_not_le hempty)
    have hlength : (createFragment p ((seqOf isn head').minus (seqOf isn s))
        ((seqOf isn tail').minus (seqOf isn head'))).length = tail' - head' := by
      rw [minus_seqOf (by omega), minus_seqOf (by omega), createFragment, UInt32.toNat_ofNat', UInt32.toNat_ofNat',
        Nat.mod_eq_of_lt (by omega), Nat.mod_eq_of_lt (by omega), List.length_take, List.length_drop]
      omega
    generalize createFragment p ((seqOf isn head').minus (seqOf isn s))
      ((seqOf isn tail').minus (seqOf isn head')) = fragment at *
    have hplace : Inside m (⟨head', tail' - head'⟩ :: kept) := by
      refine inside_cons.mpr ⟨⟨hhead', ?_⟩, hkept⟩
      rw [hspan]
      exact htail''
    have hrel' := insert_rel (measures_shape isn) (x := ⟨head', tail' - head'⟩) (p := fragment) ⟨rfl, hlength⟩ hplace
      hrel
    have hmem' : ∀ x ∈ put ⟨head', tail' - head'⟩ kept,
        x ∈ l ∨ n ≤ x.first ∧ x.first < x.stop ∧ x.stop ≤ e + b.maxBuffer.toNat := by
      intro x hx
      rcases hmem x hx with hx | ⟨hfirst, hpos, hend⟩
      · exact .inl hx
      · exact .inr ⟨by omega, hpos, by omega⟩
    have hput : Inside m (put ⟨head', tail' - head'⟩ kept) := by
      intro x hx
      rcases hmem x hx with hx | ⟨hfirst, hpos, hend⟩
      · exact hwithin x hx
      · exact ⟨⟨by omega, by omega⟩, ⟨by omega, by omega⟩⟩
    have hadvance := advance_rel (measures_shape isn) hrel' hput hnext b.availBytes
    have hnew : b.size - .ofNat dropped + packetSize fragment = .ofNat (total (put ⟨head', tail' - head'⟩ kept)) := by
      rw [hsize, packetSize, hlength, ← UInt32.ofNat_add]
      have hcount := htrim.total_eq
      congr 1
      omega
    rw [h.nextRxSeq_eq, hadvance, hnew, if_neg hfin]
    exact ⟨_, _, h.advance hrel' hin hmem' hmore⟩

/-- `Extract` takes the first places. -/
theorem take_shape {k m : ℕ} (hrel : List.Forall₂ (Shape isn) data l) (hin : InOrder l) (hl : Inside m l)
    (hlength : ∀ x ∈ l, x.length < 2 ^ 32) (hk : k < 2 ^ 32) :
    List.Forall₂ (Shape isn) (take data (.ofNat k)).2 (removeFirst k l) := by
  induction hrel generalizing k with
  | nil => exact .nil
  | @cons d x data l hd hrel ih =>
    obtain ⟨seq, p⟩ := d
    obtain ⟨hseq, hp⟩ := hd
    dsimp only at hseq hp
    subst hseq
    obtain ⟨hplace, hrest⟩ := inside_cons.mp hl
    obtain ⟨hx, hlength'⟩ := List.forall_mem_cons.mp hlength
    obtain ⟨-, hin'⟩ := inOrder_cons.mp hin
    have hzero : UInt32.ofNat k = 0 ↔ k = 0 := by
      rw [← UInt32.toNat_inj, UInt32.toNat_ofNat', Nat.mod_eq_of_lt hk]
      exact Iff.rfl
    have hle : packetSize p ≤ .ofNat k ↔ x.length ≤ k := by
      rw [packetSize, hp, UInt32.le_iff_toNat_le, UInt32.toNat_ofNat', UInt32.toNat_ofNat', Nat.mod_eq_of_lt hk,
        Nat.mod_eq_of_lt hx]
    rw [take, removeFirst]
    simp only [hzero, hle]
    split_ifs with hnone hwhole
    · exact .cons ⟨rfl, hp⟩ hrel
    · rw [packetSize, hp, ← UInt32.ofNat_sub hwhole]
      exact ih hin' hrest hlength' (by omega)
    · rw [packetSize, hp, ← UInt32.ofNat_sub (Nat.le_of_not_le hwhole), seqOf_plus]
      refine insert_rel (measures_shape isn) (x := ⟨x.first + k, x.length - k⟩) ⟨rfl, ?_⟩ (m := m) ?_ hrel
      · rw [createFragment, UInt32.toNat_ofNat', UInt32.toNat_ofNat', Nat.mod_eq_of_lt hk, Nat.mod_eq_of_lt (by omega),
          List.length_take, List.length_drop, hp]
        exact Nat.min_self _
      · have hstop : (⟨x.first + k, x.length - k⟩ : Span).stop = x.stop := by
          rw [stop, stop]
          dsimp only
          omega
        obtain ⟨⟨hfirst, -⟩, hend⟩ := hplace
        have hle := (⟨x.first + k, x.length - k⟩ : Span).first_le_stop
        rw [hstop] at hle
        rw [InWindow] at hend
        refine inside_cons.mpr ⟨⟨⟨Nat.le_trans hfirst (Nat.le_add_right _ _), by omega⟩, ?_⟩, hrest⟩
        rw [hstop]
        exact hend

/-- Bytes are extracted. -/
theorem Occupies.extract (h : Occupies isn b l e n) (maxSize : UInt32) :
    ∃ l' e', Occupies isn (b.extract maxSize).2 l' e' n := by
  have hmax := h.maxBuffer_lt
  have hne := h.next_le
  have havail := h.toNat_availBytes
  obtain ⟨k, hk, hextract⟩ := exists_min_eq_ofNat maxSize b.availBytes
  rw [havail] at hk
  rw [TcpRxBuffer.extract]
  dsimp only
  rw [hextract]
  by_cases hzero : UInt32.ofNat k = 0
  · rw [if_pos hzero]
    exact ⟨l, e, h⟩
  rw [if_neg hzero]
  have hen := h.le_next
  have hinside : Inside e l := by
    intro x hx
    have hxf := h.le_first x hx
    have hxs := h.stop_le x hx
    have hle := x.first_le_stop
    exact ⟨⟨by omega, by omega⟩, ⟨by omega, by omega⟩⟩
  have hlength : ∀ x ∈ l, x.length < 2 ^ 32 := by
    intro x hx
    have hxs := (hinside x hx).2.2
    have hxf := (hinside x hx).1.1
    rw [stop] at hxs
    omega
  have hcovers : ∀ p, e ≤ p → p < e + k → Covers l p := fun p hp hlt => h.covers p hp (by omega)
  have hremoves := removeFirst_spec h.inOrder h.le_first hcovers
  refine ⟨removeFirst k l, e + k, { h with
    data_rel := take_shape h.data_rel h.inOrder hinside hlength (by omega)
    inOrder := hremoves.inOrder
    le_first := hremoves.le_first
    length_pos := ?_
    stop_le := fun x hx => ?_
    period_le := Nat.le_trans h.period_le (Nat.le_add_right _ _)
    le_next := by omega
    covers := fun p hp hlt => (hremoves.covers_iff p hp).mpr (h.covers p (by omega) hlt)
    not_covers := ?_
    availBytes_eq := ?_
    size_eq := ?_ }⟩
  · exact length_pos_removeFirst h.inOrder h.length_pos k
  · obtain ⟨y, hy, hle⟩ := hremoves.stop_le x hx
    have hstop := h.stop_le y hy
    dsimp only
    omega
  · rw [hremoves.covers_iff n (by omega)]
    exact h.not_covers
  · dsimp only
    rw [h.availBytes_eq, ← UInt32.ofNat_sub hk, Nat.sub_sub]
  · dsimp only
    rw [h.size_eq, ← hremoves.total_eq, UInt32.ofNat_add, UInt32.add_sub_cancel]

end Keeps

/-! ### Any calls -/

/-- Whatever is added and extracted, what is stored stays within the size of the buffer, if no segment ends behind the
bytes that there is room for while there is nothing to extract. -/
theorem operations_bounded (isn : UInt32) {maxBuffer : UInt32} (hmax : maxBuffer.toNat < 2 ^ 31) {l : List Operation}
    (h : Each operate (start isn maxBuffer) Fits l) : (l.foldl operate (start isn maxBuffer)).Bounded := by
  have hoccupies : ∃ spans e n, Occupies isn (l.foldl operate (start isn maxBuffer)) spans e n := by
    refine @Each.invariant _ _ operate _ Fits l (fun b => ∃ spans e n, Occupies isn b spans e n) h
      ⟨_, _, _, occupies_start isn hmax⟩ ?_
    rintro b c ⟨spans, e, n, hb⟩ hc
    cases c with
    | add p seq =>
      obtain ⟨spans', n', hadd⟩ := hb.add hc
      exact ⟨spans', e, n', hadd⟩
    | extract maxSize =>
      obtain ⟨spans', e', hextract⟩ := hb.extract maxSize
      exact ⟨spans', e', n, hextract⟩
  obtain ⟨spans, e, n, hb⟩ := hoccupies
  exact hb.bounded

/-- Segments with a gap, over the end of the sequence numbers, and the missing one. -/
def gapped : List Operation :=
  [.add [5, 6] ⟨3#32⟩, .add [0, 1, 2, 3, 4] ⟨0xfffffffe#32⟩, .extract 4, .add [7, 8] ⟨5#32⟩]

theorem operations_bounded_gapped : (10 : UInt32).toNat < 2 ^ 31 ∧ Each operate (start 0xfffffffe 10) Fits gapped ∧
    (gapped.foldl operate (start 0xfffffffe 10)).size = 5 ∧ (gapped.foldl operate (start 0xfffffffe 10)).Bounded := by
  have hmax : (10 : UInt32).toNat < 2 ^ 31 := by decide
  have heach : Each operate (start 0xfffffffe 10) Fits gapped := by decide +kernel
  exact ⟨hmax, heach, by decide +kernel, operations_bounded _ hmax heach⟩

/-- A first segment that is larger than the buffer is stored as a whole. -/
theorem not_operations_bounded : ¬ ∀ (isn maxBuffer : UInt32) (l : List Operation),
    Each operate (start isn maxBuffer) Passes l → (l.foldl operate (start isn maxBuffer)).Bounded := by
  intro h
  have hpasses : Each operate (start 0 2) Passes [.add [1, 2, 3] ⟨0#32⟩] := by
    refine Each.concat_iff.mpr ⟨Each.nil, fun s hs hstate => ?_⟩
    rw [TcpSocketBase.outOfRange, hstate, hs]
    decide +kernel
  have hsize := (h 0 2 _ hpasses).size_le
  exact absurd hsize (by decide +kernel)

end TcpRxBuffer

end Ns3
