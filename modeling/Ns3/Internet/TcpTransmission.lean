import Ns3.Internet.TcpBuffers
import Ns3.Lib.Calls
import Ns3.Network.SequenceNumberOrder

/-!
# The transmit buffer holds a stream

`TcpTxBuffer` (`internet/model/tcp-tx-buffer.cc`): a list of packets, some of which may be empty, with the sequence
number of the first byte. It represents the bytes that were accepted and not discarded, `TxStream`: `Add` appends to
them, `DiscardUpTo` takes those before a sequence number off them, and `CopyFromSequence` reads from them.

The loops are in 32 bits, on offsets, which do not wrap as the bytes are fewer than 2^32. But the comparison with the
head takes a sequence number that is more than 2^31 bytes behind it for one before it.
-/

namespace Ns3

open Lib

/-- The bytes that were accepted and not discarded, with the sequence number of the first of them. -/
structure TxStream where
  head : SequenceNumber32
  bytes : List UInt8

namespace TxStream

/-- No bytes. -/
def new (head : UInt32) : TxStream := ⟨.ofUInt32 head, []⟩

variable (s : TxStream)

/-- How far a sequence number is behind the head. -/
def offset (seq : SequenceNumber32) : ℕ := seq.ahead s.head

/-- The sequence number behind the last byte. -/
def tail : SequenceNumber32 := s.head.plus (.ofNat s.bytes.length)

/-- Bytes are appended if there is room for all of them. -/
def add (maxBuffer : UInt32) (p : List UInt8) : TxStream :=
  if s.bytes.length + p.length ≤ maxBuffer.toNat then { s with bytes := s.bytes ++ p } else s

/-- The bytes before a sequence number are discarded. It is at most one behind the tail, which counts a `FIN`, or one
before the head. -/
def discardUpTo (seq : SequenceNumber32) : TxStream :=
  if s.offset seq ≤ s.bytes.length + 1 then ⟨seq, s.bytes.drop (s.offset seq)⟩ else s

/-- At most `n` bytes from a sequence number on. -/
def copy (n : ℕ) (seq : SequenceNumber32) : List UInt8 := (s.bytes.drop (s.offset seq)).take n

end TxStream

namespace TcpTxBuffer

/-- The number behind the last byte. -/
def tailSequence (b : TcpTxBuffer) : SequenceNumber32 := b.firstByteSeq.plus b.size

/-- The loop of `DiscardUpTo` for a number of rounds: nothing where it has not ended. A round with nothing left to
remove does nothing. -/
def discardRounds (b : TcpTxBuffer) : ℕ → UInt32 → List (List UInt8) → Option TcpTxBuffer
  | 0, _, _ => none
  | _ + 1, _, [] => some { b with data := [] }
  | rounds + 1, offset, p :: rest =>
    if offset > packetSize p then
      discardRounds { b with size := b.size - packetSize p, firstByteSeq := b.firstByteSeq.plus (packetSize p) } rounds
        (offset - packetSize p) rest
    else if offset > 0 then
      some
        { b with
          data := createFragment p offset (packetSize p - offset) :: rest
          size := b.size - offset
          firstByteSeq := b.firstByteSeq.plus offset }
    else discardRounds b rounds offset (p :: rest)

/-- `DiscardUpTo` ends, with the buffer that `discardUpTo` gives. -/
def DiscardEnds (b : TcpTxBuffer) (seq : SequenceNumber32) : Prop :=
  b.firstByteSeq.ge seq = true ∨
    ∃ rounds, b.discardRounds rounds (seq.minus b.firstByteSeq) b.data =
      some (b.discardLoop (seq.minus b.firstByteSeq) b.data)

/-- The buffer represents the stream. -/
structure Represents (b : TcpTxBuffer) (s : TxStream) : Prop where
  /-- `HeadSequence`. -/
  head : b.firstByteSeq = s.head
  /-- `TailSequence`. -/
  tail : b.tailSequence = s.tail
  size : b.size.toNat = s.bytes.length
  bytes : b.data.flatten = s.bytes
  /-- `CopyFromSequence` returns the bytes from a sequence number between head and tail on. -/
  copy : ∀ (numBytes : UInt32) (seq : SequenceNumber32), s.offset seq ≤ s.bytes.length →
    b.copyFromSequence numBytes seq = some (s.copy numBytes.toNat seq)
  /-- `DiscardUpTo` terminates. -/
  discardEnds : ∀ seq, b.DiscardEnds seq

/-! ### The loops on offsets -/

section Loops

variable {offset n count : ℕ} {l : List (List UInt8)} {p out : List UInt8}

theorem createFragment_ofNat (hoffset : offset < 2 ^ 32) (hn : n < 2 ^ 32) (p : List UInt8) :
    createFragment p (.ofNat offset) (.ofNat n) = (p.drop offset).take n := by
  rw [createFragment, UInt32.toNat_ofNat', UInt32.toNat_ofNat', Nat.mod_eq_of_lt hoffset, Nat.mod_eq_of_lt hn]

theorem gt_ofNat {i j : ℕ} (hi : i < 2 ^ 32) (hj : j < 2 ^ 32) : UInt32.ofNat i > .ofNat j ↔ j < i :=
  UInt32.ofNat_lt_iff_lt hj hi

theorem ge_ofNat {i j : ℕ} (hi : i < 2 ^ 32) (hj : j < 2 ^ 32) : UInt32.ofNat i ≥ .ofNat j ↔ j ≤ i :=
  UInt32.ofNat_le_iff_le hj hi

/-- Behind the first byte the loop of `CopyFromSequence` appends what is missing. -/
theorem copyLoop_some (hlen : count + l.flatten.length < 2 ^ 32) (hstart : count ≤ offset + n)
    (hstop : offset + n ≤ count + l.flatten.length) :
    copyLoop (.ofNat offset) (.ofNat n) (.ofNat count) (some out) l =
      some (out ++ l.flatten.take (offset + n - count)) := by
  induction l generalizing count out with
  | nil => rw [copyLoop, List.flatten_nil, List.take_nil, List.append_nil]
  | cons p l ih =>
    rw [List.flatten_cons, List.length_append] at hlen hstop
    rw [copyLoop, packetSize, ← UInt32.ofNat_add, ← UInt32.ofNat_add]
    have hiff := @ge_ofNat (count + p.length) (offset + n) (by omega) (by omega)
    split_ifs with hlast
    · rw [hiff] at hlast
      rw [← UInt32.ofNat_sub hstart, show (0 : UInt32) = .ofNat 0 from rfl, createFragment_ofNat (by omega) (by omega),
        List.drop_zero, List.flatten_cons, List.take_append_of_le_length (by omega)]
    · rw [hiff] at hlast
      rw [ih (by omega) (by omega) (by omega), List.flatten_cons, List.take_append, List.append_assoc,
        List.take_of_length_le (l := p) (by omega),
        show offset + n - count - p.length = offset + n - (count + p.length) by omega]

/-- The loop of `CopyFromSequence` from its start on. -/
theorem copyLoop_none (hlen : count + l.flatten.length < 2 ^ 32) (hcount : count ≤ offset) (hpos : 0 < n)
    (hstop : offset + n ≤ count + l.flatten.length) :
    copyLoop (.ofNat offset) (.ofNat n) (.ofNat count) none l = some ((l.flatten.drop (offset - count)).take n) := by
  induction l generalizing count with
  | nil =>
    rw [List.flatten_nil, List.length_nil] at hstop
    omega
  | cons p l ih =>
    rw [List.flatten_cons, List.length_append] at hlen hstop
    rw [copyLoop, packetSize, ← UInt32.ofNat_add, List.flatten_cons]
    have hiff := @gt_ofNat (count + p.length) offset (by omega) (by omega)
    split_ifs with hfirst
    · rw [hiff] at hfirst
      dsimp only
      rw [← UInt32.ofNat_sub (by omega), ← UInt32.ofNat_sub (by omega), List.drop_append_of_le_length (by omega)]
      have hiff := @ge_ofNat (count + p.length - offset) n (by omega) (by omega)
      have hdrop : (p.drop (offset - count)).length = count + p.length - offset := by
        rw [List.length_drop]
        omega
      split_ifs with hwhole
      · rw [hiff] at hwhole
        rw [createFragment_ofNat (by omega) (by omega), List.take_append_of_le_length (by omega)]
      · rw [hiff] at hwhole
        rw [createFragment_ofNat (by omega) (by omega), copyLoop_some (by omega) (by omega) (by omega),
          List.take_of_length_le (l := p.drop (offset - count)) (by omega), List.take_append,
          List.take_of_length_le (l := p.drop (offset - count)) (by omega), hdrop,
          show offset + n - (count + p.length) = n - (count + p.length - offset) by omega]
    · rw [hiff] at hfirst
      rw [ih (by omega) (by omega) (by omega), List.drop_append,
        List.drop_eq_nil_of_le (show p.length ≤ offset - count by omega), List.nil_append,
        show offset - count - p.length = offset - (count + p.length) by omega]

/-- The loop of `DiscardUpTo` takes bytes off the front, as many as there are. -/
theorem discardLoop_spec (b : TcpTxBuffer) (hsize : b.size = .ofNat l.flatten.length) (hlen : l.flatten.length < 2 ^ 32)
    (hoffset : offset < 2 ^ 32) :
    (b.discardLoop (.ofNat offset) l).data.flatten = l.flatten.drop offset ∧
      (b.discardLoop (.ofNat offset) l).size = .ofNat (l.flatten.length - offset) ∧
      (b.discardLoop (.ofNat offset) l).firstByteSeq = b.firstByteSeq.plus (.ofNat (min offset l.flatten.length)) ∧
      (b.discardLoop (.ofNat offset) l).maxBuffer = b.maxBuffer := by
  induction l generalizing b offset with
  | nil =>
    rw [discardLoop]
    refine ⟨List.drop_nil.symm, ?_, ?_, rfl⟩
    · rw [List.flatten_nil, List.length_nil, Nat.zero_sub]
      exact hsize
    · rw [List.flatten_nil, List.length_nil, Nat.min_zero]
      exact (SequenceNumber32.plus_zero _).symm
  | cons p l ih =>
    rw [List.flatten_cons, List.length_append] at hsize hlen
    rw [discardLoop, packetSize, List.flatten_cons]
    have hiff := @gt_ofNat offset p.length hoffset (by omega)
    split_ifs with hwhole
    · rw [hiff] at hwhole
      have hsize' : b.size - .ofNat p.length = .ofNat l.flatten.length := by
        rw [hsize, ← UInt32.ofNat_sub (by omega), Nat.add_sub_cancel_left]
      rw [← UInt32.ofNat_sub (by omega)]
      obtain ⟨hdata, hrest, hfirst, hmax⟩ := @ih (offset - p.length)
        { b with size := b.size - .ofNat p.length, firstByteSeq := b.firstByteSeq.plus (.ofNat p.length) } hsize'
        (by omega) (by omega)
      refine ⟨?_, ?_, ?_, hmax⟩
      · rw [hdata, List.drop_append, List.drop_eq_nil_of_le (Nat.le_of_lt hwhole), List.nil_append]
      · rw [hrest, List.length_append]
        congr 1
        omega
      · rw [hfirst, SequenceNumber32.plus_plus, List.length_append]
        congr 2
        omega
    · rw [hiff] at hwhole
      rw [← UInt32.ofNat_sub (by omega)]
      refine ⟨?_, ?_, ?_, rfl⟩
      · dsimp only
        rw [createFragment_ofNat hoffset (by omega), List.flatten_cons, List.drop_append_of_le_length (by omega),
          List.take_of_length_le (by rw [List.length_drop])]
      · dsimp only
        rw [hsize, ← UInt32.ofNat_sub (by omega), List.length_append]
      · rw [List.length_append, Nat.min_eq_left (by omega)]

/-- The loop of `DiscardUpTo` always has bytes to remove, so it ends. -/
theorem exists_discardRounds (b : TcpTxBuffer) {offset : UInt32} (hoffset : 0 < offset.toNat) :
    ∃ rounds, b.discardRounds rounds offset l = some (b.discardLoop offset l) := by
  induction l generalizing b offset with
  | nil => exact ⟨1, rfl⟩
  | cons p l ih =>
    by_cases hwhole : offset > packetSize p
    · have hrest : 0 < (offset - packetSize p).toNat := by
        have hlt : (packetSize p).toNat < offset.toNat := hwhole
        rw [UInt32.toNat_sub_of_le _ _ (UInt32.le_of_lt hwhole)]
        omega
      obtain ⟨rounds, hrounds⟩ := ih
        { b with size := b.size - packetSize p, firstByteSeq := b.firstByteSeq.plus (packetSize p) } hrest
      refine ⟨rounds + 1, ?_⟩
      rw [discardRounds, discardLoop, if_pos hwhole, if_pos hwhole, hrounds]
    · refine ⟨1, ?_⟩
      rw [discardRounds, discardLoop, if_neg hwhole, if_neg hwhole,
        if_pos (show offset > 0 from UInt32.lt_iff_toNat_lt.mpr hoffset)]

theorem discardEnds (b : TcpTxBuffer) (seq : SequenceNumber32) : b.DiscardEnds seq := by
  by_cases heq : seq = b.firstByteSeq
  · refine .inl ?_
    rw [SequenceNumber.ge, decide_eq_true heq.symm, Bool.or_true]
  · refine .inr (exists_discardRounds b ?_)
    rw [SequenceNumber32.toNat_minus]
    exact Nat.pos_of_ne_zero (mt SequenceNumber.ahead_eq_zero_iff.mp heq)

end Loops

/-! ### Calls -/

/-- The buffer holds the stream. -/
structure Holds (maxBuffer : UInt32) (b : TcpTxBuffer) (s : TxStream) : Prop where
  maxBuffer_eq : b.maxBuffer = maxBuffer
  firstByteSeq_eq : b.firstByteSeq = s.head
  size_eq : b.size = .ofNat s.bytes.length
  flatten_eq : b.data.flatten = s.bytes
  length_le : s.bytes.length ≤ maxBuffer.toNat

section Calls

variable {maxBuffer : UInt32} {b : TcpTxBuffer} {s : TxStream}

theorem Holds.length_lt (h : Holds maxBuffer b s) : s.bytes.length < 2 ^ 32 :=
  Nat.lt_of_le_of_lt h.length_le maxBuffer.toNat_lt

theorem Holds.add (h : Holds maxBuffer b s) {p : List UInt8} (hp : p.length < 2 ^ 32) :
    Holds maxBuffer (b.add p).2 (s.add maxBuffer p) := by
  have hlen := h.length_lt
  have hroom : packetSize p ≤ b.available ↔ s.bytes.length + p.length ≤ maxBuffer.toNat := by
    have hle := h.length_le
    rw [available, h.maxBuffer_eq, h.size_eq, UInt32.le_iff_toNat_le, UInt32.toNat_sub_of_le _ _ ?_, packetSize,
      UInt32.toNat_ofNat', UInt32.toNat_ofNat', Nat.mod_eq_of_lt hp, Nat.mod_eq_of_lt hlen]
    · omega
    · rwa [UInt32.le_iff_toNat_le, UInt32.toNat_ofNat', Nat.mod_eq_of_lt hlen]
  rw [TcpTxBuffer.add, TxStream.add]
  by_cases hfits : s.bytes.length + p.length ≤ maxBuffer.toNat
  · rw [if_pos (hroom.mpr hfits), if_pos hfits]
    dsimp only
    have hempty : packetSize p > 0 ↔ p ≠ [] := by
      rw [packetSize, show (0 : UInt32) = .ofNat 0 from rfl, gt_ofNat hp (by decide), List.length_pos_iff]
    split_ifs with hpos
    · exact
        { maxBuffer_eq := h.maxBuffer_eq
          firstByteSeq_eq := h.firstByteSeq_eq
          size_eq := by rw [h.size_eq, packetSize, List.length_append, UInt32.ofNat_add]
          flatten_eq := by rw [List.flatten_append, h.flatten_eq, List.flatten_singleton]
          length_le := by rwa [List.length_append] }
    · have hnil : p = [] := not_not.mp (mt hempty.mpr hpos)
      rw [hnil, List.append_nil]
      exact h
  · rw [if_neg (mt hroom.mp hfits), if_neg hfits]
    exact h

theorem ge_head_iff (s : TxStream) {seq : SequenceNumber32} (hseq : s.offset seq ≠ 2 ^ 31) :
    s.head.ge seq = true ↔ s.offset seq = 0 ∨ 2 ^ 31 < s.offset seq := by
  have hlt : s.offset seq < 2 ^ 32 := (seq.value - s.head.value).isLt
  rw [TxStream.offset] at hseq hlt ⊢
  rw [SequenceNumber.ge, Bool.or_eq_true, decide_eq_true_eq, SequenceNumber.gt_iff_ahead (by decide)]
  by_cases heq : seq = s.head
  · exact iff_of_true (.inr heq.symm) (.inl (SequenceNumber.ahead_eq_zero_iff.mpr heq))
  · have hne : seq.ahead s.head ≠ 0 := mt SequenceNumber.ahead_eq_zero_iff.mp heq
    have hsum := SequenceNumber.ahead_add_ahead heq
    rw [SequenceNumber.HalfApart, or_iff_left (Ne.symm heq)]
    omega

theorem Holds.discardUpTo (h : Holds maxBuffer b s) {seq : SequenceNumber32}
    (hseq : s.offset seq ≤ s.bytes.length + 1 ∧ s.offset seq < 2 ^ 31 ∨
      s.bytes.length + 1 < s.offset seq ∧ 2 ^ 31 < s.offset seq) :
    Holds maxBuffer (b.discardUpTo seq) (s.discardUpTo seq) := by
  have hlen := h.length_lt
  have hge := @ge_head_iff s seq (by omega)
  rw [TcpTxBuffer.discardUpTo, TxStream.discardUpTo, h.firstByteSeq_eq]
  by_cases hnothing : s.head.ge seq = true
  · rw [if_pos hnothing]
    rcases hge.mp hnothing with hzero | hbehind
    · rw [hzero, if_pos (Nat.zero_le _), List.drop_zero, SequenceNumber.ahead_eq_zero_iff.mp hzero]
      exact h
    · rw [if_neg (by omega)]
      exact h
  · rw [if_neg hnothing]
    have hrange : 0 < s.offset seq ∧ s.offset seq < 2 ^ 31 := by
      rw [hge] at hnothing
      omega
    have hminus : seq.minus s.head = .ofNat (s.offset seq) := by
      rw [TxStream.offset, ← SequenceNumber32.toNat_minus, UInt32.ofNat_toNat]
    rw [← h.flatten_eq] at hlen
    obtain ⟨hdata, hsize, hfirst, hmax⟩ :=
      @discardLoop_spec (s.offset seq) b.data b (by rw [h.flatten_eq]; exact h.size_eq) hlen (by omega)
    rw [h.flatten_eq] at hdata hsize hfirst hlen
    rw [h.firstByteSeq_eq] at hfirst
    rw [hminus, if_pos (show s.offset seq ≤ s.bytes.length + 1 by omega)]
    have hzero : (b.discardLoop (.ofNat (s.offset seq)) b.data).size = 0 ↔ s.bytes.length ≤ s.offset seq := by
      rw [hsize, ← UInt32.toNat_inj, UInt32.toNat_ofNat', Nat.mod_eq_of_lt (by omega), UInt32.toNat_zero]
      omega
    have hrest : (s.bytes.drop (s.offset seq)).length ≤ maxBuffer.toNat := by
      rw [List.length_drop]
      exact Nat.le_trans (Nat.sub_le _ _) h.length_le
    have hsize' :
        (b.discardLoop (.ofNat (s.offset seq)) b.data).size = .ofNat (s.bytes.drop (s.offset seq)).length := by
      rw [hsize, List.length_drop]
    dsimp only
    split_ifs with hempty
    · exact ⟨hmax.trans h.maxBuffer_eq, rfl, hsize', hdata, hrest⟩
    · rw [hzero] at hempty
      rw [Nat.min_eq_left (by omega), TxStream.offset, SequenceNumber32.plus_ahead] at hfirst
      exact ⟨hmax.trans h.maxBuffer_eq, hfirst, hsize', hdata, hrest⟩

theorem Holds.copy (h : Holds maxBuffer b s) (numBytes : UInt32) {seq : SequenceNumber32}
    (hseq : s.offset seq ≤ s.bytes.length) : b.copyFromSequence numBytes seq = some (s.copy numBytes.toNat seq) := by
  have hlen := h.length_lt
  have hplus : seq = s.head.plus (.ofNat (s.offset seq)) := (SequenceNumber32.plus_ahead seq s.head).symm
  have hleft : b.sizeFromSequence seq = .ofNat (s.bytes.length - s.offset seq) := by
    rw [sizeFromSequence, h.firstByteSeq_eq, h.size_eq]
    nth_rewrite 1 [hplus]
    exact SequenceNumber32.minus_plus s.head hseq
  have hmin : min numBytes (b.sizeFromSequence seq) = .ofNat (min numBytes.toNat (s.bytes.length - s.offset seq)) := by
    have hle : numBytes ≤ b.sizeFromSequence seq ↔ numBytes.toNat ≤ s.bytes.length - s.offset seq := by
      rw [hleft, UInt32.le_iff_toNat_le, UInt32.toNat_ofNat', Nat.mod_eq_of_lt (by omega)]
    change (if numBytes ≤ b.sizeFromSequence seq then numBytes else b.sizeFromSequence seq) = _
    split_ifs with h'
    · rw [Nat.min_eq_left (hle.mp h'), UInt32.ofNat_toNat]
    · rw [Nat.min_eq_right (Nat.le_of_not_le (mt hle.mpr h')), hleft]
  have hdrop : (s.bytes.drop (s.offset seq)).length = s.bytes.length - s.offset seq := List.length_drop
  have htake : s.copy numBytes.toNat seq =
      (s.bytes.drop (s.offset seq)).take (min numBytes.toNat (s.bytes.length - s.offset seq)) := by
    rw [TxStream.copy, List.take_eq_take_iff, hdrop]
    omega
  have hoffset : seq.minus b.firstByteSeq = .ofNat (s.offset seq) := by
    rw [h.firstByteSeq_eq, TxStream.offset, ← SequenceNumber32.toNat_minus, UInt32.ofNat_toNat]
  rw [copyFromSequence, hmin, hoffset, htake]
  generalize hk : min numBytes.toNat (s.bytes.length - s.offset seq) = k
  have hle : s.offset seq + k ≤ s.bytes.length := by omega
  have hzero : UInt32.ofNat k = 0 ↔ k = 0 := by
    rw [← UInt32.toNat_inj, UInt32.toNat_ofNat', Nat.mod_eq_of_lt (by omega), UInt32.toNat_zero]
  split_ifs with hnone hdata
  · rw [hzero.mp hnone, List.take_zero]
  · rw [← h.flatten_eq, hdata, List.flatten_nil, List.length_nil] at hle
    exact absurd (hzero.mpr (by omega)) hnone
  · have hloop := @copyLoop_none (s.offset seq) k 0 b.data (by rw [h.flatten_eq]; omega) (Nat.zero_le _)
      (Nat.pos_of_ne_zero (mt hzero.mpr hnone)) (by rw [h.flatten_eq]; omega)
    rw [show (0 : UInt32) = .ofNat 0 from rfl, hloop, h.flatten_eq, Nat.sub_zero]

theorem Holds.represents (h : Holds maxBuffer b s) : b.Represents s where
  head := h.firstByteSeq_eq
  tail := by rw [tailSequence, TxStream.tail, h.firstByteSeq_eq, h.size_eq]
  size := by rw [h.size_eq, UInt32.toNat_ofNat', Nat.mod_eq_of_lt h.length_lt]
  bytes := h.flatten_eq
  copy := fun numBytes _ hseq => h.copy numBytes hseq
  discardEnds := b.discardEnds

end Calls

section Runs

/-- A call that changes the buffer. -/
inductive Call where
  | add (p : List UInt8)
  | discardUpTo (seq : SequenceNumber32)

/-- The buffer after a call. -/
def call (b : TcpTxBuffer) : Call → TcpTxBuffer
  | .add p => (b.add p).2
  | .discardUpTo seq => b.discardUpTo seq

/-- The stream after a call. -/
def Call.run (maxBuffer : UInt32) (s : TxStream) : Call → TxStream
  | .add p => s.add maxBuffer p
  | .discardUpTo seq => s.discardUpTo seq

/-- The buffer after calls, from an empty one of a size and with a head sequence number. -/
def calls (head maxBuffer : UInt32) (l : List Call) : TcpTxBuffer :=
  l.foldl call ((new head).setMaxBufferSize maxBuffer)

/-- The stream after calls. -/
def streamOf (head maxBuffer : UInt32) (l : List Call) : TxStream :=
  l.foldl (Call.run maxBuffer) (.new head)

/-- A packet has a size of 32 bits. What is discarded ends at most one behind the tail and less than `range` behind the
head, or the sequence number is one before the head. -/
def Call.Legal (range : ℕ) (s : TxStream) : Call → Prop
  | .add p => p.length < 2 ^ 32
  | .discardUpTo seq => s.offset seq ≤ s.bytes.length + 1 ∧ s.offset seq < range ∨
      s.bytes.length + 1 < s.offset seq ∧ 2 ^ 31 < s.offset seq

instance (range : ℕ) (s : TxStream) : (c : Call) → Decidable (c.Legal range s)
  | .add _ => inferInstanceAs (Decidable (_ < _))
  | .discardUpTo _ => inferInstanceAs (Decidable (_ ∧ _ ∨ _ ∧ _))

variable {head maxBuffer : UInt32}

theorem holds_calls {l : List Call} (hlegal : Each (Call.run maxBuffer) (.new head) (Call.Legal (2 ^ 31)) l) :
    Holds maxBuffer (calls head maxBuffer l) (streamOf head maxBuffer l) := by
  refine hlegal.simulation (R := Holds maxBuffer) ⟨rfl, rfl, rfl, rfl, Nat.zero_le _⟩ fun b s c h hc => ?_
  cases c with
  | add p => exact h.add hc
  | discardUpTo seq => exact h.discardUpTo hc

/-- After any calls the buffer represents the accepted bytes that were not discarded. -/
theorem calls_represents (head maxBuffer : UInt32) {l : List Call}
    (hlegal : Each (Call.run maxBuffer) (.new head) (Call.Legal (2 ^ 31)) l) :
    (calls head maxBuffer l).Represents (streamOf head maxBuffer l) := (holds_calls hlegal).represents

/-- Two packets over the end of the sequence numbers, the first of them discarded in part and then the whole, with a
`FIN`. -/
def wrapping : List Call :=
  [.add [1, 2, 3], .add [4, 5], .discardUpTo ⟨0⟩, .discardUpTo ⟨1⟩, .discardUpTo ⟨4⟩, .add [6]]

theorem calls_represents_wrapping : (streamOf 0xfffffffe 100 wrapping).bytes = [6] ∧
    (calls 0xfffffffe 100 wrapping).Represents (streamOf 0xfffffffe 100 wrapping) :=
  ⟨by decide +kernel, calls_represents 0xfffffffe 100 (by decide +kernel)⟩

/-- The sequence number at the end of 2^31 bytes is taken for one before them. -/
theorem not_represents_of_length {p : List UInt8} (hp : p.length = 2 ^ 31) :
    Each (Call.run 0xffffffff) (.new 0) (Call.Legal (2 ^ 32)) [.add p, .discardUpTo ⟨0x80000000⟩] ∧
      ¬ (calls 0 0xffffffff [.add p, .discardUpTo ⟨0x80000000⟩]).Represents
        (streamOf 0 0xffffffff [.add p, .discardUpTo ⟨0x80000000⟩]) := by
  have hadd : Call.run 0xffffffff (.new 0) (.add p) = ⟨⟨0⟩, p⟩ := by
    rw [Call.run, TxStream.add, if_pos (by rw [hp]; decide)]
    rfl
  have hoffset : TxStream.offset ⟨⟨0⟩, p⟩ ⟨0x80000000⟩ = 2 ^ 31 := by
    change (⟨0x80000000⟩ : SequenceNumber32).ahead ⟨0⟩ = 2 ^ 31
    decide
  have hroom : ∀ range, Call.Legal range (.new 0) (.add p) := by
    intro range
    rw [Call.Legal, hp]
    decide
  have hfirst := (@holds_calls 0 0xffffffff [.add p] (Each.concat_iff (l := []).mpr ⟨.nil, hroom _⟩)).firstByteSeq_eq
  rw [streamOf, List.foldl_cons, List.foldl_nil, hadd, calls, List.foldl_cons, List.foldl_nil] at hfirst
  constructor
  · refine Each.concat_iff (l := [Call.add p]).mpr ⟨Each.concat_iff (l := []).mpr ⟨.nil, hroom _⟩, ?_⟩
    rw [List.foldl_cons, List.foldl_nil, hadd, Call.Legal, hoffset]
    dsimp only
    rw [hp]
    decide
  · intro h
    have hhead := h.head
    rw [calls, List.foldl_cons, List.foldl_cons, List.foldl_nil, call.eq_2, TcpTxBuffer.discardUpTo, hfirst,
      if_pos (show (⟨0⟩ : SequenceNumber32).ge ⟨0x80000000⟩ = true by decide), hfirst, streamOf, List.foldl_cons,
      List.foldl_cons, List.foldl_nil, hadd, Call.run,
      TxStream.discardUpTo, hoffset] at hhead
    dsimp only at hhead
    rw [hp, if_pos (by decide)] at hhead
    exact absurd hhead (show (⟨0⟩ : SequenceNumber32) ≠ ⟨0x80000000⟩ by decide)

/-- A buffer of 2^31 bytes, all of which are discarded. -/
def half : List Call := [.add (List.replicate (2 ^ 31) 0), .discardUpTo ⟨0x80000000⟩]

theorem not_calls_represents_half : Each (Call.run 0xffffffff) (.new 0) (Call.Legal (2 ^ 32)) half ∧
    ¬ (calls 0 0xffffffff half).Represents (streamOf 0 0xffffffff half) :=
  not_represents_of_length List.length_replicate

end Runs

end TcpTxBuffer

end Ns3
