import Ns3.Internet.TcpHandlers
import Ns3.Internet.TcpTransmission
import Mathlib.Algebra.GroupWithZero.Nat

/-!
# Where the next sequence number and the highest mark are

* The transmit buffer: `m_size` is the sum of the sizes of the packets, so `SizeFromSequence` and `CopyFromSequence` are
  about these sizes as long as they come to less than `2 ^ 32`.
* `Safe` — `m_nextTxSequence` is in the buffer or at its end, and so is `m_highTxMark`, unless more was acknowledged
  than it tells and nothing was sent since. It is kept by all that a socket does (`Safe.run`).
-/

namespace Ns3

open Lib

namespace TcpTxBuffer

/-! ### The sizes of the packets -/

/-- What the sizes of the packets come to. -/
def sizes (l : List (List UInt8)) : ℕ := (l.map fun p => (packetSize p).toNat).sum

theorem sizes_cons (p : List UInt8) (l : List (List UInt8)) : sizes (p :: l) = (packetSize p).toNat + sizes l := by
  rw [sizes, List.map_cons, List.sum_cons, sizes]

theorem sizes_append (l₁ l₂ : List (List UInt8)) : sizes (l₁ ++ l₂) = sizes l₁ + sizes l₂ := by
  rw [sizes, List.map_append, List.sum_append, sizes, sizes]

theorem packetSize_append (p q : List UInt8) : packetSize (p ++ q) = packetSize p + packetSize q := by
  rw [packetSize, List.length_append, UInt32.ofNat_add, packetSize, packetSize]

theorem toNat_ofNat_of_lt {n : ℕ} (h : n < 2 ^ 32) : (UInt32.ofNat n).toNat = n := by
  rw [UInt32.toNat_ofNat', Nat.mod_eq_of_lt h]

theorem toNat_packetSize_le (p : List UInt8) : (packetSize p).toNat ≤ p.length := by
  rw [packetSize, UInt32.toNat_ofNat']
  exact Nat.mod_le _ _

theorem packetSize_createFragment {p : List UInt8} {start length : UInt32}
    (h : start.toNat + length.toNat ≤ (packetSize p).toNat) : packetSize (createFragment p start length) = length := by
  have hle := toNat_packetSize_le p
  rw [packetSize, createFragment, List.length_take, List.length_drop, Nat.min_eq_left (by omega), UInt32.ofNat_toNat]

/-- `DiscardUpTo` removes as many bytes as there are. -/
theorem sizes_discardLoop (b : TcpTxBuffer) (offset : UInt32) (l : List (List UInt8)) :
    sizes (b.discardLoop offset l).data = sizes l - offset.toNat ∧
      (b.discardLoop offset l).size = b.size - .ofNat (min offset.toNat (sizes l)) ∧
      (b.discardLoop offset l).firstByteSeq = b.firstByteSeq.plus (.ofNat (min offset.toNat (sizes l))) := by
  induction l generalizing b offset with
  | nil =>
    rw [discardLoop, show sizes [] = 0 from rfl, Nat.min_zero, Nat.zero_sub]
    exact ⟨rfl, (UInt32.sub_zero _).symm, (SequenceNumber32.plus_zero _).symm⟩
  | cons p l ih =>
    rw [discardLoop, sizes_cons]
    split_ifs with hwhole
    · have hlt : (packetSize p).toNat < offset.toNat := hwhole
      have hrest : (offset - packetSize p).toNat = offset.toNat - (packetSize p).toNat :=
        UInt32.toNat_sub_of_le _ _ (UInt32.le_of_lt hwhole)
      obtain ⟨hdata, hsize, hfirst⟩ :=
        ih { b with size := b.size - packetSize p, firstByteSeq := b.firstByteSeq.plus (packetSize p) }
          (offset - packetSize p)
      have hmin : min offset.toNat ((packetSize p).toNat + sizes l) =
          (packetSize p).toNat + min (offset - packetSize p).toNat (sizes l) := by omega
      rw [hdata, hsize, hfirst, hmin]
      refine ⟨by omega, ?_, ?_⟩
      · rw [UInt32.ofNat_add, UInt32.ofNat_toNat]
        dsimp only
        grind
      · rw [← SequenceNumber32.plus_plus, UInt32.ofNat_toNat]
    · have hle : offset.toNat ≤ (packetSize p).toNat := Nat.not_lt.mp hwhole
      have hsub : (packetSize p - offset).toNat = (packetSize p).toNat - offset.toNat :=
        UInt32.toNat_sub_of_le _ _ (UInt32.le_iff_toNat_le.mpr hle)
      rw [sizes_cons, packetSize_createFragment (by omega), hsub, Nat.min_eq_left (by omega), UInt32.ofNat_toNat]
      exact ⟨by omega, rfl, rfl⟩

/-- Behind the first byte the loop of `CopyFromSequence` copies what is missing, and nothing else. -/
theorem packetSize_copyLoop_some {offset n count : ℕ} {out r : List UInt8} {l : List (List UInt8)}
    (hlen : count + sizes l < 2 ^ 32) (hstart : offset ≤ count) (hcount : count ≤ offset + n)
    (hstop : offset + n ≤ count + sizes l) (hout : packetSize out = .ofNat (count - offset))
    (hr : copyLoop (.ofNat offset) (.ofNat n) (.ofNat count) (some out) l = some r) : packetSize r = .ofNat n := by
  induction l generalizing count out with
  | nil =>
    rw [copyLoop] at hr
    rw [← Option.some.inj hr, hout, show sizes [] = 0 from rfl] at *
    congr 1
    omega
  | cons p l ih =>
    rw [sizes_cons] at hlen hstop
    rw [copyLoop, ← @UInt32.ofNat_toNat (packetSize p), ← UInt32.ofNat_add, ← UInt32.ofNat_add] at hr
    have hiff := @ge_ofNat (count + (packetSize p).toNat) (offset + n) (by omega) (by omega)
    split_ifs at hr with hlast
    · rw [hiff] at hlast
      rw [← UInt32.ofNat_sub hcount] at hr
      have hfragment : packetSize (createFragment p 0 (.ofNat (offset + n - count))) = .ofNat (offset + n - count) := by
        apply packetSize_createFragment
        rw [toNat_ofNat_of_lt (by omega), UInt32.toNat_zero]
        omega
      rw [← Option.some.inj hr, packetSize_append, hout, hfragment, ← UInt32.ofNat_add]
      congr 1
      omega
    · rw [hiff] at hlast
      refine ih (by omega) (by omega) (by omega) (by omega) ?_ hr
      rw [packetSize_append, hout]
      nth_rewrite 1 [← @UInt32.ofNat_toNat (packetSize p)]
      rw [← UInt32.ofNat_add]
      congr 1
      omega

/-- The loop of `CopyFromSequence` copies as many bytes as it is asked for. -/
theorem packetSize_copyLoop_none {offset n count : ℕ} {r : List UInt8} {l : List (List UInt8)}
    (hlen : count + sizes l < 2 ^ 32) (hcount : count ≤ offset) (hstop : offset + n ≤ count + sizes l)
    (hr : copyLoop (.ofNat offset) (.ofNat n) (.ofNat count) none l = some r) : packetSize r = .ofNat n := by
  induction l generalizing count with
  | nil =>
    rw [copyLoop] at hr
    exact absurd hr (Option.some_ne_none r).symm
  | cons p l ih =>
    rw [sizes_cons] at hlen hstop
    rw [copyLoop, ← @UInt32.ofNat_toNat (packetSize p), ← UInt32.ofNat_add] at hr
    have hiff := @gt_ofNat (count + (packetSize p).toNat) offset (by omega) (by omega)
    split_ifs at hr with hfirst
    · rw [hiff] at hfirst
      dsimp only at hr
      rw [← UInt32.ofNat_sub hcount, ← UInt32.ofNat_sub (by omega)] at hr
      have hwhole := @ge_ofNat (count + (packetSize p).toNat - offset) n (by omega) (by omega)
      split_ifs at hr with hlast
      · rw [hwhole] at hlast
        rw [← Option.some.inj hr]
        apply packetSize_createFragment
        rw [toNat_ofNat_of_lt (by omega), toNat_ofNat_of_lt (by omega)]
        omega
      · rw [hwhole] at hlast
        refine packetSize_copyLoop_some (by omega) (by omega) (by omega) (by omega) ?_ hr
        apply packetSize_createFragment
        rw [toNat_ofNat_of_lt (by omega), toNat_ofNat_of_lt (by omega)]
        omega
    · rw [hiff] at hfirst
      exact ih (by omega) (by omega) (by omega) hr

/-- The buffer counts its bytes, and a sequence number is in it or at its end. -/
structure Places (b : TcpTxBuffer) (seq : SequenceNumber32) : Prop where
  size_eq : b.size = .ofNat (sizes b.data)
  ahead_le : seq.ahead b.firstByteSeq ≤ sizes b.data

variable {b : TcpTxBuffer} {seq : SequenceNumber32}

theorem Places.sizeFromSequence_eq (h : b.Places seq) :
    b.sizeFromSequence seq = .ofNat (sizes b.data - seq.ahead b.firstByteSeq) := by
  rw [sizeFromSequence, h.size_eq]
  nth_rewrite 1 [← SequenceNumber32.plus_ahead seq b.firstByteSeq]
  exact SequenceNumber32.minus_plus b.firstByteSeq h.ahead_le

theorem packetSize_nil : packetSize [] = 0 := rfl

/-- What `CopyFromSequence` returns has the size that was asked for, or all that is left. -/
theorem Places.packetSize_copy (h : b.Places seq) (hlt : sizes b.data < 2 ^ 32) {maxSize : UInt32} {p : List UInt8}
    (hp : b.copyFromSequence maxSize seq = some p) :
    (packetSize p).toNat = min maxSize.toNat (sizes b.data - seq.ahead b.firstByteSeq) := by
  have hle := h.ahead_le
  have hmin : (min maxSize (b.sizeFromSequence seq)).toNat =
      min maxSize.toNat (sizes b.data - seq.ahead b.firstByteSeq) := by
    have hleft : (b.sizeFromSequence seq).toNat = sizes b.data - seq.ahead b.firstByteSeq := by
      rw [h.sizeFromSequence_eq, UInt32.toNat_ofNat', Nat.mod_eq_of_lt (by omega)]
    change (if maxSize ≤ b.sizeFromSequence seq then maxSize else b.sizeFromSequence seq).toNat = _
    rw [← hleft]
    split_ifs with hcmp
    · exact (Nat.min_eq_left (UInt32.le_iff_toNat_le.mp hcmp)).symm
    · exact (Nat.min_eq_right (Nat.le_of_not_le (mt UInt32.le_iff_toNat_le.mpr hcmp))).symm
  rw [copyFromSequence] at hp
  rw [← hmin]
  generalize min maxSize (b.sizeFromSequence seq) = s at *
  split_ifs at hp with hzero hdata
  · rw [← Option.some.inj hp, hzero]
    rfl
  · rw [← Option.some.inj hp, packetSize, List.length_replicate, UInt32.ofNat_toNat]
  · rw [← @UInt32.ofNat_toNat (seq.minus b.firstByteSeq), ← @UInt32.ofNat_toNat s, SequenceNumber32.toNat_minus] at hp
    rw [@packetSize_copyLoop_none _ _ 0 p b.data (by omega) (Nat.zero_le _) (by omega) hp, UInt32.ofNat_toNat]

theorem sizes_add (b : TcpTxBuffer) (p : List UInt8) (h : b.size = .ofNat (sizes b.data)) :
    (b.add p).2.size = .ofNat (sizes (b.add p).2.data) ∧ sizes b.data ≤ sizes (b.add p).2.data ∧
      (b.add p).2.firstByteSeq = b.firstByteSeq := by
  rw [add]
  split_ifs
  · dsimp only
    rw [sizes_append, h, sizes_cons, show sizes [] = 0 from rfl, Nat.add_zero, UInt32.ofNat_add, UInt32.ofNat_toNat]
    exact ⟨rfl, Nat.le_add_right _ _, rfl⟩
  · exact ⟨h, Nat.le_refl _, rfl⟩
  · exact ⟨h, Nat.le_refl _, rfl⟩

theorem Places.add (h : b.Places seq) (p : List UInt8) : (b.add p).2.Places seq := by
  obtain ⟨hsize, hle, hfirst⟩ := b.sizes_add p h.size_eq
  exact ⟨hsize, by rw [hfirst]; exact Nat.le_trans h.ahead_le hle⟩

/-- After `DiscardUpTo` the head is what was acknowledged, and the sizes come to what is left. -/
theorem discardUpTo_eq {ack : SequenceNumber32} (h : b.size = .ofNat (sizes b.data))
    (hack : ack.gt b.firstByteSeq = true) :
    (b.discardUpTo ack).size = .ofNat (sizes (b.discardUpTo ack).data) ∧ (b.discardUpTo ack).firstByteSeq = ack ∧
      sizes (b.discardUpTo ack).data = sizes b.data - ack.ahead b.firstByteSeq := by
  have hback : b.firstByteSeq.ge ack = false := by
    have hiff := (SequenceNumber.gt_iff_ahead (by decide) ack b.firstByteSeq).mp hack
    rw [SequenceNumber.ge, SequenceNumber.gt_asymm (by decide) hack, Bool.false_or, decide_eq_false_iff_not]
    intro heq
    rw [SequenceNumber.HalfApart, SequenceNumber.ahead_eq_zero_iff.mpr heq.symm] at hiff
    omega
  have hminus : (ack.minus b.firstByteSeq).toNat = ack.ahead b.firstByteSeq := SequenceNumber32.toNat_minus _ _
  obtain ⟨hdata, hsize, hfirst⟩ := b.sizes_discardLoop (ack.minus b.firstByteSeq) b.data
  rw [hminus] at hdata hsize hfirst
  rw [TcpTxBuffer.discardUpTo, hback, if_neg Bool.false_ne_true]
  dsimp only
  by_cases hall : sizes b.data ≤ ack.ahead b.firstByteSeq
  · have hzero : (b.discardLoop (ack.minus b.firstByteSeq) b.data).size = 0 := by
      rw [hsize, h, Nat.min_eq_right hall, UInt32.sub_self]
    rw [if_pos hzero]
    dsimp only
    rw [hdata, hzero, Nat.sub_eq_zero_of_le hall]
    exact ⟨rfl, rfl, rfl⟩
  · rw [Nat.min_eq_left (by omega)] at hsize hfirst
    rw [SequenceNumber32.plus_ahead] at hfirst
    rw [h, ← UInt32.ofNat_sub (by omega)] at hsize
    split_ifs with hzero
    · exact ⟨by rw [hdata]; exact hsize, rfl, hdata⟩
    · exact ⟨by rw [hdata]; exact hsize, hfirst, hdata⟩

theorem Places.discardUpTo {next ack : SequenceNumber32} (h : b.Places next) (hack : ack.gt b.firstByteSeq = true) :
    next.ahead ack ≤ sizes (b.discardUpTo ack).data ∨ ack.gt next = true := by
  have hle := h.ahead_le
  have hiff := (SequenceNumber.gt_iff_ahead (by decide) ack b.firstByteSeq).mp hack
  rw [(discardUpTo_eq h.size_eq hack).2.2, SequenceNumber.gt_iff_ahead (by decide)]
  simp only [SequenceNumber.HalfApart, SequenceNumber.ahead, SequenceNumber.toNat_sub_eq] at hiff hle ⊢
  have hack := ack.value.isLt
  have hnext := next.value.isLt
  have hhead := b.firstByteSeq.value.isLt
  split_ifs at * <;> omega

/-- A number that is not before what was acknowledged stays in the buffer. -/
theorem Places.discardUpTo_of_le {seq ack : SequenceNumber32} (h : b.Places seq) (hack : ack.gt b.firstByteSeq = true)
    (hle : ack.ahead b.firstByteSeq ≤ seq.ahead b.firstByteSeq) : (b.discardUpTo ack).Places seq := by
  obtain ⟨hsize, hfirst, hsizes⟩ := discardUpTo_eq h.size_eq hack
  have hin := h.ahead_le
  refine ⟨hsize, ?_⟩
  rw [hfirst, hsizes]
  simp only [SequenceNumber.ahead, SequenceNumber.toNat_sub_eq] at hle hin ⊢
  have hack := ack.value.isLt
  have hseq := seq.value.isLt
  have hhead := b.firstByteSeq.value.isLt
  split_ifs at * <;> omega

theorem Places.head (h : b.size = .ofNat (sizes b.data)) : b.Places b.firstByteSeq :=
  ⟨h, by rw [SequenceNumber.ahead_eq_zero_iff.mpr rfl]; exact Nat.zero_le _⟩

/-- Behind the bytes that were copied the numbers are in the buffer. -/
theorem Places.plus (h : b.Places seq) {maxSize : UInt32} {p : List UInt8}
    (hp : b.copyFromSequence maxSize seq = some p) : b.Places (seq.plus (packetSize p)) := by
  refine ⟨h.size_eq, ?_⟩
  have hlt := ((seq.plus (packetSize p)).value - b.firstByteSeq.value).isLt
  by_cases hwraps : sizes b.data < 2 ^ 32
  · have hsize := h.packetSize_copy hwraps hp
    have hle := h.ahead_le
    rw [SequenceNumber32.ahead_plus (by omega)]
    omega
  · rw [SequenceNumber.ahead]
    omega

end TcpTxBuffer

/-- The window of the subclass is at most that of the peer, and depends on nothing else of the socket. -/
class LawfulTcpCongestion (γ : Type) [TcpCongestion γ] : Prop where
  window_le : ∀ (c : γ) (s : TcpSocketBase), TcpCongestion.window c s ≤ s.rWnd
  window_congr : ∀ (c : γ) (s s' : TcpSocketBase), s'.rWnd = s.rWnd →
    TcpCongestion.window c s' = TcpCongestion.window c s

instance : LawfulTcpCongestion Unit where
  window_le _ s := UInt32.le_refl s.rWnd
  window_congr _ _ _ h := h

/-- The calls of the virtual functions that change the data of a subclass. -/
inductive CongestionCall where
  /-- By `Connect` or `Listen`. -/
  | initializeCwnd
  | newAck (seq : SequenceNumber32)
  | dupAck (count : UInt32)
  | retransmit

namespace CongestionCall

/-- The data after a call. -/
def after {γ : Type} [TcpCongestion γ] (c : γ) (s : TcpSocketBase) : CongestionCall → γ
  | initializeCwnd => TcpCongestion.initializeCwnd c s
  | newAck seq => (TcpCongestion.newAck c s seq).1
  | dupAck count => (TcpCongestion.dupAck c s count).1
  | retransmit => (TcpCongestion.retransmit c s).1

/-- More is acknowledged than the highest mark tells. -/
def Overruns (s : TcpSocketBase) : CongestionCall → Prop
  | newAck seq => s.highTxMark.ahead s.txBuffer.firstByteSeq < seq.ahead s.txBuffer.firstByteSeq
  | _ => False

instance (s : TcpSocketBase) : (call : CongestionCall) → Decidable (call.Overruns s)
  | newAck _ => inferInstanceAs (Decidable (_ < _))
  | initializeCwnd | dupAck _ | retransmit => .isFalse id

end CongestionCall

/-- What is followed of the data of a subclass. -/
structure Watch (γ : Type) [TcpCongestion γ] where
  /-- More was acknowledged than the highest mark tells, and nothing was sent since. -/
  Overrun : γ → SequenceNumber32 → Prop
  /-- What holds of the data as every call finds the highest mark in the buffer, or knows that it was overrun. -/
  Good : γ → Prop
  overrun : ∀ (call : CongestionCall) (c : γ) (s : TcpSocketBase),
    call.Overruns s ∨ Overrun c s.highTxMark → Overrun (call.after c s) s.highTxMark
  good : ∀ (call : CongestionCall) (c : γ) (s : TcpSocketBase),
    s.txBuffer.Places s.highTxMark ∨ Overrun c s.highTxMark → Good c → Good (call.after c s)

/-- Nothing is followed. -/
def Watch.nothing (γ : Type) [TcpCongestion γ] : Watch γ where
  Overrun _ _ := True
  Good _ := True
  overrun _ _ _ _ := trivial
  good _ _ _ _ := id

namespace TcpSocketBase

variable {γ : Type}

/-! ### Where the next number to be sent is -/

/-- The next number to be sent is in the transmit buffer, or at its end. While the application is told of what was
acknowledged it may be before it. -/
def InBuffer (b : TcpTxBuffer) (next : SequenceNumber32) : Option SequenceNumber32 → Prop
  | none => next.ahead b.firstByteSeq ≤ TcpTxBuffer.sizes b.data
  | some ack => b.firstByteSeq = ack ∧ (next.ahead ack ≤ TcpTxBuffer.sizes b.data ∨ ack.gt next = true)

/-- A socket that may be copied. -/
structure Ready (s : TcpSocketBase) : Prop where
  places : s.txBuffer.Places s.nextTxSequence
  rWnd_lt : s.rWnd.toNat < 2 ^ 16

/-- The buffer counts its bytes, the window of the peer has 16 bits, and the next number and the highest mark are where
they should be. -/
structure Sound [TcpCongestion γ] (W : Watch γ) (acked : Option SequenceNumber32) (c : Sender γ)
    (mark : SequenceNumber32) : Prop where
  size_eq : c.txBuffer.size = .ofNat (TcpTxBuffer.sizes c.txBuffer.data)
  rWnd_lt : c.rWnd.toNat < 2 ^ 16
  forks : ∀ s ∈ c.forks, s.Ready
  inBuffer : InBuffer c.txBuffer c.nextTxSequence acked
  marked : c.txBuffer.Places mark ∨ W.Overrun c.congestion mark
  good : W.Good c.congestion

/-- The invariant. -/
def Safe [TcpCongestion γ] (W : Watch γ) (acked : Option SequenceNumber32) (w : TcpState γ) : Prop :=
  Sound W acked (sender w) w.socket.highTxMark

/-- Any fault may occur. -/
def anyFault : Setting TcpFault (TcpState γ) := ⟨fun _ => True, fun _ w => ∀ s ∈ (sender w).forks, s.Ready⟩

section Sound

variable [TcpCongestion γ] {W : Watch γ} {acked : Option SequenceNumber32} {c : Sender γ} {mark : SequenceNumber32}

theorem maxSequence_eq_or (a b : SequenceNumber32) : maxSequence a b = a ∨ maxSequence a b = b := by
  rw [maxSequence]
  split_ifs
  · exact .inr rfl
  · exact .inl rfl

theorem Sound.places (h : Sound W none c mark) : c.txBuffer.Places c.nextTxSequence := ⟨h.size_eq, h.inBuffer⟩

section

variable (h : Sound W acked c mark)
include h

theorem Sound.of_places (hplaces : c.txBuffer.Places c.nextTxSequence) : Sound W none c mark :=
  ⟨h.size_eq, h.rWnd_lt, h.forks, hplaces.ahead_le, h.marked, h.good⟩

theorem Sound.of_eq {c' : Sender γ} {mark' : SequenceNumber32} (hbuffer : c'.txBuffer = c.txBuffer)
    (hnext : c'.nextTxSequence = c.nextTxSequence) (hforks : c'.forks = c.forks)
    (hcongestion : c'.congestion = c.congestion) (hmark : mark' = mark) (hwnd : c'.rWnd.toNat < 2 ^ 16) :
    Sound W acked c' mark' := by
  subst hmark
  refine ⟨?_, hwnd, ?_, ?_, ?_, ?_⟩
  · rw [hbuffer]
    exact h.size_eq
  · rw [hforks]
    exact h.forks
  · rw [hbuffer, hnext]
    exact h.inBuffer
  · rw [hbuffer, hcongestion]
    exact h.marked
  · rw [hcongestion]
    exact h.good

/-- The next number is in the buffer, unless it is before the head. -/
theorem Sound.cases : c.txBuffer.Places c.nextTxSequence ∨ c.txBuffer.firstByteSeq.gt c.nextTxSequence = true := by
  obtain ⟨hsize, -, -, hin, -, -⟩ := h
  cases acked with
  | none => exact .inl ⟨hsize, hin⟩
  | some ack =>
    obtain ⟨rfl, hin⟩ := hin
    exact hin.imp_left fun hle => ⟨hsize, hle⟩

theorem Sound.next {next : SequenceNumber32} (hnext : c.txBuffer.Places next) :
    Sound W acked { c with nextTxSequence := next } mark := by
  refine ⟨h.size_eq, h.rWnd_lt, h.forks, ?_, h.marked, h.good⟩
  have hin := h.inBuffer
  cases acked with
  | none => exact hnext.ahead_le
  | some ack =>
    obtain ⟨rfl, -⟩ := hin
    exact ⟨rfl, .inl hnext.ahead_le⟩

theorem Sound.setMark {seq : SequenceNumber32} (hseq : c.txBuffer.Places seq) :
    Sound W acked c (maxSequence seq mark) := by
  refine ⟨h.size_eq, h.rWnd_lt, h.forks, h.inBuffer, ?_, h.good⟩
  rcases maxSequence_eq_or seq mark with heq | heq
  · rw [heq]
    exact .inl hseq
  · rw [heq]
    exact h.marked

/-- Bytes are added. -/
theorem Sound.add (p : List UInt8) : Sound W acked { c with txBuffer := (c.txBuffer.add p).2 } mark := by
  obtain ⟨hsize, hle, hfirst⟩ := c.txBuffer.sizes_add p h.size_eq
  refine ⟨hsize, h.rWnd_lt, h.forks, ?_, h.marked.imp_left fun hplaces => hplaces.add p, h.good⟩
  have hin := h.inBuffer
  cases acked with
  | none =>
    rw [InBuffer] at hin ⊢
    dsimp only
    rw [hfirst]
    exact Nat.le_trans hin hle
  | some ack => exact ⟨hfirst.trans hin.1, hin.2.imp_left fun hahead => Nat.le_trans hahead hle⟩

end

/-- The data of the subclass changes by a call, made on the socket. -/
theorem Safe.after {w : TcpState γ} (h : Safe W acked w) (call : CongestionCall) :
    Safe W acked { w with congestion := call.after w.congestion w.socket } :=
  ⟨h.size_eq, h.rWnd_lt, h.forks, h.inBuffer, h.marked.imp_right fun hover => W.overrun call _ _ (.inr hover),
    W.good call _ _ h.marked h.good⟩

end Sound

section Window

variable [TcpCongestion γ] [LawfulTcpCongestion γ]

/-- Before the head the number of outstanding bytes wraps, and there is no window. -/
theorem availableWindow_eq_zero {s : TcpSocketBase} (congestion : γ)
    (hbehind : s.txBuffer.firstByteSeq.gt s.nextTxSequence = true) (hwnd : s.rWnd.toNat < 2 ^ 16) :
    availableWindow congestion s = 0 := by
  have hle := UInt32.le_iff_toNat_le.mp (LawfulTcpCongestion.window_le congestion s)
  have hahead := (SequenceNumber.gt_iff_ahead (by decide) _ _).mp hbehind
  rw [SequenceNumber.HalfApart] at hahead
  have hne : s.txBuffer.firstByteSeq ≠ s.nextTxSequence := by
    intro heq
    rw [heq, SequenceNumber.ahead_eq_zero_iff.mpr rfl] at hahead
    omega
  have hsum := SequenceNumber.ahead_add_ahead hne
  rw [availableWindow, if_pos]
  rw [UInt32.lt_iff_toNat_lt, unAckDataCount, SequenceNumber32.toNat_minus]
  omega

theorem min_zero_left (n : UInt32) : min 0 n = 0 := if_pos (UInt32.zero_le)

theorem nextPiece_congr {w w' : TcpState γ} (h : sender w' = sender w) :
    nextPiece w'.congestion w'.socket = nextPiece w.congestion w.socket := by
  have hbuffer : w'.socket.txBuffer = w.socket.txBuffer := congrArg Sender.txBuffer h
  have hnext : w'.socket.nextTxSequence = w.socket.nextTxSequence := congrArg Sender.nextTxSequence h
  have hsegment : w'.socket.segmentSize = w.socket.segmentSize := congrArg Sender.segmentSize h
  have hdelay : w'.socket.noDelay = w.socket.noDelay := congrArg Sender.noDelay h
  have hshutdown : w'.socket.shutdownSend = w.socket.shutdownSend := congrArg Sender.shutdownSend h
  have hcongestion : w'.congestion = w.congestion := congrArg Sender.congestion h
  have hwindow := LawfulTcpCongestion.window_congr w.congestion w.socket w'.socket (congrArg Sender.rWnd h)
  rw [nextPiece, nextPiece, availableWindow, availableWindow, unAckDataCount, unAckDataCount, hbuffer, hnext, hsegment,
    hdelay, hshutdown, hcongestion, hwindow]

omit [TcpCongestion γ] [LawfulTcpCongestion γ] in
/-- `SendDataPacket` changes nothing that decides how much is sent. -/
theorem sendDataPacket_sender {P : Sender γ → Prop} (hP : ∀ c, P c → ∀ s ∈ c.forks, s.Ready) (seq : SequenceNumber32)
    (maxSize : UInt32) (withAck : Bool) :
    anyFault.Triple (fun w : TcpState γ => P (sender w)) (sendDataPacket seq maxSize withAck) fun sz w =>
      P (sender w) ∧ ∃ p, w.socket.txBuffer.copyFromSequence maxSize seq = some p ∧ sz = packetSize p := by
  refine .fix (fun w => (w.sent, w.socket.highTxMark)) fun ghost => ?_
  have hsend := @sendDataPacket_triple γ anyFault (fun _ _ _ _ => trivial) P seq ghost.2 maxSize ghost.1 withAck
    (fun w hw _ => hP _ hw) fun w hw _ => hP _ hw
  refine hsend.conseq (fun w hw => ?_) fun sz w hw => ?_
  · obtain ⟨hghost, hP⟩ := hw
    exact ⟨hP, congrArg Prod.fst hghost, congrArg Prod.snd hghost⟩
  · obtain ⟨hP, g, -, hcopy, hsz, -⟩ := hw
    exact ⟨hP, g.payload, hcopy, hsz⟩

variable {W : Watch γ}

omit [LawfulTcpCongestion γ] in
/-- From a number in the buffer `SendDataPacket` keeps the invariant. -/
theorem sendDataPacket_safe {P : Sender γ → Prop} (acked : Option SequenceNumber32) (seq : SequenceNumber32)
    (maxSize : UInt32) (withAck : Bool) (hseq : ∀ c, P c → c.txBuffer.Places seq) :
    anyFault.Triple (fun w : TcpState γ => P (sender w) ∧ Safe W acked w) (sendDataPacket seq maxSize withAck)
      fun sz w => P (sender w) ∧ Safe W acked w ∧
        ∃ p, w.socket.txBuffer.copyFromSequence maxSize seq = some p ∧ sz = packetSize p := by
  refine .fix (fun w => (w.sent, w.socket.highTxMark)) fun ghost => ?_
  have hsend := @sendDataPacket_triple γ anyFault (fun _ _ _ _ => trivial) (fun c => P c ∧ Sound W acked c ghost.2) seq
    ghost.2 maxSize ghost.1 withAck (fun w hw _ => hw.2.forks) fun w hw _ => hw.2.forks
  refine hsend.conseq (fun w hw => ?_) fun sz w hw => ?_
  · obtain ⟨rfl, hP, hsafe⟩ := hw
    exact ⟨⟨hP, hsafe⟩, rfl, rfl⟩
  · obtain ⟨⟨hP, hsound⟩, g, -, hcopy, rfl, -, hmark⟩ := hw
    refine ⟨hP, ?_, g.payload, hcopy, rfl⟩
    rw [Safe, hmark]
    exact hsound.setMark ((hseq _ hP).plus hcopy)

omit [LawfulTcpCongestion γ] in
theorem keeps_endSending (acked : Option SequenceNumber32) :
    anyFault.Keeps (fun w : TcpState γ => Safe W acked w) endSending := by
  refine @keeps_update γ anyFault (fun _ _ _ _ => trivial) (fun c _ mark => Sound W acked c mark) _ (fun w => ?_)
    (fun w => ?_) fun w => ?_ <;> dsimp only <;> split_ifs <;> rfl

theorem copy_of_behind {w : TcpState γ} (hbehind : w.socket.txBuffer.firstByteSeq.gt w.socket.nextTxSequence = true)
    (hwnd : w.socket.rWnd.toNat < 2 ^ 16) {size : UInt32} (hsize : nextPiece w.congestion w.socket = some size) :
    w.socket.txBuffer.copyFromSequence size w.socket.nextTxSequence = some [] := by
  rw [nextPiece, availableWindow_eq_zero w.congestion hbehind hwnd, min_zero_left] at hsize
  split_ifs at hsize
  cases hsize
  rw [TcpTxBuffer.copyFromSequence, min_zero_left, if_pos rfl]

/-- The loop sends nothing next. -/
structure Stuck (w : TcpState γ) (size : UInt32) : Prop where
  forks : ∀ s ∈ (sender w).forks, s.Ready
  next : nextPiece w.congestion w.socket = some size
  copy : w.socket.txBuffer.copyFromSequence size w.socket.nextTxSequence = some []

theorem Stuck.congr {w w' : TcpState γ} {size : UInt32} (h : Stuck w size) (hsender : sender w' = sender w) :
    Stuck w' size := by
  have hbuffer : w'.socket.txBuffer = w.socket.txBuffer := congrArg Sender.txBuffer hsender
  have hnext : w'.socket.nextTxSequence = w.socket.nextTxSequence := congrArg Sender.nextTxSequence hsender
  refine ⟨?_, (nextPiece_congr hsender).trans h.next, ?_⟩
  · rw [hsender]
    exact h.forks
  · rw [hbuffer, hnext]
    exact h.copy

theorem sendDataPacket_stuck {w₀ : TcpState γ} {size size' : UInt32}
    (hnext : nextPiece w₀.congestion w₀.socket = some size') (withAck : Bool) :
    anyFault.Triple (fun w : TcpState γ => id w = w₀ ∧ Stuck w size)
      (sendDataPacket w₀.socket.nextTxSequence size' withAck) fun sz w => sz = 0 ∧ Stuck w size := by
  have hsend := @sendDataPacket_sender γ (fun c => c = sender w₀ ∧ Stuck w₀ size)
    (fun c hc => hc.1 ▸ hc.2.forks) w₀.socket.nextTxSequence size' withAck
  refine hsend.conseq (fun w hw => ?_) fun sz w hw => ?_
  · obtain ⟨rfl, hstuck⟩ := hw
    exact ⟨rfl, hstuck⟩
  · obtain ⟨⟨hsender, hstuck⟩, p, hp, rfl⟩ := hw
    obtain rfl := Option.some.inj (hnext.symm.trans hstuck.next)
    rw [show w.socket.txBuffer = w₀.socket.txBuffer from congrArg Sender.txBuffer hsender, hstuck.copy] at hp
    rw [← Option.some.inj hp]
    exact ⟨TcpTxBuffer.packetSize_nil, hstuck.congr hsender⟩

theorem advance_stuck {size : UInt32} (sz : UInt32) :
    anyFault.Triple (fun w : TcpState γ => sz = 0 ∧ Stuck w size)
      (modify fun s => { s with nextTxSequence := s.nextTxSequence.plus sz }) fun _ w => Stuck w size := by
  refine .update (fun _ _ => trivial) fun w _ hw => ?_
  obtain ⟨rfl, hstuck⟩ := hw
  refine hstuck.congr ?_
  exact congrArg (fun next => { sender w with nextTxSequence := next }) (SequenceNumber32.plus_zero _)

/-- Then the loop does not end. -/
theorem sendLoop_stuck (withAck : Bool) (size : UInt32) (rounds : ℕ) :
    anyFault.Triple (fun w : TcpState γ => Stuck w size) (sendLoop withAck rounds) fun _ _ => False := by
  have hnone : ∀ w₀ : TcpState γ, nextPiece w₀.congestion w₀.socket = none →
      anyFault.Triple (fun w : TcpState γ => id w = w₀ ∧ Stuck w size) endSending fun _ _ => False := by
    intro w₀ hpiece
    refine .update (fun _ _ => trivial) fun w _ hw => ?_
    obtain ⟨rfl, hstuck⟩ := hw
    rw [id, hstuck.next] at hpiece
    exact Option.some_ne_none _ hpiece
  induction rounds with
  | zero =>
    refine .read fun w => ?_
    cases hpiece : nextPiece w.congestion w.socket with
    | none => exact hnone w hpiece
    | some _ => exact .stop fun _ hw => hw.2.forks
  | succ rounds ih =>
    refine .read fun w => ?_
    cases hpiece : nextPiece w.congestion w.socket with
    | none => exact hnone w hpiece
    | some size' =>
      exact .bind (sendDataPacket_stuck hpiece withAck) fun sz => .bind (advance_stuck sz) fun _ => ih

theorem keeps_sendLoop (acked : Option SequenceNumber32) (withAck : Bool) (rounds : ℕ) :
    anyFault.Keeps (fun w : TcpState γ => Safe W acked w) (sendLoop withAck rounds) := by
  induction rounds with
  | zero =>
    refine .read fun w => ?_
    cases nextPiece w.congestion w.socket with
    | none => exact keeps_endSending acked
    | some size => exact .stop fun _ hw => hw.forks
  | succ rounds ih =>
    refine Setting.Triple.read fun w₀ => ?_
    cases hsize : nextPiece w₀.congestion w₀.socket with
    | none => exact Setting.Triple.pre (keeps_endSending acked) fun w hw => hw.2
    | some size =>
      by_cases hplaces : w₀.socket.txBuffer.Places w₀.socket.nextTxSequence
      · have hsend := @sendDataPacket_safe γ _ W (fun c => c = sender w₀) acked w₀.socket.nextTxSequence size withAck
          fun c hc => hc ▸ hplaces
        refine .bind (Setting.Triple.pre hsend fun w hw => ?_) fun sz =>
          .bind (R := fun _ w => Safe W acked w) ?_ fun _ => ih
        · obtain ⟨rfl, hsafe⟩ := hw
          exact ⟨rfl, hsafe⟩
        · refine .update (fun _ _ => trivial) fun w _ hw => ?_
          obtain ⟨hsame, hsafe, p, hp, rfl⟩ := hw
          have hnext : w.socket.nextTxSequence = w₀.socket.nextTxSequence := congrArg Sender.nextTxSequence hsame
          have hbuffer : w.socket.txBuffer = w₀.socket.txBuffer := congrArg Sender.txBuffer hsame
          rw [← hbuffer, ← hnext] at hplaces
          rw [← hnext] at hp
          exact Sound.next hsafe (hplaces.plus hp)
      · refine .bind (Setting.Triple.pre (sendDataPacket_stuck hsize withAck) fun w hw => ?_) fun sz =>
          .bind (@advance_stuck γ _ _ size sz) fun _ => (sendLoop_stuck withAck size rounds).post fun _ _ h => h.elim
        obtain ⟨rfl, hsafe⟩ := hw
        have hbehind := (Sound.cases hsafe).resolve_left hplaces
        exact ⟨rfl, hsafe.forks, hsize, copy_of_behind hbehind hsafe.rWnd_lt hsize⟩

theorem keeps_sendPendingData (acked : Option SequenceNumber32) (withAck : Bool) :
    anyFault.Keeps (fun w : TcpState γ => Safe W acked w) (sendPendingData withAck) :=
  .read fun _ => .ite .pure (keeps_sendLoop acked withAck _)

theorem keeps_send (acked : Option SequenceNumber32) (p : List UInt8) :
    anyFault.Keeps (fun w : TcpState γ => Safe W acked w) (send p) := by
  have herrno : ∀ e, anyFault.Keeps (fun w : TcpState γ => Safe W acked w) (modify fun s => { s with errno := e }) :=
    fun e => .update (fun _ _ => trivial) fun _ _ => id
  refine Setting.Triple.read fun s => Setting.Triple.ite (fun _ => ?_) fun _ => (herrno _).pre fun w hw => hw.2
  rcases hadd : s.txBuffer.add p with ⟨added, txBuffer⟩
  refine Setting.Triple.ite (fun _ => ?_) fun _ => (herrno _).pre fun w hw => hw.2
  refine .bind (R := fun _ w => Safe W acked w) ?_ fun _ => Setting.Keeps.when (keeps_sendPendingData acked _)
  refine .update (fun _ _ => trivial) fun w _ hw => ?_
  obtain ⟨rfl, hsafe⟩ := hw
  have hsum := Sound.add hsafe p
  rw [show (sender w).txBuffer = w.socket.txBuffer from rfl, hadd] at hsum
  exact hsum

omit [LawfulTcpCongestion γ] in
theorem keeps_setAttribute (acked : Option SequenceNumber32) (value : TcpAttribute) :
    anyFault.Keeps (fun w : TcpState γ => Safe W acked w) (setAttribute value) := by
  cases value with
  | segmentSize size =>
    refine .bind (Setting.Triple.update (fun _ _ => trivial) fun w _ hw => ?_) fun _ => ?_
    · exact ⟨hw.size_eq, hw.rWnd_lt, hw.forks, hw.inBuffer, hw.marked, hw.good⟩
    · exact .read fun s => .when (.stop fun _ hw => hw.forks)
  | sndBufSize =>
    refine Setting.Triple.update (fun _ _ => trivial) fun w _ hw => ?_
    refine ⟨hw.size_eq, hw.rWnd_lt, hw.forks, hw.inBuffer, hw.marked.imp_left fun hplaces => ?_, hw.good⟩
    exact ⟨hplaces.size_eq, hplaces.ahead_le⟩
  | rcvBufSize | connCount | delAckCount | tcpNoDelay | maxWindowSize =>
    refine Setting.Triple.update (fun _ _ => trivial) fun w _ hw => ?_
    exact ⟨hw.size_eq, hw.rWnd_lt, hw.forks, hw.inBuffer, hw.marked, hw.good⟩

/-- The calls of the application keep it, whether there is something that was acknowledged or not. -/
theorem indifferent {app : TcpNotice → TcpProg γ Bool} (acked : Option SequenceNumber32)
    (happ : ∀ notice, anyFault.Keeps (fun w : TcpState γ => Safe W acked w) (app notice)) :
    Indifferent anyFault (fun w : TcpState γ => Safe W acked w) app where
  reacts := happ
  stop _ _ hw := hw.forks
  update f hf := .update (fun _ _ => trivial) fun w _ hw => by
    refine Sound.of_eq hw (congrArg TcpOutgoing.txBuffer (hf w)) (congrArg TcpOutgoing.nextTxSequence (hf w))
      (congrArg TcpOutgoing.forks (hf w)) (congrArg TcpOutgoing.congestion (hf w))
      (congrArg TcpOutgoing.highTxMark (hf w)) ?_
    rw [show (sender (f w)).rWnd = (sender w).rWnd from congrArg TcpOutgoing.rWnd (hf w)]
    exact hw.rWnd_lt
  send := keeps_send acked
  setAttribute := keeps_setAttribute acked
  initializeCwnd := .update (fun _ _ => trivial) fun w _ hw => hw.after .initializeCwnd

theorem keeps_application (depth : ℕ) (acked : Option SequenceNumber32) (notice : TcpNotice) :
    anyFault.Keeps (fun w : TcpState γ => Safe W acked w) (application depth notice : TcpProg γ Bool) := by
  refine react_triple (I := fun acked w => Safe W acked w) (fun acked notice => ?_)
    (fun app happ acked c => (indifferent acked (happ acked)).callsKept.call c) depth acked notice
  rintro ⟨socket, congestion, script, now, succeeding, sending, forking, sent, log, stopped⟩ -
  cases script with
  | nil => exact ⟨trivial, id⟩
  | cons reaction script => exact ⟨trivial, id⟩

section Acknowledgements

variable {app : TcpNotice → TcpProg γ Bool}
  (happ : ∀ acked notice, anyFault.Keeps (fun w : TcpState γ => Safe W acked w) (app notice))

include happ

theorem keeps_doRetransmit : anyFault.Keeps (fun w : TcpState γ => Safe W none w) (doRetransmit app) := by
  have hcalls := (indifferent none (happ none)).callsKept
  refine Setting.Triple.read fun s => .ite (fun _ => ?_) fun _ => .ite (fun _ => ?_) fun _ => ?_
  · exact Setting.Triple.pre (Setting.Keeps.ite (hcalls.sendEmptyPacket _) (hcalls.notify _)) fun w hw => hw.2
  · exact Setting.Triple.pre (Setting.Keeps.when (hcalls.sendEmptyPacket _)) fun w hw => hw.2
  · have hsend := @sendDataPacket_safe γ _ W
      (fun c => c.txBuffer = s.txBuffer ∧ c.txBuffer.Places s.txBuffer.firstByteSeq) none s.txBuffer.firstByteSeq
      s.segmentSize true fun c hc => hc.2
    refine .bind (Setting.Triple.pre hsend fun w hw => ?_) fun sz => .update (fun _ _ => trivial) fun w _ hw => ?_
    · obtain ⟨rfl, hsafe⟩ := hw
      exact ⟨⟨rfl, .head hsafe.size_eq⟩, hsafe⟩
    · obtain ⟨⟨hbuffer, hhead⟩, hsafe, p, hp, rfl⟩ := hw
      rw [← show w.socket.txBuffer = s.txBuffer from hbuffer] at hp hhead
      refine Sound.next hsafe ?_
      change w.socket.txBuffer.Places
        (maxSequence w.socket.nextTxSequence (w.socket.txBuffer.firstByteSeq.plus (packetSize p)))
      rcases maxSequence_eq_or w.socket.nextTxSequence (w.socket.txBuffer.firstByteSeq.plus (packetSize p))
        with heq | heq
      · rw [heq]
        exact Sound.places hsafe
      · rw [heq]
        exact hhead.plus hp

theorem keeps_retransmit : anyFault.Keeps (fun w : TcpState γ => Safe W none w) (retransmit app) := by
  refine Setting.Triple.read fun w => .bind (R := fun _ w => Safe W none w) ?_ fun _ => ?_
  · refine .update (fun _ _ => trivial) fun w _ hw => ?_
    obtain ⟨rfl, hsafe⟩ := hw
    exact hsafe.after .retransmit
  refine Setting.Keeps.bind (.update (fun _ _ => trivial) fun w _ hw => ?_) fun _ => ?_
  · exact Sound.next hw (.head hw.size_eq)
  refine .bind (.when (.update (fun _ _ => trivial) fun w _ => id)) fun _ => ?_
  exact keeps_doRetransmit happ

omit [LawfulTcpCongestion γ] happ in
/-- What is acknowledged is new, and no more than the highest mark tells, unless that is known. -/
def Acked (W : Watch γ) (ack : SequenceNumber32) (w : TcpState γ) : Prop :=
  ack.gt w.socket.txBuffer.firstByteSeq = true ∧
    (W.Overrun w.congestion w.socket.highTxMark ∨
      ack.ahead w.socket.txBuffer.firstByteSeq ≤ w.socket.highTxMark.ahead w.socket.txBuffer.firstByteSeq)

omit [LawfulTcpCongestion γ] happ in
theorem Safe.discardUpTo {w : TcpState γ} {ack : SequenceNumber32} (h : Safe W none w) (hack : Acked W ack w) :
    Safe W (some ack) { w with socket.txBuffer := w.socket.txBuffer.discardUpTo ack } := by
  obtain ⟨hgt, hmark⟩ := hack
  obtain ⟨hsize, hfirst, -⟩ := TcpTxBuffer.discardUpTo_eq h.size_eq hgt
  refine ⟨hsize, h.rWnd_lt, h.forks, ⟨hfirst, (Sound.places h).discardUpTo hgt⟩, ?_, h.good⟩
  rcases h.marked with hplaces | hover
  · exact hmark.symm.imp_left fun hle => hplaces.discardUpTo_of_le hgt hle
  · exact .inr hover

/-- The number that was acknowledged is the head, and then the next one at least. -/
theorem keeps_newAck (ack : SequenceNumber32) :
    anyFault.Triple (fun w : TcpState γ => Safe W none w ∧ Acked W ack w) (newAck app ack)
      fun _ w => Safe W none w := by
  have hcalls := (indifferent (some ack) (happ (some ack))).callsKept
  have hcalls' := (indifferent none (happ none))
  refine .read fun s => ?_
  refine .bind (R := fun _ w => Safe W none w ∧ Acked W ack w) ?_ fun _ => ?_
  · exact .when (fun _ => .update (fun _ _ => trivial) fun w _ hw => hw.2) fun _ w hw => hw.2
  refine .bind (R := fun _ w => Safe W none w ∧ Acked W ack w) ?_ fun _ => ?_
  · exact .when (fun _ => .update (fun _ _ => trivial) fun w _ => id) fun _ w => id
  refine .bind (R := fun _ w => Safe W (some ack) w) ?_ fun _ => ?_
  · exact .update (fun _ _ => trivial) fun w _ hw => hw.1.discardUpTo hw.2
  refine Setting.Triple.read fun s => ?_
  refine .bind (R := fun _ w => Safe W (some ack) w) ?_ fun _ => ?_
  · exact Setting.Triple.pre (Setting.Keeps.when (hcalls.notify _)) fun w hw => hw.2
  refine .bind (R := fun _ w => Safe W none w) ?_ fun _ => ?_
  · refine .update (fun _ _ => trivial) fun w _ hw => ?_
    obtain ⟨hfirst, hin⟩ := hw.inBuffer
    have hhead : w.socket.txBuffer.Places ack := by
      rw [← show w.socket.txBuffer.firstByteSeq = ack from hfirst]
      exact .head hw.size_eq
    dsimp only
    split_ifs with hahead
    · exact ⟨hw.size_eq, hw.rWnd_lt, hw.forks, hhead.ahead_le, hw.marked, hw.good⟩
    · refine Sound.of_places hw ⟨hw.size_eq, ?_⟩
      rw [hfirst]
      exact hin.resolve_right hahead
  refine .bind (R := fun _ w => Safe W none w) ?_ fun _ => .read fun s => ?_
  · refine hcalls'.modify fun w => ?_
    split_ifs <;> rfl
  · exact Setting.Triple.pre (keeps_sendPendingData none _) fun w hw => hw.2

theorem keeps_newAckOfSubclass (ack : SequenceNumber32) :
    anyFault.Triple (fun w : TcpState γ => Safe W none w ∧ ack.gt w.socket.txBuffer.firstByteSeq = true)
      (newAckOfSubclass app ack) fun _ w => Safe W none w := by
  refine .read fun w => .bind (R := fun _ w => Safe W none w ∧ Acked W ack w) ?_
    fun _ => .bind (keeps_newAck happ ack) fun _ => Setting.Keeps.when (.bind ?_ fun _ => keeps_doRetransmit happ)
  · refine .update (fun _ _ => trivial) fun w _ hw => ?_
    obtain ⟨rfl, hsafe, hgt⟩ := hw
    refine ⟨hsafe.after (.newAck ack), hgt, ?_⟩
    by_cases hover : (CongestionCall.newAck ack).Overruns w.socket
    · exact .inl (W.overrun (.newAck ack) _ _ (.inl hover))
    · exact .inr (Nat.le_of_not_lt hover)
  · exact (indifferent none (happ none)).record fun _ => rfl

theorem keeps_dupAck (count : UInt32) :
    anyFault.Keeps (fun w : TcpState γ => Safe W none w) (dupAck app count) := by
  refine Setting.Triple.read fun w₀ => ?_
  have hafter : anyFault.Triple (fun w : TcpState γ => id w = w₀ ∧ Safe W none w)
      (Prog.update fun w => { w with congestion := (TcpCongestion.dupAck w₀.congestion w₀.socket count).1 })
      fun _ w => w.socket = w₀.socket ∧ Safe W none w := by
    refine .update (fun _ _ => trivial) fun w _ hw => ?_
    obtain ⟨rfl, hsafe⟩ := hw
    exact ⟨rfl, hsafe.after (.dupAck count)⟩
  generalize TcpCongestion.dupAck w₀.congestion w₀.socket count = decided at *
  refine .bind hafter fun _ => ?_
  cases decided.2 with
  | nothing => exact .pure fun w hw => hw.2
  | retransmit => exact Setting.Triple.pre (keeps_doRetransmit happ) fun w hw => hw.2
  | restart =>
    refine .bind (R := fun _ w => Safe W none w) (.update (fun _ _ => trivial) fun w _ hw => ?_) fun _ => ?_
    · exact Sound.next hw.2 (.head hw.2.size_eq)
    · exact keeps_doRetransmit happ
  | sendPending => exact Setting.Triple.pre (keeps_sendPendingData none _) fun w hw => hw.2
  | limitedTransmit =>
    have hsend := @sendDataPacket_safe γ _ W
      (fun c => c.nextTxSequence = w₀.socket.nextTxSequence ∧ c.txBuffer.Places w₀.socket.nextTxSequence) none
      w₀.socket.nextTxSequence w₀.socket.segmentSize true fun c hc => hc.2
    refine .bind (Setting.Triple.pre hsend fun w hw => ?_) fun sz => .update (fun _ _ => trivial) fun w _ hw => ?_
    · obtain ⟨hsame, hsafe⟩ := hw
      rw [← hsame]
      exact ⟨⟨rfl, Sound.places hsafe⟩, hsafe⟩
    · obtain ⟨⟨hnext, hplaces⟩, hsafe, p, hp, rfl⟩ := hw
      rw [← show w.socket.nextTxSequence = w₀.socket.nextTxSequence from hnext] at hp hplaces
      exact Sound.next hsafe (hplaces.plus hp)

theorem keeps_processAck (header : TcpHeader) :
    anyFault.Keeps (fun w : TcpState γ => Safe W none w) (processAck app header) := by
  refine Setting.Triple.read fun s => .ite (fun _ => .pure fun w hw => hw.2) fun hack =>
    .ite (fun _ => ?_) fun hne => ?_
  · refine Setting.Triple.pre (Setting.Keeps.when (.bind ?_ fun _ => keeps_dupAck happ _)) fun w hw => hw.2
    exact .update (fun _ _ => trivial) fun w _ => id
  · refine .bind (Setting.Triple.pre (keeps_newAckOfSubclass happ header.ackNumber) fun w hw => ?_) fun _ =>
      .update (fun _ _ => trivial) fun w _ => id
    obtain ⟨rfl, hsafe⟩ := hw
    refine ⟨hsafe, ?_⟩
    rw [not_or, SequenceNumber.lt] at hack
    simpa [hne] using hack.2

/-- So every handler keeps it. -/
theorem kept : Kept anyFault (fun w : TcpState γ => Safe W none w) app where
  toCallsKept := (indifferent none (happ none)).callsKept
  notified := .update (fun _ _ => trivial) fun w _ => id
  fork := .update (fun _ _ => trivial) fun w _ hw => by
    refine ⟨hw.size_eq, hw.rWnd_lt, fun s hs => ?_, hw.inBuffer, hw.marked, hw.good⟩
    change s ∈ (w.log ++ [(TcpStep.fork, w.socket)]).filterMap TcpStep.copied at hs
    rw [List.filterMap_append] at hs
    rcases List.mem_append.mp hs with hs | hs
    · exact hw.forks s hs
    · rw [List.mem_singleton.mp hs]
      exact ⟨Sound.places hw, hw.rWnd_lt⟩
  takeHeader header now := .update (fun _ _ => trivial) fun w _ hw => by
    have hlt : (TcpSocketBase.takeHeader header now w.socket).rWnd.toNat < 2 ^ 16 := by
      rw [TcpSocketBase.takeHeader]
      exact header.windowSize.toNat_lt
    have hsame : (TcpSocketBase.takeHeader header now w.socket).txBuffer = w.socket.txBuffer ∧
        (TcpSocketBase.takeHeader header now w.socket).nextTxSequence = w.socket.nextTxSequence ∧
        (TcpSocketBase.takeHeader header now w.socket).highTxMark = w.socket.highTxMark := by
      rw [TcpSocketBase.takeHeader]
      split_ifs <;> exact ⟨rfl, rfl, rfl⟩
    exact Sound.of_eq hw hsame.1 hsame.2.1 rfl rfl hsame.2.2 hlt
  handshake f hf := .update (fun _ _ => trivial) fun w _ hw => by
    have hhead : (w.socket.txBuffer.setHeadSequence w.socket.nextTxSequence.next).Places w.socket.nextTxSequence.next :=
      .head (b := w.socket.txBuffer.setHeadSequence w.socket.nextTxSequence.next) hw.size_eq
    have hsound : Sound W none
        { sender w with
          txBuffer := w.socket.txBuffer.setHeadSequence w.socket.nextTxSequence.next
          nextTxSequence := w.socket.nextTxSequence.next } w.socket.nextTxSequence.next :=
      ⟨hw.size_eq, hw.rWnd_lt, hw.forks, hhead.ahead_le, .inl hhead, hw.good⟩
    refine hsound.of_eq (congrArg TcpCore.txBuffer (hf w)) (congrArg TcpCore.nextTxSequence (hf w)) rfl rfl
      (congrArg TcpCore.highTxMark (hf w)) ?_
    have hwnd : (f w.socket).rWnd = w.socket.rWnd := congrArg TcpCore.rWnd (hf w)
    rw [← show (sender { w with socket := f w.socket }).rWnd = (f w.socket).rWnd from rfl] at hwnd
    rw [hwnd]
    exact hw.rWnd_lt
  sendPendingData := keeps_sendPendingData none
  processAck := keeps_processAck happ
  retransmit := keeps_retransmit happ
  receivedData := (indifferent none (happ none)).callsKept.receivedData (indifferent none (happ none)).doPeerClose
  peerClose := (indifferent none (happ none)).callsKept.peerClose (indifferent none (happ none)).doPeerClose

end Acknowledgements

/-- The invariant at the start of a run holds at its end, unless a fault has stopped the program. -/
theorem Safe.run {depth : ℕ} {w₀ w : TcpState γ} {tr : List (TcpState γ × List TcpReaction × TcpState.Event)}
    (h : Safe W none w₀) (hrun : (TcpState.machine γ depth).Run w₀ tr w) : Outcome anyFault (Safe W none) w :=
  (kept (keeps_application depth)).run hrun trivial h

omit [LawfulTcpCongestion γ] in
theorem safe_new {congestion : γ} (h : W.Good congestion) : Safe W none (.new congestion) :=
  ⟨rfl, Nat.two_pow_pos 16, fun _ hs => absurd hs List.not_mem_nil,
    Nat.le_of_eq (SequenceNumber.ahead_eq_zero_iff.mpr rfl), .inl (.head rfl), h⟩

/-- In every reachable state the invariant holds of which nothing is followed. -/
theorem outcome_safe {depth : ℕ} {w₀ w : TcpState γ} {tr : List (TcpState γ × List TcpReaction × TcpState.Event)}
    (hborn : TcpState.Born depth w₀) (hrun : (TcpState.machine γ depth).Run w₀ tr w) :
    Outcome anyFault (Safe (.nothing γ) none) w := by
  induction hborn generalizing w tr with
  | new congestion => exact (safe_new trivial).run hrun
  | @forked w₀ w₁ s tr₁ congestion now _ hrun₁ hfork ih =>
    have hforks : ∀ s ∈ (sender w₁).forks, s.Ready := by
      rcases ih hrun₁ with hsafe | ⟨e, t, hforks, rfl⟩
      · exact hsafe.forks
      · exact hforks
    have hready := hforks s (List.mem_filterMap.mpr ⟨_, hfork, rfl⟩)
    have hsafe : Safe (.nothing γ) none (.forked s congestion now) :=
      ⟨hready.places.size_eq, hready.rWnd_lt, fun s hs => absurd hs List.not_mem_nil, hready.places.ahead_le,
        .inr trivial, trivial⟩
    exact hsafe.run hrun

end Window

end TcpSocketBase

end Ns3
