import Ns3.Internet.TcpInFlight
import Ns3.Lib.Counters

/-!
# The congestion window of NewReno

`TcpNewReno` computes its window, and the bytes in flight, with unsigned numbers.

* `History` — the calls of the virtual functions that were made on a socket, each with the socket it was made on. The
  data of a subclass is what the calls make of the data that it began with.
* `History.Marked` — at every call the highest mark is in the transmit buffer, unless more was acknowledged than it
  tells (the `FIN`, or bytes that were never sent) and nothing was sent since. So the bytes in flight are bytes of the
  buffer.
* `Ledger` — what the arithmetic is measured by: the segment size and `m_ssThresh` when the window was initialised, the
  bytes in flight at the last loss, and in fast recovery what the window was opened to, how many duplicate and partial
  acknowledgements arrived since, and how much the partial ones acknowledged.
* `History.Fair` — when nothing goes wrong; `holds_of_fair`.
* `not_holds_deflated` — a partial acknowledgement of more than the window, as duplicate acknowledgements were lost.
-/

namespace Ns3

open Lib

/-- The data of the congestion control of `TcpNewReno`. -/
structure TcpNewReno where
  cWnd : UInt32
  ssThresh : UInt32
  initialCWnd : UInt32
  retxThresh : UInt32
  inFastRec : Bool
  limitedTx : Bool
  recover : SequenceNumber32

namespace TcpSocketBase

/-- What is sent and not acknowledged. -/
def bytesInFlight (s : TcpSocketBase) : UInt32 := s.highTxMark.minus s.txBuffer.firstByteSeq

end TcpSocketBase

namespace TcpNewReno

variable (c : TcpNewReno)

variable (s : TcpSocketBase)

/-- The window to begin with. -/
def initializeCwnd : TcpNewReno :=
  { c with cWnd := c.initialCWnd * s.segmentSize }

/-- What congestion avoidance adds to the window. The quotient is cut, as a number that is converted is; by an empty
window the source divides as well, and converts what is not a number. -/
def adder (cWnd segmentSize : UInt32) : UInt32 := max 1 (segmentSize * segmentSize / cWnd)

/-- Slow start or congestion avoidance. -/
def increase : TcpNewReno :=
  if c.cWnd < c.ssThresh then { c with cWnd := c.cWnd + s.segmentSize }
  else { c with cWnd := c.cWnd + adder c.cWnd s.segmentSize }

/-- `NewAck`, up to the call of `TcpSocketBase::NewAck`. A partial acknowledgement retransmits afterwards. -/
def newAck (seq : SequenceNumber32) : TcpNewReno × Bool :=
  if c.inFastRec ∧ seq.lt c.recover then
    ({ c with cWnd := c.cWnd - seq.minus s.txBuffer.firstByteSeq + s.segmentSize }, true)
  else if c.inFastRec ∧ seq.ge c.recover then
    (increase { c with cWnd := min c.ssThresh (s.bytesInFlight + s.segmentSize), inFastRec := false } s, false)
  else (c.increase s, false)

/-- The third duplicate acknowledgement starts fast recovery; more of them widen the window. -/
def dupAck (count : UInt32) : TcpNewReno × DupAckAction :=
  if count = c.retxThresh ∧ c.inFastRec = false then
    let ssThresh := max (2 * s.segmentSize) (s.bytesInFlight / 2)
    ({ c with ssThresh, cWnd := ssThresh + 3 * s.segmentSize, recover := s.highTxMark, inFastRec := true }, .retransmit)
  else if c.inFastRec then ({ c with cWnd := c.cWnd + s.segmentSize }, .sendPending)
  else if c.limitedTx ∧ s.txBuffer.sizeFromSequence s.nextTxSequence > 0 then (c, .limitedTransmit)
  else (c, .nothing)

/-- `Retransmit`. What it tests first `ReTxTimeout`, which calls it, has tested. -/
def retransmit : TcpNewReno :=
  { c with
    inFastRec := false
    ssThresh := max (2 * s.segmentSize) (s.bytesInFlight / 2)
    cWnd := s.segmentSize }

/-- The copy constructor. -/
def copy : TcpNewReno := { c with inFastRec := false, recover := ⟨0⟩ }

instance : TcpCongestion TcpNewReno where
  window c s := min s.rWnd c.cWnd
  initializeCwnd := initializeCwnd
  newAck := newAck
  dupAck := dupAck
  retransmit c s := (c.retransmit s, false)
  copy := copy

instance : LawfulTcpCongestion TcpNewReno where
  window_le c s := by
    change (if s.rWnd ≤ c.cWnd then s.rWnd else c.cWnd) ≤ s.rWnd
    split_ifs with hle
    · exact UInt32.le_refl _
    · exact UInt32.le_of_lt (UInt32.not_le.mp hle)
  window_congr c s s' h := congrArg (min · c.cWnd) h

end TcpNewReno

/-! ### What was called -/

/-- The calls that were made on a socket, and on the socket that it was copied from before. -/
inductive History (γ : Type) where
  /-- The data that the constructor and the attributes give. -/
  | start (c : γ)
  /-- A call, made on the socket as it is given. -/
  | call (h : History γ) (virtual : CongestionCall) (s : TcpSocketBase)
  | copied (h : History γ)

namespace History

variable {γ : Type} [TcpCongestion γ]

/-- The data after the calls. -/
def data : History γ → γ
  | start c => c
  | call h virtual s => virtual.after h.data s
  | copied h => TcpCongestion.copy h.data

/-- The subclass, with its calls noted down. -/
instance : TcpCongestion (History γ) where
  window h s := TcpCongestion.window h.data s
  initializeCwnd h s := h.call .initializeCwnd s
  newAck h s seq := (h.call (.newAck seq) s, (TcpCongestion.newAck h.data s seq).2)
  dupAck h s count := (h.call (.dupAck count) s, (TcpCongestion.dupAck h.data s count).2)
  retransmit h s := (h.call .retransmit s, (TcpCongestion.retransmit h.data s).2)
  copy := copied

instance [LawfulTcpCongestion γ] : LawfulTcpCongestion (History γ) where
  window_le h := LawfulTcpCongestion.window_le h.data
  window_congr h := LawfulTcpCongestion.window_congr h.data

theorem after_eq (h : History γ) (virtual : CongestionCall) (s : TcpSocketBase) :
    virtual.after h s = h.call virtual s := by
  cases virtual <;> rfl

omit [TcpCongestion γ] in
/-- At the last acknowledgement of more than the highest mark told it was where it is now. -/
def Overrun : History γ → SequenceNumber32 → Prop
  | start _, _ => False
  | call h virtual s, mark => if virtual.Overruns s then mark = s.highTxMark else h.Overrun mark
  | copied h, mark => h.Overrun mark

omit [TcpCongestion γ] in
instance decidableOverrun : (h : History γ) → (mark : SequenceNumber32) → Decidable (h.Overrun mark)
  | start _, _ => .isFalse id
  | call h virtual s, mark =>
    have := decidableOverrun h mark
    inferInstanceAs (Decidable (if virtual.Overruns s then mark = s.highTxMark else h.Overrun mark))
  | copied h, mark => decidableOverrun h mark

omit [TcpCongestion γ] in
/-- Every call found the highest mark in the buffer, unless more was acknowledged and nothing sent since. -/
def Marked : History γ → Prop
  | start _ => True
  | call h _ s => h.Marked ∧ (s.txBuffer.Places s.highTxMark ∨ h.Overrun s.highTxMark)
  | copied h => h.Marked

/-- The highest mark is followed. -/
def watch (γ : Type) [TcpCongestion γ] : Watch (History γ) where
  Overrun := Overrun
  Good := Marked
  overrun call h s hover := by
    rw [after_eq, Overrun]
    split_ifs with hcall
    · rfl
    · exact hover.resolve_left hcall
  good call h s hmark hgood := by
    rw [after_eq]
    exact ⟨hgood, hmark⟩

/-- The states that sockets begin in: new, or copied from a socket that listens, right when it was asked to. -/
inductive Born (depth : ℕ) : TcpState (History γ) → Prop where
  | new (c : γ) : Born depth (.new (start c))
  | forked {w₀ w : TcpState (History γ)} {tr : List (TcpState (History γ) × List TcpReaction × TcpState.Event)}
      (now : ℤ) :
      Born depth w₀ → (TcpState.machine (History γ) depth).Run w₀ tr w → w.stopped = none →
        w.log.getLast? = some (.fork, w.socket) → Born depth (.forked w.socket w.congestion now)

theorem safe_of_reachable [LawfulTcpCongestion γ] {depth : ℕ} {w₀ w : TcpState (History γ)}
    {tr : List (TcpState (History γ) × List TcpReaction × TcpState.Event)} (hborn : Born depth w₀)
    (hrun : (TcpState.machine (History γ) depth).Run w₀ tr w) (hrunning : w.stopped = none) :
    TcpSocketBase.Safe (watch γ) none w := by
  induction hborn generalizing w tr with
  | new c => exact ((TcpSocketBase.safe_new trivial).run hrun).of_running hrunning
  | @forked w₀ w₁ tr₁ now _ hrun₁ hrunning₁ hfork ih =>
    have hsafe := ih hrun₁ hrunning₁
    have hcopy : TcpSocketBase.Safe (watch γ) none (.forked w₁.socket w₁.congestion now) :=
      ⟨hsafe.size_eq, hsafe.rWnd_lt, fun s hs => absurd hs List.not_mem_nil, hsafe.inBuffer, hsafe.marked, hsafe.good⟩
    exact (hcopy.run hrun).of_running hrunning

end History

/-! ### The arithmetic -/

/-- What the arithmetic is measured by. -/
structure Ledger where
  /-- `m_segmentSize` when `m_cWnd` was initialised. -/
  segmentSize : UInt32
  /-- `m_ssThresh` then. -/
  initial : UInt32
  /-- The bytes in flight at the last loss. -/
  flight : UInt32
  /-- What the window was opened to when fast recovery was entered, or since then by `Connect` or `Listen`. -/
  opened : ℕ
  /-- The duplicate and partial acknowledgements since. -/
  arrivals : ℕ
  /-- How much the partial ones acknowledged. -/
  acked : ℕ

namespace TcpNewReno

/-- A partial acknowledgement in fast recovery. -/
def Partial (c : TcpNewReno) (seq : SequenceNumber32) : Prop := c.inFastRec = true ∧ seq.lt c.recover = true
deriving Decidable

/-- The duplicate acknowledgement that fast recovery begins with. -/
def Enters (c : TcpNewReno) (count : UInt32) : Prop := count = c.retxThresh ∧ c.inFastRec = false
deriving Decidable

/-- The call computes `BytesInFlight`. -/
def Measures (c : TcpNewReno) : CongestionCall → Prop
  | .initializeCwnd => False
  | .newAck seq => c.inFastRec = true ∧ ¬ c.Partial seq
  | .dupAck count => c.Enters count
  | .retransmit => True

instance (c : TcpNewReno) : (virtual : CongestionCall) → Decidable (c.Measures virtual)
  | .initializeCwnd => .isFalse id
  | .newAck _ => inferInstanceAs (Decidable (_ ∧ _))
  | .dupAck count => inferInstanceAs (Decidable (c.Enters count))
  | .retransmit => .isTrue trivial

/-- The settings are sound: windows and segments are not empty, the initial window can be expressed, and `m_ssThresh` is
two segments at least. -/
structure Configured (c : TcpNewReno) (s : TcpSocketBase) : Prop where
  segmentSize : 0 < s.segmentSize.toNat
  initialCWnd : 0 < c.initialCWnd.toNat
  cWnd_lt : c.initialCWnd.toNat * s.segmentSize.toNat < 2 ^ 32
  ssThresh : 2 * s.segmentSize.toNat ≤ c.ssThresh.toNat

instance (c : TcpNewReno) (s : TcpSocketBase) : Decidable (c.Configured s) :=
  decidable_of_iff (0 < s.segmentSize.toNat ∧ 0 < c.initialCWnd.toNat ∧
      c.initialCWnd.toNat * s.segmentSize.toNat < 2 ^ 32 ∧ 2 * s.segmentSize.toNat ≤ c.ssThresh.toNat)
    ⟨fun h => ⟨h.1, h.2.1, h.2.2.1, h.2.2.2⟩, fun h => ⟨h.1, h.2, h.3, h.4⟩⟩

end TcpNewReno

namespace Ledger

open TcpNewReno

/-- When the window is initialised. -/
def opening (c : TcpNewReno) (s : TcpSocketBase) : Ledger :=
  ⟨s.segmentSize, c.ssThresh, 0, c.initialCWnd.toNat * s.segmentSize.toNat, 0, 0⟩

/-- After another call. -/
def after (l : Ledger) (c : TcpNewReno) (s : TcpSocketBase) : CongestionCall → Ledger
  | .initializeCwnd => opening c s
  | .newAck seq =>
    if c.Partial seq then
      { l with arrivals := l.arrivals + 1, acked := l.acked + seq.ahead s.txBuffer.firstByteSeq }
    else l
  | .dupAck count =>
    if c.Enters count then
      { l with
        flight := s.bytesInFlight
        opened := max (2 * s.segmentSize.toNat) (s.bytesInFlight.toNat / 2) + 3 * s.segmentSize.toNat
        arrivals := 0
        acked := 0 }
    else { l with arrivals := l.arrivals + 1 }
  | .retransmit => { l with flight := s.bytesInFlight }

/-- The call is sound for the arithmetic: a partial acknowledgement is of no more than what the window was opened to,
one segment for each duplicate or partial acknowledgement since included, less what they acknowledged; and no sum
wraps. -/
def Admits (l : Ledger) (c : TcpNewReno) (s : TcpSocketBase) : CongestionCall → Prop
  | .initializeCwnd => True
  | .newAck seq =>
    if c.Partial seq then
      l.acked + seq.ahead s.txBuffer.firstByteSeq ≤ l.opened + l.arrivals * s.segmentSize.toNat ∧
        l.opened + (l.arrivals + 1) * s.segmentSize.toNat < 2 ^ 32 + (l.acked + seq.ahead s.txBuffer.firstByteSeq)
    else if c.inFastRec = true then s.bytesInFlight.toNat + 2 * s.segmentSize.toNat < 2 ^ 32
    else if c.cWnd < c.ssThresh then c.cWnd.toNat + s.segmentSize.toNat < 2 ^ 32
    else c.cWnd.toNat + (adder c.cWnd s.segmentSize).toNat < 2 ^ 32
  | .dupAck count =>
    if c.Enters count then
      max (2 * s.segmentSize.toNat) (s.bytesInFlight.toNat / 2) + 3 * s.segmentSize.toNat < 2 ^ 32
    else c.inFastRec = true → l.opened + (l.arrivals + 1) * s.segmentSize.toNat < 2 ^ 32 + l.acked
  | .retransmit => True

instance (l : Ledger) (c : TcpNewReno) (s : TcpSocketBase) :
    (virtual : CongestionCall) → Decidable (l.Admits c s virtual)
  | .initializeCwnd | .retransmit => .isTrue trivial
  | .newAck _ => inferInstanceAs (Decidable (ite _ (_ ∧ _) (ite _ _ (ite _ _ _))))
  | .dupAck _ => inferInstanceAs (Decidable (ite _ _ (_ → _)))

/-- The window is a segment at least, and `m_ssThresh` is between two segments and the most of what it was first, two
segments and half of the bytes in flight at the last loss. -/
structure InBounds (l : Ledger) (c : TcpNewReno) : Prop where
  cWnd : l.segmentSize.toNat ≤ c.cWnd.toNat
  le_ssThresh : 2 * l.segmentSize.toNat ≤ c.ssThresh.toNat
  ssThresh_le : c.ssThresh.toNat ≤ max l.initial.toNat (max (2 * l.segmentSize.toNat) (l.flight.toNat / 2))

/-- In fast recovery the window is what it was opened to, a segment more for each acknowledgement that arrived, less
what these acknowledged. -/
structure Covers (l : Ledger) (c : TcpNewReno) : Prop extends l.InBounds c where
  segmentSize_pos : 0 < l.segmentSize.toNat
  recovering : c.inFastRec = true → c.cWnd.toNat + l.acked = l.opened + l.arrivals * l.segmentSize.toNat

end Ledger

namespace TcpNewReno

variable {c : TcpNewReno} {s : TcpSocketBase} {l : Ledger}

theorem toNat_adder_le {cWnd segmentSize : UInt32} (hpos : 0 < segmentSize.toNat)
    (hle : segmentSize.toNat ≤ cWnd.toNat) : (adder cWnd segmentSize).toNat ≤ segmentSize.toNat := by
  have hquotient : (segmentSize * segmentSize / cWnd).toNat ≤ segmentSize.toNat := by
    calc (segmentSize * segmentSize / cWnd).toNat
        = segmentSize.toNat * segmentSize.toNat % 2 ^ 32 / cWnd.toNat := by
          rw [UInt32.toNat_div, UInt32.toNat_mul]
      _ ≤ segmentSize.toNat * segmentSize.toNat / cWnd.toNat := Nat.div_le_div_right (Nat.mod_le _ _)
      _ ≤ segmentSize.toNat * segmentSize.toNat / segmentSize.toNat := Nat.div_le_div_left hle hpos
      _ = segmentSize.toNat := Nat.mul_div_cancel _ hpos
  rw [adder, toNat_max]
  exact Nat.max_le.mpr ⟨hpos, hquotient⟩

theorem increase_ssThresh : (c.increase s).ssThresh = c.ssThresh := by
  rw [increase]
  split_ifs <;> rfl

theorem increase_inFastRec : (c.increase s).inFastRec = c.inFastRec := by
  rw [increase]
  split_ifs <;> rfl

theorem le_increase (hslow : c.cWnd < c.ssThresh → c.cWnd.toNat + s.segmentSize.toNat < 2 ^ 32)
    (havoid : ¬ c.cWnd < c.ssThresh → c.cWnd.toNat + (adder c.cWnd s.segmentSize).toNat < 2 ^ 32) :
    c.cWnd.toNat ≤ (c.increase s).cWnd.toNat := by
  rw [increase]
  split_ifs with hlt
  · rw [toNat_add_of_lt (hslow hlt)]
    exact Nat.le_add_right _ _
  · rw [toNat_add_of_lt (havoid hlt)]
    exact Nat.le_add_right _ _

theorem covers_opening (h : c.Configured s) : (Ledger.opening c s).Covers (c.initializeCwnd s) := by
  have hproduct : (c.initializeCwnd s).cWnd.toNat = c.initialCWnd.toNat * s.segmentSize.toNat :=
    toNat_mul_of_lt h.cWnd_lt
  refine ⟨⟨?_, h.ssThresh, Nat.le_max_left _ _⟩, h.segmentSize, fun _ => ?_⟩
  · rw [hproduct]
    exact Nat.le_mul_of_pos_left _ h.initialCWnd
  · rw [hproduct, Ledger.opening, Nat.zero_mul]

section Steps

variable (h : l.Covers c) (hsegment : s.segmentSize = l.segmentSize)

include h hsegment

/-- A partial acknowledgement of no more than the window. -/
theorem covers_deflation {seq : SequenceNumber32} (hadmits : l.Admits c s (.newAck seq)) (hdeflates : c.Partial seq) :
    (seq.minus s.txBuffer.firstByteSeq).toNat ≤ c.cWnd.toNat ∧
      (l.after c s (.newAck seq)).Covers (c.newAck s seq).1 := by
  have hrecovering := h.recovering hdeflates.1
  have hcWnd := h.cWnd
  rw [Ledger.Admits, if_pos hdeflates, hsegment, Nat.succ_mul] at hadmits
  obtain ⟨hacked, hroom⟩ := hadmits
  have hminus : (seq.minus s.txBuffer.firstByteSeq).toNat = seq.ahead s.txBuffer.firstByteSeq :=
    SequenceNumber32.toNat_minus _ _
  have hle : (seq.minus s.txBuffer.firstByteSeq).toNat ≤ c.cWnd.toNat := by omega
  have hsub := UInt32.toNat_sub_of_le c.cWnd _ (UInt32.le_iff_toNat_le.mpr hle)
  have hadd : (c.cWnd - seq.minus s.txBuffer.firstByteSeq + s.segmentSize).toNat =
      c.cWnd.toNat - seq.ahead s.txBuffer.firstByteSeq + l.segmentSize.toNat := by
    rw [toNat_add_of_lt (by rw [hsub, hsegment]; omega), hsub, hminus, hsegment]
  refine ⟨hle, ?_⟩
  rw [Ledger.after, if_pos hdeflates, newAck,
    if_pos (show c.inFastRec = true ∧ seq.lt c.recover = true from hdeflates)]
  refine ⟨⟨?_, h.le_ssThresh, h.ssThresh_le⟩, h.segmentSize_pos, fun _ => ?_⟩
  · dsimp only
    omega
  · dsimp only
    rw [hadd, Nat.succ_mul]
    omega

/-- An acknowledgement that is not partial. -/
theorem covers_newAck {seq : SequenceNumber32} (hadmits : l.Admits c s (.newAck seq)) (hdeflates : ¬ c.Partial seq) :
    (l.after c s (.newAck seq)).Covers (c.newAck s seq).1 := by
  have hpos := h.segmentSize_pos
  have hcWnd := h.cWnd
  have hthresh := h.le_ssThresh
  rw [Ledger.Admits, if_neg hdeflates, hsegment] at hadmits
  rw [Ledger.after, if_neg hdeflates, newAck,
    if_neg (show ¬ (c.inFastRec = true ∧ seq.lt c.recover = true) from hdeflates)]
  by_cases hrec : c.inFastRec = true
  · have hge : seq.ge c.recover = true := by
      by_contra hge
      refine hdeflates ⟨hrec, ?_⟩
      rw [SequenceNumber.ge, Bool.or_eq_true, not_or, decide_eq_true_eq] at hge
      rw [SequenceNumber.lt, Bool.and_eq_true]
      simpa using hge
    rw [if_pos hrec] at hadmits
    rw [if_pos ⟨hrec, hge⟩]
    -- the window on leaving fast recovery
    have hflight : (s.bytesInFlight + s.segmentSize).toNat = s.bytesInFlight.toNat + l.segmentSize.toNat := by
      rw [toNat_add_of_lt (by rw [hsegment]; omega), hsegment]
    have hleft : (min c.ssThresh (s.bytesInFlight + s.segmentSize)).toNat =
        min c.ssThresh.toNat (s.bytesInFlight.toNat + l.segmentSize.toNat) := by
      rw [toNat_min, hflight]
    have hadder : ¬ min c.ssThresh (s.bytesInFlight + s.segmentSize) < c.ssThresh →
        (adder (min c.ssThresh (s.bytesInFlight + s.segmentSize)) s.segmentSize).toNat ≤ l.segmentSize.toNat := by
      intro _
      rw [hsegment] at hleft ⊢
      exact toNat_adder_le hpos (by omega)
    have hgrows := @le_increase
      { c with cWnd := min c.ssThresh (s.bytesInFlight + s.segmentSize), inFastRec := false } s
      (fun _ => by dsimp only; rw [hleft, hsegment]; omega)
      fun havoid => by
        have hle := hadder havoid
        dsimp only at hle ⊢
        rw [hleft]
        omega
    dsimp only at hgrows
    rw [hleft] at hgrows
    refine ⟨⟨?_, ?_, ?_⟩, hpos, fun hrec' => ?_⟩
    · dsimp only
      omega
    · rw [increase_ssThresh]
      exact hthresh
    · rw [increase_ssThresh]
      exact h.ssThresh_le
    · rw [increase_inFastRec] at hrec'
      exact absurd hrec' Bool.false_ne_true
  · rw [if_neg hrec] at hadmits
    rw [if_neg fun hfull => hrec hfull.1]
    have hgrows := @le_increase c s (fun hlt => by rw [if_pos hlt] at hadmits; rw [hsegment]; exact hadmits)
      fun hlt => by rw [if_neg hlt, ← hsegment] at hadmits; exact hadmits
    refine ⟨⟨Nat.le_trans hcWnd hgrows, ?_, ?_⟩, hpos, fun hrec' => ?_⟩
    · rw [increase_ssThresh]
      exact hthresh
    · rw [increase_ssThresh]
      exact h.ssThresh_le
    · rw [increase_inFastRec] at hrec'
      exact absurd hrec' hrec

theorem toNat_halved :
    (max (2 * s.segmentSize) (s.bytesInFlight / 2)).toNat =
      max (2 * l.segmentSize.toNat) (s.bytesInFlight.toNat / 2) := by
  have hthresh := h.le_ssThresh
  have hlt := c.ssThresh.toNat_lt
  rw [toNat_max, hsegment, toNat_mul_of_lt (show (2 : UInt32).toNat * l.segmentSize.toNat < 2 ^ 32 by
    rw [show (2 : UInt32).toNat = 2 from rfl]; omega), UInt32.toNat_div]
  rfl

theorem covers_dupAck {count : UInt32} (hadmits : l.Admits c s (.dupAck count)) :
    (l.after c s (.dupAck count)).Covers (c.dupAck s count).1 := by
  have hpos := h.segmentSize_pos
  have hcWnd := h.cWnd
  have hthresh := h.le_ssThresh
  have hhalved := toNat_halved h hsegment
  rw [Ledger.Admits, hsegment] at hadmits
  rw [Ledger.after, dupAck, hsegment]
  rw [hsegment] at hhalved
  by_cases henters : c.Enters count
  · rw [if_pos henters] at hadmits ⊢
    rw [if_pos (show count = c.retxThresh ∧ c.inFastRec = false from henters)]
    have hthree : (3 * l.segmentSize).toNat = 3 * l.segmentSize.toNat :=
      toNat_mul_of_lt (show (3 : UInt32).toNat * l.segmentSize.toNat < 2 ^ 32 by
        rw [show (3 : UInt32).toNat = 3 from rfl]; omega)
    have hopened : (max (2 * l.segmentSize) (s.bytesInFlight / 2) + 3 * l.segmentSize).toNat =
        max (2 * l.segmentSize.toNat) (s.bytesInFlight.toNat / 2) + 3 * l.segmentSize.toNat := by
      rw [toNat_add_of_lt (by rw [hhalved, hthree]; exact hadmits), hhalved, hthree]
    refine ⟨⟨?_, ?_, ?_⟩, hpos, fun _ => ?_⟩ <;> dsimp only
    · rw [hopened]
      omega
    · rw [hhalved]
      exact Nat.le_max_left _ _
    · rw [hhalved]
      exact Nat.le_max_right _ _
    · rw [hopened, Nat.zero_mul]
  · rw [if_neg henters] at hadmits ⊢
    rw [if_neg (show ¬ (count = c.retxThresh ∧ c.inFastRec = false) from henters)]
    by_cases hrec : c.inFastRec = true
    · have hrecovering := h.recovering hrec
      have hroom := hadmits hrec
      rw [Nat.succ_mul] at hroom
      have hadd : (c.cWnd + l.segmentSize).toNat = c.cWnd.toNat + l.segmentSize.toNat := toNat_add_of_lt (by omega)
      rw [if_pos hrec]
      refine ⟨⟨?_, hthresh, h.ssThresh_le⟩, hpos, fun _ => ?_⟩ <;> dsimp only
      · rw [hadd]
        omega
      · rw [hadd, Nat.succ_mul]
        omega
    · rw [if_neg hrec]
      have hsame : l.InBounds c → ({ l with arrivals := l.arrivals + 1 } : Ledger).Covers c := fun hin =>
        ⟨⟨hin.cWnd, hin.le_ssThresh, hin.ssThresh_le⟩, hpos, fun hrec' => absurd hrec' hrec⟩
      split_ifs <;> exact hsame h.toInBounds

theorem covers_retransmit : (l.after c s .retransmit).Covers (c.retransmit s) := by
  have hhalved := toNat_halved h hsegment
  refine ⟨⟨?_, ?_, ?_⟩, h.segmentSize_pos, fun hrec => absurd hrec Bool.false_ne_true⟩
  · exact Nat.le_of_eq (congrArg UInt32.toNat hsegment.symm)
  · rw [retransmit, hhalved]
    exact Nat.le_max_left _ _
  · rw [retransmit, hhalved]
    exact Nat.le_max_right _ _

end Steps

end TcpNewReno

/-! ### Over whole runs -/

namespace History

/-- The ledger after the calls, when `m_cWnd` has been initialised. -/
def ledger : History TcpNewReno → Option Ledger
  | start _ => none
  | call h .initializeCwnd s => some (.opening h.data s)
  | call h virtual s => h.ledger.map fun l => l.after h.data s virtual
  | copied h => h.ledger

/-- The call is sound: the settings are when the window is initialised; the bytes in flight are not computed when more
was acknowledged than was sent, and nothing sent since; the segment size stays, and the arithmetic admits the call. -/
def FairCall (h : History TcpNewReno) (s : TcpSocketBase) : CongestionCall → Prop
  | .initializeCwnd => h.data.Configured s
  | virtual =>
    (h.data.Measures virtual → ¬ h.Overrun s.highTxMark) ∧
      ∀ l ∈ h.ledger, s.segmentSize = l.segmentSize ∧ l.Admits h.data s virtual

instance (h : History TcpNewReno) (s : TcpSocketBase) : (virtual : CongestionCall) → Decidable (h.FairCall s virtual)
  | .initializeCwnd => inferInstanceAs (Decidable (h.data.Configured s))
  | .newAck _ | .dupAck _ | .retransmit => inferInstanceAs (Decidable (_ ∧ ∀ l ∈ h.ledger, _ ∧ _))

/-- Every call is sound. -/
def Fair : History TcpNewReno → Prop
  | start _ => True
  | call h virtual s => h.Fair ∧ h.FairCall s virtual
  | copied h => h.Fair

instance decidableFair : (h : History TcpNewReno) → Decidable h.Fair
  | start _ => .isTrue trivial
  | call h virtual s =>
    have := decidableFair h
    inferInstanceAs (Decidable (h.Fair ∧ h.FairCall s virtual))
  | copied h => decidableFair h

/-- No subtraction of the call wraps. -/
structure NoWrap (h : History TcpNewReno) (s : TcpSocketBase) (virtual : CongestionCall) : Prop where
  /-- The highest mark is in the buffer or at its end when the bytes in flight are computed. -/
  bytesInFlight : h.data.Measures virtual → s.txBuffer.Places s.highTxMark
  /-- What a partial acknowledgement takes from the window is in it. -/
  cWnd : ∀ seq, virtual = .newAck seq → h.data.Partial seq → h.ledger ≠ none →
    (seq.minus s.txBuffer.firstByteSeq).toNat ≤ h.data.cWnd.toNat

/-- The window and `m_ssThresh` are in their bounds. -/
def InBounds (h : History TcpNewReno) : Prop := ∀ l ∈ h.ledger, l.InBounds h.data

/-- No subtraction of a call wrapped, and after each the window and `m_ssThresh` were in their bounds. -/
def Holds : History TcpNewReno → Prop
  | start _ => True
  | call h virtual s => h.Holds ∧ h.NoWrap s virtual ∧ (h.call virtual s).InBounds
  | copied h => h.Holds ∧ (copied h).InBounds

theorem Holds.inBounds {h : History TcpNewReno} (hholds : h.Holds) : h.InBounds := by
  cases h with
  | start c => exact fun l hl => absurd hl (by simp [ledger])
  | call h virtual s => exact hholds.2.2
  | copied h => exact hholds.2

theorem noWrap_of_full {h : History TcpNewReno} {s : TcpSocketBase} {virtual : CongestionCall}
    (hmark : s.txBuffer.Places s.highTxMark ∨ h.Overrun s.highTxMark)
    (hmeasures : h.data.Measures virtual → ¬ h.Overrun s.highTxMark)
    (hdeflates : ∀ seq, virtual = .newAck seq → ¬ h.data.Partial seq) : h.NoWrap s virtual :=
  ⟨fun hcall => hmark.resolve_right (hmeasures hcall), fun seq hseq hin => absurd hin (hdeflates seq hseq)⟩

/-- What one call does. -/
theorem step_of_fair {h : History TcpNewReno} {s : TcpSocketBase} {virtual : CongestionCall}
    (hmark : s.txBuffer.Places s.highTxMark ∨ h.Overrun s.highTxMark) (hcovers : ∀ l ∈ h.ledger, l.Covers h.data)
    (hfair : h.FairCall s virtual) :
    h.NoWrap s virtual ∧ ∀ l ∈ (h.call virtual s).ledger, l.Covers (h.call virtual s).data := by
  cases virtual with
  | initializeCwnd =>
    refine ⟨noWrap_of_full hmark (fun hcall => absurd hcall id) (fun _ hseq => by cases hseq), fun l hl => ?_⟩
    cases hl
    exact TcpNewReno.covers_opening hfair
  | newAck seq =>
    obtain ⟨hmeasures, hroom⟩ := hfair
    by_cases hdeflates : h.data.Partial seq
    · refine ⟨⟨fun hcall => absurd hdeflates hcall.2, fun seq' hseq' _ hledger => ?_⟩, fun l hl => ?_⟩
      · cases hseq'
        obtain ⟨l, hl⟩ := Option.ne_none_iff_exists'.mp hledger
        obtain ⟨hsegment, hadmits⟩ := hroom l hl
        exact (TcpNewReno.covers_deflation (hcovers l hl) hsegment hadmits hdeflates).1
      · obtain ⟨l', hl', rfl⟩ := Option.map_eq_some_iff.mp hl
        obtain ⟨hsegment, hadmits⟩ := hroom l' hl'
        exact (TcpNewReno.covers_deflation (hcovers l' hl') hsegment hadmits hdeflates).2
    · refine ⟨noWrap_of_full hmark hmeasures (fun seq' hseq' => ?_), fun l hl => ?_⟩
      · cases hseq'
        exact hdeflates
      · obtain ⟨l', hl', rfl⟩ := Option.map_eq_some_iff.mp hl
        obtain ⟨hsegment, hadmits⟩ := hroom l' hl'
        exact TcpNewReno.covers_newAck (hcovers l' hl') hsegment hadmits hdeflates
  | dupAck count =>
    obtain ⟨hmeasures, hroom⟩ := hfair
    refine ⟨noWrap_of_full hmark hmeasures (fun _ hseq => by cases hseq), fun l hl => ?_⟩
    obtain ⟨l', hl', rfl⟩ := Option.map_eq_some_iff.mp hl
    obtain ⟨hsegment, hadmits⟩ := hroom l' hl'
    exact TcpNewReno.covers_dupAck (hcovers l' hl') hsegment hadmits
  | retransmit =>
    obtain ⟨hmeasures, hroom⟩ := hfair
    refine ⟨noWrap_of_full hmark hmeasures (fun _ hseq => by cases hseq), fun l hl => ?_⟩
    obtain ⟨l', hl', rfl⟩ := Option.map_eq_some_iff.mp hl
    exact TcpNewReno.covers_retransmit (hcovers l' hl') (hroom l' hl').1

/-- What all calls do. -/
theorem holds_of_fair {h : History TcpNewReno} (hmarked : h.Marked) (hfair : h.Fair) :
    h.Holds ∧ ∀ l ∈ h.ledger, l.Covers h.data := by
  induction h with
  | start c => exact ⟨trivial, fun l hl => absurd hl (by simp [ledger])⟩
  | call h virtual s ih =>
    obtain ⟨hholds, hcovers⟩ := ih hmarked.1 hfair.1
    obtain ⟨hnoWrap, hcovers'⟩ := step_of_fair hmarked.2 hcovers hfair.2
    exact ⟨⟨hholds, hnoWrap, fun l hl => (hcovers' l hl).toInBounds⟩, hcovers'⟩
  | copied h ih =>
    obtain ⟨hholds, hcovers⟩ := ih hmarked hfair
    have hcopy : ∀ l ∈ h.ledger, l.Covers (TcpNewReno.copy h.data) := fun l hl =>
      ⟨⟨(hcovers l hl).cWnd, (hcovers l hl).le_ssThresh, (hcovers l hl).ssThresh_le⟩, (hcovers l hl).segmentSize_pos,
        fun hrec => absurd hrec Bool.false_ne_true⟩
    exact ⟨⟨hholds, fun l hl => (hcopy l hl).toInBounds⟩, hcopy⟩

/-- In every run whose calls are sound no subtraction wraps, and the window and `m_ssThresh` are in their bounds. -/
theorem holds_of_reachable {depth : ℕ} {w₀ w : TcpState (History TcpNewReno)}
    {tr : List (TcpState (History TcpNewReno) × List TcpReaction × TcpState.Event)} (hborn : Born depth w₀)
    (hrun : (TcpState.machine (History TcpNewReno) depth).Run w₀ tr w) (hrunning : w.stopped = none)
    (hfair : w.congestion.Fair) : w.congestion.Holds :=
  (holds_of_fair (safe_of_reachable hborn hrun hrunning).good hfair).1

/-- A connection with segments of one byte and an initial window of ten segments, ten bytes, and three duplicate
acknowledgements. -/
def recovering : List (List TcpReaction × TcpState.Event) :=
  let ack (ackNumber : SequenceNumber32) : List TcpReaction × TcpState.Event :=
    ([], .segment ⟨⟨2⟩, ⟨1⟩, ⟨80, 1000, ⟨1⟩, ackNumber, TcpHeader.ACK, 1000⟩, []⟩)
  [([], .call (.setAttribute (.segmentSize 1))), ([], .call (.bind 1000 (some (.new 0 ⟨1⟩ 1000)))),
    ([], .call (.connect none ⟨2⟩ 80 (some ⟨1⟩))),
    ([], .segment ⟨⟨2⟩, ⟨1⟩, ⟨80, 1000, ⟨0⟩, ⟨1⟩, TcpHeader.SYN ||| TcpHeader.ACK, 1000⟩, []⟩),
    ([], .call (.send [1, 2, 3, 4, 5, 6, 7, 8, 9, 10])), ack ⟨1⟩, ack ⟨1⟩, ack ⟨1⟩]

/-- The data that the attributes give, with an initial window of ten segments. -/
def tenSegments : TcpNewReno := ⟨0, 0xffff, 10, 3, false, false, ⟨0⟩⟩

/-- A partial acknowledgement of three bytes leaves a window of six. -/
theorem holds_recovering :
    ∃ w : TcpState (History TcpNewReno), w.congestion.data.inFastRec = true ∧ w.congestion.data.cWnd = 6 ∧
      w.congestion.Holds := by
  obtain ⟨⟨tr, w⟩, -, hrun, hrunning, hrec, hcWnd, hfair⟩ :=
    (TcpState.machine (History TcpNewReno) 0).exists_replay (.new (start tenSegments))
      (recovering ++ [([], .segment ⟨⟨2⟩, ⟨1⟩, ⟨80, 1000, ⟨1⟩, ⟨4⟩, TcpHeader.ACK, 1000⟩, []⟩)])
      (P := fun out => out.2.stopped = none ∧ out.2.congestion.data.inFastRec = true ∧
        out.2.congestion.data.cWnd = 6 ∧ out.2.congestion.Fair) (by decide +kernel)
  exact ⟨w, hrec, hcWnd, holds_of_reachable (.new _) hrun hrunning hfair⟩

/-- One of nine bytes takes more from the window than the eight that are in it, and leaves a window of nothing. -/
theorem not_holds_deflated :
    ¬ ∀ (depth : ℕ) (w₀ w : TcpState (History TcpNewReno))
      (tr : List (TcpState (History TcpNewReno) × List TcpReaction × TcpState.Event)),
      Born depth w₀ → (TcpState.machine (History TcpNewReno) depth).Run w₀ tr w → w.stopped = none →
        (∀ l ∈ w.congestion.ledger, 0 < l.segmentSize.toNat ∧ 2 * l.segmentSize.toNat ≤ l.initial.toNat) →
          w.congestion.Holds := by
  intro h
  obtain ⟨⟨tr, w⟩, -, hrun, hrunning, hcWnd, hledger⟩ :=
    (TcpState.machine (History TcpNewReno) 0).exists_replay (.new (start tenSegments))
      (recovering ++ [([], .segment ⟨⟨2⟩, ⟨1⟩, ⟨80, 1000, ⟨1⟩, ⟨10⟩, TcpHeader.ACK, 1000⟩, []⟩)])
      (P := fun out => out.2.stopped = none ∧ out.2.congestion.data.cWnd = 0 ∧
        out.2.congestion.ledger.map (fun l => (l.segmentSize, l.initial)) = some (1, 0xffff)) (by decide +kernel)
  obtain ⟨l, hl, hsettings⟩ := Option.map_eq_some_iff.mp hledger
  obtain ⟨hsegment, hinitial⟩ := Prod.mk.inj hsettings
  have hholds := h 0 _ w tr (.new _) hrun hrunning fun l' hl' => by
    obtain rfl := Option.some.inj (hl.symm.trans hl')
    rw [hsegment, hinitial]
    decide
  have hwindow := (hholds.inBounds l hl).cWnd
  rw [hsegment, hcWnd] at hwindow
  exact absurd hwindow (by decide)

end History

end Ns3
