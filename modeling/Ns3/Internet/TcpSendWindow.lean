import Ns3.Internet.TcpInFlight
import Ns3.Lib.Counters

/-!
# The send window

`SendPendingData` is followed through its loop.

* One round sends the next bytes, no further than the window, and leaves all but the next sequence number, the highest
  mark and the state as they are (`Progress`).
* What is pending gets less in every round, so the loop ends, and it ends because nothing is pending or because the rest
  is held back (`HeldBack`).
-/

namespace Ns3

open Lib

namespace TcpSocketBase

variable {γ : Type}

/-! ### What `SendPendingData` sends -/

/-- The segments carry bytes one after the other, from a sequence number on. -/
def Consecutive : SequenceNumber32 → List TcpSegment → Prop
  | _, [] => True
  | seq, g :: l => g.header.sequenceNumber = seq ∧ Consecutive (seq.plus (packetSize g.payload)) l

/-- How far the next number to be sent is behind the head. -/
def outstanding (s : TcpSocketBase) : ℕ := s.nextTxSequence.ahead s.txBuffer.firstByteSeq

/-- The bytes from the next number to be sent on. -/
def pending (s : TcpSocketBase) : List UInt8 := s.txBuffer.data.flatten.drop s.outstanding

/-- The window leaves no room for a segment, or for all that is left; or less than a segment is left and Nagle's rule
delays it; or sending was shut down. -/
def HeldBack (window : ℕ) (s : TcpSocketBase) : Prop :=
  window < s.outstanding + min s.segmentSize.toNat s.pending.length ∨
    s.noDelay = false ∧ 0 < s.outstanding ∧ s.pending.length < s.segmentSize.toNat ∨ s.shutdownSend = true
deriving Decidable

section Pending

variable [TcpCongestion γ]

/-- The window, as a number. -/
def window (w : TcpState γ) : ℕ := (TcpCongestion.window w.congestion w.socket).toNat

/-- Segments are sent with the next bytes of the buffer, within the window. -/
structure Sends (w w' : TcpState γ) (segments : List TcpSegment) : Prop where
  sent : w'.sent = w.sent ++ segments
  /-- They are in order and without gaps. -/
  consecutive : Consecutive w.socket.nextTxSequence segments
  /-- They carry the bytes from the next number to be sent on. -/
  bytes : segments.flatMap TcpSegment.payload <+: w.socket.pending
  /-- The next number is behind them. -/
  next : w'.socket.nextTxSequence = w.socket.nextTxSequence.plus (.ofNat (segments.flatMap TcpSegment.payload).length)
  /-- They end within the window. -/
  inWindow : ∀ g ∈ segments,
    g.header.sequenceNumber.ahead w.socket.txBuffer.firstByteSeq + g.payload.length ≤ window w
  /-- The buffer and the window stay. -/
  txBuffer : w'.socket.txBuffer = w.socket.txBuffer
  window_eq : window w' = window w

/-- `SendPendingData` ends, sends within the window, and leaves nothing that is not held back or excused. -/
def Disciplined (excused : TcpSocketBase → Prop) (w : TcpState γ) : Prop :=
  ∀ withAck, ∃ w' segments, (sendPendingData withAck).run w = (.ok (), w') ∧ Sends w w' segments ∧
    (w'.socket.pending = [] ∨ w'.socket.HeldBack (window w') ∨ excused w'.socket)

/-- After any rounds of the loop. -/
structure Progress (w₀ w : TcpState γ) (segments : List TcpSegment) : Prop where
  sends : Sends w₀ w segments
  sender_eq : sender w = { sender w₀ with nextTxSequence := w.socket.nextTxSequence }
  places : w.socket.txBuffer.Places w.socket.nextTxSequence

omit [TcpCongestion γ] in
theorem consecutive_append {seq : SequenceNumber32} {l : List TcpSegment} {g : TcpSegment} :
    Consecutive seq (l ++ [g]) ↔ Consecutive seq l ∧
      g.header.sequenceNumber = seq.plus (.ofNat (l.flatMap TcpSegment.payload).length) := by
  induction l generalizing seq with
  | nil =>
    rw [List.nil_append, Consecutive, Consecutive, Consecutive, List.flatMap_nil, List.length_nil,
      show UInt32.ofNat 0 = 0 from rfl, SequenceNumber32.plus_zero]
    exact ⟨fun h => ⟨trivial, h.1⟩, fun h => ⟨h.2, trivial⟩⟩
  | cons g' l ih =>
    rw [List.cons_append, Consecutive, ih, Consecutive, List.flatMap_cons, List.length_append, packetSize,
      SequenceNumber32.plus_plus, and_assoc]

theorem prefix_append_take {α : Type} {l₁ l : List α} (h : l₁ <+: l) (n : ℕ) :
    l₁ ++ (l.drop l₁.length).take n <+: l := by
  obtain ⟨t, rfl⟩ := h
  rw [List.drop_left]
  exact List.prefix_append_right_inj l₁ |>.mpr (List.take_prefix n t)

theorem sizes_eq_length {l : List (List UInt8)} (h : l.flatten.length < 2 ^ 32) :
    TcpTxBuffer.sizes l = l.flatten.length := by
  induction l with
  | nil => rfl
  | cons p l ih =>
    rw [List.flatten_cons, List.length_append] at h
    rw [TcpTxBuffer.sizes_cons, ih (by omega), packetSize, TcpTxBuffer.toNat_ofNat_of_lt (by omega), List.flatten_cons,
      List.length_append]

section Loop

variable {W : Watch γ} {w₀ w : TcpState γ} {segments : List TcpSegment}

theorem Progress.refl (h : Safe W none w₀) : Progress w₀ w₀ [] where
  sends :=
    { sent := (List.append_nil _).symm
      consecutive := trivial
      bytes := List.nil_prefix
      next := (SequenceNumber32.plus_zero _).symm
      inWindow := fun _ hg => absurd hg List.not_mem_nil
      txBuffer := rfl
      window_eq := rfl }
  sender_eq := rfl
  places := h.places

omit [TcpCongestion γ] in
theorem copy_eq {s : TcpSocketBase} (hplaces : s.txBuffer.Places s.nextTxSequence)
    (hbytes : s.txBuffer.data.flatten.length < 2 ^ 32) (size : UInt32) :
    s.txBuffer.copyFromSequence size s.nextTxSequence = some (s.pending.take size.toNat) := by
  have hsizes := sizes_eq_length hbytes
  have hmax : (0xffffffff : UInt32).toNat = 2 ^ 32 - 1 := rfl
  have hholds : TcpTxBuffer.Holds 0xffffffff { s.txBuffer with maxBuffer := 0xffffffff }
      ⟨s.txBuffer.firstByteSeq, s.txBuffer.data.flatten⟩ :=
    ⟨rfl, rfl, by rw [← hsizes]; exact hplaces.size_eq, rfl, by dsimp only; omega⟩
  exact hholds.copy size (by rw [← hsizes]; exact hplaces.ahead_le)

omit [TcpCongestion γ] in
theorem toNat_sizeFromSequence {s : TcpSocketBase} (hplaces : s.txBuffer.Places s.nextTxSequence)
    (hbytes : s.txBuffer.data.flatten.length < 2 ^ 32) :
    (s.txBuffer.sizeFromSequence s.nextTxSequence).toNat = s.pending.length := by
  rw [hplaces.sizeFromSequence_eq, sizes_eq_length hbytes, TcpTxBuffer.toNat_ofNat_of_lt (by omega), pending,
    List.length_drop, outstanding]

/-- `AvailableWindow` is what the window leaves behind the outstanding bytes. -/
theorem toNat_availableWindow : (availableWindow w.congestion w.socket).toNat = window w - w.socket.outstanding := by
  have hunack : w.socket.unAckDataCount.toNat = w.socket.outstanding := SequenceNumber32.toNat_minus _ _
  rw [availableWindow, window]
  split_ifs with hlt
  · rw [UInt32.lt_iff_toNat_lt, hunack] at hlt
    exact (Nat.sub_eq_zero_of_le (Nat.le_of_lt hlt)).symm
  · rw [UInt32.toNat_sub_of_le _ _ (UInt32.not_lt.mp hlt), hunack]

/-- How much is sent next: something, and not more than there is room for. -/
theorem nextPiece_some {size : UInt32} (hplaces : w.socket.txBuffer.Places w.socket.nextTxSequence)
    (hbytes : w.socket.txBuffer.data.flatten.length < 2 ^ 32) (hsegment : 0 < w.socket.segmentSize)
    (hsize : nextPiece w.congestion w.socket = some size) :
    0 < size.toNat ∧ w.socket.outstanding + size.toNat ≤ window w ∧ 0 < w.socket.pending.length := by
  have hleft := toNat_sizeFromSequence hplaces hbytes
  have havail := @toNat_availableWindow γ _ w
  rw [nextPiece] at hsize
  split_ifs at hsize with hends
  have hmin := toNat_min (availableWindow w.congestion w.socket) w.socket.segmentSize
  rw [Option.some.inj hsize] at hmin
  simp only [not_or, not_and, gt_iff_lt, UInt32.lt_iff_toNat_lt, ← UInt32.toNat_inj, hleft, havail,
    UInt32.toNat_zero] at hends hsegment
  obtain ⟨hleft, -, hwindow, -⟩ := hends
  omega

/-- Why the loop ends. -/
theorem nextPiece_none (hplaces : w.socket.txBuffer.Places w.socket.nextTxSequence)
    (hbytes : w.socket.txBuffer.data.flatten.length < 2 ^ 32)
    (hsize : nextPiece w.congestion w.socket = none) : w.socket.pending = [] ∨ w.socket.HeldBack (window w) := by
  have hleft := toNat_sizeFromSequence hplaces hbytes
  have havail := @toNat_availableWindow γ _ w
  have hunack : w.socket.unAckDataCount.toNat = w.socket.outstanding := SequenceNumber32.toNat_minus _ _
  rw [nextPiece] at hsize
  split_ifs at hsize with hends
  simp only [gt_iff_lt, UInt32.lt_iff_toNat_lt, ← UInt32.toNat_inj, hleft, havail, hunack, UInt32.toNat_zero] at hends
  rcases hends with hzero | hshut | ⟨hsegment, hwindow⟩ | ⟨hdelay, hout, hsegment⟩
  · exact .inl (List.length_eq_zero_iff.mp hzero)
  · exact .inr (.inr (.inr hshut))
  · exact .inr (.inl (by omega))
  · exact .inr (.inr (.inl ⟨hdelay, hout, hsegment⟩))

theorem Progress.pending_eq (h : Progress w₀ w segments) (hplaces : w₀.socket.txBuffer.Places w₀.socket.nextTxSequence)
    (hbytes : w₀.socket.txBuffer.data.flatten.length < 2 ^ 32) :
    w.socket.pending = w₀.socket.pending.drop (segments.flatMap TcpSegment.payload).length := by
  have hle := h.sends.bytes.length_le
  have hahead := hplaces.ahead_le
  rw [sizes_eq_length hbytes] at hahead
  rw [pending, List.length_drop, outstanding] at hle
  have hplus : (UInt32.ofNat (segments.flatMap TcpSegment.payload).length).toNat =
      (segments.flatMap TcpSegment.payload).length := TcpTxBuffer.toNat_ofNat_of_lt (by omega)
  have hout : w.socket.outstanding = w₀.socket.outstanding + (segments.flatMap TcpSegment.payload).length := by
    rw [outstanding, h.sends.next, h.sends.txBuffer, SequenceNumber32.ahead_plus (by omega), hplus, outstanding]
  rw [pending, hout, h.sends.txBuffer, pending, List.drop_drop]

variable [LawfulTcpCongestion γ]

/-- One round sends the next bytes. -/
theorem Progress.round (h : Progress w₀ w segments) (hplaces : w₀.socket.txBuffer.Places w₀.socket.nextTxSequence)
    (hbytes : w₀.socket.txBuffer.data.flatten.length < 2 ^ 32) (hsegment : 0 < w₀.socket.segmentSize) {size : UInt32}
    (hsize : nextPiece w.congestion w.socket = some size) {w' : TcpState γ} {g : TcpSegment}
    (hsender : sender w' = sender w) (hsent : w'.sent = w.sent ++ [g])
    (hseq : g.header.sequenceNumber = w.socket.nextTxSequence)
    (hcopy : w.socket.txBuffer.copyFromSequence size w.socket.nextTxSequence = some g.payload) :
    Progress w₀ { w' with socket := { w'.socket with
      nextTxSequence := w'.socket.nextTxSequence.plus (packetSize g.payload) } } (segments ++ [g]) := by
  have hpending := h.pending_eq hplaces hbytes
  have hbuffer := h.sends.txBuffer
  have hseg : w.socket.segmentSize = w₀.socket.segmentSize := congrArg Sender.segmentSize h.sender_eq
  have hnext : w'.socket.nextTxSequence = w.socket.nextTxSequence := congrArg Sender.nextTxSequence hsender
  have hbuffer' : w'.socket.txBuffer = w.socket.txBuffer := congrArg Sender.txBuffer hsender
  rw [← hbuffer] at hbytes
  rw [← hseg] at hsegment
  obtain ⟨hpos, hroom, -⟩ := nextPiece_some h.places hbytes hsegment hsize
  have hpayload := Option.some.inj ((copy_eq h.places hbytes size).symm.trans hcopy)
  have hflat : (segments ++ [g]).flatMap TcpSegment.payload = segments.flatMap TcpSegment.payload ++ g.payload := by
    rw [List.flatMap_append, List.flatMap_singleton]
  refine ⟨⟨?_, ?_, ?_, ?_, ?_, ?_, ?_⟩, ?_, ?_⟩
  · rw [hsent, h.sends.sent, List.append_assoc]
  · exact consecutive_append.mpr ⟨h.sends.consecutive, hseq.trans h.sends.next⟩
  · rw [hflat, ← hpayload, hpending]
    exact prefix_append_take h.sends.bytes _
  · dsimp only
    rw [hnext, h.sends.next, packetSize, SequenceNumber32.plus_plus, hflat, List.length_append]
  · intro g' hg
    rcases List.mem_append.mp hg with hg | hg
    · exact h.sends.inWindow g' hg
    · rw [List.mem_singleton.mp hg, hseq, ← hbuffer, ← h.sends.window_eq, ← hpayload, List.length_take]
      have hle := Nat.min_le_left size.toNat w.socket.pending.length
      exact Nat.le_trans (Nat.add_le_add_left hle _) hroom
  · exact hbuffer'.trans hbuffer
  · rw [← h.sends.window_eq, window, window]
    have hcongestion : w'.congestion = w.congestion := congrArg Sender.congestion hsender
    rw [hcongestion]
    exact congrArg UInt32.toNat (LawfulTcpCongestion.window_congr _ _ _ (congrArg Sender.rWnd hsender))
  · have hsame : sender w' = { sender w₀ with nextTxSequence := w.socket.nextTxSequence } := hsender.trans h.sender_eq
    exact congrArg (fun c => { c with nextTxSequence := w'.socket.nextTxSequence.plus (packetSize g.payload) }) hsame
  · dsimp only
    rw [hbuffer', hnext]
    exact h.places.plus hcopy

/-- Nothing may stop the program. -/
def noFault : Setting TcpFault (TcpState γ) := ⟨fun _ => True, fun _ _ => False⟩

/-- What holds when the loop has ended. -/
def Ended (w₀ w : TcpState γ) : Prop :=
  ∃ segments, Sends w₀ w segments ∧ (w.socket.pending = [] ∨ w.socket.HeldBack (window w))

/-- The end of the loop notes an error at most. -/
theorem endSending_triple : noFault.Triple (Ended w₀) endSending fun _ => Ended w₀ := by
  refine .update (fun _ _ => trivial) fun w _ hw => ?_
  obtain ⟨segments, hsends, hends⟩ := hw
  dsimp only
  split_ifs
  · have hwindow : window { w with socket := { w.socket with errno := .shutdown } } = window w :=
      congrArg UInt32.toNat (LawfulTcpCongestion.window_congr _ _ _ rfl)
    refine ⟨segments, ?_, ?_⟩
    · exact ⟨hsends.sent, hsends.consecutive, hsends.bytes, hsends.next, hsends.inWindow, hsends.txBuffer,
        hwindow.trans hsends.window_eq⟩
    · rw [hwindow]
      exact hends
  · exact ⟨segments, hsends, hends⟩

/-- The loop ends, as what is pending gets less in every round. -/
theorem sendLoop_triple (h₀ : Safe W none w₀) (hbytes : w₀.socket.txBuffer.data.flatten.length < 2 ^ 32)
    (hsegment : 0 < w₀.socket.segmentSize) (hbound : w₀.socket.endPoint ≠ none) (withAck : Bool) (rounds : ℕ) :
    noFault.Triple (fun w => w.socket.pending.length ≤ rounds ∧ ∃ segments, Progress w₀ w segments)
      (sendLoop withAck rounds) fun _ => Ended w₀ := by
  have hends : ∀ {n : ℕ} (w : TcpState γ), nextPiece w.congestion w.socket = none → noFault.Triple
      (fun w' => id w' = w ∧ w'.socket.pending.length ≤ n ∧ ∃ segments, Progress w₀ w' segments) endSending
      fun _ => Ended w₀ := by
    intro n w hsize
    refine endSending_triple.pre fun w' hw => ?_
    obtain ⟨rfl, -, segments, hprogress⟩ := hw
    rw [← hprogress.sends.txBuffer] at hbytes
    exact ⟨segments, hprogress.sends, nextPiece_none hprogress.places hbytes hsize⟩
  induction rounds with
  | zero =>
    refine .read fun w => ?_
    cases hsize : nextPiece w.congestion w.socket with
    | none => exact hends w hsize
    | some size =>
      refine .stop fun w' hw => ?_
      obtain ⟨rfl, hzero, segments, hprogress⟩ := hw
      have hseg : w'.socket.segmentSize = w₀.socket.segmentSize := congrArg Sender.segmentSize hprogress.sender_eq
      rw [← hprogress.sends.txBuffer] at hbytes
      rw [← hseg] at hsegment
      obtain ⟨-, -, hpending⟩ := nextPiece_some hprogress.places hbytes hsegment hsize
      exact absurd hpending (Nat.not_lt.mpr hzero)
  | succ rounds ih =>
    refine .read fun w => ?_
    cases hsize : nextPiece w.congestion w.socket with
    | none => exact hends w hsize
    | some size =>
      have hsend := @sendDataPacket_triple γ noFault (fun _ _ _ => id)
        (fun c => c = sender w ∧ w.socket.pending.length ≤ rounds + 1 ∧ ∃ segments, Progress w₀ w segments)
        w.socket.nextTxSequence w.socket.highTxMark size w.sent withAck (fun w' hw hnone => ?_) fun w' hw hnone => ?_
      · refine .bind (hsend.pre fun w' hw => ?_) fun sz => .bind ?_ fun _ => ih
        · obtain ⟨rfl, hleft, hprogress⟩ := hw
          exact ⟨⟨rfl, hleft, hprogress⟩, rfl, rfl⟩
        · refine .update (fun _ _ => trivial) fun w' _ hw => ?_
          obtain ⟨⟨hsender, hleft, segments, hprogress⟩, g, hseq, hcopy, rfl, hsent, -⟩ := hw
          rw [show w'.socket.txBuffer = w.socket.txBuffer from congrArg Sender.txBuffer hsender] at hcopy
          have hround := hprogress.round h₀.places hbytes hsegment hsize hsender hsent hseq hcopy
          refine ⟨?_, segments ++ [g], hround⟩
          rw [hround.pending_eq h₀.places hbytes, List.flatMap_append, List.length_append, List.flatMap_singleton,
            ← List.drop_drop, ← hprogress.pending_eq h₀.places hbytes, List.length_drop]
          have hseg : w.socket.segmentSize = w₀.socket.segmentSize := congrArg Sender.segmentSize hprogress.sender_eq
          rw [← hprogress.sends.txBuffer] at hbytes
          rw [← hseg] at hsegment
          obtain ⟨hpos, -, hpending⟩ := nextPiece_some hprogress.places hbytes hsegment hsize
          rw [← Option.some.inj ((copy_eq hprogress.places hbytes size).symm.trans hcopy), List.length_take]
          omega
      · obtain ⟨hsender, -, segments, hprogress⟩ := hw
        rw [show w'.socket.txBuffer = w.socket.txBuffer from congrArg Sender.txBuffer hsender] at hnone
        rw [← hprogress.sends.txBuffer] at hbytes
        rw [copy_eq hprogress.places hbytes size] at hnone
        exact Option.some_ne_none _ hnone
      · obtain ⟨hsender, -, segments, hprogress⟩ := hw
        have hpoint : w'.socket.endPoint = w.socket.endPoint := congrArg Sender.endPoint hsender
        have hpoint₀ : w.socket.endPoint = w₀.socket.endPoint := congrArg Sender.endPoint hprogress.sender_eq
        exact hbound (hpoint₀.symm.trans (hpoint.symm.trans hnone))

omit [LawfulTcpCongestion γ] in
theorem run_sendPendingData_skip {w : TcpState γ} (withAck : Bool)
    (hskip : w.socket.txBuffer.size = 0 ∨ w.socket.endPoint = none) :
    (sendPendingData withAck).run w = (.ok (), w) := by
  have hget : (get : TcpProg γ TcpSocketBase).run w = (.ok w.socket, w) := rfl
  rw [sendPendingData, Prog.run_bind_ok hget, if_pos hskip]
  rfl

/-- `SendPendingData` is disciplined where the next number is in the buffer. -/
theorem Safe.disciplined (h₀ : Safe W none w₀) (hbytes : w₀.socket.txBuffer.data.flatten.length < 2 ^ 32)
    (hsegment : 0 < w₀.socket.segmentSize) : Disciplined (fun s => s.endPoint = none) w₀ := by
  intro withAck
  have hrefl := Progress.refl h₀
  have hleft := toNat_sizeFromSequence h₀.places hbytes
  have hget : (get : TcpProg γ TcpSocketBase).run w₀ = (.ok w₀.socket, w₀) := rfl
  by_cases hskip : w₀.socket.txBuffer.size = 0 ∨ w₀.socket.endPoint = none
  · refine ⟨w₀, [], run_sendPendingData_skip withAck hskip, hrefl.sends, hskip.imp (fun hzero => ?_) .inr⟩
    have hsizes := h₀.size_eq
    rw [show (sender w₀).txBuffer = w₀.socket.txBuffer from rfl, hzero, sizes_eq_length hbytes, ← UInt32.toNat_inj,
      TcpTxBuffer.toNat_ofNat_of_lt hbytes] at hsizes
    rw [pending, List.drop_eq_nil_iff, ← hsizes]
    exact Nat.zero_le _
  · have hbound : w₀.socket.endPoint ≠ none := fun hnone => hskip (.inr hnone)
    have hloop := (sendLoop_triple h₀ hbytes hsegment hbound withAck
      (w₀.socket.txBuffer.sizeFromSequence w₀.socket.nextTxSequence).toNat w₀ trivial).2 ⟨hleft.ge, [], hrefl⟩
    have hrun : (sendPendingData withAck).run w₀ = (sendLoop withAck
        (w₀.socket.txBuffer.sizeFromSequence w₀.socket.nextTxSequence).toNat).run w₀ := by
      rw [sendPendingData, Prog.run_bind_ok hget, if_neg hskip]
    rw [← hrun] at hloop
    rcases hresult : (sendPendingData withAck).run w₀ with ⟨e | _, w⟩
    · rw [hresult] at hloop
      exact absurd hloop id
    · rw [hresult] at hloop
      obtain ⟨segments, hsends, hends⟩ := hloop
      exact ⟨w, segments, rfl, hsends, hends.imp_right .inl⟩

end Loop

/-- In every reachable state `SendPendingData` ends, sends the next bytes within the window, and leaves nothing that is
not held back, unless the socket has no end point. -/
theorem disciplined_of_reachable [LawfulTcpCongestion γ] {depth : ℕ} {w₀ w : TcpState γ}
    {tr : List (TcpState γ × List TcpReaction × TcpState.Event)} (hborn : TcpState.Born depth w₀)
    (hrun : (TcpState.machine γ depth).Run w₀ tr w) (hrunning : w.stopped = none)
    (hbytes : w.socket.txBuffer.data.flatten.length < 2 ^ 32) (hsegment : 0 < w.socket.segmentSize) :
    Disciplined (fun s => s.endPoint = none) w :=
  ((outcome_safe hborn hrun).of_running hrunning).disciplined hbytes hsegment

/-- A connection is made with a window of four bytes, and five are sent. -/
def windowOfFour : List (List TcpReaction × TcpState.Event) :=
  [([], .call (.bind 1000 (some (.new 0 ⟨1⟩ 1000)))), ([], .call (.connect none ⟨2⟩ 80 (some ⟨1⟩))),
    ([], .segment ⟨⟨2⟩, ⟨1⟩, ⟨80, 1000, ⟨0⟩, ⟨1⟩, TcpHeader.SYN ||| TcpHeader.ACK, 4⟩, []⟩),
    ([], .call (.send [1, 2, 3, 4, 5]))]

/-- They are left then, which the window holds back. -/
theorem disciplined_windowOfFour :
    ∃ w : TcpState Unit, w.socket.pending = [1, 2, 3, 4, 5] ∧ w.socket.HeldBack (window w) ∧
      Disciplined (fun s => s.endPoint = none) w := by
  obtain ⟨⟨tr, w⟩, -, hrun, hrunning, hlength, hsegment, hpending, hheld⟩ :=
    (TcpState.machine Unit 0).exists_replay (.new ()) windowOfFour
      (P := fun out => out.2.stopped = none ∧ out.2.socket.txBuffer.data.flatten.length = 5 ∧
        0 < out.2.socket.segmentSize ∧ out.2.socket.pending = [1, 2, 3, 4, 5] ∧
        out.2.socket.HeldBack (window out.2))
      (by decide +kernel)
  exact ⟨w, hpending, hheld, disciplined_of_reachable (.new ()) hrun hrunning (by rw [hlength]; decide) hsegment⟩

end Pending

/-- A connection is made and a byte received. The application closes the socket with the byte unread, which resets the
connection and gives up the end point, and sends. -/
def abandoned : List (List TcpReaction × TcpState.Event) :=
  [([], .call (.bind 1000 (some (.new 0 ⟨1⟩ 1000)))), ([], .call (.connect none ⟨2⟩ 80 (some ⟨1⟩))),
    ([], .segment ⟨⟨2⟩, ⟨1⟩, ⟨80, 1000, ⟨0⟩, ⟨1⟩, TcpHeader.SYN ||| TcpHeader.ACK, 1000⟩, []⟩),
    ([], .segment ⟨⟨2⟩, ⟨1⟩, ⟨80, 1000, ⟨1⟩, ⟨1⟩, TcpHeader.ACK, 1000⟩, [7]⟩), ([], .call .close),
    ([], .call (.send [1, 2, 3]))]

/-- What is left is not held back then, but it is not sent. -/
theorem not_disciplined_abandoned :
    ¬ ∀ (depth : ℕ) (w₀ w : TcpState Unit) (tr : List (TcpState Unit × List TcpReaction × TcpState.Event)),
      TcpState.Born depth w₀ → (TcpState.machine Unit depth).Run w₀ tr w → w.stopped = none →
        w.socket.txBuffer.data.flatten.length < 2 ^ 32 → 0 < w.socket.segmentSize → Disciplined (fun _ => False) w := by
  intro h
  obtain ⟨⟨tr, w⟩, -, hrun, hrunning, hlength, hsegment, hpoint, hpending, hfree⟩ :=
    (TcpState.machine Unit 0).exists_replay (.new ()) abandoned
      (P := fun out => out.2.stopped = none ∧ out.2.socket.txBuffer.data.flatten.length = 3 ∧
        0 < out.2.socket.segmentSize ∧ out.2.socket.endPoint = none ∧ out.2.socket.pending = [1, 2, 3] ∧
        ¬ out.2.socket.HeldBack (window out.2)) (by decide +kernel)
  obtain ⟨w', segments, hsent, -, hends⟩ :=
    h 0 _ w tr (.new ()) hrun hrunning (by rw [hlength]; decide) hsegment true
  rw [run_sendPendingData_skip true (.inr hpoint)] at hsent
  obtain rfl : w = w' := congrArg Prod.snd hsent
  rcases hends with hnone | hheld | hfalse
  · rw [hpending] at hnone
    exact List.cons_ne_nil _ _ hnone
  · exact hfree hheld
  · exact hfalse

end TcpSocketBase

end Ns3
