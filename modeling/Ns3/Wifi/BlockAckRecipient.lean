import Ns3.Wifi.BlockAckManager
import Ns3.Wifi.MacRxMiddle

/-!
# Recipients of block acks

`MacLow` (`wifi/model/mac-low.cc`) buffers the MPDUs that it receives under a block ack agreement, and forwards them in
order. What is done with a packet does not depend on its content, of whatever type. The front of an empty list, where
the code takes it, is `none`. The caches for the bitmaps of block acks are modelled apart (`BlockAckCache`).
-/

namespace Ns3

open Lib

/-- A number that is the greater the later the packet is in the window. -/
def QosUtilsMapSeqControlToUniqueInteger (seqControl endSequence : ℕ) : ℕ :=
  (4096 - (endSequence + 1) + seqControl / 16 % 4096) % 4096 * 16 + seqControl % 16

/-- `BufferedPacket`: an MPDU. -/
structure BufferedPacket (α : Type) where
  packet : α
  hdr : RxHeader

/-- The agreement that an MPDU belongs to. -/
def RxHeader.agreement (hdr : RxHeader) : AgreementKey := (hdr.addr2, hdr.qosTid)

/-- A value of `m_bAckAgreements`. -/
structure RecipientAgreement (α : Type) where
  /-- `m_startingSeq` of the `BlockAckAgreement`. -/
  startingSeq : ℕ
  buffer : List (BufferedPacket α)

namespace RecipientAgreement

variable {α : Type}

variable (a : RecipientAgreement α)

/-- The end of the sequence numbers that are not old. -/
def endSequence : ℕ := (a.startingSeq + 2047) % 4096

/-- The loop of `StoreMpduIfNeeded`. -/
def insertMpdu (endSequence : ℕ) (mpdu : BufferedPacket α) : List (BufferedPacket α) → List (BufferedPacket α)
  | [] => [mpdu]
  | i :: buffer =>
    if QosUtilsMapSeqControlToUniqueInteger i.hdr.sequenceControl endSequence <
        QosUtilsMapSeqControlToUniqueInteger mpdu.hdr.sequenceControl endSequence then
      i :: insertMpdu endSequence mpdu buffer
    else mpdu :: i :: buffer

/-- `StoreMpduIfNeeded`. -/
def storeMpdu (mpdu : BufferedPacket α) : RecipientAgreement α :=
  { a with buffer := insertMpdu a.endSequence mpdu a.buffer }

/-- The condition of the loop in `RxCompleteBufferedPacketsWithSmallerSequence`: what is compared are the sequence
numbers, in the place of sequence controls. -/
def HasSmallerSequence (endSequence seq : ℕ) (i : BufferedPacket α) : Prop :=
  QosUtilsMapSeqControlToUniqueInteger i.hdr.sequenceNumber endSequence <
    QosUtilsMapSeqControlToUniqueInteger seq endSequence
deriving Decidable

/-- The packets from `i` on, after those of the guard's sequence number. -/
def nextPacket (guard : ℕ) (buffer : List (BufferedPacket α)) : List (BufferedPacket α) :=
  buffer.dropWhile fun i => guard / 16 % 4096 = i.hdr.sequenceNumber

/-- The guard at the packet `i`. -/
def guardAt (guard : ℕ) : List (BufferedPacket α) → ℕ
  | [] => guard
  | i :: _ => i.hdr.sequenceControl / 16 * 16

/-- The loop of `RxCompleteBufferedPacketsWithSmallerSequence`, with the packets from `last` to `i` and those from `i`
on: what it forwards, and what it leaves. -/
def smallerLoop (endSequence seq : ℕ) : ℕ → ℕ → List (BufferedPacket α) → List (BufferedPacket α) →
    Option (List (BufferedPacket α) × List (BufferedPacket α))
  | _, _, _, [] => some ([], [])
  | 0, _, _, _ :: _ => none
  | fuel + 1, guard, last, i :: buffer =>
    if HasSmallerSequence endSequence seq i then
      if guard = i.hdr.sequenceControl then
        if i.hdr.moreFragments then smallerLoop endSequence seq fuel ((guard + 1) % 2 ^ 16) last (i :: buffer)
        else
          let next := nextPacket guard (i :: buffer)
          (smallerLoop endSequence seq fuel (guardAt guard next) [] next).map fun x => (last ++ i :: x.1, x.2)
      else
        let next := nextPacket guard (i :: buffer)
        smallerLoop endSequence seq fuel (guardAt guard next) [] next
    else some ([], i :: buffer)

/-- `RxCompleteBufferedPacketsWithSmallerSequence`, with what is forwarded. In two rounds the loop gets further. -/
def rxCompleteBufferedPacketsWithSmallerSequence (seq : ℕ) :
    Option (List (BufferedPacket α) × RecipientAgreement α) :=
  match a.buffer with
  | [] => none
  | first :: buffer =>
    (smallerLoop a.endSequence seq (2 * a.buffer.length) (first.hdr.sequenceControl / 16 * 16) [] (first :: buffer)).map
      fun x => (x.1, { a with buffer := x.2 })

/-- The loop of `RxCompleteBufferedPacketsUntilFirstLost`, with the packets from `lastComplete` to `i` and those from
`i` on: what it forwards, its guard, and what it leaves. -/
def untilLoop (guard : ℕ) (lastComplete : List (BufferedPacket α)) :
    List (BufferedPacket α) → List (BufferedPacket α) × ℕ × List (BufferedPacket α)
  | [] => ([], guard, lastComplete)
  | i :: buffer =>
    if guard = i.hdr.sequenceControl then
      if i.hdr.moreFragments then untilLoop ((guard + 1) % 2 ^ 16) (lastComplete ++ [i]) buffer
      else
        let x := untilLoop ((guard + 16) % 2 ^ 16 / 16 * 16) [] buffer
        (lastComplete ++ i :: x.1, x.2)
    else ([], guard, lastComplete ++ i :: buffer)

/-- `RxCompleteBufferedPacketsUntilFirstLost`, with what is forwarded. -/
def rxCompleteBufferedPacketsUntilFirstLost :
    List (BufferedPacket α) × RecipientAgreement α :=
  let x := untilLoop (a.startingSeq * 16) [] a.buffer
  (x.1, ⟨x.2.1 / 16 % 4096, x.2.2⟩)

/-- One after the other, as they are always called. -/
def rxComplete (seq : ℕ) :
    Option (List (BufferedPacket α) × RecipientAgreement α) :=
  (a.rxCompleteBufferedPacketsWithSmallerSequence seq).map fun x =>
    let y := x.2.rxCompleteBufferedPacketsUntilFirstLost
    (x.1 ++ y.1, y.2)

end RecipientAgreement

/-- What happens at a recipient. -/
inductive RecipientEvent where
  | createBlockAckAgreement (key : AgreementKey) (startingSeq : ℕ)
  | destroyBlockAckAgreement (key : AgreementKey)
  /-- QoS data are received; the policy may be that of a normal ack. -/
  | qosData (hdr : RxHeader) (qosAck : Bool)
  /-- `SendBlockAckAfterBlockAckRequest`, for a request with the given starting sequence. -/
  | blockAckRequest (key : AgreementKey) (startingSeq : ℕ)

/-- The agreements of a `MacLow`, and what was forwarded under each since it was made. A packet is the number of its
MSDU: the sequence number, but counted on where it wraps. -/
structure Recipient where
  bAckAgreements : Store AgreementKey (RecipientAgreement ℤ)
  /-- The starting sequence of an agreement, counted on in the same way. -/
  start : AgreementKey → ℤ
  /-- The packets, the first to be forwarded first. -/
  forwarded : AgreementKey → List (BufferedPacket ℤ)

namespace Recipient

/-- There are no agreements. -/
def new : Recipient := ⟨∅, fun _ => 0, fun _ => []⟩

/-- The number that has the given sequence number, where sequence numbers from 2048 on are old ones. -/
def number (r : Recipient) (key : AgreementKey) (sequenceNumber : ℕ) : ℤ :=
  r.start key - 2048 + (sequenceNumber - (r.start key - 2048)) % 4096

/-- An agreement is changed, packets having been forwarded. Its starting sequence has moved on. -/
def setAgreement (r : Recipient) (key : AgreementKey) (a a' : RecipientAgreement ℤ)
    (forwarded : List (BufferedPacket ℤ)) : Recipient where
  bAckAgreements := r.bAckAgreements.insert key a'
  start := Function.update r.start key (r.start key + Ring.ahead 4096 a.startingSeq a'.startingSeq)
  forwarded := Function.update r.forwarded key (r.forwarded key ++ forwarded)

/-- The packets that are complete are forwarded. -/
def rxComplete (r : Recipient) (key : AgreementKey) (a : RecipientAgreement ℤ) (seq : ℕ) : Option Recipient :=
  (a.rxComplete seq).map fun x => r.setAgreement key a x.2 x.1

/-- The handlers; `none` is what follows when the front of an empty list is taken. -/
def handle (r : Recipient) : RecipientEvent → Option Recipient
  | .createBlockAckAgreement key startingSeq =>
    if (r.bAckAgreements.lookup key).isSome then some r
    else some {
      bAckAgreements := r.bAckAgreements.insert key ⟨startingSeq, []⟩
      start := Function.update r.start key startingSeq
      forwarded := Function.update r.forwarded key [] }
  | .destroyBlockAckAgreement key =>
    match r.bAckAgreements.lookup key with
    | none => some r
    | some a => (r.rxComplete key a a.startingSeq).map fun r =>
        { r with bAckAgreements := r.bAckAgreements.erase key }
  | .qosData hdr qosAck =>
    match r.bAckAgreements.lookup hdr.agreement with
    | none => some r
    | some a =>
      let stored := a.storeMpdu ⟨r.number hdr.agreement hdr.sequenceNumber, hdr⟩
      if qosAck then r.rxComplete hdr.agreement stored stored.startingSeq
      else some (r.setAgreement hdr.agreement a stored [])
  | .blockAckRequest key startingSeq =>
    match r.bAckAgreements.lookup key with
    | none => some r
    | some a => r.rxComplete key a startingSeq

/-- The recipient. Sequence numbers are 12 bits of a header, and fragment numbers 4. -/
def machine : Machine (Option Recipient) RecipientEvent where
  enabled s e := s.isSome = true ∧
    match e with
    | .createBlockAckAgreement _ startingSeq => startingSeq < 4096
    | .destroyBlockAckAgreement _ => True
    | .qosData hdr _ => hdr.sequenceNumber < 4096 ∧ hdr.fragmentNumber < 16
    | .blockAckRequest _ startingSeq => startingSeq < 4096
  exec s e := some (s.bind fun r => r.handle e)

instance (s : Option Recipient) : (e : RecipientEvent) → Decidable (machine.enabled s e)
  | .createBlockAckAgreement _ _ => inferInstanceAs (Decidable (_ ∧ _ < _))
  | .destroyBlockAckAgreement _ => inferInstanceAs (Decidable (_ ∧ True))
  | .qosData _ _ => inferInstanceAs (Decidable (_ ∧ _ < _ ∧ _ < _))
  | .blockAckRequest _ _ => inferInstanceAs (Decidable (_ ∧ _ < _))

end Recipient

end Ns3
